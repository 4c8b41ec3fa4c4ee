import Relocate.Entries
import Relocate.Text.Basic
import Relocate.Text.Utf8

/-!
# File trees

A file tree gives the directories and files of a disk by their locations. A location is the list of
names that lead from the top to it; the top itself is always there, and is not stored. The view of
a tree is `FileTree.get?`.

Whatever is in a tree lies in a directory of it. A tree carries the proof of that: each operation
either leaves a tree behind for which it holds, or leaves the tree as it was.

A file holds a text, or bytes that are not the encoding of any text. There are no symbolic links.
-/
namespace Relocate

/-- The names that lead from the top of a tree to a file or directory. -/
abbrev Location := List Text

/-- What a file holds. -/
inductive Content where
  | text (text : Text)
  | binary (bytes : List UInt8) (fault : Utf8.Fault)
deriving DecidableEq

/-- What a file of these bytes holds. -/
def Content.ofBytes (bytes : List UInt8) : Content :=
  match Utf8.decode bytes with
  | .ok decoded => .text decoded
  | .error fault => .binary bytes fault

/-- A file or a directory. -/
inductive Node where
  | directory
  | file (content : Content)
deriving DecidableEq

/-- Each location is stored once, the top is not stored, and whatever is stored lies in a
directory. -/
structure FileTree.WellFormed (entries : List (Location × Node)) : Prop where
  distinct : (entries.map Prod.fst).Nodup
  below : ∀ entry ∈ entries, entry.1 ≠ []
  inside : ∀ entry ∈ entries, entry.1.dropLast ≠ [] → (entry.1.dropLast, .directory) ∈ entries

/-- The three conditions are looked up entry by entry, so that a tree can be written down as its
entries and its proof found by evaluation. -/
instance (entries : List (Location × Node)) : Decidable (FileTree.WellFormed entries) :=
  decidable_of_iff
    ((entries.map Prod.fst).Nodup ∧ (∀ entry ∈ entries, entry.1 ≠ []) ∧
      ∀ entry ∈ entries, entry.1.dropLast ≠ [] → (entry.1.dropLast, .directory) ∈ entries)
    ⟨fun ⟨distinct, below, inside⟩ => ⟨distinct, below, inside⟩,
      fun wellFormed => ⟨wellFormed.distinct, wellFormed.below, wellFormed.inside⟩⟩

/-- The nodes of a tree below the top, each with its location. -/
structure FileTree where
  entries : List (Location × Node)
  wellFormed : FileTree.WellFormed entries := by decide
deriving DecidableEq

namespace FileTree

/-- The tree that has only the top. -/
def empty : FileTree := { entries := [] }

/-- What is at a location. -/
def get? (tree : FileTree) (location : Location) : Option Node :=
  if location = [] then some .directory
  else (tree.entries.find? fun entry => entry.1 = location).map Prod.snd

/-- The top is a directory of every tree. -/
@[simp, grind =] theorem get?_top (tree : FileTree) : tree.get? [] = some .directory := rfl

/-- Below the top, what is at a location is what is stored with it. -/
theorem get?_eq_some_iff {tree : FileTree} {location : Location} {node : Node}
    (below : location ≠ []) : tree.get? location = some node ↔ (location, node) ∈ tree.entries := by
  rw [get?, if_neg below]
  exact (mem_iff_find? tree.wellFormed.distinct).symm

/-- A directory of the tree is the top or stored as one. -/
theorem get?_eq_directory_iff {tree : FileTree} {location : Location} :
    tree.get? location = some .directory ↔
      (location ≠ [] → (location, .directory) ∈ tree.entries) := by
  by_cases top : location = []
  · simp [top]
  · simp [get?_eq_some_iff top, top]

/-- Whatever is in the tree lies in a directory. -/
theorem rooted {tree : FileTree} {location : Location} {node : Node}
    (found : tree.get? location = some node) : tree.get? location.dropLast = some .directory := by
  by_cases top : location = []
  · rw [top]
    rfl
  · rw [get?_eq_directory_iff]
    exact tree.wellFormed.inside _ ((get?_eq_some_iff top).mp found)

/-- Whatever lies above something in a tree is a directory. -/
theorem above {tree : FileTree} {above below : Location} {node : Node}
    (found : tree.get? (above ++ below) = some node) (apart : below ≠ []) :
    tree.get? above = some .directory := by
  have parent := rooted found
  rw [List.dropLast_append_of_ne_nil apart] at parent
  by_cases last : below.dropLast = []
  · rwa [last, List.append_nil] at parent
  · exact FileTree.above parent last
termination_by below.length
decreasing_by
  have positive := List.length_pos_iff.mpr apart
  rw [List.length_dropLast]
  omega

/-- A location is not its own directory. -/
theorem dropLast_ne {location : Location} (below : location ≠ []) :
    location.dropLast ≠ location := by
  intro same
  have length := congrArg List.length same
  have positive := List.length_pos_iff.mpr below
  rw [List.length_dropLast] at length
  omega

/-- Entries may be taken away if with each location that is kept the one above it is kept. -/
theorem WellFormed.filter {entries : List (Location × Node)} (wellFormed : WellFormed entries)
    (kept : Location → Bool)
    (above : ∀ location, kept location = true → kept location.dropLast = true) :
    WellFormed (entries.filter fun entry => kept entry.1) where
  distinct := wellFormed.distinct.sublist (List.filter_sublist.map _)
  below := fun entry member => wellFormed.below entry (List.mem_filter.mp member).1
  inside := by
    intro entry member deep
    obtain ⟨stored, keeps⟩ := List.mem_filter.mp member
    exact List.mem_filter.mpr ⟨wellFormed.inside entry stored deep, above _ keeps⟩

/-- What lies above no location lies above none that is in it. -/
theorem not_isPrefixOf_dropLast {location other : Location}
    (apart : location.isPrefixOf other = false) : location.isPrefixOf other.dropLast = false := by
  rw [Bool.eq_false_iff, Ne, List.isPrefixOf_iff_prefix] at apart ⊢
  exact fun above => apart (above.trans (List.dropLast_prefix other))

/-- The tree without what is at a location and below it. -/
def erase (tree : FileTree) (location : Location) : FileTree where
  entries := tree.entries.filter fun entry => !location.isPrefixOf entry.1
  wellFormed := by
    refine tree.wellFormed.filter (fun other => !location.isPrefixOf other) fun other kept => ?_
    rw [Bool.not_eq_true'] at kept ⊢
    exact not_isPrefixOf_dropLast kept

/-- The node may be put at the location: that is in a directory, and no directory is replaced by a
file. -/
structure Admits (tree : FileTree) (location : Location) (node : Node) : Prop where
  below : location ≠ []
  parent : tree.get? location.dropLast = some .directory
  kept : tree.get? location = some .directory → node = .directory

instance (tree : FileTree) (location : Location) (node : Node) :
    Decidable (tree.Admits location node) :=
  decidable_of_iff
    (location ≠ [] ∧ tree.get? location.dropLast = some .directory ∧
      (tree.get? location = some .directory → node = .directory))
    ⟨fun ⟨below, parent, kept⟩ => ⟨below, parent, kept⟩,
      fun admits => ⟨admits.below, admits.parent, admits.kept⟩⟩

/-- The entries stay those of a tree when a node is put where it may be. What lies in the location
keeps the directory that it lies in, because a directory may be replaced by a directory only. -/
theorem Admits.wellFormed {tree : FileTree} {location : Location} {node : Node}
    (admits : tree.Admits location node) :
    WellFormed ((location, node) :: tree.entries.filter fun entry => entry.1 ≠ location) where
  distinct := by
    rw [List.map_cons, List.nodup_cons]
    refine ⟨?_, tree.wellFormed.distinct.sublist (List.filter_sublist.map _)⟩
    simp
  below := by
    intro entry member
    obtain rfl | earlier := List.mem_cons.mp member
    · exact admits.below
    · exact tree.wellFormed.below entry (List.mem_filter.mp earlier).1
  inside := by
    intro entry member deep
    have stored : (entry.1.dropLast, Node.directory) ∈ tree.entries := by
      obtain rfl | earlier := List.mem_cons.mp member
      · exact (get?_eq_some_iff deep).mp admits.parent
      · exact tree.wellFormed.inside entry (List.mem_filter.mp earlier).1 deep
    by_cases here : entry.1.dropLast = location
    · rw [here] at stored ⊢
      rw [admits.kept ((get?_eq_some_iff admits.below).mpr stored)]
      exact List.mem_cons_self
    · exact List.mem_cons_of_mem _ (List.mem_filter.mpr ⟨stored, by simpa using here⟩)

/-- The tree with a node put at a location where it may be. -/
def put (tree : FileTree) (location : Location) (node : Node) : FileTree :=
  if admits : tree.Admits location node then
    { entries := (location, node) :: tree.entries.filter fun entry => entry.1 ≠ location
      wellFormed := admits.wellFormed }
  else tree

/-- Putting a node where it may be changes what is at its location and nothing else. -/
@[simp, grind =] theorem get?_put {tree : FileTree} {location : Location} {node : Node}
    (admits : tree.Admits location node) (other : Location) :
    (tree.put location node).get? other =
      if other = location then some node else tree.get? other := by
  by_cases top : other = []
  · have apart : other ≠ location := fun same => admits.below (same.symm.trans top)
    rw [if_neg apart, top]
    rfl
  · apply Option.ext
    intro found
    rw [get?_eq_some_iff top, put, dif_pos admits]
    by_cases same : other = location
    · simp [same, eq_comm]
    · simp [same, get?_eq_some_iff top]

/-- Erasing takes away what is at the location and below it, and nothing else. The top stays. -/
@[simp, grind =] theorem get?_erase {tree : FileTree} {location : Location} (below : location ≠ [])
    (other : Location) :
    (tree.erase location).get? other =
      if location.isPrefixOf other then none else tree.get? other := by
  by_cases top : other = []
  · obtain ⟨name, rest, rfl⟩ := List.exists_cons_of_ne_nil below
    rw [top]
    rfl
  · apply Option.ext
    intro found
    rw [get?_eq_some_iff top, erase, List.mem_filter]
    by_cases above : location.isPrefixOf other = true
    · simp [above]
    · simp [above, get?_eq_some_iff top]

/-- The tree without anything below a location. -/
def clear (tree : FileTree) (location : Location) : FileTree where
  entries := tree.entries.filter fun entry =>
    !location.isPrefixOf entry.1 || entry.1 = location
  wellFormed := tree.wellFormed.filter
    (fun other => !location.isPrefixOf other || other = location) fun other kept => by
    simp only [Bool.or_eq_true, Bool.not_eq_true', decide_eq_true_eq] at kept ⊢
    obtain apart | rfl := kept
    · exact .inl (not_isPrefixOf_dropLast apart)
    · by_cases top : other = []
      · exact .inr (by rw [top]; rfl)
      · left
        rw [Bool.eq_false_iff, Ne, List.isPrefixOf_iff_prefix]
        exact fun above => dropLast_ne top
          (List.IsPrefix.eq_of_length_le (List.dropLast_prefix other) above.length_le)

end FileTree

/-- The location that something has after everything at and below `old` has been moved to `new`. -/
def Location.rebase (location old new : Location) : Location :=
  if old.isPrefixOf location then new ++ location.drop old.length else location

namespace FileTree

/-- Everything at and below one location may be moved to another one: that one is free, in a
directory, and not below the first. -/
structure CanRebase (tree : FileTree) (old new : Location) : Prop where
  free : tree.get? new = none
  parent : tree.get? new.dropLast = some .directory
  apart : old.isPrefixOf new = false

instance (tree : FileTree) (old new : Location) : Decidable (tree.CanRebase old new) :=
  decidable_of_iff
    (tree.get? new = none ∧ tree.get? new.dropLast = some .directory ∧
      old.isPrefixOf new = false)
    ⟨fun ⟨free, parent, apart⟩ => ⟨free, parent, apart⟩,
      fun can => ⟨can.free, can.parent, can.apart⟩⟩

section Rebasing

variable {tree : FileTree} {old new : Location}

/-- The top is not free, so the new location is below it. -/
theorem CanRebase.below (can : tree.CanRebase old new) : new ≠ [] := by
  rintro rfl
  exact absurd can.free (by simp)

/-- The top is not moved, because everything is below it. -/
theorem CanRebase.old_ne_nil (can : tree.CanRebase old new) : old ≠ [] := by
  rintro rfl
  exact absurd can.apart (by simp)

/-- Nothing is stored at or below the new location. -/
theorem CanRebase.unoccupied (can : tree.CanRebase old new) {entry : Location × Node}
    (stored : entry ∈ tree.entries) : ¬ new <+: entry.1 := by
  rintro ⟨rest, same⟩
  have found : tree.get? (new ++ rest) = some entry.2 := by
    rw [same]
    exact (get?_eq_some_iff (tree.wellFormed.below entry stored)).mpr stored
  by_cases last : rest = []
  · rw [last, List.append_nil, can.free] at found
    simp at found
  · have directory := FileTree.above found last
    rw [can.free] at directory
    simp at directory

/-- The location of something that is moved, and of something that is not. -/
@[simp] theorem rebase_append (old new rest : Location) :
    Location.rebase (old ++ rest) old new = new ++ rest := by
  rw [Location.rebase, if_pos (List.isPrefixOf_iff_prefix.mpr (List.prefix_append old rest)),
    List.drop_left]

/-- A location that does not lie below the old one is not moved with it. -/
@[simp] theorem rebase_of_apart {location : Location} (apart : ¬ old <+: location) :
    Location.rebase location old new = location := by
  rw [Location.rebase, if_neg (by simpa using apart)]

/-- Different locations of the tree stay different: what is moved goes to where nothing else is. By
cases on which of the two are moved; if only one is, the other would lie below the new location. -/
theorem CanRebase.injective (can : tree.CanRebase old new) {entry other : Location × Node}
    (stored : entry ∈ tree.entries) (otherStored : other ∈ tree.entries)
    (same : entry.1.rebase old new = other.1.rebase old new) : entry.1 = other.1 := by
  by_cases moved : old <+: entry.1
  · obtain ⟨rest, moved⟩ := moved
    rw [← moved, rebase_append] at same
    by_cases otherMoved : old <+: other.1
    · obtain ⟨otherRest, otherMoved⟩ := otherMoved
      rw [← otherMoved, rebase_append] at same
      rw [← moved, ← otherMoved, List.append_cancel_left same]
    · rw [rebase_of_apart otherMoved] at same
      exact absurd ⟨rest, same⟩ (can.unoccupied otherStored)
  · rw [rebase_of_apart moved] at same
    by_cases otherMoved : old <+: other.1
    · obtain ⟨otherRest, otherMoved⟩ := otherMoved
      rw [← otherMoved, rebase_append] at same
      exact absurd ⟨otherRest, same.symm⟩ (can.unoccupied stored)
    · rwa [rebase_of_apart otherMoved] at same

/-- What is moved keeps the directories between it and the location that is moved, and that one goes
into the directory of the new location. -/
theorem CanRebase.wellFormed (can : tree.CanRebase old new) :
    WellFormed (tree.entries.map fun entry => (entry.1.rebase old new, entry.2)) where
  distinct := by
    rw [List.map_map, List.Nodup, List.pairwise_map]
    refine (List.pairwise_map.mp tree.wellFormed.distinct).imp_of_mem ?_
    intro entry other stored otherStored apart same
    exact apart (can.injective stored otherStored same)
  below := by
    intro moved member
    obtain ⟨entry, stored, rfl⟩ := List.mem_map.mp member
    by_cases inside : old <+: entry.1
    · obtain ⟨rest, whole⟩ := inside
      rw [← whole, rebase_append]
      exact List.append_ne_nil_of_left_ne_nil can.below rest
    · simpa [inside] using tree.wellFormed.below entry stored
  inside := by
    intro moved member deep
    obtain ⟨entry, stored, rfl⟩ := List.mem_map.mp member
    have carry {location : Location} (directory : (location, Node.directory) ∈ tree.entries) :
        (location.rebase old new, Node.directory) ∈
          tree.entries.map fun entry => (entry.1.rebase old new, entry.2) :=
      List.mem_map.mpr ⟨_, directory, rfl⟩
    by_cases inside : old <+: entry.1
    · obtain ⟨rest, whole⟩ := inside
      rw [← whole, rebase_append] at deep ⊢
      by_cases top : rest = []
      · rw [top, List.append_nil] at deep ⊢
        have kept := carry ((get?_eq_some_iff deep).mp can.parent)
        have outside : ¬ old <+: new.dropLast := by
          rw [← List.isPrefixOf_iff_prefix, not_isPrefixOf_dropLast can.apart]
          exact Bool.false_ne_true
        rwa [rebase_of_apart outside] at kept
      · rw [List.dropLast_append_of_ne_nil top] at deep ⊢
        have parent := tree.wellFormed.inside entry stored
        rw [← whole, List.dropLast_append_of_ne_nil top] at parent
        have kept := carry (parent (List.append_ne_nil_of_left_ne_nil can.old_ne_nil _))
        rwa [rebase_append] at kept
    · rw [rebase_of_apart inside] at deep ⊢
      have kept := carry (tree.wellFormed.inside entry stored deep)
      have outside : ¬ old <+: entry.1.dropLast := fun above =>
        inside (above.trans (List.dropLast_prefix entry.1))
      rwa [rebase_of_apart outside] at kept

end Rebasing

/-- The tree in which everything at and below a location has been moved to another one, if that
may be. -/
def rebase (tree : FileTree) (old new : Location) : FileTree :=
  if can : tree.CanRebase old new then
    { entries := tree.entries.map fun entry => (entry.1.rebase old new, entry.2)
      wellFormed := can.wellFormed }
  else tree

/-- The names in a directory, in order. -/
def children (tree : FileTree) (location : Location) : List Text :=
  Text.sort (tree.entries.filterMap fun entry =>
    if entry.1.dropLast = location then entry.1.getLast? else none)

/-- The order in which files are listed: those of a directory before those of its subdirectories,
and by name. -/
def listedBefore : Location → Location → Bool
  | [], _ => true
  | _ :: _, [] => false
  | [name], [other] => Text.le name other
  | [_], _ :: _ :: _ => true
  | _ :: _ :: _, [_] => false
  | name :: rest, other :: others =>
    if name = other then listedBefore rest others else Text.le name other

/-- The files below a directory in the order of listing, each by its location from there. -/
def filesBelow (tree : FileTree) (location : Location) : List Location :=
  sortBy listedBefore (tree.entries.filterMap fun entry =>
    match entry.2 with
    | .directory => none
    | .file _ =>
      if location.isPrefixOf entry.1 && location ≠ entry.1 then some (entry.1.drop location.length)
      else none)

/-- The tree with a directory at each of the given locations that has nothing yet. -/
def addDirectories (tree : FileTree) (locations : List Location) : FileTree :=
  locations.foldl
    (fun tree location =>
      if (tree.get? location).isSome then tree else tree.put location .directory)
    tree

/-- The tree with a directory and those above it. -/
def addDirectory (tree : FileTree) (location : Location) : FileTree :=
  tree.addDirectories ((List.range location.length).map fun depth => location.take (depth + 1))

/-- The tree with a file and the directories above it. -/
def addFile (tree : FileTree) (location : Location) (content : Content) : FileTree :=
  (tree.addDirectory location.dropLast).put location (.file content)

end FileTree

/-- The absolute path of a location. -/
def Location.path (location : Location) : Text := '/' :: Text.join ['/'] location

end Relocate
