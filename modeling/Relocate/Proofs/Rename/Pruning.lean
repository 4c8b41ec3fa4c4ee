import Relocate.Proofs.Disk.NormalPaths
import Relocate.Proofs.Rename.Effect

/-!
# Which directories pruning removes

Pruning looks at a directory and goes up from it as long as it removes what it looks at. Which
directories of this chain go is settled by the tree as it was before: `FileTree.Clears` asks of each
that it holds nothing but the one below it, which has gone already. One round removes the first
directory of the chain and leaves the same question for the rest (`clears_erase_iff`), or removes
nothing (`run_pruneWith_step`, `run_pruneWith_stop`). A whole run removes the chain up to the first
directory that has to stay (`run_pruneWith`).

The top is the last directory of every chain. If all the others have gone and nothing else is in it,
the run tries to remove it as well and fails, since it is in use (`run_pruneWith_top`).
-/
namespace Relocate

/-- The location some directories above another one. The top is above everything. -/
def Location.ancestor (location : Location) (above : Nat) : Location :=
  location.take (location.length - above)

/-- The first directories of the chain from a location up. -/
def Location.chain (location : Location) (count : Nat) : List Location :=
  (List.range count).map location.ancestor

/-- The path of the location and the names in it are short enough to be looked for. -/
def Location.Fits (location : Location) : Prop :=
  Utf8.size location.path ≤ longestPath ∧ ∀ name ∈ location, Utf8.size name ≤ longestName

instance (location : Location) : Decidable location.Fits := inferInstanceAs (Decidable (_ ∧ _))

/-- No name in the tree holds a null character. -/
def FileTree.NullFree (tree : FileTree) : Prop :=
  ∀ entry ∈ tree.entries, ∀ name ∈ entry.1, '\x00' ∉ name

instance (tree : FileTree) : Decidable tree.NullFree :=
  inferInstanceAs (Decidable (∀ entry ∈ tree.entries, ∀ name ∈ entry.1, '\x00' ∉ name))

/-- The directory so many steps above a location may go once those below it have gone: it is there,
no root has its path in any case of letters, and nothing is in it but the directory one step
below. -/
structure FileTree.Clears (tree : FileTree) (roots : List Text) (location : Location)
    (above : Nat) : Prop where
  directory : tree.get? (location.ancestor above) = some .directory
  noRoot : ∀ root ∈ roots,
    Text.lower root ≠ Text.lower (Location.path (location.ancestor above))
  alone : ∀ name, tree.get? (location.ancestor above ++ [name]) ≠ none →
    0 < above ∧ location.ancestor above ++ [name] = location.ancestor (above - 1)

section Chain

variable {tree : FileTree} {roots : List Text} {location : Location} {above : Nat}

/-- The chain starts at the location itself. -/
@[simp] theorem ancestor_zero (location : Location) : location.ancestor 0 = location := by
  simp [Location.ancestor]

/-- As many steps up as there are names, the top is reached. -/
@[simp] theorem ancestor_length (location : Location) :
    location.ancestor location.length = [] := by
  simp [Location.ancestor]

/-- The chain of the directory above is the chain of the location from its second one on. -/
@[simp] theorem ancestor_dropLast (location : Location) (above : Nat) :
    Location.ancestor location.dropLast above = location.ancestor (above + 1) := by
  rw [Location.ancestor, Location.ancestor, List.length_dropLast, List.dropLast_eq_take,
    List.take_take]
  congr 1
  omega

/-- Each step up leaves one name less, until there is none. -/
@[simp] theorem length_ancestor (location : Location) (above : Nat) :
    (location.ancestor above).length = location.length - above := by
  rw [Location.ancestor, List.length_take]
  omega

/-- Nothing is on a chain of no directories. -/
@[simp] theorem chain_zero (location : Location) : location.chain 0 = [] := rfl

/-- A chain is its first directory and then a chain from the one above. -/
theorem chain_succ (location : Location) (count : Nat) :
    location.chain (count + 1) = location :: Location.chain location.dropLast count := by
  rw [Location.chain, List.range_succ_eq_map, List.map_cons, ancestor_zero, List.map_map,
    Location.chain]
  congr 2
  funext above
  exact (ancestor_dropLast location above).symm

/-- What is on a chain is some steps above its start. -/
theorem mem_chain {other : Location} {count : Nat} :
    other ∈ location.chain count ↔ ∃ above, above < count ∧ location.ancestor above = other := by
  simp [Location.chain]

/-- The first directory of the chain may go exactly if it is empty and no root. -/
theorem clears_zero_iff :
    tree.Clears roots location 0 ↔
      tree.get? location = some .directory ∧
        (∀ root ∈ roots, Text.lower root ≠ Text.lower location.path) ∧
        tree.children location = [] := by
  rw [FileTree.children_eq_nil_iff]
  constructor
  · rintro ⟨directory, noRoot, alone⟩
    rw [ancestor_zero] at directory noRoot alone
    refine ⟨directory, noRoot, fun name => ?_⟩
    exact Decidable.byContradiction fun taken => absurd (alone name taken).1 (Nat.lt_irrefl 0)
  · rintro ⟨directory, noRoot, empty⟩
    constructor
    · rwa [ancestor_zero]
    · rwa [ancestor_zero]
    · rw [ancestor_zero]
      exact fun name taken => absurd (empty name) taken

/-- Once the first directory of the chain has gone, the rest may go as before. Its removal is seen
by the second one alone, which has it as a child; of the others each has the child it had. -/
theorem clears_erase_iff (empty : tree.children location = []) (inside : above < location.length) :
    (tree.erase location).Clears roots location.dropLast above ↔
      tree.Clears roots location (above + 1) := by
  have below : location ≠ [] := List.length_pos_iff.mp (Nat.lt_of_le_of_lt (Nat.zero_le _) inside)
  have erased := FileTree.get?_erase_leaf below (FileTree.children_eq_nil_iff.mp empty)
  have shorter : location.ancestor (above + 1) ≠ location := by
    intro same
    have length := congrArg List.length same
    rw [length_ancestor] at length
    omega
  have here : (tree.erase location).get? (location.ancestor (above + 1)) =
      tree.get? (location.ancestor (above + 1)) := by
    rw [erased, if_neg shorter]
  have child (name : Text) (same : location.ancestor (above + 1) ++ [name] = location) :
      above = 0 := by
    have length := congrArg List.length same
    rw [List.length_append, length_ancestor, List.length_singleton] at length
    omega
  have step (positive : 0 < above) :
      Location.ancestor location.dropLast (above - 1) = location.ancestor above := by
    simp [Nat.sub_add_cancel positive]
  constructor
  · rintro ⟨directory, noRoot, alone⟩
    rw [ancestor_dropLast] at directory noRoot alone
    refine ⟨here ▸ directory, noRoot, fun name taken => ⟨Nat.succ_pos _, ?_⟩⟩
    rw [Nat.add_sub_cancel]
    by_cases same : location.ancestor (above + 1) ++ [name] = location
    · obtain rfl := child name same
      rwa [ancestor_zero]
    · obtain ⟨positive, next⟩ := alone name (by rwa [erased, if_neg same])
      rw [next, step positive]
  · rintro ⟨directory, noRoot, alone⟩
    constructor
    · rwa [ancestor_dropLast, here]
    · rwa [ancestor_dropLast]
    · intro name taken
      rw [ancestor_dropLast] at taken ⊢
      rw [erased] at taken
      split at taken
      · exact absurd rfl taken
      · rename_i other
        obtain ⟨-, next⟩ := alone name taken
        rw [Nat.add_sub_cancel] at next
        have positive : 0 < above := by
          refine Nat.pos_of_ne_zero fun zero => other ?_
          rw [next, zero, ancestor_zero]
        exact ⟨positive, by rw [next, step positive]⟩

end Chain

section Looking

variable {disk : Disk} {location : Location}

/-- A normalized path with one slash in front is the path of a location. -/
theorem exists_path_of_normal {path : Text} (absolute : Path.isAbsolute path = true)
    (clean : '\\' ∉ path)
    (single : Text.startsWith ['/', '/'] (Path.normalize ['/'] path) = false) :
    ∃ location : Location, location.Named ∧ Path.normalize ['/'] path = location.path := by
  obtain ⟨named, normal⟩ := normalize_absolute ['/'] absolute clean
  obtain root | root := Path.root_absolute absolute
  · rw [root] at normal
    exact ⟨_, named, normal⟩
  · rw [normal, root] at single
    simp [Text.startsWith, List.isPrefixOf] at single

/-- A path has a slash for every name of its location. -/
theorem length_le_path (location : Location) : location.length ≤ location.path.length := by
  cases location with
  | nil => simp
  | cons first others =>
    have slashes : others.length ≤ (others.flatMap (['/'] ++ ·)).length := by
      induction others with
      | nil => simp
      | cons name others inductionHypothesis =>
        simp only [List.flatMap_cons, List.length_append, List.length_cons] at inductionHypothesis ⊢
        omega
    rw [Location.path, Text.join_cons, List.length_cons, List.length_cons, List.length_append]
    omega

/-- If a location can be looked for, the directory above it can, too. -/
theorem Location.Fits.above (fits : location.Fits) (named : location.Named) :
    Location.Fits location.dropLast := by
  refine ⟨?_, fun name member => fits.2 name (List.dropLast_subset _ member)⟩
  have shorter := size_pathBelow_dropLast ['/'] named.isSegment
  have whole (names : Location) (plain : ∀ name ∈ names, isSegment name = true) :
      Disk.pathBelow ['/'] names = names.path := by
    rw [pathBelow_eq _ plain]
    rfl
  rw [whole _ named.isSegment,
    whole _ fun name member => named.isSegment name (List.dropLast_subset _ member)] at shorter
  exact Nat.le_trans shorter fits.1

/-- The path of something on the disk has no null character, so it can be asked for. -/
theorem FileTree.NullFree.path {tree : FileTree} (nullFree : tree.NullFree) {node : Node}
    (found : tree.get? location = some node) : Path.holdsNull location.path = false := by
  rw [Path.holdsNull, Bool.eq_false_iff]
  intro null
  obtain ⟨name, member, held⟩ := mem_name_of_mem_path (List.contains_iff_mem.mp null) (by decide)
  have below : location ≠ [] := List.ne_nil_of_mem member
  exact nullFree _ ((FileTree.get?_eq_some_iff below).mp found) name member held

/-- Removing something brings no null character in. -/
theorem FileTree.NullFree.erase {tree : FileTree} (nullFree : tree.NullFree)
    (location : Location) : (tree.erase location).NullFree :=
  fun entry member => nullFree entry (List.mem_filter.mp member).1

/-- What is seen at the path of a location is there, and the path is short enough. To be seen it has
to be followed, which checks the length of the path and of each name. -/
theorem get?_of_look (named : location.Named) {node : Node}
    (looked : disk.look location.path = .ok (some node)) :
    disk.tree.get? location = some node ∧ location.Fits := by
  have found : ∃ place, disk.locate location.path = .ok place ∧
      disk.nodeAt place = some node := by
    unfold Disk.look at looked
    split at looked
    · rename_i place seen found
      obtain rfl := Option.some.inj (Except.ok.inj looked)
      cases seen with
      | directory => exact ⟨place, Disk.find_directory_iff.mp found⟩
      | file content =>
        obtain ⟨located, here, -⟩ := Disk.find_file_iff.mp found
        exact ⟨place, located, here⟩
    · simp at looked
    · simp at looked
  obtain ⟨place, located, here⟩ := found
  obtain rfl := Disk.locate_absolute (isAbsolute_path location) located
  rw [destination_path named] at here
  obtain ⟨-, short, -, followed⟩ := Disk.followFrom_ok_iff.mp located
  rw [steps_path named] at followed
  exact ⟨here, short, Disk.short_of_follow followed⟩

/-- Whatever is at a location that fits is found by its path. -/
theorem find_fitting (nullFree : disk.tree.NullFree) (named : location.Named) (fits : location.Fits)
    {node : Node} (found : disk.tree.get? location = some node) :
    disk.find location.path = .ok (.ofLocation location, node) :=
  find_of_get? named (nullFree.path found) fits.1 fits.2 found

/-- At the path of a location that fits, what is there is seen. Looking fails only where something
is too long. -/
theorem look_fitting (nullFree : disk.tree.NullFree) (named : location.Named)
    (fits : location.Fits) :
    disk.look location.path = .ok (disk.tree.get? location) := by
  cases found : disk.tree.get? location with
  | some node =>
    rw [Disk.look, find_fitting nullFree named fits found]
  | none =>
    cases looked : disk.look location.path with
    | error error =>
      obtain ⟨-, ⟨-, long⟩ | ⟨name, member, long⟩⟩ := Disk.tooLong_of_look looked
      · exact absurd fits.1 (Nat.not_le.mpr long)
      · rw [steps_path named] at member
        exact absurd (fits.2 name member) (Nat.not_le.mpr long)
    | ok seen =>
      cases seen with
      | none => rfl
      | some node => simp [(get?_of_look named looked).1] at found

end Looking

/-- The world without a directory, with its removal recorded. -/
def World.without (world : World) (location : Location) : World :=
  ⟨world.disk.eraseDirectory location, world.locked,
    world.events ++ [.removing location.path]⟩

/-- The world with one more event recorded. -/
def World.recording (world : World) (event : Event) : World :=
  ⟨world.disk, world.locked, world.events ++ [event]⟩

/-- From one world to another so many directories of a chain have gone, each of which might go, and
nothing else has changed in the tree. The top is none of them. -/
structure World.Cleared (world : World) (roots : List Text) (location : Location) (count : Nat)
    (after : World) : Prop where
  inside : count ≤ location.length
  clears : ∀ above < count, world.disk.tree.Clears roots location above
  tree : ∀ other, after.disk.tree.get? other =
    if other ∈ location.chain count then none else world.disk.tree.get? other
  events : after.events =
    world.events ++ (location.chain count).map fun gone => .removing gone.path
  locked : after.locked = world.locked

namespace World.Cleared

variable {world after : World} {roots : List Text} {location : Location} {count : Nat}

/-- No directory of the chain has gone yet. -/
theorem start (world : World) (roots : List Text) (location : Location) :
    world.Cleared roots location 0 world where
  inside := Nat.zero_le _
  clears := fun above less => absurd less (Nat.not_lt_zero above)
  tree := fun other => by simp
  events := by simp
  locked := rfl

/-- A chain that has gone behind its first directory has gone as a whole. Once the first directory
has gone, the one above it is empty if it held nothing else. -/
theorem step (below : location ≠ []) (first : world.disk.tree.Clears roots location 0)
    (cleared : (world.without location).Cleared roots location.dropLast count after) :
    world.Cleared roots location (count + 1) after := by
  obtain ⟨-, -, empty⟩ := clears_zero_iff.mp first
  have positive := List.length_pos_iff.mpr below
  have inside := cleared.inside
  rw [List.length_dropLast] at inside
  constructor
  · omega
  · intro above less
    cases above with
    | zero => exact first
    | succ above => exact (clears_erase_iff empty (by omega)).mp (cleared.clears above (by omega))
  · intro other
    have erased : (world.without location).disk.tree.get? other =
        if other = location then none else world.disk.tree.get? other :=
      FileTree.get?_erase_leaf below (FileTree.children_eq_nil_iff.mp empty) other
    rw [cleared.tree, erased, chain_succ]
    by_cases same : other = location
    · simp [same]
    · simp [same]
  · rw [cleared.events, chain_succ]
    simp [World.without]
  · exact cleared.locked

/-- What is not on the chain stays. -/
theorem kept {other : Location} (cleared : world.Cleared roots location count after)
    (outside : other ∉ location.chain count) :
    after.disk.tree.get? other = world.disk.tree.get? other := by
  rw [cleared.tree, if_neg outside]

/-- Only directories go, so every file stays what it was. -/
theorem fileAt (cleared : world.Cleared roots location count after) (other : Location) :
    after.disk.tree.fileAt other = world.disk.tree.fileAt other := by
  by_cases gone : other ∈ location.chain count
  · obtain ⟨above, less, rfl⟩ := mem_chain.mp gone
    simp [FileTree.fileAt, cleared.tree, gone, (cleared.clears above less).directory]
  · simp [FileTree.fileAt, cleared.kept gone]

/-- A directory with a file in it stays. -/
theorem holding (cleared : world.Cleared roots location count after) {other : Location}
    {name : Text} {content : Content}
    (file : world.disk.tree.get? (other ++ [name]) = some (.file content)) :
    other ∉ location.chain count := by
  intro gone
  obtain ⟨above, less, rfl⟩ := mem_chain.mp gone
  obtain ⟨positive, next⟩ := (cleared.clears above less).alone name (by simp [file])
  have directory := (cleared.clears (above - 1) (by omega)).directory
  rw [← next, file] at directory
  simp at directory

/-- A root stays, and so does what only differs from it by the case of letters. -/
theorem root (cleared : world.Cleared roots location count after) {other : Location} {root : Text}
    (member : root ∈ roots) (same : Text.lower root = Text.lower other.path) :
    other ∉ location.chain count := by
  intro gone
  obtain ⟨above, less, rfl⟩ := mem_chain.mp gone
  exact (cleared.clears above less).noRoot root member same

/-- The top stays. -/
theorem top (cleared : world.Cleared roots location count after) : [] ∉ location.chain count := by
  intro gone
  obtain ⟨above, less, same⟩ := mem_chain.mp gone
  have length := congrArg List.length same
  have inside := cleared.inside
  rw [length_ancestor, List.length_nil] at length
  omega

/-- If something is left in the top, the chain has not got there: it has come to a directory that
has to stay. For the top may go only if all that is in it is the last directory of the chain below
it, which has gone. -/
theorem stays_of_top (cleared : world.Cleared roots location count after) {name : Text}
    (full : after.disk.tree.get? [name] ≠ none) (reached : count = location.length) :
    ¬ world.disk.tree.Clears roots location count := by
  intro clears
  rw [cleared.tree] at full
  split at full
  · exact absurd rfl full
  · rename_i outside
    have alone := clears.alone name
    rw [reached, ancestor_length, List.nil_append] at alone
    obtain ⟨positive, next⟩ := alone full
    exact outside (mem_chain.mpr ⟨location.length - 1, by omega, next.symm⟩)

/-- Where the chain has come to a directory that has to stay, there is nothing more to remove. By
cases on the count: nothing has been removed, or the first directory is gone. -/
theorem again (cleared : world.Cleared roots location count after)
    (stays : ¬ world.disk.tree.Clears roots location count) :
    ¬ after.disk.tree.Clears roots location 0 := by
  intro clears
  obtain ⟨directory, noRoot, empty⟩ := clears_zero_iff.mp clears
  cases count with
  | zero =>
    refine stays (clears_zero_iff.mpr ⟨?_, noRoot, ?_⟩)
    · rwa [← cleared.kept (by simp)]
    · rw [FileTree.children_eq_nil_iff] at empty ⊢
      intro name
      rw [← cleared.kept (by simp), empty name]
  | succ count =>
    rw [cleared.tree, chain_succ, if_pos List.mem_cons_self] at directory
    simp at directory

end World.Cleared

section Rounds

variable {world : World} {location : Location}

/-- A directory is seen where looking finds one. -/
theorem run_isDirectory {path : Text} {seen : Option Node}
    (looked : world.disk.look (Path.tidy path) = .ok seen) :
    (Action.isDirectory path).run world = (.ok (seen == some .directory), world) := by
  have look : (Action.look path).run world = (.ok seen, world) := by simp [Action.look, looked]
  match seen with
  | none | some .directory | some (.file _) => simp [Action.isDirectory, look]

/-- A path that leads anywhere may be worked on. -/
theorem run_checkPath {path : Text} {place : Place}
    (located : world.disk.locate path = .ok place) :
    (Action.checkPath path).run world = (.ok (), world) := by
  simp [Action.checkPath, (Disk.followFrom_ok_iff.mp located).1]

/-- A directory that is found is listed. -/
theorem run_list {path : Text} {place : Place}
    (found : world.disk.find path = .ok (place, .directory)) :
    (Action.list path).run world = (.ok (world.disk.childrenAt place), world) := by
  obtain ⟨located, -⟩ := Disk.find_directory_iff.mp found
  have listed : world.disk.list path = .ok (world.disk.childrenAt place) := by
    simp [Disk.list, Disk.findDirectory, found, Except.map]
  simp [Action.list, run_checkPath located, listed]

/-- An empty directory below the top can be removed by the path of its location. The path ends in a
name, so that it is not refused for a last segment of dots. -/
theorem run_removeDirectory (named : location.Named) (below : location ≠ [])
    (found : world.disk.find location.path = .ok (.ofLocation location, .directory))
    (empty : world.disk.tree.children location = []) :
    (Action.removeDirectory location.path).run world =
      (.ok (), ⟨world.disk.eraseDirectory location, world.locked, world.events⟩) := by
  obtain ⟨located, here⟩ := Disk.find_directory_iff.mp found
  have removed : world.disk.removeDirectory location.path =
      .ok (world.disk.eraseDirectory location) := by
    obtain ⟨above, name, rfl⟩ : ∃ above name, location = above ++ [name] :=
      ⟨_, _, (List.dropLast_concat_getLast below).symm⟩
    obtain ⟨notHere, notUp⟩ := named.plain name (by simp)
    have childless : world.disk.childrenAt (.ofLocation (above ++ [name])) = [] := empty
    rw [Disk.removeDirectory, located, steps_path named, List.getLast?_concat]
    simp only [here, childless]
    split <;> simp_all [Place.ofLocation]
  simp [Action.removeDirectory, run_checkPath located, removed]

/-- The top cannot be removed. -/
theorem run_removeDirectory_top (world : World) :
    (Action.removeDirectory (Location.path [])).run world =
      (.error (.os ⟨.busy, [Location.path []]⟩), world) := by
  have located : world.disk.locate (Location.path []) = .ok (.ofLocation []) := rfl
  rw [Action.removeDirectory, Action.run_bind, run_checkPath located]
  rfl

/-- Absolute paths are normalized without a look at the disk. -/
theorem run_normalizeAll {paths : List Text}
    (absolute : ∀ path ∈ paths, Path.isAbsolute path = true) (world : World) :
    (Action.normalizeAll paths).run world = (.ok (paths.map (Path.normalize ['/'])), world) := by
  induction paths with
  | nil => rfl
  | cons path paths inductionHypothesis =>
    simp only [List.forall_mem_cons] at absolute
    have first : (Action.normalize path).run world = (.ok (Path.normalize ['/'] path), world) :=
      Action.run_normalize (Disk.normalize_of_absolute absolute.1 world.disk)
    simp [Action.normalizeAll, first, inductionHypothesis absolute.2]

end Rounds

namespace Project

section Runs

variable {world : World} {location : Location} {roots boundaries : List Text} {bound : Nat}

/-- A directory that has to stay ends the run with nothing changed. It is a root, no directory, or
not empty, and each of these ends the run. -/
theorem run_pruneWith_stop (nullFree : world.disk.tree.NullFree) (named : location.Named)
    (fits : location.Fits)
    (bounds : ∀ text, text ∈ boundaries ↔ ∃ root ∈ roots, Text.lower root = text)
    (stays : ¬ world.disk.tree.Clears roots location 0) :
    (pruneWith boundaries (bound + 1) location.path).run world = (.ok (), world) := by
  have looked := look_fitting nullFree named fits
  rw [pruneWith]
  split
  · rfl
  · rename_i noRoot
    rw [List.contains_iff_mem, bounds] at noRoot
    have asked := run_isDirectory (tidy_path named ▸ looked)
    by_cases directory : world.disk.tree.get? location = some .directory
    · have found := find_fitting nullFree named fits directory
      have full : world.disk.childrenAt (.ofLocation location) ≠ [] := fun empty =>
        stays (clears_zero_iff.mpr ⟨directory, fun root member same => noRoot ⟨root, member, same⟩,
          empty⟩)
      simp [asked, directory, run_list found, full]
    · simp [asked, directory]

/-- A directory that may go is tried: its removal is recorded and made, and the run goes on with
what is above it. -/
theorem run_pruneWith_try (nullFree : world.disk.tree.NullFree) (named : location.Named)
    (fits : location.Fits)
    (bounds : ∀ text, text ∈ boundaries ↔ ∃ root ∈ roots, Text.lower root = text)
    (clears : world.disk.tree.Clears roots location 0) :
    (pruneWith boundaries (bound + 1) location.path).run world =
      (do
        Action.removeDirectory location.path
        if Path.directory location.path = location.path then pure ()
        else pruneWith boundaries bound (Path.directory location.path) : Action Unit).run
          (world.recording (.removing location.path)) := by
  obtain ⟨directory, noRoot, empty⟩ := clears_zero_iff.mp clears
  have looked := look_fitting nullFree named fits
  have found := find_fitting nullFree named fits directory
  have outside : ¬ boundaries.contains (Text.lower location.path) = true := by
    rw [List.contains_iff_mem, bounds]
    rintro ⟨root, member, same⟩
    exact noRoot root member same
  have childless : world.disk.childrenAt (.ofLocation location) = [] := empty
  have asked := run_isDirectory (tidy_path named ▸ looked)
  rw [pruneWith, if_neg outside]
  simp [asked, directory, run_list found, childless, World.recording]

/-- A directory below the top that may go is removed, and the run goes on above it. -/
theorem run_pruneWith_step (nullFree : world.disk.tree.NullFree) (named : location.Named)
    (fits : location.Fits)
    (bounds : ∀ text, text ∈ boundaries ↔ ∃ root ∈ roots, Text.lower root = text)
    (below : location ≠ []) (clears : world.disk.tree.Clears roots location 0) :
    (pruneWith boundaries (bound + 1) location.path).run world =
      (pruneWith boundaries bound (Location.path location.dropLast)).run
        (world.without location) := by
  obtain ⟨directory, -, empty⟩ := clears_zero_iff.mp clears
  have found : (world.recording (.removing location.path)).disk.find location.path =
      .ok (.ofLocation location, .directory) := find_fitting nullFree named fits directory
  have higher : Location.path location.dropLast ≠ location.path := fun same =>
    FileTree.dropLast_ne below (path_inj (named.above (List.dropLast_prefix _)) named same)
  rw [run_pruneWith_try nullFree named fits bounds clears]
  simp only [Action.run_bind, run_removeDirectory named below found empty, directory_path named,
    if_neg higher]
  rfl

/-- The top, where it may go, is tried and fails. -/
theorem run_pruneWith_top (nullFree : world.disk.tree.NullFree)
    (bounds : ∀ text, text ∈ boundaries ↔ ∃ root ∈ roots, Text.lower root = text)
    (clears : world.disk.tree.Clears roots [] 0) :
    (pruneWith boundaries (bound + 1) (Location.path [])).run world =
      (.error (.os ⟨.busy, [Location.path []]⟩),
        world.recording (.removing (Location.path []))) := by
  rw [run_pruneWith_try nullFree (by decide) (by decide) bounds clears, Action.run_bind,
    run_removeDirectory_top]

/-- A run removes the chain of directories that may go. It ends well at the first that has to stay,
and fails if all of them may go, the top included. By induction on the bound: a directory that goes
leaves the rest of the chain with one name less. -/
theorem run_pruneWith (nullFree : world.disk.tree.NullFree) (named : location.Named)
    (fits : location.Fits)
    (bounds : ∀ text, text ∈ boundaries ↔ ∃ root ∈ roots, Text.lower root = text)
    (enough : location.length < bound) :
    ∃ count after, world.Cleared roots location count after ∧ after.disk.tree.NullFree ∧
      (¬ world.disk.tree.Clears roots location count ∧
          (pruneWith boundaries bound location.path).run world = (.ok (), after) ∨
        count = location.length ∧ world.disk.tree.Clears roots location count ∧
          (pruneWith boundaries bound location.path).run world =
            (.error (.os ⟨.busy, [Location.path []]⟩),
              after.recording (.removing (Location.path [])))) := by
  induction bound generalizing world location with
  | zero => exact absurd enough (Nat.not_lt_zero _)
  | succ bound inductionHypothesis =>
    by_cases clears : world.disk.tree.Clears roots location 0
    · by_cases below : location = []
      · subst below
        exact ⟨0, world, .start world roots [], nullFree,
          .inr ⟨rfl, clears, run_pruneWith_top nullFree bounds clears⟩⟩
      · have positive := List.length_pos_iff.mpr below
        have shorter : location.dropLast.length < bound := by
          rw [List.length_dropLast]
          omega
        have smaller : (world.without location).disk.tree.NullFree := nullFree.erase location
        obtain ⟨count, after, cleared, sound, outcome⟩ := inductionHypothesis smaller
          (named.above (List.dropLast_prefix _)) (fits.above named) shorter
        have inside := cleared.inside
        have length : location.dropLast.length = location.length - 1 := List.length_dropLast
        have next : (world.without location).disk.tree.Clears roots location.dropLast count ↔
            world.disk.tree.Clears roots location (count + 1) :=
          clears_erase_iff (clears_zero_iff.mp clears).2.2 (by omega)
        refine ⟨count + 1, after, cleared.step below clears, sound, ?_⟩
        rw [run_pruneWith_step nullFree named fits bounds below clears, ← next]
        obtain stopped | ⟨reached, rest⟩ := outcome
        · exact .inl stopped
        · exact .inr ⟨by omega, rest⟩
    · exact ⟨0, world, .start world roots location, nullFree,
        .inl ⟨clears, run_pruneWith_stop nullFree named fits bounds clears⟩⟩

/-- At a path that is too long nothing is removed, and looking there may fail. What is seen at a
path shows that the path fits, so that nothing can be seen here. -/
theorem run_pruneWith_long (named : location.Named) (long : ¬ location.Fits) :
    (pruneWith boundaries (bound + 1) location.path).run world = (.ok (), world) ∨
      (pruneWith boundaries (bound + 1) location.path).run world =
        (.error (.os ⟨.nameTooLong, [location.path]⟩), world) := by
  rw [pruneWith]
  split
  · exact .inl rfl
  · cases looked : world.disk.look location.path with
    | error error =>
      obtain rfl := (Disk.tooLong_of_look looked).1
      right
      simp [Action.isDirectory, Action.look, named, looked]
    | ok seen =>
      cases seen with
      | some node => exact absurd (get?_of_look named looked).2 long
      | none =>
        left
        simp [run_isDirectory (tidy_path named ▸ looked)]

end Runs

section Pruning

variable {project : Project} {world : World} {cwd directory : Text} {paths : List Text}

/-- Pruning asks for the roots once, normalizes them and compares with them in lower case. -/
theorem run_prune_fixed {roots : List Text} (listed : project.roots = .fixed roots)
    (absolute : ∀ root ∈ roots, Path.isAbsolute root = true) (directory : Text) (world : World) :
    (project.prune directory).run world =
      (pruneWith ((roots.map (Path.normalize ['/'])).map Text.lower) (directory.length + 1)
        directory).run world := by
  have asked : project.roots.list.run world = (.ok roots, world) := by
    rw [listed]
    rfl
  simp [prune, asked, run_normalizeAll absolute]

/-- The roots that were made of paths are compared as they come out of normalizing twice. -/
theorem run_prune (listed : project.roots = .ofPaths cwd paths)
    (based : Path.isAbsolute cwd = true) (directory : Text) :
    ∃ boundaries,
      (∀ text, text ∈ boundaries ↔
        ∃ root ∈ paths.map fun path => Path.normalize ['/'] (Path.normalize cwd path),
          Text.lower root = text) ∧
      ∀ world, (project.prune directory).run world =
        (pruneWith boundaries (directory.length + 1) directory).run world := by
  have absolute : ∀ root ∈ Text.distinct (paths.map (Path.normalize cwd)),
      Path.isAbsolute root = true := by
    intro root member
    obtain ⟨path, -, rfl⟩ := List.mem_map.mp (Text.mem_distinct.mp member)
    exact Path.isAbsolute_normalize based path
  refine ⟨((Text.distinct (paths.map (Path.normalize cwd))).map (Path.normalize ['/'])).map
    Text.lower, fun text => ?_, run_prune_fixed listed absolute directory⟩
  simp

end Pruning

/-- Two empty directories, one in the other, in a directory that holds nothing else. -/
def nestedEmpty : World :=
  ⟨⟨⟨[(["src".toList], .directory), (["src".toList, "a".toList], .directory),
    (["src".toList, "a".toList, "b".toList], .directory)], by decide⟩, .ofLocation []⟩, [], []⟩

/-- The source root is written in capitals. -/
def capitalRoot : Project := ⟨.ofPaths ['/'] ["/SRC".toList], []⟩

/-- Without a root on the way the chain reaches the top. -/
example : ((Project.prune ⟨.ofPaths ['/'] [], []⟩ "/src/a/b".toList).run nestedEmpty).1 =
    .error (.os ⟨.busy, [['/']]⟩) := by decide +kernel

end Project

end Relocate
