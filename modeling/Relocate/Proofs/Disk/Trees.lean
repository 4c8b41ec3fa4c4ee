import Relocate.Disk.Basic
import Relocate.Proofs.Text.Sets

/-!
# Trees and the files in them

What a tree says about files alone is `FileTree.fileAt`; making and removing directories does not
change it. A file, or a directory without children, may be erased without anything else being lost,
`FileTree.get?_erase_leaf`.
-/
namespace Relocate.FileTree

variable {tree : FileTree} {location : Location}

/-- What the file at a location holds, if a file is there. -/
def fileAt (tree : FileTree) (location : Location) : Option Content :=
  match tree.get? location with
  | some (.file content) => some content
  | _ => none

/-- The file that a location is said to have is the node there. -/
@[simp, grind =] theorem fileAt_eq_some_iff {content : Content} :
    tree.fileAt location = some content ↔ tree.get? location = some (.file content) := by
  rw [fileAt]
  split
  · rename_i found
    simp [found]
  · rename_i other
    constructor
    · simp
    · exact fun found => absurd found (other content)

/-- A location that holds no directory is not the top. -/
@[grind →] theorem below_of_not_directory (notDirectory : tree.get? location ≠ some .directory) :
    location ≠ [] := by
  rintro rfl
  exact notDirectory rfl

/-- A location that holds a file is not the top. -/
@[grind →] theorem below_of_file {content : Content}
    (file : tree.get? location = some (.file content)) :
    location ≠ [] := below_of_not_directory (by rw [file]; simp)

/-- A location that holds nothing is not the top. -/
@[grind →] theorem below_of_free (free : tree.get? location = none) : location ≠ [] :=
  below_of_not_directory (by rw [free]; simp)

/-- Whatever is stored is in the tree. -/
theorem get?_of_mem {node : Node} (member : (location, node) ∈ tree.entries) :
    tree.get? location = some node :=
  (get?_eq_some_iff (tree.wellFormed.below _ member)).mpr member

/-- A file that is found is an entry of the tree. -/
theorem mem_entries_of_file {content : Content} (file : tree.get? location = some (.file content)) :
    (location, .file content) ∈ tree.entries :=
  (get?_eq_some_iff (below_of_file file)).mp file

/-- A directory has no children exactly if nothing lies in it. An entry is a child if its location
without the last name is the directory's. -/
theorem children_eq_nil_iff :
    tree.children location = [] ↔ ∀ name, tree.get? (location ++ [name]) = none := by
  rw [children, ← List.perm_nil, (Text.sort_perm _).congr_left, List.perm_nil,
    List.filterMap_eq_nil_iff]
  constructor
  · intro absent name
    cases found : tree.get? (location ++ [name]) with
    | none => rfl
    | some node => simpa using absent _ ((get?_eq_some_iff (by simp)).mp found)
  · rintro childless ⟨other, node⟩ member
    simp only [ite_eq_right_iff, List.getLast?_eq_none_iff]
    intro parent
    refine Decidable.byContradiction fun below => ?_
    have found := get?_of_mem member
    rw [← List.dropLast_concat_getLast below, parent, childless] at found
    simp at found

/-- Nothing lies in a file. -/
theorem childless_file {content : Content} (file : tree.get? location = some (.file content))
    (name : Text) : tree.get? (location ++ [name]) = none := by
  cases found : tree.get? (location ++ [name]) with
  | none => rfl
  | some node =>
    have directory := FileTree.above found (by simp)
    rw [file] at directory
    simp at directory

/-- Nothing lies below a location that nothing lies in. -/
theorem get?_below_childless (childless : ∀ name, tree.get? (location ++ [name]) = none)
    {below : Location} (apart : below ≠ []) : tree.get? (location ++ below) = none := by
  obtain ⟨name, rest, rfl⟩ := List.exists_cons_of_ne_nil apart
  by_cases last : rest = []
  · rw [last, childless]
  · cases found : tree.get? (location ++ name :: rest) with
    | none => rfl
    | some node =>
      rw [List.append_cons] at found
      have directory := FileTree.above found last
      rw [childless] at directory
      simp at directory

/-- Nothing lies below a directory without children. -/
theorem empty_below {below : Location} (empty : tree.children location = []) (apart : below ≠ []) :
    tree.get? (location ++ below) = none :=
  get?_below_childless (children_eq_nil_iff.mp empty) apart

/-- Erasing what nothing lies in takes away nothing else. -/
@[grind =] theorem get?_erase_leaf (below : location ≠ [])
    (childless : ∀ name, tree.get? (location ++ [name]) = none) (other : Location) :
    (tree.erase location).get? other = if other = location then none else tree.get? other := by
  rw [get?_erase below]
  by_cases same : other = location
  · rw [same, if_pos rfl, if_pos (List.isPrefixOf_iff_prefix.mpr List.prefix_rfl)]
  · rw [if_neg same]
    split
    · rename_i above
      obtain ⟨rest, rfl⟩ := List.isPrefixOf_iff_prefix.mp above
      exact (get?_below_childless childless fun top => same (by simp [top])).symm
    · rfl

/-- What is left after erasing was there before. -/
theorem get?_of_erase (below : location ≠ []) {other : Location} {node : Node}
    (found : (tree.erase location).get? other = some node) : tree.get? other = some node := by
  grind

/-- Putting a directory where nothing is changes no file. -/
@[simp] theorem fileAt_put_directory (admits : tree.Admits location .directory)
    (free : tree.get? location = none) (other : Location) :
    (tree.put location .directory).fileAt other = tree.fileAt other := by
  grind [fileAt]

/-- Erasing a directory without children changes no file. -/
theorem fileAt_erase_directory (below : location ≠ [])
    (directory : tree.get? location = some .directory) (empty : tree.children location = [])
    (other : Location) : (tree.erase location).fileAt other = tree.fileAt other := by
  have childless := children_eq_nil_iff.mp empty
  grind [fileAt]

end Relocate.FileTree
