import Relocate.Proofs.Disk.Lookup

/-!
# The current directory while directories are removed

When the current directory is removed, the disk stays in it, and the way back is kept. A relative
path then leads to a place of the tree only if it goes back first, and so it leads where it led
before. Hence a path that can be followed to a place of the tree leads to one location, however many
directories have been removed meanwhile.
-/
namespace Relocate

/-- The second place is what the first one becomes when it and some directories above it are
removed. -/
def Place.Withdrawn (before after : Place) : Prop :=
  ∃ dropped, before.location = after.location ++ dropped ∧
    after.removed = before.removed + dropped.length

namespace Place

variable {before after : Place}

/-- A place has been withdrawn from by no step at all. -/
theorem Withdrawn.refl (place : Place) : place.Withdrawn place := ⟨[], by simp, by simp⟩

/-- Withdrawing twice is withdrawing: the names that are lost add up. -/
theorem Withdrawn.trans {first second third : Place} (earlier : first.Withdrawn second)
    (later : second.Withdrawn third) : first.Withdrawn third := by
  obtain ⟨first, location, removed⟩ := earlier
  obtain ⟨more, above, removedMore⟩ := later
  refine ⟨more ++ first, by rw [location, above, List.append_assoc], ?_⟩
  rw [removedMore, removed, List.length_append]
  omega

/-- A place of the tree has not been removed. -/
theorem Withdrawn.eq_of_inside (withdrawn : before.Withdrawn after) (inside : after.removed = 0) :
    after = before := by
  obtain ⟨dropped, location, removed⟩ := withdrawn
  have empty : dropped = [] := List.length_eq_zero_iff.mp (by omega)
  obtain ⟨place, count⟩ := before
  obtain ⟨other, otherCount⟩ := after
  subst empty
  simp_all

/-- The removal of one directory. -/
theorem withdrawn_afterRemoval (place : Place) {location : Location} (below : location ≠ []) :
    place.Withdrawn (place.afterRemoval location) := by
  unfold afterRemoval
  split
  · rename_i same
    refine ⟨[location.getLast below], ?_, rfl⟩
    rw [same, List.dropLast_concat_getLast]
  · exact .refl place

/-- Going back leads to the same directory. A step back takes off a removal on both sides, or the
last lost name on one and a removal on the other. -/
theorem Withdrawn.up (withdrawn : before.Withdrawn after) : before.up.Withdrawn after.up := by
  obtain ⟨location, count⟩ := before
  obtain ⟨other, otherCount⟩ := after
  obtain ⟨dropped, above, counted⟩ := withdrawn
  obtain rfl : location = other ++ dropped := above
  obtain rfl : otherCount = count + dropped.length := counted
  cases count with
  | succ count =>
    rw [Nat.add_right_comm]
    exact ⟨dropped, rfl, rfl⟩
  | zero =>
    obtain rfl | ⟨earlier, last, rfl⟩ := List.eq_nil_or_concat dropped
    · simp only [List.append_nil, List.length_nil, Nat.add_zero]
      exact .refl _
    · refine ⟨earlier, ?_, ?_⟩
      · simp [Place.up, ← List.append_assoc]
      · simp [Place.up]

/-- A segment that can be followed after a removal leads where it led before. -/
theorem Withdrawn.step {next : Place} {segment : Text} (withdrawn : before.Withdrawn after)
    (stepped : after.step segment = .ok next) : (before.next segment).Withdrawn next := by
  rw [next_of_step stepped]
  unfold Place.next
  split
  · exact withdrawn
  · rename_i notHere
    split
    · exact withdrawn.up
    · rename_i notUp
      rw [withdrawn.eq_of_inside (inside_of_step notHere notUp stepped)]
      exact .refl _

end Place

namespace Disk

variable {before after : Disk} {path : Text}

/-- Segments that lead to a place of the tree lead where they led before. -/
theorem follow_withdrawn {disk : Disk} {first second result : Place} {segments : List Text}
    (withdrawn : first.Withdrawn second) (followed : disk.follow second segments = .ok result)
    (inside : result.removed = 0) : result = first.after segments := by
  induction segments generalizing first second with
  | nil =>
    obtain rfl := Except.ok.inj followed
    exact withdrawn.eq_of_inside inside
  | cons segment segments inductionHypothesis =>
    obtain ⟨-, next, stepped, later⟩ := follow_cons_ok_iff.mp followed
    exact inductionHypothesis (withdrawn.step stepped) later

/-- A path that leads to a location leads there by its text, as seen before the removals. -/
theorem destination_of_withdrawn (withdrawn : before.cwd.Withdrawn after.cwd) {location : Location}
    (located : after.locate path = .ok (.ofLocation location)) :
    before.destination path = location := by
  obtain ⟨-, -, -, followed⟩ := followFrom_ok_iff.mp located
  rw [destination, origin]
  split at followed
  · rename_i absolute
    rw [if_pos absolute, ← follow_ok followed]
    rfl
  · rename_i relative
    rw [if_neg relative, ← follow_withdrawn withdrawn followed rfl]
    rfl

/-- Where a path starts from a place of the tree, it has started from there before. -/
theorem origin_of_withdrawn (withdrawn : before.cwd.Withdrawn after.cwd)
    (inside : (after.origin path).removed = 0) : after.origin path = before.origin path := by
  unfold origin at inside ⊢
  split
  · rfl
  · rename_i relative
    rw [if_neg relative] at inside
    exact withdrawn.eq_of_inside inside

/-- If nothing is found at a forward path, nothing is where it leads, provided that the path can be
followed after the removals. -/
theorem free_of_withdrawn (forward : Path.isForward path = true)
    (withdrawn : before.cwd.Withdrawn after.cwd) {place : Place}
    (located : after.locate path = .ok place) (absent : before.pathExists path = false) :
    before.tree.get? (before.destination path) = none := by
  have inside := inside_of_forward forward located
  rw [origin_of_withdrawn withdrawn inside] at inside
  cases found : before.tree.get? (before.destination path) with
  | none => rfl
  | some node =>
    have here := find_forward forward inside located found
    simp [pathExists, here, Except.isOk, Except.toBool] at absent

/-- Where the start of a path is known, nothing has changed about it. An absolute path starts at the
top, and a relative one has a known start only if the current directory is still there, which then
has not been withdrawn. -/
theorem startOf_of_withdrawn (withdrawn : before.cwd.Withdrawn after.cwd) {start : Text}
    (started : after.startOf path = .ok start) :
    before.startOf path = .ok start ∧ after.destination path = before.destination path := by
  by_cases absolute : Path.isAbsolute path = true
  · rw [destination_absolute _ absolute, destination_absolute _ absolute]
    rw [startOf, if_pos absolute] at started ⊢
    exact ⟨started, rfl⟩
  · have inside : after.cwd.removed = 0 := by
      rw [startOf, if_neg absolute, currentPath] at started
      split at started
      · assumption
      · simp at started
    have same := withdrawn.eq_of_inside inside
    refine ⟨?_, destination_of_cwd same path⟩
    rw [startOf, if_neg absolute, currentPath, ← same]
    rw [startOf, if_neg absolute, currentPath] at started
    exact started

end Disk

end Relocate
