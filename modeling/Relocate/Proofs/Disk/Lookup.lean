import Relocate.Disk.Lookup
import Relocate.Proofs.Disk.Trees

/-!
# Where paths lead

If a path can be followed at all, where it leads is settled by its text and the current directory:
`Disk.destination`, or `Path.destination` for absolute paths. The tree decides only whether the path
can be followed, and a path that can be followed stays so while directories are only added.

A path is forward if it never goes back and ends in a name. Such a path leads to whatever is at its
destination. It is direct if it is absolute too and names every directory on its way.
-/
namespace Relocate

/-- The place one segment on, by the text of the segment. -/
def Place.next (place : Place) (segment : Text) : Place :=
  if segment = ['.'] then place
  else if segment = ['.', '.'] then place.up
  else .ofLocation (place.location ++ [segment])

/-- The place some segments on, by their text. -/
def Place.after (place : Place) (segments : List Text) : Place := segments.foldl Place.next place

/-- Where an absolute path leads, by its text. -/
def Path.destination (path : Text) : Location :=
  ((Place.ofLocation []).after (Disk.steps path)).location

/-- The path has no `..` in it and ends in a name. -/
def Path.isForward (path : Text) : Bool :=
  Disk.endsInName path && !(Disk.steps path).contains ['.', '.'] && !Disk.wantsDirectory path

/-- The path is absolute, has no `.` or `..` in it, and ends in a name. -/
def Path.isDirect (path : Text) : Bool :=
  Path.isAbsolute path && !(Disk.steps path).isEmpty &&
    (Disk.steps path).all (fun segment => segment ≠ ['.'] && segment ≠ ['.', '.']) &&
    !Disk.wantsDirectory path

namespace Place

/-- A step that is possible leads where the segment alone says. The length of a name and a removed
directory can only make the step fail. -/
theorem next_of_step {place next : Place} {segment : Text}
    (stepped : place.step segment = .ok next) : next = place.next segment := by
  unfold step at stepped
  unfold Place.next
  split at stepped
  · rename_i same
    rw [if_pos same]
    exact (Except.ok.inj stepped).symm
  · rename_i notSame
    split at stepped
    · rename_i up
      rw [if_neg notSame, if_pos up]
      exact (Except.ok.inj stepped).symm
    · rename_i notUp
      split at stepped
      · simp at stepped
      · split at stepped
        · simp at stepped
        · rw [if_neg notSame, if_neg notUp]
          exact (Except.ok.inj stepped).symm

/-- A name is followed only from a place of the tree. -/
theorem inside_of_step {place next : Place} {segment : Text} (notHere : segment ≠ ['.'])
    (notUp : segment ≠ ['.', '.']) (stepped : place.step segment = .ok next) :
    place.removed = 0 := by
  unfold step at stepped
  rw [if_neg notHere, if_neg notUp] at stepped
  split at stepped
  · simp at stepped
  · rename_i inside
    exact Decidable.not_not.mp inside

/-- From a place of the tree, segments lead to places of the tree. -/
theorem removed_after {place : Place} (inside : place.removed = 0) (segments : List Text) :
    (place.after segments).removed = 0 := by
  induction segments generalizing place with
  | nil => exact inside
  | cons segment segments inductionHypothesis =>
    refine inductionHypothesis ?_
    unfold next
    split
    · exact inside
    · split
      · simp [up, inside]
      · rfl

/-- Each segment leads at most one level down. By induction on the segments: going down adds a name,
and the other steps add none. -/
theorem length_after (place : Place) (segments : List Text) :
    (place.after segments).location.length ≤ place.location.length + segments.length := by
  induction segments generalizing place with
  | nil => exact Nat.le_refl _
  | cons segment segments inductionHypothesis =>
    have step : (place.next segment).location.length ≤ place.location.length + 1 := by
      unfold next
      split
      · omega
      · split
        · unfold up
          split
          · simp only [List.length_dropLast]
            omega
          · simp
        · simp [ofLocation]
    have rest := inductionHypothesis (place.next segment)
    rw [List.length_cons]
    change (Place.after (place.next segment) segments).location.length ≤ _
    omega

/-- Segments that stay where they are may be left out. -/
theorem after_filter (place : Place) (segments : List Text) :
    place.after (segments.filter (· ≠ ['.'])) = place.after segments := by
  induction segments generalizing place with
  | nil => rfl
  | cons segment segments inductionHypothesis =>
    by_cases same : segment = ['.']
    · have stays : place.next segment = place := by simp [next, same]
      rw [List.filter_cons_of_neg (by simpa using same), inductionHypothesis]
      change _ = (place.next segment).after segments
      rw [stays]
    · rw [List.filter_cons_of_pos (by simpa using same)]
      exact inductionHypothesis (place.next segment)

/-- Segments that never go back lead down by their names. -/
theorem location_after {segments : List Text} (forward : ['.', '.'] ∉ segments) (place : Place) :
    (place.after segments).location = place.location ++ segments.filter (· ≠ ['.']) := by
  induction segments generalizing place with
  | nil => simp [after]
  | cons segment segments inductionHypothesis =>
    rw [List.mem_cons, not_or] at forward
    change ((place.next segment).after segments).location = _
    rw [inductionHypothesis forward.2, next, if_neg (Ne.symm forward.1)]
    by_cases same : segment = ['.']
    · rw [if_pos same, List.filter_cons_of_neg (by simpa using same)]
    · rw [if_neg same, List.filter_cons_of_pos (by simpa using same)]
      simp [ofLocation]

/-- Names lead down. -/
theorem after_names {names : List Text}
    (plain : ∀ name ∈ names, name ≠ ['.'] ∧ name ≠ ['.', '.']) (location : Location) :
    (ofLocation location).after names = ofLocation (location ++ names) := by
  induction names generalizing location with
  | nil => simp [after]
  | cons name names inductionHypothesis =>
    simp only [List.forall_mem_cons] at plain
    have first : (ofLocation location).next name = ofLocation (location ++ [name]) := by
      simp [next, plain.1.1, plain.1.2, ofLocation]
    change ((ofLocation location).next name).after names = _
    rw [first, inductionHypothesis plain.2]
    simp

end Place

namespace Disk

/-- At a place is a directory exactly if one is at its location, from which a removed directory was
removed. -/
theorem nodeAt_directory_iff {disk : Disk} {place : Place} :
    disk.nodeAt place = some .directory ↔ disk.tree.get? place.location = some .directory := by
  obtain ⟨location, removed⟩ := place
  cases removed with
  | zero => rfl
  | succ removed => simp [nodeAt]

/-- Where a path starts. -/
def origin (disk : Disk) (path : Text) : Place :=
  if Path.isAbsolute path then .ofLocation [] else disk.cwd

/-- Where a path leads, by its text and the current directory. -/
def destination (disk : Disk) (path : Text) : Location :=
  ((disk.origin path).after (steps path)).location

/-- Where an absolute path leads does not depend on the current directory. -/
@[simp] theorem destination_absolute (disk : Disk) {path : Text}
    (absolute : Path.isAbsolute path = true) :
    disk.destination path = Path.destination path := by
  simp [destination, origin, absolute, Path.destination]

/-- Where a path leads depends on the current directory alone, not on what is in the tree. -/
theorem destination_of_cwd {disk other : Disk} (same : other.cwd = disk.cwd) (path : Text) :
    other.destination path = disk.destination path := by
  simp [destination, origin, same]

/-- The current directory is the same, and every directory is still there. -/
def KeepsDirectories (before after : Disk) : Prop :=
  after.cwd = before.cwd ∧
    ∀ location, before.tree.get? location = some .directory →
      after.tree.get? location = some .directory

/-- Directories that are kept by two changes are kept by both together. -/
theorem KeepsDirectories.trans {first second third : Disk} (before : first.KeepsDirectories second)
    (after : second.KeepsDirectories third) : first.KeepsDirectories third :=
  ⟨after.1.trans before.1, fun location found => after.2 location (before.2 location found)⟩

/-- A segment is followed from a directory. -/
theorem follow_cons_ok_iff {disk : Disk} {place result : Place} {segment : Text}
    {segments : List Text} :
    disk.follow place (segment :: segments) = .ok result ↔
      disk.nodeAt place = some .directory ∧
        ∃ next, place.step segment = .ok next ∧ disk.follow next segments = .ok result := by
  rw [follow]
  cases disk.nodeAt place with
  | none => simp
  | some node =>
    cases node with
    | file content => simp
    | directory => cases place.step segment <;> simp

/-- Segments behind others are followed from where the others lead. -/
theorem follow_append_ok_iff {disk : Disk} {place result : Place} {first second : List Text} :
    disk.follow place (first ++ second) = .ok result ↔
      ∃ middle, disk.follow place first = .ok middle ∧ disk.follow middle second = .ok result := by
  induction first generalizing place with
  | nil => simp [follow]
  | cons segment first inductionHypothesis =>
    simp only [List.cons_append, follow_cons_ok_iff, inductionHypothesis]
    constructor
    · rintro ⟨directory, next, stepped, middle, earlier, later⟩
      exact ⟨middle, ⟨directory, next, stepped, earlier⟩, later⟩
    · rintro ⟨middle, ⟨directory, next, stepped, earlier⟩, later⟩
      exact ⟨directory, next, stepped, middle, earlier, later⟩

/-- Segments that can be followed lead where they say, whatever the tree holds on the way. -/
theorem follow_ok {disk : Disk} {place result : Place} {segments : List Text}
    (followed : disk.follow place segments = .ok result) : result = place.after segments := by
  induction segments generalizing place with
  | nil => exact (Except.ok.inj followed).symm
  | cons segment segments inductionHypothesis =>
    obtain ⟨-, next, stepped, later⟩ := follow_cons_ok_iff.mp followed
    rw [inductionHypothesis later, Place.next_of_step stepped]
    rfl

/-- A place that is a directory stays one, also if it is a removed directory. -/
theorem KeepsDirectories.nodeAt {before after : Disk} (keeps : before.KeepsDirectories after)
    {place : Place} (directory : before.nodeAt place = some .directory) :
    after.nodeAt place = some .directory := by
  rw [nodeAt_directory_iff] at directory ⊢
  exact keeps.2 _ directory

/-- What can be followed can be followed with more directories. -/
theorem KeepsDirectories.follow {before after : Disk} (keeps : before.KeepsDirectories after)
    {place result : Place} {segments : List Text}
    (followed : before.follow place segments = .ok result) :
    after.follow place segments = .ok result := by
  induction segments generalizing place with
  | nil => exact followed
  | cons segment segments inductionHypothesis =>
    obtain ⟨directory, next, stepped, later⟩ := follow_cons_ok_iff.mp followed
    exact follow_cons_ok_iff.mpr ⟨keeps.nodeAt directory, next, stepped, inductionHypothesis later⟩

/-- One segment from a directory leads into a directory. -/
theorem parent_of_step {disk : Disk} {place next : Place} {segment : Text}
    (directory : disk.nodeAt place = some .directory) (stepped : place.step segment = .ok next) :
    disk.tree.get? next.location.dropLast = some .directory := by
  rw [nodeAt_directory_iff] at directory
  rw [Place.next_of_step stepped, Place.next]
  split
  · exact FileTree.rooted directory
  · split
    · obtain ⟨location, removed⟩ := place
      cases removed with
      | zero => exact FileTree.rooted (FileTree.rooted directory)
      | succ removed => exact FileTree.rooted directory
    · rw [Place.ofLocation, List.dropLast_concat]
      exact directory

/-- Segments lead into directories, wherever they start from. -/
theorem follow_parent {disk : Disk} {place result : Place} {segments : List Text}
    (start : segments = [] → disk.tree.get? place.location.dropLast = some .directory)
    (followed : disk.follow place segments = .ok result) :
    disk.tree.get? result.location.dropLast = some .directory := by
  induction segments generalizing place with
  | nil =>
    obtain rfl := Except.ok.inj followed
    exact start rfl
  | cons segment segments inductionHypothesis =>
    obtain ⟨directory, next, stepped, later⟩ := follow_cons_ok_iff.mp followed
    exact inductionHypothesis (fun _ => parent_of_step directory stepped) later

/-- Segments lead to a removed directory only while the one that it was removed from is there. By
induction on the segments: the last step starts from a directory, and one that ends in a removed
directory keeps its location. -/
theorem directory_of_follow {disk : Disk} {place result : Place} {segments : List Text}
    (start : segments = [] → place.removed = 0)
    (followed : disk.follow place segments = .ok result) (removed : result.removed ≠ 0) :
    disk.tree.get? result.location = some .directory := by
  induction segments generalizing place with
  | nil =>
    obtain rfl := Except.ok.inj followed
    exact absurd (start rfl) removed
  | cons segment segments inductionHypothesis =>
    obtain ⟨directory, next, stepped, later⟩ := follow_cons_ok_iff.mp followed
    cases segments with
    | cons second segments => exact inductionHypothesis (by simp) later
    | nil =>
      obtain rfl := Except.ok.inj later
      rw [nodeAt_directory_iff] at directory
      rw [Place.next_of_step stepped, Place.next] at removed ⊢
      revert removed
      split
      · exact fun _ => directory
      · split
        · obtain ⟨location, count⟩ := place
          cases count with
          | zero => exact absurd rfl
          | succ count => exact fun _ => directory
        · exact absurd rfl

/-- Names lead to whatever is at their location, if none of them is too long. By induction on the
names: whatever something lies in is a directory. -/
theorem follow_names {disk : Disk} {names : List Text}
    (plain : ∀ name ∈ names, name ≠ ['.'] ∧ name ≠ ['.', '.'])
    (short : ∀ name ∈ names, Utf8.size name ≤ longestName) {location : Location} {node : Node}
    (found : disk.tree.get? (location ++ names) = some node) :
    disk.follow (.ofLocation location) names = .ok (.ofLocation (location ++ names)) := by
  induction names generalizing location with
  | nil => simp [follow]
  | cons name names inductionHypothesis =>
    simp only [List.forall_mem_cons] at plain short
    have directory := FileTree.above found (by simp)
    have stepped :
        (Place.ofLocation location).step name = .ok (.ofLocation (location ++ [name])) := by
      have fits : ¬ longestName < Utf8.size name := Nat.not_lt.mpr short.1
      simp [Place.step, Place.ofLocation, plain.1.1, plain.1.2, fits]
    rw [List.append_cons] at found ⊢
    exact follow_cons_ok_iff.mpr
      ⟨directory, _, stepped, inductionHypothesis plain.2 short.2 found⟩

/-- Segments that can be followed are not too long. By induction on the segments: a step checks its
segment, and the two special ones are short. -/
theorem short_of_follow {disk : Disk} {segments : List Text} {place result : Place}
    (followed : disk.follow place segments = .ok result) :
    ∀ segment ∈ segments, Utf8.size segment ≤ longestName := by
  induction segments generalizing place with
  | nil => simp
  | cons segment segments inductionHypothesis =>
    rw [List.forall_mem_cons]
    obtain ⟨-, next, stepped, later⟩ := follow_cons_ok_iff.mp followed
    refine ⟨?_, inductionHypothesis later⟩
    unfold Place.step at stepped
    split at stepped
    · rename_i here
      rw [here]
      decide
    · split at stepped
      · rename_i up
        rw [up]
        decide
      · split at stepped
        · simp at stepped
        · split at stepped
          · simp at stepped
          · omega

/-- Segments that stay where they are may be put in front of others. By induction on the segments:
where a name can be followed there is a directory, and staying in a directory is possible. -/
theorem follow_of_filter {disk : Disk} {place result : Place} {segments : List Text} {name : Text}
    (followed : disk.follow place (segments.filter (· ≠ ['.']) ++ [name]) = .ok result) :
    disk.follow place (segments ++ [name]) = .ok result := by
  induction segments generalizing place with
  | nil => exact followed
  | cons segment segments inductionHypothesis =>
    by_cases same : segment = ['.']
    · rw [List.filter_cons_of_neg (by simpa using same)] at followed
      have directory : disk.nodeAt place = some .directory := by
        obtain ⟨first, others, split⟩ :=
          List.exists_cons_of_ne_nil (List.concat_ne_nil name (segments.filter (· ≠ ['.'])))
        rw [split] at followed
        exact (follow_cons_ok_iff.mp followed).1
      exact follow_cons_ok_iff.mpr
        ⟨directory, place, by simp [Place.step, same], inductionHypothesis followed⟩
    · rw [List.filter_cons_of_pos (by simpa using same)] at followed
      obtain ⟨directory, next, stepped, later⟩ := follow_cons_ok_iff.mp followed
      exact follow_cons_ok_iff.mpr ⟨directory, next, stepped, inductionHypothesis later⟩

/-- Segments that never go back and end in a name are followed only from a place of the tree. By
induction on the segments: a name cannot be followed in a removed directory, and staying there does
not leave it. -/
theorem inside_of_follow {disk : Disk} {place result : Place} {segments : List Text} {name : Text}
    (forward : ['.', '.'] ∉ segments ++ [name]) (notHere : name ≠ ['.'])
    (followed : disk.follow place (segments ++ [name]) = .ok result) : place.removed = 0 := by
  induction segments generalizing place with
  | nil =>
    obtain ⟨-, next, stepped, -⟩ := follow_cons_ok_iff.mp followed
    refine Place.inside_of_step notHere (fun up => forward ?_) stepped
    rw [up]
    exact List.mem_singleton_self _
  | cons segment segments inductionHypothesis =>
    rw [List.cons_append, List.mem_cons, not_or] at forward
    obtain ⟨-, next, stepped, later⟩ := follow_cons_ok_iff.mp followed
    by_cases same : segment = ['.']
    · have stays : next = place := by simpa [Place.step, same] using stepped.symm
      exact stays ▸ inductionHypothesis forward.2 later
    · exact Place.inside_of_step same (Ne.symm forward.1) stepped

/-- What a path needs by its text so that it can be followed. By the checks that are made before the
first step, one after the other. -/
theorem followFrom_ok_iff {disk : Disk} {path : Text} {segments : List Text} {place : Place} :
    disk.followFrom path segments = .ok place ↔
      Path.holdsNull path = false ∧ Utf8.size path ≤ longestPath ∧ path ≠ [] ∧
        disk.follow (if Path.isAbsolute path then .ofLocation [] else disk.cwd) segments =
          .ok place := by
  rw [followFrom]
  cases Path.holdsNull path with
  | true => simp
  | false =>
    rw [if_neg Bool.false_ne_true]
    by_cases long : longestPath < Utf8.size path
    · simp [long, Nat.not_le.mpr long]
    · rw [if_neg long]
      by_cases empty : path = []
      · simp [empty]
      · simp [empty, Nat.not_lt.mp long]

/-- Only a name can be too long for a segment to be followed. By induction on the segments: of all
the ways in which a step fails only one is about a length. -/
theorem long_of_follow {disk : Disk} {place : Place} {segments : List Text}
    (failed : disk.follow place segments = .error .nameTooLong) :
    ∃ name ∈ segments, longestName < Utf8.size name := by
  induction segments generalizing place with
  | nil => simp [follow] at failed
  | cons segment segments inductionHypothesis =>
    rw [follow] at failed
    split at failed
    · simp at failed
    · simp at failed
    · split at failed
      · rename_i errno stepped
        obtain rfl := Except.error.inj failed
        refine ⟨segment, by simp, ?_⟩
        unfold Place.step at stepped
        split at stepped
        · simp at stepped
        · split at stepped
          · simp at stepped
          · split at stepped
            · simp at stepped
            · split at stepped
              · assumption
              · simp at stepped
      · obtain ⟨name, member, long⟩ := inductionHypothesis failed
        exact ⟨name, List.mem_cons_of_mem _ member, long⟩

/-- Nothing but a path that is too long cannot be looked for, and it is so as a whole or in a
name. -/
theorem tooLong_of_look {disk : Disk} {path : Text} {error : OsError}
    (failed : disk.look path = .error error) :
    error = ⟨.nameTooLong, [path]⟩ ∧
      (Path.holdsNull path = false ∧ longestPath < Utf8.size path ∨
        ∃ name ∈ steps path, longestName < Utf8.size name) := by
  have tooLong : disk.locate path = .error .nameTooLong ∧ error = ⟨.nameTooLong, [path]⟩ := by
    unfold look at failed
    split at failed
    · simp at failed
    · rename_i found
      refine ⟨?_, (Except.error.inj failed).symm⟩
      unfold find at found
      split at found
      · rename_i errno located
        rw [located, Except.error.inj found]
      · split at found
        · simp at found
        · split at found <;> simp at found
        · simp at found
    · simp at failed
  obtain ⟨located, rfl⟩ := tooLong
  refine ⟨rfl, ?_⟩
  unfold locate followFrom at located
  split at located
  · simp at located
  · rename_i clean
    split at located
    · rename_i long
      exact .inl ⟨by simpa using clean, long⟩
    · split at located
      · simp at located
      · exact .inr (long_of_follow located)

/-- A path that is too long to be looked for is so as a whole, on every disk, or in a name. -/
theorem long_of_look {disk : Disk} {path : Text} {error : OsError}
    (failed : disk.look path = .error error) :
    (∀ other : Disk, other.look path = .error error) ∨
      ∃ name ∈ steps path, longestName < Utf8.size name := by
  obtain ⟨rfl, ⟨clean, long⟩ | named⟩ := tooLong_of_look failed
  · refine .inl fun other => ?_
    simp [look, find, locate, followFrom, clean, long]
  · exact .inr named

/-- A path without segments is absolute: any other starts with a name. -/
theorem isAbsolute_of_steps_eq_nil {path : Text} (given : path ≠ []) (empty : steps path = []) :
    Path.isAbsolute path = true := by
  obtain ⟨first, rest, rfl⟩ := List.exists_cons_of_ne_nil given
  by_cases slash : first = '/'
  · rw [slash]
    rfl
  · rw [steps, Text.split, if_neg slash] at empty
    cases pieces : Text.split '/' rest <;> simp [pieces] at empty

/-- A path that leads to a place of the tree leads to its destination. -/
theorem locate_destination {disk : Disk} {path : Text} {place : Place}
    (located : disk.locate path = .ok place) (inside : place.removed = 0) :
    place = .ofLocation (disk.destination path) := by
  obtain ⟨-, -, -, followed⟩ := followFrom_ok_iff.mp located
  have led : place = (disk.origin path).after (steps path) := follow_ok followed
  obtain ⟨location, removed⟩ := place
  obtain rfl : removed = 0 := inside
  rw [destination, ← led]
  rfl

/-- A path without `..` leads down by its names. -/
theorem destination_forward (disk : Disk) {path : Text} (forward : ['.', '.'] ∉ steps path) :
    disk.destination path = (disk.origin path).location ++ (steps path).filter (· ≠ ['.']) :=
  Place.location_after forward _

/-- An absolute path leads to a place of the tree. -/
theorem locate_absolute {disk : Disk} {path : Text} {place : Place}
    (absolute : Path.isAbsolute path = true) (located : disk.locate path = .ok place) :
    place = .ofLocation (Path.destination path) := by
  obtain ⟨-, -, -, followed⟩ := followFrom_ok_iff.mp located
  rw [if_pos absolute] at followed
  have inside : place.removed = 0 := by
    rw [follow_ok followed]
    exact Place.removed_after rfl _
  rw [locate_destination located inside, destination_absolute disk absolute]

/-- A path that leads somewhere still leads there: every directory on its way is kept. -/
theorem KeepsDirectories.locate {before after : Disk} (keeps : before.KeepsDirectories after)
    {path : Text} {place : Place} (located : before.locate path = .ok place) :
    after.locate path = .ok place := by
  obtain ⟨null, fits, nonempty, followed⟩ := followFrom_ok_iff.mp located
  refine followFrom_ok_iff.mpr ⟨null, fits, nonempty, ?_⟩
  rw [keeps.1]
  exact keeps.follow followed

/-- A path leads to a file: it can be followed, a file is there, and it asks for no directory. By
cases on where the path leads and on what is there. -/
theorem find_file_iff {disk : Disk} {path : Text} {place : Place} {content : Content} :
    disk.find path = .ok (place, .file content) ↔
      disk.locate path = .ok place ∧ disk.nodeAt place = some (.file content) ∧
        wantsDirectory path = false := by
  rw [find]
  cases disk.locate path with
  | error errno => simp
  | ok found =>
    simp only [Except.ok.injEq]
    constructor
    · intro same
      split at same
      · simp at same
      · rename_i other node
        split at same
        · simp at same
        · rename_i plain
          obtain ⟨rfl, here⟩ := Prod.mk.inj (Except.ok.inj same)
          exact ⟨rfl, here ▸ node, by simpa using plain⟩
      · simp at same
    · rintro ⟨rfl, node, plain⟩
      simp [node, plain]

/-- A path leads to a directory. It has to be possible to follow it, and a directory has to be
there. By cases on what is there. -/
theorem find_directory_iff {disk : Disk} {path : Text} {place : Place} :
    disk.find path = .ok (place, .directory) ↔
      disk.locate path = .ok place ∧ disk.nodeAt place = some .directory := by
  rw [find]
  cases disk.locate path with
  | error errno => simp
  | ok found =>
    simp only [Except.ok.injEq]
    constructor
    · intro same
      split at same
      · simp at same
      · split at same <;> simp at same
      · rename_i node
        obtain ⟨rfl, -⟩ := Prod.mk.inj (Except.ok.inj same)
        exact ⟨rfl, node⟩
    · rintro ⟨rfl, node⟩
      simp [node]

/-- A file is at a place of the tree. -/
theorem nodeAt_file_iff {disk : Disk} {place : Place} {content : Content} :
    disk.nodeAt place = some (.file content) ↔
      place = .ofLocation place.location ∧ disk.tree.fileAt place.location = some content := by
  rw [FileTree.fileAt_eq_some_iff]
  obtain ⟨location, removed⟩ := place
  cases removed with
  | zero => simp [nodeAt, Place.ofLocation]
  | succ removed => simp [nodeAt, Place.ofLocation]

/-- The file that a path leads to. -/
theorem find_destination {disk : Disk} {path : Text} {place : Place} {content : Content}
    (found : disk.find path = .ok (place, .file content)) :
    place = .ofLocation (disk.destination path) ∧
      disk.tree.fileAt (disk.destination path) = some content := by
  obtain ⟨located, node, -⟩ := find_file_iff.mp found
  obtain ⟨inside, file⟩ := nodeAt_file_iff.mp node
  obtain rfl := locate_destination located (by rw [inside]; rfl)
  exact ⟨rfl, file⟩

/-- A file that can be read stays where it is while directories are only added. -/
theorem KeepsDirectories.find {before after : Disk} (keeps : before.KeepsDirectories after)
    {path : Text} {place : Place} {content : Content}
    (found : before.find path = .ok (place, .file content))
    (kept : after.tree.fileAt place.location = before.tree.fileAt place.location) :
    after.find path = .ok (place, .file content) := by
  obtain ⟨located, node, plain⟩ := find_file_iff.mp found
  obtain ⟨inside, file⟩ := nodeAt_file_iff.mp node
  exact find_file_iff.mpr
    ⟨keeps.locate located, nodeAt_file_iff.mpr ⟨inside, kept.trans file⟩, plain⟩

end Disk

section Forward

variable {disk other : Disk} {path : Text}

/-- A forward path has a last name, never goes up and does not ask for a directory by a slash at its
end. -/
theorem isForward_iff : Path.isForward path = true ↔
    ∃ above name, Disk.steps path = above ++ [name] ∧ name ≠ ['.'] ∧
      ['.', '.'] ∉ Disk.steps path ∧ Disk.wantsDirectory path = false := by
  rw [Path.isForward, Disk.endsInName]
  constructor
  · intro forward
    cases last : (Disk.steps path).getLast? with
    | none => simp [last] at forward
    | some name =>
      simp only [last, Bool.and_eq_true, decide_eq_true_eq, Bool.not_eq_true', List.contains_eq_mem,
        decide_eq_false_iff_not] at forward
      obtain ⟨above, split⟩ := List.getLast?_eq_some_iff.mp last
      exact ⟨above, name, split, forward.1.1.1, forward.1.2, forward.2⟩
  · rintro ⟨above, name, split, notHere, noUp, plain⟩
    have last : (Disk.steps path).getLast? = some name := by simp [split]
    have notUp : name ≠ ['.', '.'] := fun up => noUp (up ▸ List.mem_of_getLast? last)
    simp [last, notHere, notUp, noUp, plain]

/-- A path without `..` at which a file is found ends in a name. Without segments it would lead to
the top, and with a last segment that stays where it is to a directory. -/
theorem isForward_of_find (forward : ['.', '.'] ∉ Disk.steps path) {place : Place}
    {content : Content} (found : disk.find path = .ok (place, .file content)) :
    Path.isForward path = true := by
  obtain ⟨located, node, plain⟩ := Disk.find_file_iff.mp found
  obtain ⟨-, -, given, followed⟩ := Disk.followFrom_ok_iff.mp located
  obtain empty | ⟨above, name, split⟩ := List.eq_nil_or_concat (Disk.steps path)
  · -- Only an absolute path can be without segments, and it leads to the top then.
    have absolute := Disk.isAbsolute_of_steps_eq_nil given empty
    rw [empty, if_pos absolute] at followed
    obtain rfl := Except.ok.inj followed
    simp [Disk.nodeAt, Place.ofLocation] at node
  · rw [List.concat_eq_append] at split
    refine isForward_iff.mpr ⟨above, name, split, ?_, forward, plain⟩
    rintro rfl
    rw [split] at followed
    obtain ⟨middle, -, last⟩ := Disk.follow_append_ok_iff.mp followed
    obtain ⟨directory, next, stepped, rest⟩ := Disk.follow_cons_ok_iff.mp last
    obtain rfl := Except.ok.inj rest
    have stays : next = middle := by simpa [Place.step] using stepped.symm
    rw [stays, directory] at node
    simp at node

/-- A forward path is followed only from a place of the tree. -/
theorem inside_of_forward (forward : Path.isForward path = true) {place : Place}
    (located : other.locate path = .ok place) : (other.origin path).removed = 0 := by
  obtain ⟨above, name, split, notHere, noUp, -⟩ := isForward_iff.mp forward
  obtain ⟨-, -, -, followed⟩ := Disk.followFrom_ok_iff.mp located
  rw [split] at followed noUp
  exact Disk.inside_of_follow noUp notHere followed

/-- Whatever is at the destination of a forward path is found, if the path could be followed on any
disk and starts from a place of the tree. -/
theorem find_forward (forward : Path.isForward path = true)
    (inside : (disk.origin path).removed = 0) {place : Place}
    (located : other.locate path = .ok place) {node : Node}
    (found : disk.tree.get? (disk.destination path) = some node) :
    disk.find path = .ok (.ofLocation (disk.destination path), node) := by
  obtain ⟨above, name, split, notHere, noUp, plain⟩ := isForward_iff.mp forward
  obtain ⟨null, fits, nonempty, followed⟩ := Disk.followFrom_ok_iff.mp located
  have short := Disk.short_of_follow followed
  have origin : disk.origin path = .ofLocation (disk.origin path).location := by
    rw [Place.ofLocation, ← inside]
  have names : (Disk.steps path).filter (· ≠ ['.']) = above.filter (· ≠ ['.']) ++ [name] := by
    simp [split, notHere]
  have reached : disk.locate path = .ok (.ofLocation (disk.destination path)) := by
    refine Disk.followFrom_ok_iff.mpr ⟨null, fits, nonempty, ?_⟩
    change disk.follow (disk.origin path) (Disk.steps path) = _
    rw [Disk.destination_forward disk noUp, names] at found ⊢
    rw [origin, split]
    apply Disk.follow_of_filter
    rw [← names] at found ⊢
    refine Disk.follow_names (fun segment member => ?_) (fun segment member => ?_) found
    · obtain ⟨listed, notHere⟩ := List.mem_filter.mp member
      exact ⟨by simpa using notHere, fun up => noUp (up ▸ listed)⟩
    · exact short segment (List.mem_filter.mp member).1
  have here : disk.nodeAt (.ofLocation (disk.destination path)) = some node := found
  cases node with
  | directory => exact Disk.find_directory_iff.mpr ⟨reached, here⟩
  | file content => exact Disk.find_file_iff.mpr ⟨reached, here, plain⟩

/-- A direct path is absolute and consists of names only. -/
theorem isDirect_iff : Path.isDirect path = true ↔
    Path.isAbsolute path = true ∧ Disk.steps path ≠ [] ∧
      (∀ name ∈ Disk.steps path, name ≠ ['.'] ∧ name ≠ ['.', '.']) ∧
      Disk.wantsDirectory path = false := by
  simp [Path.isDirect, and_assoc]

/-- A direct path leads to the location that it names. -/
theorem destination_direct (direct : Path.isDirect path = true) :
    Path.destination path = Disk.steps path := by
  obtain ⟨-, -, plain, -⟩ := isDirect_iff.mp direct
  rw [Path.destination, Place.after_names plain]
  rfl

/-- A direct path leads forward: its segments are names, so that none goes up and the last one is a
name. -/
theorem isForward_of_isDirect (direct : Path.isDirect path = true) :
    Path.isForward path = true := by
  obtain ⟨-, nonempty, plain, noSlash⟩ := isDirect_iff.mp direct
  refine isForward_iff.mpr ⟨_, _, (List.dropLast_concat_getLast nonempty).symm, ?_, ?_, noSlash⟩
  · exact (plain _ (List.getLast_mem nonempty)).1
  · exact fun up => (plain _ up).2 rfl

/-- Whatever is at the location of a direct path is found, if the path could be followed on any
disk. -/
theorem find_direct (direct : Path.isDirect path = true) {place : Place}
    (located : other.locate path = .ok place) {node : Node}
    (found : disk.tree.get? (Path.destination path) = some node) :
    disk.find path = .ok (.ofLocation (Path.destination path), node) := by
  have absolute := (isDirect_iff.mp direct).1
  rw [← Disk.destination_absolute disk absolute] at found ⊢
  refine find_forward (isForward_of_isDirect direct) ?_ located found
  rw [Disk.origin, if_pos absolute]
  rfl

/-- If nothing is found at a direct path, nothing is at its location, provided that the path could
be followed on any disk. -/
theorem free_of_not_exists (direct : Path.isDirect path = true) {place : Place}
    (located : other.locate path = .ok place) (absent : disk.pathExists path = false) :
    disk.tree.get? (Path.destination path) = none := by
  cases found : disk.tree.get? (Path.destination path) with
  | none => rfl
  | some node =>
    have here := find_direct direct located found
    simp [Disk.pathExists, here, Except.isOk, Except.toBool] at absent

end Forward

end Relocate
