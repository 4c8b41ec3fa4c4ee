import Mathlib.Data.List.Induction
import Relocate.Disk.Lookup
import Relocate.Proofs.Text.Split

/-!
# Paths and their segments

A path that is put together from a root and segments is cut into these segments again, and is
absolute if the root is not empty. The directory that a path lies in has its segments but the last.
-/
namespace Relocate

/-- The text may stand between two slashes. -/
def isSegment (name : Text) : Bool := !name.isEmpty && !name.contains '/'

/-- A segment is a text that is not empty and has no slash. -/
theorem isSegment_iff {name : Text} : isSegment name = true ↔ name ≠ [] ∧ '/' ∉ name := by
  simp [isSegment]

namespace Path

/-- An absolute path starts with a slash. -/
theorem isAbsolute_iff {path : Text} : isAbsolute path = true ↔ ∃ rest, path = '/' :: rest := by
  constructor
  · intro absolute
    unfold isAbsolute at absolute
    split at absolute
    · exact ⟨_, rfl⟩
    · simp at absolute
  · rintro ⟨rest, rfl⟩
    rfl

/-- Joined segments do not start with a slash. -/
theorem exists_join {names : List Text} (plain : ∀ name ∈ names, isSegment name = true)
    (proper : names ≠ []) : ∃ c rest, c ≠ '/' ∧ Text.join ['/'] names = c :: rest := by
  obtain ⟨name, others, rfl⟩ := List.exists_cons_of_ne_nil proper
  obtain ⟨nonempty, clean⟩ := isSegment_iff.mp (plain name (by simp))
  obtain ⟨c, run, rfl⟩ := List.exists_cons_of_ne_nil nonempty
  refine ⟨c, run ++ others.flatMap (['/'] ++ ·), ?_, by rw [Text.join_cons, List.cons_append]⟩
  rintro rfl
  simp at clean

/-- Joined segments do not end in a slash. The last character is that of the last segment, which is
not empty. -/
theorem exists_join_concat {names : List Text} (plain : ∀ name ∈ names, isSegment name = true)
    (proper : names ≠ []) : ∃ start c, c ≠ '/' ∧ Text.join ['/'] names = start ++ [c] := by
  obtain ⟨first, last, rfl⟩ : ∃ first last, names = first ++ [last] :=
    ⟨_, _, (List.dropLast_concat_getLast proper).symm⟩
  obtain ⟨nonempty, clean⟩ := isSegment_iff.mp (plain last (by simp))
  obtain ⟨run, c, rfl⟩ : ∃ run c, last = run ++ [c] :=
    ⟨_, _, (List.dropLast_concat_getLast nonempty).symm⟩
  have other : c ≠ '/' := by
    rintro rfl
    simp at clean
  cases first with
  | nil => exact ⟨run, c, other, rfl⟩
  | cons name first =>
    refine ⟨name ++ first.flatMap (['/'] ++ ·) ++ '/' :: run, c, other, ?_⟩
    rw [List.cons_append, Text.join_cons]
    simp

/-- Segments joined by slashes are a relative path: the first one does not start with a slash. -/
@[simp] theorem isAbsolute_join {names : List Text}
    (plain : ∀ name ∈ names, isSegment name = true) :
    isAbsolute (Text.join ['/'] names) = false := by
  by_cases empty : names = []
  · rw [empty]
    rfl
  · obtain ⟨c, rest, other, same⟩ := exists_join plain empty
    rw [same, Bool.eq_false_iff]
    intro absolute
    obtain ⟨more, slash⟩ := isAbsolute_iff.mp absolute
    exact other (List.cons.inj slash).1

/-- A relative path has no slashes to start with. -/
@[simp] theorem root_relative {path : Text} (relative : ¬ isAbsolute path = true) :
    root path = [] := by
  unfold root
  split
  · exact absurd rfl relative
  · exact absurd rfl relative
  · exact absurd rfl relative
  · rfl

/-- The root of an absolute path. -/
theorem root_absolute {path : Text} (absolute : isAbsolute path = true) :
    root path = ['/'] ∨ root path = ['/', '/'] := by
  obtain ⟨rest, rfl⟩ := isAbsolute_iff.mp absolute
  unfold root
  split <;> simp_all

/-- A path with an absolute root is absolute. -/
@[simp] theorem isAbsolute_ofSegments {start : Text} (rooted : start = ['/'] ∨ start = ['/', '/'])
    (names : List Text) : isAbsolute (ofSegments start names) = true := by
  obtain rfl | rfl := rooted <;> rfl

/-- A path of an absolute root and segments is the two behind each other. -/
theorem ofSegments_eq {start : Text} (rooted : start = ['/'] ∨ start = ['/', '/'])
    (names : List Text) : ofSegments start names = start ++ Text.join ['/'] names := by
  obtain rfl | rfl := rooted <;> rfl

/-- A path with the root of another one is absolute if the other is. -/
theorem isAbsolute_ofSegments_root {path : Text} {names : List Text}
    (plain : ∀ name ∈ names, isSegment name = true) :
    isAbsolute (ofSegments (root path) names) = isAbsolute path := by
  by_cases absolute : isAbsolute path = true
  · simp [root_absolute absolute, absolute]
  · rw [root_relative absolute, Bool.eq_false_iff.mpr absolute]
    unfold ofSegments
    split
    · rfl
    · exact isAbsolute_join plain

/-- What is seen from an absolute path is absolute. -/
theorem isAbsolute_append {base : Text} (absolute : isAbsolute base = true) (path : Text) :
    isAbsolute (append base path) = true := by
  unfold append
  split
  · assumption
  · obtain ⟨rest, rfl⟩ := isAbsolute_iff.mp absolute
    split <;> rfl

/-- From an absolute start a path is normalized to an absolute one. -/
@[simp] theorem isAbsolute_normalize {start : Text} (absolute : isAbsolute start = true)
    (path : Text) :
    isAbsolute (normalize start path) = true := by
  have joined := isAbsolute_append absolute path
  rw [normalize, simplify, ofSegments_eq (root_absolute joined)]
  obtain root | root := root_absolute joined <;> rw [root] <;> rfl

/-- An absolute path is normalized to the same path from every directory. -/
theorem normalize_anywhere {path : Text} (absolute : isAbsolute path = true) (start other : Text) :
    normalize start path = normalize other path := by
  rw [normalize, normalize, append, append, if_pos absolute, if_pos absolute]

/-- The segments of a path are not empty, have no slash and do not mean the directory itself. -/
theorem isSegment_of_mem_segments {path name : Text} (member : name ∈ segments path) :
    isSegment name = true ∧ name ≠ ['.'] := by
  rw [segments, List.mem_filter] at member
  have clean := Text.not_mem_of_mem_split member.1
  simp only [Bool.and_eq_true, decide_eq_true_eq] at member
  exact ⟨isSegment_iff.mpr ⟨member.2.1, clean⟩, member.2.2⟩

end Path

namespace Disk

/-- An absolute path is normalized without a look at the disk. -/
theorem normalize_of_absolute {path : Text} (absolute : Path.isAbsolute path = true) (disk : Disk) :
    disk.normalize path = .ok (Path.normalize ['/'] path) := by
  rw [normalize, startOf, if_pos absolute]
  rfl

/-- Slashes in front are not followed. -/
@[simp] theorem steps_slash (path : Text) : steps ('/' :: path) = steps path := by
  simp [steps, Text.split]

/-- Segments with slashes between them are followed one by one. -/
@[simp] theorem steps_join {names : List Text} (plain : ∀ name ∈ names, isSegment name = true) :
    steps (Text.join ['/'] names) = names := by
  by_cases empty : names = []
  · subst empty
    rfl
  · have clean : ∀ name ∈ names, '/' ∉ name :=
      fun name member => (isSegment_iff.mp (plain name member)).2
    rw [steps, Text.split_join empty clean, List.filter_eq_self]
    exact fun name member => by simpa using (isSegment_iff.mp (plain name member)).1

/-- The steps of a path of an absolute root and segments. -/
@[simp] theorem steps_ofSegments {start : Text} (rooted : start = ['/'] ∨ start = ['/', '/'])
    {names : List Text} (plain : ∀ name ∈ names, isSegment name = true) :
    steps (Path.ofSegments start names) = names := by
  rw [Path.ofSegments_eq rooted]
  obtain rfl | rfl := rooted
  · rw [List.cons_append, steps_slash, List.nil_append, steps_join plain]
  · rw [List.cons_append, steps_slash, List.cons_append, steps_slash, List.nil_append,
      steps_join plain]

/-- Segments are among the steps. -/
theorem segments_eq_filter (path : Text) :
    Path.segments path = (steps path).filter (· ≠ ['.']) := by
  rw [Path.segments, steps, List.filter_filter]
  exact List.filter_congr fun name _ => by simp [Bool.and_comm]

/-- A path with the root of another one has its own segments. By cases on the root: slashes in front
add no segment. -/
@[simp] theorem segments_ofSegments {path : Text} {names : List Text}
    (plain : ∀ name ∈ names, isSegment name = true ∧ name ≠ ['.']) :
    Path.segments (Path.ofSegments (Path.root path) names) = names := by
  have whole : names.filter (· ≠ ['.']) = names :=
    List.filter_eq_self.mpr fun name member => by simpa using (plain name member).2
  rw [segments_eq_filter]
  by_cases absolute : Path.isAbsolute path = true
  · rw [steps_ofSegments (Path.root_absolute absolute) fun name member => (plain name member).1,
      whole]
  · rw [Path.root_relative absolute]
    by_cases empty : names = []
    · rw [empty]
      rfl
    · obtain ⟨c, rest, -, same⟩ :=
        Path.exists_join (fun name member => (plain name member).1) empty
      have joined : Path.ofSegments [] names = Text.join ['/'] names := by
        simp [Path.ofSegments, same]
      rw [joined, steps_join fun name member => (plain name member).1, whole]

/-- Tidying a path keeps its segments. -/
@[simp] theorem segments_tidy (path : Text) : Path.segments (Path.tidy path) = Path.segments path :=
  segments_ofSegments fun _ member => Path.isSegment_of_mem_segments member

/-- Tidying keeps an absolute path absolute and a relative one relative. -/
@[simp] theorem isAbsolute_tidy (path : Text) :
    Path.isAbsolute (Path.tidy path) = Path.isAbsolute path :=
  Path.isAbsolute_ofSegments_root fun _ member => (Path.isSegment_of_mem_segments member).1

/-- The path above has all segments but the last one. -/
@[simp] theorem segments_parent (path : Text) :
    Path.segments (Path.parent path) = (Path.segments path).dropLast :=
  segments_ofSegments fun _ member =>
    Path.isSegment_of_mem_segments (List.dropLast_subset _ member)

/-- The path above an absolute path is absolute, and that above a relative one is relative. -/
@[simp] theorem isAbsolute_parent (path : Text) :
    Path.isAbsolute (Path.parent path) = Path.isAbsolute path :=
  Path.isAbsolute_ofSegments_root fun _ member =>
    (Path.isSegment_of_mem_segments (List.dropLast_subset _ member)).1

/-- A tidy path has the segments as its steps. -/
@[simp] theorem steps_tidy {path : Text} (absolute : Path.isAbsolute path = true) :
    steps (Path.tidy path) = Path.segments path :=
  steps_ofSegments (Path.root_absolute absolute) fun _ member =>
    (Path.isSegment_of_mem_segments member).1

/-- The path above an absolute path is followed by all of its segments but the last one. -/
@[simp] theorem steps_parent {path : Text} (absolute : Path.isAbsolute path = true) :
    steps (Path.parent path) = (Path.segments path).dropLast :=
  steps_ofSegments (Path.root_absolute absolute) fun _ member =>
    (Path.isSegment_of_mem_segments (List.dropLast_subset _ member)).1

/-- The steps of two paths with a slash between them. -/
@[simp] theorem steps_append (first second : Text) :
    steps (first ++ '/' :: second) = steps first ++ steps second := by
  simp [steps]

/-- Slashes at the end are not followed. -/
@[simp] theorem steps_trimEnd (path : Text) : steps (Text.trimEnd '/' path) = steps path := by
  induction path using List.reverseRecOn with
  | nil => rfl
  | append_singleton path c inductionHypothesis =>
    by_cases slash : c = '/'
    · subst slash
      have trimmed : Text.trimEnd '/' (path ++ ['/']) = Text.trimEnd '/' path := by
        simp [Text.trimEnd, Text.trimStart]
      rw [trimmed, inductionHypothesis, steps_append]
      simp [steps, Text.split]
    · have kept : Text.trimEnd '/' (path ++ [c]) = path ++ [c] := by
        simp [Text.trimEnd, Text.trimStart, slash]
      rw [kept]

/-- Of a path with a slash, the part through the last one. -/
@[simp] theorem throughLastSlash_append (first : Text) {last : Text} (clean : '/' ∉ last) :
    Path.throughLastSlash (first ++ '/' :: last) = first ++ ['/'] := by
  have passed : ∀ c ∈ last.reverse, decide (c ≠ '/') = true := by
    intro c member
    have other : c ≠ '/' := fun equal => clean (equal ▸ List.mem_reverse.mp member)
    simpa using other
  have turned : (first ++ '/' :: last).reverse = last.reverse ++ '/' :: first.reverse := by simp
  rw [Path.throughLastSlash, turned, List.dropWhile_append_of_pos passed]
  simp

/-- The last segment of a path behind the ones above it. -/
theorem baseName_join {name : Text} (above : List Text) (clean : '/' ∉ name) :
    Path.baseName (Text.join ['/'] (above ++ [name])) = name := by
  by_cases top : above = []
  · have passed : name.reverse.dropWhile (fun c => decide (c ≠ '/')) = [] :=
      List.dropWhile_eq_nil_iff.mpr fun c member => by
        have other : c ≠ '/' := fun equal => clean (equal ▸ List.mem_reverse.mp member)
        simpa using other
    rw [top, List.nil_append, Text.join, Path.baseName, Path.throughLastSlash, passed]
    rfl
  · rw [Text.join_append _ top (by simp), List.append_assoc, List.singleton_append, Text.join,
      Path.baseName, throughLastSlash_append _ clean]
    simp

/-- What is left of a text without some characters at its end starts as the text does. -/
theorem exists_trimEnd (c : Char) (text : Text) : Text.trimEnd c text <+: text := by
  rw [Text.trimEnd, Text.trimStart, ← List.reverse_suffix, List.reverse_reverse]
  exact List.dropWhile_suffix _

/-- The directory of an absolute path is absolute. What is left up to the last slash starts with the
first slash. Trimming at the end keeps it unless all of it are slashes, and then nothing is
trimmed. -/
theorem isAbsolute_directory {path : Text} (absolute : Path.isAbsolute path = true) :
    Path.isAbsolute (Path.directory path) = true := by
  obtain ⟨rest, rfl⟩ := Path.isAbsolute_iff.mp absolute
  have start : ∃ others, Path.throughLastSlash ('/' :: rest) = '/' :: others := by
    cases cut : Text.splitLast? '/' ('/' :: rest) with
    | none => exact absurd (Text.splitLast?_eq_none_iff.mp cut) (by simp)
    | some parts =>
      obtain ⟨first, last⟩ := parts
      obtain ⟨text, clean⟩ := Text.splitLast?_eq_some_iff.mp cut
      rw [text, throughLastSlash_append first clean]
      cases first with
      | nil => exact ⟨[], rfl⟩
      | cons c first => exact ⟨first ++ ['/'], by rw [← (List.cons.inj text).1]; rfl⟩
  obtain ⟨others, head⟩ := start
  rw [Path.directory, head]
  split
  · rfl
  · rename_i notAll
    obtain ⟨rest, whole⟩ := exists_trimEnd '/' ('/' :: others)
    cases trimmed : Text.trimEnd '/' ('/' :: others) with
    | nil =>
      rw [Text.trimEnd, Text.trimStart, List.reverse_eq_nil_iff, List.dropWhile_eq_nil_iff]
        at trimmed
      refine absurd (List.all_eq_true.mpr fun c member => ?_) notAll
      exact trimmed c (List.mem_reverse.mpr member)
    | cons c others' =>
      rw [trimmed, List.cons_append] at whole
      rw [(List.cons.inj whole).1]
      rfl

/-- The directory that a path lies in starts where the path starts. The directory is a start of the
path, so that it is absolute only if the path is. -/
@[simp] theorem isAbsolute_directory_eq (path : Text) :
    Path.isAbsolute (Path.directory path) = Path.isAbsolute path := by
  by_cases absolute : Path.isAbsolute path = true
  · rw [isAbsolute_directory absolute, absolute]
  · rw [Bool.eq_false_iff.mpr absolute, Bool.eq_false_iff]
    intro directory
    have head : Path.throughLastSlash path <+: path := by
      rw [Path.throughLastSlash, ← List.reverse_suffix, List.reverse_reverse]
      exact List.dropWhile_suffix _
    have start : Path.directory path <+: path := by
      rw [Path.directory]
      split
      · exact head
      · exact (exists_trimEnd '/' _).trans head
    obtain ⟨rest, same⟩ := Path.isAbsolute_iff.mp directory
    obtain ⟨more, whole⟩ := start
    rw [same] at whole
    exact absurd (Path.isAbsolute_iff.mpr ⟨rest ++ more, whole.symm⟩) absolute

/-- The directory that a path lies in has its steps but the last. By cases on the last slash: what
stands behind it is one segment, and the slashes in front of it do not count. -/
theorem steps_directory {path : Text} (plain : wantsDirectory path = false) :
    steps (Path.directory path) = (steps path).dropLast := by
  have trimmed : steps (Path.directory path) = steps (Path.throughLastSlash path) := by
    rw [Path.directory]
    split
    · rfl
    · exact steps_trimEnd _
  rw [trimmed]
  cases cut : Text.splitLast? '/' path with
  | none =>
    have clean := Text.splitLast?_eq_none_iff.mp cut
    have passed : path.reverse.dropWhile (fun c => decide (c ≠ '/')) = [] :=
      List.dropWhile_eq_nil_iff.mpr fun c member => by
        have other : c ≠ '/' := fun equal => clean (equal ▸ List.mem_reverse.mp member)
        simpa using other
    rw [Path.throughLastSlash, passed]
    by_cases empty : path = [] <;> simp [empty, steps, clean]
  | some parts =>
    obtain ⟨first, last⟩ := parts
    obtain ⟨rfl, clean⟩ := Text.splitLast?_eq_some_iff.mp cut
    have nonempty : last ≠ [] := by
      rintro rfl
      simp [wantsDirectory, Text.endsWith] at plain
    rw [throughLastSlash_append first clean, steps_append, steps_append]
    simp [steps, clean, nonempty, Text.split]

end Disk

end Relocate
