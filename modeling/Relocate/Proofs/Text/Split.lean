import Mathlib.Data.List.TakeDrop
import Mathlib.Data.List.TakeWhile
import Relocate.Text.Basic

/-!
# Cutting texts at separators

The pieces of a text determine it, and the pieces of two texts with a separator between them are the
pieces of the one and the pieces of the other. Module names, class names and paths are cut this way.
-/
namespace Relocate.Text

/-- Joined pieces are the first one and then each other one behind a separator. -/
theorem join_cons (separator piece : Text) (pieces : List Text) :
    join separator (piece :: pieces) = piece ++ pieces.flatMap (separator ++ ·) := by
  induction pieces generalizing piece with
  | nil => simp [join]
  | cons next pieces inductionHypothesis =>
    rw [join, inductionHypothesis, List.flatMap_cons, List.append_assoc, List.append_assoc]
    simp

/-- Joining two lists that both have pieces is joining the two results with the separator. -/
theorem join_append (separator : Text) {first second : List Text} (nonempty : first ≠ [])
    (more : second ≠ []) :
    join separator (first ++ second) =
      join separator first ++ separator ++ join separator second := by
  obtain ⟨piece, pieces, rfl⟩ := List.exists_cons_of_ne_nil nonempty
  obtain ⟨next, others, rfl⟩ := List.exists_cons_of_ne_nil more
  simp [join_cons]

/-- There is always a piece. -/
@[simp] theorem split_ne_nil (separator : Char) (t : Text) : split separator t ≠ [] := by
  cases t with
  | nil => simp [split]
  | cons c rest =>
    rw [split]
    split
    · simp
    · split <;> simp

/-- A character other than the separator goes into the first piece. -/
theorem split_cons {separator c : Char} (other : c ≠ separator) (t : Text) :
    ∃ piece pieces, split separator t = piece :: pieces ∧
      split separator (c :: t) = (c :: piece) :: pieces := by
  obtain ⟨piece, pieces, same⟩ := List.exists_cons_of_ne_nil (split_ne_nil separator t)
  exact ⟨piece, pieces, same, by simp [split, other, same]⟩

/-- A text without separator is one piece. -/
@[simp] theorem split_of_not_mem {separator : Char} {t : Text} (absent : separator ∉ t) :
    split separator t = [t] := by
  induction t with
  | nil => rfl
  | cons c t inductionHypothesis =>
    simp only [List.mem_cons, not_or] at absent
    simp [split, Ne.symm absent.1, inductionHypothesis absent.2]

/-- The pieces of two texts with a separator between them. -/
@[simp] theorem split_append (separator : Char) (s t : Text) :
    split separator (s ++ separator :: t) = split separator s ++ split separator t := by
  induction s with
  | nil => simp [split]
  | cons c s inductionHypothesis =>
    by_cases cut : c = separator
    · simp [split, cut, inductionHypothesis]
    · obtain ⟨piece, pieces, same, longer⟩ := split_cons cut s
      simp [split, cut, inductionHypothesis, same]

/-- No piece holds the separator. By induction on the text: a character joins the first piece or, as
the separator, starts a new one. -/
theorem not_mem_of_mem_split {separator : Char} {t piece : Text}
    (member : piece ∈ split separator t) : separator ∉ piece := by
  induction t generalizing piece with
  | nil =>
    obtain rfl : piece = [] := by simpa [split] using member
    simp
  | cons c t inductionHypothesis =>
    by_cases cut : c = separator
    · rw [split, if_pos cut, List.mem_cons] at member
      obtain rfl | member := member
      · simp
      · exact inductionHypothesis member
    · obtain ⟨first, others, same, longer⟩ := split_cons cut t
      rw [longer, List.mem_cons] at member
      obtain rfl | member := member
      · have absent := @inductionHypothesis first (by simp [same])
        simp [Ne.symm cut, absent]
      · exact inductionHypothesis (by simp [same, member])

/-- The characters of a piece are those of the text. By induction on the text, along the way in
which it is split. -/
theorem mem_of_mem_split {separator c : Char} {t piece : Text}
    (member : piece ∈ split separator t) (inside : c ∈ piece) : c ∈ t := by
  induction t generalizing piece with
  | nil =>
    obtain rfl : piece = [] := by simpa [split] using member
    exact inside
  | cons d t inductionHypothesis =>
    by_cases cut : d = separator
    · rw [split, if_pos cut, List.mem_cons] at member
      obtain rfl | member := member
      · simp at inside
      · exact List.mem_cons_of_mem _ (inductionHypothesis member inside)
    · obtain ⟨first, others, same, longer⟩ := split_cons cut t
      rw [longer, List.mem_cons] at member
      obtain rfl | member := member
      · obtain rfl | inside := List.mem_cons.mp inside
        · simp
        · exact List.mem_cons_of_mem _ (inductionHypothesis (by simp [same]) inside)
      · exact List.mem_cons_of_mem _ (inductionHypothesis (by simp [same, member]) inside)

/-- The pieces with the separator between them are the text. By induction on the text: a character
is put in front of the first piece, a separator in front of all of them. -/
@[simp] theorem join_split (separator : Char) (t : Text) :
    join [separator] (split separator t) = t := by
  induction t with
  | nil => rfl
  | cons c t inductionHypothesis =>
    by_cases cut : c = separator
    · obtain ⟨piece, pieces, same⟩ := List.exists_cons_of_ne_nil (split_ne_nil separator t)
      rw [same, join_cons] at inductionHypothesis
      rw [split, if_pos cut, same, join_cons, List.flatMap_cons, cut, List.append_assoc,
        inductionHypothesis]
      rfl
    · obtain ⟨piece, pieces, same, longer⟩ := split_cons cut t
      rw [same, join_cons] at inductionHypothesis
      rw [longer, join_cons, ← inductionHypothesis]
      rfl

/-- Pieces without separator are found again in the text made of them. By induction on the pieces:
the first separator of the text is the one behind the first piece. -/
theorem split_join {separator : Char} {pieces : List Text} (nonempty : pieces ≠ [])
    (clean : ∀ piece ∈ pieces, separator ∉ piece) :
    split separator (join [separator] pieces) = pieces := by
  induction pieces with
  | nil => exact absurd rfl nonempty
  | cons piece pieces inductionHypothesis =>
    simp only [List.forall_mem_cons] at clean
    cases pieces with
    | nil => exact split_of_not_mem clean.1
    | cons next pieces =>
      have others := inductionHypothesis (by simp) clean.2
      rw [join, List.append_assoc, List.singleton_append, split_append, split_of_not_mem clean.1,
        others]
      · rfl
      · simp

/-- From its end on, a text without the separator is passed over. -/
theorem passed_of_not_mem {separator : Char} {t : Text} (absent : separator ∉ t) :
    ∀ c ∈ t.reverse, decide (c ≠ separator) = true := by
  intro c member
  have other : c ≠ separator := fun equal => absent (equal ▸ List.mem_reverse.mp member)
  simpa using other

/-- A character that a text holds has a last place in it. -/
theorem exists_last_of_mem {c : Char} {t : Text} (member : c ∈ t) :
    ∃ first last, t = first ++ c :: last ∧ c ∉ last := by
  obtain ⟨later, earlier, same, absent⟩ :=
    List.eq_append_cons_of_mem (List.mem_reverse.mpr member)
  refine ⟨earlier.reverse, later.reverse, ?_, by simpa using absent⟩
  rw [← List.reverse_reverse t, same]
  simp

/-- The cut is at the last separator. -/
@[simp] theorem splitLast?_append {separator : Char} (first : Text) {last : Text}
    (absent : separator ∉ last) :
    splitLast? separator (first ++ separator :: last) = some (first, last) := by
  have turned : (first ++ separator :: last).reverse =
      last.reverse ++ separator :: first.reverse := by simp
  have kept := passed_of_not_mem absent
  rw [splitLast?, turned, List.span_eq_takeWhile_dropWhile, List.takeWhile_append_of_pos kept,
    List.dropWhile_append_of_pos kept]
  simp

/-- There is no cut exactly if there is no separator. -/
theorem splitLast?_eq_none_iff {separator : Char} {t : Text} :
    splitLast? separator t = none ↔ separator ∉ t := by
  constructor
  · intro missing member
    obtain ⟨first, last, rfl, absent⟩ := exists_last_of_mem member
    rw [splitLast?_append _ absent] at missing
    simp at missing
  · intro absent
    have rest : t.reverse.dropWhile (fun c => decide (c ≠ separator)) = [] :=
      List.dropWhile_eq_nil_iff.mpr (passed_of_not_mem absent)
    rw [splitLast?, List.span_eq_takeWhile_dropWhile, rest]

/-- What the cut at the last separator gives. A text with a separator has a last one, and the cut is
there. -/
theorem splitLast?_eq_some_iff {separator : Char} {t first last : Text} :
    splitLast? separator t = some (first, last) ↔
      t = first ++ separator :: last ∧ separator ∉ last := by
  constructor
  · intro cut
    have member : separator ∈ t := by
      apply Decidable.byContradiction
      intro absent
      rw [splitLast?_eq_none_iff.mpr absent] at cut
      simp at cut
    obtain ⟨earlier, later, rfl, absent⟩ := exists_last_of_mem member
    rw [splitLast?_append _ absent] at cut
    obtain ⟨rfl, rfl⟩ := Prod.mk.inj (Option.some.inj cut)
    exact ⟨rfl, absent⟩
  · rintro ⟨rfl, absent⟩
    exact splitLast?_append first absent

/-- A text without a character stays the same when it becomes another one. -/
@[simp] theorem replaceChar_of_not_mem {old new : Char} {text : Text} (absent : old ∉ text) :
    replaceChar old new text = text := by
  rw [replaceChar, List.map_congr_left, List.map_id]
  intro c member
  rw [if_neg]
  · rfl
  · rintro rfl
    exact absent member

/-- No character is left that becomes another one. -/
theorem not_mem_replaceChar {old new : Char} (other : new ≠ old) (text : Text) :
    old ∉ replaceChar old new text := by
  intro member
  obtain ⟨c, -, same⟩ := List.mem_map.mp member
  split at same
  · exact other same
  · contradiction

/-- Only the new character is put in. -/
theorem not_mem_replaceChar_of_not_mem {c old new : Char} {text : Text} (other : c ≠ new)
    (clean : c ∉ text) : c ∉ replaceChar old new text := by
  intro held
  obtain ⟨d, inside, same⟩ := List.mem_map.mp held
  split at same
  · exact other same.symm
  · exact clean (same ▸ inside)

/-- Replacing a character goes through the pieces and the separator. -/
theorem replaceChar_join (old new separator : Char) (pieces : List Text) :
    replaceChar old new (join [separator] pieces) =
      join [if separator = old then new else separator] (pieces.map (replaceChar old new)) := by
  cases pieces with
  | nil => rfl
  | cons piece pieces =>
    rw [List.map_cons, join_cons, join_cons]
    simp [replaceChar, List.map_flatMap, List.flatMap_map]

/-- A text with a character replaced is its pieces with the new character between them. -/
theorem replaceChar_eq_join (old new : Char) (text : Text) :
    replaceChar old new text = join [new] (split old text) := by
  have kept : (split old text).map (replaceChar old new) = split old text := by
    refine (List.map_congr_left fun piece member => ?_).trans (List.map_id _)
    exact replaceChar_of_not_mem (not_mem_of_mem_split member)
  have whole := replaceChar_join old new old (split old text)
  rwa [join_split, if_pos rfl, kept] at whole

/-- Pieces that are themselves joined are joined one by one. -/
theorem join_flatMap (separator : Text) {cut : Text → List Text} (nonempty : ∀ text, cut text ≠ [])
    (texts : List Text) :
    join separator (texts.map fun text => join separator (cut text)) =
      join separator (texts.flatMap cut) := by
  induction texts with
  | nil => rfl
  | cons text texts inductionHypothesis =>
    by_cases last : texts = []
    · simp [last, join]
    · obtain ⟨next, others, rfl⟩ := List.exists_cons_of_ne_nil last
      have more : (next :: others).flatMap cut ≠ [] := by simp [nonempty next]
      rw [List.flatMap_cons, join_append _ (nonempty text) more, ← inductionHypothesis]
      rfl

/-- A text that ends in another character has nothing to trim. -/
@[simp] theorem trimEnd_of_last {c d : Char} (other : d ≠ c) (text : Text) :
    trimEnd c (text ++ [d]) = text ++ [d] := by
  simp [trimEnd, trimStart, other]

/-- Nothing is dropped in front of another character. -/
theorem trimEnd_append {c d : Char} (other : d ≠ c) (first last : Text) :
    trimEnd c (first ++ d :: last) = first ++ d :: trimEnd c last := by
  have turned : (first ++ d :: last).reverse = last.reverse ++ d :: first.reverse := by simp
  rw [trimEnd, trimEnd, trimStart, trimStart, turned, List.dropWhile_append]
  split
  · rename_i all
    rw [List.isEmpty_iff] at all
    simp [all, other]
  · simp

/-- Of a text that consists of the character nothing is left. -/
theorem trimEnd_of_all {c : Char} {text : Text} (all : ∀ d ∈ text, d = c) :
    trimEnd c text = [] := by
  rw [trimEnd, trimStart, List.reverse_eq_nil_iff, List.dropWhile_eq_nil_iff]
  exact fun d member => by simpa using all d (List.mem_reverse.mp member)

end Relocate.Text
