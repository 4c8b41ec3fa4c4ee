import Relocate.References
import Relocate.Proofs.Text.Split

/-!
# References in the body of a file

A body refers to a module by one of the two spellings of its name with a slash behind it. No name
holds a slash, and the two spellings are equally long, so references never overlap: a body is cut
into text that stays and references, and into no others than these (`Cut`). Renaming goes through
the parts one by one.

A reference keeps its spelling, plain or flattened, with one exception: if the old name has only one
spelling, every reference gets the flattened new name, though the plain one was written.
-/
namespace Relocate

/-- A part of a body. -/
inductive BodyPart where
  /-- Text that stays. -/
  | plain (text : Text)
  /-- A name with a slash behind it. -/
  | reference (spelling : Text)
deriving DecidableEq

namespace BodyPart

def text : BodyPart → Text
  | .plain text => text
  | .reference spelling => spelling ++ ['/']

/-- The part with its name spelled anew. -/
def respell (spell : Text → Text) : BodyPart → BodyPart
  | .plain text => .plain text
  | .reference spelling => .reference (spell spelling)

/-- The text of several parts. -/
def join (parts : List BodyPart) : Text := parts.flatMap text

end BodyPart

/-- The text spells the name of a module, plain or flattened. -/
def ModuleName.HasSpelling (module spelling : Text) : Prop :=
  spelling = module ∨ spelling = ModuleName.flatten module

/-- The parts of a body in which the references are exactly the occurrences of the two spellings
with a slash behind them. -/
structure Cut (module body : Text) (parts : List BodyPart) : Prop where
  whole : BodyPart.join parts = body
  spelled : ∀ spelling, .reference spelling ∈ parts → ModuleName.HasSpelling module spelling
  complete : ∀ before spelling after, ModuleName.HasSpelling module spelling →
    body = before ++ spelling ++ '/' :: after →
      ∃ earlier later, parts = earlier ++ .reference spelling :: later ∧
        BodyPart.join earlier = before ∧ BodyPart.join later = after

/-- A text with a slash is cut in one way at its first one. By induction on the first of the two
cuts. -/
theorem eq_of_first_slash {first second rest other : Text} (clean : '/' ∉ first)
    (otherClean : '/' ∉ second) (same : first ++ '/' :: rest = second ++ '/' :: other) :
    first = second ∧ rest = other := by
  induction first generalizing second with
  | nil =>
    cases second with
    | nil => exact ⟨rfl, (List.cons.inj same).2⟩
    | cons d second => simp [(List.cons.inj same).1.symm] at otherClean
  | cons c first inductionHypothesis =>
    simp only [List.mem_cons, not_or] at clean
    cases second with
    | nil => exact absurd (List.cons.inj same).1.symm clean.1
    | cons d second =>
      simp only [List.mem_cons, not_or] at otherClean
      obtain ⟨head, tail⟩ := List.cons.inj same
      obtain ⟨rfl, rfl⟩ := inductionHypothesis clean.2 otherClean.2 tail
      exact ⟨by rw [head], rfl⟩

/-- A name in front of a slash ends at the first slash of the text or stands behind it. -/
theorem reference_cases {piece rest before spelling after : Text} (clean : '/' ∉ piece)
    (nameClean : '/' ∉ spelling)
    (same : piece ++ '/' :: rest = before ++ spelling ++ '/' :: after) :
    (piece = before ++ spelling ∧ rest = after) ∨
      ∃ more, before = piece ++ '/' :: more ∧ rest = more ++ spelling ++ '/' :: after := by
  by_cases slash : '/' ∈ before
  · obtain ⟨first, second, rfl, absent⟩ := List.eq_append_cons_of_mem slash
    rw [List.append_assoc, List.append_assoc, List.cons_append] at same
    obtain ⟨rfl, rfl⟩ := eq_of_first_slash clean absent same
    exact .inr ⟨second, rfl, by simp⟩
  · exact .inl (eq_of_first_slash clean (by simp [slash, nameClean]) same)

section Substitution

variable {rows : List (Text × Text)} {piece rest : Text}

/-- A row with slashes behind both names. -/
def slashed (row : Text × Text) : Text × Text := (row.1 ++ ['/'], row.2 ++ ['/'])

/-- Up to the first slash, only the whole text is a name with a slash behind it. -/
theorem startsWith_slashed {name : Text} (clean : '/' ∉ piece) (nameClean : '/' ∉ name) :
    Text.startsWith (name ++ ['/']) (piece ++ '/' :: rest) = decide (name = piece) := by
  rw [Text.startsWith, Bool.eq_iff_iff, List.isPrefixOf_iff_prefix, decide_eq_true_eq]
  constructor
  · rintro ⟨after, same⟩
    rw [List.append_assoc] at same
    exact (eq_of_first_slash nameClean clean same).1
  · rintro rfl
    exact ⟨rest, by simp⟩

/-- Which row applies to a text depends on the piece in front of its first slash alone. A row ends
in a slash and has no other, so that it is at the start of the text if it is this piece. -/
theorem find_slashed (clean : '/' ∉ piece) (rowsClean : ∀ row ∈ rows, '/' ∉ row.1) :
    ((rows.map slashed).find? fun row => Text.startsWith row.1 (piece ++ '/' :: rest)) =
      (rows.find? fun row => row.1 = piece).map slashed := by
  induction rows with
  | nil => rfl
  | cons row rows inductionHypothesis =>
    rw [List.forall_mem_cons] at rowsClean
    have first : Text.startsWith (slashed row).1 (piece ++ '/' :: rest) = decide (row.1 = piece) :=
      startsWith_slashed clean rowsClean.1
    rw [List.map_cons, List.find?_cons, List.find?_cons, first, inductionHypothesis rowsClean.2]
    cases decide (row.1 = piece) <;> rfl

/-- What belongs to the last match is passed over. -/
theorem substitute_skip (table : List (Text × Text)) (first rest : Text) :
    substitute table first.length (first ++ rest) = substitute table 0 rest := by
  induction first with
  | nil => rfl
  | cons c first inductionHypothesis => exact inductionHypothesis

/-- Where no row fits, the text goes on. -/
theorem substitute_none {table : List (Text × Text)} {c : Char} {rest : Text}
    (missing : (table.find? fun row => Text.startsWith row.1 (c :: rest)) = none) :
    substitute table 0 (c :: rest) = c :: substitute table 0 rest := by
  rw [substitute, missing]

/-- Where a row fits, its other side is written. -/
theorem substitute_some {table : List (Text × Text)} {row : Text × Text} {first rest : Text}
    (nonempty : first ≠ []) (same : row.1 = first)
    (found : (table.find? fun row => Text.startsWith row.1 (first ++ rest)) = some row) :
    substitute table 0 (first ++ rest) = row.2 ++ substitute table 0 rest := by
  obtain ⟨c, others, rfl⟩ := List.exists_cons_of_ne_nil nonempty
  rw [List.cons_append] at found ⊢
  rw [substitute, found]
  simp [same, substitute_skip]

/-- A text without slashes has no reference in it. -/
theorem substitute_clean (clean : '/' ∉ piece) : substitute (rows.map slashed) 0 piece = piece := by
  induction piece with
  | nil => rfl
  | cons c piece inductionHypothesis =>
    have missing :
        ((rows.map slashed).find? fun row => Text.startsWith row.1 (c :: piece)) = none := by
      rw [List.find?_eq_none]
      intro row member starts
      obtain ⟨name, -, rfl⟩ := List.mem_map.mp member
      have inside := (List.isPrefixOf_iff_prefix.mp starts).subset
      exact clean (inside (by simp [slashed]))
    have later := inductionHypothesis fun member => clean (List.mem_cons_of_mem _ member)
    rw [substitute_none missing, later]

/-- A text that ends in no name up to its first slash is passed over. By induction on the piece: no
row applies at any place in it, since a row that did would end at the slash. -/
theorem substitute_plain (clean : '/' ∉ piece) (rowsClean : ∀ row ∈ rows, '/' ∉ row.1)
    (missing : ∀ row ∈ rows, ¬ row.1 <:+ piece) :
    substitute (rows.map slashed) 0 (piece ++ '/' :: rest) =
      piece ++ '/' :: substitute (rows.map slashed) 0 rest := by
  have missed (piece : Text) (clean : '/' ∉ piece) (missing : ∀ row ∈ rows, ¬ row.1 <:+ piece) :
      ((rows.map slashed).find? fun row => Text.startsWith row.1 (piece ++ '/' :: rest)) =
        none := by
    rw [find_slashed clean rowsClean, Option.map_eq_none_iff, List.find?_eq_none]
    intro row member same
    exact missing row member (of_decide_eq_true same ▸ List.suffix_rfl)
  induction piece with
  | nil => exact substitute_none (missed [] clean missing)
  | cons c piece inductionHypothesis =>
    have later := inductionHypothesis (fun member => clean (List.mem_cons_of_mem _ member))
      fun row member ends => missing row member (ends.trans (List.suffix_cons c piece))
    have here := missed (c :: piece) clean missing
    rw [List.cons_append] at here ⊢
    rw [substitute_none here, later, List.cons_append]

/-- A name that ends at the first slash is replaced, and what stands in front of it stays. All names
have to be equally long, so that no longer one ends there. -/
theorem substitute_reference {start : Text} (row : Text × Text) {size : Nat}
    (clean : '/' ∉ start) (rowsClean : ∀ row ∈ rows, '/' ∉ row.1)
    (sizes : ∀ row ∈ rows, row.1.length = size)
    (found : (rows.find? fun other => other.1 = row.1) = some row) :
    substitute (rows.map slashed) 0 (start ++ row.1 ++ '/' :: rest) =
      start ++ row.2 ++ '/' :: substitute (rows.map slashed) 0 rest := by
  have member := List.mem_of_find?_eq_some found
  induction start with
  | nil =>
    have here : ((rows.map slashed).find? fun other =>
        Text.startsWith other.1 (row.1 ++ ['/'] ++ rest)) = some (slashed row) := by
      have first := @find_slashed rows row.1 rest (rowsClean row member) rowsClean
      rw [found] at first
      simpa using first
    have written := substitute_some (List.concat_ne_nil '/' row.1) rfl here
    simpa [slashed] using written
  | cons c start inductionHypothesis =>
    have missing : ((rows.map slashed).find? fun other =>
        Text.startsWith other.1 ((c :: start ++ row.1) ++ '/' :: rest)) = none := by
      have whole : '/' ∉ c :: start ++ row.1 := by
        simp only [List.mem_append, not_or]
        exact ⟨clean, rowsClean row member⟩
      rw [find_slashed whole rowsClean, Option.map_eq_none_iff, List.find?_eq_none]
      intro other listed same
      have longer := congrArg List.length (of_decide_eq_true same)
      have equal := (sizes other listed).trans (sizes row member).symm
      simp only [List.cons_append, List.length_cons, List.length_append] at longer
      omega
    have later := inductionHypothesis fun member => clean (List.mem_cons_of_mem _ member)
    rw [List.cons_append, List.cons_append] at missing ⊢
    rw [List.cons_append, substitute_none missing, later]
    rfl

end Substitution

section Cuts

variable {module start piece rest spelling : Text} {parts : List BodyPart}

/-- Flattening a name replaces characters one for one. -/
@[simp] theorem length_flatten (module : Text) :
    (ModuleName.flatten module).length = module.length := by
  simp [ModuleName.flatten, Text.replaceChar]

/-- Both spellings are equally long. -/
theorem ModuleName.HasSpelling.length (spells : ModuleName.HasSpelling module spelling) :
    spelling.length = module.length := by
  obtain rfl | rfl := spells
  · rfl
  · exact length_flatten module

/-- No spelling of a name without slashes has one. -/
theorem ModuleName.HasSpelling.clean (spells : ModuleName.HasSpelling module spelling)
    (clean : '/' ∉ module) : '/' ∉ spelling := by
  obtain rfl | rfl := spells
  · exact clean
  · exact Text.not_mem_replaceChar_of_not_mem (by decide) clean

/-- Without slashes there are no references. -/
theorem cut_clean (clean : '/' ∉ piece) : Cut module piece [.plain piece] where
  whole := by simp [BodyPart.join, BodyPart.text]
  spelled := by simp
  complete := by
    rintro before spelling after - rfl
    simp at clean

/-- Up to the first slash there is no reference, if no spelling ends there. -/
theorem Cut.plain (cut : Cut module rest parts) (moduleClean : '/' ∉ module) (clean : '/' ∉ piece)
    (missing : ∀ spelling, ModuleName.HasSpelling module spelling → ¬ spelling <:+ piece) :
    Cut module (piece ++ '/' :: rest) (.plain (piece ++ ['/']) :: parts) where
  whole := by simpa [BodyPart.join, BodyPart.text] using cut.whole
  spelled := by simpa using cut.spelled
  complete := by
    intro before spelling after spells same
    obtain ⟨rfl, -⟩ | ⟨more, rfl, behind⟩ :=
      reference_cases clean (spells.clean moduleClean) same
    · exact absurd (List.suffix_append before spelling) (missing spelling spells)
    · obtain ⟨earlier, later, rfl, rfl, there⟩ := cut.complete more spelling after spells behind
      exact ⟨.plain (piece ++ ['/']) :: earlier, later, rfl, by simp [BodyPart.join, BodyPart.text],
        there⟩

/-- At the first slash there is one reference, if a spelling ends there. A further occurrence ends
at this slash, and then it is the same one as all spellings are equally long, or it lies behind it.
-/
theorem Cut.reference (cut : Cut module rest parts) (moduleClean : '/' ∉ module)
    (clean : '/' ∉ start) (spells : ModuleName.HasSpelling module spelling) :
    Cut module (start ++ spelling ++ '/' :: rest)
      (.plain start :: .reference spelling :: parts) where
  whole := by simpa [BodyPart.join, BodyPart.text] using cut.whole
  spelled := by
    intro other member
    simp only [List.mem_cons, reduceCtorEq, BodyPart.reference.injEq, false_or] at member
    obtain rfl | later := member
    · exact spells
    · exact cut.spelled other later
  complete := by
    intro before other after otherSpells same
    have whole : '/' ∉ start ++ spelling := by
      simp only [List.mem_append, not_or]
      exact ⟨clean, spells.clean moduleClean⟩
    obtain ⟨first, rfl⟩ | ⟨more, rfl, behind⟩ :=
      reference_cases whole (otherSpells.clean moduleClean) same
    · -- The two spellings end at the same place and are equally long.
      obtain ⟨rfl, rfl⟩ :=
        List.append_inj' first (spells.length.trans otherSpells.length.symm)
      exact ⟨[.plain start], parts, rfl, by simp [BodyPart.join, BodyPart.text], cut.whole⟩
    · obtain ⟨earlier, later, rfl, rfl, there⟩ :=
        cut.complete more other after otherSpells behind
      exact ⟨.plain start :: .reference spelling :: earlier, later, rfl,
        by simp [BodyPart.join, BodyPart.text], there⟩

end Cuts

section Renaming

variable {old new : Text}

/-- The spellings of a module before and after. -/
def spellings (old new : Text) : List (Text × Text) :=
  let flattened := (ModuleName.flatten old, ModuleName.flatten new)
  if ModuleName.flatten old = old then [flattened] else [(old, new), flattened]

/-- The table of qualifiers is that of the spellings, each with a slash behind it. -/
theorem qualifiers_eq (old new : Text) : qualifiers old new = (spellings old new).map slashed := by
  unfold qualifiers spellings
  simp only
  split <;> rfl

/-- What becomes of a spelling. The flattened one comes first where there is only one. -/
def renamedSpelling (old new spelling : Text) : Text :=
  if spelling = ModuleName.flatten old then ModuleName.flatten new else new

/-- The rows of the table are for spellings of the old name. -/
theorem spells_of_mem {row : Text × Text} (member : row ∈ spellings old new) :
    ModuleName.HasSpelling old row.1 := by
  unfold spellings at member
  simp only at member
  split at member
  · rw [List.mem_singleton.mp member]
    exact .inr rfl
  · obtain rfl | later := List.mem_cons.mp member
    · exact .inl rfl
    · rw [List.mem_singleton.mp later]
      exact .inr rfl

/-- Every spelling of the old name has its row. If the two spellings are the same, the first row
applies. -/
theorem find_spellings {spelling : Text} (spells : ModuleName.HasSpelling old spelling) :
    ((spellings old new).find? fun row => row.1 = spelling) =
      some (spelling, renamedSpelling old new spelling) := by
  unfold spellings renamedSpelling
  simp only
  split
  · rename_i single
    have same : spelling = ModuleName.flatten old := by
      obtain rfl | rfl := spells
      · exact single.symm
      · rfl
    simp [same]
  · rename_i double
    obtain rfl | rfl := spells
    · have apart : spelling ≠ ModuleName.flatten spelling := fun same => double same.symm
      simp [apart]
    · have apart : old ≠ ModuleName.flatten old := fun same => double same.symm
      simp [apart]

/-- A body is cut piece by piece, and each part is renamed on its own. By induction on the pieces,
by cases on whether a spelling ends the first one. -/
theorem exists_cut (clean : '/' ∉ old) (new : Text) {pieces : List Text} (nonempty : pieces ≠ [])
    (piecesClean : ∀ piece ∈ pieces, '/' ∉ piece) :
    ∃ parts, Cut old (Text.join ['/'] pieces) parts ∧
      renameInBody old new (Text.join ['/'] pieces) =
        BodyPart.join (parts.map (BodyPart.respell (renamedSpelling old new))) := by
  have rowsClean : ∀ row ∈ spellings old new, '/' ∉ row.1 := fun row member =>
    (spells_of_mem member).clean clean
  have sizes : ∀ row ∈ spellings old new, row.1.length = old.length := fun row member =>
    (spells_of_mem member).length
  simp only [renameInBody, qualifiers_eq]
  induction pieces with
  | nil => exact absurd rfl nonempty
  | cons piece pieces inductionHypothesis =>
    rw [List.forall_mem_cons] at piecesClean
    by_cases last : pieces = []
    · subst last
      exact ⟨_, cut_clean piecesClean.1, by
        simpa [Text.join, BodyPart.join, BodyPart.respell, BodyPart.text] using
          substitute_clean piecesClean.1⟩
    · obtain ⟨parts, cut, renamed⟩ := inductionHypothesis last piecesClean.2
      have joined : Text.join ['/'] (piece :: pieces) = piece ++ '/' :: Text.join ['/'] pieces := by
        obtain ⟨next, others, rfl⟩ := List.exists_cons_of_ne_nil last
        simp [Text.join]
      rw [joined]
      by_cases ends : ∃ spelling, ModuleName.HasSpelling old spelling ∧ spelling <:+ piece
      · obtain ⟨spelling, spells, start, rfl⟩ := ends
        have startClean : '/' ∉ start := fun member =>
          piecesClean.1 (List.mem_append_left _ member)
        refine ⟨_, cut.reference clean startClean spells, ?_⟩
        rw [substitute_reference (spelling, renamedSpelling old new spelling) startClean
          rowsClean sizes (find_spellings spells), renamed]
        simp [BodyPart.join, BodyPart.respell, BodyPart.text]
      · rw [not_exists] at ends
        refine ⟨_, cut.plain clean piecesClean.1 fun spelling spells suffix =>
          ends spelling ⟨spells, suffix⟩, ?_⟩
        rw [substitute_plain piecesClean.1 rowsClean fun row member suffix =>
          ends row.1 ⟨spells_of_mem member, suffix⟩, renamed]
        simp [BodyPart.join, BodyPart.respell, BodyPart.text]

/-- The new name in the spelling that the old one has. -/
def sameSpelling (old new spelling : Text) : Text :=
  if spelling = old then new else ModuleName.flatten new

/-- A name is its own flattened one exactly if it has no hyphen. -/
theorem flatten_eq_self_iff {module : Text} :
    ModuleName.flatten module = module ↔ '-' ∉ module := by
  constructor
  · intro same
    rw [← same]
    exact Text.not_mem_replaceChar (by decide) module
  · exact Text.replaceChar_of_not_mem

/-- Parts are the same after spellings that agree on what is spelled. -/
theorem respell_congr {module body : Text} {parts : List BodyPart} (cut : Cut module body parts)
    {first second : Text → Text}
    (agree : ∀ spelling, ModuleName.HasSpelling module spelling →
      first spelling = second spelling) :
    parts.map (BodyPart.respell first) = parts.map (BodyPart.respell second) := by
  apply List.map_congr_left
  intro part member
  cases part with
  | plain text => rfl
  | reference spelling => rw [BodyPart.respell, BodyPart.respell, agree _ (cut.spelled _ member)]

end Renaming

/-- The references in a body are renamed and nothing else. If the old name has a hyphen or the new
one has none, each reference keeps its spelling. If the old name has no hyphen, all references get
the flattened new name. The body is cut at its slashes, from the front; which row of the table
applies to a piece is told by the piece alone. -/
theorem renameInBody_references {old : Text} (clean : '/' ∉ old) (new body : Text) :
    ∃ parts, Cut old body parts ∧
      ('-' ∈ old ∨ '-' ∉ new → renameInBody old new body =
        BodyPart.join (parts.map (BodyPart.respell (sameSpelling old new)))) ∧
      ('-' ∉ old → renameInBody old new body =
        BodyPart.join (parts.map (BodyPart.respell fun _ => ModuleName.flatten new))) := by
  obtain ⟨parts, cut, renamed⟩ := exists_cut clean new (Text.split_ne_nil '/' body)
    fun piece member => Text.not_mem_of_mem_split member
  rw [Text.join_split] at cut renamed
  refine ⟨parts, cut, fun hyphens => ?_, fun single => ?_⟩
  · rw [renamed, respell_congr cut]
    intro spelling spells
    rw [renamedSpelling, sameSpelling]
    obtain double | plain := hyphens
    · have apart : old ≠ ModuleName.flatten old := fun same =>
        flatten_eq_self_iff.mp same.symm double
      obtain rfl | rfl := spells
      · rw [if_neg apart, if_pos rfl]
      · rw [if_pos rfl, if_neg apart.symm]
    · rw [flatten_eq_self_iff.mpr plain, ite_self, ite_self]
  · rw [renamed, respell_congr cut]
    intro spelling spells
    rw [renamedSpelling, if_pos]
    obtain rfl | rfl := spells
    · exact (flatten_eq_self_iff.mpr single).symm
    · rfl

/-- A reference to a module with one spelling gets the flattened new name, though it was written
with the plain one. -/
theorem renameInBody_single_spelling :
    renameInBody "a".toList "b-c".toList "(a/f)".toList = "(b_c/f)".toList ∧
      sameSpelling "a".toList "b-c".toList "a".toList = "b-c".toList := by
  decide

/-- A body with a flattened reference, one behind the end of another name and a name without a
slash. Each reference keeps its spelling. -/
theorem renameInBody_references_both_spellings :
    ∃ parts, Cut "l-b.c".toList "(l_b.c/h) (xl-b.c/l-b.c/y l-b.c)".toList parts ∧
      renameInBody "l-b.c".toList "n-m".toList "(l_b.c/h) (xl-b.c/l-b.c/y l-b.c)".toList =
        BodyPart.join (parts.map (BodyPart.respell (sameSpelling "l-b.c".toList "n-m".toList))) ∧
      renameInBody "l-b.c".toList "n-m".toList "(l_b.c/h) (xl-b.c/l-b.c/y l-b.c)".toList =
        "(n_m/h) (xn-m/n-m/y l-b.c)".toList := by
  obtain ⟨parts, cut, kept, -⟩ := @renameInBody_references "l-b.c".toList (by decide) "n-m".toList
    "(l_b.c/h) (xl-b.c/l-b.c/y l-b.c)".toList
  exact ⟨parts, cut, kept (.inl (by decide)), by decide⟩

end Relocate
