import Mathlib.Data.List.Forall2
import Relocate.Proofs.Form.Rendering

/-!
# Writing forms from parts

A writer puts texts of forms behind each other, with layout between them. `Spells` says that a text
is read as a given form wherever a delimiter follows, `Listed` that a text holds given items, each
behind some layout. Both are about the text alone, so that a writer is treated part by part and the
reader is opened only where a sequence is closed.

The names that may be written on their own are those that read as a symbol.
-/
namespace Relocate

/-- The text is read as the form wherever the text ends or a delimiter follows. -/
def Spells (text : Text) (form : Form) : Prop :=
  ∀ rest, Delimited rest → Spelling form text rest

/-- The form has been read, and each of its tags stands close to what it may be written to. -/
structure Form.Known (form : Form) : Prop where
  tags : form.tagsApply = true
  closed : form.overhang = 0
  spelled : ∃ own rest, Spelling form own rest

/-- What has been read is written so that it reads back, with marks joined. -/
theorem Form.Known.spells {form : Form} (known : form.Known) : Spells form.render form.merged := by
  obtain ⟨own, rest, spelled⟩ := known.spelled
  exact fun _ delimited => spelled.render known.closed known.tags delimited

/-- What stands in front of something else has been read up to its end. -/
theorem Form.Known.of_spelling {form : Form} {own rest : Text} (spelled : Spelling form own rest)
    (more : rest ≠ []) (tags : form.tagsApply = true) : form.Known :=
  ⟨tags, spelled.overhang more, own, rest, spelled⟩

/-- All items in front of something have been read. -/
theorem Items.known {items : List Form} {body rest : Text} (inside : Items items body rest)
    (more : rest ≠ []) (tags : Form.tagsApplyAll items = true) : ∀ item ∈ items, item.Known := by
  induction items generalizing body with
  | nil => simp
  | cons form forms inductionHypothesis =>
    simp only [Form.tagsApplyAll, Bool.and_eq_true] at tags
    cases inside with
    | some _ _ lead own body _ layout spelled others =>
      have later : body ++ rest ≠ [] := by simp [more]
      simp only [List.forall_mem_cons]
      exact ⟨.of_spelling spelled later tags.1, inductionHypothesis others tags.2⟩

/-- The items of a sequence that has been read have been read. -/
theorem Form.Known.items {bracket : Bracket} {items : List Form}
    (known : (Form.seq bracket items).Known) : ∀ item ∈ items, item.Known := by
  obtain ⟨own, rest, spelled⟩ := known.spelled
  obtain ⟨body, -, inside⟩ := spelled.seq_inv
  exact inside.known (by simp) known.tags

/-- The metadata in front of a form that has been read, and the form itself, have been read. -/
theorem Form.Known.parts {note target : Form} (known : (Form.annotated note target).Known) :
    note.Known ∧ target.Known := by
  obtain ⟨own, rest, spelled⟩ := known.spelled
  obtain ⟨lead, first, gap, second, -, -, noted, -, spelledTarget⟩ := spelled.annotated_inv
  have tags := known.tags
  simp only [Form.tagsApply, Bool.and_eq_true] at tags
  have later : gap ++ (second ++ rest) ≠ [] := by
    obtain ⟨c, run, rfl, -⟩ := spelledTarget.starts
    simp
  exact ⟨.of_spelling noted later tags.1, tags.2, known.closed, second, rest, spelledTarget⟩

/-- The metadata stripped from a form that has been read, and what is left, have been read. -/
theorem Form.Known.stripNotes : {form : Form} → form.Known →
    form.stripNotes.1.Known ∧ ∀ note ∈ form.stripNotes.2, note.Known
  | .annotated note target, known => by
    obtain ⟨bare, notes⟩ := known.parts.2.stripNotes
    simp only [Form.stripNotes, List.forall_mem_cons]
    exact ⟨bare, known.parts.1, notes⟩
  | .symbol _, known | .keyword _, known | .string _ _, known | .token _, known
  | .seq _ _, known | .marked _ _ _, known => ⟨known, by simp [Form.stripNotes]⟩

/-- An atom is read as what it stands for. -/
theorem spells_atom {atom : Text} (shape : isAtom atom = true) : Spells atom (.ofAtom atom) :=
  fun rest delimited => .leaf _ _ _ (.atom atom rest shape delimited)

/-- The text is read as the symbol of that name. -/
def readsAsSymbol (name : Text) : Bool :=
  match readForm (Cursor.ofText name 0) with
  | .ok (form, _) => form = .symbol name
  | .error _ => false

/-- An atom that stands for a symbol stands for the one of its own name. -/
theorem eq_of_ofAtom_symbol {atom name : Text} (same : Form.ofAtom atom = .symbol name) :
    atom = name := by
  unfold Form.ofAtom at same
  split at same
  · simp at same
  · split at same
    · simp at same
    · exact Form.symbol.inj same

/-- Only an atom is spelled as a symbol. -/
theorem Spelling.symbol_inv {name own rest : Text} (spelled : Spelling (.symbol name) own rest) :
    own = name ∧ isAtom name = true ∧ Form.ofAtom name = .symbol name := by
  have written := spelled.leaf_inv rfl
  generalize same : Lexeme.leaf (.symbol name) = lexeme at written
  cases written with
  | atom _ _ shape =>
    have atom : Form.ofAtom own = .symbol name := (Lexeme.leaf.inj same).symm
    obtain rfl := eq_of_ofAtom_symbol atom
    exact ⟨rfl, shape, atom⟩
  | _ => simp at same

/-- A name reads as a symbol exactly if it is an atom that stands for the symbol. Reading finds a
spelling of the symbol, and an atom is the only one there is. -/
theorem readsAsSymbol_iff {name : Text} :
    readsAsSymbol name = true ↔ isAtom name = true ∧ Form.ofAtom name = .symbol name := by
  have start : Cursor.ofText name 0 = ⟨0, 0, name⟩ := rfl
  rw [readsAsSymbol, start]
  constructor
  · intro reads
    split at reads
    · rename_i form after read
      obtain rfl : form = .symbol name := by simpa using reads
      obtain ⟨lead, own, rest, -, -, spelled, -⟩ := readForm_ok_iff.mp read
      exact spelled.symbol_inv.2
    · simp at reads
  · rintro ⟨shape, atom⟩
    have spelled := spells_atom shape [] delimited_nil
    have read : readForm ⟨0, 0, name⟩ = .ok (.ofAtom name, _) :=
      readForm_ok_iff.mpr ⟨[], name, [], (List.append_nil name).symm, .empty, spelled, rfl⟩
    rw [read, atom]
    simp

/-- A name that reads as a symbol is written as it is. -/
theorem spells_symbol {name : Text} (reads : readsAsSymbol name = true) :
    Spells name (.symbol name) := by
  obtain ⟨shape, atom⟩ := readsAsSymbol_iff.mp reads
  exact atom ▸ spells_atom shape

/-- The name of a symbol that has been read reads as a symbol. -/
theorem Form.Known.readsAsSymbol {name : Text} (known : (Form.symbol name).Known) :
    readsAsSymbol name = true := by
  obtain ⟨own, rest, spelled⟩ := known.spelled
  exact readsAsSymbol_iff.mpr spelled.symbol_inv.2

/-- A keyword that has been read is an atom. -/
theorem Form.Known.keyword {name : Text} (known : (Form.keyword name).Known) :
    isAtom (':' :: name) = true := by
  obtain ⟨own, rest, spelled⟩ := known.spelled
  have written := spelled.leaf_inv rfl
  generalize same : Lexeme.leaf (.keyword name) = lexeme at written
  cases written with
  | atom _ _ shape =>
    have atom : Form.ofAtom own = .keyword name := (Lexeme.leaf.inj same).symm
    unfold Form.ofAtom at atom
    split at atom
    · exact Form.keyword.inj atom ▸ shape
    · split at atom <;> simp at atom
  | _ => simp at same

/-- Items, each behind some layout, and their text. -/
inductive Listed : List Form → Text → Prop where
  | nil : Listed [] []
  | cons (form : Form) (forms : List Form) (lead own more : Text) (layout : Layout lead)
      (apart : lead ≠ []) (spells : Spells own form) (others : Listed forms more) :
      Listed (form :: forms) (lead ++ (own ++ more))

/-- Layout ends what stands in front of it. -/
theorem Layout.delimited {lead : Text} (layout : Layout lead) (apart : lead ≠ []) (rest : Text) :
    Delimited (lead ++ rest) := by
  cases layout with
  | empty => exact absurd rfl apart
  | space c more blank => simp [isTerminator, blank]
  | comment body more => simp [isTerminator]

/-- Listed items do not continue what stands in front of them. -/
theorem Listed.delimited {forms : List Form} {text rest : Text} (listed : Listed forms text)
    (delimited : Delimited rest) : Delimited (text ++ rest) := by
  cases listed with
  | nil => exact delimited
  | cons form forms lead own more layout apart =>
    rw [List.append_assoc]
    exact layout.delimited apart _

/-- Listed items are items of a sequence. -/
theorem Listed.items {forms : List Form} {text rest : Text} (listed : Listed forms text)
    (delimited : Delimited rest) : Items forms text rest := by
  induction listed with
  | nil => exact .none [] rest .empty
  | cons form forms lead own more layout _ spells others inductionHypothesis =>
    exact .some form forms lead own more rest layout (spells _ (others.delimited delimited))
      inductionHypothesis

/-- Two lists of items behind each other. -/
theorem Listed.append {forms others : List Form} {text more : Text} (first : Listed forms text)
    (second : Listed others more) : Listed (forms ++ others) (text ++ more) := by
  induction first with
  | nil => exact second
  | cons form forms lead own text layout apart spells _ inductionHypothesis =>
    simpa using Listed.cons form _ lead own _ layout apart spells inductionHypothesis

/-- One item behind layout. -/
theorem Listed.single {form : Form} {lead own : Text} (layout : Layout lead) (apart : lead ≠ [])
    (spells : Spells own form) : Listed [form] (lead ++ own) := by
  simpa using Listed.cons form [] lead own [] layout apart spells .nil

/-- Texts that each spell a form, all behind the same layout. -/
theorem Listed.of_all {texts : List Text} {forms : List Form} {lead : Text} (layout : Layout lead)
    (apart : lead ≠ []) (spells : List.Forall₂ Spells texts forms) :
    Listed forms (texts.flatMap (lead ++ ·)) := by
  induction spells with
  | nil => exact .nil
  | cons first _ inductionHypothesis =>
    rw [List.flatMap_cons, List.append_assoc]
    exact .cons _ _ lead _ _ layout apart first inductionHypothesis

/-- A form for each item that has one. -/
theorem exists_forms {α : Type} {items : List α} {fits : α → Form → Prop} (text : α → Text)
    (each : ∀ item ∈ items, ∃ form, Spells (text item) form ∧ fits item form) :
    ∃ forms, List.Forall₂ Spells (items.map text) forms ∧ List.Forall₂ fits items forms := by
  induction items with
  | nil => exact ⟨[], .nil, .nil⟩
  | cons item items inductionHypothesis =>
    simp only [List.forall_mem_cons] at each
    obtain ⟨⟨form, spells, fitting⟩, others⟩ := each
    obtain ⟨forms, spellsOthers, fittingOthers⟩ := inductionHypothesis others
    exact ⟨form :: forms, .cons spells spellsOthers, .cons fitting fittingOthers⟩

/-- Items and forms that agree one by one. -/
theorem map_eq_map_of_forall₂ {α β : Type} {items : List α} {forms : List Form} {first : α → β}
    {second : Form → β}
    (agree : List.Forall₂ (fun item form => first item = second form) items forms) :
    items.map first = forms.map second := by
  rw [← List.forall₂_eq_eq_eq, List.forall₂_map_left_iff, List.forall₂_map_right_iff]
  exact agree

/-- A first item and listed ones between brackets spell a sequence, whatever follows. -/
theorem Listed.sequence {bracket : Bracket} {head : Form} {forms : List Form} {own text : Text}
    (listed : Listed forms text) (spells : Spells own head) (rest : Text) :
    Spelling (.seq bracket (head :: forms))
      (bracket.opening ++ (own ++ text ++ [bracket.closing])) rest := by
  have closes : Delimited (bracket.closing :: rest) :=
    delimited_cons.mpr (isTerminator_closing bracket)
  refine .seq bracket (head :: forms) (own ++ text) rest ?_
  exact .some head forms [] own text _ .empty (spells _ (listed.delimited closes))
    (listed.items closes)

end Relocate
