import Relocate.Proofs.Declaration.Imports

/-!
# Reading sections back

A section is written on lines of its own: its keyword and first entry on one, the other entries
below the first. `sectionLines_spelled` reads such lines as one list, whatever the entries are. Each
kind of section then comes back by what is known of its entries.
-/
namespace Relocate

/-- The lines of a section, each behind a line end. -/
theorem closeLast_lines (line : Text) (lines : List Text) :
    (closeLast (line :: lines)).flatMap ('\n' :: ·) =
      '\n' :: line ++ lines.flatMap ('\n' :: ·) ++ [')'] := by
  induction lines generalizing line with
  | nil => simp [closeLast]
  | cons next lines inductionHypothesis => simp [closeLast, inductionHypothesis]

/-- The lines of a section spell a list headed by its keyword. The first entry stands behind the
keyword and the others below it, so that there is layout in front of each. -/
theorem sectionLines_spelled {keyword : Text} {entries : List Text} {forms : List Form}
    (shape : isAtom (':' :: keyword) = true) (spells : List.Forall₂ Spells entries forms) :
    ∃ own, (sectionLines keyword entries).flatMap ('\n' :: ·) = "\n  ".toList ++ own ∧
      ∀ rest, Spelling (.seq .list (.keyword keyword :: forms)) own rest := by
  have head : Spells (':' :: keyword) (.keyword keyword) := spells_atom shape
  have listed : ∃ text, Listed forms text ∧
      (sectionLines keyword entries).flatMap ('\n' :: ·) =
        "\n  ".toList ++ ('(' :: (':' :: keyword ++ text ++ [')'])) := by
    cases spells with
    | nil => exact ⟨[], .nil, by simp [sectionLines, closeLast_lines]⟩
    | @cons entry form entries forms first others =>
      have blank : Layout [' '] := .space ' ' [] (by decide) .empty
      have below : Layout ('\n' :: List.replicate (("  (:".toList ++ keyword).length + 1) ' ') :=
        .space '\n' _ (by decide) (Layout.replicate _ (by decide))
      refine ⟨_, .cons form forms [' '] entry _ blank (by simp) first
        (Listed.of_all below (by simp) others), ?_⟩
      simp only [sectionLines, closeLast_lines, List.flatMap_map]
      simp
  obtain ⟨text, listed, same⟩ := listed
  exact ⟨_, same, fun rest => listed.sequence head rest⟩

/-- What an entry of a reference section that has been read holds. -/
def Entry.Sound : Entry → Prop
  | .requirement required => required.Sound
  | .verbatim form => form.Known ∧ libspec? [] form = none

/-- The entry with the marks joined in what it holds. -/
def Entry.merged : Entry → Entry
  | .requirement required => .requirement required.merged
  | .verbatim form => .verbatim form.merged

/-- The entry as it stays when it is written and read. -/
def Entry.settled : Entry → Entry
  | .requirement required => .requirement required.settled
  | .verbatim form => .verbatim form

/-- Joining marks commutes with reading an entry. -/
@[simp] theorem Entry.ofForm_merged (form : Form) :
    Entry.ofForm form.merged = (Entry.ofForm form).map Entry.merged := by
  rw [Entry.ofForm, Entry.ofForm, libspec?_merged]
  cases libspec? [] form with
  | none => rfl
  | some requirements => simp [Entry.merged]

/-- Entries that have been read. -/
theorem Entry.sound_of_ofForm {form : Form} (known : form.Known) :
    ∀ entry ∈ Entry.ofForm form, entry.Sound := by
  rw [Entry.ofForm]
  split
  · rename_i requirements read
    intro entry member
    obtain ⟨required, inside, rfl⟩ := List.mem_map.mp member
    exact libspec?_sound (.inl rfl) form known requirements read required inside
  · rename_i missing
    simp only [List.mem_singleton, forall_eq]
    exact ⟨known, missing⟩

/-- An entry that has been read is read back. -/
theorem Entry.Sound.reads_back {entry : Entry} (sound : entry.Sound) :
    ∃ form, Spells entry.render form ∧ Entry.ofForm form = [entry.merged.settled] := by
  cases entry with
  | requirement required =>
    obtain ⟨form, spells, read⟩ := Requirement.Sound.reads_back sound
    exact ⟨form, spells, by simp [Entry.ofForm, read, Entry.merged, Entry.settled]⟩
  | verbatim form =>
    obtain ⟨known, other⟩ := sound
    refine ⟨form.merged, known.spells, ?_⟩
    rw [Entry.ofForm_merged, Entry.ofForm, other]
    rfl

namespace Section

/-- What a section that has been read holds. -/
def Sound : Section → Prop
  | .references keyword entries =>
    referenceKeywords.contains keyword = true ∧ ∀ entry ∈ entries, entry.Sound
  | .imports classes extras =>
    (∀ name ∈ classes, isDotted name = true) ∧
      ∀ extra ∈ extras, extra.Known ∧ importedClasses? extra = none
  | .verbatim form => form.Known ∧ Section.ofForm form = .verbatim form

/-- The section with the marks joined in what it holds. -/
def merged : Section → Section
  | .references keyword entries => .references keyword (entries.map Entry.merged)
  | .imports classes extras => .imports classes (extras.map Form.merged)
  | .verbatim form => .verbatim form.merged

/-- The section as it comes back when it is written and read. -/
def readBack : Section → Section
  | .references keyword entries => .references keyword (entries.map Entry.settled)
  | .imports classes extras => .imports (gathered classes) extras
  | .verbatim form => .verbatim form

/-- The section as it stays when it is written and read again and again, with imported classes
grouped by package. -/
def settled : Section → Section
  | .references keyword entries => .references keyword (entries.map Entry.settled)
  | .imports classes extras => .imports (byPackage classes) extras
  | .verbatim form => .verbatim form

/-- A section that would belong to the preamble if no other stood before it. -/
def isPreamble : Section → Bool
  | .verbatim form => form.isPreamble
  | _ => false

end Section

/-- Whether a form stands in front of the sections does not depend on its marks. -/
@[simp] theorem Form.isPreamble_merged (form : Form) :
    form.merged.isPreamble = form.isPreamble := by
  cases form with
  | marked mark gap target =>
    obtain ⟨_, _, _, same⟩ := merged_marked mark gap target
    rw [same]
    rfl
  | seq bracket items => cases bracket <;> rfl
  | _ => rfl

/-- The keyword that heads a section. -/
def Form.sectionKeyword? : Form → Option Text
  | .seq .list (.keyword name :: _) => some name
  | _ => none

/-- Merging marks keeps the keyword that a section starts with. -/
@[simp] theorem Form.sectionKeyword?_merged (form : Form) :
    form.merged.sectionKeyword? = form.sectionKeyword? := by
  cases form with
  | marked mark gap target =>
    obtain ⟨_, _, _, same⟩ := merged_marked mark gap target
    rw [same]
    rfl
  | seq bracket items =>
    cases bracket with
    | list =>
      cases items with
      | nil => rfl
      | cons item items =>
        cases item with
        | marked mark gap target =>
          obtain ⟨_, _, _, same⟩ := merged_marked mark gap target
          rw [merged, mergedAll, same]
          rfl
        | _ => rfl
    | _ => rfl
  | _ => rfl

namespace Section

/-- What a form can be as a section. -/
theorem ofForm_cases (form : Form) :
    (∃ keyword items, form = .seq .list (.keyword keyword :: items) ∧
      referenceKeywords.contains keyword = true ∧
      Section.ofForm form = .references keyword (items.flatMap Entry.ofForm)) ∨
    (∃ items, form = .seq .list (.keyword "import".toList :: items) ∧
      Section.ofForm form = .ofImports items) ∨
    ((∀ keyword ∈ form.sectionKeyword?, referenceKeywords.contains keyword = false ∧
      keyword ≠ "import".toList) ∧ Section.ofForm form = .verbatim form) := by
  unfold Section.ofForm
  split
  · rename_i keyword items
    split
    · rename_i reference
      exact .inl ⟨keyword, items, rfl, reference, rfl⟩
    · rename_i notReference
      split
      · rename_i imports
        exact .inr (.inl ⟨items, by rw [imports], rfl⟩)
      · rename_i notImport
        refine .inr (.inr ⟨?_, rfl⟩)
        rintro _ ⟨⟩
        exact ⟨by simpa using notReference, notImport⟩
  · rename_i other
    refine .inr (.inr ⟨?_, rfl⟩)
    intro keyword head
    unfold Form.sectionKeyword? at head
    split at head
    · rename_i keyword items
      exact absurd rfl (other keyword items)
    · simp at head

/-- A section would belong to the preamble exactly if its form would. -/
theorem isPreamble_ofForm (form : Form) : (Section.ofForm form).isPreamble = form.isPreamble := by
  obtain ⟨keyword, items, rfl, _, same⟩ | ⟨items, rfl, same⟩ | ⟨_, same⟩ := ofForm_cases form <;>
    rw [same] <;> rfl

/-- Joining marks commutes with reading the items of an import section. -/
@[simp] theorem ofImports_merged (items : List Form) :
    Section.ofImports (Form.mergedAll items) = (Section.ofImports items).merged := by
  rw [Form.mergedAll_eq_map]
  simp only [Section.ofImports, merged, List.filterMap_map, List.filter_map, Function.comp_def,
    importedClasses?_merged]

/-- Joining marks commutes with reading a section. By cases on what the form is as a section, which
is told by its keyword. -/
@[simp] theorem ofForm_merged (form : Form) :
    Section.ofForm form.merged = (Section.ofForm form).merged := by
  obtain ⟨keyword, items, rfl, reference, same⟩ | ⟨items, rfl, same⟩ | ⟨plain, same⟩ :=
    ofForm_cases form
  · have joined : (Form.seq .list (.keyword keyword :: items)).merged =
        .seq .list (.keyword keyword :: items.map Form.merged) := by
      rw [Form.merged, Form.mergedAll, Form.mergedAll_eq_map, Form.merged_eq_keyword_iff.mpr rfl]
    rw [same, joined, Section.ofForm, if_pos reference, merged, List.flatMap_map, List.map_flatMap]
    simp only [Entry.ofForm_merged]
  · rw [same, ← ofImports_merged]
    rfl
  · rw [← form.sectionKeyword?_merged] at plain
    rw [same]
    obtain ⟨keyword, items, shape, reference, _⟩ | ⟨items, shape, _⟩ | ⟨_, kept⟩ :=
      ofForm_cases form.merged
    · have head := plain keyword (by rw [shape]; rfl)
      rw [head.1] at reference
      simp at reference
    · exact absurd rfl (plain _ (by rw [shape]; rfl)).2
    · exact kept

/-- A section that has been read from a form whose classes, if it has any, are dotted. By cases on
what the form is as a section. -/
theorem sound_of_ofForm {form : Form} (known : form.Known)
    (dotted : ∀ name ∈ (Section.ofForm form).classes, isDotted name = true) :
    (Section.ofForm form).Sound := by
  have partsKnown {bracket : Bracket} {first : Form} {items : List Form}
      (shape : form = .seq bracket (first :: items)) : ∀ item ∈ items, item.Known := by
    subst shape
    exact fun item member => known.items item (List.mem_cons_of_mem _ member)
  obtain ⟨keyword, items, shape, reference, same⟩ | ⟨items, shape, same⟩ | ⟨_, same⟩ :=
    ofForm_cases form
  · rw [same]
    refine ⟨reference, fun entry member => ?_⟩
    obtain ⟨item, inside, held⟩ := List.mem_flatMap.mp member
    exact Entry.sound_of_ofForm (partsKnown shape item inside) entry held
  · rw [same] at dotted ⊢
    refine ⟨dotted, fun extra member => ?_⟩
    obtain ⟨inside, other⟩ := List.mem_filter.mp member
    exact ⟨partsKnown shape extra inside, Option.isNone_iff_eq_none.mp other⟩
  · rw [same]
    exact ⟨known, same⟩

/-- A section that has been read is read back. By cases on the section: its lines are spelled by the
forms of its entries, and these are read back one by one. -/
theorem Sound.reads_back {part : Section} (sound : part.Sound) :
    ∃ own form, part.lines.flatMap ('\n' :: ·) = "\n  ".toList ++ own ∧ Spells own form ∧
      Section.ofForm form = part.merged.readBack ∧ form.isPreamble = part.isPreamble := by
  cases part with
  | references keyword entries =>
    obtain ⟨reference, sound⟩ := sound
    have shape : isAtom (':' :: keyword) = true := by
      have known : keyword ∈ referenceKeywords := by simpa using reference
      simp only [referenceKeywords, List.mem_cons, List.not_mem_nil, or_false] at known
      obtain rfl | rfl | rfl | rfl := known <;> decide
    obtain ⟨forms, spells, read⟩ := exists_forms Entry.render fun entry member =>
      (sound entry member).reads_back
    obtain ⟨own, same, spelled⟩ := sectionLines_spelled shape spells
    refine ⟨own, _, same, fun rest _ => spelled rest, ?_, rfl⟩
    have entriesRead : forms.flatMap Entry.ofForm =
        (entries.map Entry.merged).map Entry.settled := by
      clear sound spells same spelled
      induction read with
      | nil => rfl
      | cons first _ inductionHypothesis => simp [first, inductionHypothesis]
    rw [Section.ofForm, if_pos reference, entriesRead]
    rfl
  | imports classes extras =>
    obtain ⟨dotted, others⟩ := sound
    obtain ⟨forms, spells, read⟩ := exists_forms (importLine classes) fun head member =>
      reads_back_importLine dotted (isDotted_of_mem_importHeads dotted [] head member)
    have spellsExtras : List.Forall₂ Spells (extras.map Form.render) (extras.map Form.merged) := by
      rw [List.forall₂_map_left_iff, List.forall₂_map_right_iff, List.forall₂_same]
      exact fun extra member => (others extra member).1.spells
    have stay : ∀ extra ∈ extras.map Form.merged, importedClasses? extra = none := by
      simp only [List.forall_mem_map, importedClasses?_merged]
      exact fun extra member => (others extra member).2
    have shape : isAtom (':' :: "import".toList) = true := by decide
    obtain ⟨own, same, spelled⟩ := sectionLines_spelled shape (List.rel_append spells spellsExtras)
    exact ⟨own, _, same, fun rest _ => spelled rest, ofImports_lines read stay, rfl⟩
  | verbatim form =>
    obtain ⟨known, kept⟩ := sound
    refine ⟨form.render, form.merged, by simp [lines], known.spells, ?_,
      form.isPreamble_merged⟩
    rw [ofForm_merged, kept]
    rfl

/-- Sections that have been read are read back one after the other. By induction on the sections. -/
theorem reads_back_all {sections : List Section} (sound : ∀ part ∈ sections, part.Sound) :
    ∃ forms, Listed forms (sections.flatMap fun part => part.lines.flatMap ('\n' :: ·)) ∧
      forms.map Section.ofForm = sections.map (fun part => part.merged.readBack) ∧
      forms.head?.map Form.isPreamble = sections.head?.map isPreamble := by
  induction sections with
  | nil => exact ⟨[], .nil, rfl, rfl⟩
  | cons part sections inductionHypothesis =>
    simp only [List.forall_mem_cons] at sound
    obtain ⟨own, form, written, spells, read, kind⟩ := sound.1.reads_back
    obtain ⟨forms, listed, readOthers, -⟩ := inductionHypothesis sound.2
    have below : Layout "\n  ".toList :=
      .space '\n' _ (by decide) (Layout.replicate 2 (by decide))
    refine ⟨form :: forms, ?_, by simp [read, readOthers], by simp [kind]⟩
    rw [List.flatMap_cons, written, List.append_assoc]
    exact .cons form forms _ own _ below (by decide) spells listed

/-- Where every class has a package, a section comes back settled. -/
theorem readBack_eq_settled {part : Section} (owned : ∀ name ∈ part.classes, '.' ∈ name) :
    part.readBack = part.settled := by
  cases part with
  | references keyword entries => rfl
  | imports names extras =>
    rw [classes] at owned
    rw [readBack, settled, gathered_eq_byPackage owned]
  | verbatim form => rfl

/-- Settling does not change what is written. -/
theorem lines_settled {part : Section} (owned : ∀ name ∈ part.classes, '.' ∈ name) :
    part.settled.lines = part.lines := by
  cases part with
  | references keyword entries =>
    have entry (entry : Entry) : entry.settled.render = entry.render := by
      cases entry with
      | requirement required => exact required.render_settled
      | verbatim form => rfl
    simp [settled, lines, Function.comp_def, entry]
  | imports names extras =>
    rw [classes] at owned
    rw [settled, lines, lines, importEntries_byPackage owned]
  | verbatim form => rfl

end Section

end Relocate
