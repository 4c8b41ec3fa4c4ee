import Relocate.Proofs.Declaration.Sections
import Relocate.Proofs.Declaration.SourceText

/-!
# Reading declarations back

A declaration that was read from a text is written so that it is read back. `Declaration.Sound`
holds what a declaration owes to having been read, and `Declaration.Sound.spelled` says that it is
enough: the written text spells one form, and the items of that form give `Declaration.readBack`.

Where the form of the declaration is render-stable and every imported class has a package, what is
read back is the declaration itself, settled: names that are taken over one by one are dropped where
all are taken over, and imported classes are grouped by package.
-/
namespace Relocate

/-- A form behind metadata. -/
def Form.annotate (notes : List Form) (form : Form) : Form := notes.foldr .annotated form

/-- Metadata in front of a form is stripped with the metadata that it has. -/
@[simp] theorem Form.stripNotes_annotate (notes : List Form) (form : Form) :
    (Form.annotate notes form).stripNotes = (form.stripNotes.1, notes ++ form.stripNotes.2) := by
  induction notes with
  | nil => rfl
  | cons note notes inductionHypothesis =>
    rw [annotate] at inductionHypothesis ⊢
    simp [stripNotes, inductionHypothesis]

/-- The metadata that a name was given is taken off it again. -/
theorem Form.stripNotes_annotate_symbol (notes : List Form) (name : Text) :
    (Form.annotate notes (.symbol name)).stripNotes = (.symbol name, notes) := by
  simp [stripNotes]

/-- A name behind metadata is written with each note behind a caret. By induction on the notes, each
of which is ended by the space behind it. -/
theorem spells_annotate {notes : List Form} (known : ∀ note ∈ notes, note.Known) {name : Text}
    (reads : readsAsSymbol name = true) :
    Spells (notes.flatMap (fun note => '^' :: note.render ++ [' ']) ++ name)
      (Form.annotate (notes.map Form.merged) (.symbol name)) := by
  induction notes with
  | nil => exact spells_symbol reads
  | cons note notes inductionHypothesis =>
    simp only [List.forall_mem_cons] at known
    intro rest delimited
    have blank : Layout [' '] := .space ' ' [] (by decide) .empty
    have target := inductionHypothesis known.2 rest delimited
    rw [List.flatMap_cons, List.append_assoc]
    generalize notes.flatMap (fun note => '^' :: note.render ++ [' ']) ++ name = text at target ⊢
    have noted := known.1.spells _ (blank.delimited (by simp) (text ++ rest))
    simpa [Form.annotate] using Spelling.annotated _ _ [] _ [' '] _ rest .empty noted blank target

/-- Behind the first section every item is a section. -/
theorem foldl_addItem_sections (items : List Form) (declaration : Declaration)
    (started : declaration.sections ≠ []) :
    items.foldl Declaration.addItem declaration =
      { declaration with sections := declaration.sections ++ items.map Section.ofForm } := by
  induction items generalizing declaration with
  | nil => simp
  | cons item items inductionHypothesis =>
    have added : declaration.addItem item =
        { declaration with sections := declaration.sections ++ [Section.ofForm item] } := by
      simp [Declaration.addItem, started]
    rw [List.foldl_cons, added, inductionHypothesis _ (by simp)]
    simp

/-- The items of a declaration: its preamble up to the first section, then its sections. By
induction on the items: the first that is no preamble starts the sections, and from then on every
item is one. -/
theorem foldl_addItem (items : List Form) (declaration : Declaration)
    (fresh : declaration.sections = []) :
    items.foldl Declaration.addItem declaration =
      { declaration with
        preamble := declaration.preamble ++ items.takeWhile Form.isPreamble
        sections := (items.dropWhile Form.isPreamble).map Section.ofForm } := by
  induction items generalizing declaration with
  | nil => simp [← fresh]
  | cons item items inductionHypothesis =>
    rw [List.foldl_cons]
    cases kind : item.isPreamble with
    | true =>
      have added : declaration.addItem item =
          { declaration with preamble := declaration.preamble ++ [item] } := by
        simp [Declaration.addItem, fresh, kind]
      rw [added, inductionHypothesis _ (by exact fresh), List.takeWhile_cons_of_pos kind,
        List.dropWhile_cons_of_pos kind]
      simp
    | false =>
      have added : declaration.addItem item =
          { declaration with sections := declaration.sections ++ [Section.ofForm item] } := by
        simp [Declaration.addItem, kind]
      have stops : ¬ item.isPreamble = true := by simp [kind]
      rw [added, foldl_addItem_sections _ _ (by simp), List.takeWhile_cons_of_neg stops,
        List.dropWhile_cons_of_neg stops]
      simp [fresh]

namespace Declaration

/-- What the items of a declaration are: a name behind metadata, a preamble and sections. -/
theorem ofItems_ok_iff {items : List Form} {declaration : Declaration} :
    ofItems items = .ok declaration ↔ ∃ name rest module notes, items = name :: rest ∧
      name.stripNotes = (.symbol module, notes) ∧
      declaration = ⟨module, notes, rest.takeWhile Form.isPreamble,
        (rest.dropWhile Form.isPreamble).map Section.ofForm⟩ := by
  constructor
  · intro made
    cases items with
    | nil => simp [ofItems] at made
    | cons name rest =>
      rw [ofItems] at made
      split at made
      · rename_i module notes bare
        rw [foldl_addItem _ _ rfl] at made
        exact ⟨name, rest, module, notes, rfl, bare, (Except.ok.inj made).symm⟩
      · simp at made
  · rintro ⟨name, rest, module, notes, rfl, bare, rfl⟩
    simp [ofItems, bare, foldl_addItem]

/-- What a declaration that has been read holds. -/
structure Sound (declaration : Declaration) : Prop where
  module : readsAsSymbol declaration.module = true
  notes : ∀ note ∈ declaration.notes, note.Known
  preamble : ∀ form ∈ declaration.preamble, form.Known ∧ form.isPreamble = true
  sections : ∀ part ∈ declaration.sections, part.Sound
  first : ∀ part ∈ declaration.sections.head?, part.isPreamble = false

/-- The declaration with the marks joined in what it holds. -/
def merged (declaration : Declaration) : Declaration :=
  { declaration with
    notes := declaration.notes.map Form.merged
    preamble := declaration.preamble.map Form.merged
    sections := declaration.sections.map Section.merged }

/-- The declaration as it comes back when it is written and read. -/
def readBack (declaration : Declaration) : Declaration :=
  { declaration with sections := declaration.sections.map Section.readBack }

/-- Items that have been read make a declaration that can be written, if the imported classes are
dotted. The parts are items, or behind the notes of one, and have been read with it. -/
theorem sound_of_ofItems {items : List Form} {declaration : Declaration}
    (known : ∀ item ∈ items, item.Known) (made : ofItems items = .ok declaration)
    (dotted : ∀ name ∈ declaration.classes, isDotted name = true) : declaration.Sound := by
  obtain ⟨name, rest, module, notes, rfl, bare, rfl⟩ := ofItems_ok_iff.mp made
  simp only [List.forall_mem_cons] at known
  have stripped := known.1.stripNotes
  rw [bare] at stripped
  refine ⟨stripped.1.readsAsSymbol, stripped.2, ?_, ?_, ?_⟩
  · intro form member
    exact ⟨known.2 form (List.takeWhile_subset _ member), List.mem_takeWhile_imp member⟩
  · intro part member
    obtain ⟨form, inside, rfl⟩ := List.mem_map.mp member
    refine Section.sound_of_ofForm (known.2 form (List.dropWhile_subset _ inside)) ?_
    exact fun name held => dotted name (List.mem_flatMap.mpr ⟨_, member, held⟩)
  · intro part head
    rw [List.head?_map, Option.mem_def, Option.map_eq_some_iff] at head
    obtain ⟨form, first, rfl⟩ := head
    have stops := List.head?_dropWhile_not Form.isPreamble rest
    rw [first] at stops
    rw [Section.isPreamble_ofForm]
    exact stops

/-- The text of a declaration: a list of `ns`, the name, the preamble and the sections. -/
theorem render_eq (declaration : Declaration) :
    declaration.render = Bracket.list.opening ++ ("ns".toList ++
      (' ' :: (declaration.notes.flatMap (fun note => '^' :: note.render ++ [' ']) ++
          declaration.module) ++
        (declaration.preamble.map Form.render).flatMap ("\n  ".toList ++ ·) ++
        declaration.sections.flatMap fun part => part.lines.flatMap ('\n' :: ·)) ++
      [Bracket.list.closing]) := by
  rw [render, lines, List.cons_append, Text.join_cons, List.flatMap_append, List.flatMap_map,
    List.flatMap_map, List.flatMap_assoc, firstLine]
  simp [Bracket.opening, Bracket.closing]

/-- A declaration that has been read is written as one form, which is read back. The name, the
preamble and the sections are written as one list of forms. On reading it the preamble ends where it
did, because the first section is still no preamble. -/
theorem Sound.spelled {declaration : Declaration} (sound : declaration.Sound) :
    ∃ items,
      (∀ rest, Spelling (.seq .list (.symbol "ns".toList :: items)) declaration.render rest) ∧
      ofItems items = .ok declaration.merged.readBack := by
  obtain ⟨forms, listed, read, kinds⟩ := Section.reads_back_all sound.sections
  have blank : Layout [' '] := .space ' ' [] (by decide) .empty
  have below : Layout "\n  ".toList := .space '\n' _ (by decide) (Layout.replicate 2 (by decide))
  have name := Listed.single blank (by simp) (spells_annotate sound.notes sound.module)
  have preamble : List.Forall₂ Spells (declaration.preamble.map Form.render)
      (declaration.preamble.map Form.merged) := by
    rw [List.forall₂_map_left_iff, List.forall₂_map_right_iff, List.forall₂_same]
    exact fun form member => (sound.preamble form member).1.spells
  have all := (name.append (.of_all below (by decide) preamble)).append listed
  have stops : forms.takeWhile Form.isPreamble = [] ∧ forms.dropWhile Form.isPreamble = forms := by
    cases forms with
    | nil => exact ⟨rfl, rfl⟩
    | cons form forms =>
      obtain ⟨part, head, kind⟩ := Option.map_eq_some_iff.mp kinds.symm
      have notPreamble : ¬ form.isPreamble = true := by
        rw [← kind, sound.first part head]
        simp
      exact ⟨List.takeWhile_cons_of_neg notPreamble, List.dropWhile_cons_of_neg notPreamble⟩
  have kept : ∀ form ∈ declaration.preamble.map Form.merged, form.isPreamble = true := by
    simp only [List.forall_mem_map, Form.isPreamble_merged]
    exact fun form member => (sound.preamble form member).2
  refine ⟨Form.annotate (declaration.notes.map Form.merged) (.symbol declaration.module) ::
    (declaration.preamble.map Form.merged ++ forms), fun rest => ?_,
    ofItems_ok_iff.mpr ⟨_, _, _, _, rfl, Form.stripNotes_annotate_symbol _ _, ?_⟩⟩
  · rw [render_eq]
    exact all.sequence (spells_symbol (by decide)) rest
  · rw [List.takeWhile_append_of_pos kept, List.dropWhile_append_of_pos kept, stops.1, stops.2,
      List.append_nil, read]
    simp [readBack, merged]

/-- Joining marks commutes with stripping metadata. -/
@[simp] theorem stripNotes_merged : (form : Form) →
    form.merged.stripNotes = (form.stripNotes.1.merged, form.stripNotes.2.map Form.merged)
  | .annotated note target => by
    simp [Form.merged, Form.stripNotes, stripNotes_merged target]
  | .marked mark gap target => by
    obtain ⟨_, _, _, same⟩ := Form.merged_marked mark gap target
    rw [same]
    simp [Form.stripNotes, same]
  | .symbol _ | .keyword _ | .string _ _ | .token _ | .seq _ _ => rfl

/-- Joining marks commutes with making a declaration of its items. -/
theorem ofItems_merged {items : List Form} {declaration : Declaration}
    (made : ofItems items = .ok declaration) :
    ofItems (Form.mergedAll items) = .ok declaration.merged := by
  obtain ⟨name, rest, module, notes, rfl, bare, rfl⟩ := ofItems_ok_iff.mp made
  refine ofItems_ok_iff.mpr ⟨name.merged, rest.map Form.merged, module, notes.map Form.merged,
    by simp [Form.mergedAll_eq_map], ?_, ?_⟩
  · rw [stripNotes_merged, bare]
    rfl
  · simp [merged, List.takeWhile_map, List.dropWhile_map, Function.comp_def]

/-- The declaration as it stays when it is written and read again and again. -/
def settled (declaration : Declaration) : Declaration :=
  { declaration with sections := declaration.sections.map Section.settled }

/-- Where every class has a package, a declaration comes back settled. -/
theorem readBack_eq_settled {declaration : Declaration}
    (owned : ∀ name ∈ declaration.classes, '.' ∈ name) :
    declaration.readBack = declaration.settled := by
  rw [readBack, settled]
  congr 1
  refine List.map_congr_left fun part member => ?_
  refine Section.readBack_eq_settled fun name held => ?_
  exact owned name (List.mem_flatMap.mpr ⟨part, member, held⟩)

/-- Settling does not change what is written. -/
theorem render_settled {declaration : Declaration}
    (owned : ∀ name ∈ declaration.classes, '.' ∈ name) :
    declaration.settled.render = declaration.render := by
  have sections : declaration.settled.sections.flatMap Section.lines =
      declaration.sections.flatMap Section.lines := by
    rw [settled, List.flatMap_map]
    refine List.flatMap_congr fun part member => ?_
    refine Section.lines_settled fun name held => ?_
    exact owned name (List.mem_flatMap.mpr ⟨part, member, held⟩)
  rw [render, render, lines, lines, sections]
  rfl

end Declaration

/-- A declaration that was read from a text can be written, if its tags stand close to what they may
be written to and its classes are dotted. -/
theorem sound_of_sourceFile_parse {text : Text} {file : SourceFile}
    (parsed : SourceFile.parse text = .ok file)
    (tags : ∀ form ∈ declarationForm? text, form.tagsApply = true)
    (dotted : ∀ name ∈ file.declaration.classes, isDotted name = true) :
    file.declaration.Sound := by
  obtain ⟨form, own, items, rfl, passed, spelled, declared, made⟩ := sourceFile_parse_iff.mp parsed
  obtain ⟨head, bare, -⟩ := declarationItems?_eq_some_iff.mp declared
  have applied := tags _ (declarationForm?_eq passed spelled declared)
  obtain ⟨inner, spelledBare⟩ := spelled.stripNotes
  rw [bare] at applied spelledBare
  have ended : (Form.seq .list (.symbol head :: items)).overhang = 0 := rfl
  have known : (Form.seq .list (.symbol head :: items)).Known := ⟨applied, ended, _, _, spelledBare⟩
  refine Declaration.sound_of_ofItems (fun item member => ?_) made dotted
  exact known.items item (List.mem_cons_of_mem _ member)

/-- A written declaration is found behind what is passed over, whatever follows it. -/
theorem sourceFile_parse_written {declaration : Declaration} (sound : declaration.Sound)
    {before body : Text} (passed : Passed before (declaration.render ++ body)) :
    SourceFile.parse (before ++ (declaration.render ++ body)) =
      .ok ⟨before, declaration.merged.readBack, body⟩ := by
  obtain ⟨items, spelled, made⟩ := sound.spelled
  exact sourceFile_parse_iff.mpr
    ⟨_, declaration.render, items, rfl, passed, spelled body, rfl, made⟩

/-- A text with a declaration splits at it. -/
theorem sourceFile_of_parse {text : Text} {declaration : Declaration}
    (parsed : Declaration.parse text = .ok declaration) :
    ∃ file, SourceFile.parse text = .ok file ∧ file.declaration = declaration := by
  cases found : SourceFile.parse text with
  | error failure => simp [Declaration.parse, found, Except.map] at parsed
  | ok file =>
    rw [Declaration.parse, found] at parsed
    exact ⟨file, rfl, Except.ok.inj parsed⟩

/-- A render-stable declaration has no marks to join. -/
theorem merged_of_renderStable {text : Text} {file : SourceFile}
    (parsed : SourceFile.parse text = .ok file)
    (stable : ∀ form ∈ declarationForm? text, form.renderStable = true) :
    file.declaration.merged = file.declaration := by
  obtain ⟨form, own, items, rfl, passed, spelled, declared, made⟩ := sourceFile_parse_iff.mp parsed
  obtain ⟨head, bare, -⟩ := declarationItems?_eq_some_iff.mp declared
  have apart := stable _ (declarationForm?_eq passed spelled declared)
  rw [bare] at apart
  simp only [Form.renderStable, Form.marksApart, Form.marksApartAll, Bool.and_eq_true] at apart
  have again := Declaration.ofItems_merged made
  rw [Form.mergedAll_of_marksApart items apart.1.2, made] at again
  exact (Except.ok.inj again).symm

/-- A render-stable declaration can be written, if its classes are dotted. -/
theorem sound_of_renderStable {text : Text} {file : SourceFile}
    (parsed : SourceFile.parse text = .ok file)
    (stable : ∀ form ∈ declarationForm? text, form.renderStable = true)
    (dotted : ∀ name ∈ file.declaration.classes, isDotted name = true) :
    file.declaration.Sound := by
  refine sound_of_sourceFile_parse parsed (fun form member => ?_) dotted
  have both := stable form member
  simp only [Form.renderStable, Bool.and_eq_true] at both
  exact both.2

/-- Writing a declaration and reading it gives it back settled, and what is settled is written the
same way again. What is read is sound, what is sound is written in a form that is read again, and
reading merges marks and regroups classes; a render-stable declaration has no marks to merge. -/
theorem parse_render_settled {text : Text} {declaration : Declaration}
    (parsed : Declaration.parse text = .ok declaration)
    (stable : ∀ form ∈ declarationForm? text, form.renderStable = true)
    (dotted : ∀ name ∈ declaration.classes, 2 ≤ (Text.split '.' name).length ∧
      ∀ segment ∈ Text.split '.' name, readsAsSymbol segment = true) :
    Declaration.parse declaration.render = .ok declaration.settled ∧
      declaration.settled.render = declaration.render := by
  have owned : ∀ name ∈ declaration.classes, '.' ∈ name := by
    intro name member
    apply Decidable.byContradiction
    intro absent
    have parts := (dotted name member).1
    rw [Text.split_of_not_mem absent] at parts
    simp at parts
  refine ⟨?_, Declaration.render_settled owned⟩
  obtain ⟨file, found, rfl⟩ := sourceFile_of_parse parsed
  have tags : ∀ form ∈ declarationForm? text, form.tagsApply = true := by
    intro form member
    have both := stable form member
    simp only [Form.renderStable, Bool.and_eq_true] at both
    exact both.2
  have sound := sound_of_sourceFile_parse found tags fun name member =>
    List.all_eq_true.mpr (dotted name member).2
  have read := sourceFile_parse_written sound (.layout [] (file.declaration.render ++ []) .empty)
  rw [merged_of_renderStable found stable, Declaration.readBack_eq_settled owned, List.nil_append,
    List.append_nil] at read
  rw [Declaration.parse, read]
  rfl

/-- Names that are listed beside taking over all are dropped, and the classes of one package come
together. -/
theorem parse_render_settled_grouped :
    ∃ declaration, Declaration.parse
        "(ns a (:require [b :refer [c] :refer :all]) (:import x.P y.Q x.R))".toList =
          .ok declaration ∧
      declaration.settled ≠ declaration ∧
      Declaration.parse declaration.render = .ok declaration.settled ∧
      declaration.settled.render = declaration.render :=
  ⟨⟨"a".toList, [], [], [
      .references "require".toList
        [.requirement ⟨"b".toList, none, some ["c".toList], true, [], false⟩],
      .imports ["x.P".toList, "y.Q".toList, "x.R".toList] []]⟩,
    by decide +kernel, by decide +kernel,
    @parse_render_settled
      "(ns a (:require [b :refer [c] :refer :all]) (:import x.P y.Q x.R))".toList _
      (by decide +kernel) (by decide +kernel) (by decide +kernel)⟩

end Relocate
