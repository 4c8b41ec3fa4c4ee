import Relocate.Proofs.Declaration.Libspecs

/-!
# Writing requirements

The words of a written requirement are read as its target and its options, one option after the
other. `OptionsRead` says what a run of words does to the requirement that is being read; runs
behind each other do one thing after the other.
-/
namespace Relocate

/-- Words in a vector are read as its items. -/
theorem spells_bracketed {words : List Text} {forms : List Form}
    (spells : List.Forall₂ Spells words forms) : Spells (bracketed words) (.seq .vector forms) := by
  have blank : Layout [' '] := .space ' ' [] (by decide) .empty
  intro rest _
  cases spells with
  | nil => exact .seq .vector [] [] rest (.none [] _ .empty)
  | cons first others =>
    rw [bracketed, Text.join_cons]
    exact (Listed.of_all blank (by simp) others).sequence first rest

namespace Requirement

/-- The requirement as it stays when it is written and read: where all names are taken over, none is
listed. -/
def settled (requirement : Requirement) : Requirement :=
  { requirement with referred := if requirement.referAll then none else requirement.referred }

/-- The words are read as options, which change the requirement in the given way. -/
def OptionsRead (words : List Text) (effect : Requirement → Requirement) : Prop :=
  ∃ forms, List.Forall₂ Spells words forms ∧
    (∀ form ∈ forms.head?, ∃ key, form = .keyword key) ∧
    ∀ (requirement : Requirement) (more : List Form),
      requirement.addOptions? (forms ++ more) = (effect requirement).addOptions? more

/-- No options change nothing. -/
theorem optionsRead_nil : OptionsRead [] id :=
  ⟨[], .nil, by simp, fun _ _ => rfl⟩

/-- One option with its value. -/
theorem optionsRead_pair (key : Text) {word : Text} {value : Form}
    (shape : isAtom (':' :: key) = true) (spells : Spells word value) :
    OptionsRead [':' :: key, word] fun requirement => requirement.addOption key value := by
  have keyword : Spells (':' :: key) (.keyword key) := spells_atom shape
  exact ⟨[.keyword key, value], .cons keyword (.cons spells .nil), by simp, fun _ _ => rfl⟩

/-- Options behind options. -/
theorem OptionsRead.append {words others : List Text} {first second : Requirement → Requirement}
    (read : OptionsRead words first) (later : OptionsRead others second) :
    OptionsRead (words ++ others) fun requirement => second (first requirement) := by
  obtain ⟨forms, spells, keyword, added⟩ := read
  obtain ⟨more, spellsMore, keywordMore, addedMore⟩ := later
  refine ⟨forms ++ more, List.rel_append spells spellsMore, ?_, fun requirement rest => ?_⟩
  · cases forms with
    | nil => simpa using keywordMore
    | cons form forms => simpa using keyword
  · rw [List.append_assoc, added, addedMore]

/-- The short name is read back. -/
theorem Sound.read_nickname {requirement : Requirement} (sound : requirement.Sound) :
    OptionsRead requirement.nicknameWords fun other =>
      { other with nickname := requirement.nickname.or other.nickname } := by
  rw [nicknameWords]
  cases nickname : requirement.nickname with
  | none => exact optionsRead_nil
  | some name =>
    have reads := sound.nickname name (by simp [nickname])
    exact optionsRead_pair "as".toList (by decide) (spells_symbol reads)

/-- Names that are written in brackets are read back. -/
theorem spells_names {names : List Text}
    (known : ∀ name ∈ names, ∃ form : Form, form.Known ∧ form.render = name) :
    ∃ items, Spells (bracketed names) (.seq .vector items) ∧ items.map Form.render = names := by
  have each : ∀ name ∈ names, ∃ form, Spells (id name) form ∧ id name = form.render := by
    intro name member
    obtain ⟨form, read, rfl⟩ := known name member
    exact ⟨form.merged, read.spells, form.render_merged.symm⟩
  obtain ⟨forms, spells, rendered⟩ := exists_forms id each
  rw [List.map_id] at spells
  have same := map_eq_map_of_forall₂ rendered
  rw [List.map_id] at same
  exact ⟨forms, spells_bracketed spells, same.symm⟩

/-- The names taken over are read back, unless all are. -/
theorem Sound.read_referred {requirement : Requirement} (sound : requirement.Sound) :
    OptionsRead requirement.referredWords fun other =>
      { other with
        referAll := requirement.referAll || other.referAll
        referred := requirement.settled.referred.or other.referred } := by
  rw [referredWords, settled]
  cases requirement.referAll with
  | true =>
    have all : Spells ":all".toList (.keyword "all".toList) := spells_atom (by decide)
    exact optionsRead_pair "refer".toList (by decide) all
  | false =>
    cases referred : requirement.referred with
    | none => exact optionsRead_nil
    | some names =>
      obtain ⟨items, spells, rfl⟩ := spells_names (sound.referred names (by simp [referred]))
      exact optionsRead_pair "refer".toList (by decide) spells

/-- Options that are not understood are read back, with marks joined. By induction on the options.
-/
theorem read_options {options : List (Form × Form)}
    (known : ∀ option ∈ options, ∃ key, option.1 = .keyword key ∧ isAtom (':' :: key) = true ∧
      option.2.Known ∧ isUnderstood key option.2 = false) :
    OptionsRead (options.flatMap fun option => [option.1.render, option.2.render]) fun other =>
      { other with
        options := other.options ++ options.map fun option => (option.1, option.2.merged) } := by
  induction options with
  | nil =>
    simp only [List.map_nil, List.append_nil]
    exact optionsRead_nil
  | cons option options inductionHypothesis =>
    simp only [List.forall_mem_cons] at known
    obtain ⟨⟨key, same, shape, value, other⟩, later⟩ := known
    have first := optionsRead_pair key shape value.spells
    have both := first.append (inductionHypothesis later)
    simp only [addOption_of_not_understood (isUnderstood_merged key option.2 ▸ other)] at both
    simpa [same, Form.render] using both

/-- All options of a requirement are read back. -/
theorem Sound.read_optionWords {requirement : Requirement} (sound : requirement.Sound) :
    OptionsRead requirement.optionWords fun other =>
      { other with
        nickname := requirement.nickname.or other.nickname
        referAll := requirement.referAll || other.referAll
        referred := requirement.settled.referred.or other.referred
        options := other.options ++ requirement.merged.options } :=
  (sound.read_nickname.append sound.read_referred).append (read_options sound.options)

/-- A requirement that has been read is written so that it is read back. A bare requirement is its
target. Any other is a vector, in which options follow the target, so that it is no prefix list. -/
theorem Sound.reads_back {requirement : Requirement} (sound : requirement.Sound) :
    ∃ form, Spells requirement.render form ∧
      libspec? [] form = some [requirement.merged.settled] := by
  obtain ⟨forms, spells, keyword, added⟩ := sound.read_optionWords
  have target := spells_symbol sound.target
  cases bare : requirement.bare with
  | true =>
    have plain := sound.bare bare
    refine ⟨.symbol requirement.target, ?_, ?_⟩
    · rw [plain]
      exact target
    · rw [plain]
      rfl
  | false =>
    refine ⟨.seq .vector (.symbol requirement.target :: forms), ?_, ?_⟩
    · rw [render, bare, Bool.false_and, if_neg Bool.false_ne_true]
      exact spells_bracketed (.cons target spells)
    · have all := added (.plain requirement.target false) []
      simp only [List.append_nil] at all
      have result : libspec? [] (.seq .vector (.symbol requirement.target :: forms)) =
          ((Requirement.plain requirement.target false).addOptions? forms).map ([·]) := by
        cases forms with
        | nil => rfl
        | cons form forms =>
          obtain ⟨key, rfl⟩ := keyword form rfl
          exact libspec?_options [] _ key rfl forms
      rw [result, all]
      simp [addOptions?, plain, merged, settled, bare]

/-- Settling does not change what is written. -/
@[simp] theorem render_settled (requirement : Requirement) :
    requirement.settled.render = requirement.render := by
  have referred : requirement.settled.referredWords = requirement.referredWords := by
    rw [referredWords, referredWords, settled]
    cases requirement.referAll <;> rfl
  have options : requirement.settled.optionWords = requirement.optionWords := by
    rw [optionWords, optionWords, referred]
    rfl
  rw [render, render, options]
  rfl

end Requirement

end Relocate
