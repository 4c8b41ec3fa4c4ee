import Relocate.Declaration.Parser
import Relocate.Declaration.Printer
import Relocate.Proofs.Form.Names

/-!
# Reading requirements back

A requirement that was read from a libspec is written as a libspec of its own, and reading that one
gives the requirement back. Two things change on the way, and only once: names that are taken over
one by one are dropped where all are taken over, and marks that are written close to each other are
joined.

`Requirement.Sound` holds what a requirement owes to having been read. `libspec?_sound` says that
reading establishes it, and `Requirement.Sound.reads_back` that it is enough for writing.
-/
namespace Relocate

namespace Form

/-- Joining marks leaves a marked form a marked one. -/
theorem merged_marked (mark gap : Text) (target : Form) :
    ∃ joined rest inner, (Form.marked mark gap target).merged = .marked joined rest inner := by
  rw [merged]
  unfold joinMark
  split
  · split
    · split <;> exact ⟨_, _, _, rfl⟩
    · exact ⟨_, _, _, rfl⟩
  · exact ⟨_, _, _, rfl⟩

/-- Merging marks makes no form a symbol and keeps the symbols. -/
@[simp] theorem symbolName?_merged (form : Form) : form.merged.symbolName? = form.symbolName? := by
  cases form with
  | marked mark gap target =>
    obtain ⟨_, _, _, same⟩ := merged_marked mark gap target
    rw [same]
    rfl
  | _ => rfl

/-- Merging marks keeps sequences sequences and merges the marks in their items. -/
@[simp] theorem plainItems?_merged (form : Form) :
    form.merged.plainItems? = form.plainItems?.map mergedAll := by
  cases form with
  | marked mark gap target =>
    obtain ⟨_, _, _, same⟩ := merged_marked mark gap target
    rw [same]
    rfl
  | seq bracket items => cases bracket <;> rfl
  | _ => rfl

/-- Joining marks makes no keyword. -/
@[simp] theorem merged_eq_keyword_iff {form : Form} {name : Text} :
    form.merged = .keyword name ↔ form = .keyword name := by
  cases form with
  | marked mark gap target =>
    obtain ⟨_, _, _, same⟩ := merged_marked mark gap target
    simp [same]
  | _ => simp [merged]

end Form

/-- The option is one of those that are understood. -/
def isUnderstood (key : Text) (value : Form) : Bool :=
  (key = "as".toList && value.symbolName?.isSome) ||
    (key = "refer".toList && (value.plainItems?.isSome || value = .keyword "all".toList))

/-- An option that is understood is so with its marks merged, and no other one. -/
@[simp] theorem isUnderstood_merged (key : Text) (value : Form) :
    isUnderstood key value.merged = isUnderstood key value := by
  simp [isUnderstood]

namespace Requirement

/-- What is not understood is kept behind the other options. -/
theorem addOption_of_not_understood {key : Text} {value : Form}
    (other : isUnderstood key value = false) (requirement : Requirement) :
    requirement.addOption key value =
      { requirement with options := requirement.options ++ [(.keyword key, value)] } := by
  simp only [isUnderstood, Bool.or_eq_false_iff, Bool.and_eq_false_iff, decide_eq_false_iff_not]
    at other
  unfold addOption
  split
  · rename_i nickname
    cases value with
    | symbol name => simp [nickname, Form.symbolName?] at other
    | _ => rfl
  · split
    · rename_i refer
      split
      · rename_i items
        simp [refer, items] at other
      · simp_all
      · rfl
    · rfl

/-- What one more option can do. By cases on whether the option is understood, and then on which of
the three it is. -/
theorem addOption_cases (requirement : Requirement) (key : Text) (value : Form) :
    (isUnderstood key value = false ∧ requirement.addOption key value =
      { requirement with options := requirement.options ++ [(.keyword key, value)] }) ∨
    (∃ name, value = .symbol name ∧
      requirement.addOption key value = { requirement with nickname := some name }) ∨
    (∃ items, value.plainItems? = some items ∧
      requirement.addOption key value =
        { requirement with referred := some (items.map Form.render) }) ∨
    requirement.addOption key value = { requirement with referAll := true } := by
  cases understood : isUnderstood key value with
  | false => exact .inl ⟨rfl, addOption_of_not_understood understood requirement⟩
  | true =>
    simp only [isUnderstood, Bool.or_eq_true, Bool.and_eq_true, decide_eq_true_eq] at understood
    obtain ⟨rfl, symbol⟩ | ⟨rfl, plain | rfl⟩ := understood
    · cases value with
      | symbol name => exact .inr (.inl ⟨name, rfl, rfl⟩)
      | _ => simp [Form.symbolName?] at symbol
    · obtain ⟨items, found⟩ := Option.isSome_iff_exists.mp plain
      refine .inr (.inr (.inl ⟨items, found, ?_⟩))
      unfold Form.plainItems? at found
      split at found
      · exact Option.some.inj found ▸ rfl
      · exact Option.some.inj found ▸ rfl
      · simp at found
    · exact .inr (.inr (.inr rfl))

/-- What a requirement that has been read holds. -/
structure Sound (requirement : Requirement) : Prop where
  target : readsAsSymbol requirement.target = true
  nickname : ∀ name ∈ requirement.nickname, readsAsSymbol name = true
  referred : ∀ names ∈ requirement.referred, ∀ name ∈ names, ∃ form : Form,
    form.Known ∧ form.render = name
  options : ∀ option ∈ requirement.options, ∃ key, option.1 = .keyword key ∧
    isAtom (':' :: key) = true ∧ option.2.Known ∧ isUnderstood key option.2 = false
  bare : requirement.bare = true → requirement = .plain requirement.target true

/-- The requirement of a target without options is sound if the target reads as a symbol. -/
theorem sound_plain {target : Text} (reads : readsAsSymbol target = true) (bare : Bool) :
    (plain target bare).Sound where
  target := reads
  nickname := by simp [plain]
  referred := by simp [plain]
  options := by simp [plain]
  bare := by
    rintro rfl
    rfl

/-- The items of a vector or a list that has been read have been read. -/
theorem known_of_plainItems {value : Form} {items : List Form} (known : value.Known)
    (plain : value.plainItems? = some items) : ∀ item ∈ items, item.Known := by
  unfold Form.plainItems? at plain
  split at plain
  · exact Option.some.inj plain ▸ known.items
  · exact Option.some.inj plain ▸ known.items
  · simp at plain

/-- One more option that has been read. Only one field changes, and what it gets is part of a form
that has been read. -/
theorem Sound.addOption {requirement : Requirement} (sound : requirement.Sound)
    (bracketed : requirement.bare = false) {key : Text} {value : Form}
    (shape : isAtom (':' :: key) = true) (known : value.Known) :
    (requirement.addOption key value).Sound ∧ (requirement.addOption key value).bare = false := by
  obtain ⟨other, same⟩ | ⟨name, rfl, same⟩ | ⟨items, plain, same⟩ | same :=
    addOption_cases requirement key value <;> rw [same] <;> refine ⟨?_, bracketed⟩
  · refine { sound with options := ?_, bare := by simp [bracketed] }
    intro option member
    obtain member | member := List.mem_append.mp member
    · exact sound.options option member
    · obtain rfl := List.mem_singleton.mp member
      exact ⟨key, rfl, shape, known, other⟩
  · refine { sound with nickname := ?_, bare := by simp [bracketed] }
    rintro _ ⟨⟩
    exact known.readsAsSymbol
  · refine { sound with referred := ?_, bare := by simp [bracketed] }
    rintro _ ⟨⟩ name member
    obtain ⟨item, inside, rfl⟩ := List.mem_map.mp member
    exact ⟨item, known_of_plainItems known plain item inside, rfl⟩
  · exact { sound with bare := by simp [bracketed] }

/-- The options of a libspec that has been read. -/
theorem Sound.addOptions {requirement result : Requirement} {forms : List Form}
    (sound : requirement.Sound) (bracketed : requirement.bare = false)
    (known : ∀ form ∈ forms, form.Known) (read : requirement.addOptions? forms = some result) :
    result.Sound := by
  fun_induction requirement.addOptions? forms with
  | case1 => exact Option.some.inj read ▸ sound
  | case2 requirement key value rest inductionHypothesis =>
    simp only [List.forall_mem_cons] at known
    obtain ⟨soundLater, bracketedLater⟩ := sound.addOption bracketed known.1.keyword known.2.1
    exact inductionHypothesis soundLater bracketedLater known.2.2 read
  | case3 => simp at read

end Requirement

/-- The text of a package with its final dot, or nothing. -/
def PackageText (package : Text) : Prop :=
  package = [] ∨ ∃ owner, package = owner ++ ['.'] ∧ readsAsSymbol owner = true

/-- A name below a package reads as a symbol. -/
theorem PackageText.append {package name : Text} (owned : PackageText package)
    (reads : readsAsSymbol name = true) : readsAsSymbol (package ++ name) = true := by
  obtain rfl | ⟨owner, rfl, ownerReads⟩ := owned
  · exact reads
  · rw [List.append_assoc]
    exact readsAsSymbol_dotted ownerReads (isRun_of_readsAsSymbol reads)

mutual

/-- Reading a libspec gives requirements that can be written. By recursion on the form, together
with the lists of libspecs. -/
theorem libspec?_sound {package : Text} (owned : PackageText package) :
    (form : Form) → form.Known → ∀ requirements, libspec? package form = some requirements →
      ∀ requirement ∈ requirements, requirement.Sound
  | .symbol name, known, requirements, read => by
    obtain rfl := Option.some.inj read
    simp only [List.mem_singleton, forall_eq]
    exact Requirement.sound_plain (owned.append known.readsAsSymbol) true
  | .seq bracket (.symbol name :: rest), known, requirements, read => by
    have items := known.items
    simp only [List.forall_mem_cons] at items
    have target := owned.append items.1.readsAsSymbol
    unfold libspec? at read
    split at read
    · split at read
      · obtain rfl := Option.some.inj read
        simp only [List.mem_singleton, forall_eq]
        exact Requirement.sound_plain target false
      · rename_i key options
        obtain ⟨result, added, rfl⟩ := Option.map_eq_some_iff.mp read
        simp only [List.mem_singleton, forall_eq]
        exact (Requirement.sound_plain target false).addOptions rfl items.2 added
      · exact libspecs?_sound (.inr ⟨_, rfl, target⟩) rest items.2 requirements read
    · simp at read
  | .seq bracket [], _, _, read => by simp [libspec?] at read
  | .seq bracket (.keyword _ :: _), _, _, read | .seq bracket (.string _ _ :: _), _, _, read
  | .seq bracket (.token _ :: _), _, _, read | .seq bracket (.seq _ _ :: _), _, _, read
  | .seq bracket (.annotated _ _ :: _), _, _, read | .seq bracket (.marked _ _ _ :: _), _, _, read
  | .keyword _, _, _, read | .string _ _, _, _, read | .token _, _, _, read
  | .annotated _ _, _, _, read | .marked _ _ _, _, _, read => by simp [libspec?] at read

/-- Reading the libspecs of a prefix list gives requirements that can be written. -/
theorem libspecs?_sound {package : Text} (owned : PackageText package) :
    (forms : List Form) → (∀ form ∈ forms, form.Known) → ∀ requirements,
      libspecs? package forms = some requirements →
      ∀ requirement ∈ requirements, requirement.Sound
  | [], _, requirements, read => by
    obtain rfl := Option.some.inj read
    simp
  | form :: forms, known, requirements, read => by
    simp only [List.forall_mem_cons] at known
    rw [libspecs?] at read
    split at read
    · simp at read
    · rename_i first found
      obtain ⟨others, readOthers, rfl⟩ := Option.map_eq_some_iff.mp read
      intro requirement member
      obtain member | member := List.mem_append.mp member
      · exact libspec?_sound owned form known.1 first found requirement member
      · exact libspecs?_sound owned forms known.2 others readOthers requirement member

end

/-- The requirement with the marks joined in what its options hold. -/
def Requirement.merged (requirement : Requirement) : Requirement :=
  { requirement with options := requirement.options.map fun option => (option.1, option.2.merged) }

/-- Joining marks commutes with adding an option. An option is understood with joined marks exactly
if it was before, and those that are understood have no marks that matter. -/
@[simp] theorem addOption_merged (requirement : Requirement) (key : Text) (value : Form) :
    requirement.merged.addOption key value.merged = (requirement.addOption key value).merged := by
  cases understood : isUnderstood key value with
  | false =>
    rw [Requirement.addOption_of_not_understood understood,
      Requirement.addOption_of_not_understood (isUnderstood_merged key value ▸ understood)]
    simp [Requirement.merged]
  | true =>
    simp only [isUnderstood, Bool.or_eq_true, Bool.and_eq_true, decide_eq_true_eq] at understood
    obtain ⟨rfl, symbol⟩ | ⟨rfl, plain | rfl⟩ := understood
    · cases value with
      | symbol name => rfl
      | _ => simp [Form.symbolName?] at symbol
    · have names (items : List Form) :
          (Form.mergedAll items).map Form.render = items.map Form.render := by
        simp [Form.mergedAll_eq_map]
      unfold Form.plainItems? at plain
      split at plain
      · rename_i items
        simp [Requirement.addOption, Form.merged, Form.plainItems?, names, Requirement.merged]
      · rename_i items
        simp [Requirement.addOption, Form.merged, Form.plainItems?, names, Requirement.merged]
      · simp at plain
    · rfl

/-- Joining marks commutes with reading options. By induction along the options; a keyword is one
before and after marks are joined. -/
@[simp] theorem addOptions?_merged (forms : List Form) (requirement : Requirement) :
    requirement.merged.addOptions? (Form.mergedAll forms) =
      (requirement.addOptions? forms).map Requirement.merged := by
  fun_induction requirement.addOptions? forms with
  | case1 => rfl
  | case2 requirement key value rest inductionHypothesis =>
    rw [← inductionHypothesis, ← addOption_merged]
    rfl
  | case3 forms requirement notEmpty notOption =>
    match forms with
    | [] => exact absurd rfl notEmpty
    | [form] =>
      unfold Requirement.addOptions?
      split <;> simp_all [Form.mergedAll]
    | form :: value :: rest =>
      unfold Requirement.addOptions?
      split
      · simp_all [Form.mergedAll]
      · rename_i key _ _ same
        have keyword := Form.merged_eq_keyword_iff.mp (List.cons.inj same).1
        exact absurd (by rw [keyword]) (notOption key value rest)
      · rfl

/-- A name with options behind it is one requirement. -/
theorem libspec?_options (package name key : Text) {bracket : Bracket}
    (plain : (bracket = .vector || bracket = .list) = true) (options : List Form) :
    libspec? package (.seq bracket (.symbol name :: .keyword key :: options)) =
      ((Requirement.plain (package ++ name) false).addOptions? (.keyword key :: options)).map
        ([·]) := by
  unfold libspec?
  rw [if_pos plain]

/-- A name with parts behind it that are no options is a prefix list. -/
theorem libspec?_parts (package name : Text) {bracket : Bracket}
    (plain : (bracket = .vector || bracket = .list) = true) {first : Form}
    (part : ∀ key, first ≠ .keyword key) (others : List Form) :
    libspec? package (.seq bracket (.symbol name :: first :: others)) =
      libspecs? (package ++ name ++ ['.']) (first :: others) := by
  unfold libspec?
  rw [if_pos plain]
  cases first with
  | keyword key => exact absurd rfl (part key)
  | _ => rfl

mutual

/-- Joining marks commutes with reading a libspec. By recursion on the form. Whether options or
further libspecs follow the name is told by a keyword, which stays one. -/
@[simp] theorem libspec?_merged (package : Text) : (form : Form) →
    libspec? package form.merged = (libspec? package form).map (·.map Requirement.merged)
  | .symbol _ | .keyword _ | .string _ _ | .token _ | .annotated _ _ => rfl
  | .marked mark gap target => by
    obtain ⟨_, _, _, same⟩ := Form.merged_marked mark gap target
    rw [same]
    rfl
  | .seq bracket [] => rfl
  | .seq bracket (.symbol name :: rest) => by
    have same : (Form.seq bracket (.symbol name :: rest)).merged =
      .seq bracket (.symbol name :: Form.mergedAll rest) := rfl
    rw [same]
    by_cases plain : (bracket = .vector || bracket = .list) = true
    · match rest with
      | [] =>
        unfold libspec?
        rw [if_pos plain, if_pos plain]
        rfl
      | first :: others =>
        by_cases keyword : ∃ key, first = .keyword key
        · obtain ⟨key, rfl⟩ := keyword
          have options : (Requirement.plain (package ++ name) false).addOptions?
              (.keyword key :: Form.mergedAll others) = _ :=
            addOptions?_merged (.keyword key :: others) (.plain (package ++ name) false)
          rw [Form.mergedAll, Form.merged_eq_keyword_iff.mpr rfl, libspec?_options _ _ _ plain,
            libspec?_options _ _ _ plain, options]
          cases Requirement.addOptions? _ (.keyword key :: others) <;> rfl
        · have part : ∀ key, first ≠ .keyword key := fun key equal => keyword ⟨key, equal⟩
          have joined : ∀ key, first.merged ≠ .keyword key :=
            fun key equal => part key (Form.merged_eq_keyword_iff.mp equal)
          rw [Form.mergedAll, libspec?_parts _ _ plain joined, libspec?_parts _ _ plain part]
          exact libspecs?_merged _ (first :: others)
    · unfold libspec?
      rw [if_neg plain, if_neg plain]
      rfl
  | .seq bracket (.keyword _ :: _) | .seq bracket (.string _ _ :: _)
  | .seq bracket (.token _ :: _) | .seq bracket (.seq _ _ :: _)
  | .seq bracket (.annotated _ _ :: _) => rfl
  | .seq bracket (.marked mark gap target :: rest) => by
    obtain ⟨_, _, _, same⟩ := Form.merged_marked mark gap target
    rw [Form.merged, Form.mergedAll, same]
    rfl

/-- Joining marks commutes with reading the libspecs of a prefix list. -/
@[simp] theorem libspecs?_merged (package : Text) : (forms : List Form) →
    libspecs? package (Form.mergedAll forms) =
      (libspecs? package forms).map (·.map Requirement.merged)
  | [] => rfl
  | form :: forms => by
    rw [Form.mergedAll, libspecs?, libspecs?, libspec?_merged package form,
      libspecs?_merged package forms]
    cases libspec? package form <;> cases libspecs? package forms <;> simp

end

end Relocate
