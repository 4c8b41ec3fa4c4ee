import Mathlib.Data.List.Count
import Mathlib.Data.List.Perm.Basic
import Relocate.Proofs.Declaration.Codec

/-!
# Which imported classes come back

Imported classes are written by what the lines are about: each package once, and each class without
package as often as it is imported. A line is looked up by name alone, so a class without package
that has the name of a package stands for the classes of the package once more, and is itself lost.

`count_gathered_owned` and `count_gathered_plain` say how often each class comes back. All come back
as often as before exactly where no class has the name of a package, `gathered_perm_iff`.
-/
namespace Relocate

/-- No class without package has the name of a package from which a class is imported. -/
def PackagesApart (classes : List Text) : Prop :=
  ∀ name ∈ classes, '.' ∉ name → ∀ simple, '.' ∉ simple → name ++ '.' :: simple ∉ classes

/-- A class without package has lines of its own, and a package that is not written yet has one. By
induction on the classes, with the packages that have been written so far. -/
theorem count_importHeads (head : Text) (met classes : List Text) :
    (importHeads met classes).count head = (if '.' ∈ head then 0 else classes.count head) +
      (if head ∉ met ∧ classesOf head classes ≠ [] then 1 else 0) := by
  induction classes generalizing met with
  | nil => simp [importHeads, classesOf]
  | cons name classes inductionHypothesis =>
    rw [importHeads]
    cases cut : Text.splitLast? '.' name with
    | none =>
      have absent := Text.splitLast?_eq_none_iff.mp cut
      have others : classesOf head (name :: classes) = classesOf head classes := by
        simp [classesOf, cut]
      simp only [others, List.count_cons, inductionHypothesis]
      by_cases same : name = head
      · subst same
        simp only [absent, if_false, beq_self_eq_true, if_true]
        omega
      · simp [same]
    | some parts =>
      obtain ⟨package, simple⟩ := parts
      obtain ⟨rfl, clean⟩ := Text.splitLast?_eq_some_iff.mp cut
      have unmet : (if '.' ∈ head then 0 else
          ((package ++ '.' :: simple) :: classes).count head) =
          if '.' ∈ head then 0 else classes.count head := by
        split
        · rfl
        · rename_i absent
          refine List.count_cons_of_ne fun same => absent ?_
          simp [← same]
      rw [unmet]
      by_cases owner : package = head
      · subst owner
        have nonempty : classesOf package ((package ++ '.' :: simple) :: classes) ≠ [] := by
          simp [classesOf, cut]
        by_cases seen : package ∈ met
        · simp [seen, inductionHypothesis]
        · simp [seen, nonempty, inductionHypothesis]
      · have others : classesOf head ((package ++ '.' :: simple) :: classes) =
            classesOf head classes := by
          simp [classesOf, cut, owner]
        by_cases seen : package ∈ met
        · simp [seen, others, inductionHypothesis]
        · simp [seen, others, inductionHypothesis, owner, Ne.symm owner]

/-- A simple name belongs to a package as often as the class is imported. A class is cut at its last
dot, so that package and simple name together tell which class it is. -/
theorem count_classesOf {simple : Text} (clean : '.' ∉ simple) (package : Text)
    (classes : List Text) :
    (classesOf package classes).count simple = classes.count (package ++ '.' :: simple) := by
  rw [classesOf, List.count_filterMap, List.count]
  refine List.countP_congr fun name _ => ?_
  cases cut : Text.splitLast? '.' name with
  | none =>
    have absent := Text.splitLast?_eq_none_iff.mp cut
    have other : name ≠ package ++ '.' :: simple := by
      rintro rfl
      simp at absent
    simp [other]
  | some parts =>
    obtain ⟨owner, last⟩ := parts
    have spelled : name = package ++ '.' :: simple ↔ owner = package ∧ last = simple := by
      constructor
      · rintro rfl
        rw [Text.splitLast?_append package clean] at cut
        simpa [eq_comm] using cut
      · rintro ⟨rfl, rfl⟩
        exact (Text.splitLast?_eq_some_iff.mp cut).1
    by_cases same : owner = package <;> simp [same, spelled]

/-- Where one head alone gives a text, the text comes back as often as this head is met. -/
theorem count_flatMap_of_head {heads : List Text} {group : Text → List Text} {head text : Text}
    {times : Nat}
    (given : ∀ other ∈ heads, (group other).count text = if other = head then times else 0) :
    (heads.flatMap group).count text = heads.count head * times := by
  induction heads with
  | nil => simp
  | cons first heads inductionHypothesis =>
    simp only [List.forall_mem_cons] at given
    rw [List.flatMap_cons, List.count_append, given.1, inductionHypothesis given.2, List.count_cons]
    by_cases same : first = head
    · simp only [same, if_true, beq_self_eq_true]
      rw [Nat.add_one_mul, Nat.add_comm]
    · simp [same]

/-- A line about a package gives its classes, and any other line what it is about. -/
theorem importGroup_eq (classes : List Text) (head : Text) :
    importGroup classes head = if classesOf head classes = [] then [head]
      else (classesOf head classes).map (head ++ '.' :: ·) := by
  rw [importGroup]
  split
  · rename_i missing
    rw [if_pos missing]
  · rename_i nonempty
    rw [if_neg nonempty]

/-- A class without package comes back as often as before, unless its name is that of a package.
Only the lines about its own name could give it, and if there is a package of this name they give
the classes of the package instead. -/
theorem count_gathered_plain {name : Text} (plain : '.' ∉ name) (classes : List Text) :
    (gathered classes).count name =
      if classesOf name classes = [] then classes.count name else 0 := by
  have given : ∀ head ∈ importHeads [] classes, (importGroup classes head).count name =
      if head = name then (if classesOf name classes = [] then 1 else 0) else 0 := by
    intro head _
    have absent : name ∉ (classesOf head classes).map (head ++ '.' :: ·) := by
      intro member
      obtain ⟨simple, -, rfl⟩ := List.mem_map.mp member
      simp at plain
    rw [importGroup_eq]
    by_cases empty : classesOf head classes = []
    · by_cases same : head = name
      · subst same
        simp [empty]
      · simp [empty, same]
    · rw [if_neg empty, List.count_eq_zero_of_not_mem absent]
      by_cases same : head = name
      · subst same
        simp [empty]
      · simp [same]
  rw [gathered, count_flatMap_of_head given, count_importHeads, if_neg plain]
  by_cases empty : classesOf name classes = [] <;> simp [empty]

/-- A class with a package comes back once more for every class that has the name of the package.
Each line about the package gives the class as often as it is imported, and every class with the
name of the package has a line of its own. -/
theorem count_gathered_owned {simple : Text} (clean : '.' ∉ simple) (package : Text)
    (classes : List Text) :
    (gathered classes).count (package ++ '.' :: simple) =
      ((if '.' ∈ package then 0 else classes.count package) + 1) *
        classes.count (package ++ '.' :: simple) := by
  have given : ∀ head ∈ importHeads [] classes,
      (importGroup classes head).count (package ++ '.' :: simple) =
        if head = package then (classesOf package classes).count simple else 0 := by
    intro head member
    rw [importGroup_eq]
    by_cases empty : classesOf head classes = []
    · -- such a line is about a class without package
      have plain : '.' ∉ head := by
        intro dot
        have met := count_importHeads head [] classes
        rw [if_pos dot, if_neg (by simp [empty])] at met
        exact List.count_eq_zero.mp met member
      have other : head ≠ package ++ '.' :: simple := by
        rintro rfl
        simp at plain
      by_cases same : head = package
      · subst same
        simp [empty]
      · simp [empty, same, other]
    · rw [if_neg empty]
      by_cases same : head = package
      · subst same
        have injective : Function.Injective (head ++ '.' :: ·) := by
          intro first second agree
          simpa using agree
        rw [if_pos rfl]
        exact List.count_map_of_injective _ _ injective _
      · rw [if_neg same, List.count_eq_zero]
        intro inside
        obtain ⟨last, one, agree⟩ := List.mem_map.mp inside
        obtain ⟨name, -, cut⟩ := mem_classesOf.mp one
        have apart := Text.splitLast?_append head (Text.splitLast?_eq_some_iff.mp cut).2
        rw [agree, Text.splitLast?_append package clean] at apart
        exact same (Prod.mk.inj (Option.some.inj apart)).1.symm
  rw [gathered, count_flatMap_of_head given, count_importHeads, count_classesOf clean]
  by_cases absent : classes.count (package ++ '.' :: simple) = 0
  · rw [absent, Nat.mul_zero, Nat.mul_zero]
  · have nonempty : classesOf package classes ≠ [] := by
      intro missing
      rw [← count_classesOf clean, missing] at absent
      simp at absent
    simp [nonempty]

/-- Classes are apart from packages where no package is asked for by the name of a class. -/
theorem packagesApart_iff {classes : List Text} :
    PackagesApart classes ↔ ∀ name ∈ classes, '.' ∉ name → classesOf name classes = [] := by
  refine forall_congr' fun name => imp_congr_right fun _ => imp_congr_right fun _ => ?_
  rw [List.eq_nil_iff_forall_not_mem]
  constructor
  · intro apart simple inside
    obtain ⟨owned, member, cut⟩ := mem_classesOf.mp inside
    obtain ⟨rfl, clean⟩ := Text.splitLast?_eq_some_iff.mp cut
    exact apart simple clean member
  · intro missing simple clean member
    exact missing simple (mem_classesOf.mpr ⟨_, member, Text.splitLast?_append name clean⟩)

instance (classes : List Text) : Decidable (PackagesApart classes) :=
  decidable_of_iff _ packagesApart_iff.symm

/-- All imported classes come back as often as before exactly where no class has the name of a
package. Both counts are compared: a class that shares the name of a package is lost, and otherwise
each class is counted once. -/
theorem gathered_perm_iff {classes : List Text} :
    (gathered classes).Perm classes ↔ PackagesApart classes := by
  rw [List.perm_iff_count, packagesApart_iff]
  constructor
  · intro kept name member plain
    apply Decidable.byContradiction
    intro nonempty
    have lost := kept name
    rw [count_gathered_plain plain, if_neg nonempty] at lost
    exact List.count_eq_zero.mp lost.symm member
  · intro apart name
    cases cut : Text.splitLast? '.' name with
    | none =>
      have plain := Text.splitLast?_eq_none_iff.mp cut
      rw [count_gathered_plain plain]
      split
      · rfl
      · rename_i proper
        exact (List.count_eq_zero.mpr fun named => proper (apart name named plain)).symm
    | some parts =>
      obtain ⟨package, simple⟩ := parts
      obtain ⟨rfl, clean⟩ := Text.splitLast?_eq_some_iff.mp cut
      rw [count_gathered_owned clean]
      by_cases repeated : '.' ∉ package ∧ package ∈ classes
      · have counted := count_classesOf clean package classes
        rw [apart package repeated.2 repeated.1, List.count_nil] at counted
        rw [← counted, Nat.mul_zero]
      · have once : (if '.' ∈ package then 0 else classes.count package) = 0 := by
          split
          · rfl
          · rename_i plain
            exact List.count_eq_zero.mpr fun named => repeated ⟨plain, named⟩
        rw [once, Nat.zero_add, Nat.one_mul]

/-- Writing a declaration and reading it gives every import section back with its classes as often
as before, exactly where none of its classes has the name of one of its packages. Reading back
gathers the classes by package. A class without package is counted with the package of its name, and
that is where classes are lost or doubled. -/
theorem parse_render_perm_iff {text : Text} {declaration : Declaration}
    (parsed : Declaration.parse text = .ok declaration)
    (stable : ∀ form ∈ declarationForm? text, form.renderStable = true)
    (dotted : ∀ name ∈ declaration.classes,
      ∀ segment ∈ Text.split '.' name, readsAsSymbol segment = true) :
    ∃ again, Declaration.parse declaration.render = .ok again ∧
      List.Forall₂ (fun before after => ∀ classes extras, before = .imports classes extras →
        ∃ others, after = .imports others extras ∧
          (others.Perm classes ↔ PackagesApart classes)) declaration.sections again.sections := by
  obtain ⟨file, found, rfl⟩ := sourceFile_of_parse parsed
  have sound := sound_of_renderStable found stable fun name member =>
    List.all_eq_true.mpr (dotted name member)
  have read := sourceFile_parse_written sound (.layout [] (file.declaration.render ++ []) .empty)
  rw [merged_of_renderStable found stable, List.nil_append, List.append_nil] at read
  refine ⟨file.declaration.readBack, by rw [Declaration.parse, read]; rfl, ?_⟩
  rw [Declaration.readBack, List.forall₂_map_right_iff]
  refine List.forall₂_same.mpr fun part _ classes extras same => ?_
  subst same
  exact ⟨gathered classes, rfl, gathered_perm_iff⟩

/-- Two packages and a class without package, which come in turn and are imported repeatedly. -/
def interleaved : List Text :=
  ["x.P".toList, "P".toList, "y.Q".toList, "y.P".toList, "x.R".toList, "P".toList, "x.P".toList]

/-- No class without package is named like a package here, so that all classes come back, in another
order. -/
theorem parse_render_perm_iff_interleaved :
    ∃ declaration again others,
      Declaration.parse "(ns a (:import x.P P (y Q P) x.R P x.P))".toList = .ok declaration ∧
      declaration.sections = [.imports interleaved []] ∧
      Declaration.parse declaration.render = .ok again ∧
      again.sections = [.imports others []] ∧ others.Perm interleaved := by
  have parsed : Declaration.parse "(ns a (:import x.P P (y Q P) x.R P x.P))".toList =
      .ok ⟨"a".toList, [], [], [.imports interleaved []]⟩ := by decide +kernel
  obtain ⟨again, read, kept⟩ :=
    parse_render_perm_iff parsed (by decide +kernel) (by decide +kernel)
  obtain ⟨part, parts, kept, last, sections⟩ := List.forall₂_cons_left_iff.mp kept
  obtain ⟨others, same, perm⟩ := kept interleaved [] rfl
  rw [List.forall₂_nil_left_iff.mp last, same] at sections
  exact ⟨_, again, others, parsed, rfl, read, sections, perm.mpr (by decide +kernel)⟩

/-- A class that has the name of a package is lost, and the class of the package is doubled. -/
theorem class_named_as_package_lost :
    ∃ declaration again, Declaration.parse "(ns a (:import x x.P))".toList = .ok declaration ∧
      (∀ form ∈ declarationForm? "(ns a (:import x x.P))".toList, form.renderStable = true) ∧
      (∀ name ∈ declaration.classes,
        ∀ segment ∈ Text.split '.' name, readsAsSymbol segment = true) ∧
      Declaration.parse declaration.render = .ok again ∧
      declaration.sections = [.imports ["x".toList, "x.P".toList] []] ∧
      again.sections = [.imports ["x.P".toList, "x.P".toList] []] := by
  refine ⟨⟨"a".toList, [], [], [.imports ["x".toList, "x.P".toList] []]⟩,
    ⟨"a".toList, [], [], [.imports ["x.P".toList, "x.P".toList] []]⟩, ?_⟩
  decide +kernel

end Relocate
