import Relocate.Proofs.Declaration.Requirements
import Relocate.Proofs.Text.Sets

/-!
# Reading imports back

An import section is written with one line for each package and one for each class without package.
Reading a line gives the classes it is about, so the classes come back gathered by package:
`importGroup` says which classes a line gives. Where every class has a package this is the stable
grouping `byPackage`, and writing what is grouped already changes nothing.
-/
namespace Relocate

/-- Whether a form names classes, and which, does not change when marks are joined. -/
@[simp] theorem importedClasses?_merged (form : Form) :
    importedClasses? form.merged = importedClasses? form := by
  have names (items : List Form) :
      (Form.mergedAll items).mapM Form.symbolName? = items.mapM Form.symbolName? := by
    induction items with
    | nil => rfl
    | cons item items inductionHypothesis =>
      simp [Form.mergedAll, inductionHypothesis]
  cases form with
  | symbol name => rfl
  | marked mark gap target =>
    obtain ⟨_, _, _, same⟩ := Form.merged_marked mark gap target
    rw [same]
    rfl
  | seq bracket items =>
    cases bracket <;> simp [importedClasses?, Form.merged, Form.plainItems?, names]
  | _ => rfl

/-- The classes that the line about a package, or about a class without package, gives. -/
def importGroup (classes : List Text) (head : Text) : List Text :=
  match classesOf head classes with
  | [] => [head]
  | simples => simples.map (head ++ '.' :: ·)

/-- The classes as they are read back. -/
def gathered (classes : List Text) : List Text :=
  (importHeads [] classes).flatMap (importGroup classes)

/-- The parts of a dotted class name that has a package. -/
theorem parts_of_isDotted {name package simple : Text} (dotted : isDotted name = true)
    (cut : Text.splitLast? '.' name = some (package, simple)) :
    isDotted package = true ∧ readsAsSymbol simple = true := by
  obtain ⟨rfl, absent⟩ := Text.splitLast?_eq_some_iff.mp cut
  simpa [isDotted_of_not_mem absent] using dotted

/-- What the lines are about reads as a symbol. By induction on the classes: a line is about a class
or about the package of one. -/
theorem isDotted_of_mem_importHeads {classes : List Text}
    (dotted : ∀ name ∈ classes, isDotted name = true) (met : List Text) :
    ∀ head ∈ importHeads met classes, isDotted head = true := by
  induction classes generalizing met with
  | nil => simp [importHeads]
  | cons name classes inductionHypothesis =>
    simp only [List.forall_mem_cons] at dotted
    rw [importHeads]
    split
    · simp only [List.forall_mem_cons]
      exact ⟨dotted.1, inductionHypothesis dotted.2 met⟩
    · rename_i package simple cut
      split
      · exact inductionHypothesis dotted.2 met
      · simp only [List.forall_mem_cons]
        exact ⟨(parts_of_isDotted dotted.1 cut).1, inductionHypothesis dotted.2 (package :: met)⟩

/-- The simple names of the classes of a package are those of classes in it. -/
theorem mem_classesOf {package simple : Text} {classes : List Text} :
    simple ∈ classesOf package classes ↔
      ∃ name ∈ classes, Text.splitLast? '.' name = some (package, simple) := by
  simp only [classesOf, List.mem_filterMap]
  refine exists_congr fun name => and_congr_right fun _ => ?_
  cases Text.splitLast? '.' name with
  | none => simp
  | some parts =>
    obtain ⟨owner, last⟩ := parts
    by_cases same : owner = package <;> simp [same]

/-- Symbols in a vector, the first one a package. -/
theorem importedClasses?_vector (package simple : Text) (simples : List Text) :
    importedClasses? (.seq .vector ((package :: simple :: simples).map Form.symbol)) =
      some ((simple :: simples).map (package ++ '.' :: ·)) := by
  have names (texts : List Text) : (texts.map Form.symbol).mapM Form.symbolName? = some texts := by
    induction texts with
    | nil => rfl
    | cons text texts inductionHypothesis => simp [inductionHypothesis, Form.symbolName?]
  simp only [importedClasses?, Form.plainItems?, Option.bind_some, names]

/-- Each line is read as the classes it is about. By the number of simple names in the line: none,
one, which is written with its package, or a vector of several. -/
theorem reads_back_importLine {classes : List Text}
    (dotted : ∀ name ∈ classes, isDotted name = true) {head : Text}
    (headDotted : isDotted head = true) :
    ∃ form, Spells (importLine classes head) form ∧
      importedClasses? form = some (importGroup classes head) := by
  have headReads := readsAsSymbol_of_isDotted headDotted
  have simpleReads : ∀ simple ∈ classesOf head classes, readsAsSymbol simple = true := by
    intro simple member
    obtain ⟨name, inside, cut⟩ := mem_classesOf.mp member
    exact (parts_of_isDotted (dotted name inside) cut).2
  rw [importLine, importGroup]
  match classesOf head classes, simpleReads with
  | [], _ => exact ⟨.symbol head, spells_symbol headReads, rfl⟩
  | [simple], simpleReads =>
    have run := isRun_of_readsAsSymbol (simpleReads simple (by simp))
    exact ⟨.symbol _, spells_symbol (readsAsSymbol_dotted headReads run), rfl⟩
  | simple :: other :: simples, simpleReads =>
    refine ⟨_, ?_, importedClasses?_vector head simple (other :: simples)⟩
    have symbols : ∀ name ∈ head :: simple :: other :: simples, Spells name (.symbol name) :=
      List.forall_mem_cons.mpr
        ⟨spells_symbol headReads, fun name member => spells_symbol (simpleReads name member)⟩
    exact spells_bracketed (List.forall₂_map_right_iff.mpr (List.forall₂_same.mpr symbols))

/-- The lines of an import section, and what else stands in it, are read as the gathered classes and
the rest. All of the lines name classes, and nothing else in the section does. -/
theorem ofImports_lines {classes : List Text} {forms extras : List Form}
    (lines : List.Forall₂ (fun head form => importedClasses? form = some (importGroup classes head))
      (importHeads [] classes) forms)
    (missing : ∀ extra ∈ extras, importedClasses? extra = none) :
    Section.ofImports (forms ++ extras) = .imports (gathered classes) extras := by
  have named : forms.filterMap importedClasses? =
        (importHeads [] classes).map (importGroup classes) ∧
      forms.filter (fun form => (importedClasses? form).isNone) = [] := by
    generalize importHeads [] classes = heads at lines
    induction lines with
    | nil => exact ⟨rfl, rfl⟩
    | cons first _ inductionHypothesis => simp [first, inductionHypothesis]
  have others : extras.filterMap importedClasses? = [] ∧
      extras.filter (fun form => (importedClasses? form).isNone) = extras :=
    ⟨List.filterMap_eq_nil_iff.mpr missing, List.filter_eq_self.mpr fun form member => by
      rw [missing form member]
      rfl⟩
  rw [Section.ofImports, List.filterMap_append, List.filter_append, named.1, named.2, others.1,
    others.2, gathered, List.flatMap_def]
  simp

/-- The package of a class, if it has one. -/
def packageOf (name : Text) : Text :=
  match Text.splitLast? '.' name with
  | some (package, _) => package
  | none => []

/-- The classes grouped by package, the packages in order of their first class and the classes of
each in order. -/
def byPackage (classes : List Text) : List Text :=
  (Text.distinct (classes.map packageOf)).flatMap fun package =>
    classes.filter fun name => packageOf name = package

/-- A class with a package is the package, a dot and a simple name. -/
theorem eq_packageOf {name : Text} (owned : '.' ∈ name) :
    ∃ simple, Text.splitLast? '.' name = some (packageOf name, simple) ∧
      name = packageOf name ++ '.' :: simple := by
  cases cut : Text.splitLast? '.' name with
  | none => exact absurd owned (Text.splitLast?_eq_none_iff.mp cut)
  | some parts =>
    obtain ⟨package, simple⟩ := parts
    obtain ⟨same, -⟩ := Text.splitLast?_eq_some_iff.mp cut
    have owner : packageOf name = package := by simp [packageOf, cut]
    exact ⟨simple, by rw [owner], by rw [owner]; exact same⟩

/-- Where every class has a package, the lines are about the packages. By induction on the classes,
with the packages that have been written so far. -/
theorem importHeads_eq_distinct {classes : List Text} (owned : ∀ name ∈ classes, '.' ∈ name)
    (met : List Text) :
    importHeads met classes =
      (Text.distinct (classes.map packageOf)).filter fun package => package ∉ met := by
  induction classes generalizing met with
  | nil => rfl
  | cons name classes inductionHypothesis =>
    simp only [List.forall_mem_cons] at owned
    obtain ⟨simple, cut, -⟩ := eq_packageOf owned.1
    rw [importHeads, cut, List.map_cons, Text.distinct]
    by_cases seen : packageOf name ∈ met
    · simp only [List.contains_iff_mem.mpr seen, if_true]
      rw [inductionHypothesis owned.2, List.filter_cons_of_neg (by simpa using seen),
        List.filter_filter]
      refine List.filter_congr fun package _ => ?_
      by_cases same : package = packageOf name <;> simp [same, seen]
    · have fresh : met.contains (packageOf name) = false := by simpa using seen
      simp only [fresh, Bool.false_eq_true, if_false]
      rw [inductionHypothesis owned.2, List.filter_cons_of_pos (by simpa using seen),
        List.filter_filter]
      congr 1
      refine List.filter_congr fun package _ => ?_
      simp [Bool.and_comm]

/-- The classes that the line about a package gives are those of the package. By induction on the
classes, as a class is its package, a dot and its simple name. -/
theorem map_classesOf {classes : List Text} (owned : ∀ name ∈ classes, '.' ∈ name)
    (package : Text) :
    (classesOf package classes).map (package ++ '.' :: ·) =
      classes.filter fun name => packageOf name = package := by
  induction classes with
  | nil => rfl
  | cons name classes inductionHypothesis =>
    simp only [List.forall_mem_cons] at owned
    obtain ⟨simple, cut, same⟩ := eq_packageOf owned.1
    have others := inductionHypothesis owned.2
    rw [classesOf] at others ⊢
    by_cases owner : packageOf name = package
    · subst owner
      rw [List.filterMap_cons_some (b := simple) (by simp [cut]), List.map_cons, others, ← same,
        List.filter_cons_of_pos (by simp)]
    · rw [List.filterMap_cons_none (by simp [cut, owner]), others,
        List.filter_cons_of_neg (by simp [owner])]

/-- Where every class has a package, the classes are read back grouped by package. -/
theorem gathered_eq_byPackage {classes : List Text} (owned : ∀ name ∈ classes, '.' ∈ name) :
    gathered classes = byPackage classes := by
  rw [gathered, byPackage, importHeads_eq_distinct owned]
  simp only [List.not_mem_nil, not_false_eq_true, decide_true, List.filter_true]
  refine List.flatMap_congr fun package member => ?_
  rw [Text.mem_distinct] at member
  obtain ⟨name, inside, rfl⟩ := List.mem_map.mp member
  rw [← map_classesOf owned, importGroup]
  split
  · rename_i missing
    obtain ⟨simple, cut, -⟩ := eq_packageOf (owned name inside)
    have one := mem_classesOf.mpr ⟨name, inside, cut⟩
    simp [missing] at one
  · rfl

/-- Only the classes of a package matter to its line. -/
theorem classesOf_filter (package : Text) (classes : List Text) :
    classesOf package (classes.filter fun name => packageOf name = package) =
      classesOf package classes := by
  rw [classesOf, List.filterMap_filter, classesOf]
  refine List.filterMap_congr fun name _ => ?_
  cases cut : Text.splitLast? '.' name with
  | none => simp
  | some parts => by_cases owner : parts.1 = package <;> simp [packageOf, cut, owner]

/-- Grouping by package does not change what is written. The packages come in the same order after
grouping, and each has the same classes. -/
theorem importEntries_byPackage {classes : List Text} (owned : ∀ name ∈ classes, '.' ∈ name)
    (extras : List Form) :
    importEntries (byPackage classes) extras = importEntries classes extras := by
  have nodup := Text.nodup_distinct (classes.map packageOf)
  have grouped : ∀ package ∈ Text.distinct (classes.map packageOf),
      ∀ name ∈ classes.filter (fun name => packageOf name = package), packageOf name = package := by
    simp
  have occupied : ∀ package ∈ Text.distinct (classes.map packageOf),
      classes.filter (fun name => packageOf name = package) ≠ [] := by
    intro package member
    obtain ⟨name, inside, same⟩ := List.mem_map.mp (Text.mem_distinct.mp member)
    exact List.ne_nil_of_mem (List.mem_filter.mpr ⟨inside, by simpa using same⟩)
  have ownedGroups : ∀ name ∈ byPackage classes, '.' ∈ name := by
    intro name member
    obtain ⟨package, -, inside⟩ := List.mem_flatMap.mp member
    exact owned name (List.mem_filter.mp inside).1
  have heads : importHeads [] (byPackage classes) = importHeads [] classes := by
    rw [importHeads_eq_distinct ownedGroups, importHeads_eq_distinct owned, byPackage,
      Text.distinct_groups nodup occupied grouped]
  rw [importEntries, importEntries, heads]
  congr 1
  refine List.map_congr_left fun package member => ?_
  have line : classesOf package (byPackage classes) = classesOf package classes := by
    rw [importHeads_eq_distinct owned, List.mem_filter] at member
    rw [← classesOf_filter, byPackage, Text.filter_groups nodup grouped member.1, classesOf_filter]
  rw [importLine, importLine, line]

end Relocate
