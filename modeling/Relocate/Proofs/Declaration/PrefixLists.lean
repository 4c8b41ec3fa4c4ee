import Relocate.Proofs.Declaration.Requirements

/-!
# What a prefix list stands for

A prefix list is a tree with a symbol at each branching and a library at each leaf. It stands for
one requirement for each leaf, from left to right, and the target of each is made of the symbols on
the way down to it: `targets_libspec?`. A package around the whole list is put in front of every
target and changes nothing else: `libspec?_append`.

So a part of a list can be taken out and written on its own, with the symbols above it in its
target. A requirement is written this way, and read back from there.
-/
namespace Relocate

mutual

/-- The symbols on the way down to each leaf of a libspec, the leaf's own included. -/
def Form.leafPaths : Form → List (List Text)
  | .symbol name => [[name]]
  | .seq _ (.symbol name :: parts) =>
    match parts with
    | [] => [[name]]
    | .keyword _ :: _ => [[name]]
    | parts => (leafPathsAll parts).map (name :: ·)
  | _ => []

/-- The ways down to the leaves of several libspecs, from left to right. -/
def Form.leafPathsAll : List Form → List (List Text)
  | [] => []
  | form :: forms => form.leafPaths ++ leafPathsAll forms

end

/-- The requirement with a package in front of its target. -/
def Requirement.below (package : Text) (requirement : Requirement) : Requirement :=
  requirement.withTarget (package ++ requirement.target)

namespace Requirement

/-- The target has no part in how an option is read. -/
theorem addOption_below (package : Text) (requirement : Requirement) (key : Text) (value : Form) :
    (requirement.below package).addOption key value =
      (requirement.addOption key value).below package := by
  unfold addOption
  split
  · split <;> rfl
  · split
    · split
      · rfl
      · split <;> rfl
      · rfl
    · rfl

/-- An option does not change what is required. -/
theorem target_addOption (requirement : Requirement) (key : Text) (value : Form) :
    (requirement.addOption key value).target = requirement.target := by
  obtain ⟨-, same⟩ | ⟨_, -, same⟩ | ⟨_, -, same⟩ | same := addOption_cases requirement key value <;>
    rw [same]

/-- Options are added below a package as they are elsewhere: they do not depend on the target. -/
theorem addOptions?_below (package : Text) (forms : List Form) (requirement : Requirement) :
    (requirement.below package).addOptions? forms =
      (requirement.addOptions? forms).map (below package) := by
  fun_induction requirement.addOptions? forms with
  | case1 => rfl
  | case2 requirement key value rest inductionHypothesis =>
    rw [addOptions?, addOption_below, inductionHypothesis]
  | case3 forms requirement notEmpty notOption =>
    unfold addOptions?
    split
    · exact absurd rfl notEmpty
    · exact absurd rfl (notOption _ _ _)
    · rfl

/-- Options do not change the target. -/
theorem target_of_addOptions {forms : List Form} {requirement result : Requirement}
    (read : requirement.addOptions? forms = some result) : result.target = requirement.target := by
  fun_induction requirement.addOptions? forms with
  | case1 => exact Option.some.inj read ▸ rfl
  | case2 requirement key value rest inductionHypothesis =>
    rw [inductionHypothesis read, target_addOption]
  | case3 => simp at read

end Requirement

/-- A name in brackets is one requirement. -/
theorem libspec?_single (package name : Text) {bracket : Bracket}
    (plain : (bracket = .vector || bracket = .list) = true) :
    libspec? package (.seq bracket [.symbol name]) = some [.plain (package ++ name) false] := by
  unfold libspec?
  rw [if_pos plain]

/-- A name with something behind it that does not start as options is a prefix list. -/
theorem libspec?_prefixList (package name : Text) {bracket : Bracket}
    (plain : (bracket = .vector || bracket = .list) = true) {parts : List Form}
    (nonempty : parts ≠ []) (noOption : ∀ key options, parts ≠ .keyword key :: options) :
    libspec? package (.seq bracket (.symbol name :: parts)) =
      libspecs? (package ++ name ++ ['.']) parts := by
  obtain ⟨first, others, rfl⟩ := List.exists_cons_of_ne_nil nonempty
  exact libspec?_parts package name plain (fun key same => noOption key others (same ▸ rfl)) others

/-- A package in front of another one is put in front of every target. By the induction principle of
the reader of libspecs. -/
theorem libspec?_append :
    (∀ inner form, ∀ outer, libspec? (outer ++ inner) form =
      (libspec? inner form).map (·.map (Requirement.below outer))) ∧
    (∀ inner forms, ∀ outer, libspecs? (outer ++ inner) forms =
      (libspecs? inner forms).map (·.map (Requirement.below outer))) := by
  refine libspec?.mutual_induct_unfolding
    (fun inner form result => ∀ outer, libspec? (outer ++ inner) form =
      result.map (·.map (Requirement.below outer)))
    (fun inner forms result => ∀ outer, libspecs? (outer ++ inner) forms =
      result.map (·.map (Requirement.below outer))) ?_ ?_ ?_ ?_ ?_ ?_ ?_ ?_ ?_
  · intro inner name outer
    rw [libspec?, List.append_assoc]
    rfl
  · intro inner bracket name plain outer
    rw [libspec?_single _ _ plain, List.append_assoc]
    rfl
  · intro inner bracket name plain key options named outer
    have below : Requirement.plain (outer ++ inner ++ name) false = named.below outer := by
      rw [List.append_assoc]
      rfl
    rw [libspec?_options _ _ _ plain, below, Requirement.addOptions?_below, Option.map_map,
      Option.map_map]
    rfl
  · intro inner bracket name plain parts nonempty noOption inductionHypothesis outer
    rw [libspec?_prefixList _ _ plain nonempty noOption, ← inductionHypothesis outer]
    simp only [List.append_assoc]
  · intro inner bracket name rest other outer
    unfold libspec?
    rw [if_neg other]
    rfl
  · intro form inner noSymbol noList outer
    unfold libspec?
    split
    · exact absurd rfl (noSymbol _)
    · exact absurd rfl (noList _ _ _)
    · rfl
  · intro inner outer
    rfl
  · intro inner form forms missing inductionHypothesis outer
    rw [libspecs?, inductionHypothesis, missing]
    rfl
  · intro inner form forms requirements read first others outer
    rw [libspecs?, first, read, others]
    cases libspecs? inner forms <;> simp

namespace Form

/-- There is a symbol on every way down. -/
theorem ne_nil_of_mem_leafPaths {form : Form} {path : List Text} (member : path ∈ form.leafPaths) :
    path ≠ [] := by
  unfold leafPaths at member
  split at member
  · simp_all
  · split at member
    · simp_all
    · simp_all
    · obtain ⟨rest, -, rfl⟩ := List.mem_map.mp member
      simp
  · simp at member

/-- The way to a leaf has at least the leaf's own name. -/
theorem ne_nil_of_mem_leafPathsAll {forms : List Form} {path : List Text}
    (member : path ∈ leafPathsAll forms) : path ≠ [] := by
  induction forms with
  | nil => simp [leafPathsAll] at member
  | cons form forms inductionHypothesis =>
    obtain member | member := List.mem_append.mp member
    · exact ne_nil_of_mem_leafPaths member
    · exact inductionHypothesis member

/-- The ways down into a prefix list start with its own symbol. -/
theorem leafPaths_prefixList (bracket : Bracket) (name : Text) {parts : List Form}
    (nonempty : parts ≠ []) (noOption : ∀ key options, parts ≠ .keyword key :: options) :
    (Form.seq bracket (.symbol name :: parts)).leafPaths =
      (leafPathsAll parts).map (name :: ·) := by
  unfold leafPaths
  split
  · exact absurd rfl nonempty
  · exact absurd rfl (noOption _ _)
  · rfl

end Form

/-- The targets of a libspec are the ways down to its leaves, each joined by dots. By the induction
principle of the reader of libspecs: options do not change a target, and a prefix list puts its name
and a dot in front. -/
theorem targets_libspec? :
    (∀ package form, ∀ requirements ∈ libspec? package form,
      requirements.map Requirement.target =
        form.leafPaths.map fun path => package ++ Text.join ['.'] path) ∧
    (∀ package forms, ∀ requirements ∈ libspecs? package forms,
      requirements.map Requirement.target =
        (Form.leafPathsAll forms).map fun path => package ++ Text.join ['.'] path) := by
  refine libspec?.mutual_induct_unfolding
    (fun package form result => ∀ requirements ∈ result, requirements.map Requirement.target =
      form.leafPaths.map fun path => package ++ Text.join ['.'] path)
    (fun package forms result => ∀ requirements ∈ result, requirements.map Requirement.target =
      (Form.leafPathsAll forms).map fun path => package ++ Text.join ['.'] path)
    ?_ ?_ ?_ ?_ ?_ ?_ ?_ ?_ ?_
  · rintro package name _ ⟨⟩
    rfl
  · rintro package bracket name - _ ⟨⟩
    rfl
  · intro package bracket name _ key options named requirements read
    obtain ⟨requirement, added, rfl⟩ := Option.map_eq_some_iff.mp read
    have target : requirement.target = package ++ name := Requirement.target_of_addOptions added
    simpa [Form.leafPaths, Text.join] using target
  · intro package bracket name _ parts nonempty noOption inductionHypothesis requirements read
    rw [inductionHypothesis requirements read, Form.leafPaths_prefixList _ _ nonempty noOption,
      List.map_map]
    refine List.map_congr_left fun path member => ?_
    obtain ⟨first, rest, rfl⟩ :=
      List.exists_cons_of_ne_nil (Form.ne_nil_of_mem_leafPathsAll member)
    simp [Text.join]
  · intros
    contradiction
  · intros
    contradiction
  · rintro package _ ⟨⟩
    rfl
  · intros
    contradiction
  · intro package form forms requirements read first others all found
    obtain ⟨more, foundMore, rfl⟩ := Option.map_eq_some_iff.mp found
    rw [List.map_append, first requirements read, others more foundMore, Form.leafPathsAll,
      List.map_append]

/-- A form that stands for requirements ends with its last character. -/
theorem overhang_of_libspec {package : Text} {form : Form} {requirements : List Requirement}
    (found : libspec? package form = some requirements) : form.overhang = 0 := by
  cases form with
  | symbol | seq => rfl
  | _ => simp [libspec?] at found

/-- Where no marks are read together, there are none to join in a requirement. -/
theorem merged_of_libspec {form : Form} (apart : form.marksApart = true)
    {requirements : List Requirement} (found : libspec? [] form = some requirements) :
    ∀ requirement ∈ requirements, requirement.merged = requirement := by
  have again := libspec?_merged [] form
  rw [form.merged_of_marksApart apart, found] at again
  have same : requirements.map id = requirements.map Requirement.merged := by
    rw [List.map_id]
    exact Option.some.inj again
  exact fun requirement member => (List.map_inj_left.mp same requirement member).symm

/-- A requirement that does not list names beside taking over all is settled. -/
theorem Requirement.settled_of_not_both {requirement : Requirement}
    (apart : ¬(requirement.referAll = true ∧ requirement.referred.isSome = true)) :
    requirement.settled = requirement := by
  obtain ⟨target, nickname, referred, _ | _, options, bare⟩ := requirement
  · rfl
  · cases referred with
    | none => rfl
    | some names => exact absurd ⟨rfl, rfl⟩ apart

/-- A libspec is read from the leaves up. A package goes in front of every target and changes
nothing else, the targets are the ways down to the leaves, and each requirement of a render-stable
libspec is written as a libspec that stands for it alone. The first two are by induction on the
libspec, with the package for a parameter. The third is that a requirement of a sound libspec is
sound, and is read back. -/
theorem libspec?_expands (package : Text) (form : Form) :
    libspec? package form = (libspec? [] form).map (·.map fun requirement =>
      requirement.withTarget (package ++ requirement.target)) ∧
    (∀ requirements, libspec? package form = some requirements →
      requirements.map Requirement.target =
        form.leafPaths.map fun path => package ++ Text.join ['.'] path) ∧
    ∀ text offset after, readForm (Cursor.ofText text offset) = .ok (form, after) →
      form.renderStable = true →
      ∀ requirements, libspec? [] form = some requirements → ∀ requirement ∈ requirements,
        ¬(requirement.referAll = true ∧ requirement.referred.isSome = true) →
        ∃ again stop, readForm (Cursor.ofText requirement.render 0) = .ok (again, stop) ∧
          stop.atEnd = true ∧ libspec? [] again = some [requirement] := by
  refine ⟨?_, targets_libspec?.1 package form, ?_⟩
  · have below := libspec?_append.1 [] form package
    rwa [List.append_nil] at below
  · intro text offset after read stable requirements found requirement member apart
    obtain ⟨lead, own, rest, -, -, spelled, -⟩ := readForm_ok_iff.mp read
    simp only [Form.renderStable, Bool.and_eq_true] at stable
    have known : form.Known := ⟨stable.2, overhang_of_libspec found, own, rest, spelled⟩
    have sound := libspec?_sound (.inl rfl) form known requirements found requirement member
    obtain ⟨again, spells, readsBack⟩ := sound.reads_back
    rw [merged_of_libspec stable.1 found requirement member,
      Requirement.settled_of_not_both apart] at readsBack
    have written : readForm (Cursor.ofText requirement.render 0) =
        .ok (again, ⟨0, 0 + 0 + requirement.render.length + again.overhang, []⟩) :=
      readForm_ok_iff.mpr
        ⟨[], requirement.render, [], by simp, .empty, spells [] delimited_nil, rfl⟩
    exact ⟨again, _, written, rfl, readsBack⟩

/-- Lists in vectors in lists, with options at two depths. -/
def nestedLists : Form :=
  .seq .list [.symbol "a".toList,
    .seq .vector [.symbol "b".toList, .keyword "as".toList, .symbol "s".toList],
    .seq .vector [.symbol "c".toList,
      .seq .list [.symbol "d".toList,
        .seq .vector [.symbol "e".toList, .keyword "refer".toList,
          .seq .vector [.symbol "x".toList]]]]]

/-- The leaves of these lists are required under their full names, with their own options, and each
is read back from what it is rendered as. -/
theorem libspec?_expands_nestedLists :
    ∃ after required, readForm (Cursor.ofText "(a [b :as s] [c (d [e :refer [x]])])".toList 0) =
        .ok (nestedLists, after) ∧
      nestedLists.renderStable = true ∧
      libspec? [] nestedLists = some required ∧
      (libspec? "p.".toList nestedLists).map (·.map Requirement.target) =
        some ["p.a.b".toList, "p.a.c.d.e".toList] ∧
      ∀ requirement ∈ required, ∃ again stop,
        readForm (Cursor.ofText requirement.render 0) = .ok (again, stop) ∧
          stop.atEnd = true ∧ libspec? [] again = some [requirement] := by
  have read : readForm (Cursor.ofText "(a [b :as s] [c (d [e :refer [x]])])".toList 0) =
      .ok (nestedLists, ⟨0, 36, []⟩) := by decide +kernel
  have found : libspec? [] nestedLists = some
      [⟨"a.b".toList, some "s".toList, none, false, [], false⟩,
        ⟨"a.c.d.e".toList, none, some ["x".toList], false, [], false⟩] := by decide +kernel
  refine ⟨_, _, read, by decide +kernel, found, by decide +kernel, fun requirement member => ?_⟩
  have apart : ¬(requirement.referAll = true ∧ requirement.referred.isSome = true) := by
    revert requirement
    decide
  exact (libspec?_expands [] nestedLists).2.2 _ _ _ read (by decide +kernel) _ found requirement
    member apart

end Relocate
