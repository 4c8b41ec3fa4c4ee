import Mathlib.Data.List.Infix
import Relocate.Proofs.Text.Sets
import Relocate.Resolution
import Relocate.SourceRoots

/-!
# Lists of source roots

A path leaves a remainder behind each root above it, and the shortest one gives its module. All
remainders of one path are endings of it, so of two that are equally long neither is another text:
the chosen one is the ending that all the others end in, and the first of the shortest is the same
as the last. It depends on which roots there are and not on how they are listed
(`resolveModule_root_list`). Case does not matter for this: two roots that differ only in case may
both be above a path.
-/
namespace Relocate

section Shortest

variable {texts : List Text} {text whole : Text}

/-- There is a shortest text unless there is none at all. -/
theorem shortest?_eq_none_iff : shortest? texts = none ↔ texts = [] := by
  cases texts with
  | nil => simp [shortest?]
  | cons first others =>
    rw [shortest?]
    split
    · simp
    · split <;> simp

/-- The chosen text is in the list, and no other is shorter. By induction on the list. -/
theorem shortest?_least (chosen : shortest? texts = some text) :
    text ∈ texts ∧ ∀ other ∈ texts, text.length ≤ other.length := by
  induction texts generalizing text with
  | nil => simp [shortest?] at chosen
  | cons first others inductionHypothesis =>
    rw [shortest?] at chosen
    split at chosen
    · rename_i missing
      obtain rfl := shortest?_eq_none_iff.mp missing
      obtain rfl := Option.some.inj chosen
      simp
    · rename_i least found
      obtain ⟨member, below⟩ := inductionHypothesis found
      split at chosen
      · rename_i shorter
        obtain rfl := Option.some.inj chosen
        exact ⟨.tail _ member, List.forall_mem_cons.mpr ⟨Nat.le_of_lt shorter, below⟩⟩
      · rename_i longer
        obtain rfl := Option.some.inj chosen
        refine ⟨.head _, List.forall_mem_cons.mpr ⟨Nat.le_refl _, fun other listed => ?_⟩⟩
        exact Nat.le_trans (Nat.le_of_not_lt longer) (below other listed)

/-- Among endings of one text, the chosen one is the ending of all others. Of two endings of one
text the shorter is an ending of the longer, and those of equal length are the same. -/
theorem shortest?_eq_some_iff (endings : ∀ other ∈ texts, other <:+ whole) :
    shortest? texts = some text ↔ text ∈ texts ∧ ∀ other ∈ texts, text <:+ other := by
  have least {chosen : Text} (found : shortest? texts = some chosen) :
      chosen ∈ texts ∧ ∀ other ∈ texts, chosen <:+ other := by
    obtain ⟨member, below⟩ := shortest?_least found
    exact ⟨member, fun other listed => List.suffix_of_suffix_length_le
      (endings chosen member) (endings other listed) (below other listed)⟩
  constructor
  · exact least
  · rintro ⟨member, ending⟩
    cases found : shortest? texts with
    | none => simp [shortest?_eq_none_iff.mp found] at member
    | some chosen =>
      obtain ⟨listed, shorter⟩ := least found
      have same : chosen.length = text.length :=
        Nat.le_antisymm (shorter text member).length_le (ending chosen listed).length_le
      rw [(shorter text member).eq_of_length same]

end Shortest

/-- What a path adds to a root stands behind as many characters as the root has with a slash behind
it. -/
theorem remainder_drop {root path rest : Text} (left : remainder? root path = some rest) :
    rest = path.drop (Text.trimEnd '/' root ++ ['/']).length := by
  rw [remainder?] at left
  split at left
  · exact (Option.some.inj left).symm
  · simp at left

/-- What a root leaves of a path is an end of the path. -/
theorem remainder_suffix {root path rest : Text} (left : remainder? root path = some rest) :
    rest <:+ path := by
  rw [remainder_drop left]
  exact List.drop_suffix _ path

/-- The shortest of the remainders that a path leaves behind the roots above it. -/
def shortestRemainder? (cwd : Text) (roots : List Text) (path : Text) : Option Text :=
  shortest? (roots.filterMap fun root =>
    remainder? (Path.normalize cwd root) (Path.normalize cwd path))

section Choice

variable {cwd path rest : Text} {roots others : List Text}

/-- The module is settled by the shortest remainder. -/
theorem resolveModule_eq (cwd : Text) (roots : List Text) (path : Text) :
    resolveModule cwd roots path =
      match shortestRemainder? cwd roots path with
      | none => .error (.outside (Path.normalize cwd path))
      | some rest =>
        if (Text.trim '/' rest).isEmpty then .error (.isRoot (Path.normalize cwd path))
        else .ok (ModuleName.ofRelativePath (Text.trim '/' rest)) := rfl

/-- A path has no remainder if no root leaves one. -/
theorem shortestRemainder?_eq_none_iff :
    shortestRemainder? cwd roots path = none ↔
      ∀ root ∈ roots.map (Path.normalize cwd),
        remainder? root (Path.normalize cwd path) = none := by
  rw [shortestRemainder?, shortest?_eq_none_iff, List.filterMap_eq_nil_iff, List.forall_mem_map]

/-- It is the remainder behind one root and the end of the remainders behind all others. -/
theorem shortestRemainder?_eq_some_iff :
    shortestRemainder? cwd roots path = some rest ↔
      (∃ root ∈ roots.map (Path.normalize cwd),
        remainder? root (Path.normalize cwd path) = some rest) ∧
      ∀ root ∈ roots.map (Path.normalize cwd), ∀ other,
        remainder? root (Path.normalize cwd path) = some other → rest <:+ other := by
  have listed (text : Text) : text ∈ (roots.filterMap fun root =>
        remainder? (Path.normalize cwd root) (Path.normalize cwd path)) ↔
      ∃ root ∈ roots.map (Path.normalize cwd),
        remainder? root (Path.normalize cwd path) = some text := by
    simp [List.mem_filterMap]
  have endings : ∀ text ∈ (roots.filterMap fun root =>
      remainder? (Path.normalize cwd root) (Path.normalize cwd path)),
      text <:+ Path.normalize cwd path := by
    intro text member
    obtain ⟨root, -, left⟩ := (listed text).mp member
    exact remainder_suffix left
  rw [shortestRemainder?, shortest?_eq_some_iff endings, listed]
  refine and_congr_right fun _ => ⟨fun ending root member other left => ?_, fun ending other => ?_⟩
  · exact ending other ((listed other).mpr ⟨root, member, left⟩)
  · rw [listed]
    rintro ⟨root, member, left⟩
    exact ending root member other left

/-- More roots leave a remainder that is the same or the end of the former one. -/
theorem shortestRemainder?_mono
    (more : ∀ root ∈ roots.map (Path.normalize cwd), root ∈ others.map (Path.normalize cwd))
    (found : shortestRemainder? cwd roots path = some rest) :
    ∃ shorter, shortestRemainder? cwd others path = some shorter ∧ shorter <:+ rest := by
  obtain ⟨⟨root, member, left⟩, -⟩ := shortestRemainder?_eq_some_iff.mp found
  cases chosen : shortestRemainder? cwd others path with
  | none =>
    rw [shortestRemainder?_eq_none_iff.mp chosen root (more root member)] at left
    simp at left
  | some shorter =>
    have ending := (shortestRemainder?_eq_some_iff.mp chosen).2
    exact ⟨shorter, rfl, ending root (more root member) rest left⟩

/-- The same roots leave the same remainder. -/
theorem shortestRemainder?_congr
    (same : ∀ root, root ∈ roots.map (Path.normalize cwd) ↔
      root ∈ others.map (Path.normalize cwd)) :
    shortestRemainder? cwd roots path = shortestRemainder? cwd others path := by
  apply Option.ext
  intro rest
  simp only [shortestRemainder?_eq_some_iff, same]

end Choice

/-- The module of a path, or the reason why it has none, is the same for any two lists of the same
normalized roots, also where they are the fixed roots that two lists of paths give. With further
roots a path that has a module stays below a root, and the chosen remainder does not get longer. The
chosen remainder is the shortest of a set that depends on the roots as a set only, and grows with
it. -/
theorem resolveModule_root_list (cwd path : Text) (roots others : List Text) :
    ((∀ root, root ∈ roots.map (Path.normalize cwd) ↔
        root ∈ others.map (Path.normalize cwd)) →
      resolveModule cwd roots path = resolveModule cwd others path) ∧
    (∀ start fixed otherFixed,
      (∀ root, root ∈ roots.map (Path.normalize start) ↔
        root ∈ others.map (Path.normalize start)) →
      SourceRoots.ofPaths start roots = .fixed fixed →
      SourceRoots.ofPaths start others = .fixed otherFixed →
      resolveModule cwd fixed path = resolveModule cwd otherFixed path) ∧
    ((∀ root ∈ roots.map (Path.normalize cwd), root ∈ others.map (Path.normalize cwd)) →
      ∀ module, resolveModule cwd roots path = .ok module →
        (∀ target, resolveModule cwd others path ≠ .error (.outside target)) ∧
        ∃ rest shorter, shortestRemainder? cwd roots path = some rest ∧
          shortestRemainder? cwd others path = some shorter ∧ shorter <:+ rest) := by
  refine ⟨fun same => ?_, ?_, fun more module resolved => ?_⟩
  · rw [resolveModule_eq, resolveModule_eq, shortestRemainder?_congr same]
  · rintro start _ _ same ⟨⟩ ⟨⟩
    have again : ∀ root, root ∈ (Text.distinct (roots.map (Path.normalize start))).map
          (Path.normalize cwd) ↔
        root ∈ (Text.distinct (others.map (Path.normalize start))).map (Path.normalize cwd) := by
      intro root
      simp only [List.mem_map (b := root), Text.mem_distinct, same]
    rw [resolveModule_eq, resolveModule_eq, shortestRemainder?_congr again]
  · cases found : shortestRemainder? cwd roots path with
    | none => simp [resolveModule_eq, found] at resolved
    | some rest =>
      obtain ⟨shorter, chosen, ending⟩ := shortestRemainder?_mono more found
      refine ⟨fun target => ?_, rest, shorter, rfl, chosen, ending⟩
      rw [resolveModule_eq, chosen]
      simp only
      split <;> simp

/-- Two roots that differ only in case, one below them, and this one listed twice. -/
theorem resolveModule_root_list_nested :
    resolveModule ['/'] ["/R".toList, "/r/in".toList, "/r".toList, "/r/./in".toList]
        "/r/in/a.clj".toList =
      resolveModule ['/'] ["/r/in".toList, "/r".toList, "/R".toList] "/r/in/a.clj".toList ∧
    resolveModule ['/'] ["/R".toList, "/r/in".toList, "/r".toList] "/r/in/a.clj".toList =
      resolveModule ['/'] ["/r/in".toList, "/r".toList, "/R".toList] "/r/in/a.clj".toList ∧
    resolveModule ['/'] ["/R".toList] "/r/in/a.clj".toList = .ok "in.a".toList ∧
    resolveModule ['/'] ["/r/in".toList, "/R".toList] "/r/in/a.clj".toList = .ok "a".toList ∧
    ∃ rest shorter, shortestRemainder? ['/'] ["/R".toList] "/r/in/a.clj".toList = some rest ∧
      shortestRemainder? ['/'] ["/r/in".toList, "/R".toList] "/r/in/a.clj".toList = some shorter ∧
      shorter <:+ rest := by
  have outer : resolveModule ['/'] ["/R".toList] "/r/in/a.clj".toList = .ok "in.a".toList := by
    decide +kernel
  obtain ⟨same, fixed, -⟩ := resolveModule_root_list ['/'] "/r/in/a.clj".toList
    ["/R".toList, "/r/in".toList, "/r".toList, "/r/./in".toList]
    ["/r/in".toList, "/r".toList, "/R".toList]
  obtain ⟨-, -, more⟩ := resolveModule_root_list ['/'] "/r/in/a.clj".toList ["/R".toList]
    ["/r/in".toList, "/R".toList]
  have forth : ∀ root ∈ ["/R".toList, "/r/in".toList, "/r".toList, "/r/./in".toList].map
      (Path.normalize ['/']), root ∈ ["/r/in".toList, "/r".toList, "/R".toList].map
        (Path.normalize ['/']) := by
    decide +kernel
  have back : ∀ root ∈ ["/r/in".toList, "/r".toList, "/R".toList].map (Path.normalize ['/']),
      root ∈ ["/R".toList, "/r/in".toList, "/r".toList, "/r/./in".toList].map
        (Path.normalize ['/']) := by
    decide +kernel
  exact ⟨same fun root => ⟨forth root, back root⟩,
    fixed ['/'] _ _ (fun root => ⟨forth root, back root⟩) (by decide +kernel) (by decide +kernel),
    outer, by decide +kernel, (more (by decide +kernel) _ outer).2⟩

end Relocate
