import Relocate.Proofs.ModulePaths

/-!
# The deepest root above a path

A root is above a path if its segments are the first ones of the path, without regard to case, and
more follow. This is what the comparison of lower-case texts amounts to: a slash is never lowered,
no other character becomes one, and each segment is lowered on its own (`isAbove_path`).

The text of the root's length is cut off the path. That is the text of as many segments of the path,
unless their lower-case forms have other lengths than they have themselves. One letter can bring
this about, the capital I with a dot. Apart from it, the module of a path is made of the segments
behind those of the deepest root (`resolveModule_deepest`).
-/
namespace Relocate

namespace Text

/-- The capital I with a dot, the only character whose lower-case form is longer. -/
def dottedI : Char := '\u0130'

/-- The lower-case form of a character is one character, apart from that of the dotted capital I,
which is two. -/
@[simp] theorem length_lowerChar (c : Char) :
    (lowerChar c).length = 1 + if c = dottedI then 1 else 0 := by
  have dotted : c.toNat = 0x130 ↔ c = dottedI := by
    rw [← Char.toNat_inj]
    rfl
  unfold lowerChar
  split
  · rename_i ascii
    have other : c ≠ dottedI := fun same => by
      rw [dotted.mpr same] at ascii
      omega
    rw [if_neg other]
    split <;> rfl
  · simp only [beq_iff_eq, dotted]
    split <;> rfl

/-- A text gets longer by one for each dotted capital I in it. By induction on the text; a sigma
becomes one character wherever it stands. -/
@[simp] theorem length_lower (text : Text) :
    (lower text).length = text.length + text.count dottedI := by
  have after (before : Text) :
      (lowerAfter before text).length = text.length + text.count dottedI := by
    induction text generalizing before with
    | nil => rfl
    | cons c rest inductionHypothesis =>
      rw [lowerAfter, List.length_append, inductionHypothesis, List.length_cons, List.count_cons]
      by_cases sigma : c.toNat = 0x3a3
      · have other : c ≠ dottedI := by
          rintro rfl
          exact absurd sigma (by decide)
        simp only [sigma, other, beq_self_eq_true, if_true, beq_iff_eq, if_false]
        split <;> simp only [List.length_singleton] <;> omega
      · simp only [sigma, beq_iff_eq, if_false, length_lowerChar]
        omega
  exact after []

/-- A code behind that of the slash is not the code of a slash. -/
theorem ofNat_ne_slash {code : Nat} (above : 0x30 ≤ code) : Char.ofNat code ≠ '/' := by
  intro same
  have number := congrArg Char.toNat same
  by_cases valid : code.isValidChar
  · rw [Char.ofNat, dif_pos valid] at number
    have slash : code = 0x2f := number
    omega
  · rw [Char.ofNat, dif_neg valid] at number
    exact absurd number (by decide)

/-- Only a slash is lowered to one. All the codes that letters are lowered to lie above that of the
slash. -/
theorem not_mem_lowerChar {c : Char} (other : c ≠ '/') : '/' ∉ lowerChar c := by
  have capital : ∀ range ∈ caseRanges, 0x30 ≤ range.target := by decide +kernel
  unfold lowerChar
  split
  · split
    · rename_i letter
      simp only [Bool.and_eq_true, decide_eq_true_eq] at letter
      simpa using (ofNat_ne_slash (by omega : 0x30 ≤ c.toNat + 0x20)).symm
    · simpa using other.symm
  · rename_i wide
    split
    · decide
    · have above : 0x30 ≤ lowerCode c.toNat := by
        unfold lowerCode
        split
        · rename_i range found
          have listed := capital range (List.mem_of_find?_eq_some found)
          exact Nat.le_trans listed (Nat.le_add_right _ _)
        · omega
      simpa using (ofNat_ne_slash above).symm

/-- A text without slashes has none in lower case. -/
theorem not_mem_lower {text : Text} (clean : '/' ∉ text) : '/' ∉ lower text := by
  have after (before : Text) : '/' ∉ lowerAfter before text := by
    induction text generalizing before with
    | nil => simp [lowerAfter]
    | cons c rest inductionHypothesis =>
      rw [List.mem_cons, not_or] at clean
      rw [lowerAfter, List.mem_append, not_or]
      refine ⟨?_, inductionHypothesis clean.2 (c :: before)⟩
      split
      · split <;> decide
      · exact not_mem_lowerChar (Ne.symm clean.1)
  exact after []

/-- A slash behind a text is not lowered, and does not change how the text in front of it is. -/
theorem lower_concat_slash (text : Text) : lower (text ++ ['/']) = lower text ++ ['/'] := by
  have after (before : Text) :
      lowerAfter before (text ++ ['/']) = lowerAfter before text ++ ['/'] := by
    induction text generalizing before with
    | nil => rfl
    | cons c rest inductionHypothesis =>
      rw [List.cons_append, lowerAfter, lowerAfter, startsCased_slash rest [], inductionHypothesis,
        List.append_assoc]
  exact after []

/-- Each piece between slashes is lowered on its own. -/
@[simp] theorem lower_join (names : List Text) :
    lower (join ['/'] names) = join ['/'] (names.map lower) := by
  cases names with
  | nil => rfl
  | cons name names =>
    rw [List.map_cons, join_cons, join_cons]
    induction names generalizing name with
    | nil => simp
    | cons next names inductionHypothesis =>
      have later := inductionHypothesis next
      rw [List.flatMap_cons, List.map_cons, List.flatMap_cons, List.singleton_append,
        List.cons_append, lower_append_slash, lower_concat_slash, later]
      simp

end Text

/-- The directories from the top on, each with a slash behind it. -/
def Path.directories (names : List Text) : Text := '/' :: names.flatMap (· ++ ['/'])

section Directories

variable {names others : List Text}

/-- The directories of names that are there are the path of their location with a slash behind it.
-/
theorem directories_of_ne_nil (nonempty : names ≠ []) :
    Path.directories names = '/' :: (Text.join ['/'] names ++ ['/']) := by
  obtain ⟨name, names, rfl⟩ := List.exists_cons_of_ne_nil nonempty
  rw [Path.directories, Text.join_cons]
  congr 1
  induction names generalizing name with
  | nil => simp
  | cons next names inductionHypothesis =>
    have later := inductionHypothesis next (by simp)
    rw [List.flatMap_cons, later]
    simp

/-- A path is made of directories and what stands behind them. -/
theorem directories_append (names : List Text) (more : others ≠ []) :
    Path.directories names ++ Text.join ['/'] others = Location.path (names ++ others) := by
  by_cases top : names = []
  · rw [top]
    rfl
  · rw [directories_of_ne_nil top, Location.path, Text.join_append _ top more]
    simp

/-- A path begins with the text of directories exactly if they are its first names and more follow.
The last slash is what keeps a directory from being a part of a longer name. -/
theorem directories_prefix_iff (clean : ∀ name ∈ names, '/' ∉ name)
    (othersClean : ∀ name ∈ others, '/' ∉ name) (nonempty : others ≠ []) :
    Path.directories names <+: Location.path others ↔
      names <+: others ∧ names.length < others.length := by
  constructor
  · rintro ⟨after, same⟩
    by_cases top : names = []
    · subst top
      exact ⟨List.nil_prefix, List.length_pos_of_ne_nil nonempty⟩
    · rw [directories_of_ne_nil top, Location.path, List.cons_append, List.append_assoc,
        List.singleton_append] at same
      have pieces := congrArg (Text.split '/') (List.cons.inj same).2
      rw [Text.split_append, Text.split_join top clean, Text.split_join nonempty othersClean]
        at pieces
      have more := List.length_pos_of_ne_nil (Text.split_ne_nil '/' after)
      rw [← pieces, List.length_append]
      exact ⟨List.prefix_append names _, by omega⟩
  · rintro ⟨⟨rest, rfl⟩, shorter⟩
    have more : rest ≠ [] := by
      rintro rfl
      simp at shorter
    exact ⟨_, directories_append names more⟩

/-- The path of a location is lowered name by name. -/
@[simp] theorem lower_path (names : List Text) :
    Text.lower (Location.path names) = Location.path (names.map Text.lower) := by
  have slash := Text.lower_append_slash [] (Text.join ['/'] names)
  rw [List.nil_append, Text.lower_join] at slash
  exact slash

/-- The directories of a location are lowered name by name. -/
theorem lower_directories (names : List Text) :
    Text.lower (Path.directories names) = Path.directories (names.map Text.lower) := by
  by_cases top : names = []
  · rw [top]
    rfl
  · have lowered : names.map Text.lower ≠ [] := by simpa using top
    rw [directories_of_ne_nil top, directories_of_ne_nil lowered, ← List.cons_append,
      Text.lower_concat_slash, ← Location.path, lower_path]
    rfl

/-- The slashes of a path are no dotted capital I, so that all of these are in the names. -/
theorem count_directories (names : List Text) :
    (Path.directories names).count Text.dottedI = names.flatten.count Text.dottedI := by
  have other : ('/' == Text.dottedI) = false := by decide
  rw [Path.directories, List.count_cons, other]
  induction names with
  | nil => rfl
  | cons name names inductionHypothesis => simp_all

end Directories

/-- The segments of the root are the first ones of the path, without regard to case, and more
follow. -/
def Path.isAncestor (root path : Text) : Bool :=
  (segments root).map Text.lower =
      ((segments path).take (segments root).length).map Text.lower &&
    (segments root).length < (segments path).length

/-- The root has as many dotted capital I's as the segments of the path that it stands for. -/
def Path.dotsAgree (root path : Text) : Bool :=
  (segments root).flatten.count Text.dottedI =
    ((segments path).take (segments root).length).flatten.count Text.dottedI

/-- The roots above a path, normalized. -/
def rootsAbove (cwd : Text) (roots : List Text) (path : Text) : List Text :=
  (roots.map (Path.normalize cwd)).filter (Path.isAncestor · (Path.normalize cwd path))

/-- The number of segments of the deepest root above a path. -/
def depthAbove? (cwd : Text) (roots : List Text) (path : Text) : Option Nat :=
  ((rootsAbove cwd roots path).map fun root => (Path.segments root).length).max?

/-- The number of characters of the longest root above a path with a slash behind it. -/
def sizeAbove? (cwd : Text) (roots : List Text) (path : Text) : Option Nat :=
  ((rootsAbove cwd roots path).map fun root => (Text.trimEnd '/' root ++ ['/']).length).max?

section Ancestors

variable {root location : Location}

/-- The names of a location have no slash. -/
theorem Location.Named.clean (named : location.Named) : ∀ name ∈ location, '/' ∉ name :=
  fun name member => (isSegment_iff.mp (named.isSegment name member)).2

/-- One path is above another if its names are the first ones of the other, without regard to case,
and more follow. Slashes cut both texts at the same places. -/
theorem isAncestor_iff (rootNamed : root.Named) (named : location.Named) :
    Path.isAncestor root.path location.path = true ↔
      root.map Text.lower <+: location.map Text.lower ∧ root.length < location.length := by
  rw [Path.isAncestor, segments_path rootNamed, segments_path named, Bool.and_eq_true,
    decide_eq_true_eq, decide_eq_true_eq, List.prefix_iff_eq_take, List.length_map, List.map_take]

/-- A path that ends in exactly one slash is that of directories. -/
theorem trimEnd_directories (named : location.Named) :
    Text.trimEnd '/' location.path ++ ['/'] = Path.directories location := by
  by_cases top : location = []
  · rw [top]
    rfl
  · rw [trimEnd_path named top, directories_of_ne_nil top]
    rfl

/-- Comparing lower-case texts up to a slash is comparing segments. -/
theorem isAbove_path (rootNamed : root.Named) (named : location.Named) (below : location ≠ []) :
    Path.isAbove root.path location.path = Path.isAncestor root.path location.path := by
  have lowered {names : Location} (named : names.Named) :
      ∀ name ∈ names.map Text.lower, '/' ∉ name := by
    intro name member
    obtain ⟨origin, inside, rfl⟩ := List.mem_map.mp member
    exact Text.not_mem_lower (named.clean origin inside)
  rw [Bool.eq_iff_iff, isAncestor_iff rootNamed named, Path.isAbove, trimEnd_directories rootNamed,
    lower_directories, lower_path, Text.startsWith, List.isPrefixOf_iff_prefix,
    directories_prefix_iff (lowered rootNamed) (lowered named) (by simpa using below),
    List.length_map, List.length_map]

/-- What a path adds to a root: what is left when as many characters are cut off as the root's
directories have. -/
theorem remainder_path (rootNamed : root.Named) (named : location.Named) (below : location ≠ []) :
    remainder? root.path location.path =
      if Path.isAncestor root.path location.path then
        some (location.path.drop (Path.directories root).length)
      else none := by
  rw [← isAbove_path rootNamed named below, ← trimEnd_directories rootNamed]
  rfl

/-- The root's text is as long as that of the segments it stands for, if there are as many dotted
capital I's in both. -/
theorem length_directories (above : root.map Text.lower <+: location.map Text.lower)
    (dots : root.flatten.count Text.dottedI =
      (location.take root.length).flatten.count Text.dottedI) :
    (Path.directories root).length = (Path.directories (location.take root.length)).length := by
  have same : root.map Text.lower = (location.take root.length).map Text.lower := by
    rw [List.map_take, ← List.length_map Text.lower]
    exact List.prefix_iff_eq_take.mp above
  have lowered : Text.lower (Path.directories root) =
      Text.lower (Path.directories (location.take root.length)) := by
    rw [lower_directories, lower_directories, same]
  have lengths := congrArg List.length lowered
  rw [Text.length_lower, Text.length_lower, count_directories, count_directories, dots] at lengths
  exact Nat.add_right_cancel lengths

/-- The deeper directory has the longer path. -/
theorem directories_take_mono (location : Location) {depth deeper : Nat} (le : depth ≤ deeper) :
    (Path.directories (location.take depth)).length ≤
      (Path.directories (location.take deeper)).length := by
  obtain ⟨more, same⟩ := List.take_prefix_take_left (l := location) le
  rw [← same, Path.directories, Path.directories, List.flatMap_append]
  simp

end Ancestors

/-- An ordinary path that does not depend on the current directory, or on one without backslashes
only, is normalized to the path of a location. -/
theorem exists_normalize_from {cwd given : Text} (ordinary : Path.isOrdinary given = true)
    (based : Path.isAbsolute given = true ∨ ∃ base : Location, base.Named ∧ cwd = base.path) :
    ∃ location : Location, location.Named ∧ Path.normalize cwd given = location.path := by
  obtain absolute | ⟨base, named, rfl⟩ := based
  · have top : Location.Named [] := fun _ member => by simp at member
    rw [Path.normalize_anywhere absolute cwd ['/']]
    exact exists_normalize top ordinary
  · exact exists_normalize named ordinary

section Resolution

variable {cwd path root rest : Text} {roots : List Text} {location : Location}

/-- The roots above a path are those of the list that are its ancestors. -/
theorem mem_rootsAbove : root ∈ rootsAbove cwd roots path ↔
    root ∈ roots.map (Path.normalize cwd) ∧
      Path.isAncestor root (Path.normalize cwd path) = true := by
  rw [rootsAbove, List.mem_filter]

variable (named : location.Named) (target : Path.normalize cwd path = location.path)
  (rooted : ∀ root ∈ roots.map (Path.normalize cwd), ∃ above : Location,
    above.Named ∧ root = above.path)

include named target rooted

/-- The roots above a path are those behind which it leaves a remainder, the top apart. -/
theorem remainder_of_mem_rootsAbove (listed : root ∈ rootsAbove cwd roots path) :
    location ≠ [] ∧ remainder? root location.path =
      some (location.path.drop (Text.trimEnd '/' root ++ ['/']).length) := by
  obtain ⟨member, ancestor⟩ := mem_rootsAbove.mp listed
  obtain ⟨above, aboveNamed, rfl⟩ := rooted root member
  rw [target] at ancestor
  have below : location ≠ [] := by
    rintro rfl
    exact absurd ((isAncestor_iff aboveNamed named).mp ancestor).2 (Nat.not_lt_zero _)
  rw [remainder_path aboveNamed named below, if_pos ancestor, trimEnd_directories aboveNamed]
  exact ⟨below, rfl⟩

/-- A root that leaves a remainder of a path is above it. -/
theorem mem_rootsAbove_of_remainder (below : location ≠ [])
    (member : root ∈ roots.map (Path.normalize cwd))
    (left : remainder? root location.path = some rest) : root ∈ rootsAbove cwd roots path := by
  obtain ⟨above, aboveNamed, rfl⟩ := rooted root member
  rw [remainder_path aboveNamed named below] at left
  split at left
  · rename_i ancestor
    exact mem_rootsAbove.mpr ⟨member, target ▸ ancestor⟩
  · simp at left

/-- A path below no root has no module. A remainder behind a root would put this root above the
path, unless the path is that of the top, where nothing remains. -/
theorem resolveModule_of_none_above (missing : rootsAbove cwd roots path = []) :
    ∃ error, resolveModule cwd roots path = .error error := by
  rw [resolveModule_eq]
  cases found : shortestRemainder? cwd roots path with
  | none => exact ⟨_, rfl⟩
  | some rest =>
    obtain ⟨⟨root, member, left⟩, -⟩ := shortestRemainder?_eq_some_iff.mp found
    rw [target] at left ⊢
    by_cases top : location = []
    · -- At the top itself the slash is all there is to cut off.
      have nothing : rest = [] := by
        rw [remainder_drop left, top, List.length_append]
        exact List.drop_eq_nil_of_le (Nat.le_add_left 1 _)
      rw [nothing]
      exact ⟨_, rfl⟩
    · have listed := mem_rootsAbove_of_remainder named target rooted top member left
      rw [missing] at listed
      exact absurd listed List.not_mem_nil

/-- The text of the longest root above a path is cut off. -/
theorem shortestRemainder?_of_size {size : Nat} (longest : sizeAbove? cwd roots path = some size) :
    shortestRemainder? cwd roots path = some (location.path.drop size) := by
  obtain ⟨attained, bound⟩ := List.max?_eq_some_iff.mp longest
  obtain ⟨root, listed, rfl⟩ := List.mem_map.mp attained
  obtain ⟨below, left⟩ := remainder_of_mem_rootsAbove named target rooted listed
  rw [shortestRemainder?_eq_some_iff, target]
  refine ⟨⟨root, (mem_rootsAbove.mp listed).1, left⟩, fun other member rest otherLeft => ?_⟩
  have otherListed := mem_rootsAbove_of_remainder named target rooted below member otherLeft
  rw [remainder_drop otherLeft]
  exact List.drop_suffix_drop_left _ (bound _ (List.mem_map_of_mem otherListed))

/-- A root above a path is as long as the segments it stands for if it has as many dotted capital
I's. -/
theorem size_of_mem_rootsAbove (listed : root ∈ rootsAbove cwd roots path)
    (dots : Path.dotsAgree root (Path.normalize cwd path) = true) :
    (Path.segments root).length < location.length ∧
      (Text.trimEnd '/' root ++ ['/']).length =
        (Path.directories (location.take (Path.segments root).length)).length := by
  obtain ⟨member, ancestor⟩ := mem_rootsAbove.mp listed
  obtain ⟨above, aboveNamed, rfl⟩ := rooted root member
  rw [target] at ancestor dots
  rw [Path.dotsAgree, segments_path aboveNamed, segments_path named, decide_eq_true_eq] at dots
  obtain ⟨first, shorter⟩ := (isAncestor_iff aboveNamed named).mp ancestor
  rw [segments_path aboveNamed, trimEnd_directories aboveNamed]
  exact ⟨shorter, length_directories first dots⟩

/-- If each root above the path is as long as the segments it stands for, the longest one is the
deepest. The text of the first segments grows with their number, so that depth and length have their
maximum at one root. -/
theorem sizeAbove?_of_depth
    (dots : ∀ root ∈ rootsAbove cwd roots path,
      Path.dotsAgree root (Path.normalize cwd path) = true)
    {depth : Nat} (deepest : depthAbove? cwd roots path = some depth) :
    depth < location.length ∧
      sizeAbove? cwd roots path = some (Path.directories (location.take depth)).length := by
  have sizes (root : Text) (listed : root ∈ rootsAbove cwd roots path) :=
    size_of_mem_rootsAbove named target rooted listed (dots root listed)
  obtain ⟨attained, bound⟩ := List.max?_eq_some_iff.mp deepest
  obtain ⟨root, listed, rfl⟩ := List.mem_map.mp attained
  obtain ⟨shorter, size⟩ := sizes root listed
  rw [sizeAbove?, List.max?_eq_some_iff, List.forall_mem_map]
  refine ⟨shorter, List.mem_map.mpr ⟨root, listed, size⟩, fun other otherListed => ?_⟩
  rw [(sizes other otherListed).2]
  exact directories_take_mono location (bound _ (List.mem_map_of_mem otherListed))

/-- Then the module is made of the segments behind those of the deepest root. The shortest remainder
is what is left behind the longest root, and that is the joined text of these segments. -/
theorem resolveModule_of_depth
    (dots : ∀ root ∈ rootsAbove cwd roots path,
      Path.dotsAgree root (Path.normalize cwd path) = true)
    {depth : Nat} (deepest : depthAbove? cwd roots path = some depth) :
    resolveModule cwd roots path =
      .ok (ModuleName.ofRelativePath (Text.join ['/'] (location.drop depth))) := by
  obtain ⟨shorter, size⟩ := sizeAbove?_of_depth named target rooted dots deepest
  have more : location.drop depth ≠ [] := by simpa using shorter
  have segments : ∀ name ∈ location.drop depth, isSegment name = true :=
    fun name member => named.isSegment name (List.mem_of_mem_drop member)
  have whole := directories_append (location.take depth) more
  rw [List.take_append_drop] at whole
  have chosen : shortestRemainder? cwd roots path =
      some (Text.join ['/'] (location.drop depth)) := by
    rw [shortestRemainder?_of_size named target rooted size, ← whole, List.drop_left]
  obtain ⟨c, rest, -, first⟩ := Path.exists_join segments more
  rw [resolveModule_eq, chosen]
  simp only [trim_join segments more]
  rw [first]
  rfl

end Resolution

/-- The text of the longest root above a path is cut off, and a path below no root has no module. If
each of these roots has as many dotted capital I's as the segments of the path that it stands for,
the module is made of the segments behind those of the deepest root, and there is none only if no
root is above the path. Lower-case texts are compared name by name, and the remainder is shortest
for the root whose directories have the longest text. -/
theorem resolveModule_deepest {cwd path : Text} {roots : List Text}
    (plain : ∀ given ∈ path :: roots, Path.isOrdinary given = true ∧
      (Path.isAbsolute given = true ∨ ∃ base : Location, base.Named ∧ cwd = base.path)) :
    (rootsAbove cwd roots path = [] → ∃ error, resolveModule cwd roots path = .error error) ∧
    (∀ size, sizeAbove? cwd roots path = some size →
      resolveModule cwd roots path =
        if (Text.trim '/' ((Path.normalize cwd path).drop size)).isEmpty then
          .error (.isRoot (Path.normalize cwd path))
        else .ok (ModuleName.ofRelativePath
          (Text.trim '/' ((Path.normalize cwd path).drop size)))) ∧
    ((∀ root ∈ rootsAbove cwd roots path,
        Path.dotsAgree root (Path.normalize cwd path) = true) →
      (∀ module, resolveModule cwd roots path = .ok module ↔
        ∃ depth, depthAbove? cwd roots path = some depth ∧
          module = ModuleName.ofRelativePath
            (Text.join ['/'] ((Path.segments (Path.normalize cwd path)).drop depth))) ∧
      ((∃ error, resolveModule cwd roots path = .error error) ↔
        rootsAbove cwd roots path = [])) := by
  rw [List.forall_mem_cons] at plain
  obtain ⟨location, named, target⟩ := exists_normalize_from plain.1.1 plain.1.2
  have rooted : ∀ root ∈ roots.map (Path.normalize cwd),
      ∃ above : Location, above.Named ∧ root = above.path := by
    rw [List.forall_mem_map]
    exact fun root member => exists_normalize_from (plain.2 root member).1 (plain.2 root member).2
  have outside := resolveModule_of_none_above named target rooted
  refine ⟨outside, fun size longest => ?_, fun dots => ?_⟩
  · rw [resolveModule_eq, shortestRemainder?_of_size named target rooted longest, target]
  · rw [target, segments_path named]
    cases deepest : depthAbove? cwd roots path with
    | none =>
      have missing : rootsAbove cwd roots path = [] := by
        simpa [depthAbove?] using deepest
      obtain ⟨error, failed⟩ := outside missing
      simp [missing, failed]
    | some depth =>
      have nonempty : rootsAbove cwd roots path ≠ [] := fun nothing => by
        simp [depthAbove?, nothing] at deepest
      rw [resolveModule_of_depth named target rooted dots deepest]
      simp [nonempty, eq_comm]

/-- A root with a small i and a dot behind it is above a path with the dotted capital I, and it is
longer by one. A character of the file's own name is cut off as well, and of a name of one character
nothing is left. -/
theorem dottedRoot_cuts_name :
    (∀ given ∈ ["/i\u0307".toList, "/\u0130/xy.clj".toList, "/\u0130/x".toList],
      Path.isOrdinary given = true ∧ Path.isAbsolute given = true) ∧
    depthAbove? ['/'] ["/i\u0307".toList] "/\u0130/xy.clj".toList = some 1 ∧
    ModuleName.ofRelativePath (Text.join ['/']
      ((Path.segments (Path.normalize ['/'] "/\u0130/xy.clj".toList)).drop 1)) = "xy".toList ∧
    resolveModule ['/'] ["/i\u0307".toList] "/\u0130/xy.clj".toList = .ok "y".toList ∧
    rootsAbove ['/'] ["/i\u0307".toList] "/\u0130/x".toList ≠ [] ∧
    resolveModule ['/'] ["/i\u0307".toList] "/\u0130/x".toList =
      .error (.isRoot "/\u0130/x".toList) := by
  decide +kernel

/-- Three roots above a path, with the dotted capital I in two of them and in the path. The deepest
is written in another case than the path. -/
theorem resolveModule_deepest_nested :
    (rootsAbove ['/'] ["/\u0130".toList, "/\u0130/A".toList, "/".toList]
        "/\u0130/a/b_c/d.clj".toList ≠ []) ∧
      resolveModule ['/'] ["/\u0130".toList, "/\u0130/A".toList, "/".toList]
        "/\u0130/a/b_c/d.clj".toList = .ok "b-c.d".toList ∧
      ∃ error, resolveModule ['/'] ["/\u0130".toList] "/\u0130".toList = .error error := by
  have plain : ∀ given ∈ ["/\u0130/a/b_c/d.clj".toList, "/\u0130".toList, "/\u0130/A".toList,
      "/".toList], Path.isOrdinary given = true ∧ Path.isAbsolute given = true := by
    decide +kernel
  obtain ⟨-, -, deepest⟩ := @resolveModule_deepest ['/'] "/\u0130/a/b_c/d.clj".toList
    ["/\u0130".toList, "/\u0130/A".toList, "/".toList]
    fun given member => ⟨(plain given member).1, .inl (plain given member).2⟩
  obtain ⟨outside, -, -⟩ := @resolveModule_deepest ['/'] "/\u0130".toList ["/\u0130".toList]
    fun given member => ⟨(plain given (by revert given; decide +kernel)).1,
      .inl (plain given (by revert given; decide +kernel)).2⟩
  exact ⟨by decide +kernel, ((deepest (by decide +kernel)).1 _).mpr
    ⟨2, by decide +kernel, by decide +kernel⟩, outside (by decide +kernel)⟩

end Relocate
