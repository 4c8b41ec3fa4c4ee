import Relocate.Proofs.Disk.NormalPaths
import Relocate.Proofs.RootLists
import Relocate.Proofs.SourceNames

/-!
# Module names and the paths of their files

A module has one path below a source root, and the path gives its name back, as long as no other
root contains the path. The other way round, a path below a root gives a name, and the name has this
path again: `modulePath_resolveModule`.

Paths are compared as texts after they have been normalized, and normalizing turns backslashes into
slashes at its end. A root that was given with backslashes may come out with segments that would
have been taken away. Such a root still gives names and paths that belong together, but its paths
are not those that its own text begins.
-/
namespace Relocate

namespace Text

/-- A replacement is undone if its character was not there. -/
theorem map_replaceChar_back {old new : Char} {texts : List Text}
    (clean : ∀ text ∈ texts, new ∉ text) :
    (texts.map (replaceChar old new)).map (replaceChar new old) = texts := by
  rw [List.map_map]
  refine (List.map_congr_left fun text member => ?_).trans (List.map_id texts)
  rw [Function.comp_apply, replaceChar, replaceChar, List.map_map]
  refine (List.map_congr_left fun c inside => ?_).trans (List.map_id text)
  have other : c ≠ new := fun equal => clean text member (equal ▸ inside)
  by_cases same : c = old <;> simp [same, other]

/-- What stands behind joined pieces belongs to the last one. -/
theorem join_concat_append (separator : Text) (above : List Text) (last more : Text) :
    join separator (above ++ [last]) ++ more = join separator (above ++ [last ++ more]) := by
  cases above with
  | nil => rfl
  | cons first others => simp [join_cons]

/-- The first character that is another one. -/
theorem exists_first_other {c : Char} {text : Text} (other : ¬ ∀ d ∈ text, d = c) :
    ∃ first d rest, text = first ++ d :: rest ∧ (∀ e ∈ first, e = c) ∧ d ≠ c := by
  induction text with
  | nil => exact absurd (fun _ missing => nomatch missing) other
  | cons d rest inductionHypothesis =>
    by_cases same : d = c
    · have later : ¬ ∀ e ∈ rest, e = c := fun all => other (by simpa [same] using all)
      obtain ⟨first, e, last, rfl, all, different⟩ := inductionHypothesis later
      exact ⟨d :: first, e, last, rfl, by simpa [same] using all, different⟩
    · exact ⟨[], d, rest, rfl, by simp, same⟩

/-- What consists of the character is trimmed off the start. -/
theorem trimStart_append {c : Char} {first : Text} (all : ∀ d ∈ first, d = c) (last : Text) :
    trimStart c (first ++ last) = trimStart c last :=
  List.dropWhile_append_of_pos fun d member => by simpa using all d member

end Text

/-- The text may be the stem of a file name or the name of a directory above it. -/
def Path.isStem (stem : Text) : Bool :=
  isSegment stem && !stem.contains '.' && !stem.contains '\\'

/-- A stem is a segment without dots and backslashes. -/
theorem isStem_iff {stem : Text} :
    Path.isStem stem = true ↔ isSegment stem = true ∧ '.' ∉ stem ∧ '\\' ∉ stem := by
  simp [Path.isStem, and_assoc]

/-- The text may be the extension of a file name: it is empty, or a dot is in front of it and
nowhere else. -/
def Path.isExtension : Text → Bool
  | [] => true
  | c :: rest => c = '.' && !rest.contains '.' && !rest.contains '/' && !rest.contains '\\'

/-- An extension is empty, or starts with its only dot and has no slash or backslash. -/
theorem isExtension_iff {extension : Text} :
    Path.isExtension extension = true ↔ extension = [] ∨
      ∃ suffix, extension = '.' :: suffix ∧ '.' ∉ suffix ∧ '/' ∉ suffix ∧ '\\' ∉ suffix := by
  cases extension with
  | nil => simp [Path.isExtension]
  | cons c rest =>
    simp only [Path.isExtension, Bool.and_eq_true, decide_eq_true_eq, Bool.not_eq_true',
      List.contains_eq_mem, decide_eq_false_iff_not, reduceCtorEq, List.cons.injEq, false_or]
    constructor
    · rintro ⟨⟨⟨rfl, dot⟩, slash⟩, backslash⟩
      exact ⟨rest, ⟨rfl, rfl⟩, dot, slash, backslash⟩
    · rintro ⟨suffix, ⟨rfl, rfl⟩, dot, slash, backslash⟩
      exact ⟨⟨⟨rfl, dot⟩, slash⟩, backslash⟩

/-- The segments of a module name from which a path can be made and read back. -/
def ModuleName.isPlain (module : Text) : Bool :=
  (Text.split '.' module).all fun segment =>
    isSegment segment && !segment.contains '_' && !segment.contains '\\'

/-- A plain module name consists of segments without underscores and backslashes. -/
theorem isPlain_iff {module : Text} :
    ModuleName.isPlain module = true ↔ ∀ segment ∈ Text.split '.' module,
      isSegment segment = true ∧ '_' ∉ segment ∧ '\\' ∉ segment := by
  simp [ModuleName.isPlain, and_assoc]

section Relative

variable {above stems : List Text} {last extension : Text}

/-- Without its extension a path has the stem for its last segment. A stem has no dot, so that the
extension starts with the last dot of the path, or there is none. -/
theorem dropExtension_join (stem : Path.isStem last = true)
    (valid : Path.isExtension extension = true) :
    Path.dropExtension (Text.join ['/'] (above ++ [last ++ extension])) =
      Text.join ['/'] (above ++ [last]) := by
  obtain ⟨segment, noDot, -⟩ := isStem_iff.mp stem
  obtain ⟨nonempty, noSlash⟩ := isSegment_iff.mp segment
  have cut : Path.extension (Text.join ['/'] (above ++ [last ++ extension])) = extension := by
    obtain rfl | ⟨suffix, rfl, suffixDot, suffixSlash, -⟩ := isExtension_iff.mp valid
    · rw [List.append_nil, Path.extension, Disk.baseName_join _ noSlash,
        Text.splitLast?_eq_none_iff.mpr noDot]
    · have clean : '/' ∉ last ++ '.' :: suffix := by simp [noSlash, suffixSlash]
      have notDots : last.all (fun c => decide (c = '.')) = false := by
        obtain ⟨c, rest, rfl⟩ := List.exists_cons_of_ne_nil nonempty
        rw [List.mem_cons, not_or] at noDot
        simp [Ne.symm noDot.1]
      rw [Path.extension, Disk.baseName_join _ clean, Text.splitLast?_append last suffixDot]
      simp only [notDots, Bool.false_eq_true, if_false]
  rw [Path.dropExtension, cut, ← Text.join_concat_append]
  simp

/-- All segments of the path are names. A stem has no dot and is not empty, so that it is not one of
the two segments of dots. -/
theorem named_extended (plain : ∀ stem ∈ above ++ [last], Path.isStem stem = true)
    (valid : Path.isExtension extension = true) :
    Location.Named (above ++ [last ++ extension]) := by
  intro name member
  obtain inside | here := List.mem_append.mp member
  · obtain ⟨segment, noDot, noBackslash⟩ :=
      isStem_iff.mp (plain name (List.mem_append_left _ inside))
    refine isName_iff.mpr ⟨segment, ?_, ?_, noBackslash⟩
    · rintro rfl
      simp at noDot
    · rintro rfl
      simp at noDot
  · obtain rfl := List.mem_singleton.mp here
    obtain ⟨segment, noDot, noBackslash⟩ := isStem_iff.mp (plain last (by simp))
    obtain ⟨nonempty, noSlash⟩ := isSegment_iff.mp segment
    obtain ⟨c, rest, rfl⟩ := List.exists_cons_of_ne_nil nonempty
    have notDot : c ≠ '.' := by
      rintro rfl
      simp at noDot
    have clean : '/' ∉ extension ∧ '\\' ∉ extension := by
      obtain rfl | ⟨suffix, rfl, -, slash, backslash⟩ := isExtension_iff.mp valid
      · simp
      · simp [slash, backslash]
    refine isName_iff.mpr ⟨isSegment_iff.mpr ⟨by simp, ?_⟩, ?_, ?_, ?_⟩
    · simp only [List.mem_append, not_or]
      exact ⟨noSlash, clean.1⟩
    · simp [notDot]
    · simp [notDot]
    · simp only [List.mem_append, not_or]
      exact ⟨noBackslash, clean.2⟩

/-- A path with an extension is one of joined names, too. -/
theorem exists_extended (nonempty : stems ≠ []) (plain : ∀ stem ∈ stems, Path.isStem stem = true)
    (valid : Path.isExtension extension = true) :
    ∃ names : Location, names.Named ∧ names ≠ [] ∧
      Text.join ['/'] stems ++ extension = Text.join ['/'] names := by
  obtain ⟨above, last, rfl⟩ : ∃ above last, stems = above ++ [last] :=
    ⟨_, _, (List.dropLast_concat_getLast nonempty).symm⟩
  exact ⟨_, named_extended plain valid, by simp, Text.join_concat_append _ _ _ _⟩

/-- Joined names are not shortened by dropping slashes at their ends. -/
theorem trim_join {names : List Text} (plain : ∀ name ∈ names, isSegment name = true)
    (nonempty : names ≠ []) : Text.trim '/' (Text.join ['/'] names) = Text.join ['/'] names := by
  obtain ⟨c, rest, other, same⟩ := Path.exists_join plain nonempty
  obtain ⟨start, d, otherLast, sameLast⟩ := Path.exists_join_concat plain nonempty
  have front : Text.trimStart '/' (Text.join ['/'] names) = Text.join ['/'] names := by
    rw [same, Text.trimStart, List.dropWhile_cons_of_neg (by simpa using other)]
  rw [Text.trim, front, sameLast, Text.trimEnd_of_last otherLast]

/-- The name of the module whose file has the path, which a stem below its directories gives. The
extension is dropped, and of what is left slashes become dots and underscores hyphens, segment by
segment. -/
theorem ofRelativePath_join (nonempty : stems ≠ [])
    (plain : ∀ stem ∈ stems, Path.isStem stem = true)
    (valid : Path.isExtension extension = true) :
    ModuleName.ofRelativePath (Text.join ['/'] stems ++ extension) =
      Text.join ['.'] (stems.map (Text.replaceChar '_' '-')) := by
  obtain ⟨above, last, rfl⟩ : ∃ above last, stems = above ++ [last] :=
    ⟨_, _, (List.dropLast_concat_getLast nonempty).symm⟩
  have named := named_extended plain valid
  have clean := not_mem_path named
  rw [Location.path, List.mem_cons, not_or] at clean
  rw [ModuleName.ofRelativePath, Text.join_concat_append, Text.replaceChar_of_not_mem clean.2,
    trim_join named.isSegment (by simp), dropExtension_join (plain last (by simp)) valid,
    Text.replaceChar_join, Text.replaceChar_join, List.map_map]
  congr 1
  apply List.map_congr_left
  intro stem member
  have noSlash := (isSegment_iff.mp (isStem_iff.mp (plain stem member)).1).2
  simp [noSlash]

/-- The relative path of a module has its segments with underscores for hyphens. -/
theorem toRelativePath_join {segments : List Text} (clean : ∀ segment ∈ segments, '.' ∉ segment)
    (extension : Text) :
    ModuleName.toRelativePath (Text.join ['.'] segments) extension =
      Text.join ['/'] (segments.map (Text.replaceChar '-' '_')) ++ extension := by
  rw [ModuleName.toRelativePath, Text.replaceChar_join, Text.replaceChar_join, List.map_map]
  congr 2
  apply List.map_congr_left
  intro segment member
  rw [Function.comp_apply, Text.replaceChar_of_not_mem]
  exact Text.not_mem_replaceChar_of_not_mem (by decide) (clean segment member)

end Relative

section Normalizing

variable {cwd root : Text} {names : Location}

/-- The slashes in front that count are settled by all slashes in front. By cases on their number:
none, one, two or more. -/
theorem root_slashes {slashes : Text} (all : ∀ c ∈ slashes, c = '/') {c : Char} (other : c ≠ '/')
    (first second : Text) :
    Path.root (slashes ++ c :: first) = Path.root (slashes ++ c :: second) := by
  have head (rest : Text) : (c :: rest).head? ≠ some '/' := fun same => other (Option.some.inj same)
  match slashes, all with
  | [], _ =>
    have relative (rest : Text) : ¬ Path.isAbsolute (c :: rest) = true := fun absolute => by
      obtain ⟨_, same⟩ := Path.isAbsolute_iff.mp absolute
      exact other (List.cons.inj same).1
    simp [relative]
  | [a], all =>
    obtain rfl := all a (by simp)
    exact (root_single (head first)).trans (root_single (head second)).symm
  | [a, b], all =>
    obtain rfl := all a (by simp)
    obtain rfl := all b (by simp)
    exact (root_double (head first)).trans (root_double (head second)).symm
  | a :: b :: d :: _, all =>
    obtain rfl := all a (by simp)
    obtain rfl := all b (by simp)
    obtain rfl := all d (by simp)
    rfl

/-- Slashes only lead to the top. -/
theorem destination_slashes (slashes : ∀ c ∈ root, c = '/') : Path.destination root = [] := by
  rw [Path.destination, ← Disk.steps_trimEnd, Text.trimEnd_of_all slashes]
  rfl

/-- Names behind a path lead down from where it leads. -/
theorem destination_below (root : Text) (named : names.Named) :
    Path.destination (Text.trimEnd '/' root ++ '/' :: Text.join ['/'] names) =
      Path.destination root ++ names := by
  have start : (Place.ofLocation []).after (Disk.steps root) =
      .ofLocation (Path.destination root) :=
    congrArg (Place.mk _) (Place.removed_after rfl (Disk.steps root))
  rw [Path.destination, Disk.steps_append, Disk.steps_trimEnd, Disk.steps_join named.isSegment,
    Place.after, List.foldl_append, ← Place.after, ← Place.after, start,
    Place.after_names named.plain]
  rfl

/-- A path that goes on from an absolute one is absolute. -/
theorem isAbsolute_below (absolute : Path.isAbsolute root = true) (rest : Text) :
    Path.isAbsolute (Text.trimEnd '/' root ++ '/' :: rest) = true := by
  obtain ⟨slashes, whole⟩ := Disk.exists_trimEnd '/' root
  obtain ⟨others, slash⟩ := Path.isAbsolute_iff.mp absolute
  cases start : Text.trimEnd '/' root with
  | nil => rfl
  | cons c kept =>
    rw [start, slash] at whole
    obtain rfl : c = '/' := (List.cons.inj whole).1
    rfl

/-- Names below a path without backslashes bring none into it. -/
theorem clean_below (clean : '\\' ∉ root) (named : names.Named) :
    '\\' ∉ Text.trimEnd '/' root ++ '/' :: Text.join ['/'] names := by
  obtain ⟨slashes, whole⟩ := Disk.exists_trimEnd '/' root
  rw [List.mem_append, not_or]
  exact ⟨fun held => clean (whole ▸ List.mem_append_left _ held), not_mem_path named⟩

/-- Names behind a root of slashes only are behind one slash. -/
theorem root_below_slashes (slashes : ∀ c ∈ root, c = '/') (named : names.Named) :
    Path.root (Text.trimEnd '/' root ++ '/' :: Text.join ['/'] names) = ['/'] := by
  have single := root_path named [] fun _ => by simp
  rw [List.append_nil, Location.path] at single
  rw [Text.trimEnd_of_all slashes, List.nil_append, single]

/-- Names behind any other root leave the slashes in front of it. -/
theorem root_below (other : ¬ ∀ c ∈ root, c = '/') :
    Path.root (Text.trimEnd '/' root ++ '/' :: Text.join ['/'] names) = Path.root root := by
  obtain ⟨slashes, c, rest, rfl, all, notSlash⟩ := Text.exists_first_other other
  rw [Text.trimEnd_append notSlash, List.append_assoc, List.cons_append]
  exact root_slashes all notSlash _ _

/-- A path below a root is normalized to one below the normalized root. A slash more may be left in
front of it if the root leads to the top. -/
theorem normalize_below (cwd : Text) (absolute : Path.isAbsolute root = true) (clean : '\\' ∉ root)
    (named : names.Named) (nonempty : names ≠ []) :
    ∃ slashes : Text, (∀ c ∈ slashes, c = '/') ∧
      Path.normalize cwd (Text.trimEnd '/' root ++ '/' :: Text.join ['/'] names) =
        Text.trimEnd '/' (Path.normalize cwd root) ++ '/' ::
          (slashes ++ Text.join ['/'] names) := by
  obtain ⟨rootNamed, normal⟩ := normalize_absolute cwd absolute clean
  obtain ⟨-, below⟩ := normalize_absolute cwd (isAbsolute_below absolute _)
    (clean_below clean named)
  rw [destination_below root named] at below
  have rooted := Path.root_absolute absolute
  by_cases top : Path.destination root = []
  · have noName : Text.trimEnd '/' (Path.root root) = [] := by
      obtain one | two := rooted
      · rw [one]; rfl
      · rw [two]; rfl
    rw [top, List.nil_append] at below
    rw [below, normal, top, Text.join, List.append_nil, noName]
    by_cases onlySlashes : ∀ c ∈ root, c = '/'
    · exact ⟨[], by simp, by rw [root_below_slashes onlySlashes named]; rfl⟩
    · rw [root_below onlySlashes]
      obtain one | two := rooted
      · exact ⟨[], by simp, by rw [one]; rfl⟩
      · exact ⟨['/'], by simp, by rw [two]; rfl⟩
  · have notSlashes : ¬ ∀ c ∈ root, c = '/' := fun all => top (destination_slashes all)
    obtain ⟨start, d, other, last⟩ := Path.exists_join_concat rootNamed.isSegment top
    refine ⟨[], by simp, ?_⟩
    rw [below, root_below notSlashes, normal, Text.join_append _ top nonempty, last,
      ← List.append_assoc _ start, Text.trimEnd_of_last other]
    simp

end Normalizing

/-- The root is a directory above the path, without regard to case. -/
def Path.isAbove (root path : Text) : Bool :=
  Text.startsWith (Text.lower (Text.trimEnd '/' root ++ ['/'])) (Text.lower path)

/-- No other root is above the path. -/
def isOnlyRoot (cwd : Text) (roots : List Text) (root path : Text) : Bool :=
  roots.all fun other =>
    other = root || !Path.isAbove (Path.normalize cwd other) (Path.normalize cwd path)

/-- A root is the only one above a path if no other root of the list is above it. -/
theorem isOnlyRoot_iff {cwd root path : Text} {roots : List Text} :
    isOnlyRoot cwd roots root path = true ↔ ∀ other ∈ roots, other ≠ root →
      Path.isAbove (Path.normalize cwd other) (Path.normalize cwd path) = false := by
  simp [isOnlyRoot, or_iff_not_imp_left]

section Resolving

variable {cwd root base extension : Text} {roots stems : List Text}

/-- Below a root, the remainder of a path is what follows the root and its slash. -/
theorem remainder_below (root rest : Text) :
    remainder? root (Text.trimEnd '/' root ++ '/' :: rest) = some rest := by
  have above : Text.startsWith (Text.lower (Text.trimEnd '/' root ++ ['/']))
      (Text.lower (Text.trimEnd '/' root ++ '/' :: rest)) = true := by
    rw [Text.lower_append_slash _ rest, Text.startsWith, List.isPrefixOf_iff_prefix]
    exact List.prefix_append _ _
  rw [remainder?, if_pos above, List.append_cons _ _ rest, List.drop_left]

/-- A path that does not lie below a root has no remainder. -/
theorem remainder_none {path : Text} (other : Path.isAbove root path = false) :
    remainder? root path = none := by
  rw [Path.isAbove] at other
  simp [remainder?, other]

/-- Of texts that are all the same the shortest is this text. -/
theorem shortest_replicate {text : Text} {texts : List Text} (nonempty : texts ≠ [])
    (same : ∀ other ∈ texts, other = text) : shortest? texts = some text := by
  cases chosen : shortest? texts with
  | none => exact absurd (shortest?_eq_none_iff.mp chosen) nonempty
  | some first => rw [same first (shortest?_least chosen).1]

/-- The only root above a path settles its module: the names behind the root. The path may begin
with any text that is normalized as the root is. -/
theorem resolveModule_below (member : root ∈ roots)
    (same : Path.normalize cwd base = Path.normalize cwd root)
    (absolute : Path.isAbsolute base = true) (clean : '\\' ∉ base)
    (nonempty : stems ≠ []) (plain : ∀ stem ∈ stems, Path.isStem stem = true)
    (valid : Path.isExtension extension = true) {path : Text}
    (below : path = Text.trimEnd '/' base ++ '/' :: (Text.join ['/'] stems ++ extension))
    (only : isOnlyRoot cwd roots root path = true) :
    resolveModule cwd roots path =
      .ok (Text.join ['.'] (stems.map (Text.replaceChar '_' '-'))) := by
  obtain ⟨names, named, notEmpty, joined⟩ := exists_extended nonempty plain valid
  obtain ⟨slashes, all, target⟩ := normalize_below cwd absolute clean named notEmpty
  rw [← joined, ← below, same] at target
  have remainders : ∀ rest ∈ roots.filterMap fun root =>
      remainder? (Path.normalize cwd root) (Path.normalize cwd path),
      rest = slashes ++ (Text.join ['/'] stems ++ extension) := by
    intro rest listed
    obtain ⟨other, inside, found⟩ := List.mem_filterMap.mp listed
    by_cases own : other = root
    · rw [own, target, remainder_below] at found
      exact (Option.some.inj found).symm
    · rw [remainder_none (isOnlyRoot_iff.mp only other inside own)] at found
      exact absurd found (Option.some_ne_none rest).symm
  have found : (roots.filterMap fun root =>
      remainder? (Path.normalize cwd root) (Path.normalize cwd path)) ≠ [] :=
    List.ne_nil_of_mem (List.mem_filterMap.mpr ⟨root, member, by rw [target, remainder_below]⟩)
  have trimmed : Text.trim '/' (slashes ++ (Text.join ['/'] stems ++ extension)) =
      Text.join ['/'] stems ++ extension := by
    rw [Text.trim, Text.trimStart_append all, ← Text.trim, joined,
      trim_join named.isSegment notEmpty]
  have notNil : (Text.join ['/'] stems ++ extension).isEmpty = false := by
    obtain ⟨c, rest, -, first⟩ := Path.exists_join named.isSegment notEmpty
    rw [joined, first]
    rfl
  simp only [resolveModule, shortest_replicate found remainders, trimmed, notNil,
    Bool.false_eq_true, if_false, ofRelativePath_join nonempty plain valid]

/-- A segment of a module name becomes a stem. -/
theorem isStem_of_segment {segment : Text} (segmentPlain : isSegment segment = true)
    (noDot : '.' ∉ segment) (noBackslash : '\\' ∉ segment) :
    Path.isStem (Text.replaceChar '-' '_' segment) = true := by
  obtain ⟨nonempty, noSlash⟩ := isSegment_iff.mp segmentPlain
  have kept {c : Char} (other : c ≠ '_') (clean : c ∉ segment) :
      c ∉ Text.replaceChar '-' '_' segment := Text.not_mem_replaceChar_of_not_mem other clean
  refine isStem_iff.mpr ⟨isSegment_iff.mpr ⟨?_, kept (by decide) noSlash⟩,
    kept (by decide) noDot, kept (by decide) noBackslash⟩
  simpa [Text.replaceChar] using nonempty

/-- Where a root is given, the path of a module is the root's with the relative path behind it. -/
theorem modulePath_some (cwd : Text) (roots : List Text) (module given extension : Text) :
    modulePath cwd roots module (some given) extension =
      .ok (Text.trimEnd '/' (Path.normalize cwd given) ++ '/' ::
        ModuleName.toRelativePath module extension) := rfl

/-- The path that a module has below a root gives the module back if no other root is above it, and
a path below a root gives a module whose path is below the normalized root. That is the path itself
exactly if the root's text, up to slashes at its end, is a normalized one. Both ways go through the
segments: those of the module name are the names below the root, with hyphens for underscores, and
normalizing leaves such names as they are. -/
theorem modulePath_resolveModule {start root extension : Text} {roots : List Text} (cwd : Text)
    (absolute : Path.isAbsolute start = true)
    (listed : ∀ root ∈ roots, ∃ path, Path.normalize start path = root) (member : root ∈ roots)
    (valid : Path.isExtension extension = true) :
    (∀ given module, given = root ∨ Path.normalize cwd given = root →
      ModuleName.isPlain module = true →
      ∃ path, modulePath cwd roots module (some given) extension = .ok path ∧
        (isOnlyRoot cwd roots root path = true → resolveModule cwd roots path = .ok module)) ∧
    ∀ (stems : List Text) path, stems ≠ [] →
      (∀ stem ∈ stems, Path.isStem stem = true ∧ '-' ∉ stem) →
      path = Text.trimEnd '/' root ++ '/' :: (Text.join ['/'] stems ++ extension) →
      isOnlyRoot cwd roots root path = true →
      ∃ module, resolveModule cwd roots path = .ok module ∧
        modulePath cwd roots module (some root) extension =
          .ok (Text.trimEnd '/' (Path.normalize cwd root) ++ '/' ::
            (Text.join ['/'] stems ++ extension)) ∧
        (modulePath cwd roots module (some root) extension = .ok path ↔
          Text.trimEnd '/' (Path.normalize cwd root) = Text.trimEnd '/' root) := by
  obtain ⟨rootAbsolute, clean⟩ : Path.isAbsolute root = true ∧ '\\' ∉ root := by
    obtain ⟨path, rfl⟩ := listed root member
    exact ⟨Path.isAbsolute_normalize absolute path, Text.not_mem_replaceChar (by decide) _⟩
  constructor
  · intro given module same plain
    have segments := isPlain_iff.mp plain
    have noDot : ∀ segment ∈ Text.split '.' module, '.' ∉ segment :=
      fun _ inside => Text.not_mem_of_mem_split inside
    have stem : ∀ stem ∈ (Text.split '.' module).map (Text.replaceChar '-' '_'),
        Path.isStem stem = true := by
      intro stem inside
      obtain ⟨segment, origin, rfl⟩ := List.mem_map.mp inside
      exact isStem_of_segment (segments segment origin).1 (noDot segment origin)
        (segments segment origin).2.2
    have relative := toRelativePath_join noDot extension
    rw [Text.join_split] at relative
    have nonempty : (Text.split '.' module).map (Text.replaceChar '-' '_') ≠ [] := by
      simp
    refine ⟨_, modulePath_some cwd roots module given extension, fun only => ?_⟩
    obtain ⟨again, above, slashed⟩ :
        Path.normalize cwd (Path.normalize cwd given) = Path.normalize cwd root ∧
          Path.isAbsolute (Path.normalize cwd given) = true ∧
          '\\' ∉ Path.normalize cwd given := by
      obtain rfl | normal := same
      · exact ⟨normalize_normalize rootAbsolute clean, isAbsolute_normalized rootAbsolute,
          Text.not_mem_replaceChar (by decide) _⟩
      · exact ⟨congrArg _ normal, normal ▸ rootAbsolute, normal ▸ clean⟩
    rw [resolveModule_below member again above slashed nonempty stem valid (by rw [relative]) only,
      Text.map_replaceChar_back fun segment inside => (segments segment inside).2.1,
      Text.join_split]
  · rintro stems path proper plain rfl only
    have stem := fun stem inside => (plain stem inside).1
    refine ⟨_, resolveModule_below member rfl rootAbsolute clean proper stem valid rfl only, ?_⟩
    have noDot : ∀ segment ∈ stems.map (Text.replaceChar '_' '-'), '.' ∉ segment := by
      intro segment inside
      obtain ⟨stem, origin, rfl⟩ := List.mem_map.mp inside
      exact Text.not_mem_replaceChar_of_not_mem (by decide)
        (isStem_iff.mp (plain stem origin).1).2.1
    rw [modulePath_some, toRelativePath_join noDot,
      Text.map_replaceChar_back fun stem inside => (plain stem inside).2]
    exact ⟨rfl, by rw [Except.ok.injEq, List.append_left_inj]⟩

/-- A root given with two backslashes comes out with two slashes. A path below it gives a module
whose path is another text. -/
theorem backslashedRoot_path :
    Path.normalize ['/'] "/a\\\\b".toList = "/a//b".toList ∧
      resolveModule ['/'] ["/a//b".toList] "/a//b/x.clj".toList = .ok ['x'] ∧
      modulePath ['/'] ["/a//b".toList] ['x'] (some "/a//b".toList) ".clj".toList =
        .ok "/a/b/x.clj".toList := by
  decide +kernel

/-- Below the outer one of two roots, a name with a hyphen and a path with an underscore. -/
theorem modulePath_resolveModule_nested :
    modulePath ['/'] ["/R/in".toList, "/R".toList] "b-c.e".toList (some "/R".toList)
        ".clj".toList = .ok "/R/b_c/e.clj".toList ∧
      resolveModule ['/'] ["/R/in".toList, "/R".toList] "/R/b_c/e.clj".toList =
        .ok "b-c.e".toList ∧
      ∃ module, resolveModule ['/'] ["/R/in".toList, "/R".toList] "/R/b_c/e.clj".toList =
          .ok module ∧
        modulePath ['/'] ["/R/in".toList, "/R".toList] module (some "/R".toList) ".clj".toList =
          .ok "/R/b_c/e.clj".toList := by
  have path : modulePath ['/'] ["/R/in".toList, "/R".toList] "b-c.e".toList (some "/R".toList)
      ".clj".toList = .ok "/R/b_c/e.clj".toList := by decide +kernel
  have listed : ∀ root ∈ ["/R/in".toList, "/R".toList], ∃ path, Path.normalize ['/'] path = root :=
    fun root member => ⟨root, by revert root; decide +kernel⟩
  obtain ⟨named, placed⟩ := @modulePath_resolveModule ['/'] "/R".toList ".clj".toList
    ["/R/in".toList, "/R".toList] ['/'] rfl listed (by decide +kernel) (by decide +kernel)
  obtain ⟨made, same, resolved⟩ := named "/R".toList "b-c.e".toList (.inl rfl) (by decide +kernel)
  obtain rfl := Except.ok.inj (path.symm.trans same)
  obtain ⟨module, found, -, back⟩ := placed ["b_c".toList, "e".toList] "/R/b_c/e.clj".toList
    (by simp) (by decide +kernel) (by decide +kernel) (by decide +kernel)
  exact ⟨path, resolved (by decide +kernel), module, found, back.mpr (by decide +kernel)⟩

end Resolving

end Relocate
