import Relocate.Disk.Operations
import Relocate.Proofs.Disk.Lookup
import Relocate.Proofs.Disk.Paths

/-!
# The paths of locations

Where no backslash and no second slash in front is in play, every normalized path is the path of a
location, and that location is where it leads. Two such paths lead to one place only if they are the
same. Without this, files could be known by several normalized paths.
-/
namespace Relocate

/-- The text names something in a directory, whether or not backslashes become slashes. -/
def isName (name : Text) : Bool :=
  isSegment name && name ≠ ['.'] && name ≠ ['.', '.'] && !name.contains '\\'

/-- A name is a segment that is neither of the two special ones and has no backslash. -/
theorem isName_iff {name : Text} :
    isName name = true ↔
      isSegment name = true ∧ name ≠ ['.'] ∧ name ≠ ['.', '.'] ∧ '\\' ∉ name := by
  simp [isName, and_assoc]

/-- All parts of the location are names. -/
def Location.Named (location : Location) : Prop := ∀ name ∈ location, isName name = true

instance (location : Location) : Decidable location.Named :=
  inferInstanceAs (Decidable (∀ name ∈ location, isName name = true))

/-- The path holds no backslash and does not start with two slashes. -/
def Path.isOrdinary (path : Text) : Bool :=
  !path.contains '\\' && !Text.startsWith ['/', '/'] path

/-- An ordinary path has no backslash and does not start with two slashes. -/
theorem isOrdinary_iff {path : Text} :
    Path.isOrdinary path = true ↔ '\\' ∉ path ∧ Text.startsWith ['/', '/'] path = false := by
  simp [Path.isOrdinary]

section

variable {location root below : Location} {path : Text}

/-- The names of a location can stand between the slashes of a path. -/
theorem Location.Named.isSegment (named : location.Named) :
    ∀ name ∈ location, Relocate.isSegment name = true :=
  fun name member => (isName_iff.mp (named name member)).1

/-- No name of a location means the directory itself or the one above it. -/
theorem Location.Named.plain (named : location.Named) :
    ∀ name ∈ location, name ≠ ['.'] ∧ name ≠ ['.', '.'] :=
  fun name member => ⟨(isName_iff.mp (named name member)).2.1,
    (isName_iff.mp (named name member)).2.2.1⟩

/-- What lies above a location of names has names. -/
theorem Location.Named.above (named : location.Named) (above : root <+: location) : root.Named :=
  fun name member => named name (above.subset member)

/-- Names below a location of names make up a location of names. -/
theorem Location.Named.append (above : root.Named) (named : below.Named) :
    Location.Named (root ++ below) :=
  fun name member => (List.mem_append.mp member).elim (above name) (named name)

/-- The path of a location starts at the top. -/
@[simp] theorem isAbsolute_path (location : Location) : Path.isAbsolute location.path = true := rfl

/-- The steps of the path of a location are the location. -/
@[simp] theorem steps_path (named : location.Named) : Disk.steps location.path = location := by
  simp [Location.path, Disk.steps_join named.isSegment]

/-- Different locations have different paths. -/
theorem path_inj {other : Location} (named : location.Named) (otherNamed : other.Named)
    (same : location.path = other.path) : location = other := by
  rw [← steps_path named, same, steps_path otherNamed]

/-- The path of a location leads to it. -/
@[simp] theorem destination_path (named : location.Named) :
    Path.destination location.path = location := by
  rw [Path.destination, steps_path named, Place.after_names named.plain]
  rfl

/-- The path of a location leads to it from any current directory. -/
@[simp] theorem Location.Named.destination (named : location.Named) (disk : Disk) :
    disk.destination location.path = location := by
  simp [Disk.destination_absolute _ (isAbsolute_path location), named]

/-- The path of a location below the top asks for no directory. -/
@[simp] theorem wantsDirectory_path (named : location.Named) (below : location ≠ []) :
    Disk.wantsDirectory location.path = false := by
  obtain ⟨start, c, other, text⟩ := Path.exists_join_concat named.isSegment below
  simp [Disk.wantsDirectory, Text.endsWith, Location.path, text, List.isPrefixOf, other.symm]

/-- The path of a location below the top leads there name by name, without a detour and without a
slash at its end. -/
@[simp] theorem isDirect_path (named : location.Named) (below : location ≠ []) :
    Path.isDirect location.path = true := by
  refine isDirect_iff.mpr ⟨rfl, ?_, ?_, wantsDirectory_path named below⟩
  · rwa [steps_path named]
  · simpa [named] using named.plain

/-- The file that is found at the path of a location is there. -/
theorem fileAt_of_find {disk : Disk} (named : location.Named) {place : Place} {content : Content}
    (found : disk.find location.path = .ok (place, .file content)) :
    disk.tree.fileAt location = some content := by
  have file := (Disk.find_destination found).2
  rwa [named.destination] at file

/-- Whatever is at a location is found by its path, if that can be followed by its text. Everything
above what is there is a directory, so that its names can be followed one by one. -/
theorem find_of_get? {disk : Disk} (named : location.Named)
    (null : Path.holdsNull location.path = false) (fits : Utf8.size location.path ≤ longestPath)
    (short : ∀ name ∈ location, Utf8.size name ≤ longestName) {node : Node}
    (found : disk.tree.get? location = some node) :
    disk.find location.path = .ok (.ofLocation location, node) := by
  have reached : disk.locate location.path = .ok (.ofLocation location) := by
    refine Disk.followFrom_ok_iff.mpr ⟨null, fits, by simp [Location.path], ?_⟩
    simpa [named]
      using @Disk.follow_names disk location named.plain short [] node found
  have here : disk.nodeAt (.ofLocation location) = some node := found
  cases node with
  | directory => exact Disk.find_directory_iff.mpr ⟨reached, here⟩
  | file content =>
    refine Disk.find_file_iff.mpr ⟨reached, here, wantsDirectory_path named ?_⟩
    rintro rfl
    simp at found

/-- Whatever is at a location is found by its path, if the path could be followed on any disk. -/
theorem find_path {disk other : Disk} (named : location.Named) {place : Place}
    (located : other.locate location.path = .ok place) {node : Node}
    (found : disk.tree.get? location = some node) :
    disk.find location.path = .ok (.ofLocation location, node) := by
  obtain ⟨null, fits, -, followed⟩ := Disk.followFrom_ok_iff.mp located
  rw [steps_path named, if_pos (isAbsolute_path location)] at followed
  exact find_of_get? named null fits (Disk.short_of_follow followed) found

/-- A name of the place that segments lead to was there before or is one of the segments. By
induction on the segments: a step adds its own name, drops the last one or does nothing. -/
theorem mem_location_after {place : Place} {segments : List Text} {name : Text}
    (member : name ∈ (place.after segments).location) :
    name ∈ place.location ∨ name ∈ segments ∧ name ≠ ['.'] ∧ name ≠ ['.', '.'] := by
  induction segments generalizing place with
  | nil => exact .inl member
  | cons segment segments inductionHypothesis =>
    obtain earlier | ⟨later, plain⟩ := @inductionHypothesis (place.next segment) member
    · unfold Place.next at earlier
      split at earlier
      · exact .inl earlier
      · rename_i notHere
        split at earlier
        · unfold Place.up at earlier
          split at earlier
          · exact .inl (List.dropLast_subset _ earlier)
          · exact .inl earlier
        · rename_i notUp
          obtain inside | last := List.mem_append.mp earlier
          · exact .inl inside
          · obtain rfl := List.mem_singleton.mp last
            exact .inr ⟨by simp, notHere, notUp⟩
    · exact .inr ⟨List.mem_cons_of_mem _ later, plain⟩

/-- Segments without backslashes lead from a location of names to one. -/
theorem named_after {place : Place} (named : place.location.Named) {segments : List Text}
    (clean : ∀ segment ∈ segments, isSegment segment = true ∧ '\\' ∉ segment) :
    (place.after segments).location.Named := by
  intro name member
  obtain inside | ⟨listed, notHere, notUp⟩ := mem_location_after member
  · exact named name inside
  · exact isName_iff.mpr ⟨(clean name listed).1, notHere, notUp, (clean name listed).2⟩

/-- The steps of a path without backslashes. -/
theorem clean_of_mem_steps (clean : '\\' ∉ path) :
    ∀ segment ∈ Disk.steps path, isSegment segment = true ∧ '\\' ∉ segment := by
  intro segment member
  obtain ⟨piece, nonempty⟩ := List.mem_filter.mp member
  refine ⟨isSegment_iff.mpr ⟨by simpa using nonempty, Text.not_mem_of_mem_split piece⟩, ?_⟩
  exact fun held => clean (Text.mem_of_mem_split piece held)

/-- A path without backslashes leads to a location of names. -/
theorem named_destination {disk : Disk} (named : disk.cwd.location.Named) (clean : '\\' ∉ path) :
    (disk.destination path).Named := by
  refine named_after ?_ (clean_of_mem_steps clean)
  unfold Disk.origin
  split
  · exact fun _ member => by simp [Place.ofLocation] at member
  · exact named

/-- From the root, taking steps back in a text is following it. By induction on the segments, with
the location so far in reverse; it never has a step back in it, so that a step back takes off a
name. -/
theorem foldl_climb (forward : ['.', '.'] ∉ location) {segments : List Text}
    (moving : ['.'] ∉ segments) :
    segments.foldl (Path.climb true) location.reverse =
      ((Place.ofLocation location).after segments).location.reverse := by
  induction segments generalizing location with
  | nil => rfl
  | cons segment segments inductionHypothesis =>
    rw [List.mem_cons, not_or] at moving
    have climbs : ∃ next : Location, ['.', '.'] ∉ next ∧
        (Place.ofLocation location).next segment = .ofLocation next ∧
        Path.climb true location.reverse segment = next.reverse := by
      by_cases up : segment = ['.', '.']
      · subst up
        refine ⟨location.dropLast, fun member => forward (List.dropLast_subset _ member), rfl, ?_⟩
        obtain rfl | ⟨above, last, rfl⟩ := List.eq_nil_or_concat location
        · rfl
        · have other : last ≠ ['.', '.'] := by
            rintro rfl
            simp at forward
          simp [Path.climb, other]
      · refine ⟨location ++ [segment], ?_, ?_, ?_⟩
        · simp [forward, Ne.symm up]
        · simp [Place.next, Ne.symm moving.1, up, Place.ofLocation]
        · simp [Path.climb, up]
    obtain ⟨next, nextForward, stepped, climbed⟩ := climbs
    change (segments.foldl (Path.climb true) (Path.climb true location.reverse segment)) =
      (((Place.ofLocation location).next segment).after segments).location.reverse
    rw [climbed, stepped]
    exact inductionHypothesis nextForward moving.2

/-- An absolute path is simplified to its root and the names of where it leads. -/
theorem simplify_absolute (absolute : Path.isAbsolute path = true) :
    Path.simplify path = Path.root path ++ Text.join ['/'] (Path.destination path) := by
  have moving : ['.'] ∉ Path.segments path :=
    fun member => (Path.isSegment_of_mem_segments member).2 rfl
  have climbed := foldl_climb List.not_mem_nil moving
  rw [List.reverse_nil, Disk.segments_eq_filter, Place.after_filter, ← Disk.segments_eq_filter]
    at climbed
  rw [Path.simplify, absolute, climbed, List.reverse_reverse,
    Path.ofSegments_eq (Path.root_absolute absolute)]
  rfl

/-- A character of a location's path is a slash or stands in a name. -/
theorem mem_name_of_mem_path {c : Char} (member : c ∈ location.path) (other : c ≠ '/') :
    ∃ name ∈ location, c ∈ name := by
  rw [Location.path, List.mem_cons, or_iff_right other] at member
  cases location with
  | nil => simp [Text.join] at member
  | cons first others =>
    rw [Text.join_cons, List.mem_append, List.mem_flatMap] at member
    obtain here | ⟨name, listed, there⟩ := member
    · exact ⟨first, by simp, here⟩
    · have there : c ∈ name := (List.mem_cons.mp there).resolve_left other
      exact ⟨name, List.mem_cons_of_mem _ listed, there⟩

/-- The path of a location of names has no backslash, because no name has one. -/
@[simp] theorem not_mem_path (named : location.Named) : '\\' ∉ location.path := by
  intro member
  obtain ⟨name, listed, held⟩ := mem_name_of_mem_path member (by decide)
  exact (isName_iff.mp (named name listed)).2.2.2 held

/-- A path with a single slash in front has it for its root. -/
theorem root_single {rest : Text} (single : rest.head? ≠ some '/') :
    Path.root ('/' :: rest) = ['/'] := by
  unfold Path.root
  split
  · rfl
  · simp_all
  · rfl
  · rename_i other
    exact absurd rfl (other rest)

/-- Two slashes in front are a root of their own. -/
theorem root_double {rest : Text} (double : rest.head? ≠ some '/') :
    Path.root ('/' :: '/' :: rest) = ['/', '/'] := by
  unfold Path.root
  split
  · simp_all
  · rfl
  · rename_i other same
    exact absurd (List.cons.inj same).2.symm (other rest)
  · rename_i other
    exact absurd rfl (other ('/' :: rest))

/-- The path of a location has one slash in front, whatever follows it. -/
theorem root_path (named : location.Named) (more : Text)
    (single : location = [] → more.head? ≠ some '/') :
    Path.root (location.path ++ more) = ['/'] := by
  refine root_single ?_
  by_cases top : location = []
  · rw [top]
    exact single top
  · obtain ⟨c, rest, other, same⟩ := Path.exists_join named.isSegment top
    rw [same]
    exact fun slash => other (Option.some.inj slash)

/-- The segments of the path of a location are its names. -/
@[simp] theorem segments_path (named : location.Named) :
    Path.segments location.path = location := by
  rw [Disk.segments_eq_filter, steps_path named, List.filter_eq_self]
  exact fun name member => by simpa using (named.plain name member).1

/-- The path of a location of names is tidy: it has nothing in it that tidying would drop. -/
@[simp] theorem tidy_path (named : location.Named) : Path.tidy location.path = location.path := by
  have root := root_path named [] (by simp)
  rw [List.append_nil] at root
  rw [Path.tidy, root, segments_path named, Path.ofSegments_eq (.inl rfl)]
  rfl

/-- A path without backslashes is normalized to its root and the names of where it leads.
Simplifying follows the text, and there is no backslash left to replace. -/
theorem normalize_joined (start path : Text)
    (absolute : Path.isAbsolute (Path.append start path) = true)
    (clean : '\\' ∉ Path.append start path) :
    (Path.destination (Path.append start path)).Named ∧
      Path.normalize start path = Path.root (Path.append start path) ++
        Text.join ['/'] (Path.destination (Path.append start path)) := by
  have top : Location.Named [] := fun _ member => by simp at member
  have named : (Path.destination (Path.append start path)).Named :=
    named_after top (clean_of_mem_steps clean)
  have noBackslash := not_mem_path named
  rw [Location.path, List.mem_cons, not_or] at noBackslash
  refine ⟨named, ?_⟩
  rw [Path.normalize, simplify_absolute absolute]
  refine Text.replaceChar_of_not_mem fun held => ?_
  obtain front | behind := List.mem_append.mp held
  · obtain one | two := Path.root_absolute absolute
    · simp [one] at front
    · simp [two] at front
  · exact noBackslash.2 behind

/-- Slashes in front and names behind them are normalized. Root and segments can be told from such a
path, and names lead to themselves. -/
theorem normalize_slashes {slashes : Text} (rooted : slashes = ['/'] ∨ slashes = ['/', '/'])
    (named : location.Named) (nonempty : location ≠ []) :
    Path.normalize ['/'] (slashes ++ Text.join ['/'] location) =
      slashes ++ Text.join ['/'] location := by
  obtain ⟨c, rest, other, same⟩ := Path.exists_join named.isSegment nonempty
  have absolute : Path.isAbsolute (slashes ++ Text.join ['/'] location) = true := by
    obtain rfl | rfl := rooted <;> rfl
  have joined : Path.append ['/'] (slashes ++ Text.join ['/'] location) =
      slashes ++ Text.join ['/'] location := by
    rw [Path.append, if_pos absolute]
  have root : Path.root (slashes ++ Text.join ['/'] location) = slashes := by
    have notSlash : (Text.join ['/'] location).head? ≠ some '/' := by simpa [same] using other
    obtain rfl | rfl := rooted
    · exact root_single notSlash
    · exact root_double notSlash
  have steps : Disk.steps (slashes ++ Text.join ['/'] location) = location := by
    rw [← Path.ofSegments_eq rooted, Disk.steps_ofSegments rooted named.isSegment]
  have clean : '\\' ∉ slashes ++ Text.join ['/'] location := by
    have noBackslash := not_mem_path named
    rw [Location.path] at noBackslash
    obtain rfl | rfl := rooted
    · exact noBackslash
    · simpa using noBackslash
  obtain ⟨-, normal⟩ := normalize_joined ['/'] (slashes ++ Text.join ['/'] location)
    (by rwa [joined]) (by rwa [joined])
  rw [normal, joined, root, Path.destination, steps, Place.after_names named.plain]
  rfl

/-- The path of a location is normalized. -/
@[simp] theorem normalize_path (named : location.Named) :
    Path.normalize ['/'] location.path = location.path := by
  by_cases top : location = []
  · rw [top]
    rfl
  · exact normalize_slashes (.inl rfl) named top

/-- From a location, an ordinary path is normalized to the path of where the two lead. Neither an
ordinary path nor the path of a location starts with two slashes, so that the joined path starts
with one. -/
theorem normalize_ordinary {base : Location} (named : base.Named)
    (ordinary : Path.isOrdinary path = true) :
    (Path.destination (Path.append base.path path)).Named ∧
      Path.normalize base.path path = (Path.destination (Path.append base.path path)).path := by
  obtain ⟨clean, single⟩ := isOrdinary_iff.mp ordinary
  have joined : Path.root (Path.append base.path path) = ['/'] ∧
      '\\' ∉ Path.append base.path path := by
    unfold Path.append
    split
    · rename_i absolute
      obtain ⟨rest, rfl⟩ := Path.isAbsolute_iff.mp absolute
      refine ⟨root_single fun second => ?_, clean⟩
      cases rest with
      | nil => simp at second
      | cons c rest =>
        obtain rfl := Option.some.inj second
        simp [Text.startsWith] at single
    · rename_i relative
      have notSlash : path.head? ≠ some '/' := by
        intro slash
        cases path with
        | nil => simp at slash
        | cons c rest =>
          obtain rfl := Option.some.inj slash
          exact relative rfl
      split
      · refine ⟨root_path named _ fun _ => notSlash, ?_⟩
        simp [clean, named]
      · rename_i below
        refine ⟨root_path named _ ?_, ?_⟩
        · rintro rfl
          exact absurd rfl below
        · simp [clean, named]
  obtain ⟨led, normal⟩ :=
    normalize_joined _ _ (Path.isAbsolute_append (isAbsolute_path base) path) joined.2
  rw [joined.1] at normal
  exact ⟨led, normal⟩

/-- From a location, an ordinary path is normalized to the path of a location. -/
theorem exists_normalize {base : Location} (named : base.Named)
    (ordinary : Path.isOrdinary path = true) :
    ∃ location : Location, location.Named ∧ Path.normalize base.path path = location.path :=
  ⟨_, normalize_ordinary named ordinary⟩

/-- An ordinary path is normalized to the path of where it leads, if it is absolute or no backslash
is in the path of the current directory. -/
theorem normalize_destination {disk : Disk} {normal : Text}
    (based : Path.isAbsolute path = true ∨ disk.cwd.location.Named)
    (ordinary : Path.isOrdinary path = true) (normalized : disk.normalize path = .ok normal) :
    normal = (disk.destination path).path := by
  rw [Disk.normalize] at normalized
  by_cases absolute : Path.isAbsolute path = true
  · have top : Location.Named [] := fun _ member => by simp at member
    rw [Disk.startOf, if_pos absolute] at normalized
    have normal := (normalize_ordinary top ordinary).2
    rw [Path.append, if_pos absolute] at normal
    rw [← Except.ok.inj normalized, Disk.destination_absolute _ absolute]
    exact normal
  · have named := based.resolve_left absolute
    rw [Disk.startOf, if_neg absolute, Disk.currentPath] at normalized
    split at normalized
    · rename_i inside
      have origin : disk.origin path = .ofLocation disk.cwd.location := by
        rw [Disk.origin, if_neg absolute, Place.ofLocation, ← inside]
      have steps : Disk.steps (Path.append disk.cwd.location.path path) =
          disk.cwd.location ++ Disk.steps path := by
        rw [Path.append, if_neg absolute]
        split
        · rename_i slash
          have top : disk.cwd.location = [] := by
            apply Decidable.byContradiction
            intro below
            have noSlash : Text.endsWith ['/'] disk.cwd.location.path = false :=
              wantsDirectory_path named below
            rw [noSlash] at slash
            simp [Location.path] at slash
          rw [top]
          exact Disk.steps_slash path
        · simp [named]
      have same : Path.normalize disk.cwd.location.path path = normal := Except.ok.inj normalized
      rw [← same, (normalize_ordinary named ordinary).2, Path.destination, Disk.destination, origin,
        steps, Place.after, List.foldl_append]
      have down := Place.after_names named.plain []
      rw [Place.after, List.nil_append] at down
      rw [down]
      rfl
    · simp [Except.map] at normalized

/-- The path of a location below the top does not end in a slash. -/
@[simp] theorem trimEnd_path (named : location.Named) (below : location ≠ []) :
    Text.trimEnd '/' location.path = location.path := by
  obtain ⟨start, c, other, last⟩ := Path.exists_join_concat named.isSegment below
  rw [Location.path, last, ← List.cons_append, Text.trimEnd_of_last other]

/-- The last name of a location is what stands behind the last slash of its path. -/
@[simp] theorem baseName_path {name : Text} (clean : '/' ∉ name) (above : Location) :
    Path.baseName (Location.path (above ++ [name])) = name := by
  have joined : Location.path (above ++ [name]) = Text.join ['/'] (([] :: above) ++ [name]) := by
    cases above <;> rfl
  rw [joined, Disk.baseName_join _ clean]

/-- The directory of a location's path is the path of the location above. By cases on the location:
below the top, the slash in front of the last name is trimmed, and at the top it is kept. -/
@[simp] theorem directory_path (named : location.Named) :
    Path.directory location.path = Location.path location.dropLast := by
  cases location using List.reverseRecOn with
  | nil => rfl
  | append_singleton above name =>
    have clean := (isSegment_iff.mp (named.isSegment name (by simp))).2
    rw [List.dropLast_concat]
    by_cases top : above = []
    · have first := Disk.throughLastSlash_append [] clean
      rw [top, List.nil_append, Location.path, Text.join, Path.directory]
      rw [List.nil_append, List.nil_append] at first
      rw [first]
      rfl
    · have plain : ∀ name ∈ above, Relocate.isSegment name = true :=
        fun name member => named.isSegment name (List.mem_append_left _ member)
      obtain ⟨start, c, other, last⟩ := Path.exists_join_concat plain top
      have whole : Location.path (above ++ [name]) = ('/' :: start ++ [c]) ++ '/' :: name := by
        rw [Location.path, Text.join_append _ top (by simp), last]
        simp [Text.join]
      have notSlashes :
          (('/' :: start ++ [c]) ++ ['/']).all (fun d => decide (d = '/')) = false := by
        simp [other]
      rw [whole, Path.directory, Disk.throughLastSlash_append _ clean]
      simp only [notSlashes, Bool.false_eq_true, if_false]
      rw [List.append_assoc, List.singleton_append, Text.trimEnd_append other, Location.path, last]
      rfl

/-- The path of something below a location. -/
@[simp] theorem pathBelow_path (rootNamed : root.Named) (named : below.Named)
    (nonempty : below ≠ []) :
    Disk.pathBelow root.path below = Location.path (root ++ below) := by
  rw [Disk.pathBelow, Path.append, if_neg (by simp [Path.isAbsolute_join named.isSegment])]
  obtain ⟨name, others, rfl⟩ := List.exists_cons_of_ne_nil nonempty
  cases root with
  | nil => rfl
  | cons first names =>
    have noSlash : Text.endsWith ['/'] (Location.path (first :: names)) = false :=
      wantsDirectory_path rootNamed (by simp)
    rw [noSlash, if_neg (by simp [Location.path])]
    simp [Location.path, Text.join_cons]

end

/-- Texts behind each other take up the bytes of both. -/
@[simp] theorem Utf8.size_append (first second : Text) :
    Utf8.size (first ++ second) = Utf8.size first + Utf8.size second := by
  induction first with
  | nil => simp [Utf8.size]
  | cons c first inductionHypothesis =>
    rw [List.cons_append, Utf8.size, Utf8.size, inductionHypothesis]
    omega

/-- What is below a directory continues the directory's path with a slash at its end. -/
theorem pathBelow_eq {names : List Text} (path : Text)
    (plain : ∀ name ∈ names, isSegment name = true) :
    Disk.pathBelow path names = Disk.pathBelow path [] ++ Text.join ['/'] names := by
  have relative := Path.isAbsolute_join plain
  unfold Disk.pathBelow Path.append
  rw [relative]
  split
  · simp_all
  · split <;> simp_all [Text.join, Path.isAbsolute]

/-- A directory has no longer path than what is in it. The last name and its slash only add bytes.
-/
theorem size_pathBelow_dropLast {names : List Text} (path : Text)
    (plain : ∀ name ∈ names, isSegment name = true) :
    Utf8.size (Disk.pathBelow path names.dropLast) ≤ Utf8.size (Disk.pathBelow path names) := by
  obtain rfl | ⟨above, last, rfl⟩ := List.eq_nil_or_concat names
  · exact Nat.le_refl _
  · rw [List.concat_eq_append] at plain ⊢
    have abovePlain : ∀ name ∈ above, isSegment name = true := fun name member =>
      plain name (List.mem_append_left _ member)
    rw [List.dropLast_concat, pathBelow_eq path plain, pathBelow_eq path abovePlain,
      Utf8.size_append, Utf8.size_append]
    cases above with
    | nil => simp [Text.join, Utf8.size]
    | cons first others =>
      rw [List.cons_append, Text.join_cons, Text.join_cons, List.flatMap_append,
        ← List.append_assoc, Utf8.size_append (first ++ _)]
      omega

end Relocate
