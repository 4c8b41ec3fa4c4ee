import Relocate.Proofs.Disk.Locations

/-!
# Normalized paths

A path is normal if it has one or two slashes in front and only names behind them. The normal paths
are those that stay the same when they are normalized, and every absolute path without backslashes
becomes one.

Backslashes become slashes after everything else is done, so a name with backslashes falls apart
late. If its parts are names again, the path is normal all the same. If not, what comes out has
segments in it that would have been taken away. One backslash in front of all names is an exception:
with the slash before it, it makes two slashes in front.
-/
namespace Relocate

/-- What stands between the slashes of a path, behind those in front. -/
def Path.components (path : Text) : List Text :=
  match Text.trimStart '/' path with
  | [] => []
  | rest => Text.split '/' rest

/-- The path has one or two slashes in front and only names behind them: no empty segment, no `.`
and no `..`, and no backslash. -/
def Path.isNormal (path : Text) : Bool :=
  let slashes := path.takeWhile (· = '/')
  (slashes = ['/'] || slashes = ['/', '/']) && (components path).all isName

/-- The names of where an absolute path leads, cut at backslashes. -/
def Path.pieces (path : Text) : List Text := (destination path).flatMap (Text.split '\\')

/-- The backslashes in an absolute path stand between names, but for one that makes a single slash
in front two. -/
def Path.separatesNames (path : Text) : Bool :=
  match root path, pieces path with
  | ['/'], [] :: others => others = [[]] || others.all isName
  | _, pieces => pieces.all isName

section Shape

variable {slashes path : Text} {pieces : List Text}

/-- What an absolute path starts with are slashes. -/
theorem eq_slash_of_rooted (rooted : slashes = ['/'] ∨ slashes = ['/', '/']) :
    ∀ c ∈ slashes, c = '/' := by
  obtain rfl | rfl := rooted <;> simp

/-- The components joined by slashes are the path without the slashes in front. -/
theorem join_components (path : Text) :
    Text.join ['/'] (Path.components path) = Text.trimStart '/' path := by
  unfold Path.components
  split
  · rename_i missing
    rw [missing]
    rfl
  · exact Text.join_split _ _

/-- Slashes and pieces are told apart if the first piece is not empty. The first character of the
first piece is no slash, so that the slashes in front end there. -/
theorem components_slashes (all : ∀ c ∈ slashes, c = '/') (clean : ∀ piece ∈ pieces, '/' ∉ piece)
    (first : pieces.head? ≠ some []) :
    (slashes ++ Text.join ['/'] pieces).takeWhile (· = '/') = slashes ∧
      Path.components (slashes ++ Text.join ['/'] pieces) = pieces := by
  have passed : ∀ c ∈ slashes, decide (c = '/') = true := fun c member => by
    simpa using all c member
  rw [Path.components, Text.trimStart, List.takeWhile_append_of_pos passed,
    List.dropWhile_append_of_pos passed]
  cases pieces with
  | nil => simp [Text.join]
  | cons piece others =>
    have whole := Text.split_join (List.cons_ne_nil piece others) clean
    have nonempty : piece ≠ [] := fun missing => first (by rw [missing]; rfl)
    obtain ⟨c, run, rfl⟩ := List.exists_cons_of_ne_nil nonempty
    have other : c ≠ '/' := by
      rintro rfl
      exact clean _ (List.mem_cons_self ..) (by simp)
    obtain ⟨rest, start⟩ : ∃ rest, Text.join ['/'] ((c :: run) :: others) = c :: rest :=
      ⟨_, Text.join_cons ['/'] (c :: run) others⟩
    rw [start] at whole ⊢
    simp [other, whole]

/-- A path of slashes and pieces is normal if there are one or two slashes and every piece is a
name. The number of slashes and the pieces can be told from the path. -/
theorem isNormal_slashes (all : ∀ c ∈ slashes, c = '/') (clean : ∀ piece ∈ pieces, '/' ∉ piece)
    (first : pieces.head? ≠ some []) :
    Path.isNormal (slashes ++ Text.join ['/'] pieces) = true ↔
      (slashes = ['/'] ∨ slashes = ['/', '/']) ∧ Location.Named pieces := by
  obtain ⟨front, behind⟩ := components_slashes all clean first
  simp [Path.isNormal, front, behind, Location.Named]

/-- More than two slashes in front are too many. -/
theorem isNormal_triple (rest : Text) : Path.isNormal ('/' :: '/' :: '/' :: rest) = false := by
  simp [Path.isNormal]

/-- A normal path is made of slashes and the names of a location. The slashes in front and the
components behind them are what the path is made of. -/
theorem isNormal_iff :
    Path.isNormal path = true ↔ ∃ slashes, (slashes = ['/'] ∨ slashes = ['/', '/']) ∧
      ∃ location : Location, location.Named ∧ path = slashes ++ Text.join ['/'] location := by
  constructor
  · intro normal
    simp only [Path.isNormal, Bool.and_eq_true, Bool.or_eq_true, decide_eq_true_eq,
      List.all_eq_true] at normal
    refine ⟨_, normal.1, _, normal.2, ?_⟩
    rw [join_components, Text.trimStart, List.takeWhile_append_dropWhile]
  · rintro ⟨slashes, rooted, location, named, rfl⟩
    have clean : ∀ name ∈ location, '/' ∉ name :=
      fun name member => (isSegment_iff.mp (named.isSegment name member)).2
    have first : location.head? ≠ some [] := fun missing =>
      (isSegment_iff.mp (named.isSegment [] (List.mem_of_head? missing))).1 rfl
    exact (isNormal_slashes (eq_slash_of_rooted rooted) clean first).mpr ⟨rooted, named⟩

end Shape

section Normalizing

variable {cwd path : Text}

/-- A path is normalized from any directory if it is absolute. -/
theorem normalize_absolute (cwd : Text) (absolute : Path.isAbsolute path = true)
    (clean : '\\' ∉ path) :
    (Path.destination path).Named ∧
      Path.normalize cwd path = Path.root path ++ Text.join ['/'] (Path.destination path) := by
  have whole : Path.append cwd path = path := by rw [Path.append, if_pos absolute]
  have joined := normalize_joined cwd path (by rwa [whole]) (by rwa [whole])
  rwa [whole] at joined

/-- Normalizing an absolute path gives an absolute one, wherever it is done. -/
theorem isAbsolute_normalized (absolute : Path.isAbsolute path = true) :
    Path.isAbsolute (Path.normalize cwd path) = true := by
  rw [Path.normalize_anywhere absolute cwd ['/']]
  exact Path.isAbsolute_normalize rfl path

/-- The normal paths are those that normalizing leaves as they are. -/
theorem normalize_eq_self_iff (absolute : Path.isAbsolute path = true) :
    Path.normalize cwd path = path ↔ Path.isNormal path = true := by
  constructor
  · intro same
    have clean : '\\' ∉ Path.normalize cwd path := Text.not_mem_replaceChar (by decide) _
    rw [same] at clean
    obtain ⟨named, normal⟩ := normalize_absolute cwd absolute clean
    exact isNormal_iff.mpr ⟨_, Path.root_absolute absolute, _, named, same.symm.trans normal⟩
  · intro normal
    rw [Path.normalize_anywhere absolute cwd ['/']]
    obtain ⟨slashes, rooted, location, named, rfl⟩ := isNormal_iff.mp normal
    by_cases top : location = []
    · obtain rfl | rfl := rooted <;> rw [top] <;> rfl
    · exact normalize_slashes rooted named top

/-- A normal path is absolute. -/
theorem isAbsolute_of_isNormal (normal : Path.isNormal path = true) :
    Path.isAbsolute path = true := by
  obtain ⟨slashes, rooted, location, -, rfl⟩ := isNormal_iff.mp normal
  rw [← Path.ofSegments_eq rooted]
  exact Path.isAbsolute_ofSegments rooted location

/-- Normalizing leaves a normal path as it is, wherever it is done. -/
theorem normalize_of_isNormal (normal : Path.isNormal path = true) (cwd : Text) :
    Path.normalize cwd path = path :=
  (normalize_eq_self_iff (isAbsolute_of_isNormal normal)).mpr normal

/-- A path without backslashes becomes a normal one. -/
theorem isNormal_normalize (absolute : Path.isAbsolute path = true) (clean : '\\' ∉ path) :
    Path.isNormal (Path.normalize cwd path) = true := by
  obtain ⟨named, normal⟩ := normalize_absolute cwd absolute clean
  exact isNormal_iff.mpr ⟨_, Path.root_absolute absolute, _, named, normal⟩

/-- Normalizing is done once for all paths without backslashes. -/
theorem normalize_normalize (absolute : Path.isAbsolute path = true) (clean : '\\' ∉ path) :
    Path.normalize cwd (Path.normalize cwd path) = Path.normalize cwd path :=
  (normalize_eq_self_iff (isAbsolute_normalized absolute)).mpr (isNormal_normalize absolute clean)

end Normalizing

section Backslashes

variable {cwd path : Text}

/-- The names of where a path leads are segments of it. -/
theorem isSegment_of_mem_destination {name : Text} (member : name ∈ Path.destination path) :
    isSegment name = true := by
  obtain inside | ⟨listed, -⟩ := mem_location_after member
  · exact absurd inside List.not_mem_nil
  · obtain ⟨piece, nonempty⟩ := List.mem_filter.mp listed
    exact isSegment_iff.mpr ⟨by simpa using nonempty, Text.not_mem_of_mem_split piece⟩

/-- The pieces of a path have no slash: each is part of a name. -/
theorem not_mem_of_mem_pieces {piece : Text} (member : piece ∈ Path.pieces path) :
    '/' ∉ piece := by
  obtain ⟨name, listed, inside⟩ := List.mem_flatMap.mp member
  intro held
  exact (isSegment_iff.mp (isSegment_of_mem_destination listed)).2
    (Text.mem_of_mem_split inside held)

/-- No name is empty, so an empty piece has another one beside it. -/
theorem pieces_ne_singleton (path : Text) : Path.pieces path ≠ [[]] := by
  intro single
  cases names : Path.destination path with
  | nil => simp [Path.pieces, names] at single
  | cons name others =>
    have segment := @isSegment_of_mem_destination path name (by simp [names])
    rw [Path.pieces, names, List.flatMap_cons] at single
    obtain ⟨piece, pieces, cut⟩ := List.exists_cons_of_ne_nil (Text.split_ne_nil '\\' name)
    rw [cut, List.cons_append, List.cons.injEq, List.append_eq_nil_iff] at single
    have whole := Text.join_split '\\' name
    rw [cut, single.1, single.2.1] at whole
    exact (isSegment_iff.mp segment).1 whole.symm

/-- What an absolute path is normalized to has its pieces behind its root. Turning backslashes into
slashes cuts the names at them and leaves the root. -/
theorem normalize_pieces (absolute : Path.isAbsolute (Path.append cwd path) = true) :
    Path.normalize cwd path = Path.root (Path.append cwd path) ++
      Text.join ['/'] (Path.pieces (Path.append cwd path)) := by
  have root : Text.replaceChar '\\' '/' (Path.root (Path.append cwd path)) =
      Path.root (Path.append cwd path) := by
    obtain one | two := Path.root_absolute absolute
    · rw [one]
      rfl
    · rw [two]
      rfl
  have pieces := Text.join_flatMap ['/'] (Text.split_ne_nil '\\')
    (Path.destination (Path.append cwd path))
  simp only [← Text.replaceChar_eq_join] at pieces
  rw [Path.normalize, simplify_absolute absolute, Text.replaceChar, List.map_append,
    ← Text.replaceChar, ← Text.replaceChar, root, Text.replaceChar_join, if_neg (by decide), pieces]
  rfl

/-- A path becomes a normal one exactly if its backslashes stand between names. By cases on how many
empty pieces come first. -/
theorem isNormal_normalize_iff (absolute : Path.isAbsolute cwd = true) (path : Text) :
    Path.isNormal (Path.normalize cwd path) = true ↔
      Path.separatesNames (Path.append cwd path) = true := by
  have joined := Path.isAbsolute_append absolute path
  rw [normalize_pieces joined, Path.separatesNames]
  have clean : ∀ piece ∈ Path.pieces (Path.append cwd path), '/' ∉ piece :=
    fun _ member => not_mem_of_mem_pieces member
  have single := pieces_ne_singleton (Path.append cwd path)
  have rooted := Path.root_absolute joined
  generalize Path.pieces (Path.append cwd path) = pieces at clean single ⊢
  generalize Path.root (Path.append cwd path) = slashes at rooted ⊢
  -- Each empty piece in front of another one comes out as a slash more in front of the path.
  match pieces with
  | [] => obtain rfl | rfl := rooted <;> decide
  | [[]] => exact absurd rfl single
  | [[], []] => obtain rfl | rfl := rooted <;> decide
  | [] :: [] :: next :: others =>
    have many :
        Path.isNormal (slashes ++ Text.join ['/'] ([] :: [] :: next :: others)) = false := by
      obtain rfl | rfl := rooted
      · exact isNormal_triple _
      · exact isNormal_triple _
    rw [many]
    obtain rfl | rfl := rooted <;> simp [isName, isSegment]
  | [] :: (c :: run) :: others =>
    obtain rfl | rfl := rooted
    · have front : ['/'] ++ Text.join ['/'] ([] :: (c :: run) :: others) =
          ['/', '/'] ++ Text.join ['/'] ((c :: run) :: others) := rfl
      rw [front, isNormal_slashes (by simp)
        (fun piece member => clean piece (List.mem_cons_of_mem _ member)) (by simp)]
      simp [Location.Named]
    · have many : Path.isNormal (['/', '/'] ++ Text.join ['/'] ([] :: (c :: run) :: others)) =
          false := isNormal_triple _
      rw [many]
      simp [isName, isSegment]
  | (c :: run) :: others =>
    rw [isNormal_slashes (eq_slash_of_rooted rooted) clean (by simp), and_iff_right rooted]
    obtain rfl | rfl := rooted <;> simp [Location.Named]

end Backslashes

end Relocate
