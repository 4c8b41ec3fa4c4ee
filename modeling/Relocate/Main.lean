import Relocate.CommandLine.Run

/-!
# The program

The program takes a picture of the part of the disk that a command line is about, runs the command
on the picture, carries over to the disk what has changed in it, and shows the report.

The picture holds everything below the source roots and below what is to be renamed. Of the
directories that lead to these and to the other paths of the command line it holds the names, so
that an empty directory can be told from one that holds something.
-/
namespace Relocate.Picture

/-- The paths that a command line is about: the project's directory, the source roots it may have,
what is to be renamed, and the paths that are only looked at. -/
structure Regions where
  project : Text
  roots : List Text
  subjects : List Text
  others : List Text

/-- The paths that a command line is about, made absolute. -/
def regions (cwd : Text) (environment : Option Text) (words : List Text) : Regions :=
  match ProgramOptions.parse .empty words with
  | .error _ | .ok (_, []) => ⟨cwd, [], [], []⟩
  | .ok (_, _ :: words) =>
    match CommandOptions.parse .empty words with
    | .error _ => ⟨cwd, [], [], []⟩
    | .ok options =>
      let project := Path.append cwd (options.projectRoot.getD [])
      let given :=
        if options.sourceRoots.isEmpty then environmentValues environment
        else options.sourceRoots
      let roots := if given.isEmpty then defaultSourceDirectories else given
      {
        project
        roots := roots.map (Path.append project)
        subjects := (options.arguments.take 1).map (Path.append cwd)
        others := (options.arguments ++ given).map (Path.append cwd) }

/-- The location of an absolute path. -/
def locationOf (path : Text) : Location := Path.segments (Path.simplify path)

/-- The location is a directory of the disk. -/
def isDirectory (location : Location) : IO Bool := do
  let here ← IO.currentDir
  (here / String.ofList location.path).isDir

/-- What a file of the disk holds. -/
def contentAt (location : Location) : IO Content := do
  let here ← IO.currentDir
  let bytes ← IO.FS.readBinFile (here / String.ofList location.path)
  return .ofBytes bytes.toList

/-- The names in a directory of the disk. -/
def namesIn (location : Location) : IO (List Text) := do
  let here ← IO.currentDir
  let entries ← (here / String.ofList location.path).readDir
  return entries.toList.map fun entry => entry.fileName.toList

/-- Adds the names in a directory. What the files hold is left out. -/
def addNames (tree : FileTree) (location : Location) : IO FileTree := do
  let mut tree := tree.addDirectory location
  for name in ← namesIn location do
    let child := location ++ [name]
    if (tree.get? child).isNone then
      let node := if ← isDirectory child then Node.directory else Node.file (.text [])
      tree := tree.put child node
  return tree

/-- Adds a file or directory with everything below it. -/
partial def addBelow (tree : FileTree) (location : Location) : IO FileTree := do
  if ← isDirectory location then
    let mut tree := tree.addDirectory location
    for name in ← namesIn location do
      tree ← addBelow tree (location ++ [name])
    return tree
  else return tree.put location (.file (← contentAt location))

/-- Adds the directories that lead to a location and the location itself, as far as they exist. -/
def addLeading (tree : FileTree) (location : Location) : IO FileTree := do
  let mut tree := tree
  for depth in List.range (location.length + 1) do
    if ← isDirectory (location.take depth) then tree ← addNames tree (location.take depth)
  return tree

/-- The picture of the part of the disk that a command line is about. A project without any of its
source roots is a source root itself. -/
def take (cwd : Text) (environment : Option Text) (words : List Text) : IO FileTree := do
  let about := regions cwd environment words
  let mut tree ← addLeading .empty (locationOf cwd)
  for path in about.project :: about.roots ++ about.subjects ++ about.others do
    tree ← addLeading tree (locationOf path)
  let disk : Disk := ⟨tree, .ofLocation []⟩
  let roots := about.roots.filter disk.isDirectory
  let whole := if roots.isEmpty then [about.project] else roots
  for path in whole ++ about.subjects do
    if disk.pathExists path then tree ← addBelow tree (locationOf path)
  return tree

/-- Carries a change of the picture over to the disk: files that are gone, directories that are
gone, new directories, and at last files with new content. -/
def carryOver (before after : FileTree) : IO Unit := do
  let here ← IO.currentDir
  let byDepth := sortBy fun (a b : Location) => decide (a.length ≤ b.length)
  let directories := fun (tree : FileTree) => byDepth (tree.entries.filterMap fun entry =>
    if entry.2 = .directory then some entry.1 else none)
  for (location, node) in before.entries do
    match node, after.get? location with
    | .file _, some (.file _) | .directory, _ => pure ()
    | .file _, _ => IO.FS.removeFile (here / String.ofList location.path)
  for location in (directories before).reverse do
    if after.get? location ≠ some .directory then
      IO.FS.removeDir (here / String.ofList location.path)
  for location in directories after do
    if before.get? location ≠ some .directory then
      IO.FS.createDir (here / String.ofList location.path)
  for (location, node) in after.entries do
    match node with
    | .file (.text text) =>
      if before.get? location ≠ some node then
        IO.FS.writeBinFile (here / String.ofList location.path) ⟨(Utf8.encode text).toArray⟩
    | .file (.binary bytes _) =>
      if before.get? location ≠ some node then
        IO.FS.writeBinFile (here / String.ofList location.path) ⟨bytes.toArray⟩
    | .directory => pure ()

end Relocate.Picture

open Relocate in
/-- Runs the program on the words of its command line. -/
def main (arguments : List String) : IO UInt32 := do
  let words := arguments.map String.toList
  let environment := (← IO.getEnv "NSMOVER_SOURCE_ROOTS").map String.toList
  let cwd := (← IO.currentDir).toString.toList
  let tree ← Picture.take cwd environment words
  let disk : Disk := ⟨tree, .ofLocation (Picture.locationOf cwd)⟩
  let (outcome, after) := (runWords environment words).run ⟨disk, [], []⟩
  Picture.carryOver tree after.disk.tree
  match outcome with
  | .ok report =>
    IO.print (String.ofList report.output)
    IO.eprint (String.ofList report.errors)
    return UInt32.ofNat report.status
  | .error failure =>
    IO.eprintln failure.message
    return 1
