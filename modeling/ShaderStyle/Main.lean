import ShaderStyle.CommandLine
import ShaderStyle.Terminal

/-!
# The program

Reads the files that a command line may need into a file tree, carries out the command on it, shows
what there is to show and writes back the files that changed. Links to directories are not followed.
-/

namespace ShaderStyle.Disk

/-- A place as the system spells it. -/
def spelling (place : Place) : String :=
  String.ofList (Path.toText ⟨.root, place⟩)

/-- Adds what stands at a place, without what is below it. -/
def addNode (tree : FileTree) (place : Place) : IO FileTree := do
  let path := (← IO.currentDir) / spelling place
  if ← path.isDir then
    return tree.add place .directory
  else if ← path.pathExists then
    return tree.add place (.file (← IO.FS.readBinFile path).toList)
  else
    return tree

/-- Adds the directories that lead to a place, the settings files in them, and what stands at the
place. -/
def addUpTo (tree : FileTree) (place : Place) : IO FileTree := do
  let mut tree := tree
  for n in [0:place.length + 1] do
    let above := place.take n
    tree ← addNode tree (above ++ [Settings.fileName])
    unless above.isEmpty do
      tree ← addNode tree above
  return tree

/-- Adds the directories below a place, with the files in them that a run reads. -/
partial def addBelow (tree : FileTree) (place : Place) : IO FileTree := do
  let mut tree := tree
  for entry in ← ((← IO.currentDir) / spelling place).readDir do
    let inner := place ++ [entry.fileName.toList]
    if (← entry.path.symlinkMetadata).type matches .dir then
      tree ← addBelow (tree.add inner .directory) inner
    else if Batch.reads entry.fileName.toList then
      tree ← addNode tree inner
  return tree

/-- The files that a command line may need. -/
def snapshot (words : List Text) : IO FileTree := do
  let start := FileTree.emptyAt (Path.ofText (← IO.currentDir).toString.toList).parts
  match CommandLine.readRequest words with
  | .run _ target _ =>
    let path := start.resolve (Path.ofText target)
    let tree ← addUpTo start path.parts
    if tree.isDirectory path then addBelow tree path.parts else return tree
  | _ => return start

/-- Shows an event. -/
def print (event : Event) : IO Unit := do
  let (stream, lines) := Terminal.lines event
  for line in lines do
    match stream with
    | .out => IO.println line
    | .err => IO.eprintln line

/-- Writes the files of a tree that are not as they were before. -/
def writeBack (before after : FileTree) : IO Unit := do
  for (place, bytes) in after.changedSince before do
    IO.FS.writeBinFile (spelling place) ⟨bytes.toArray⟩

end ShaderStyle.Disk

/-- Carries out the command line and gives its exit status. -/
def main (arguments : List String) : IO UInt32 := do
  let words := arguments.map String.toList
  let tree ← ShaderStyle.Disk.snapshot words
  let result := ShaderStyle.CommandLine.execute .standard tree words ShaderStyle.Terminal.console
  for event in result.events do
    ShaderStyle.Disk.print event
  ShaderStyle.Disk.writeBack tree result.tree
  if let some complaint := result.complaint then
    IO.eprintln complaint
  return result.status.toUInt32
