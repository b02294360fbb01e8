/-
The program on a real machine. It takes a picture of the files that its
arguments name, runs on the picture, and carries out on the machine what
has changed in it (`get?_foldl_changes`: that makes the one picture of the
other). Permission bits cannot be read from here, so a picture shows the
ones of a new file on every file.
-/
import TaggedSource.FileTree.Plant
import TaggedSource.Program

namespace TaggedSource.Machine

/-- The path of a place from the root. -/
def absolute (place : Place) : String := "/" ++ Text.spell (FileTree.pathOf place)

/-- The text of the path without links that a path leads to, if it leads
anywhere. -/
def realPath? (path : String) : IO (Option Text) := do
  try
    let here ← IO.currentDir
    let real ← IO.FS.realPath (here / path)
    pure (some (text real.toString))
  catch _ => pure none

/-- A target that leads nowhere, since no file has such a name. -/
def nowhere : Text := ['\x00']

/-- Adds what stands at an absolute path to a picture, and what is below
it to some depth. -/
partial def addEntry (depth : Nat) (tree : FileTree) (path : Text) : IO FileTree := do
  let here ← IO.currentDir
  let file := here / Text.spell path
  match (← file.symlinkMetadata).type with
  | .dir =>
    let mut picture := tree.plant path .directory
    if depth ≠ 0 then
      for entry in ← file.readDir do
        picture ← addEntry (depth - 1) picture (Path.join path (text entry.fileName))
    pure picture
  | .file =>
    let bytes ← IO.FS.readBinFile file
    pure (tree.plant path (.file bytes.toList FileTree.newFileMode))
  | .symlink =>
    match ← realPath? (Text.spell path) with
    | some target => addEntry 0 (tree.plant path (.link target)) target
    | none => pure (tree.plant path (.link nowhere))
  | .other => pure tree

/-- Adds what a path of the command line leads to. -/
def addArgument (depth : Nat) (tree : FileTree) (path : Text) : IO FileTree := do
  match ← realPath? (Text.spell path) with
  | none => pure tree
  | some real =>
    let picture ← addEntry depth tree real
    let steps := Path.stepsOf path
    if steps.contains ['.', '.'] || tree.start path ++ steps = Path.pieces real then
      pure picture
    else
      pure (picture.plant path (.link real))

/-- The files that the arguments name, as they are. -/
def picture (arguments : CommandLine.Arguments) : IO FileTree := do
  let home := Path.pieces (text (← IO.currentDir).toString)
  let tree := (FileTree.emptyAt home).plantDirectories home
  let depth := if arguments.recursive then FileTree.maxPath else 1
  let tree ← addArgument depth tree arguments.directory
  match arguments.profiles with
  | some path => addArgument 1 tree path
  | none => pure tree

/-- The rights that the last three of some permission bits give. -/
def accessRight (mode : Nat) : IO.AccessRight where
  read := mode.testBit 2
  write := mode.testBit 1
  execution := mode.testBit 0

/-- Sets the permission bits of a file. -/
def setMode (file : String) (mode : Nat) : IO Unit :=
  IO.setAccessRights file
    { user := accessRight (mode >>> 6)
      group := accessRight (mode >>> 3)
      other := accessRight mode }

/-- Makes one change. What was written to a temporary file, or was found
there, is moved to its place. -/
def change (before : FileTree) (place : Place) (after : Option Node) : IO Unit := do
  let file := absolute place
  let temporary :=
    absolute (place.dropLast ++ [FileTree.temporaryName (place.getLastD [])])
  match before.get? place, after with
  | some (.file _ old), some (.file content mode) =>
    -- the file itself stays, and keeps the permission bits that no picture shows
    IO.FS.writeBinFile file ⟨content.toArray⟩
    if mode ≠ old then setMode file mode
  | _, some (.file content mode) =>
    IO.FS.writeBinFile temporary ⟨content.toArray⟩
    setMode temporary mode
    IO.FS.rename temporary file
  | _, some (.link _) => IO.FS.rename temporary file
  | _, some .directory => IO.FS.createDirAll file
  | _, none =>
    -- it may have been moved already
    try IO.FS.removeFile file catch
      | .noFileOrDirectory .. => pure ()
      | cause => throw cause

/-- Carries out what has changed in a picture. -/
def carryOut (before after : FileTree) : IO Unit := do
  -- links are moved first, since a file may be written where one was
  let (links, others) := (before.changes after).partition fun (_, node) =>
    node matches some (.link _)
  for (place, node) in links ++ others do
    change before place node

/-- A word source that begins with words drawn from the machine. -/
def wordSource : IO WordSource := do
  let bytes := (← IO.getRandomBytes 16384).toList
  pure (.ofWords (wordsOf bytes) (bytes.foldl (fun n b => n * 256 + b.toNat) 0 % UInt32.size))
where
  /-- Four bytes to a word. -/
  wordsOf : Bytes → List UInt32
    | a :: b :: c :: d :: rest =>
      (a.toUInt32 <<< 24 ||| b.toUInt32 <<< 16 ||| c.toUInt32 <<< 8 ||| d.toUInt32) ::
        wordsOf rest
    | _ => []

/-- Prints a report. -/
def print (report : Report) : IO UInt32 := do
  (← IO.getStderr).putStr report.errors
  (← IO.getStdout).putStr report.output
  pure (UInt32.ofNat report.status)

end TaggedSource.Machine

open TaggedSource in
/-- Runs the program on the words of the command line. -/
def main (words : List String) : IO UInt32 := do
  let words := words.map text
  match CommandLine.parse words with
  | .error stop => Machine.print (Program.reportStop stop)
  | .ok arguments =>
    let before ← Machine.picture arguments
    let (report, workspace) := Program.run words ⟨before, ← Machine.wordSource⟩
    Machine.carryOut before workspace.tree
    Machine.print report
