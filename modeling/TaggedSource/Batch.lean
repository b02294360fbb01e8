/-
Batches: one pass of one profile over the files below a directory. Every
file is processed by itself; one that cannot be processed is reported and
counted, and the batch goes on.
-/
import TaggedSource.FileKind
import TaggedSource.FileTree.Overwrite
import TaggedSource.IgnoreList
import TaggedSource.Pipeline

namespace TaggedSource

/-- What a batch works on. -/
structure Workspace where
  /-- The files. -/
  tree : FileTree
  /-- Where random identifiers come from. -/
  source : WordSource

namespace Workspace

variable {α : Type}

/-- Runs an action on the files. -/
def onTree (a : Action FileTree α) : Action Workspace α :=
  a.onPart (·.tree) fun workspace tree => { workspace with tree }

/-- Runs an action on the word source. -/
def onSource (a : Action WordSource α) : Action Workspace α :=
  a.onPart (·.source) fun workspace source => { workspace with source }

end Workspace

/-- A pass of a profile over the files below a root. -/
structure Batch where
  /-- The profile. -/
  profile : Profile
  /-- The pass. -/
  pass : Pass
  /-- The directory whose files are processed. -/
  root : Text
  /-- What is left alone. -/
  ignored : IgnoreList

/-- What is to be done with a file. -/
inductive Operation where
  /-- Nothing: it is as the pass would have it. -/
  | unchanged
  /-- It gets a new content. -/
  | write (content : Text)
  deriving DecidableEq, Repr

/-- How a batch is to be run. -/
structure BatchOptions where
  /-- Whether to descend into the directories below the root. -/
  recursive : Bool
  /-- Whether to leave all files as they are. -/
  dryRun : Bool
  deriving DecidableEq, Repr

/-- The counts of a batch. -/
structure Tally where
  /-- The files that went through the pass. -/
  processed : Nat := 0
  /-- Those among them that changed. -/
  changed : Nat := 0
  /-- The files that could not be processed. -/
  failed : Nat := 0
  deriving DecidableEq, Repr

namespace Tally

/-- Counts a file that went through the pass. -/
def count (tally : Tally) (changed : Bool) : Tally :=
  { tally with
    processed := tally.processed + 1
    changed := if changed then tally.changed + 1 else tally.changed }

/-- Counts a file that could not be processed. -/
def countFailure (tally : Tally) : Tally := { tally with failed := tally.failed + 1 }

end Tally

/-- The text of the source file at a path. -/
def FileTree.readSource (tree : FileTree) (path : Text) : Except Failure Text :=
  match tree.readBytes path with
  | .error fault => .error (.system fault)
  | .ok bytes => (Utf8.decode bytes).mapError (.notText path)

namespace Batch

/-- The batch for the project with an id. -/
def forProject (catalogue : Catalogue) (project : Text) (pass : Pass) (root : Text)
    (ignored : IgnoreList) : Except Failure Batch :=
  (catalogue.get project).map fun profile => { profile, pass, root, ignored }

-- =============================================================== one file

/-- Whether the pass changes files with the kind of a path. -/
def takes (batch : Batch) (path : Text) : Bool :=
  (FileKind.ofPath? path).any (·.supports batch.pass)

/-- Runs the pass over a file. -/
def revise (batch : Batch) (path : Text) : Action Workspace Operation := do
  let workspace ← .get
  let old ← .ofExcept (workspace.tree.readSource path)
  let new ← Workspace.onSource (batch.pass.run batch.profile old)
  pure (if new = old then .unchanged else .write new)

/-- Says what is to be done with what stands at a path; nothing is said of
directories, of ignored paths and of files that the pass does not take. -/
def process (batch : Batch) (path : Text) : Action Workspace (Option Operation) := do
  let workspace ← .get
  if workspace.tree.isDirectory path then
    pure none
  else if batch.ignored.ignores batch.root path then
    .log [.skipped path]
    pure none
  else if batch.takes path then
    .log [.processing path]
    let operation ← (batch.revise path).onFailure (.processing path)
    pure (some operation)
  else
    pure none

/-- Puts a content where a path leads. -/
def overwrite (path content : Text) : Action Workspace Unit := fun workspace =>
  let course := workspace.tree.overwrite path content
  ⟨course.result, [], { workspace with tree := course.final }⟩

/-- Does what is to be done with a file, and tells whether it changed. -/
def apply (dryRun : Bool) (path : Text) : Operation → Action Workspace Bool
  | .unchanged => pure false
  | .write content => do
    if dryRun then
      .log [.wouldWrite path]
    else
      (overwrite path content).onFailure (.processing path)
      .log [.wrote path]
    pure true

/-- Processes what stands at a path and does what is to be done. -/
def handle (batch : Batch) (dryRun : Bool) (path : Text) : Action Workspace (Option Bool) := do
  match ← batch.process path with
  | none => pure none
  | some operation =>
    let changed ← apply dryRun path operation
    pure (some changed)

/-- Handles what stands at a path and counts it. -/
def visit (batch : Batch) (dryRun : Bool) (path : Text) (tally : Tally) :
    Action Workspace Tally := do
  match ← (batch.handle dryRun path).attempt with
  | .ok none => pure tally
  | .ok (some changed) => pure (tally.count changed)
  | .error (.processing file cause) =>
    .log [.failed (.processing file cause)]
    pure tally.countFailure
  | .error cause => .fail cause

-- ========================================================= all the files

/-- The entries of a directory, as they are when the walk gets there. -/
def entriesOf (directory : Text) : Action Workspace (List (Name × Node)) := do
  let workspace ← .get
  .ofExcept ((workspace.tree.readDirectory directory).mapError (.walk directory))

/-- Visits the entries of a directory by name, and what is in a directory
right behind the directory. Links are not descended into. -/
def walk (batch : Batch) (dryRun : Bool) : (levels : Nat) → (directory : Text) → Tally →
    Action Workspace Tally
  | 0, _, tally => pure tally
  | levels + 1, directory, tally => do
    let entries ← entriesOf directory
    entries.foldlM
      (fun tally (name, node) => do
        let path := Path.join directory name
        let tally ← batch.visit dryRun path tally
        if node.isDirectory then batch.walk dryRun levels path tally else pure tally)
      tally

/-- Runs a batch. No directory lies deeper than the tree is high, and a
batch makes none, so a recursive walk gets everywhere. -/
def run (batch : Batch) (options : BatchOptions) : Action Workspace Tally := do
  let workspace ← .get
  let root ← .ofExcept ((workspace.tree.lookAt .target batch.root).mapError (.walk batch.root))
  let levels := if options.recursive then workspace.tree.height + 1 else 1
  let tally ←
    if root.isDirectory then batch.walk options.dryRun levels batch.root {} else pure {}
  .log [.done batch.pass tally.processed tally.changed tally.failed]
  pure tally

end Batch

end TaggedSource
