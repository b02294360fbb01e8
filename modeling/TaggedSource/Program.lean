/-
The whole program on a workspace: from the words of its command line to
its exit status, its output and the files that it leaves.
-/
import TaggedSource.Batch
import TaggedSource.Catalogue.Builtin
import TaggedSource.Catalogue.Load
import TaggedSource.CommandLine

namespace TaggedSource

/-- What a run of the program shows. -/
structure Report where
  /-- The exit status. -/
  status : Nat
  /-- What is printed. -/
  output : String
  /-- What is printed as log and error messages. -/
  errors : String
  deriving DecidableEq, Repr

namespace Program

open CommandLine

/-- What is to be done for the arguments. -/
def work (arguments : Arguments) : Action Workspace Tally := do
  let workspace ← .get
  if !workspace.tree.isDirectory arguments.directory then
    .fail (.misconfigured (.notDirectory arguments.directory))
  else
    let catalogue ←
      match arguments.profiles with
      | some path => Workspace.onTree (Catalogue.load path)
      | none => Catalogue.builtin
    let ignored ← Workspace.onTree (IgnoreList.load arguments.directory)
    let batch ← .ofExcept
      (Batch.forProject catalogue arguments.project arguments.pass arguments.directory ignored)
    batch.run { recursive := arguments.recursive, dryRun := arguments.dryRun }

/-- The lines of a log from a level on. -/
def logText (least : Log.Level) (events : List Log.Event) : String :=
  String.join ((events.filter fun e => least.rank ≤ e.level.rank).map fun e => e.line ++ "\n")

/-- What is printed when a batch has come to its end. -/
def completion (arguments : Arguments) (tally : Tally) : String :=
  arguments.pass.title ++ " of '" ++ Text.spell arguments.project ++
    s!"' completed: {tally.processed} file(s) processed, {tally.changed} changed, " ++
    s!"{tally.failed} failed.\n"

/-- What a run shows for the arguments and how they were worked off. -/
def reportOn (arguments : Arguments) (outcome : Outcome Workspace Tally) : Report :=
  let log := logText (if arguments.verbose then .debug else .warn) outcome.log
  match outcome.result with
  | .ok tally => { status := 0, output := completion arguments tally, errors := log }
  | .error cause => { status := 1, output := "", errors := log ++ cause.message ++ "\n" }

/-- What a run shows when its line gives no arguments. -/
def reportStop : Stop → Report
  | .help => { status := 0, output := helpText, errors := "" }
  | .version => { status := 0, output := versionText, errors := "" }
  | .missingWord => { status := 1, output := helpText, errors := "" }
  | .unknownWord => usage "unexpected argument"
  | .conflict => usage "an argument is repeated or cannot be used with another one"
  | .badValue => usage "a value is missing or empty"
  | .unwantedValue => usage "a flag takes no value"
where
  /-- What a wrong line shows. -/
  usage (complaint : String) : Report :=
    { status := 2, output := "", errors := "error: " ++ complaint ++ "\n" }

/-- Runs the program. -/
def run (words : List Text) (workspace : Workspace) : Report × Workspace :=
  match CommandLine.parse words with
  | .error stop => (reportStop stop, workspace)
  | .ok arguments =>
    let outcome := (work arguments).run workspace
    (reportOn arguments outcome, outcome.state)

end Program

end TaggedSource
