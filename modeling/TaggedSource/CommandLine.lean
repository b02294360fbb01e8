/-
The command line: what its words mean. Words are read from left to right.
A value waits until the next known option, the next positional or the end
of the line shows that it is complete, and is checked only then.
-/
import TaggedSource.Pass
import TaggedSource.Text

namespace TaggedSource.CommandLine

/-- What the user asks for. -/
structure Arguments where
  /-- The pass to run. -/
  pass : Pass
  /-- The id of the project's profile. -/
  project : Text
  /-- The directory to work on. -/
  directory : Text
  /-- Where the profiles are, if not built in. -/
  profiles : Option Text
  /-- Whether to descend into directories. -/
  recursive : Bool
  /-- Whether to leave all files as they are. -/
  dryRun : Bool
  /-- Whether to show the whole log. -/
  verbose : Bool
  deriving DecidableEq, Repr

/-- Why a line gives no arguments. -/
inductive Stop where
  /-- The help is asked for. -/
  | help
  /-- The version is asked for. -/
  | version
  /-- A word means nothing, or there are too many positionals. -/
  | unknownWord
  /-- A flag or option is given twice, or both passes are given. -/
  | conflict
  /-- A value is missing or empty. -/
  | badValue
  /-- A flag is given a value. -/
  | unwantedValue
  /-- A pass or a positional is missing. -/
  | missingWord
  deriving DecidableEq, Repr

/-- An option without a value. -/
inductive Flag where
  /-- The transformation is to be run. -/
  | transform
  /-- The copyright alignment is to be run. -/
  | copyright
  /-- Directories are descended into. -/
  | recursive
  /-- No file is written. -/
  | dryRun
  /-- The whole log is shown. -/
  | verbose
  deriving DecidableEq, Repr

/-- What the name of an option stands for. -/
inductive Switch where
  /-- A flag. -/
  | flag (f : Flag)
  /-- The option whose value is the path of the profiles. -/
  | profiles
  /-- The help. -/
  | help
  /-- The version. -/
  | version
  deriving DecidableEq, Repr

/-- The options by their long names. -/
def longNames : List (Text × Switch) :=
  [(text "transform", .flag .transform), (text "copyright", .flag .copyright),
    (text "profiles", .profiles), (text "recursive", .flag .recursive),
    (text "dry-run", .flag .dryRun), (text "verbose", .flag .verbose), (text "help", .help),
    (text "version", .version)]

/-- The options by their short names. -/
def shortNames : List (Char × Switch) :=
  [('x', .flag .transform), ('c', .flag .copyright), ('p', .profiles),
    ('r', .flag .recursive), ('v', .flag .verbose), ('h', .help), ('V', .version)]

/-- What has been read last and is not yet complete. -/
inductive Waiting where
  /-- Nothing. -/
  | nothing
  /-- The option for the profiles, with its value if there is one yet. -/
  | profiles (value : Option Text)
  /-- The first positional. -/
  | project (value : Text)
  /-- The second positional. -/
  | directory (value : Text)
  deriving DecidableEq, Repr

/-- What a part of a line has given. -/
structure Draft where
  /-- The flags. -/
  flags : List Flag := []
  /-- The path of the profiles. -/
  profiles : Option Text := none
  /-- The first positional. -/
  project : Option Text := none
  /-- The second positional. -/
  directory : Option Text := none
  /-- What is not yet complete. -/
  waiting : Waiting := .nothing
  deriving DecidableEq, Repr

namespace Draft

/-- Takes the path of the profiles. -/
def takeProfiles (d : Draft) (value : Text) : Except Stop Draft :=
  if d.profiles.isSome then .error .conflict
  else if value.isEmpty then .error .badValue
  else .ok { d with profiles := some value }

/-- Completes what is waiting. -/
def settle (d : Draft) : Except Stop Draft :=
  let settled := { d with waiting := .nothing }
  match d.waiting with
  | .nothing => .ok d
  | .profiles none => .error .badValue
  | .profiles (some value) => settled.takeProfiles value
  | .project value => .ok { settled with project := some value }
  | .directory value =>
    if value.isEmpty then .error .badValue
    else .ok { settled with directory := some value }

/-- Takes an option that is not given a value with it. -/
def takeSwitch (d : Draft) (switch : Switch) : Except Stop Draft := do
  let d ← d.settle
  match switch with
  | .help => .error .help
  | .version => .error .version
  | .profiles => .ok { d with waiting := .profiles none }
  | .flag f => if d.flags.contains f then .error .conflict else .ok { d with flags := f :: d.flags }

/-- Takes an option that is given a value with it. -/
def takeValued (d : Draft) (switch : Switch) (value : Text) : Except Stop Draft :=
  match switch with
  | .profiles => do
    let d ← d.settle
    d.takeProfiles value
  | _ => .error .unwantedValue

/-- Takes a long option, from behind its dashes. -/
def takeLong (d : Draft) (word : Text) : Except Stop Draft :=
  match longNames.lookup (word.takeWhile (· ≠ '=')) with
  | none => .error .unknownWord
  | some switch =>
    match word.dropWhile (· ≠ '=') with
    | [] => d.takeSwitch switch
    | _ :: value => d.takeValued switch value

/-- Takes short options in a row, from behind their dash. The option with
a value takes the rest of the word, if there is any, as the value. -/
def takeShort (d : Draft) : Text → Except Stop Draft
  | [] => .ok d
  | c :: rest =>
    match shortNames.lookup c, rest with
    | none, _ => .error .unknownWord
    | some .profiles, '=' :: value => d.takeValued .profiles value
    | some .profiles, e :: value => d.takeValued .profiles (e :: value)
    | some switch, rest => do
      let d ← d.takeSwitch switch
      d.takeShort rest

/-- Whether both positionals have been read. -/
def isFull (d : Draft) : Bool :=
  match d.waiting with
  | .directory _ => true
  | _ => d.directory.isSome

/-- Takes a positional. -/
def takePositional (d : Draft) (value : Text) : Except Stop Draft :=
  if d.isFull then
    .error .unknownWord
  else do
    let d ← d.settle
    let waiting := if d.project.isSome then .directory value else .project value
    .ok { d with waiting }

/-- Takes a word in front of `--`. -/
def takeWord (d : Draft) (word : Text) : Except Stop Draft :=
  match word, d.waiting with
  | '-' :: '-' :: name, _ => d.takeLong name
  | '-' :: c :: names, _ => d.takeShort (c :: names)
  | _, .profiles none => .ok { d with waiting := .profiles (some word) }
  | _, _ => d.takePositional word

/-- Takes the words of a line. Behind `--` all words are positionals. -/
def takeWords (d : Draft) : List Text → Except Stop Draft
  | [] => .ok d
  | word :: words =>
    if word = ['-', '-'] then
      words.foldlM takePositional d
    else do
      let d ← d.takeWord word
      d.takeWords words

/-- The arguments, once the line has ended. -/
def finish (d : Draft) : Except Stop Arguments := do
  let d ← d.settle
  let given (f : Flag) : Bool := d.flags.contains f
  let arguments (pass : Pass) : Except Stop Arguments :=
    match d.project, d.directory with
    | some project, some directory =>
      .ok {
        pass, project, directory
        profiles := d.profiles
        recursive := given .recursive
        dryRun := given .dryRun
        verbose := given .verbose }
    | _, _ => .error .missingWord
  match given .transform, given .copyright with
  | true, true => .error .conflict
  | true, false => arguments .transform
  | false, true => arguments .copyright
  | false, false => .error .missingWord

end Draft

/-- Reads the words of a line. -/
def parse (words : List Text) : Except Stop Arguments := do
  let draft ← Draft.takeWords {} words
  draft.finish

-- =================================================================== texts

/-- The lines of the help. -/
def helpLines : List String :=
  ["Piranhito: strips feature-gated code from tagged source trees",
    "",
    "Usage: piranhito [OPTIONS] <--transform|--copyright> <PROJECT> <DIRECTORY>",
    "",
    "Arguments:",
    "  <PROJECT>    Id of the project profile to apply",
    "  <DIRECTORY>  Directory holding the files to rewrite in place",
    "",
    "Options:",
    "  -x, --transform        Strip features, substitute strings and tidy up the sources",
    "  -c, --copyright        Align copyright headers",
    "  -p, --profiles <PATH>  Profile file (JSON or YAML), or a directory holding " ++
      "piranhito.\x7bjson,yml,yaml\x7d. The built-in profiles are used when omitted",
    "  -r, --recursive        Descend into subdirectories",
    "      --dry-run          Run the pipelines and report, without writing any file",
    "  -v, --verbose          Enable verbose logging output",
    "  -h, --help             Print help",
    "  -V, --version          Print version"]

/-- The help. -/
def helpText : String := String.join (helpLines.map (· ++ "\n"))

/-- The version. -/
def versionText : String := "piranhito 0.3.0\n"

end TaggedSource.CommandLine
