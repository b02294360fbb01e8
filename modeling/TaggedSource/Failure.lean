/-
Failures, as causes. Every operation that can fail does so with a
`Failure`; its wording is `Failure.message` and nothing else in the
library depends on the wording.
-/
import TaggedSource.Fault
import TaggedSource.Utf8
import TaggedSource.Replacement
import TaggedSource.Glob.Flaw

namespace TaggedSource

/-- What is wrong with the settings of a run. -/
inductive Misconfiguration where
  /-- A profile's id is blank. -/
  | blankProfileId
  /-- A feature lacks its id or its eyecatcher. -/
  | incompleteFeature (profile feature : Text)
  /-- A substitution rule looks for the empty text. -/
  | emptyPattern (profile : Text)
  /-- A line pattern is empty. -/
  | emptyLine (profile : Text)
  /-- A token to remove is empty. -/
  | emptyToken (profile : Text)
  /-- A token to replace is empty. -/
  | emptyFrom (profile : Text)
  /-- Two profiles have the same id. -/
  | duplicateProfile (profile : Text)
  /-- The text is no profile document. -/
  | unreadableProfiles
  /-- A directory holds none of the profile files tried. -/
  | noProfileFile (directory : Text) (tried : List Text)
  /-- A path leads to no file or directory. -/
  | notProfilePath (path : Text)
  /-- A path does not end in a file name. -/
  | notFilePath (path : Text)
  /-- The path to work on is no directory. -/
  | notDirectory (path : Text)
  deriving DecidableEq, Repr

/-- What is wrong with an ignore file. -/
inductive IgnoreFlaw where
  /-- A line is no glob. -/
  | badGlob (file glob : Text) (flaw : Glob.Flaw)
  /-- The file cannot be read. -/
  | unreadable (path : Text) (fault : Fault)
  deriving DecidableEq, Repr

/-- Why an operation fails. -/
inductive Failure where
  /-- A call on the file tree fails. -/
  | system (fault : Fault)
  /-- The walk over a directory fails. -/
  | walk (root : Text) (fault : Fault)
  /-- There is no profile with the id. -/
  | unknownProfile (id : Text) (supported : List Text)
  /-- The right side of a rule is a broken directive. -/
  | badDirective (rule : Rule) (flaw : Replacement.Flaw)
  /-- A source file holds no text. -/
  | notText (path : Text) (flaw : Utf8.Flaw)
  /-- The settings are wrong. -/
  | misconfigured (cause : Misconfiguration)
  /-- The ignore file is wrong. -/
  | ignoreFile (flaw : IgnoreFlaw)
  /-- A file of a batch could not be processed. -/
  | processing (path : Text) (cause : Failure)
  deriving DecidableEq, Repr

namespace Text

/-- Texts with a comma between each two of them. -/
def commaSeparated (items : List Text) : String :=
  ", ".intercalate (items.map spell)

end Text

open Text in
/-- The wording of a misconfiguration. -/
def Misconfiguration.message : Misconfiguration → String
  | .blankProfileId => "profile id must not be empty"
  | .incompleteFeature profile feature =>
    inProfile profile ("feature '" ++ spell feature ++ "' needs both an id and an eyecatcher")
  | .emptyPattern profile => inProfile profile "substitution rule with an empty match"
  | .emptyLine profile => inProfile profile "empty removable line"
  | .emptyToken profile => inProfile profile "empty removable token"
  | .emptyFrom profile => inProfile profile "token pair with an empty 'from'"
  | .duplicateProfile profile => "duplicate profile id '" ++ spell profile ++ "'"
  | .unreadableProfiles => "Invalid profile format"
  | .noProfileFile directory tried =>
    "No profile file found in " ++ spell directory ++ " (tried: " ++ commaSeparated tried ++ ")"
  | .notProfilePath path => "Invalid profile path: " ++ spell path
  | .notFilePath path => "Not a file path: " ++ spell path
  | .notDirectory path => "'" ++ spell path ++ "' is not a directory"
where
  /-- Puts the profile's id in front of a complaint about it. -/
  inProfile (profile : Text) (complaint : String) : String :=
    "profile '" ++ spell profile ++ "': " ++ complaint

open Text in
/-- The wording of an ignore file's flaw. -/
def IgnoreFlaw.message : IgnoreFlaw → String
  | .badGlob file glob flaw =>
    spell file ++ " loading failed: error parsing glob '" ++ spell glob ++ "': " ++
      flaw.message
  | .unreadable path fault => spell path ++ " could not be read: " ++ fault.message

open Text in
/-- The wording of a failure. -/
def Failure.message : Failure → String
  | .system fault => "IO error: " ++ fault.message
  | .walk root fault =>
    "IO error: IO error for operation on " ++ spell root ++ ": " ++ fault.message
  | .unknownProfile id supported =>
    "Unknown project profile '" ++ spell id ++ "' (supported: " ++
      commaSeparated supported ++ ")"
  | .badDirective rule flaw =>
    "Invalid random directive '" ++ spell rule.replacement ++ "' for '" ++
      spell rule.pattern ++ "': " ++ flaw.message
  | .notText path flaw =>
    "Encoding error: '" ++ spell path ++ "' is not valid UTF-8 (" ++ flaw.message ++ ")"
  | .misconfigured cause => "Configuration error: " ++ cause.message
  | .ignoreFile flaw => "Ignore file error: " ++ flaw.message
  | .processing path cause =>
    "Failed to process '" ++ spell path ++ "': " ++ cause.message

end TaggedSource
