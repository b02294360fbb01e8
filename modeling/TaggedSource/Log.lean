/-
The log. What is worth telling is an `Event`; its level, its origin and
its wording are functions of the event.
-/
import TaggedSource.Failure
import TaggedSource.Pass

namespace TaggedSource.Log

/-- How much an event matters. -/
inductive Level where
  /-- For those who look for a fault. -/
  | debug
  /-- The course of events. -/
  | info
  /-- Something the user should look at. -/
  | warn
  deriving DecidableEq, Repr

/-- The name of a level. -/
def Level.name : Level → String
  | .debug => "DEBUG"
  | .info => "INFO"
  | .warn => "WARN"

/-- The rank of a level; a log shows the levels from some rank on. -/
def Level.rank : Level → Nat
  | .debug => 0
  | .info => 1
  | .warn => 2

/-- Something that happened. -/
inductive Event where
  /-- A start marker at a byte offset has no end marker. -/
  | orphan (feature : Text) (offset : Nat)
  /-- A text was stripped. -/
  | stripped (removed guarded unbalanced : Nat)
  /-- An identifier was drawn for a pattern. -/
  | generated (pattern value : Text)
  /-- Start markers of a profile were left in place. -/
  | leftInPlace (profile : Text) (count : Nat)
  /-- A profile was accepted. -/
  | registered (profile : Text)
  /-- A profile file is about to be read. -/
  | loading (path : Text)
  /-- There is no ignore file. -/
  | noIgnoreFile (path : Text)
  /-- A file was passed over. -/
  | skipped (path : Text)
  /-- A file is about to be processed. -/
  | processing (path : Text)
  /-- A file would have been changed. -/
  | wouldWrite (path : Text)
  /-- A file was changed. -/
  | wrote (path : Text)
  /-- A file could not be processed. -/
  | failed (cause : Failure)
  /-- A batch came to its end. -/
  | done (pass : Pass) (processed changed failures : Nat)
  deriving DecidableEq, Repr

namespace Event

/-- How much an event matters. -/
def level : Event → Level
  | .orphan .. | .leftInPlace .. | .failed .. => .warn
  | .processing .. | .wouldWrite .. | .done .. => .info
  | _ => .debug

/-- The part of the program that an event comes from. -/
def origin : Event → String
  | .orphan .. | .stripped .. => "piranhito::strip"
  | .generated .. => "piranhito::substitute"
  | .leftInPlace .. => "piranhito::pipeline"
  | .registered .. | .loading .. => "piranhito::registry"
  | .noIgnoreFile .. => "piranhito::ignore"
  | _ => "piranhito::processor"

open Text in
/-- The wording of an event. -/
def message : Event → String
  | .orphan feature offset =>
    "Feature '" ++ spell feature ++ s!"' has a start marker at byte {offset} " ++
      "but no end marker; left untouched"
  | .stripped removed guarded unbalanced =>
    s!"Stripped {removed} block(s), kept the fallback of {guarded}, {unbalanced} unbalanced"
  | .generated pattern value =>
    "'" ++ spell pattern ++ "' -> generated '" ++ spell value ++ "'"
  | .leftInPlace profile count =>
    "Profile '" ++ spell profile ++
      s!"': {count} marker(s) without a matching end were left in place"
  | .registered profile => "Registered profile '" ++ spell profile ++ "'"
  | .loading path => "Loading profiles from " ++ spell path
  | .noIgnoreFile path => spell path ++ " does not exist"
  | .skipped path => "Skipping " ++ spell path ++ " (ignored)"
  | .processing path => "Processing " ++ spell path
  | .wouldWrite path => "Would rewrite " ++ spell path
  | .wrote path => "Rewrote " ++ spell path
  | .failed cause => cause.message
  | .done pass processed changed failures =>
    pass.title ++
      s!" done: {processed} file(s) processed, {changed} changed, {failures} failed"

/-- An event as a line of the log. Further lines of a wording are set in
by four blanks, so that a line of its own is always a new event. -/
def line (e : Event) : String :=
  let name := e.level.name
  let padding := String.ofList (List.replicate (5 - name.length) ' ')
  "[" ++ name ++ padding ++ " " ++ e.origin ++ "] " ++
    String.ofList (e.message.toList.flatMap fun c => if c = '\n' then text "\n    " else [c])

end Event

end TaggedSource.Log
