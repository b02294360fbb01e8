/-
JSON values. A value is built from tokens by a machine that keeps the
arrays and objects that are still open, innermost first; one token is one
step, so reading is a fold over the tokens.
-/
import TaggedSource.Json.Token

namespace TaggedSource.Json

/-- A JSON value. Of numbers and names only their presence is kept. -/
inductive Value where
  /-- A number, `true`, `false` or `null`. -/
  | atom
  /-- A string and the text that it denotes. -/
  | string (value : Option Text)
  /-- An array. -/
  | array (items : List Value)
  /-- An object; keys can come more than once. -/
  | object (fields : List (Option Text × Value))
  deriving Repr

/-- An array or object that is still open, its parts last first. -/
inductive Frame where
  /-- An array. -/
  | array (items : List Value)
  /-- An object between two fields. -/
  | object (fields : List (Option Text × Value))
  /-- An object after a key. -/
  | field (fields : List (Option Text × Value)) (key : Option Text)
  deriving Repr

/-- What may come next. -/
inductive Expected where
  /-- A value. -/
  | value
  /-- A value, or the end of the array just opened. -/
  | valueOrEnd
  /-- A key. -/
  | key
  /-- A key, or the end of the object just opened. -/
  | keyOrEnd
  /-- The colon after a key. -/
  | colon
  /-- A comma, or the end of the innermost array or object. -/
  | commaOrEnd
  /-- Nothing more. -/
  | nothing (value : Value)
  deriving Repr

/-- The machine between two tokens. -/
structure Machine where
  /-- What is still open, innermost first. -/
  frames : List Frame := []
  /-- What may come next. -/
  expected : Expected := .value
  deriving Repr

namespace Machine

/-- Hands a finished value to what is open around it. -/
def finish (value : Value) : List Frame → Option Machine
  | [] => some ⟨[], .nothing value⟩
  | .array items :: frames => some ⟨.array (value :: items) :: frames, .commaOrEnd⟩
  | .field fields key :: frames => some ⟨.object ((key, value) :: fields) :: frames, .commaOrEnd⟩
  | .object _ :: _ => none

/-- Begins a value. -/
def begin (frames : List Frame) : Token → Option Machine
  | .atom => finish .atom frames
  | .string value => finish (.string value) frames
  | .openArray => some ⟨.array [] :: frames, .valueOrEnd⟩
  | .openObject => some ⟨.object [] :: frames, .keyOrEnd⟩
  | _ => none

/-- Closes the innermost array or object. -/
def close : Token → List Frame → Option Machine
  | .closeArray, .array items :: frames => finish (.array items.reverse) frames
  | .closeObject, .object fields :: frames => finish (.object fields.reverse) frames
  | _, _ => none

/-- Takes a key. -/
def takeKey : Token → List Frame → Option Machine
  | .string key, .object fields :: frames => some ⟨.field fields key :: frames, .colon⟩
  | _, _ => none

/-- What comes after a comma in the innermost array or object. -/
def afterComma : List Frame → Option Machine
  | .array items :: frames => some ⟨.array items :: frames, .value⟩
  | .object fields :: frames => some ⟨.object fields :: frames, .key⟩
  | _ => none

/-- Takes a token. -/
def step (m : Machine) (token : Token) : Option Machine :=
  match m.expected with
  | .value => begin m.frames token
  | .valueOrEnd => if token = .closeArray then close token m.frames else begin m.frames token
  | .key => takeKey token m.frames
  | .keyOrEnd => if token = .closeObject then close token m.frames else takeKey token m.frames
  | .colon => if token = .colon then some ⟨m.frames, .value⟩ else none
  | .commaOrEnd => if token = .comma then afterComma m.frames else close token m.frames
  | .nothing _ => none

end Machine

/-- The value that a text spells. -/
def parse? (t : Text) : Option Value := do
  let tokens ← tokens? t
  let m ← tokens.foldlM Machine.step {}
  match m.expected with
  | .nothing value => some value
  | _ => none

end TaggedSource.Json
