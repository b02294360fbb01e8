/-
Profile documents. A document is written in JSON or in YAML; what it
holds is the same for both, so the decoder is written once, over a
`Format` that says how texts, lists and records are found in a value.

Fields are known by name. A field must not come twice. The document and a
profile may hold no other fields than their own; features, rules and token
pairs may, and other fields are passed over unread. Where a format writes
records as lists, the fields come in their order.
-/
import TaggedSource.Json.Value
import TaggedSource.Catalogue
import TaggedSource.Yaml.Node

namespace TaggedSource

/-- Decoding, which can fail, and counts the references that it follows. -/
abbrev Decode (α : Type) : Type := StateT Nat Option α

/-- The parts of a record. -/
inductive Record (ν : Type) where
  /-- Fields by name. -/
  | named (fields : List (Text × ν))
  /-- Fields in their order. -/
  | ordered (values : List ν)

/-- How a format writes what profiles are made of. -/
structure Format (ν : Type) where
  /-- The text that a value is. -/
  text : ν → Decode Text
  /-- The items of the list that a value is. -/
  items : ν → Decode (List ν)
  /-- The parts of the record that a value is. -/
  record : ν → Decode (Record ν)

namespace Format

variable {ν α : Type}

/-- The value of a field that comes once at most. -/
def single? (fields : List (Text × ν)) (name : Text) : Option (Option ν) :=
  match fields.filter (·.1 = name) with
  | [] => some none
  | [(_, value)] => some (some value)
  | _ => none

/-- The values of the named fields of a record, in the order of the names. -/
def fields? (names : List Text) (closed : Bool) : Record ν → Option (List (Option ν))
  | .named fields =>
    if closed && !fields.all fun field => names.contains field.1 then none
    else names.mapM (single? fields)
  | .ordered values =>
    if names.length < values.length then none
    else some (values.map some ++ List.replicate (names.length - values.length) none)

/-- The fields of the record that a value is. -/
def fields (f : Format ν) (names : List String) (closed : Bool) (value : ν) :
    Decode (List (Option ν)) := do
  let record ← f.record value
  match fields? (names.map TaggedSource.text) closed record with
  | some values => return values
  | none => failure

/-- The items of a list, each decoded; a field left out is empty. -/
def listOf (f : Format ν) (decode : ν → Decode α) : Option ν → Decode (List α)
  | none => return []
  | some value => do (← f.items value).mapM decode

/-- A record of two texts. -/
def twoTexts (f : Format ν) (first second : String) (make : Text → Text → α) (value : ν) :
    Decode α := do
  match ← f.fields [first, second] false value with
  | [some a, some b] => return make (← f.text a) (← f.text b)
  | _ => failure

/-- A feature. -/
def feature (f : Format ν) : ν → Decode Feature := f.twoTexts "id" "eyecatcher" .mk

/-- A rule. -/
def rule (f : Format ν) : ν → Decode Rule := f.twoTexts "match" "replace" .mk

/-- A token pair. -/
def tokenPair (f : Format ν) : ν → Decode TokenPair := f.twoTexts "from" "to" .mk

/-- The fields of a profile, in their order. -/
def profileFields : List String :=
  ["id", "removable_features", "replaceable_strings", "removable_lines", "removable_tokens",
    "replaceable_tokens", "copyright_features", "copyright_strings"]

/-- A profile; of its fields only the id is needed. -/
def profile (f : Format ν) (value : ν) : Decode Profile := do
  match ← f.fields profileFields true value with
  | [some id, features, strings, lines, tokens, pairs, headerFeatures, headerStrings] =>
    return {
      id := ← f.text id
      removableFeatures := ← f.listOf f.feature features
      replaceableStrings := ← f.listOf f.rule strings
      removableLines := ← f.listOf f.text lines
      removableTokens := ← f.listOf f.text tokens
      replaceableTokens := ← f.listOf f.tokenPair pairs
      copyrightFeatures := ← f.listOf f.feature headerFeatures
      copyrightStrings := ← f.listOf f.rule headerStrings }
  | _ => failure

/-- The profiles of a document. -/
def document (f : Format ν) (value : ν) : Decode (List Profile) := do
  match ← f.fields ["profiles"] true value with
  | [some profiles] => f.listOf f.profile (some profiles)
  | _ => failure

end Format

-- ================================================================== JSON

/-- How JSON writes profiles: texts are strings, lists are arrays, records
are objects or arrays. -/
def Json.format : Format Json.Value where
  text
    | .string (some t) => return t
    | _ => failure
  items
    | .array items => return items
    | _ => failure
  record
    | .object fields => do
      return .named (← fields.mapM fun (key, value) =>
        match key with
        | some key => return (key, value)
        | none => failure)
    | .array values => return .ordered values
    | _ => failure

-- ================================================================== YAML

namespace Yaml

/-- The node that a node means: itself, or the one that it refers to. -/
def follow (root : Node) : Node → Decode Node
  | .alias slot => do
    modify (· + 1)
    match root.atSlot? slot with
    | some node => return node
    | none => failure
  | node => return node

/-- How YAML writes profiles: a text is any scalar as it is spelled, a
list is a sequence or a plain scalar left empty, a record is a mapping
whose keys are scalars. -/
def format (root : Node) : Format Node where
  text := scalarText
  items node := do
    match ← follow root node with
    | .sequence _ items => return items
    | .scalar _ true [] => return []
    | _ => failure
  record node := do
    match ← follow root node with
    | .mapping _ entries =>
      return .named (← entries.mapM fun (key, value) => return (← scalarText key, value))
    | _ => failure
where
  /-- The text of a scalar. -/
  scalarText (node : Node) : Decode Text := do
    match ← follow root node with
    | .scalar _ _ t => return t
    | _ => failure

/-- The profiles of a document. References may be followed a hundred
times as often as the document has marks. -/
def profiles? (root : Node) : Option (List Profile) := do
  let (profiles, followed) ← ((format root).document root).run 0
  if followed ≤ 100 * root.markCount then some profiles else none

end Yaml

-- =============================================================== reading

/-- The profiles that a text spells as JSON, or else as YAML. -/
def Profile.readDocument? (t : Text) : Option (List Profile) :=
  match (Json.parse? t).bind fun value => ((Json.format.document value).run 0).map (·.1) with
  | some profiles => some profiles
  | none => (Yaml.parse? t).bind Yaml.profiles?

namespace Catalogue

/-- The catalogue of the profiles that a text spells. -/
def ofText {σ : Type} (t : Text) : Action σ Catalogue :=
  match Profile.readDocument? t with
  | some profiles => ofProfiles profiles
  | none => .fail (.misconfigured .unreadableProfiles)

end Catalogue

end TaggedSource
