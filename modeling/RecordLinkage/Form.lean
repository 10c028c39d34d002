import RecordLinkage.Entity
import RecordLinkage.Value
import RecordLinkage.Json.Number
import RecordLinkage.Json.Reader
import RecordLinkage.Json.Record

/-! The JSON form of stored values. Each type says how a value becomes a tree and which trees stand for
a value; a text is written compactly and read leniently. -/

namespace RecordLinkage

class Form (α : Type) where
  toJson : α → Json
  ofJson? : Json → Option α

export Form (toJson ofJson?)

namespace Form

variable {α : Type} [Form α]

def write (value : α) : List UInt8 := (toJson value).render

def read? (text : List UInt8) : Option α := (Json.read? text).bind ofJson?

def required? (field : Option Json) : Option α := field.bind ofJson?

def optional? : Option Json → Option (Option α)
  | none => some none
  | some .null => some none
  | some json => (ofJson? json).map some

def defaulted? (value : α) : Option Json → Option α
  | none => some value
  | some json => ofJson? json

def items? : Json → Option (List α)
  | .array items => items.mapM ofJson?
  | _ => none

def ofItems (values : List α) : Json := .array (values.map toJson)

def ofOption : Option α → Json
  | none => .null
  | some value => toJson value

end Form

open Form

instance : Form Bool := ⟨.bool, Json.bool?⟩

instance : Form Double := ⟨Json.ofDouble, Json.double?⟩

instance : Form Nat := ⟨Json.ofNat, Json.word64?⟩

instance : Form Int64 := ⟨fun value => Json.ofInt value.toInt, fun json =>
  json.signed64?.map Int64.ofInt⟩

instance : Form Id := ⟨fun id => Json.ofText id.text, fun json => json.text?.bind Id.read?⟩

instance : Form IdSet := ⟨fun ids => ofItems ids.toList, fun json =>
  (items? json).map fun ids : List Id => Std.ExtTreeSet.ofList ids⟩

instance : Form Instant :=
  ⟨fun instant => Json.ofText instant.text, fun json => json.text?.bind Instant.read?⟩

instance {α : Type} [Form α] : Form (List α) := ⟨ofItems, items?⟩

instance : Form EntityKey where
  toJson entity :=
    Json.ofRecord [("entity_set_id", toJson entity.set), ("entity_key_id", toJson entity.key)]
  ofJson? json := do
    match ← json.record? ["entity_set_id", "entity_key_id"] with
    | [set, key] => return ⟨← required? set, ← required? key⟩
    | _ => none

instance : Form EntityPair where
  toJson pair := Json.ofRecord [("first", toJson pair.first), ("second", toJson pair.second)]
  ofJson? json := do
    match ← json.record? ["first", "second"] with
    | [first, second] => return .of (← required? first) (← required? second)
    | _ => none

namespace Value

def payload : Value → Json
  | text value => Json.ofText value
  | int value => Json.ofInt value
  | double value => Json.ofDouble value
  | bool value => .bool value
  | instant value => toJson value
  | binary bytes => .array (bytes.map fun byte => Json.ofNat byte.toNat)

def ofPayload? (kind : String) (json : Json) : Option Value :=
  match kind with
  | "string" => json.text?.map text
  | "int" => json.signed64?.map int
  | "float" => json.double?.map double
  | "bool" => json.bool?.map bool
  | "timestamp" => (ofJson? json : Option Instant).map instant
  | "binary" =>
      match json with
      | .array items => (items.mapM Json.byte?).map binary
      | _ => none
  | _ => none

end Value

/-- The kind of an object may be any bare name; in an array it is a plain text. -/
instance : Form Value where
  toJson value :=
    Json.ofRecord [("type", Json.ofText value.kindName), ("value", value.payload)]
  ofJson? json :=
    match json with
    | .array [kind, payload] => kind.text?.bind (Value.ofPayload? · payload)
    | _ => do
        match ← json.record? ["type", "value"] with
        | [some kind, some payload] => Value.ofPayload? (← kind.bareName?) payload
        | _ => none

end RecordLinkage
