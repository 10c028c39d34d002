import RecordLinkage.Error
import RecordLinkage.Form

/-! Settings of the linker. A host keeps them as JSON, where everything has a default, and validates
them once. -/

namespace RecordLinkage

structure BlockingConfig where
  top : Nat
  exactMatch : Bool
  propertyTypes : IdSet
  loadBuffer : Nat

structure CacheConfig where
  feedbackLifetime : Nat
  feedbackCapacity : Nat
  entitySetLifetime : Nat

structure LinkingConfig where
  blocking : BlockingConfig
  cache : CacheConfig
  minMatchScore : Double

namespace BlockingConfig

def default : BlockingConfig := ⟨50, false, ∅, 256⟩

def ofPropertyTypes (types : IdSet) : BlockingConfig := { default with propertyTypes := types }

end BlockingConfig

namespace CacheConfig

/-- Lifetimes are in milliseconds. -/
def default : CacheConfig := ⟨30000, 100000, 60000⟩

end CacheConfig

namespace LinkingConfig

def defaultMinMatchScore : Double := ⟨0x3fe8000000000000⟩

def default : LinkingConfig := ⟨.default, .default, defaultMinMatchScore⟩

end LinkingConfig

open Form

instance : Form BlockingConfig where
  toJson config := Json.ofRecord [
    ("top", toJson config.top),
    ("exact_match", toJson config.exactMatch),
    ("linking_property_types", toJson config.propertyTypes),
    ("load_buffer", toJson config.loadBuffer)]
  ofJson? json := do
    let default := BlockingConfig.default
    match ← json.openRecord? ["top", "exact_match", "linking_property_types", "load_buffer"] with
    | [top, exactMatch, propertyTypes, loadBuffer] =>
        return ⟨← defaulted? default.top top, ← defaulted? default.exactMatch exactMatch,
          ← defaulted? default.propertyTypes propertyTypes,
          ← defaulted? default.loadBuffer loadBuffer⟩
    | _ => none

instance : Form CacheConfig where
  toJson config := Json.ofRecord [
    ("feedback_ttl_ms", toJson config.feedbackLifetime),
    ("feedback_capacity", toJson config.feedbackCapacity),
    ("entity_set_ttl_ms", toJson config.entitySetLifetime)]
  ofJson? json := do
    let default := CacheConfig.default
    match ← json.openRecord? ["feedback_ttl_ms", "feedback_capacity", "entity_set_ttl_ms"] with
    | [feedbackLifetime, feedbackCapacity, entitySetLifetime] =>
        return ⟨← defaulted? default.feedbackLifetime feedbackLifetime,
          ← defaulted? default.feedbackCapacity feedbackCapacity,
          ← defaulted? default.entitySetLifetime entitySetLifetime⟩
    | _ => none

instance : Form LinkingConfig where
  toJson config := Json.ofRecord [
    ("blocking", toJson config.blocking),
    ("cache", toJson config.cache),
    ("min_match_score", toJson config.minMatchScore)]
  ofJson? json := do
    let default := LinkingConfig.default
    match ← json.openRecord? ["blocking", "cache", "min_match_score"] with
    | [blocking, cache, minMatchScore] =>
        return ⟨← defaulted? default.blocking blocking, ← defaulted? default.cache cache,
          ← defaulted? default.minMatchScore minMatchScore⟩
    | _ => none

namespace LinkingConfig

def fault? (config : LinkingConfig) : Option ValidationError :=
  let invalid (field reason : String) : Option ValidationError := some (.invalidConfig field reason)
  if config.blocking.top = 0 then invalid "blocking.top" "must be at least 1"
  else if config.blocking.propertyTypes.isEmpty then
    invalid "blocking.linking_property_types" "must name at least one property type"
  else if config.blocking.loadBuffer = 0 then invalid "blocking.load_buffer" "must be at least 1"
  else if config.cache.feedbackLifetime = 0 ∨ config.cache.entitySetLifetime = 0 then
    invalid "cache" "TTLs must be non-zero"
  else if config.cache.feedbackCapacity = 0 then
    invalid "cache.feedback_capacity" "must be at least 1"
  else if config.minMatchScore.inUnit then none
  else invalid "min_match_score" (config.minMatchScore.text ++ " is outside [0.0, 1.0]")

def validate (config : LinkingConfig) : Except LinkError LinkingConfig :=
  match config.fault? with
  | some error => .error (.validation error)
  | none => .ok config

def ofText (text : String) : Except LinkError LinkingConfig :=
  match (Form.read? (utf8 text) : Option LinkingConfig) with
  | some config => config.validate
  | none => .error (.validation (.invalidConfig "<root>" "malformed configuration"))

end LinkingConfig

end RecordLinkage
