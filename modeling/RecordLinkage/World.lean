import RecordLinkage.Decimal.Reading
import RecordLinkage.Host

/-! A host in memory: a population of entities with their properties, a search index over their values, a
catalog with one type for each entity set, and three similarity models. -/

namespace RecordLinkage

inductive Scorer where
  | jaccard
  | exact
  | field (type : Id)

namespace Scorer

def terms (properties : Properties) : List (Id × String) :=
  properties.toList.flatMap fun (type, values) =>
    let texts : TextSet := .ofList (values.toList.map Value.searchText)
    texts.toList.map (type, ·)

def ratio (part whole : Nat) : Double :=
  if whole = 0 then .zero else (Double.ofNat part).div (.ofNat whole)

def jaccardScore (a b : Properties) : Double :=
  let left := terms a
  let right := terms b
  let shared := (left.filter right.contains).length
  ratio shared (left.length + right.length - shared)

def exactScore (a b : Properties) : Double :=
  let all : IdSet := .ofList (a.keys ++ b.keys)
  let types := all.toList
  let values (properties : Properties) (type : Id) : Option (List Value) :=
    properties[type]?.map fun values => values.toList
  ratio (types.filter fun type => values a type = values b type).length types.length

def fieldScore (type : Id) (candidate : Properties) : Double :=
  match (candidate.getD type ∅).toList.head? with
  | some value => (Decimal.read? value.searchText).getD .zero
  | none => .zero

def score (scorer : Scorer) (focal candidate : Properties) : Double :=
  match scorer with
  | jaccard => jaccardScore focal candidate
  | exact => exactScore focal candidate
  | field type => fieldScore type candidate

end Scorer

structure World where
  entities : Std.ExtTreeMap EntityKey Properties
  types : Std.ExtTreeMap Id Id
  hidden : EntitySet
  cleared : EntitySet
  fixedHits : Option Members
  streamFailures : Std.ExtTreeMap Id (Nat × LinkError)
  scorer : Scorer

namespace World

def empty (scorer : Scorer) : World := ⟨∅, ∅, ∅, ∅, none, ∅, scorer⟩

def put (world : World) (entity : EntityKey) (properties : Properties) (type : Id) : World :=
  { world with
    entities := world.entities.insert entity properties
    types := world.types.insertIfNew entity.set type }

def hide (world : World) (entity : EntityKey) : Bool × World :=
  (!world.hidden.contains entity, { world with hidden := world.hidden.insert entity })

def clear (world : World) (entity : EntityKey) : Bool × World :=
  (!world.cleared.contains entity, { world with cleared := world.cleared.insert entity })

def setType (world : World) (set : Id) : Option Id → World
  | some type => { world with types := world.types.insert set type }
  | none => { world with types := world.types.erase set }

def removeSet (world : World) (set : Id) : World :=
  { world with
    entities := world.entities.filter fun entity _ => entity.set ≠ set
    types := world.types.erase set }

def answers (request : SearchRequest) (properties : Properties) : Bool :=
  request.fields.toList.any fun (type, wanted) =>
    (properties.getD type ∅).toList.any fun value => wanted.contains value.searchText

def search (world : World) (request : SearchRequest) : Members :=
  match world.fixedHits with
  | some hits => hits
  | none =>
      let hits := world.entities.toList.filter fun (entity, properties) =>
        request.sets.contains entity.set && !world.hidden.contains entity &&
          answers request properties
      .ofEntities ((hits.take request.top).map (·.1))

def loadOne (world : World) (entity : EntityKey) : Properties := world.entities.getD entity ∅

def loadedItem? (world : World) (set key : Id) : Option (Id × Properties) :=
  world.entities[EntityKey.mk set key]?.map fun properties =>
    (key, if world.cleared.contains ⟨set, key⟩ then ∅ else properties)

def loadMany (world : World) (set : Id) (keys : IdSet) : PropertyStream :=
  let items : PropertyStream := (keys.toList.filterMap (world.loadedItem? set)).map .ok
  match world.streamFailures[set]? with
  | some (count, error) => items.take count ++ .error error :: items.drop count
  | none => items

def setsOf (world : World) (type : Id) : IdSet :=
  .ofList ((world.types.toList.filter fun entry => entry.2 = type).map (·.1))

def host (world : World) : Host
  | .search request => .ok (world.search request)
  | .loadOne entity => .ok (world.loadOne entity)
  | .loadMany set keys => .ok (world.loadMany set keys)
  | .typeOf set => .ok world.types[set]?
  | .setsOf type => .ok (world.setsOf type)
  | .score focal candidate => .ok (world.scorer.score focal candidate)

end World

end RecordLinkage
