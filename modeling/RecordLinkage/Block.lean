import RecordLinkage.Block.Exchange
import RecordLinkage.Catalog
import RecordLinkage.Config
import RecordLinkage.Feedback.Service

/-! Blocks: the candidates worth scoring against one focal entity. The search index proposes them from
the focal entity's values, known non-matches are dropped, and the properties of the others are
loaded. An entity with a usable value is in its own block; one without has an empty block. -/

namespace RecordLinkage

structure Block where
  focal : EntityKey
  candidates : Candidates

namespace Block

def isEmpty (block : Block) : Bool := block.candidates.isEmpty

def size (block : Block) : Nat := block.candidates.size

def containsFocal (block : Block) : Bool := block.candidates.contains block.focal

def focalProperties? (block : Block) : Option Properties := block.candidates[block.focal]?

/-- The hits that count: those in the sets that were searched, or the focal entity alone if it is not
among them. -/
def usableHits (focal : EntityKey) (sets : IdSet) (hits : Members) : List EntityKey :=
  let usable := hits.entities.filter fun entity => sets.contains entity.set
  if usable.contains focal then usable else [focal]

def undisputed (focal : EntityKey) : List EntityKey → Action (List EntityKey)
  | [] => return []
  | entity :: entities => do
      let disputed ← if entity = focal then pure false else FeedbackService.hasNegative focal entity
      let rest ← undisputed focal entities
      return if disputed then rest else entity :: rest

def openStreams : List (Id × IdSet) → Action (List (List Loaded))
  | [] => return []
  | (set, keys) :: groups => do
      let answer ← ExceptT.lift (Action.host (.loadMany set keys)).run
      let rest ← openStreams groups
      return Loaded.ofAnswer set answer :: rest

def load (config : BlockingConfig) (focal : EntityKey) (properties : Properties)
    (entities : List EntityKey) : Action Candidates := do
  let own : Candidates := if entities.contains focal then .ofList [(focal, properties)] else ∅
  let others := Members.ofEntities (entities.filter fun entity => entity ≠ focal)
  let streams ← openStreams others.toList
  let exchange := Exchange.start config.propertyTypes config.loadBuffer streams own
  ExceptT.mk (return exchange.finish.result)

def request (config : BlockingConfig) (entityType : Id) (sets : IdSet) (properties : Properties)
    (top : Nat) : SearchRequest :=
  ⟨entityType, sets, properties.fieldSearches config.propertyTypes, top, config.exactMatch⟩

def build (config : BlockingConfig) (cachesCatalog : Bool) (focal : EntityKey) (top : Nat) :
    Action Block := do
  let properties : Properties ← Action.host (.loadOne focal)
  if !properties.hasValuesFor config.propertyTypes then return ⟨focal, ∅⟩
  else
    match ← Catalog.typeOf cachesCatalog focal.set with
    | none => throw (.execution (.unknownEntitySet focal.set))
    | some entityType =>
        let sets ← Catalog.setsOf cachesCatalog entityType
        let hits : Members ←
          Action.host (.search (request config entityType sets properties top))
        let entities ← undisputed focal (usableHits focal sets hits)
        return ⟨focal, ← load config focal properties entities⟩

end Block

end RecordLinkage
