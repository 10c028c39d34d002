import RecordLinkage.Cache
import RecordLinkage.Host
import RecordLinkage.Index
import RecordLinkage.Lock
import RecordLinkage.Store.Tables

/-! Programs: trees of calls to the stores, the index, the caches, the locks, the host and the clock. A
program says only which call comes next after which answers, so it can be run alone or one call at a
time between the calls of others. -/

namespace RecordLinkage

inductive Call where
  | host (call : HostCall)
  | read (request : Read)
  | write (request : Write)
  | index (call : IndexCall)
  | feedbackCache (call : CacheCall EntityPair (Option Bool))
  | typeCache (call : CacheCall Id (Option Id))
  | setsCache (call : CacheCall Id IdSet)
  | lock (call : LockCall)
  | now
  | tick
  | drawId

namespace Call

abbrev Answer : Call → Type
  | host call => Except LinkError call.Answer
  | read request => Except LinkError request.Answer
  | write _ => Except LinkError Written
  | index call => Except LinkError call.Answer
  | feedbackCache call => call.Answer
  | typeCache call => call.Answer
  | setsCache call => call.Answer
  | lock _ => Unit
  | now => Instant
  | tick => Int
  | drawId => Id

def refusal? (error : LinkError) : (call : Call) → Option call.Answer
  | host _ => some (.error error)
  | read _ => some (.error error)
  | write _ => some (.error error)
  | index _ => some (.error error)
  | _ => none

def name? : Call → Option String
  | host (.search _) => some "search"
  | host (.loadOne _) => some "load_one"
  | host (.loadMany set _) => some ("load_many/" ++ set.short)
  | host (.typeOf _) => some "catalog.type"
  | host (.setsOf _) => some "catalog.sets"
  | host (.score _ _) => some "score"
  | read (.clustersContaining _) => some "matches.cluster_ids_containing"
  | read (.loadClusters _) => some "matches.load_clusters"
  | read .allEdges => some "matches.all_edges"
  | read (.feedback _) => some "feedback.get"
  | read (.feedbackOn _ _) => some "feedback.find_by_entity"
  | read .allFeedback => some "feedback.all"
  | read (.entriesFor _) => some "log.entries_for"
  | write (.upsertEdges _ _) => some "matches.upsert_edges"
  | write (.deleteEdge _) => some "matches.delete_edge"
  | write (.deleteTouching _ _) => some "matches.delete_touching"
  | write (.deleteTouchingKeys _ _) => some "matches.delete_touching_keys"
  | write (.deleteTouchingSet _) => some "matches.delete_touching_entity_set"
  | write (.upsertFeedback _) => some "feedback.upsert"
  | write (.deleteFeedbackInSet _ _) => some "feedback.delete_for_entity_set"
  | write (.deleteFeedbackOn _) => some "feedback.delete_for_entity"
  | write (.appendEntries _) => some "log.append"
  | write (.deleteEntriesInSet _ _) => some "log.delete_entity_set"
  | write (.deleteEntriesOf _ _) => some "log.delete_members"
  | index (.setCluster _ _ _) => some "index.set_linking_id"
  | index (.record _) => some "index.record"
  | index (.needingLinking _ _) => some "index.needing_linking"
  | index (.notLinked _ _) => some "index.not_linked"
  | _ => none

end Call

inductive Program (α : Type) where
  | done (value : α)
  | ask (call : Call) (next : call.Answer → Program α)

namespace Program

variable {α β : Type}

def bind : Program α → (α → Program β) → Program β
  | done value, rest => rest value
  | ask call next, rest => ask call fun answer => (next answer).bind rest

instance : Monad Program where
  pure := done
  bind := bind

theorem bind_done (program : Program α) : program.bind done = program := by
  induction program with
  | done => rfl
  | ask call next ih => exact congrArg (ask call) (funext ih)

theorem bind_assoc {γ : Type} (program : Program α) (f : α → Program β) (g : β → Program γ) :
    (program.bind f).bind g = program.bind fun value => (f value).bind g := by
  induction program with
  | done => rfl
  | ask call next ih => exact congrArg (ask call) (funext ih)

instance : LawfulMonad Program :=
  LawfulMonad.mk' Program bind_done (fun _ _ => rfl) bind_assoc

def perform (call : Call) : Program call.Answer := ask call done

/-- Runs a program until it is done or has to wait; what is left of it is answered with the state. -/
def run {σ : Type} (answer? : σ → (call : Call) → Option (call.Answer × σ)) :
    Program α → σ → Program α × σ
  | done value, state => (done value, state)
  | ask call next, state =>
      match answer? state call with
      | some (answer, state) => run answer? (next answer) state
      | none => (ask call next, state)

end Program

def EntityKey.draw (set : Id) : Program EntityKey := do
  return ⟨set, ← Program.perform .drawId⟩

abbrev Action := ExceptT LinkError Program

namespace Action

variable {α : Type}

def host (call : HostCall) : Action call.Answer := ExceptT.mk (Program.perform (.host call))

def read (request : Read) : Action request.Answer := ExceptT.mk (Program.perform (.read request))

def write (request : Write) : Action Written := ExceptT.mk (Program.perform (.write request))

def index (call : IndexCall) : Action call.Answer := ExceptT.mk (Program.perform (.index call))

def onFailure (action : Action α) (cleanup : Program Unit) : Action α :=
  ExceptT.mk do
    match ← action.run with
    | .ok value => return .ok value
    | .error error =>
        cleanup
        return .error error

def thenAlways (action : Action α) (cleanup : Program Unit) : Action α :=
  ExceptT.mk do
    let outcome ← action.run
    cleanup
    return outcome

end Action

end RecordLinkage
