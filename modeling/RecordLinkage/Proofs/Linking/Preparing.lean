import RecordLinkage.Proofs.Block.Exchange
import RecordLinkage.Proofs.Linking.Locking
import RecordLinkage.Proofs.Program.Relays

/-! What a pass does before it takes its locks: it looks, and what it finds can be linked. -/

namespace RecordLinkage

namespace Call

def Looks : Call → Prop
  | .host _ | .read _ | .feedbackCache _ | .typeCache _ | .setsCache _ => True
  | .index (.record _) => True
  | _ => False

def Consults : Call → Prop
  | .host _ | .typeCache _ | .setsCache _ => True
  | .index (.record _) => True
  | _ => False

theorem Consults.looks {call : Call} (consults : call.Consults) : call.Looks := by
  cases call with
  | host | typeCache | setsCache => trivial
  | index request =>
      cases request with
      | record entity => trivial
      | _ => exact consults.elim
  | _ => exact consults.elim

end Call

namespace LinkGraph

theorem Answers.looked {mayFail : Prop} {graph after : LinkGraph} {call : Call}
    {answer : call.Answer} (answered : Answers mayFail graph call answer after)
    (looks : call.Looks) :
    after = graph := by
  cases call with
  | read request => cases answer <;> exact answered.1
  | host | feedbackCache | typeCache | setsCache => exact answered
  | index request =>
      cases request with
      | record entity => cases answer <;> exact answered.1
      | _ => exact looks.elim
  | _ => exact looks.elim

end LinkGraph

namespace System

theorem MayAnswer.looked {system after : System} {call : Call} {answer : call.Answer}
    (possible : system.MayAnswer call answer after) (looks : call.Looks) :
    after.store = system.store ∧ after.index = system.index := by
  cases call with
  | index request =>
      cases request with
      | record entity =>
          cases answer with
          | ok answer => exact possible.2 ▸ ⟨rfl, rfl⟩
          | error error => exact possible ▸ ⟨rfl, rfl⟩
      | _ => exact looks.elim
  | host | read | feedbackCache | typeCache | setsCache =>
      exact ⟨possible.fixes.store (by simp), possible.fixes.index (by simp)⟩
  | _ => exact looks.elim

end System

namespace LinkError

def IsNotLocked : LinkError → Prop
  | .validation (.clusterNotLocked _) | .validation (.memberNotLocked _) => True
  | _ => False

end LinkError

namespace Action

variable {α β : Type} {mayFail : Prop}

abbrev Asks (mayFail : Prop) (allowed : Call → Prop) (post : α → Prop) (action : Action α) : Prop :=
  action.Ensures (fun (_ : Unit) call answer _ => call.Succeeds answer ∨ mayFail)
    (fun _ => allowed) (fun error _ => error.IsNotLocked → mayFail) (fun value _ => post value) ()

abbrev Looks (mayFail : Prop) (post : α → Prop) (action : Action α) : Prop :=
  action.Asks mayFail Call.Looks post

abbrev Consults (mayFail : Prop) (post : α → Prop) (action : Action α) : Prop :=
  action.Asks mayFail Call.Consults post

section Asks

variable {allowed : Call → Prop}

theorem asks_bind {found : α → Prop} {post : β → Prop} {action : Action α}
    {rest : α → Action β} (first : action.Asks mayFail allowed found)
    (then' : ∀ value, found value → (rest value).Asks mayFail allowed post) :
    (action >>= rest).Asks mayFail allowed post :=
  (ensures_bind _ _ _).mpr (first.mono fun value _ holds => then' value holds)

theorem asks_any {found : α → Prop} {action : Action α} (asks : action.Asks mayFail allowed found) :
    action.Asks mayFail allowed fun _ => True :=
  asks.mono fun _ _ _ => trivial

theorem Asks.allow {weaker : Call → Prop} {post : α → Prop} {action : Action α}
    (asks : action.Asks mayFail allowed post) (allow : ∀ call, allowed call → weaker call) :
    action.Asks mayFail weaker post :=
  Program.Ensures.allow asks fun _ => allow

/-- What the allowed calls keep of a state is so wherever the action ends. -/
theorem Asks.ensures {σ : Type} {answers : Answering σ} {safe : σ → Call → Prop} {post : α → Prop}
    {action : Action α} {state : σ} (asks : action.Asks True allowed post) (kept : σ → Prop) (start : kept state)
    (fits : ∀ state call, kept state → allowed call → safe state call)
    (keeps : ∀ state call answer after, kept state → allowed call → answers state call answer after → kept after) :
    action.Ensures answers safe (fun _ => kept) (fun value after => kept after ∧ post value) state := by
  refine Program.Ensures.mono (Program.Ensures.simulate asks (fun state _ => kept state) start
    (fun state _ => fits state) ?_) ?_
  · exact fun state _ call answer after held fits answered =>
      ⟨(), .inr trivial, keeps state call answer after held fits answered⟩
  · rintro result after ⟨_, held, holds⟩
    cases result with
    | ok value => exact ⟨held, holds⟩
    | error error => exact held

theorem Asks.holds {σ : Type} {answers : Answering σ} {post : α → Prop} {action : Action α} {value : α}
    {state final : σ} (asks : action.Asks True allowed post)
    (run : Program.Runs answers action.run state (.ok value) final) : post value := by
  have ensured : action.Ensures answers (fun _ _ => True) _ _ state :=
    asks.ensures (fun _ => True) trivial (fun _ _ _ _ => trivial) fun _ _ _ _ _ _ _ => trivial
  exact (run.ensured ensured).2

theorem asks_pure {post : α → Prop} {value : α} (holds : post value) :
    (pure value : Action α).Asks mayFail allowed post := holds

theorem asks_lift {call : Call} (fits : allowed call) :
    Action.Asks mayFail allowed (fun _ => True) (ExceptT.lift (Program.perform call)) :=
  (ensures_lift _ _).mpr ⟨fits, fun _ _ _ => trivial⟩

theorem asks_read {request : Read} (fits : allowed (.read request)) :
    (Action.read request).Asks mayFail allowed fun _ => True := by
  refine ⟨fits, ?_⟩
  intro answer _ succeeds
  cases answer with
  | ok answer => trivial
  | error error => exact fun _ => succeeds.resolve_left id

theorem asks_write {request : Write} (fits : allowed (.write request)) :
    (Action.write request).Asks mayFail allowed fun _ => True := by
  refine ⟨fits, ?_⟩
  intro answer _ succeeds
  cases answer with
  | ok answer => trivial
  | error error => exact fun _ => succeeds.resolve_left id

theorem asks_index {call : IndexCall} (fits : allowed (.index call)) :
    (Action.index call).Asks mayFail allowed fun _ => True := by
  refine ⟨fits, ?_⟩
  intro answer _ succeeds
  cases answer with
  | ok answer => trivial
  | error error => exact fun _ => succeeds.resolve_left id

theorem asks_of_relays {action : Action α} (relays : action.Relays allowed) :
    action.Asks True allowed fun _ => True :=
  relays.ensures trivial (fun _ _ _ fits => fits) (fun _ _ _ _ _ _ _ => trivial)
    fun _ _ _ _ _ _ _ _ _ _ => trivial

theorem asks_pointer {entity : EntityKey} (fits : allowed (.index (.record entity))) :
    (ClusterGraph.pointer entity).Asks mayFail allowed fun _ => True :=
  asks_bind (asks_index fits) fun _ _ => asks_pure trivial

theorem asks_host {call : HostCall} (fits : allowed (.host call)) :
    (Action.host call).Asks mayFail allowed fun answer =>
      (Call.host call).Succeeds (.ok answer) ∨ mayFail := by
  refine ⟨fits, ?_⟩
  intro answer _ succeeds
  cases answer with
  | ok answer => exact succeeds
  | error error => exact fun _ => succeeds.resolve_left (by cases call <;> exact id)

theorem asks_fetch {κ ν : Type} {step : (call : CacheCall κ ν) → Program call.Answer} {key : κ}
    {load : Action ν}
    (steps : ∀ call, Action.Asks mayFail allowed (fun _ => True) (ExceptT.lift (step call)))
    (loads : load.Asks mayFail allowed fun _ => True) :
    (Cache.fetch step key load).Asks mayFail allowed fun _ => True := by
  refine asks_bind (steps _) ?_
  intro found _
  cases found with
  | some value => exact asks_pure trivial
  | none =>
      refine asks_bind (steps _) fun seen _ => asks_bind loads fun value _ => ?_
      exact asks_bind (steps (.land key value seen)) fun _ _ => asks_pure trivial

theorem asks_typeOf (asked : ∀ set, allowed (.host (.typeOf set))) (caches : ∀ request, allowed (.typeCache request))
    (cached : Bool) (set : Id) : (Catalog.typeOf cached set).Asks mayFail allowed fun _ => True := by
  unfold Catalog.typeOf
  split
  · exact asks_fetch (fun call => asks_lift (caches call)) (asks_any (asks_host (asked set)))
  · exact asks_any (asks_host (asked set))

theorem asks_setsOf (asked : ∀ entityType, allowed (.host (.setsOf entityType)))
    (caches : ∀ request, allowed (.setsCache request)) (cached : Bool) (entityType : Id) :
    (Catalog.setsOf cached entityType).Asks mayFail allowed fun _ => True := by
  unfold Catalog.setsOf
  split
  · exact asks_fetch (fun call => asks_lift (caches call)) (asks_any (asks_host (asked entityType)))
  · exact asks_any (asks_host (asked entityType))

section Feedback

variable (reads : ∀ request, allowed (.read request)) (caches : ∀ request, allowed (.feedbackCache request))

include reads caches

theorem asks_get (a b : EntityKey) : (FeedbackService.get a b).Asks mayFail allowed fun _ => True := by
  have stored : (FeedbackService.stored (.of a b)).Asks mayFail allowed fun _ => True :=
    asks_bind (asks_read (reads _)) fun _ _ => asks_pure trivial
  have verdict : (FeedbackService.verdict (.of a b)).Asks mayFail allowed fun _ => True :=
    asks_fetch (fun call => asks_lift (caches call)) stored
  exact asks_bind verdict fun _ _ => asks_pure trivial

theorem asks_hasNegative (a b : EntityKey) :
    (FeedbackService.hasNegative a b).Asks mayFail allowed fun _ => True :=
  asks_bind (asks_get reads caches a b) fun _ _ => asks_pure trivial

theorem asks_undisputed (focal : EntityKey) (entities : List EntityKey) :
    (Block.undisputed focal entities).Asks mayFail allowed fun _ => True := by
  induction entities with
  | nil => exact asks_pure trivial
  | cons entity entities ih =>
      unfold Block.undisputed
      have tail : ∀ disputed : Bool, Action.Asks mayFail allowed (fun _ => True) (do
          let rest ← Block.undisputed focal entities
          return if disputed then rest else entity :: rest) :=
        fun disputed => asks_bind ih fun _ _ => asks_pure trivial
      split
      · exact tail false
      · exact asks_bind (asks_hasNegative reads caches focal entity) fun disputed _ => tail disputed

end Feedback

theorem ofStream_sound {set : Id} {stream : PropertyStream}
    (loads : ∀ item ∈ stream, ∃ loaded, item = .ok loaded) (error : LinkError) :
    .error error ∉ Loaded.ofStream set stream := by
  induction stream with
  | nil => simp [Loaded.ofStream]
  | cons item stream ih =>
      obtain ⟨⟨key, properties⟩, rfl⟩ := loads item (.head _)
      simp only [Loaded.ofStream, List.mem_cons, reduceCtorEq, false_or]
      exact ih fun other listed => loads other (.tail _ listed)

theorem asks_openStreams (loads : ∀ set keys, allowed (.host (.loadMany set keys))) (groups : List (Id × IdSet)) :
    (Block.openStreams groups).Asks mayFail allowed fun streams =>
      ∀ items ∈ streams, ∀ error, .error error ∈ items → error.IsNotLocked → mayFail := by
  induction groups with
  | nil => exact asks_pure (by simp)
  | cons group groups ih =>
      obtain ⟨set, keys⟩ := group
      unfold Block.openStreams
      refine (ensures_bind _ _ _).mpr ((ensures_lift _ _).mpr ⟨loads set keys, ?_⟩)
      intro answer _ succeeds
      refine asks_bind ih fun streams sound => asks_pure ?_
      intro items listed error failing
      rcases List.mem_cons.mp listed with rfl | other
      · rcases succeeds with given | failed
        · cases answer with
          | error refused => exact given.elim
          | ok stream => exact absurd failing (ofStream_sound given error)
        · exact fun _ => failed
      · exact sound items other error failing

theorem asks_load (loads : ∀ set keys, allowed (.host (.loadMany set keys))) (config : BlockingConfig)
    (focal : EntityKey) (properties : Properties) (entities : List EntityKey) :
    (Block.load config focal properties entities).Asks mayFail allowed fun _ => True := by
  refine asks_bind (asks_openStreams loads _) ?_
  intro streams sound
  have carries : (Exchange.start config.propertyTypes config.loadBuffer streams
      (if entities.contains focal then .ofList [(focal, properties)] else ∅)).Carries
        fun item => ∀ error, item = .error error → error.IsNotLocked → mayFail :=
    Exchange.carries_start
      (fun items listed item among error same => sound items listed error (same ▸ among))
      (fun _ _ _ _ same => nomatch same)
  have ended := carries.finish.result
  change outcome _ _ (Exchange.result _) _
  revert ended
  cases (Exchange.start config.propertyTypes config.loadBuffer streams
      (if entities.contains focal then .ofList [(focal, properties)] else ∅)).finish.result with
  | ok candidates => exact fun _ => trivial
  | error error => exact fun ended => ended error rfl

end Asks

theorem Consults.looks {post : α → Prop} {action : Action α} (consults : action.Consults mayFail post) :
    action.Looks mayFail post :=
  consults.allow fun _ => Call.Consults.looks

theorem consults_score (focal : EntityKey) (properties : Properties) (positive : PairSet)
    (candidate : EntityKey × Properties) :
    (Linking.score focal properties positive candidate).Consults mayFail fun _ => True := by
  unfold Linking.score
  split
  · exact asks_pure trivial
  · exact asks_any (asks_host trivial)

theorem looks_build (config : BlockingConfig) (cached : Bool) (focal : EntityKey) (top : Nat) :
    (Block.build config cached focal top).Looks mayFail fun block => block.focal = focal := by
  refine asks_bind (asks_host trivial) fun properties _ => ?_
  split
  · exact asks_pure rfl
  · refine asks_bind (asks_typeOf (fun _ => trivial) (fun _ => trivial) cached focal.set) fun entityType _ => ?_
    cases entityType with
    | none => exact (ensures_throw _ _).mpr fun locking => locking.elim
    | some entityType =>
        refine asks_bind (asks_setsOf (fun _ => trivial) (fun _ => trivial) cached entityType) fun sets _ => ?_
        refine asks_bind (asks_host trivial) fun hits _ => ?_
        refine asks_bind (asks_undisputed (fun _ => trivial) (fun _ => trivial) focal _) fun entities _ => ?_
        exact asks_bind (asks_load (fun _ _ => trivial) config focal properties entities) fun _ _ => asks_pure rfl

theorem looks_refresh (rows : List Feedback) :
    (FeedbackService.refresh rows).Looks mayFail fun _ => True := by
  induction rows with
  | nil => exact asks_pure trivial
  | cons row rows ih => exact asks_bind (asks_lift trivial) fun _ _ => ih

theorem looks_onEntity (verdict : Verdict) (entity : EntityKey) :
    (FeedbackService.onEntity verdict entity).Looks mayFail fun _ => True :=
  asks_bind (asks_read trivial) fun rows _ =>
    asks_bind (looks_refresh rows) fun _ _ => asks_pure trivial

theorem looks_positivePairs (focal : EntityKey) :
    (FeedbackService.positivePairs focal).Looks mayFail fun _ => True :=
  asks_bind (looks_onEntity .positive focal) fun _ _ => asks_pure trivial

theorem looks_scoreAll {focal : EntityKey} {properties : Properties} {positive : PairSet}
    {minimum : Double} {candidates : List (EntityKey × Properties)} {scored : Scored}
    (sound : scored.Sound focal) :
    (Linking.scoreAll focal properties positive minimum candidates scored).Looks mayFail
      (Scored.Sound focal) := by
  induction candidates generalizing scored with
  | nil => exact asks_pure sound
  | cons candidate candidates ih =>
      unfold Linking.scoreAll
      split
      · exact ih sound
      · refine asks_bind (consults_score focal properties positive candidate).looks fun score _ => ?_
        split
        · exact (ensures_throw _ _).mpr fun locking => locking.elim
        · rename_i inUnit
          split
          · refine ih ⟨by simp [sound.focal], ?_⟩
            intro entity known found
            rw [Std.ExtTreeMap.getElem?_insert] at found
            split at found
            · simp only [Option.some.injEq] at found
              subst found
              simpa using inUnit
            · exact sound.inUnit entity known found
          · exact ih sound

theorem looks_scoreBlock (block : Block) (positive : PairSet) (minimum : Double) :
    (Linking.scoreBlock block positive minimum).Looks mayFail (Scored.Sound block.focal) := by
  unfold Linking.scoreBlock
  split
  · exact (ensures_throw _ _).mpr fun locking => locking.elim
  · apply looks_scoreAll
    refine ⟨by simp, ?_⟩
    intro entity score found
    simp only [Std.ExtTreeMap.ofList_singleton, Std.ExtTreeMap.getElem?_insert,
      Std.ExtTreeMap.getElem?_empty] at found
    split at found
    · simp only [Option.some.injEq] at found
      rw [← found]
      decide
    · contradiction

end Action

namespace Linker

def prepare (linker : Linker) (focal : EntityKey) : Action (LinkOutcome ⊕ Prepared) := do
  let block ← linker.block focal
  if block.isEmpty then return .inl (.skipped focal (← ClusterGraph.pointer focal))
  else
    let positive ← FeedbackService.positivePairs focal
    let scored ← Linking.scoreBlock block positive linker.config.minMatchScore
    return .inr ⟨focal, scored, positive⟩

end Linker

namespace Prepared

theorem Sound.filled {prepared : Prepared} (sound : prepared.Sound) :
    prepared.members.isEmpty = false := by
  rw [← Bool.not_eq_true, Std.ExtTreeSet.isEmpty_iff]
  intro none
  exact Std.ExtTreeSet.not_mem_empty (none ▸ mem_members.mpr sound.focal)

def settle (prepared : Prepared) (transaction : Transaction) : Action LinkOutcome := do
  let outcome ← (Linking.place transaction prepared.focal prepared.scored
    prepared.positive).onFailure transaction.rollback
  let _ ← transaction.emptied.commit
  return outcome

theorem settle_eq (prepared : Prepared) (transaction : Transaction) :
    prepared.settle transaction = (Linking.place transaction prepared.focal prepared.scored
      prepared.positive).thenAlways transaction.release := by
  apply ExceptT.ext
  simp only [settle, Action.onFailure, Action.thenAlways, ExceptT.run_bind, ExceptT.run_mk,
    bind_assoc]
  refine bind_congr fun result => ?_
  cases result with
  | ok outcome =>
      have commits : transaction.emptied.commit.run = transaction.release >>= fun _ => pure (.ok 0) :=
        rfl
      simp only [pure_bind, commits, bind_assoc]
      rfl
  | error error =>
      simp only [bind_assoc, pure_bind]
      rfl

def finish (prepared : Prepared) : Action LinkOutcome := do
  let transaction ← ClusterGraph.lockMembers prepared.members
  prepared.settle transaction

end Prepared

namespace Linking

def resume : LinkOutcome ⊕ Prepared → Action LinkOutcome
  | .inl outcome => return outcome
  | .inr prepared => prepared.finish

def Found : LinkOutcome ⊕ Prepared → Prop
  | .inl outcome => outcome.isSkipped
  | .inr prepared => prepared.Sound

end Linking

namespace Linker

theorem link_eq (linker : Linker) (focal : EntityKey) :
    linker.link focal = linker.prepare focal >>= Linking.resume := by
  simp only [link, prepare, bind_assoc]
  refine bind_congr fun block => ?_
  split
  · simp only [bind_assoc, pure_bind]
    rfl
  · simp only [bind_assoc, pure_bind]
    rfl

theorem looks_prepare_of {mayFail : Prop} (linker : Linker) (focal : EntityKey) :
    (linker.prepare focal).Looks mayFail fun found =>
      Linking.Found found ∧ ∀ prepared, found = .inr prepared → prepared.focal = focal := by
  refine Action.asks_bind (Action.looks_build _ _ _ _) ?_
  rintro block rfl
  split
  · exact Action.asks_bind (Action.asks_pointer trivial) fun _ _ => Action.asks_pure ⟨rfl, nofun⟩
  · refine Action.asks_bind (Action.looks_positivePairs _) fun positive _ => ?_
    refine Action.asks_bind (Action.looks_scoreBlock _ _ _) fun scored sound => ?_
    refine Action.asks_pure ⟨sound, ?_⟩
    rintro _ ⟨rfl⟩
    rfl

theorem looks_prepare {mayFail : Prop} (linker : Linker) (focal : EntityKey) :
    (linker.prepare focal).Looks mayFail Linking.Found :=
  (linker.looks_prepare_of focal).mono fun _ _ => And.left

end Linker

namespace Sample

def set : Id := .ofNat 1

def left : EntityKey := ⟨set, .ofNat 1⟩

def right : EntityKey := ⟨set, .ofNat 2⟩

def type : Id := .ofNat 3

def properties : Properties :=
  let values : ValueSet := .ofList [Value.bool true]
  .ofList [(type, values)]

def host : Host
  | .search _ => .ok (.ofEntities [left, right])
  | .loadOne _ => .ok properties
  | .loadMany _ keys => .ok (keys.toList.map fun key => .ok (key, properties))
  | .typeOf _ => .ok (some type)
  | .setsOf _ => .ok (.ofList [set])
  | .score _ _ => .ok .one

theorem host_succeeds (call : HostCall) : (Call.host call).Succeeds (host call) := by
  cases call with
  | loadMany set keys =>
      intro item listed
      obtain ⟨key, _, rfl⟩ := List.mem_map.mp listed
      exact ⟨_, rfl⟩
  | _ => trivial

def noon : Instant := ⟨⟨2024, 5, 1, by decide, by decide, by decide⟩, 43200, 0, by decide⟩

def linker : Linker :=
  ⟨{ LinkingConfig.default with blocking := .ofPropertyTypes (.ofList [type]) }, false⟩

def start : System := .fresh .empty host 1 (fun _ => noon) fun reading => .ofNat (100 + reading)

end Sample

end RecordLinkage
