import RecordLinkage.Proofs.Feedback.Coherence
import RecordLinkage.Proofs.Linking.Candidates

/-! What a pass finds out before it takes its locks is settled by the host and the feedback table alone. Caches
hold only what these two say, so a look-up has the same result whether its answer was cached or not. -/

namespace RecordLinkage

namespace Exchange

variable {before after : Exchange} {entity : EntityKey}

theorem mem_received_of_step {move : Move} (member : entity ∈ before.received)
    (moved : before.step? move = some after) : entity ∈ after.received := by
  cases move with
  | send sender =>
      simp only [step?, send?] at moved
      split at moved
      · split at moved
        · exact Option.some.inj moved ▸ member
        · split at moved
          · exact Option.some.inj moved ▸ member
          · cases moved
      · cases moved
  | receive =>
      simp only [step?, receive?] at moved
      split at moved
      · cases moved
      · split at moved
        · rename_i other properties channel _
          obtain rfl := Option.some.inj moved
          simp only [take]
          split
          · exact Std.ExtTreeMap.mem_insert.mpr (.inr member)
          · exact member
        · exact Option.some.inj moved ▸ member
        · split at moved
          · exact Option.some.inj moved ▸ member
          · cases moved

theorem mem_received_finish (member : entity ∈ before.received) : entity ∈ before.finish.received := by
  induction before using Exchange.finish.induct with
  | case1 before moved same ih =>
      rw [Exchange.finish, same]
      exact ih (mem_received_of_step member same)
  | case2 before none =>
      rw [Exchange.finish, none]
      exact member

/-- What was there at the start is among the candidates in the end. -/
theorem mem_result_start {types : IdSet} {capacity : Nat} {senders : List (List Loaded)}
    {received candidates : Candidates} (member : entity ∈ received)
    (ended : (start types capacity senders received).finish.result = .ok candidates) : entity ∈ candidates := by
  have carries : (start types capacity senders received).Carries fun _ => True :=
    carries_start (fun _ _ _ _ => trivial) fun _ _ _ => trivial
  have last : entity ∈ (start types capacity senders received).finish.received := mem_received_finish member
  unfold result at ended
  cases ends : (start types capacity senders received).finish.outcome with
  | none =>
      rw [ends] at ended
      exact Except.ok.inj ended ▸ last
  | some result =>
      rw [ends] at ended
      obtain rfl : result = .ok candidates := ended
      exact carries.finish.ended candidates ends ▸ last

end Exchange

def Host.Succeeds (host : Host) : Prop := ∀ request, (Call.host request).Succeeds (host request)

structure Host.Reliable (host : Host) : Prop where
  succeeds : ∀ request, (Call.host request).Succeeds (host request)
  inUnit : ∀ focal candidate score, host (.score focal candidate) = .ok score → score.inUnit

def Host.Knows (host : Host) (entity : EntityKey) : Prop :=
  ∃ entityType, host (.typeOf entity.set) = .ok (some entityType)

theorem Host.Succeeds.ne_error {host : Host} (sound : host.Succeeds) {request : HostCall} {error : LinkError} :
    host request ≠ .error error := by
  intro failed
  have succeeds := sound request
  rw [failed] at succeeds
  cases request <;> exact succeeds.elim

def Host.streams (host : Host) (groups : List (Id × IdSet)) : List (List Loaded) :=
  groups.map fun group => Loaded.ofAnswer group.1 (host (.loadMany group.1 group.2))

theorem Host.Succeeds.streams {host : Host} (sound : host.Succeeds) {groups : List (Id × IdSet)} :
    ∀ items ∈ host.streams groups, ∀ error, .error error ∉ items := by
  intro items listed error
  obtain ⟨group, _, rfl⟩ := List.mem_map.mp listed
  have succeeds := sound (.loadMany group.1 group.2)
  cases answered : host (.loadMany group.1 group.2) with
  | error error => exact absurd answered sound.ne_error
  | ok stream =>
      rw [answered] at succeeds
      exact Action.ofStream_sound succeeds error

def FeedbackTable.permits (feedback : FeedbackTable) (focal entity : EntityKey) : Bool :=
  entity = focal || feedback.rows[EntityPair.of focal entity]? ≠ some false

namespace Block

theorem mem_usableHits (focal : EntityKey) (sets : IdSet) (hits : Members) : focal ∈ usableHits focal sets hits := by
  unfold usableHits
  dsimp only
  split
  · exact List.contains_iff_mem.mp ‹_›
  · exact .head _

def exchange (config : BlockingConfig) (host : Host) (focal : EntityKey) (properties : Properties)
    (entities : List EntityKey) : Exchange :=
  .start config.propertyTypes config.loadBuffer
    (host.streams (Members.ofEntities (entities.filter fun entity => entity ≠ focal)).toList)
    (if entities.contains focal then .ofList [(focal, properties)] else ∅)

end Block

def CacheCall.Says {κ ν : Type} (right : κ → ν → Prop) : (call : CacheCall κ ν) → call.Answer → Prop
  | .find key, some value => right key value
  | _, _ => True

def FeedbackTable.positivePairs (feedback : FeedbackTable) (entity : EntityKey) : PairSet :=
  .ofList ((feedback.findByEntity entity .positive).map Feedback.pair)

def Linking.Scores (host : Host) (focal : EntityKey) (own : Properties) (positive : PairSet)
    (candidate : EntityKey × Properties) (score : Double) : Prop :=
  if EntityPair.of focal candidate.1 ∈ positive then score = .one
  else host (.score own candidate.2) = .ok score

theorem Linking.Scores.inUnit {host : Host} {focal : EntityKey} {own : Properties} {positive : PairSet}
    {candidate : EntityKey × Properties} {score : Double}
    (scores : Linking.Scores host focal own positive candidate score) (reliable : host.Reliable) :
    score.inUnit := by
  unfold Linking.Scores at scores
  split at scores
  · rw [scores]
    decide
  · exact reliable.inUnit _ _ score scores

theorem Linking.Scores.unique {host : Host} {focal : EntityKey} {own : Properties} {positive : PairSet}
    {candidate : EntityKey × Properties} {score other : Double}
    (scores : Linking.Scores host focal own positive candidate score)
    (scores' : Linking.Scores host focal own positive candidate other) : score = other := by
  unfold Linking.Scores at scores scores'
  split at scores
  · rw [if_pos ‹_›] at scores'
    exact scores.trans scores'.symm
  · rw [if_neg ‹_›] at scores'
    exact Except.ok.inj (scores.symm.trans scores')

/-- A candidate that is accepted joins those with a score. -/
theorem Linking.Scores.inserted {host : Host} {focal : EntityKey} {own : Properties} {positive : PairSet}
    {candidate : EntityKey × Properties} {score minimum : Double} {scored : Std.ExtTreeMap EntityKey Double}
    (scores : Linking.Scores host focal own positive candidate score) (other : candidate.1 ≠ focal)
    (unscored : candidate.1 ∉ scored) (least : minimum.le score) {entity : EntityKey} {best : Double} :
    (scored.insert candidate.1 score)[entity]? = some best ↔ scored[entity]? = some best ∨
      candidate.1 = entity ∧ entity ≠ focal ∧ Linking.Scores host focal own positive candidate best ∧
        minimum.le best := by
  rw [Std.ExtTreeMap.getElem?_insert]
  split
  · rename_i same
    obtain rfl := Std.LawfulEqOrd.eq_of_compare same
    have none : scored[candidate.1]? = none := by simpa using unscored
    simp only [none, reduceCtorEq, false_or, true_and, Option.some.injEq]
    exact ⟨fun same => same ▸ ⟨other, scores, least⟩, fun found => scores.unique found.2.1⟩
  · rename_i apart
    have apart : candidate.1 ≠ entity := by simpa using apart
    simp [apart]

def Block.Accepts (block : Block) (host : Host) (positive : PairSet) (minimum : Double) (entity : EntityKey)
    (score : Double) : Prop :=
  entity = block.focal ∧ score = .one ∨
  entity ≠ block.focal ∧ ∃ own properties, block.focalProperties? = some own ∧
    block.candidates[entity]? = some properties ∧
    Linking.Scores host block.focal own positive (entity, properties) score ∧ minimum.le score

namespace Call

def Tells (host : Host) (feedback : FeedbackTable) (recalled mayFail : Prop) : (call : Call) → call.Answer → Prop
  | .host request, answer => answer = host request
  | .read (.feedback pair), .ok row => row = feedback.get? pair
  | .read (.feedbackOn entity verdict), .ok rows => rows = feedback.findByEntity entity verdict
  | .read _, .error _ => mayFail
  | .index _, .error _ => mayFail
  | .feedbackCache request, answer => recalled → request.Says (fun pair value => feedback.rows[pair]? = value) answer
  | .typeCache request, answer => recalled → request.Says (fun set value => host (.typeOf set) = .ok value) answer
  | .setsCache request, answer =>
      recalled → request.Says (fun entityType value => host (.setsOf entityType) = .ok value) answer
  | _, _ => True

def Lands (host : Host) (feedback : FeedbackTable) : Call → Prop
  | .feedbackCache request => request.Puts fun pair value => feedback.rows[pair]? = value
  | .typeCache request => request.Puts fun set value => host (.typeOf set) = .ok value
  | .setsCache request => request.Puts fun entityType value => host (.setsOf entityType) = .ok value
  | call => call.Looks

theorem Lands.looks {host : Host} {feedback : FeedbackTable} {call : Call} (lands : call.Lands host feedback) :
    call.Looks := by
  cases call with
  | feedbackCache | typeCache | setsCache => trivial
  | _ => exact lands

end Call

namespace Action

variable {α β : Type}

abbrev Told (host : Host) (feedback : FeedbackTable) (recalled mayFail : Prop) (refused : LinkError → Prop)
    (post : α → Prop) (action : Action α) : Prop :=
  action.Ensures (fun (_ : Unit) call answer _ => call.Tells host feedback recalled mayFail answer)
    (fun _ call => call.Lands host feedback) (fun error _ => refused error) (fun value _ => post value) ()

def Resolves (host : Host) (feedback : FeedbackTable) (recalled serves : Prop) (post : α → Prop)
    (action : Action α) : Prop :=
  ∃ result : Except LinkError α, (∀ error, result = .error error → ¬serves) ∧
    (∀ value, result = .ok value → post value) ∧ ∀ mayFail,
      action.Told host feedback recalled mayFail (fun error => result = .error error ∨ mayFail) (result = .ok ·)

section Resolves

variable {host : Host} {feedback : FeedbackTable} {recalled mayFail serves : Prop}

theorem resolves_pure {post : α → Prop} {value : α} (holds : post value) :
    (pure value : Action α).Resolves host feedback recalled serves post := by
  refine ⟨.ok value, nofun, ?_, fun _ => rfl⟩
  rintro _ ⟨rfl⟩
  exact holds

theorem resolves_throw {post : α → Prop} {error : LinkError} (idle : ¬serves) :
    (throw error : Action α).Resolves host feedback recalled serves post :=
  ⟨.error error, fun _ _ => idle, nofun, fun _ => .inl rfl⟩

theorem resolves_bind {found : α → Prop} {post : β → Prop} {action : Action α} {rest : α → Action β}
    (first : action.Resolves host feedback recalled serves found)
    (then' : ∀ value, found value → (rest value).Resolves host feedback recalled serves post) :
    (action >>= rest).Resolves host feedback recalled serves post := by
  obtain ⟨result, serving, known, told⟩ := first
  cases result with
  | error error =>
      refine ⟨.error error, fun _ _ => serving error rfl, nofun, fun mayFail => (ensures_bind _ _ _).mpr ?_⟩
      refine ((told mayFail).refuse ?_).mono fun _ _ => nofun
      rintro other _ (same | failed)
      · exact .inl (congrArg _ (Except.error.inj same))
      · exact .inr failed
  | ok value =>
      obtain ⟨last, serving, holds, rest'⟩ := then' value (known value rfl)
      refine ⟨last, serving, holds, fun mayFail => (ensures_bind _ _ _).mpr ?_⟩
      refine ((told mayFail).refuse fun _ _ refused => .inr (refused.resolve_left nofun)).mono ?_
      rintro _ _ ⟨rfl⟩
      exact rest' mayFail

theorem Resolves.mono {post weaker : α → Prop} {action : Action α}
    (resolves : action.Resolves host feedback recalled serves post) (weaken : ∀ value, post value → weaker value) :
    action.Resolves host feedback recalled serves weaker := by
  obtain ⟨result, serving, holds, told⟩ := resolves
  exact ⟨result, serving, fun value same => weaken value (holds value same), told⟩

/-- As long as the host serves and no call of the stores fails, there is no error. -/
theorem Resolves.told {post : α → Prop} {action : Action α}
    (resolves : action.Resolves host feedback recalled True post) :
    action.Told host feedback recalled False (fun _ => False) post := by
  obtain ⟨result, serves, known, told⟩ := resolves
  refine ((told False).refuse ?_).mono fun value _ => known value
  rintro error _ (failed | failed)
  · exact serves error failed trivial
  · exact failed

theorem told_pointer (entity : EntityKey) :
    (ClusterGraph.pointer entity).Told host feedback recalled False (fun _ => False) fun _ => True := by
  refine (ensures_bind _ _ _).mpr ⟨trivial, ?_⟩
  rintro (error | record) _ told
  · exact told
  · trivial

theorem told_host (request : HostCall) : (Action.host request).Told host feedback recalled mayFail
    (fun error => host request = .error error ∨ mayFail) (host request = .ok ·) := by
  refine ⟨trivial, ?_⟩
  rintro answer _ rfl
  cases answered : host request with
  | ok answer => exact rfl
  | error error => exact .inl rfl

theorem resolves_host (sound : serves → host.Succeeds) (request : HostCall) :
    (Action.host request).Resolves host feedback recalled serves (host request = .ok ·) :=
  ⟨host request, fun _ failed serving => (sound serving).ne_error failed, fun _ => id, fun _ => told_host request⟩

/-- Whether the call fails or not, its answer is the result. -/
theorem resolves_attempt (request : HostCall) :
    Action.Resolves host feedback recalled serves (host request = ·) (ExceptT.lift (Action.host request).run) := by
  refine ⟨.ok (host request), nofun, ?_, fun _ => (ensures_lift _ _).mpr ⟨trivial, ?_⟩⟩
  · rintro _ ⟨rfl⟩
    rfl
  · rintro _ _ rfl
    exact rfl

theorem resolves_result {post : α → Prop} {result : Except LinkError α}
    (serving : ∀ error, result = .error error → ¬serves) (holds : ∀ value, result = .ok value → post value) :
    Action.Resolves host feedback recalled serves post (ExceptT.mk (return result)) := by
  refine ⟨result, serving, holds, fun _ => ?_⟩
  cases result with
  | ok value => exact rfl
  | error error => exact .inl rfl

/-- A look-up through a cache has the result of its load. -/
theorem resolves_fetch {κ ν : Type} {step : (call : CacheCall κ ν) → Program call.Answer} {key : κ}
    {load : Action ν} (right : κ → ν → Prop) (result : Except LinkError ν)
    (steps : ∀ mayFail call, call.Puts right → (step call).Ensures
      (fun (_ : Unit) call answer _ => call.Tells host feedback recalled mayFail answer)
      (fun _ call => call.Lands host feedback) (fun answer _ => call.Says right answer) ())
    (serving : ∀ error, result = .error error → ¬serves) (known : ∀ value, right key value ↔ result = .ok value)
    (loads : ∀ mayFail,
      load.Told host feedback recalled mayFail (fun error => result = .error error ∨ mayFail) (result = .ok ·)) :
    (Cache.fetch step key load).Resolves host feedback recalled serves (right key) := by
  refine ⟨result, serving, fun value => (known value).mpr, fun mayFail => ?_⟩
  refine (ensures_bind _ _ _).mpr ((ensures_lift _ _).mpr ((steps mayFail (.find key) trivial).mono ?_))
  intro found _ truthful
  cases found with
  | some value => exact (known value).mp truthful
  | none =>
      refine (ensures_bind _ _ _).mpr ((ensures_lift _ _).mpr ((steps mayFail .countWrites trivial).mono ?_))
      intro seen _ _
      refine (ensures_bind _ _ _).mpr ((loads mayFail).mono fun value _ same => ?_)
      refine (ensures_bind _ _ _).mpr ((ensures_lift _ _).mpr ?_)
      exact (steps mayFail (.land key value seen) ((known value).mpr same)).mono fun _ _ _ => same

theorem resolves_typeOf (recalls : recalled) (sound : serves → host.Succeeds) (cached : Bool) (set : Id) :
    (Catalog.typeOf cached set).Resolves host feedback recalled serves (host (.typeOf set) = .ok ·) := by
  unfold Catalog.typeOf
  split
  · exact resolves_fetch (fun set value => host (.typeOf set) = .ok value) (host (.typeOf set))
      (fun _ _ puts => ⟨puts, fun _ _ truthful => truthful recalls⟩)
      (fun _ failed serving => (sound serving).ne_error failed) (fun _ => .rfl) (fun _ => told_host _)
  · exact resolves_host sound _

theorem resolves_setsOf (recalls : recalled) (sound : serves → host.Succeeds) (cached : Bool) (entityType : Id) :
    (Catalog.setsOf cached entityType).Resolves host feedback recalled serves
      (host (.setsOf entityType) = .ok ·) := by
  unfold Catalog.setsOf
  split
  · exact resolves_fetch (fun entityType value => host (.setsOf entityType) = .ok value) (host (.setsOf entityType))
      (fun _ _ puts => ⟨puts, fun _ _ truthful => truthful recalls⟩)
      (fun _ failed serving => (sound serving).ne_error failed) (fun _ => .rfl) (fun _ => told_host _)
  · exact resolves_host sound _

theorem resolves_hasNegative (recalls : recalled) (a b : EntityKey) :
    (FeedbackService.hasNegative a b).Resolves host feedback recalled serves fun negative =>
      negative = true ↔ feedback.rows[EntityPair.of a b]? = some false := by
  have stored (mayFail : Prop) : (FeedbackService.stored (.of a b)).Told host feedback recalled mayFail
      (fun error => Except.ok feedback.rows[EntityPair.of a b]? = Except.error error ∨ mayFail)
      ((Except.ok feedback.rows[EntityPair.of a b]? : Except LinkError _) = .ok ·) := by
    refine (ensures_bind _ _ _).mpr ⟨trivial, ?_⟩
    intro answer _ told
    cases answer with
    | error error => exact .inr told
    | ok row =>
        obtain rfl : row = feedback.get? (.of a b) := told
        exact congrArg _ FeedbackTable.map_linked_get?.symm
  have verdict : (FeedbackService.verdict (.of a b)).Resolves host feedback recalled serves
      (feedback.rows[EntityPair.of a b]? = ·) :=
    resolves_fetch (fun pair value => feedback.rows[pair]? = value) (.ok feedback.rows[EntityPair.of a b]?)
      (fun _ _ puts => ⟨puts, fun _ _ truthful => truthful recalls⟩) nofun (by simp) stored
  have row : (FeedbackService.get a b).Resolves host feedback recalled serves fun row =>
      row.map Feedback.linked = feedback.rows[EntityPair.of a b]? := by
    refine resolves_bind verdict ?_
    rintro value rfl
    exact resolves_pure (by simp [Function.comp_def])
  refine resolves_bind row fun row same => resolves_pure ?_
  rw [← same]
  cases row <;> simp

theorem resolves_undisputed (recalls : recalled) (focal : EntityKey) (entities : List EntityKey) :
    (Block.undisputed focal entities).Resolves host feedback recalled serves
      (entities.filter (feedback.permits focal) = ·) := by
  induction entities with
  | nil => exact resolves_pure rfl
  | cons entity entities ih =>
      unfold Block.undisputed
      have tail : ∀ disputed : Bool, disputed = !feedback.permits focal entity →
          Action.Resolves host feedback recalled serves ((entity :: entities).filter (feedback.permits focal) = ·)
            (do
              let rest ← Block.undisputed focal entities
              return if disputed then rest else entity :: rest) := by
        rintro disputed rfl
        refine resolves_bind ih ?_
        rintro _ rfl
        refine resolves_pure ?_
        rw [List.filter_cons]
        cases feedback.permits focal entity <;> rfl
      split
      · rename_i own
        exact tail false (by simp [FeedbackTable.permits, own])
      · rename_i other
        refine resolves_bind (resolves_hasNegative recalls focal entity) fun disputed negative => tail disputed ?_
        rw [FeedbackTable.permits, decide_eq_false other, Bool.false_or, ← decide_not, Bool.eq_iff_iff, negative]
        simp

theorem resolves_openStreams (groups : List (Id × IdSet)) :
    (Block.openStreams groups).Resolves host feedback recalled serves
      (host.streams groups = ·) := by
  induction groups with
  | nil => exact resolves_pure rfl
  | cons group groups ih =>
      obtain ⟨set, keys⟩ := group
      unfold Block.openStreams
      refine resolves_bind (resolves_attempt _) ?_
      rintro _ rfl
      refine resolves_bind ih ?_
      rintro _ rfl
      exact resolves_pure rfl

theorem resolves_load (sound : serves → host.Succeeds) (config : BlockingConfig) (focal : EntityKey)
    (properties : Properties) (entities : List EntityKey) :
    (Block.load config focal properties entities).Resolves host feedback recalled serves
      ((Block.exchange config host focal properties entities).finish.result = .ok ·) := by
  refine resolves_bind (resolves_openStreams _) ?_
  rintro _ rfl
  refine resolves_result (fun error failed serving => ?_) fun _ => id
  have carries : (Block.exchange config host focal properties entities).Carries
      fun item => ∀ error, item ≠ .error error :=
    Exchange.carries_start
      (fun items listed item among error same => (sound serving).streams items listed error (same ▸ among))
      fun _ _ _ _ => nofun
  have ended := carries.finish.result
  unfold Block.exchange at ended
  rw [failed] at ended
  exact ended error rfl

theorem resolves_build (recalls : recalled) (config : BlockingConfig) (cached : Bool) (focal : EntityKey) (top : Nat)
    (reliable : serves → host.Reliable) (knows : serves → host.Knows focal) :
    (Block.build config cached focal top).Resolves host feedback recalled serves fun block =>
      block.focal = focal ∧ ∃ properties, host (.loadOne focal) = .ok properties ∧
        if properties.hasValuesFor config.propertyTypes then focal ∈ block.candidates
        else block.candidates = ∅ := by
  have sound (serving : serves) := (reliable serving).succeeds
  refine resolves_bind (resolves_host sound (.loadOne focal)) fun properties loaded => ?_
  split
  · rename_i blank
    exact resolves_pure ⟨rfl, properties, loaded, by simp_all⟩
  · rename_i filled
    refine resolves_bind (resolves_typeOf recalls sound cached focal.set) fun entityType typed => ?_
    cases entityType with
    | none =>
        refine resolves_throw fun serving => ?_
        obtain ⟨entityType, known⟩ := knows serving
        exact nomatch typed.symm.trans known
    | some entityType =>
        refine resolves_bind (resolves_setsOf recalls sound cached entityType) fun sets _ => ?_
        refine resolves_bind (resolves_host sound (.search _)) fun hits _ => ?_
        refine resolves_bind (resolves_undisputed recalls focal _) ?_
        rintro _ rfl
        refine resolves_bind (resolves_load sound config focal properties _) fun candidates ended => ?_
        have member : focal ∈ candidates :=
          Exchange.mem_result_start (by simp [Block.mem_usableHits, FeedbackTable.permits]) ended
        exact resolves_pure ⟨rfl, properties, loaded, by simp_all⟩

theorem resolves_refresh {rows : List Feedback} (told : ∀ row ∈ rows, feedback.rows[row.pair]? = some row.linked) :
    (FeedbackService.refresh rows).Resolves host feedback recalled serves fun _ => True := by
  induction rows with
  | nil => exact resolves_pure trivial
  | cons row rows ih =>
      have inserts : Action.Resolves host feedback recalled serves (fun _ => True)
          (ExceptT.lift (FeedbackService.cache (.insert row.pair (some row.linked)))) :=
        ⟨.ok (), nofun, fun _ _ => trivial, fun _ => (ensures_lift _ _).mpr ⟨told row (.head _), fun _ _ _ => rfl⟩⟩
      exact resolves_bind inserts fun _ _ => ih fun other listed => told other (.tail _ listed)

theorem resolves_positivePairs (focal : EntityKey) :
    (FeedbackService.positivePairs focal).Resolves host feedback recalled serves
      (feedback.positivePairs focal = ·) := by
  let rows := feedback.findByEntity focal .positive
  have read : (Action.read (.feedbackOn focal .positive)).Resolves host feedback recalled serves (rows = ·) := by
    refine ⟨.ok rows, nofun, by rintro _ ⟨rfl⟩; rfl, fun _ => ⟨trivial, ?_⟩⟩
    intro answer _ told
    cases answer with
    | ok answer => exact congrArg Except.ok (Eq.symm told)
    | error error => exact .inr told
  have onEntity : (FeedbackService.onEntity .positive focal).Resolves host feedback recalled serves (rows = ·) := by
    refine resolves_bind read ?_
    rintro _ rfl
    exact resolves_bind (resolves_refresh fun _ listed => FeedbackTable.getElem?_of_mem_findByEntity listed)
      fun _ _ => resolves_pure rfl
  refine resolves_bind onEntity ?_
  rintro _ rfl
  exact resolves_pure rfl

theorem resolves_score (reliable : serves → host.Reliable) (focal : EntityKey) (own : Properties)
    (positive : PairSet) (candidate : EntityKey × Properties) :
    (Linking.score focal own positive candidate).Resolves host feedback recalled serves
      (Linking.Scores host focal own positive candidate) := by
  unfold Linking.score
  split
  · rename_i protects
    exact resolves_pure (by simp [Linking.Scores, Std.ExtTreeSet.contains_iff_mem.mp protects])
  · rename_i unprotected
    refine (resolves_host (fun serving => (reliable serving).succeeds) (.score own candidate.2)).mono
      fun score scored => ?_
    rw [Std.ExtTreeSet.contains_iff_mem] at unprotected
    simpa [Linking.Scores, unprotected] using scored

theorem resolves_scoreAll (reliable : serves → host.Reliable) {focal : EntityKey} {own : Properties}
    {positive : PairSet} {minimum : Double} {candidates : List (EntityKey × Properties)} {scored : Scored}
    (distinct : (candidates.map Prod.fst).Nodup)
    (fresh : ∀ candidate ∈ candidates, candidate.1 ≠ focal → candidate.1 ∉ scored) :
    (Linking.scoreAll focal own positive minimum candidates scored).Resolves host feedback recalled serves
      fun accepted => ∀ (entity : EntityKey) score, accepted[entity]? = some score ↔
        scored[entity]? = some score ∨ ∃ candidate ∈ candidates, candidate.1 = entity ∧ entity ≠ focal ∧
          Linking.Scores host focal own positive candidate score ∧ minimum.le score := by
  induction candidates generalizing scored with
  | nil => exact resolves_pure (by simp)
  | cons candidate candidates ih =>
      obtain ⟨first, distinct⟩ := List.nodup_cons.mp distinct
      have later := ih distinct fun other listed => fresh other (.tail _ listed)
      unfold Linking.scoreAll
      simp only [List.mem_cons, or_and_right, exists_or, exists_eq_left]
      split
      · rename_i same
        refine later.mono fun accepted found entity score => (found entity score).trans ?_
        have other : ¬(candidate.1 = entity ∧ entity ≠ focal) := fun own => own.2 (own.1 ▸ same)
        grind
      · rename_i other
        refine resolves_bind (resolves_score reliable focal own positive candidate) fun score scores => ?_
        have unscored := fresh candidate (.head _) other
        split
        · rename_i outside
          refine resolves_throw fun serving => ?_
          simp [scores.inUnit (reliable serving)] at outside
        · split
          · rename_i least
            refine (ih distinct ?_).mono fun accepted found entity best => (found entity best).trans ?_
            · intro next listed apart
              rw [Std.ExtTreeMap.mem_insert, not_or]
              refine ⟨fun same => first ?_, fresh next (.tail _ listed) apart⟩
              rw [Std.LawfulEqOrd.eq_of_compare same]
              exact List.mem_map_of_mem listed
            · rw [scores.inserted other unscored least, or_assoc]
          · rename_i less
            refine later.mono fun accepted found entity best => (found entity best).trans ?_
            have unlisted : ¬(candidate.1 = entity ∧ entity ≠ focal ∧
                Linking.Scores host focal own positive candidate best ∧ minimum.le best) := by
              rintro ⟨_, _, found, least⟩
              exact less (scores.unique found ▸ least)
            grind

theorem resolves_scoreBlock (reliable : serves → host.Reliable) {block : Block} {positive : PairSet}
    {minimum : Double} (own : serves → block.focal ∈ block.candidates) :
    (Linking.scoreBlock block positive minimum).Resolves host feedback recalled serves fun accepted =>
      block.focal ∈ block.candidates ∧ ∀ entity score,
        accepted[entity]? = some score ↔ block.Accepts host positive minimum entity score := by
  unfold Linking.scoreBlock
  split
  · rename_i missing
    refine resolves_throw fun serving => ?_
    have found := Std.ExtTreeMap.getElem?_eq_some_getElem (own serving)
    exact nomatch missing.symm.trans found
  · rename_i properties found
    have listed : block.focal ∈ block.candidates :=
      Std.ExtTreeMap.mem_iff_isSome_getElem?.mpr (Option.isSome_of_eq_some found)
    refine (resolves_scoreAll reliable ?_ ?_).mono fun accepted scored =>
      ⟨listed, fun entity score => (scored entity score).trans ?_⟩
    · simpa [Std.ExtTreeMap.map_fst_toList_eq_keys] using Std.ExtTreeMap.nodup_keys
    · intro candidate _ apart
      simp [Ne.symm apart]
    · unfold Block.Accepts
      refine or_congr ?_ ?_
      · have first : (Std.ExtTreeMap.ofList [(block.focal, Double.one)] compare : Scored)[entity]?
            = if block.focal = entity then some .one else none := by
          simp [Std.ExtTreeMap.getElem?_insert]
        rw [first]
        grind
      · constructor
        · rintro ⟨⟨_, candidate⟩, listed, rfl, apart, scores, least⟩
          exact ⟨apart, properties, candidate, found, Std.ExtTreeMap.mem_toList_iff_getElem?_eq_some.mp listed,
            scores, least⟩
        · rintro ⟨apart, _, candidate, own, listed, scores, least⟩
          obtain rfl := Option.some.inj (found.symm.trans own)
          exact ⟨(entity, candidate), Std.ExtTreeMap.mem_toList_iff_getElem?_eq_some.mpr listed, rfl, apart,
            scores, least⟩

end Resolves

end Action

end RecordLinkage
