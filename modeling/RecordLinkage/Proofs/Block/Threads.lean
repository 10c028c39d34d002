import RecordLinkage.Proofs.Block.Order

/-! The threads that load candidates. The caller starts one thread for each set, gives up its own end of the
channel and receives until every other end is given up too, or until the first failure; then it drops the
channel and waits for its threads. A thread asks the loader for its set and sends one item after the other
as long as there is room and somebody receives. -/

namespace RecordLinkage

def Loaded.ofItem (set : Id) (item : Except LinkError (Id × Properties)) : Loaded :=
  item.map fun (key, properties) => (⟨set, key⟩, properties)

inductive LoaderThread where
  | unstarted (set : Id) (keys : IdSet)
  | opening (set : Id) (keys : IdSet)
  | sending (set : Id) (stream : PropertyStream)
  | ended

namespace LoaderThread

def answered (set : Id) : Except LinkError PropertyStream → LoaderThread
  | .ok stream => sending set stream
  | .error error => sending set [.error error]

def afterItem (set : Id) (stream : PropertyStream) : Except LinkError (Id × Properties) → LoaderThread
  | .ok _ => sending set stream
  | .error _ => ended

def isStarted : LoaderThread → Bool
  | unstarted _ _ => false
  | _ => true

def hasEnded : LoaderThread → Bool
  | ended => true
  | _ => false

def rest (host : Host) : LoaderThread → List Loaded
  | unstarted set keys | opening set keys => Loaded.ofAnswer set (host (.loadMany set keys))
  | sending set stream => Loaded.ofStream set stream
  | ended => []

def work (host : Host) : LoaderThread → Nat
  | unstarted set keys => 2 * (Loaded.ofAnswer set (host (.loadMany set keys))).length + 3
  | opening set keys => 2 * (Loaded.ofAnswer set (host (.loadMany set keys))).length + 2
  | sending set stream => 2 * (Loaded.ofStream set stream).length + 1
  | ended => 0

variable {host : Host} {loader : LoaderThread}

theorem rest_answered (set : Id) (answer : Except LinkError PropertyStream) :
    (answered set answer).rest host = Loaded.ofAnswer set answer := by
  cases answer <;> rfl

theorem rest_sending (set : Id) (item : Except LinkError (Id × Properties)) (stream : PropertyStream) :
    (sending set (item :: stream)).rest host = .ofItem set item :: (afterItem set stream item).rest host := by
  cases item <;> rfl

theorem rest_of_ended (ended : loader.hasEnded) : loader.rest host = [] := by
  cases loader with
  | ended => rfl
  | _ => cases ended

theorem work_answered (set : Id) (answer : Except LinkError PropertyStream) :
    (answered set answer).work host = 2 * (Loaded.ofAnswer set answer).length + 1 := by
  cases answer <;> rfl

theorem work_afterItem (host : Host) (set : Id) (item : Except LinkError (Id × Properties)) (stream : PropertyStream) :
    (afterItem set stream item).work host + 2 ≤ (sending set (item :: stream)).work host := by
  cases item with
  | ok loaded => exact Nat.le_refl _
  | error error => exact Nat.le_succ 2

theorem isStarted_answered (set : Id) (answer : Except LinkError PropertyStream) :
    (answered set answer).isStarted := by
  cases answer <;> rfl

theorem isStarted_afterItem (set : Id) (stream : PropertyStream) (item : Except LinkError (Id × Properties)) :
    (afterItem set stream item).isStarted := by
  cases item <;> rfl

end LoaderThread

inductive LoadCaller where
  | starting
  | receiving
  | joining (result : Except LinkError Candidates)
  | returned (result : Except LinkError Candidates)

namespace LoadCaller

def outcome : LoadCaller → Option (Except LinkError Candidates)
  | starting | receiving => none
  | joining result | returned result => some result

def work : LoadCaller → Nat
  | starting => 3
  | receiving => 2
  | joining _ => 1
  | returned _ => 0

end LoadCaller

structure LoadThreads where
  loaders : List LoaderThread
  channel : List Loaded
  received : Candidates
  caller : LoadCaller

namespace LoadThreads

inductive Step (config : BlockingConfig) (host : Host) : LoadThreads → LoadThreads → Prop
  | spawn {state : LoadThreads} (index : Nat) {set : Id} {keys : IdSet} : state.caller = .starting →
      state.loaders[index]? = some (.unstarted set keys) →
      Step config host state { state with loaders := state.loaders.set index (.opening set keys) }
  | giveUp {state : LoadThreads} : state.caller = .starting → (∀ loader ∈ state.loaders, loader.isStarted) →
      Step config host state { state with caller := .receiving }
  | open {state : LoadThreads} (index : Nat) {set : Id} {keys : IdSet} :
      state.loaders[index]? = some (.opening set keys) →
      Step config host state
        { state with loaders := state.loaders.set index (.answered set (host (.loadMany set keys))) }
  | send {state : LoadThreads} (index : Nat) {set : Id} {item : Except LinkError (Id × Properties)}
      {stream : PropertyStream} : state.loaders[index]? = some (.sending set (item :: stream)) →
      state.caller.outcome = none → state.channel.length < max config.loadBuffer 1 →
      Step config host state { state with
        loaders := state.loaders.set index (.afterItem set stream item)
        channel := state.channel ++ [.ofItem set item] }
  | abandon {state : LoadThreads} (index : Nat) {set : Id} {item : Except LinkError (Id × Properties)}
      {stream : PropertyStream} : state.loaders[index]? = some (.sending set (item :: stream)) →
      state.caller.outcome.isSome →
      Step config host state { state with loaders := state.loaders.set index .ended }
  | finish {state : LoadThreads} (index : Nat) {set : Id} : state.loaders[index]? = some (.sending set []) →
      Step config host state { state with loaders := state.loaders.set index .ended }
  | receive {state : LoadThreads} {entity : EntityKey} {properties : Properties} {channel : List Loaded} :
      state.caller = .receiving → state.channel = .ok (entity, properties) :: channel →
      Step config host state { state with
        channel
        received :=
          if properties.hasValuesFor config.propertyTypes then state.received.insert entity properties
          else state.received }
  | fail {state : LoadThreads} {error : LinkError} {channel : List Loaded} :
      state.caller = .receiving → state.channel = .error error :: channel →
      Step config host state { state with channel, caller := .joining (.error error) }
  | hangUp {state : LoadThreads} : state.caller = .receiving → state.channel = [] →
      (∀ loader ∈ state.loaders, loader.hasEnded) →
      Step config host state { state with caller := .joining (.ok state.received) }
  | join {state : LoadThreads} {result : Except LinkError Candidates} : state.caller = .joining result →
      (∀ loader ∈ state.loaders, loader.hasEnded) →
      Step config host state { state with caller := .returned result }

def others (focal : EntityKey) (hits : Members) : Members :=
  .ofEntities (hits.entities.filter fun entity => entity ≠ focal)

def known (focal : EntityKey) (own : Properties) (hits : Members) : Candidates :=
  if hits.entities.contains focal then .ofList [(focal, own)] else ∅

def start (focal : EntityKey) (own : Properties) (hits : Members) : LoadThreads :=
  if (others focal hits).isEmpty then ⟨[], [], known focal own hits, .returned (.ok (known focal own hits))⟩
  else ⟨(others focal hits).toList.map fun group => .unstarted group.1 group.2, [], known focal own hits, .starting⟩

variable {config : BlockingConfig} {host : Host} {before after : LoadThreads}

section Steps

def exchange (config : BlockingConfig) (host : Host) (state : LoadThreads) : Exchange :=
  ⟨config.propertyTypes, max config.loadBuffer 1, state.loaders.map (·.rest host), state.channel, state.received,
    state.caller.outcome⟩

theorem exchange_set {state : LoadThreads} {index : Nat} {old new : LoaderThread}
    (found : state.loaders[index]? = some old) (same : new.rest host = old.rest host) :
    exchange config host { state with loaders := state.loaders.set index new } = exchange config host state := by
  obtain ⟨inside, rfl⟩ := List.getElem?_eq_some_iff.mp found
  have kept : (state.loaders.set index new).map (·.rest host) = state.loaders.map (·.rest host) := by
    rw [List.map_set, same]
    exact (congrArg _ (List.getElem_map _).symm).trans (List.set_getElem_self (by simpa using inside))
  simp only [exchange, kept]

/-- Each step is a move in the exchange, or does not show there. -/
theorem exchange_of_step (step : Step config host before after) :
    after.exchange config host = before.exchange config host ∨
      ∃ move, (before.exchange config host).step? move = some (after.exchange config host) := by
  have filled : ∀ {index : Nat} {set : Id} {item : Except LinkError (Id × Properties)} {stream : PropertyStream},
      before.loaders[index]? = some (.sending set (item :: stream)) →
      (before.loaders.map (·.rest host))[index]? =
        some (.ofItem set item :: (LoaderThread.afterItem set stream item).rest host) := by
    intro index set item stream found
    rw [List.getElem?_map, found, Option.map_some, LoaderThread.rest_sending]
  cases step with
  | spawn _ _ found => exact .inl (exchange_set found rfl)
  | giveUp starting => exact .inl (by simp only [exchange, starting, LoadCaller.outcome])
  | @«open» _ set keys found => exact .inl (exchange_set found (LoaderThread.rest_answered set _))
  | @send index _ _ _ found serving room =>
      refine .inr ⟨.send index, ?_⟩
      simp only [Exchange.step?, Exchange.send?, exchange, filled found, serving, Option.isSome_none,
        Bool.false_eq_true, if_false, room, if_true, List.map_set]
  | @abandon index _ _ _ found left =>
      refine .inr ⟨.send index, ?_⟩
      simp only [Exchange.step?, Exchange.send?, exchange, filled found, left, if_true, List.map_set]
      rfl
  | finish _ found => exact .inl (exchange_set found rfl)
  | receive receiving full =>
      refine .inr ⟨.receive, ?_⟩
      simp only [Exchange.step?, Exchange.receive?, exchange, receiving, full, LoadCaller.outcome]
      rfl
  | fail receiving full =>
      refine .inr ⟨.receive, ?_⟩
      simp only [Exchange.step?, Exchange.receive?, exchange, receiving, full, LoadCaller.outcome]
      rfl
  | hangUp receiving drained ended =>
      have idle : (before.loaders.map (·.rest host)).all List.isEmpty := by
        simp only [List.all_map, List.all_eq_true]
        intro loader listed
        simp [LoaderThread.rest_of_ended (ended loader listed)]
      refine .inr ⟨.receive, ?_⟩
      simp only [Exchange.step?, Exchange.receive?, exchange, receiving, drained, LoadCaller.outcome,
        Option.isSome_none, Bool.false_eq_true, if_false, idle, if_true]
  | join joining => exact .inl (by simp only [exchange, joining, LoadCaller.outcome])

theorem exchange_of_steps (steps : Relation.ReflTransGen (Step config host) before after) :
    (before.exchange config host).Moves (after.exchange config host) := by
  induction steps with
  | refl => exact .refl
  | tail _ step moves =>
      rcases exchange_of_step step with same | moved
      · exact same ▸ moves
      · exact moves.tail moved

def work (host : Host) (state : LoadThreads) : Nat :=
  (state.loaders.map (·.work host)).foldr (· + ·) 0 + state.channel.length + state.caller.work

theorem foldr_set (host : Host) {loaders : List LoaderThread} {index : Nat} {old : LoaderThread} (new : LoaderThread)
    (found : loaders[index]? = some old) :
    ((loaders.set index new).map (·.work host)).foldr (· + ·) 0 + old.work host =
      (loaders.map (·.work host)).foldr (· + ·) 0 + new.work host := by
  induction loaders generalizing index with
  | nil => simp at found
  | cons first loaders ih =>
      cases index with
      | zero =>
          obtain rfl : first = old := by simpa using found
          simp only [List.set_cons_zero, List.map_cons, List.foldr_cons]
          omega
      | succ index =>
          have rest := ih (by simpa using found)
          simp only [List.set_cons_succ, List.map_cons, List.foldr_cons]
          omega

/-- Every step makes less what is left to do, so nobody goes on for ever. -/
theorem work_of_step (step : Step config host before after) : after.work host < before.work host := by
  cases step with
  | @spawn _ set keys _ found =>
      have sum := foldr_set host (.opening set keys) found
      have less : (LoaderThread.opening set keys).work host < (LoaderThread.unstarted set keys).work host :=
        Nat.lt_succ_self _
      simp only [work]
      omega
  | giveUp starting => simp [work, starting, LoadCaller.work]
  | @«open» _ set keys found =>
      have sum := foldr_set host (.answered set (host (.loadMany set keys))) found
      have less : (LoaderThread.answered set (host (.loadMany set keys))).work host <
          (LoaderThread.opening set keys).work host := by
        rw [LoaderThread.work_answered]
        exact Nat.lt_succ_self _
      simp only [work]
      omega
  | @send _ set item stream found =>
      have sum := foldr_set host (.afterItem set stream item) found
      have less := LoaderThread.work_afterItem host set item stream
      simp only [work, List.length_append, List.length_singleton]
      omega
  | @abandon _ set item stream found =>
      have sum := foldr_set host .ended found
      have less : LoaderThread.ended.work host < (LoaderThread.sending set (item :: stream)).work host :=
        Nat.succ_pos _
      simp only [work]
      omega
  | @finish _ set found =>
      have sum := foldr_set host .ended found
      have less : LoaderThread.ended.work host < (LoaderThread.sending set []).work host := Nat.succ_pos _
      simp only [work]
      omega
  | receive receiving full => simp [work, full]
  | fail receiving full =>
      simp only [work, receiving, full, LoadCaller.work, List.length_cons]
      omega
  | hangUp receiving => simp [work, receiving, LoadCaller.work]
  | join joining => simp [work, joining, LoadCaller.work]

structure Orderly (state : LoadThreads) : Prop where
  started : state.caller = .starting ∨ ∀ loader ∈ state.loaders, loader.isStarted
  ended : ∀ result, state.caller = .returned result → ∀ loader ∈ state.loaders, loader.hasEnded

theorem Orderly.set (orderly : before.Orderly) {index : Nat} {old new : LoaderThread} {channel : List Loaded}
    (found : before.loaders[index]? = some old) (running : old.hasEnded = false) (starts : new.isStarted) :
    Orderly { before with loaders := before.loaders.set index new, channel } where
  started := by
    refine orderly.started.imp id fun started loader listed => ?_
    rcases List.mem_or_eq_of_mem_set listed with kept | rfl
    · exact started loader kept
    · exact starts
  ended result returned := by
    have ended := orderly.ended result returned old (List.mem_of_getElem? found)
    simp [running] at ended

theorem Orderly.step (orderly : before.Orderly) (step : Step config host before after) : after.Orderly := by
  cases step with
  | spawn _ _ found => exact orderly.set found rfl rfl
  | giveUp _ started => exact ⟨.inr started, nofun⟩
  | «open» _ found => exact orderly.set found rfl (LoaderThread.isStarted_answered _ _)
  | send _ found => exact orderly.set found rfl (LoaderThread.isStarted_afterItem _ _ _)
  | abandon _ found | finish _ found => exact orderly.set found rfl rfl
  | receive => exact ⟨orderly.started, orderly.ended⟩
  | fail receiving | hangUp receiving =>
      exact ⟨.inr (orderly.started.resolve_left (by simp [receiving])), nofun⟩
  | join joining ended => exact ⟨.inr (orderly.started.resolve_left (by simp [joining])), fun _ _ => ended⟩

/-- A thread that was started and has not ended can go on, unless it waits for room. -/
theorem exists_step_of_running {state : LoadThreads} {loader : LoaderThread} (listed : loader ∈ state.loaders)
    (started : loader.isStarted) (running : loader.hasEnded = false)
    (free : state.channel = [] ∨ state.caller.outcome.isSome) : ∃ after, Step config host state after := by
  obtain ⟨index, found⟩ := List.mem_iff_getElem?.mp listed
  cases loader with
  | unstarted => cases started
  | opening set keys => exact ⟨_, .open _ found⟩
  | sending set stream =>
      cases stream with
      | nil => exact ⟨_, .finish _ found⟩
      | cons item stream =>
          cases outcome : state.caller.outcome with
          | some result => exact ⟨_, .abandon _ found (by rw [outcome]; rfl)⟩
          | none =>
              have drained : state.channel = [] := free.resolve_right (by simp [outcome])
              exact ⟨_, .send _ found outcome (by rw [drained]; exact Nat.le_max_right _ _)⟩
  | ended => cases running

/-- Whoever cannot go on waits for another, except when all is done. -/
theorem Orderly.goesOn {state : LoadThreads} (orderly : state.Orderly) :
    (∃ result, state.caller = .returned result ∧ ∀ loader ∈ state.loaders, loader.hasEnded) ∨
      ∃ after, Step config host state after := by
  have running : (∀ loader ∈ state.loaders, loader.hasEnded) ∨
      ∃ loader ∈ state.loaders, loader.hasEnded = false := by
    by_cases all : ∀ loader ∈ state.loaders, loader.hasEnded
    · exact .inl all
    · exact .inr (by simpa using all)
  cases caller : state.caller with
  | starting =>
      right
      by_cases started : ∀ loader ∈ state.loaders, loader.isStarted
      · exact ⟨_, .giveUp caller started⟩
      · obtain ⟨loader, listed, waits⟩ : ∃ loader ∈ state.loaders, loader.isStarted = false := by
          simpa using started
        obtain ⟨index, found⟩ := List.mem_iff_getElem?.mp listed
        cases loader with
        | unstarted set keys => exact ⟨_, .spawn _ caller found⟩
        | _ => cases waits
  | receiving =>
      right
      have started := orderly.started.resolve_left (by simp [caller])
      cases channel : state.channel with
      | nil =>
          rcases running with ended | ⟨loader, listed, runs⟩
          · exact ⟨_, .hangUp caller channel ended⟩
          · exact exists_step_of_running listed (started loader listed) runs (.inl channel)
      | cons item channel' =>
          cases item with
          | ok candidate => exact ⟨_, .receive caller channel⟩
          | error error => exact ⟨_, .fail caller channel⟩
  | joining result =>
      right
      have started := orderly.started.resolve_left (by simp [caller])
      rcases running with ended | ⟨loader, listed, runs⟩
      · exact ⟨_, .join caller ended⟩
      · exact exists_step_of_running listed (started loader listed) runs (.inr (by rw [caller]; rfl))
  | returned result => exact .inl ⟨result, rfl, orderly.ended result caller⟩

end Steps

/-- What loading comes to: with a failure one that was raised, and otherwise all candidates with a value and the
focal entity, each with what was received for it last. -/
inductive Loads (config : BlockingConfig) (host : Host) (focal : EntityKey) (own : Properties) (hits : Members) :
    Except LinkError Candidates → Prop
  | all {candidates : Candidates} : (∀ error, ¬host.Raises (others focal hits) error) →
      (∀ entity : EntityKey, candidates[entity]? =
        (host.streamed config.propertyTypes (others focal hits) entity).getLast?.or (known focal own hits)[entity]?) →
      Loads config host focal own hits (.ok candidates)
  | failed {error : LinkError} : host.Raises (others focal hits) error →
      Loads config host focal own hits (.error error)

variable {focal : EntityKey} {own : Properties} {hits : Members} {result : Except LinkError Candidates}

theorem Loads.unique {candidates : Candidates} (loads : Loads config host focal own hits (.ok candidates))
    (other : Loads config host focal own hits result) : result = .ok candidates := by
  obtain ⟨sound, found⟩ := loads
  cases other with
  | all _ found' =>
      refine congrArg Except.ok (Std.ExtTreeMap.ext_getElem? fun entity => ?_)
      rw [found, found']
  | failed raised => exact (sound _ raised).elim

theorem loads_of_moves (exchange : Exchange)
    (moves : (Exchange.start config.propertyTypes config.loadBuffer (host.streams (others focal hits).toList)
      (known focal own hits)).Moves exchange) (ended : exchange.outcome = some result) :
    Loads config host focal own hits result := by
  by_cases raises : ∃ error, host.Raises (others focal hits) error
  · obtain ⟨error, rfl, raised⟩ := Exchange.raised_of_moves raises moves ended
    exact .failed raised
  · have sound : ∀ error, ¬host.Raises (others focal hits) error := fun error raised => raises ⟨error, raised⟩
    obtain ⟨candidates, rfl, found⟩ := Exchange.received_of_moves sound moves ended
    exact .all sound found

theorem exchange_start (filled : (others focal hits).isEmpty = false) :
    (start focal own hits).exchange config host = .start config.propertyTypes config.loadBuffer
      (host.streams (others focal hits).toList) (known focal own hits) := by
  simp only [start, filled, Bool.false_eq_true, if_false, exchange, Exchange.start, Host.streams, List.map_map,
    LoadCaller.outcome]
  rfl

theorem orderly_start (focal : EntityKey) (own : Properties) (hits : Members) : (start focal own hits).Orderly := by
  unfold start
  split
  · exact ⟨.inr nofun, fun _ _ => nofun⟩
  · exact ⟨.inl rfl, nofun⟩

theorem Orderly.steps (orderly : before.Orderly) (steps : Relation.ReflTransGen (Step config host) before after) :
    after.Orderly := by
  induction steps with
  | refl => exact orderly
  | tail _ step orderly => exact orderly.step step

theorem not_step_of_none (none : before.loaders = []) (returned : before.caller = .returned result) :
    ¬Step config host before after := by
  intro step
  cases step <;> simp_all

theorem loads_of_returned (steps : Relation.ReflTransGen (Step config host) (start focal own hits) after)
    (returned : after.caller = .returned result) : Loads config host focal own hits result := by
  by_cases filled : (others focal hits).isEmpty = false
  · refine loads_of_moves (after.exchange config host) ?_ ?_
    · rw [← exchange_start filled]
      exact exchange_of_steps steps
    · simp only [exchange, returned, LoadCaller.outcome]
  · have none : others focal hits = ∅ := Std.ExtTreeMap.isEmpty_iff.mp (by simpa using filled)
    have began : start focal own hits =
        ⟨[], [], known focal own hits, .returned (.ok (known focal own hits))⟩ := by
      simp [start, none]
    rw [began] at steps
    rcases Relation.ReflTransGen.cases_head steps with rfl | ⟨_, step, _⟩
    · obtain rfl := LoadCaller.returned.inj returned
      refine .all ?_ fun entity => ?_
      · rintro error ⟨set, keys, found, _⟩
        simp [none] at found
      · simp [Host.streamed, none]
    · exact (not_step_of_none rfl rfl step).elim

end LoadThreads

namespace Block

/-- One thread alone loads what the exchange ends with. -/
theorem run_load (config : BlockingConfig) (focal : EntityKey) (own : Properties) (entities : List EntityKey)
    (system : System) : (load config focal own entities).run.run System.answer? system =
      (.done (exchange config system.host focal own entities).finish.result, system) := by
  have opens : ∀ groups, (openStreams groups).Ensures (Program.answeredBy System.answer?)
      (fun system call => (system.answer? call).isSome) (fun _ _ => False)
      (fun streams after => streams = system.host.streams groups ∧ after = system) system := by
    intro groups
    induction groups with
    | nil => exact ⟨rfl, rfl⟩
    | cons group groups ih =>
        refine (Action.ensures_bind _ _ _).mpr ((Action.ensures_lift _ _).mpr ⟨rfl, ?_⟩)
        intro answer after answered
        obtain ⟨rfl, rfl⟩ := Prod.mk.inj (Option.some.inj answered)
        refine (Action.ensures_bind _ _ _).mpr (ih.mono ?_)
        rintro _ _ ⟨rfl, rfl⟩
        exact ⟨rfl, rfl⟩
  have loads : (load config focal own entities).run.Ensures (Program.answeredBy System.answer?)
      (fun system call => (system.answer? call).isSome)
      (fun result after => result = (exchange config system.host focal own entities).finish.result ∧ after = system)
      system := by
    unfold load
    rw [ExceptT.run_bind]
    refine (Program.ensures_bind _ _ _).mpr (Program.Ensures.mono (opens _) ?_)
    rintro (error | streams) after ended
    · exact ended.elim
    · obtain ⟨rfl, rfl⟩ := ended
      exact ⟨rfl, rfl⟩
  obtain ⟨result, after, ran, rfl, rfl⟩ := loads.run_eq
  exact ran

end Block

namespace LoadThreads

variable {config : BlockingConfig} {host : Host} {focal : EntityKey} {own : Properties} {hits : Members}
  {state : LoadThreads}

theorem loads_of_load (config : BlockingConfig) (focal : EntityKey) (own : Properties) (hits : Members)
    (system : System) : ∃ result, (Block.load config focal own hits.entities).run.run System.answer? system =
      (.done result, system) ∧ Loads config system.host focal own hits result := by
  refine ⟨_, Block.run_load config focal own hits.entities system, ?_⟩
  obtain ⟨moves, stuck⟩ := Exchange.moves_finish (Block.exchange config system.host focal own hits.entities)
  have room : 0 < (Block.exchange config system.host focal own hits.entities).finish.capacity := by
    rw [Exchange.capacity_of_moves moves]
    exact Nat.le_max_right _ _
  obtain ⟨result, ended⟩ := Option.ne_none_iff_exists'.mp (Exchange.outcome_of_stuck room stuck)
  rw [Exchange.result, ended]
  exact loads_of_moves _ moves ended

/-- In whatever order the threads and the caller take their steps: as long as the caller has not returned and some
thread has not ended, one of them can go on, and each step leaves less to do. What the caller returns is one of the
failures that were raised, if there was one, and otherwise the focal entity and all candidates with a value, which is
what a single thread returns too. -/
theorem loads_of_steps (steps : Relation.ReflTransGen (Step config host) (start focal own hits) state) :
    ((∃ result, state.caller = .returned result ∧ ∀ loader ∈ state.loaders, loader.hasEnded) ∨
      ∃ after, Step config host state after) ∧
    (∀ after, Step config host state after → after.work host < state.work host) ∧
    (∀ result, state.caller = .returned result → Loads config host focal own hits result) ∧
    ∀ system : System, system.host = host →
      ∃ result, (Block.load config focal own hits.entities).run.run System.answer? system = (.done result, system) ∧
        Loads config host focal own hits result ∧
        ∀ candidates other, result = .ok candidates → state.caller = .returned other → other = .ok candidates := by
  refine ⟨((orderly_start focal own hits).steps steps).goesOn, fun _ => work_of_step,
    fun _ => loads_of_returned steps, ?_⟩
  rintro system rfl
  obtain ⟨result, ran, loads⟩ := loads_of_load config focal own hits system
  refine ⟨result, ran, loads, ?_⟩
  rintro candidates other rfl returned
  exact loads.unique (loads_of_returned steps returned)

end LoadThreads

namespace Sample

def stranger : EntityKey := ⟨.ofNat 2, .ofNat 1⟩

def halfHost : Host
  | .loadMany other keys => if other = set then host (.loadMany other keys) else .error (.internal "down")
  | call => host call

def unbuffered : BlockingConfig := { linker.config.blocking with loadBuffer := 0 }

/-- The failure of one thread is received while the other one waits for room. -/
theorem loads_of_failure : ∃ state, Relation.ReflTransGen (LoadThreads.Step unbuffered halfHost)
      (LoadThreads.start left properties (.ofEntities [left, right, stranger])) state ∧
    state.caller = .returned (.error (.internal "down")) ∧
    LoadThreads.Loads unbuffered halfHost left properties (.ofEntities [left, right, stranger])
      (.error (.internal "down")) := by
  have steps : Relation.ReflTransGen (LoadThreads.Step unbuffered halfHost)
      (LoadThreads.start left properties (.ofEntities [left, right, stranger]))
      ⟨[.unstarted set (.ofList [right.key]), .unstarted stranger.set (.ofList [stranger.key])], [],
        .ofList [(left, properties)], .starting⟩ := .refl
  have steps := steps.tail (.spawn 0 rfl rfl)
  have steps := steps.tail (.spawn 1 rfl rfl)
  have steps := steps.tail (.giveUp rfl (by decide))
  have steps := steps.tail (.open 1 rfl)
  have steps := steps.tail (.send 1 rfl rfl (by decide))
  have steps := steps.tail (.open 0 rfl)
  have steps := steps.tail (.fail rfl rfl)
  have steps := steps.tail (.abandon 0 rfl rfl)
  have steps := steps.tail (.join rfl (by decide))
  obtain ⟨_, _, loads, _⟩ := LoadThreads.loads_of_steps steps
  exact ⟨_, steps, rfl, loads _ rfl⟩

end Sample

end RecordLinkage
