import RecordLinkage.Cache.Fetch
import RecordLinkage.Proofs.Cache.Entries
import RecordLinkage.Proofs.Program.Reaches

/-! Loads that overlap with writes and with each other. A look-up that finds nothing notes how many writes there
were, loads, and keeps the value only if there were no more writes since. While it loads anything may
happen: what the loader itself writes or looks up counts as what others do. -/

namespace RecordLinkage

inductive LookupStage (ν : Type) where
  | seeking
  | missed
  | loading (seen : Nat)
  | landing (value : ν) (seen : Nat)
  | ended (result : Except LinkError ν)

structure CacheLookup (κ ν : Type) where
  key : κ
  load : Action ν
  stage : LookupStage ν

namespace CacheLookup

variable {κ ν : Type}

def Returns (lookup : CacheLookup κ ν) (result : Except LinkError ν) : Prop :=
  Program.Runs (fun (_ : Unit) _ _ _ => True) lookup.load.run () result ()

def afterFind : Option ν → LookupStage ν
  | some value => .ended (.ok value)
  | none => .missed

def asks? (lookup : CacheLookup κ ν) : Option ((call : CacheCall κ ν) × (call.Answer → LookupStage ν)) :=
  match lookup.stage with
  | .seeking => some ⟨.find lookup.key, afterFind⟩
  | .missed => some ⟨.countWrites, .loading⟩
  | .landing value seen => some ⟨.land lookup.key value seen, fun _ => .ended (.ok value)⟩
  | .loading _ | .ended _ => none

def afterLoad (seen : Nat) : Except LinkError ν → LookupStage ν
  | .ok value => .landing value seen
  | .error error => .ended (.error error)

def rest (lookup : CacheLookup κ ν) (step : (call : CacheCall κ ν) → Program call.Answer) :
    Program (Except LinkError ν) :=
  let land (seen : Nat) (value : ν) : Action ν := do
    ExceptT.lift (step (.land lookup.key value seen))
    return value
  match lookup.stage with
  | .seeking => (Cache.fetch step lookup.key lookup.load).run
  | .missed => (do land (← ExceptT.lift (step .countWrites)) (← lookup.load) : Action ν).run
  | .loading seen => (lookup.load >>= land seen).run
  | .landing value seen => (land seen value).run
  | .ended result => pure result

theorem rest_of_asks {lookup : CacheLookup κ ν} {call : CacheCall κ ν} {next : call.Answer → LookupStage ν}
    (asks : lookup.asks? = some ⟨call, next⟩) (step : (call : CacheCall κ ν) → Program call.Answer) :
    lookup.rest step = step call >>= fun answer => { lookup with stage := next answer }.rest step := by
  obtain ⟨key, load, stage⟩ := lookup
  cases stage with
  | seeking =>
      cases asks
      refine (ExceptT.run_bind_lift _ _).trans (bind_congr fun answer => ?_)
      cases answer <;> rfl
  | missed =>
      cases asks
      exact ExceptT.run_bind_lift _ _
  | landing value seen =>
      cases asks
      exact ExceptT.run_bind_lift _ _
  | loading | ended => cases asks

theorem rest_of_loading {lookup : CacheLookup κ ν} {seen : Nat} (loading : lookup.stage = .loading seen)
    (step : (call : CacheCall κ ν) → Program call.Answer) :
    lookup.rest step =
      lookup.load.run >>= fun result => { lookup with stage := afterLoad seen result }.rest step := by
  obtain ⟨key, load, stage⟩ := lookup
  obtain rfl := loading
  refine (ExceptT.run_bind _ _).trans (bind_congr fun result => ?_)
  cases result <;> rfl

structure Retraces (step : (call : CacheCall κ ν) → Program call.Answer) (lookup : CacheLookup κ ν) : Prop where
  starts : lookup.stage = .seeking → lookup.rest step = (Cache.fetch step lookup.key lookup.load).run
  asks : ∀ (call : CacheCall κ ν) (next : call.Answer → LookupStage ν), lookup.asks? = some ⟨call, next⟩ →
    lookup.rest step = step call >>= fun answer => { lookup with stage := next answer }.rest step
  loads : ∀ seen, lookup.stage = .loading seen → lookup.rest step =
    lookup.load.run >>= fun result => { lookup with stage := afterLoad seen result }.rest step
  ends : ∀ result, lookup.stage = .ended result → lookup.rest step = pure result

theorem retraces (step : (call : CacheCall κ ν) → Program call.Answer) (lookup : CacheLookup κ ν) :
    lookup.Retraces step where
  starts stage := by rw [rest, stage]
  asks _ _ asks := rest_of_asks asks step
  loads _ loading := rest_of_loading loading step
  ends _ stage := by rw [rest, stage]

end CacheLookup

inductive CacheEvent (κ ν : Type) where
  | inserted (key : κ) (value : ν)
  | invalidated (key : κ)
  | cleared
  | found (number : Nat) (key : κ) (value : Option ν)
  | counted (number : Nat) (seen : Nat)
  | loaded (number : Nat) (result : Except LinkError ν)
  | landed (number : Nat) (key : κ) (value : ν)

namespace CacheEvent

variable {κ ν : Type}

def ofCall (number : Nat) : (call : CacheCall κ ν) → call.Answer → CacheEvent κ ν
  | .find key, value => found number key value
  | .countWrites, seen => counted number seen
  | .land key value _, _ => landed number key value
  | .insert key value, _ => inserted key value
  | .invalidate key, _ => invalidated key
  | .clear, _ => cleared

def isWrite : CacheEvent κ ν → Bool
  | inserted _ _ | invalidated _ | cleared => true
  | _ => false

def Replaces (key : κ) : CacheEvent κ ν → Prop
  | inserted other _ | invalidated other => other = key
  | cleared => True
  | _ => False

def IsOf (number : Nat) : CacheEvent κ ν → Prop
  | found other _ _ | counted other _ | loaded other _ | landed other _ _ => other = number
  | _ => False

/-- Where the value of a key is from, with the latest event first: either from its latest insert, or from a look-up
that loaded it while nothing was written. The key was not written since, nor was all cleared. -/
inductive Explains (events : List (CacheEvent κ ν)) (key : κ) (value : ν) : Prop
  | insert (later earlier : List (CacheEvent κ ν)) : events = later ++ inserted key value :: earlier →
      (∀ event ∈ later, ¬event.Replaces key) → Explains events key value
  | load (later between earlier : List (CacheEvent κ ν)) {number seen : Nat} :
      events = later ++ landed number key value :: (between ++ counted number seen :: earlier) →
      loaded number (.ok value) ∈ between → (∀ event ∈ between, event.isWrite = false) →
      (∀ event ∈ later, ¬event.Replaces key) → Explains events key value

variable {event : CacheEvent κ ν} {events : List (CacheEvent κ ν)} {key : κ} {value : ν}

theorem not_isOf_of_isWrite (isWrite : event.isWrite = true) {number : Nat} : ¬event.IsOf number := by
  cases event <;> first | exact id | cases isWrite

theorem not_replaces_of_not_isWrite (quiet : event.isWrite = false) : ¬event.Replaces key := by
  cases event <;> first | exact id | cases quiet

theorem Explains.later (explains : Explains events key value) (kept : ¬event.Replaces key) :
    Explains (event :: events) key value := by
  cases explains with
  | insert later earlier same apart =>
      exact .insert (event :: later) earlier (congrArg _ same) (List.forall_mem_cons.mpr ⟨kept, apart⟩)
  | load later between earlier same loads quiet apart =>
      exact .load (event :: later) between earlier (congrArg _ same) loads quiet
        (List.forall_mem_cons.mpr ⟨kept, apart⟩)

end CacheEvent

namespace CacheLookup

variable {κ ν : Type}

open CacheEvent

structure Follows (number : Nat) (events : List (CacheEvent κ ν)) (lookup : CacheLookup κ ν) : Prop where
  returned : ∀ result, loaded number result ∈ events → lookup.Returns result ∧
    (lookup.stage = .ended result ∨ ∃ value seen, result = .ok value ∧ lookup.stage = .landing value seen)
  landed : ∀ key value, landed number key value ∈ events →
    key = lookup.key ∧ loaded number (.ok value) ∈ events
  loading : ∀ seen, lookup.stage = .loading seen → ∃ later earlier,
    events = later ++ counted number seen :: earlier ∧ earlier.countP isWrite = seen
  landing : ∀ value seen, lookup.stage = .landing value seen → ∃ later earlier,
    events = later ++ counted number seen :: earlier ∧ earlier.countP isWrite = seen ∧
      loaded number (.ok value) ∈ later
  ended : ∀ result, lookup.stage = .ended result →
    (∃ value, result = .ok value ∧ found number lookup.key (some value) ∈ events) ∨
      loaded number result ∈ events

variable {number : Nat} {events : List (CacheEvent κ ν)} {lookup : CacheLookup κ ν}

theorem Follows.later {event : CacheEvent κ ν} (follows : lookup.Follows number events)
    (other : ¬event.IsOf number) : lookup.Follows number (event :: events) where
  returned result listed := by
    rcases List.mem_cons.mp listed with rfl | listed
    · exact (other rfl).elim
    · exact follows.returned result listed
  landed key value listed := by
    rcases List.mem_cons.mp listed with rfl | listed
    · exact (other rfl).elim
    · exact (follows.landed key value listed).imp id (.tail _)
  loading seen stage := by
    obtain ⟨later, earlier, rfl, writes⟩ := follows.loading seen stage
    exact ⟨event :: later, earlier, rfl, writes⟩
  landing value seen stage := by
    obtain ⟨later, earlier, rfl, writes, loads⟩ := follows.landing value seen stage
    exact ⟨event :: later, earlier, rfl, writes, .tail _ loads⟩
  ended result stage := by
    refine (follows.ended result stage).imp ?_ (.tail _)
    rintro ⟨value, same, listed⟩
    exact ⟨value, same, .tail _ listed⟩

theorem Follows.not_loaded (follows : lookup.Follows number events)
    (early : lookup.stage = .seeking ∨ lookup.stage = .missed ∨ ∃ seen, lookup.stage = .loading seen)
    (result : Except LinkError ν) : loaded number result ∉ events := by
  intro listed
  rcases (follows.returned result listed).2 with ended | ⟨value, seen, _, landing⟩
  · rcases early with stage | stage | ⟨_, stage⟩ <;> simp [stage] at ended
  · rcases early with stage | stage | ⟨_, stage⟩ <;> simp [stage] at landing

theorem Follows.not_landed (follows : lookup.Follows number events)
    (early : lookup.stage = .seeking ∨ lookup.stage = .missed ∨ ∃ seen, lookup.stage = .loading seen)
    (key : κ) (value : ν) : CacheEvent.landed number key value ∉ events :=
  fun listed => follows.not_loaded early _ (follows.landed key value listed).2

theorem follows_seeking (key : κ) (load : Action ν) (unknown : ∀ event ∈ events, ¬event.IsOf number) :
    Follows number events ⟨key, load, .seeking⟩ where
  returned _ listed := (unknown _ listed rfl).elim
  landed _ _ listed := (unknown _ listed rfl).elim
  loading := nofun
  landing := nofun
  ended := nofun

theorem Follows.after_find (follows : lookup.Follows number events) (seeking : lookup.stage = .seeking)
    (value : Option ν) :
    Follows number (found number lookup.key value :: events) { lookup with stage := afterFind value } where
  returned result listed := absurd listed (by simp [follows.not_loaded (.inl seeking)])
  landed key value listed := absurd listed (by simp [follows.not_landed (.inl seeking)])
  loading seen stage := by cases value <;> cases stage
  landing value' seen stage := by cases value <;> cases stage
  ended result stage := by
    cases value with
    | none => cases stage
    | some value =>
        obtain rfl := LookupStage.ended.inj stage
        exact .inl ⟨value, rfl, .head _⟩

theorem Follows.after_count (follows : lookup.Follows number events) (missed : lookup.stage = .missed)
    {seen : Nat} (writes : events.countP isWrite = seen) :
    Follows number (counted number seen :: events) { lookup with stage := .loading seen } where
  returned result listed := absurd listed (by simp [follows.not_loaded (.inr (.inl missed))])
  landed key value listed := absurd listed (by simp [follows.not_landed (.inr (.inl missed))])
  loading seen' stage := by
    obtain rfl := LookupStage.loading.inj stage
    exact ⟨[], events, rfl, writes⟩
  landing := nofun
  ended := nofun

theorem Follows.after_load (follows : lookup.Follows number events) {seen : Nat}
    (loading : lookup.stage = .loading seen) {result : Except LinkError ν} (returns : lookup.Returns result) :
    Follows number (CacheEvent.loaded number result :: events)
      { lookup with stage := CacheLookup.afterLoad seen result } where
  returned result' listed := by
    rcases List.mem_cons.mp listed with same | listed
    · obtain rfl := (CacheEvent.loaded.inj same).2
      refine ⟨returns, ?_⟩
      cases result' with
      | ok value => exact .inr ⟨value, seen, rfl, rfl⟩
      | error error => exact .inl rfl
    · exact (follows.not_loaded (.inr (.inr ⟨seen, loading⟩)) result' listed).elim
  landed key value listed := absurd listed (by simp [follows.not_landed (.inr (.inr ⟨seen, loading⟩))])
  loading seen' stage := by cases result <;> cases stage
  landing value seen' stage := by
    obtain ⟨later, earlier, rfl, writes⟩ := follows.loading seen loading
    cases result with
    | ok value' =>
        obtain ⟨rfl, rfl⟩ := LookupStage.landing.inj stage
        exact ⟨_ :: later, earlier, rfl, writes, .head _⟩
    | error error => cases stage
  ended result' stage := by
    cases result with
    | ok value => cases stage
    | error error =>
        obtain rfl := LookupStage.ended.inj stage
        exact .inr (.head _)

theorem Follows.after_land (follows : lookup.Follows number events) {value : ν} {seen : Nat}
    (landing : lookup.stage = .landing value seen) :
    Follows number (CacheEvent.landed number lookup.key value :: events)
      { lookup with stage := .ended (.ok value) } := by
  have loads : loaded number (.ok value) ∈ events := by
    obtain ⟨later, earlier, rfl, _, loads⟩ := follows.landing value seen landing
    exact List.mem_append_left _ loads
  refine ⟨fun result listed => ?_, fun key other listed => ?_, nofun, nofun, ?_⟩
  · rcases List.mem_cons.mp listed with same | listed
    · cases same
    · obtain ⟨returns, ended | ⟨other, _, rfl, stage⟩⟩ := follows.returned result listed
      · simp [landing] at ended
      · obtain ⟨rfl, _⟩ := LookupStage.landing.inj (landing.symm.trans stage)
        exact ⟨returns, .inl rfl⟩
  · rcases List.mem_cons.mp listed with same | listed
    · obtain ⟨_, rfl, rfl⟩ := CacheEvent.landed.inj same
      exact ⟨rfl, .tail _ loads⟩
    · exact (follows.landed key other listed).imp id (.tail _)
  · rintro result ⟨rfl⟩
    exact .inr (.tail _ loads)

end CacheLookup

structure SharedCache (κ ν : Type) [Ord κ] where
  cache : Cache κ ν
  lookups : List (CacheLookup κ ν)
  events : List (CacheEvent κ ν)

namespace SharedCache

variable {κ ν : Type} [Ord κ] [Std.TransOrd κ]

inductive Step : SharedCache κ ν → SharedCache κ ν → Prop
  | insert {state : SharedCache κ ν} (key : κ) (value : ν) : Step state { state with
      cache := state.cache.insert key value
      events := .inserted key value :: state.events }
  | invalidate {state : SharedCache κ ν} (key : κ) : Step state { state with
      cache := state.cache.invalidate key
      events := .invalidated key :: state.events }
  | clear {state : SharedCache κ ν} : Step state { state with
      cache := state.cache.clear
      events := .cleared :: state.events }
  | vanish {state : SharedCache κ ν} (key : κ) : Step state { state with cache := state.cache.evict key }
  | begin {state : SharedCache κ ν} (key : κ) (load : Action ν) :
      Step state { state with lookups := state.lookups ++ [⟨key, load, .seeking⟩] }
  | call {state : SharedCache κ ν} (number : Nat) {lookup : CacheLookup κ ν} {call : CacheCall κ ν}
      {next : call.Answer → LookupStage ν} : state.lookups[number]? = some lookup →
      lookup.asks? = some ⟨call, next⟩ →
      Step state
        { cache := (state.cache.answer call).2
          lookups := state.lookups.set number { lookup with stage := next (state.cache.answer call).1 }
          events := .ofCall number call (state.cache.answer call).1 :: state.events }
  | load {state : SharedCache κ ν} (number : Nat) {seen : Nat} {lookup : CacheLookup κ ν}
      {result : Except LinkError ν} :
      state.lookups[number]? = some lookup → lookup.stage = .loading seen → lookup.Returns result →
      Step state { state with
        lookups := state.lookups.set number { lookup with stage := CacheLookup.afterLoad seen result }
        events := .loaded number result :: state.events }

structure Recorded (state : SharedCache κ ν) : Prop where
  writes : state.cache.writes = state.events.countP CacheEvent.isWrite
  faithful : state.cache.Faithful (CacheEvent.Explains state.events)
  follows : ∀ (number : Nat) (lookup : CacheLookup κ ν), state.lookups[number]? = some lookup →
    lookup.Follows number state.events
  known : ∀ event ∈ state.events, ∀ number, event.IsOf number → number < state.lookups.length
  answered : ∀ later earlier number key value,
    state.events = later ++ .found number key (some value) :: earlier → CacheEvent.Explains earlier key value

variable {state after : SharedCache κ ν} {cache : Cache κ ν} {event : CacheEvent κ ν}

theorem Recorded.written (recorded : state.Recorded) (isWrite : event.isWrite = true)
    (writes : cache.writes = state.cache.writes + 1)
    (faithful : cache.Faithful (CacheEvent.Explains (event :: state.events))) :
    Recorded ⟨cache, state.lookups, event :: state.events⟩ where
  writes := by rw [writes, recorded.writes, List.countP_cons_of_pos isWrite]
  faithful := faithful
  follows number lookup here := (recorded.follows number lookup here).later (CacheEvent.not_isOf_of_isWrite isWrite)
  known other listed number isOf := by
    rcases List.mem_cons.mp listed with rfl | listed
    · exact (CacheEvent.not_isOf_of_isWrite isWrite isOf).elim
    · exact recorded.known other listed number isOf
  answered later earlier number key value split := by
    cases later with
    | nil =>
        obtain ⟨rfl, _⟩ := List.cons.inj split
        cases isWrite
    | cons latest later => exact recorded.answered later earlier number key value (List.cons.inj split).2

/-- A step of one look-up, which may put a value in the cache but is no write. -/
theorem Recorded.moved {number : Nat} {lookup moved : CacheLookup κ ν} (recorded : state.Recorded)
    (here : state.lookups[number]? = some lookup) (only : ∀ other, event.IsOf other → number = other)
    (quiet : event.isWrite = false) (writes : cache.writes = state.cache.writes)
    (faithful : cache.Faithful (CacheEvent.Explains (event :: state.events)))
    (follows : moved.Follows number (event :: state.events))
    (answered : ∀ key value, event = .found number key (some value) →
      CacheEvent.Explains state.events key value) :
    Recorded ⟨cache, state.lookups.set number moved, event :: state.events⟩ where
  writes := by rw [writes, recorded.writes, List.countP_cons_of_neg (by simp [quiet])]
  faithful := faithful
  follows other lookup there := by
    rw [List.getElem?_set] at there
    split at there
    · obtain rfl := ‹number = other›
      obtain ⟨_, same⟩ := Option.ite_none_right_eq_some.mp there
      exact Option.some.inj same ▸ follows
    · exact (recorded.follows other lookup there).later fun isOf => ‹¬number = other› (only other isOf)
  known other listed number' isOf := by
    rw [List.length_set]
    rcases List.mem_cons.mp listed with rfl | listed
    · exact only number' isOf ▸ (List.getElem?_eq_some_iff.mp here).1
    · exact recorded.known other listed number' isOf
  answered later earlier other key value split := by
    cases later with
    | nil =>
        obtain ⟨rfl, rfl⟩ := List.cons.inj split
        obtain rfl := only other rfl
        exact answered key value rfl
    | cons latest later => exact recorded.answered later earlier other key value (List.cons.inj split).2

theorem recorded_start (lifetime : Nat) : Recorded (⟨.empty lifetime, [], []⟩ : SharedCache κ ν) where
  writes := rfl
  faithful := Cache.faithful_of_empty rfl
  follows := nofun
  known := nofun
  answered later earlier number key value split := by cases later <;> cases split

theorem faithful_quiet {events : List (CacheEvent κ ν)}
    (faithful : cache.Faithful (CacheEvent.Explains events)) (quiet : event.isWrite = false) :
    cache.Faithful (CacheEvent.Explains (event :: events)) :=
  faithful.weaken fun _ _ explains => explains.later (CacheEvent.not_replaces_of_not_isWrite quiet)

section Steps

variable [Std.LawfulEqOrd κ] [DecidableEq κ] {events : List (CacheEvent κ ν)} {key : κ} {value : ν}

theorem faithful_insert (faithful : cache.Faithful (CacheEvent.Explains events)) :
    (cache.insert key value).Faithful (CacheEvent.Explains (.inserted key value :: events)) where
  lasting brief other := by
    change (cache.put key value).entries[other]? = none
    rw [Cache.getElem?_put, if_neg fun lasting => lasting.1 (cache.lifetime_put key value ▸ brief)]
    exact faithful.lasting (cache.lifetime_put key value ▸ brief) other
  right other held found := by
    change (cache.put key value).entries[other]? = some held at found
    -- Without a lifetime the key may be this one and still keep no value, but then there is none at all.
    rw [Cache.getElem?_put] at found
    split at found
    · obtain ⟨_, rfl⟩ := ‹_ ∧ key = other›
      obtain rfl := Option.some.inj found
      exact .insert [] _ rfl nofun
    · rename_i apart
      refine (faithful.right other held found).later fun (same : key = other) => apart ⟨fun brief => ?_, same⟩
      rw [faithful.lasting brief other] at found
      cases found

theorem faithful_invalidate (faithful : cache.Faithful (CacheEvent.Explains events)) :
    (cache.invalidate key).Faithful (CacheEvent.Explains (.invalidated key :: events)) where
  lasting := (faithful.thinned (cache.thins_evict [key])).lasting
  right other held found := by
    rw [Cache.getElem?_invalidate] at found
    split at found
    · cases found
    · exact (faithful.right other held found).later ‹¬key = other›

/-- A value lands only if there was no write since its look-up counted them. -/
theorem faithful_land {number seen : Nat} {lookup : CacheLookup κ ν}
    (faithful : cache.Faithful (CacheEvent.Explains events))
    (writes : cache.writes = events.countP CacheEvent.isWrite) (follows : lookup.Follows number events)
    (landing : lookup.stage = .landing value seen) :
    (cache.land lookup.key value seen).Faithful
      (CacheEvent.Explains (.landed number lookup.key value :: events)) := by
  have kept : cache.Faithful (CacheEvent.Explains (.landed number lookup.key value :: events)) :=
    faithful_quiet faithful rfl
  unfold Cache.land
  split
  · obtain ⟨later, earlier, rfl, counted, loads⟩ := follows.landing value seen landing
    -- The look-up has counted the writes before it, and all of them are as many.
    have none : later.countP CacheEvent.isWrite = 0 := by
      simp [CacheEvent.isWrite] at writes
      omega
    refine kept.put (.load [] later earlier rfl loads (fun event listed => ?_) (by simp))
    simpa using List.countP_eq_zero.mp none event listed
  · exact kept

theorem Recorded.step (recorded : state.Recorded) (step : state.Step after) : after.Recorded := by
  cases step with
  | insert key value => exact recorded.written rfl rfl (faithful_insert recorded.faithful)
  | invalidate key => exact recorded.written rfl rfl (faithful_invalidate recorded.faithful)
  | clear => exact recorded.written rfl rfl (Cache.faithful_of_empty rfl)
  | vanish key =>
      have thins := state.cache.thins_evict [key]
      exact { recorded with
        writes := thins.writes.trans recorded.writes
        faithful := recorded.faithful.thinned thins }
  | begin key load =>
      refine { recorded with follows := fun number lookup here => ?_, known := fun event listed number isOf => ?_ }
      · rw [List.getElem?_append] at here
        split at here
        · exact recorded.follows number lookup here
        · obtain ⟨_, rfl⟩ := List.getElem?_eq_some_iff.mp here
          rw [List.getElem_singleton]
          exact CacheLookup.follows_seeking key load fun event listed isOf =>
            absurd (recorded.known event listed number isOf) ‹_›
      · rw [List.length_append]
        exact Nat.lt_add_right 1 (recorded.known event listed number isOf)
  | @call number lookup call next here asks =>
      have follows := recorded.follows number lookup here
      obtain ⟨key, load, stage⟩ := lookup
      cases stage with
      | seeking =>
          cases asks
          refine recorded.moved here (fun _ => id) rfl rfl (faithful_quiet recorded.faithful rfl)
            (follows.after_find rfl _) ?_
          intro other value same
          obtain ⟨_, rfl, found⟩ := CacheEvent.found.inj same
          exact recorded.faithful.right key value found
      | missed =>
          cases asks
          exact recorded.moved here (fun _ => id) rfl rfl (faithful_quiet recorded.faithful rfl)
            (follows.after_count rfl recorded.writes.symm) nofun
      | landing value seen =>
          cases asks
          exact recorded.moved here (fun _ => id) rfl (Cache.writes_land _ _ _ _)
            (faithful_land recorded.faithful recorded.writes follows rfl) (follows.after_land rfl) nofun
      | loading | ended => cases asks
  | load number here loading returns =>
      exact recorded.moved here (fun _ => id) rfl rfl (faithful_quiet recorded.faithful rfl)
        ((recorded.follows _ _ here).after_load loading returns) nofun

theorem recorded_of_steps {lifetime : Nat}
    (steps : Relation.ReflTransGen Step ⟨.empty lifetime, [], []⟩ state) : state.Recorded := by
  induction steps with
  | refl => exact recorded_start lifetime
  | tail _ step ih => exact ih.step step

/-- However look-ups, writes and losses mix, a cache holds only values from the latest insert or from a load that
no write came into. A failed load leaves it as it is and nothing of it lands, and a look-up returns what was
there or what its own loader returned. -/
theorem values_of_steps {lifetime : Nat}
    (steps : Relation.ReflTransGen Step ⟨.empty lifetime, [], []⟩ state) :
    (∀ key value, state.cache.find? key = some value → CacheEvent.Explains state.events key value) ∧
    (∀ number key value, .landed number key value ∈ state.events → .loaded number (.ok value) ∈ state.events ∧
      ∃ lookup, state.lookups[number]? = some lookup ∧ lookup.key = key) ∧
    (∀ number result, .loaded number result ∈ state.events →
      ∃ lookup, state.lookups[number]? = some lookup ∧ lookup.Returns result) ∧
    (∀ number error, .loaded number (.error error) ∈ state.events →
      (∃ lookup, state.lookups[number]? = some lookup ∧ lookup.stage = .ended (.error error)) ∧
      ∀ key value, .landed number key value ∉ state.events) ∧
    (∀ after number result, state.Step after → after.events = .loaded number result :: state.events →
      after.cache = state.cache) ∧
    (∀ (number : Nat) (lookup : CacheLookup κ ν) result, state.lookups[number]? = some lookup →
      lookup.stage = .ended result →
      (∃ value later earlier, result = .ok value ∧
        state.events = later ++ .found number lookup.key (some value) :: earlier ∧
        CacheEvent.Explains earlier lookup.key value) ∨
      .loaded number result ∈ state.events ∧ lookup.Returns result) ∧
    ∀ step, ∀ lookup ∈ state.lookups, lookup.Retraces step := by
  have recorded := recorded_of_steps steps
  have known (event : CacheEvent κ ν) (listed : event ∈ state.events) (number : Nat) (isOf : event.IsOf number) :
      ∃ lookup, state.lookups[number]? = some lookup ∧ lookup.Follows number state.events :=
    have here := List.getElem?_eq_getElem (recorded.known event listed number isOf)
    ⟨_, here, recorded.follows number _ here⟩
  refine ⟨recorded.faithful.right, fun number key value listed => ?_, fun number result listed => ?_,
    fun number error listed => ?_, fun after number result step loads => ?_,
    fun number lookup result here ended => ?_, fun step lookup _ => lookup.retraces step⟩
  · obtain ⟨lookup, here, follows⟩ := known _ listed number rfl
    obtain ⟨rfl, loads⟩ := follows.landed key value listed
    exact ⟨loads, lookup, here, rfl⟩
  · obtain ⟨lookup, here, follows⟩ := known _ listed number rfl
    exact ⟨lookup, here, (follows.returned result listed).1⟩
  · obtain ⟨lookup, here, follows⟩ := known _ listed number rfl
    obtain ended | ⟨_, _, same, _⟩ := (follows.returned _ listed).2
    · refine ⟨⟨lookup, here, ended⟩, fun key value landed => ?_⟩
      have loaded := (follows.returned _ (follows.landed key value landed).2).2
      simp [ended] at loaded
    · cases same
  · cases step with
    | load => rfl
    | insert | invalidate | clear => cases loads
    | vanish | begin => exact (List.cons_ne_self _ _ loads.symm).elim
    | @call number lookup call next here asks => cases call <;> cases loads
  · have follows := recorded.follows number lookup here
    rcases follows.ended result ended with ⟨value, rfl, found⟩ | loads
    · obtain ⟨later, earlier, split⟩ := List.append_of_mem found
      exact .inl ⟨value, later, earlier, rfl, split, recorded.answered later earlier number _ value split⟩
    · exact .inr ⟨loads, (follows.returned result loads).1⟩

end Steps

end SharedCache

namespace Sample

/-- A value is loaded while another one is inserted, and that one stays; a load that nothing comes into lands. -/
theorem values_of_overlap : ∃ state : SharedCache Nat Nat,
    Relation.ReflTransGen SharedCache.Step ⟨.empty 1, [], []⟩ state ∧
    state.cache.find? 1 = some 11 ∧ state.cache.find? 2 = some 20 ∧
    CacheEvent.Explains state.events 1 11 ∧ CacheEvent.Explains state.events 2 20 := by
  have steps : Relation.ReflTransGen SharedCache.Step (⟨.empty 1, [], []⟩ : SharedCache Nat Nat) _ := .refl
  have steps := steps.tail (.begin 1 (pure 10))
  have steps := steps.tail (.call 0 rfl rfl)
  have steps := steps.tail (.call 0 rfl rfl)
  have steps := steps.tail (.load 0 rfl rfl (.done _ _))
  have steps := steps.tail (.insert 1 11)
  have steps := steps.tail (.call 0 rfl rfl)
  have steps := steps.tail (.begin 2 (pure 20))
  have steps := steps.tail (.call 1 rfl rfl)
  have steps := steps.tail (.call 1 rfl rfl)
  have steps := steps.tail (.load 1 rfl rfl (.done _ _))
  have steps := steps.tail (.call 1 rfl rfl)
  obtain ⟨explains, _⟩ := SharedCache.values_of_steps steps
  have one : _ = some 11 := rfl
  have two : _ = some 20 := rfl
  exact ⟨_, steps, one, two, explains 1 11 one, explains 2 20 two⟩

end Sample

end RecordLinkage
