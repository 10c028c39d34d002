import RecordLinkage.Proofs.Cache.Entries
import RecordLinkage.Proofs.Feedback.Duties
import RecordLinkage.Proofs.Feedback.Table

/-! The feedback cache against the table, while operations have duties. For one pair: what is cached is what
is stored, or else someone is still going to tell the cache. That stays so as long as nobody changes the
row of the pair while another one has yet to bring an older verdict on it to the cache. -/

namespace RecordLinkage

namespace System

def stored (system : System) (pair : EntityPair) : Option Bool :=
  system.store.tables.feedback.rows[pair]?

end System

namespace Duty

def seen : Duty → Nat
  | owing _ => 0
  | counted seen => seen
  | loaded seen _ _ => seen

def SomeOwes (duties : List Duty) (pair : EntityPair) : Prop := ∃ duty ∈ duties, duty.Owes pair

variable {duties : List Duty} {index : Nat} {duty later : Duty} {pair : EntityPair}

theorem SomeOwes.self (found : duties[index]? = some duty) (owes : later.Owes pair) :
    SomeOwes (duties.set index later) pair :=
  ⟨later, List.mem_set (List.getElem?_eq_some_iff.mp found).1 later, owes⟩

theorem SomeOwes.set (owing : SomeOwes duties pair) (found : duties[index]? = some duty)
    (kept : duty.Owes pair → later.Owes pair) : SomeOwes (duties.set index later) pair := by
  obtain ⟨other, listed, owes⟩ := owing
  obtain ⟨position, known⟩ := List.mem_iff_getElem?.mp listed
  by_cases same : position = index
  · subst same
    obtain rfl := Option.some.inj (found.symm.trans known)
    exact .self found (kept owes)
  · rw [← List.getElem?_set_ne (Ne.symm same)] at known
    exact ⟨other, List.mem_of_getElem? known, owes⟩

theorem not_owes_settled : ¬settled.Owes pair := by
  rintro ⟨_, listed⟩
  cases listed

end Duty

namespace System

structure Agrees (system : System) (duties : List Duty) (pair : EntityPair) : Prop where
  lasting : system.feedbackCache.lifetime = 0 → system.feedbackCache.entries[pair]? = none
  seen : ∀ duty ∈ duties, duty.seen ≤ system.feedbackCache.writes
  owed : ∀ duty ∈ duties, ∀ value, (pair, value) ∈ duty.updates → system.stored pair = value
  cached : ∀ value, system.feedbackCache.entries[pair]? = some value →
    system.stored pair = value ∨ Duty.SomeOwes duties pair
  loaded : ∀ value, .loaded system.feedbackCache.writes pair value ∈ duties →
    system.stored pair = value ∨ Duty.SomeOwes duties pair

variable {system after : System} {duties : List Duty} {index : Nat} {duty later : Duty}
  {pair : EntityPair}

/-- One of those with duties does something; the others still have theirs. -/
theorem Agrees.set (agrees : system.Agrees duties pair) (found : duties[index]? = some duty)
    (lasting : after.feedbackCache.lifetime = 0 → after.feedbackCache.entries[pair]? = none)
    (grows : system.feedbackCache.writes ≤ after.feedbackCache.writes)
    (seen : later.seen ≤ after.feedbackCache.writes)
    (owed : ∀ value, (pair, value) ∈ later.updates → after.stored pair = value)
    (changed : after.stored pair = system.stored pair ∨ later.Owes pair ∧
      ∀ other known, other ≠ index → duties[other]? = some known → ¬known.Owes pair)
    (paid : duty.Owes pair → later.Owes pair ∨
      system.feedbackCache.writes < after.feedbackCache.writes)
    (cached : ∀ value, after.feedbackCache.entries[pair]? = some value →
      after.stored pair = value ∨ Duty.SomeOwes (duties.set index later) pair)
    (loaded : ∀ value, later = .loaded after.feedbackCache.writes pair value →
      after.stored pair = value) : after.Agrees (duties.set index later) pair := by
  constructor
  case lasting => exact lasting
  case cached => exact cached
  case seen =>
    intro known listed
    rcases List.mem_or_eq_of_mem_set listed with listed | rfl
    · exact Nat.le_trans (agrees.seen known listed) grows
    · exact seen
  case owed =>
    intro known listed value owes
    obtain ⟨position, at'⟩ := List.mem_iff_getElem?.mp listed
    by_cases same : position = index
    · subst same
      rw [List.getElem?_set_self (List.getElem?_eq_some_iff.mp found).1] at at'
      obtain rfl := Option.some.inj at'
      exact owed value owes
    · rw [List.getElem?_set_ne (Ne.symm same)] at at'
      rcases changed with kept | ⟨_, alone⟩
      · exact kept ▸ agrees.owed known (List.mem_of_getElem? at') value owes
      · exact (alone position known same at' ⟨value, owes⟩).elim
  case loaded =>
    intro value listed
    rcases List.mem_or_eq_of_mem_set listed with listed | same
    · rcases changed with kept | ⟨owes, _⟩
      · -- Whoever loaded before has seen no write since, so none was paid either.
        have unpaid : system.feedbackCache.writes = after.feedbackCache.writes :=
          Nat.le_antisymm grows (agrees.seen _ listed)
        rw [← unpaid] at listed
        rcases agrees.loaded value listed with right | owing
        · exact .inl (kept.trans right)
        · exact .inr (owing.set found fun owes =>
            (paid owes).resolve_right (Nat.not_lt.mpr (Nat.le_of_eq unpaid.symm)))
      · exact .inr (.self found owes)
    · exact .inl (loaded value same.symm)

theorem Agrees.looked (agrees : system.Agrees duties pair) (found : duties[index]? = some duty)
    (kept : after.stored pair = system.stored pair)
    (thins : system.feedbackCache.Thins after.feedbackCache)
    (seen : later.seen ≤ system.feedbackCache.writes)
    (owed : ∀ value, (pair, value) ∈ later.updates → system.stored pair = value)
    (owes : duty.Owes pair → later.Owes pair)
    (loaded : ∀ value, later = .loaded system.feedbackCache.writes pair value →
      system.stored pair = value) : after.Agrees (duties.set index later) pair := by
  refine agrees.set found ?_ (Nat.le_of_eq thins.writes.symm) (thins.writes ▸ seen) (kept ▸ owed) (.inl kept)
    (fun owing => .inl (owes owing)) ?_ (by rwa [thins.writes, kept])
  · intro brief
    refine Option.eq_none_iff_forall_ne_some.mpr fun value known => ?_
    have before := agrees.lasting (thins.lifetime ▸ brief)
    rw [thins.entries pair value known] at before
    cases before
  · intro value known
    rcases agrees.cached value (thins.entries pair value known) with right | owing
    · exact .inl (kept.trans right)
    · exact .inr (owing.set found owes)

/-- A write of feedback leaves the cache alone, and its duty names the pairs whose rows it changed. -/
theorem MayAnswer.tells {request : Write} {written : Written}
    (permitted : Duty.settled.Permits (.write request))
    (possible : system.MayAnswer (.write request) (.ok written) after) :
    after.feedbackCache = system.feedbackCache ∧ ∀ pair,
      (∀ value, (pair, value) ∈ (Duty.settled.next (.write request) (.ok written)).updates →
        after.stored pair = value) ∧
      (after.stored pair = system.stored pair ∨
        (Duty.settled.next (.write request) (.ok written)).Owes pair) := by
  obtain ⟨disk, store, wrote, rfl⟩ := possible.written
  obtain ⟨told, tables⟩ := Store.written_of_write wrote
  refine ⟨rfl, fun pair => ?_⟩
  simp only [System.stored, tables, Duty.Owes]
  cases request with
  | upsertFeedback row =>
      simp only [Tables.write, Tables.plan, Tables.apply, FeedbackTable.getElem?_upsert,
        Duty.next, Duty.storing, Duty.updates, List.map_cons, List.map_nil, List.mem_singleton,
        Prod.mk.injEq]
      split
      · rename_i same
        exact ⟨fun _ owed => owed.2.symm, .inr ⟨_, same.symm, rfl⟩⟩
      · rename_i apart
        exact ⟨fun _ owed => absurd owed.1.symm apart, .inl rfl⟩
  | deleteFeedbackInSet set keys | deleteFeedbackOn entity =>
      simp only [told, Tables.write, Tables.plan, Tables.apply, FeedbackTable.getElem?_remove,
        Duty.next, Duty.dropping, Duty.updates, Written.removed, List.mem_map, Prod.mk.injEq]
      split
      · rename_i gone
        exact ⟨by simp, .inr ⟨none, pair, gone, rfl, rfl⟩⟩
      · rename_i kept
        refine ⟨?_, .inl rfl⟩
        rintro _ ⟨_, gone, rfl, _⟩
        exact absurd gone kept
  | _ => exact permitted.elim

theorem Agrees.wrote {request : Write} {written : Written} (agrees : system.Agrees duties pair)
    (found : duties[index]? = some .settled) (permitted : Duty.settled.Permits (.write request))
    (possible : system.MayAnswer (.write request) (.ok written) after)
    (alone : after.stored pair ≠ system.stored pair → ∀ other known, other ≠ index →
      duties[other]? = some known → ¬known.Owes pair) :
    after.Agrees (duties.set index (Duty.settled.next (.write request) (.ok written))) pair := by
  obtain ⟨cache, tells⟩ := possible.tells permitted
  obtain ⟨owed, changed⟩ := tells pair
  refine agrees.set found (cache ▸ agrees.lasting) (Nat.le_of_eq (by rw [cache])) ?_ owed ?_
    (fun owes => (Duty.not_owes_settled owes).elim) ?_ ?_
  · cases request with
    | upsertFeedback | deleteFeedbackInSet | deleteFeedbackOn => exact Nat.zero_le _
    | _ => exact permitted.elim
  · by_cases same : after.stored pair = system.stored pair
    · exact .inl same
    · exact .inr ⟨changed.resolve_left same, alone same⟩
  · intro value known
    rcases changed with same | owes
    · rcases agrees.cached value (cache ▸ known) with right | owing
      · exact .inl (same.trans right)
      · exact .inr (owing.set found fun owes => (Duty.not_owes_settled owes).elim)
    · exact .inr (.self found owes)
  · intro value loaded
    cases request with
    | upsertFeedback | deleteFeedbackInSet | deleteFeedbackOn => cases loaded
    | _ => exact permitted.elim

theorem Agrees.paid {cache : Cache EntityPair (Option Bool)} {first : EntityPair} {told : Option Bool}
    {rest : List (EntityPair × Option Bool)} (agrees : system.Agrees duties pair)
    (found : duties[index]? = some (.owing ((first, told) :: rest)))
    (lifetime : cache.lifetime = system.feedbackCache.lifetime)
    (writes : cache.writes = system.feedbackCache.writes + 1)
    (entries : ∀ value, cache.entries[pair]? = some value →
      if first = pair then value = told ∧ system.feedbackCache.lifetime ≠ 0
      else system.feedbackCache.entries[pair]? = some value) :
    ({ system with feedbackCache := cache } : System).Agrees (duties.set index (.owing rest)) pair := by
  -- What is owed for the pair is still owed, unless it was just paid.
  have still : first ≠ pair → (Duty.owing ((first, told) :: rest)).Owes pair →
      (Duty.owing rest).Owes pair := by
    rintro apart ⟨value, listed⟩
    rcases List.mem_cons.mp listed with same | listed
    · exact (apart (Prod.ext_iff.mp same).1.symm).elim
    · exact ⟨value, listed⟩
  have right : ∀ value, (pair, value) ∈ (first, told) :: rest → system.stored pair = value :=
    agrees.owed _ (List.mem_of_getElem? found)
  refine agrees.set found ?_ (by simp [writes]) (Nat.zero_le _)
    (fun value listed => right value (.tail _ listed)) (.inl rfl) (fun _ => .inr (by simp [writes]))
    ?_ (by simp)
  · intro brief
    refine Option.eq_none_iff_forall_ne_some.mpr fun value known => ?_
    have before := entries value known
    split at before
    · exact before.2 (lifetime ▸ brief)
    · rw [agrees.lasting (lifetime ▸ brief)] at before
      cases before
  · intro value known
    have before := entries value known
    split at before
    · rename_i same
      exact .inl (right value (by simp [same, before.1]))
    · rename_i apart
      rcases agrees.cached value before with right | owing
      · exact .inl right
      · exact .inr (owing.set found (still apart))

theorem Agrees.landed {cache : Cache EntityPair (Option Bool)} {seen : Nat} {loaded : EntityPair}
    {known : Option Bool} (agrees : system.Agrees duties pair)
    (found : duties[index]? = some (.loaded seen loaded known))
    (thins : system.feedbackCache.Thins cache) :
    ({ system with feedbackCache := cache.land loaded known seen } : System).Agrees
      (duties.set index .settled) pair := by
  have owes : ¬(Duty.loaded seen loaded known).Owes pair := by
    rintro ⟨_, listed⟩
    cases listed
  have lifetime : (cache.land loaded known seen).lifetime = system.feedbackCache.lifetime := by
    rw [← thins.lifetime]
    unfold Cache.land
    split
    · exact cache.lifetime_put _ _
    · rfl
  have writes : (cache.land loaded known seen).writes = system.feedbackCache.writes := by
    rw [← thins.writes]
    unfold Cache.land
    split
    · exact cache.writes_put _ _
    · rfl
  -- An entry that was not there before landed just now, with no write to the cache since the look-up counted.
  have entries : ∀ value, (cache.land loaded known seen).entries[pair]? = some value →
      system.feedbackCache.entries[pair]? = some value ∨ system.feedbackCache.lifetime ≠ 0 ∧
        Duty.loaded system.feedbackCache.writes pair value ∈ duties := by
    intro value landed
    unfold Cache.land at landed
    split at landed
    · rename_i unchanged
      rw [Cache.getElem?_put] at landed
      split at landed
      · rename_i kept
        obtain rfl := Option.some.inj landed
        refine .inr ⟨thins.lifetime ▸ kept.1, ?_⟩
        rw [← thins.writes, unchanged, ← kept.2]
        exact List.mem_of_getElem? found
      · exact .inl (thins.entries _ _ landed)
    · exact .inl (thins.entries _ _ landed)
  refine agrees.set found ?_ (Nat.le_of_eq writes.symm) (Nat.zero_le _) (by simp [Duty.settled, Duty.updates])
    (.inl rfl) (fun owing => (owes owing).elim) ?_ (by simp [Duty.settled])
  · intro brief
    refine Option.eq_none_iff_forall_ne_some.mpr fun value landed => ?_
    rcases entries value landed with before | ⟨lasts, _⟩
    · rw [agrees.lasting (lifetime ▸ brief)] at before
      cases before
    · exact lasts (lifetime ▸ brief)
  · intro value landed
    have before : system.stored pair = value ∨ Duty.SomeOwes duties pair := by
      rcases entries value landed with before | ⟨_, listed⟩
      · exact agrees.cached value before
      · exact agrees.loaded value listed
    exact before.imp_right fun owing => owing.set found fun own => (owes own).elim

theorem Agrees.answered {request : Write} {answer : Except LinkError Written}
    (agrees : system.Agrees duties pair) (found : duties[index]? = some .settled)
    (permitted : Duty.settled.Permits (.write request))
    (possible : system.MayAnswer (.write request) answer after)
    (alone : after.stored pair ≠ system.stored pair → ∀ other known, other ≠ index →
      duties[other]? = some known → ¬known.Owes pair) :
    after.Agrees (duties.set index (Duty.settled.next (.write request) answer)) pair := by
  cases answer with
  | ok written => exact agrees.wrote found permitted possible alone
  | error error =>
      have cache := possible.fixes.feedbackCache nofun
      have kept : after.stored pair = system.stored pair :=
        congrArg (fun tables => tables.feedback.rows[pair]?) possible.refused.1
      have same : Duty.settled.next (.write request) (.error error) = .settled := by
        cases request <;> rfl
      rw [same]
      exact agrees.looked found kept (cache ▸ system.feedbackCache.thins_evict [])
        (Nat.zero_le _) (by simp [Duty.settled, Duty.updates]) id (by simp [Duty.settled])

theorem Agrees.listed {entity : EntityKey} {verdict : Verdict} {answer : Except LinkError (List Feedback)}
    (agrees : system.Agrees duties pair) (found : duties[index]? = some .settled)
    (possible : system.MayAnswer (.read (.feedbackOn entity verdict)) answer after) :
    after.Agrees (duties.set index (Duty.settled.next (.read (.feedbackOn entity verdict)) answer))
      pair := by
  have intact := system.feedbackCache.thins_evict []
  cases answer with
  | error error =>
      obtain rfl := possible
      exact agrees.looked found rfl intact (Nat.zero_le _)
        (by simp [Duty.next, Duty.settled, Duty.updates]) id (by simp [Duty.next, Duty.settled])
  | ok rows =>
      obtain ⟨rfl, rfl⟩ := possible
      refine agrees.looked found rfl intact (Nat.zero_le _) ?_
        (fun owes => (Duty.not_owes_settled owes).elim) (by simp [Duty.next, Duty.storing])
      intro value listed
      obtain ⟨row, among, same⟩ := List.mem_map.mp listed
      obtain ⟨rfl, rfl⟩ := Prod.mk.injEq .. ▸ same
      exact FeedbackTable.getElem?_of_mem_findByEntity among

theorem Agrees.fetched {seen : Nat} {asked : EntityPair} {answer : Except LinkError (Option Feedback)}
    (agrees : system.Agrees duties pair) (found : duties[index]? = some (.counted seen))
    (possible : system.MayAnswer (.read (.feedback asked)) answer after) :
    after.Agrees (duties.set index ((Duty.counted seen).next (.read (.feedback asked)) answer))
      pair := by
  have intact := system.feedbackCache.thins_evict []
  have free : ¬(Duty.counted seen).Owes pair := by
    rintro ⟨_, listed⟩
    cases listed
  cases answer with
  | error error =>
      obtain rfl := possible
      exact agrees.looked found rfl intact (Nat.zero_le _)
        (by simp [Duty.next, Duty.settled, Duty.updates]) (fun owes => (free owes).elim)
        (by simp [Duty.next, Duty.settled])
  | ok row =>
      obtain ⟨rfl, rfl⟩ := possible
      have known := agrees.seen _ (List.mem_of_getElem? found)
      refine agrees.looked found rfl intact known (by simp [Duty.next, Duty.updates])
        (fun owes => (free owes).elim) ?_
      intro value loaded
      obtain ⟨_, rfl, rfl⟩ := Duty.loaded.injEq .. ▸ loaded
      exact FeedbackTable.map_linked_get?.symm

theorem Agrees.inserted {cache : Cache EntityPair (Option Bool)} {first : EntityPair}
    {told : Option Bool} {rest : List (EntityPair × Option Bool)} (agrees : system.Agrees duties pair)
    (found : duties[index]? = some (.owing ((first, told) :: rest)))
    (thins : system.feedbackCache.Thins cache) :
    ({ system with feedbackCache := cache.insert first told } : System).Agrees
      (duties.set index (.owing rest)) pair := by
  refine agrees.paid found ((cache.lifetime_put _ _).trans thins.lifetime)
    (congrArg (· + 1) thins.writes) ?_
  intro value inserted
  change (cache.put first told).entries[pair]? = some value at inserted
  rw [Cache.getElem?_put] at inserted
  by_cases same : first = pair
  · rw [if_pos same]
    split at inserted
    · rename_i lasting
      exact ⟨(Option.some.inj inserted).symm, thins.lifetime ▸ lasting.1⟩
    · rename_i brief
      have lost := thins.entries pair value inserted
      rw [agrees.lasting (by simpa [same, thins.lifetime] using brief)] at lost
      cases lost
  · rw [if_neg same]
    rw [if_neg (fun both => same both.2)] at inserted
    exact thins.entries pair value inserted

theorem Agrees.invalidated {cache : Cache EntityPair (Option Bool)} {first : EntityPair}
    {told : Option Bool} {rest : List (EntityPair × Option Bool)} (agrees : system.Agrees duties pair)
    (found : duties[index]? = some (.owing ((first, told) :: rest)))
    (thins : system.feedbackCache.Thins cache) :
    ({ system with feedbackCache := cache.invalidate first } : System).Agrees
      (duties.set index (.owing rest)) pair := by
  refine agrees.paid found thins.lifetime (congrArg (· + 1) thins.writes) ?_
  intro value kept
  rw [Cache.getElem?_invalidate] at kept
  split at kept
  · contradiction
  · rename_i apart
    rw [if_neg apart]
    exact thins.entries pair value kept

/-- A call in its place keeps the agreement, if nobody else owes anything for a pair whose row it changes. -/
theorem Agrees.call {call : Call} {answer : call.Answer} (agrees : system.Agrees duties pair)
    (found : duties[index]? = some duty) (permitted : duty.Permits call)
    (possible : system.MayAnswer call answer after)
    (alone : after.stored pair ≠ system.stored pair → ∀ other known, other ≠ index →
      duties[other]? = some known → ¬known.Owes pair) :
    after.Agrees (duties.set index (duty.next call answer)) pair := by
  unfold Duty.Permits at permitted
  split at permitted
  case h_1 | h_2 | h_3 => exact agrees.answered found trivial possible alone
  case h_4 entity verdict => exact agrees.listed found possible
  case h_5 asked =>
    obtain ⟨_, ⟨lost, answered⟩, rfl⟩ := possible
    obtain ⟨rfl, rfl⟩ := Prod.mk.injEq .. ▸ answered
    exact agrees.looked found rfl (system.feedbackCache.thins_evict lost) (Nat.zero_le _)
      (by simp [Duty.next, Duty.updates]) id (by simp [Duty.next])
  case h_6 =>
    obtain ⟨_, ⟨lost, answered⟩, rfl⟩ := possible
    obtain ⟨rfl, rfl⟩ := Prod.mk.injEq .. ▸ answered
    have thins := system.feedbackCache.thins_evict lost
    exact agrees.looked found rfl thins (Nat.le_of_eq thins.writes) (by simp [Duty.next, Duty.updates])
      (fun owes => (Duty.not_owes_settled owes).elim) (by simp [Duty.next])
  case h_7 seen asked => exact agrees.fetched found possible
  case h_8 seen loaded known asked told count =>
    obtain ⟨rfl, rfl, rfl⟩ := permitted
    obtain ⟨_, ⟨lost, answered⟩, rfl⟩ := possible
    obtain ⟨_, rfl⟩ := Prod.mk.injEq .. ▸ answered
    exact agrees.landed found (system.feedbackCache.thins_evict lost)
  case h_9 first told rest asked known =>
    obtain ⟨rfl, rfl, _⟩ := permitted
    obtain ⟨_, ⟨lost, answered⟩, rfl⟩ := possible
    obtain ⟨_, rfl⟩ := Prod.mk.injEq .. ▸ answered
    exact agrees.inserted found (system.feedbackCache.thins_evict lost)
  case h_10 first told rest asked =>
    obtain ⟨rfl, rfl⟩ := permitted
    obtain ⟨_, ⟨lost, answered⟩, rfl⟩ := possible
    obtain ⟨_, rfl⟩ := Prod.mk.injEq .. ▸ answered
    exact agrees.invalidated found (system.feedbackCache.thins_evict lost)
  case h_11 => exact permitted.elim

end System

end RecordLinkage
