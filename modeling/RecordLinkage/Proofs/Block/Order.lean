import RecordLinkage.Proofs.Block.Delivery
import RecordLinkage.Proofs.Linking.Resolves
import RecordLinkage.Proofs.Linking.Verdicts

/-! What an exchange ends with does not depend on the order of its moves. Items of one set stay in order on
their way, and those of different sets are about different entities; so the receiver always has the last
item about an entity in the end, unless there is a failure, and then it has some failure. -/

namespace RecordLinkage

namespace Loaded

def valued? (types : IdSet) (entity : EntityKey) : Loaded → Option Properties
  | .ok (other, properties) =>
      if other = entity ∧ properties.hasValuesFor types then some properties else none
  | .error _ => none

theorem of_valued? {types : IdSet} {entity : EntityKey} {item : Loaded} {properties : Properties}
    (valued : item.valued? types entity = some properties) : item = .ok (entity, properties) := by
  cases item with
  | error error => cases valued
  | ok candidate =>
      simp only [valued?, Option.ite_none_right_eq_some, Option.some.injEq] at valued
      rw [← valued.1.1, ← valued.2]

end Loaded

namespace Exchange

def coming (exchange : Exchange) (entity : EntityKey) : List Properties :=
  (exchange.channel ++ exchange.senders.flatten).filterMap (Loaded.valued? exchange.types entity)

def OfSets (sets : List Id) (exchange : Exchange) : Prop :=
  ∀ (index : Nat) (items : List Loaded), exchange.senders[index]? = some items →
    ∀ (entity : EntityKey) (properties : Properties), .ok (entity, properties) ∈ items →
      sets[index]? = some entity.set

variable {sets : List Id} {before after : Exchange}

theorem capacity_of_step {move : Move} (moved : before.step? move = some after) :
    after.capacity = before.capacity := by
  cases move with
  | send sender =>
      simp only [step?, send?] at moved
      split at moved
      · split at moved
        · exact Option.some.inj moved ▸ rfl
        · split at moved
          · exact Option.some.inj moved ▸ rfl
          · cases moved
      · cases moved
  | receive =>
      simp only [step?, receive?] at moved
      split at moved
      · cases moved
      · split at moved
        · exact Option.some.inj moved ▸ rfl
        · exact Option.some.inj moved ▸ rfl
        · split at moved
          · exact Option.some.inj moved ▸ rfl
          · cases moved

/-- What is taken replaces what was there, if it has a value. -/
theorem getElem?_take (exchange : Exchange) (entity other : EntityKey) (properties : Properties) :
    (exchange.take entity properties)[other]? =
      (Loaded.valued? exchange.types other (.ok (entity, properties))).or exchange.received[other]? := by
  unfold take Loaded.valued?
  split
  · rw [Std.ExtTreeMap.getElem?_insert]
    simp only [Std.LawfulEqOrd.compare_eq_iff_eq, *, and_true]
    split <;> rfl
  · simp [*]

theorem OfSets.send (ofSets : before.OfSets sets) {sender : Nat} {item : Loaded} {items : List Loaded}
    (found : before.senders[sender]? = some (item :: items)) :
    OfSets sets { before with
      senders := before.senders.set sender items
      channel := before.channel ++ [item] } := by
  intro index own found' entity properties listed
  by_cases same : sender = index
  · subst same
    obtain ⟨inside, _⟩ := List.getElem?_eq_some_iff.mp found
    rw [List.getElem?_set_self inside] at found'
    obtain rfl := Option.some.inj found'
    exact ofSets sender _ found entity properties (.tail _ listed)
  · rw [List.getElem?_set_ne same] at found'
    exact ofSets index own found' entity properties listed

/-- What is sent keeps its place among the items about its entity: other loaders have none of them. -/
theorem OfSets.coming_send (ofSets : before.OfSets sets) (distinct : sets.Nodup) {sender : Nat} {item : Loaded}
    {items : List Loaded} (found : before.senders[sender]? = some (item :: items)) (entity : EntityKey) :
    coming { before with
      senders := before.senders.set sender items
      channel := before.channel ++ [item] } entity = before.coming entity := by
  obtain ⟨inside, here⟩ := List.getElem?_eq_some_iff.mp found
  obtain ⟨front, back, split, length, replaced⟩ := @List.exists_of_set _ _ items _ inside
  rw [here] at split
  simp only [coming, replaced]
  conv => rhs; rw [split]
  simp only [List.flatten_append, List.flatten_cons, List.filterMap_append, List.append_assoc,
    List.filterMap_cons, List.filterMap_nil, List.cons_append]
  cases valued : item.valued? before.types entity with
  | none => simp
  | some properties =>
      have first : front.flatten.filterMap (Loaded.valued? before.types entity) = [] := by
        rw [List.filterMap_eq_nil_iff]
        intro other listed
        obtain ⟨own, among, listed⟩ := List.mem_flatten.mp listed
        obtain ⟨index, place, rfl⟩ := List.mem_iff_getElem.mp among
        rw [Option.eq_none_iff_forall_ne_some]
        intro known valued'
        have found' : before.senders[index]? = some front[index] := by
          rw [split, List.getElem?_append_left place, List.getElem?_eq_getElem place]
        have mine := ofSets index _ found' entity known (Loaded.of_valued? valued' ▸ listed)
        have theirs := ofSets sender _ found entity properties (Loaded.of_valued? valued ▸ .head _)
        obtain ⟨within, _⟩ := List.getElem?_eq_some_iff.mp mine
        have same := (List.getElem?_inj within distinct).mp (mine.trans theirs.symm)
        omega
      simp [first]

structure Gathers (sets : List Id) (wanted : EntityKey → Option Properties) (exchange : Exchange) : Prop where
  sound : ∀ error, .error error ∉ exchange.underWay
  ofSets : exchange.OfSets sets
  latest : ∀ entity, (exchange.coming entity).getLast?.or exchange.received[entity]? = wanted entity
  outcome : exchange.outcome = none ∨
    exchange.underWay = [] ∧ exchange.outcome = some (.ok exchange.received)

variable {wanted : EntityKey → Option Properties}

theorem Gathers.send (gathers : before.Gathers sets wanted) (distinct : sets.Nodup) {sender : Nat}
    (moved : before.send? sender = some after) : after.Gathers sets wanted := by
  unfold send? at moved
  split at moved
  · rename_i item items found
    have listed : item ∈ before.underWay :=
      List.mem_append_left _ (List.mem_flatten.mpr ⟨_, List.mem_of_getElem? found, .head _⟩)
    have waiting : before.outcome = none :=
      gathers.outcome.resolve_right fun ended => by simp [ended.1] at listed
    rw [if_neg (by simp [waiting])] at moved
    split at moved
    · obtain rfl := Option.some.inj moved
      refine ⟨fun error under => gathers.sound error ?_, gathers.ofSets.send found, fun entity => ?_, .inl waiting⟩
      · exact (underWay_send_perm found).subset under
      · rw [gathers.ofSets.coming_send distinct found entity]
        exact gathers.latest entity
    · cases moved
  · cases moved

theorem Gathers.receive (gathers : before.Gathers sets wanted) (moved : before.receive? = some after) :
    after.Gathers sets wanted := by
  unfold receive? at moved
  split at moved
  · cases moved
  · rename_i waiting
    have waiting : before.outcome = none := by simpa using waiting
    split at moved
    · rename_i entity properties channel full
      obtain rfl := Option.some.inj moved
      refine ⟨fun error under => gathers.sound error ?_, gathers.ofSets, fun other => ?_, .inl waiting⟩
      · rw [underWay, full]
        rcases List.mem_append.mp under with kept | kept
        · exact List.mem_append_left _ kept
        · exact List.mem_append_right _ (.tail _ kept)
      · rw [← gathers.latest other, getElem?_take, coming, coming, full, List.cons_append, List.filterMap_cons]
        dsimp only
        cases Loaded.valued? before.types other (.ok (entity, properties)) with
        | none => rfl
        | some latest =>
            dsimp only
            rw [List.getLast?_cons]
            cases List.getLast? _ <;> rfl
    · rename_i error channel full
      exact (gathers.sound error (List.mem_append_right _ (full ▸ .head _))).elim
    · rename_i drained
      split at moved
      · rename_i idle
        obtain rfl := Option.some.inj moved
        exact ⟨gathers.sound, gathers.ofSets, gathers.latest, .inr ⟨underWay_eq_nil drained idle, rfl⟩⟩
      · cases moved

theorem Gathers.moves (gathers : before.Gathers sets wanted) (distinct : sets.Nodup) (moves : before.Moves after) :
    after.Gathers sets wanted := by
  induction moves with
  | refl => exact gathers
  | tail _ moved gathers =>
      obtain ⟨move, moved⟩ := moved
      cases move with
      | send sender => exact gathers.send distinct moved
      | receive => exact gathers.receive moved

def Fails (exchange : Exchange) : Prop :=
  exchange.outcome = none ∧ (∃ error, .error error ∈ exchange.underWay) ∨
    ∃ error, exchange.outcome = some (.error error)

theorem Fails.send (fails : before.Fails) {sender : Nat} (moved : before.send? sender = some after) :
    after.Fails := by
  unfold send? at moved
  split at moved
  · rename_i item items found
    split at moved
    · rename_i ended
      obtain rfl := Option.some.inj moved
      refine .inr (fails.resolve_left fun under => ?_)
      simp [under.1] at ended
    · split at moved
      · obtain rfl := Option.some.inj moved
        refine fails.imp (fun under => ⟨under.1, ?_⟩) id
        obtain ⟨error, listed⟩ := under.2
        exact ⟨error, (underWay_send_perm found).symm.subset listed⟩
      · cases moved
  · cases moved

theorem Fails.receive (fails : before.Fails) (moved : before.receive? = some after) : after.Fails := by
  unfold receive? at moved
  split at moved
  · cases moved
  · rename_i waiting
    have waiting : before.outcome = none := by simpa using waiting
    obtain ⟨error, listed⟩ : ∃ error, .error error ∈ before.underWay :=
      (fails.resolve_right fun ended => by simp [waiting] at ended).2
    split at moved
    · rename_i entity properties channel full
      obtain rfl := Option.some.inj moved
      refine .inl ⟨waiting, error, ?_⟩
      simpa [underWay, full] using listed
    · exact Option.some.inj moved ▸ .inr ⟨_, rfl⟩
    · rename_i drained
      split at moved
      · rename_i idle
        simp [underWay_eq_nil drained idle] at listed
      · cases moved

theorem Fails.moves (fails : before.Fails) (moves : before.Moves after) : after.Fails := by
  induction moves with
  | refl => exact fails
  | tail _ moved fails =>
      obtain ⟨move, moved⟩ := moved
      cases move with
      | send sender => exact fails.send moved
      | receive => exact fails.receive moved

theorem Carries.moves {given : Loaded → Prop} (carries : before.Carries given) (moves : before.Moves after) :
    after.Carries given := by
  induction moves with
  | refl => exact carries
  | tail _ moved carries =>
      obtain ⟨move, moved⟩ := moved
      cases move with
      | send sender => exact carries.send moved
      | receive => exact carries.receive moved

theorem capacity_of_moves (moves : before.Moves after) : after.capacity = before.capacity := by
  induction moves with
  | refl => rfl
  | tail _ moved same =>
      obtain ⟨move, moved⟩ := moved
      exact (capacity_of_step moved).trans same

end Exchange

namespace Loaded

variable {set : Id} {answer : Except LinkError PropertyStream} {entity : EntityKey}

theorem set_of_mem_ofAnswer {properties : Properties} (sent : .ok (entity, properties) ∈ ofAnswer set answer) :
    entity.set = set := by
  cases answer with
  | error error => simp [ofAnswer] at sent
  | ok stream => exact (of_mem_ofStream sent).1

theorem filterMap_ofAnswer_of_ne (types : IdSet) (apart : set ≠ entity.set) :
    (ofAnswer set answer).filterMap (valued? types entity) = [] := by
  rw [List.filterMap_eq_nil_iff]
  intro item listed
  rw [Option.eq_none_iff_forall_ne_some]
  intro properties valued
  exact apart (set_of_mem_ofAnswer (of_valued? valued ▸ listed)).symm

end Loaded

theorem Members.nodup_sets (members : Members) : (members.toList.map Prod.fst).Nodup := by
  rw [Std.ExtTreeMap.map_fst_toList_eq_keys]
  exact members.nodup_keys

namespace Host

def streamed (host : Host) (types : IdSet) (others : Members) (entity : EntityKey) : List Properties :=
  match others[entity.set]? with
  | none => []
  | some keys =>
      (Loaded.ofAnswer entity.set (host (.loadMany entity.set keys))).filterMap (Loaded.valued? types entity)

def Raises (host : Host) (others : Members) (error : LinkError) : Prop :=
  ∃ (set : Id) (keys : IdSet), others[set]? = some keys ∧
    .error error ∈ Loaded.ofAnswer set (host (.loadMany set keys))

variable {host : Host} {others : Members}

theorem filterMap_streams (types : IdSet) (entity : EntityKey) :
    (host.streams others.toList).flatten.filterMap (Loaded.valued? types entity) =
      host.streamed types others entity := by
  have nothing : ∀ groups : List (Id × IdSet), (∀ group ∈ groups, group.1 ≠ entity.set) →
      (host.streams groups).flatten.filterMap (Loaded.valued? types entity) = [] := by
    intro groups apart
    rw [List.filterMap_eq_nil_iff]
    intro item listed
    obtain ⟨items, among, listed⟩ := List.mem_flatten.mp listed
    obtain ⟨group, member, rfl⟩ := List.mem_map.mp among
    exact List.filterMap_eq_nil_iff.mp (Loaded.filterMap_ofAnswer_of_ne types (apart group member)) item listed
  unfold streamed
  cases found : others[entity.set]? with
  | none =>
      refine nothing _ fun group listed same => ?_
      rw [Std.ExtTreeMap.mem_toList_iff_getElem?_eq_some, same, found] at listed
      cases listed
  | some keys =>
      have listed := Std.ExtTreeMap.mem_toList_iff_getElem?_eq_some.mpr found
      obtain ⟨front, back, split⟩ := List.append_of_mem listed
      have distinct := others.nodup_sets
      rw [split, (List.perm_middle.map Prod.fst).nodup_iff, List.map_cons, List.nodup_cons] at distinct
      have apart : ∀ group ∈ front ++ back, group.1 ≠ entity.set :=
        fun group among same => distinct.1 (List.mem_map.mpr ⟨group, among, same⟩)
      rw [split, streams, List.map_append, List.map_cons, List.flatten_append, List.flatten_cons,
        List.filterMap_append, List.filterMap_append]
      have before := nothing front fun group among => apart group (List.mem_append_left _ among)
      have after := nothing back fun group among => apart group (List.mem_append_right _ among)
      simp only [streams] at before after
      rw [before, after, List.append_nil, List.nil_append]

theorem raises_iff {error : LinkError} :
    host.Raises others error ↔ .error error ∈ (host.streams others.toList).flatten := by
  simp only [Raises, streams, List.mem_flatten, List.mem_map, Prod.exists,
    Std.ExtTreeMap.mem_toList_iff_getElem?_eq_some]
  constructor
  · rintro ⟨set, keys, found, listed⟩
    exact ⟨_, ⟨set, keys, found, rfl⟩, listed⟩
  · rintro ⟨_, ⟨set, keys, found, rfl⟩, listed⟩
    exact ⟨set, keys, found, listed⟩

end Host

namespace Exchange

variable {host : Host} {others : Members} {types : IdSet} {capacity : Nat} {own : Candidates} {after : Exchange}

/-- Without a failure an exchange ends with the last properties of each entity. -/
theorem received_of_moves (sound : ∀ error, ¬host.Raises others error)
    (moves : (start types capacity (host.streams others.toList) own).Moves after)
    {result : Except LinkError Candidates} (ended : after.outcome = some result) :
    ∃ candidates, result = .ok candidates ∧ ∀ entity : EntityKey,
      candidates[entity]? = (host.streamed types others entity).getLast?.or own[entity]? := by
  have gathers : (start types capacity (host.streams others.toList) own).Gathers (others.toList.map Prod.fst)
      fun entity => (host.streamed types others entity).getLast?.or own[entity]? := by
    refine ⟨fun error under => sound error ?_, ?_, fun entity => ?_, .inl rfl⟩
    · rw [Host.raises_iff]
      simpa [underWay, start] using under
    · intro index items found entity properties listed
      simp only [start, Host.streams, List.getElem?_map, Option.map_eq_some_iff] at found ⊢
      obtain ⟨group, found, rfl⟩ := found
      exact ⟨group, found, (Loaded.set_of_mem_ofAnswer listed).symm⟩
    · rw [← Host.filterMap_streams]
      rfl
  have gathered := gathers.moves others.nodup_sets moves
  obtain ⟨none, outcome⟩ := gathered.outcome.resolve_left (by simp [ended])
  refine ⟨after.received, Option.some.inj (ended.symm.trans outcome), fun entity => ?_⟩
  rw [← gathered.latest entity]
  obtain ⟨senders, channel⟩ := List.append_eq_nil_iff.mp none
  simp [coming, senders, channel]

/-- With a failure an exchange ends with one that was sent. -/
theorem raised_of_moves (raises : ∃ error, host.Raises others error)
    (moves : (start types capacity (host.streams others.toList) own).Moves after)
    {result : Except LinkError Candidates} (ended : after.outcome = some result) :
    ∃ error, result = .error error ∧ host.Raises others error := by
  obtain ⟨error, raised⟩ := raises
  have fails : (start types capacity (host.streams others.toList) own).Fails := by
    refine .inl ⟨rfl, error, ?_⟩
    simpa [underWay, start] using Host.raises_iff.mp raised
  have carries : (start types capacity (host.streams others.toList) own).Carries
      fun item => ∀ error, item = .error error → host.Raises others error := by
    refine carries_start ?_ ?_
    · rintro items listed _ sent error rfl
      exact Host.raises_iff.mpr (List.mem_flatten.mpr ⟨items, listed, sent⟩)
    · intro _ _ _ _ same
      cases same
  obtain ⟨error, failed⟩ := (fails.moves moves).resolve_left fun waiting => by simp [ended] at waiting
  obtain rfl := Option.some.inj (ended.symm.trans failed)
  exact ⟨error, rfl, (carries.moves moves).failed error failed error rfl⟩

end Exchange

end RecordLinkage
