import Mathlib.Data.List.Perm.Basic
import Mathlib.Logic.Relation
import RecordLinkage.Proofs.Block.Exchange

/-! Without failures nothing is lost in an exchange: in whatever order loaders and receiver move, in the end the
receiver has every item with a value that was sent. -/

namespace RecordLinkage

theorem flatten_set_append_perm {α : Type} {lists : List (List α)} {index : Nat} {item : α} {items : List α}
    (found : lists[index]? = some (item :: items)) :
    ((lists.set index items).flatten ++ [item]).Perm lists.flatten := by
  obtain ⟨bound, head⟩ := List.getElem?_eq_some_iff.mp found
  have before := (List.getElem_cons_eraseIdx_perm bound).flatten
  have after := (List.set_perm_cons_eraseIdx bound items).flatten
  rw [head, List.flatten_cons, List.cons_append] at before
  exact ((after.append_right _).trans (List.perm_append_singleton item _)).trans before

namespace Exchange

def underWay (exchange : Exchange) : List Loaded := exchange.senders.flatten ++ exchange.channel

/-- What is sent is under way as before. -/
theorem underWay_send_perm {exchange : Exchange} {sender : Nat} {item : Loaded} {items : List Loaded}
    (found : exchange.senders[sender]? = some (item :: items)) :
    (underWay { exchange with
      senders := exchange.senders.set sender items
      channel := exchange.channel ++ [item] }).Perm exchange.underWay := by
  refine List.Perm.trans ?_ ((flatten_set_append_perm found).append_right exchange.channel)
  rw [List.append_assoc]
  exact List.perm_append_comm.append_left _

theorem underWay_eq_nil {exchange : Exchange} (drained : exchange.channel = [])
    (idle : exchange.senders.all List.isEmpty) : exchange.underWay = [] := by
  simp only [underWay, drained, List.append_nil, List.flatten_eq_nil_iff]
  simpa using idle

structure Delivers (wanted : EntityKey → Properties → Prop) (pending : List (EntityKey × Properties))
    (exchange : Exchange) : Prop where
  underWay : exchange.underWay.Perm (pending.map .ok)
  distinct : (pending.map Prod.fst).Nodup
  fresh : ∀ candidate ∈ pending, candidate.1 ∉ exchange.received
  wanted : ∀ entity properties, wanted entity properties ↔ exchange.received[entity]? = some properties ∨
    (entity, properties) ∈ pending ∧ properties.hasValuesFor exchange.types
  outcome : exchange.outcome = none ∨ pending = [] ∧ exchange.outcome = some (.ok exchange.received)
  room : 0 < exchange.capacity

variable {wanted : EntityKey → Properties → Prop} {pending : List (EntityKey × Properties)} {before after : Exchange}

theorem Delivers.send {sender : Nat} (delivers : before.Delivers wanted pending)
    (moved : before.send? sender = some after) : after.Delivers wanted pending := by
  unfold send? at moved
  split at moved
  · rename_i item items found
    have listed : item ∈ before.underWay :=
      List.mem_append_left _ (List.mem_flatten.mpr ⟨_, List.mem_of_getElem? found, .head _⟩)
    have waiting : before.outcome = none := by
      refine delivers.outcome.resolve_right fun ended => ?_
      have none := delivers.underWay
      rw [ended.1] at none
      simp [none.eq_nil] at listed
    rw [if_neg (by simp [waiting])] at moved
    split at moved
    · obtain rfl := Option.some.inj moved
      exact { delivers with underWay := (underWay_send_perm found).trans delivers.underWay, outcome := .inl waiting }
    · contradiction
  · contradiction

theorem Delivers.take {entity : EntityKey} {properties : Properties} {front back : List (EntityKey × Properties)}
    (delivers : before.Delivers wanted (front ++ (entity, properties) :: back)) (other : EntityKey)
    (known : Properties) : wanted other known ↔ (before.take entity properties)[other]? = some known ∨
      (other, known) ∈ front ++ back ∧ known.hasValuesFor before.types := by
  have absent : before.received[entity]? = none := by
    simpa using delivers.fresh (entity, properties) (by simp)
  have once : ∀ known, (entity, known) ∉ front ++ back := by
    intro known listed
    have distinct := delivers.distinct
    rw [(List.perm_middle.map Prod.fst).nodup_iff, List.map_cons, List.nodup_cons] at distinct
    exact distinct.1 (List.mem_map.mpr ⟨_, listed, rfl⟩)
  have listed : (other, known) ∈ front ++ (entity, properties) :: back ↔
      (other = entity ∧ known = properties) ∨ (other, known) ∈ front ++ back := by
    rw [List.perm_middle.mem_iff, List.mem_cons, Prod.mk.injEq]
  rw [delivers.wanted, listed, Exchange.take]
  by_cases same : other = entity
  · subst same
    simp only [absent, once, or_false, false_and]
    split
    · simp only [Std.ExtTreeMap.getElem?_insert_self]
      grind
    · simp_all
  · have apart : (before.received.insert entity properties)[other]? = before.received[other]? := by
      simp [Std.ExtTreeMap.getElem?_insert, Ne.symm same]
    simp only [same, false_and, false_or]
    split <;> simp [apart]

theorem Delivers.receive (delivers : before.Delivers wanted pending) (moved : before.receive? = some after) :
    ∃ pending, after.Delivers wanted pending := by
  unfold receive? at moved
  split at moved
  · contradiction
  · rename_i waiting
    split at moved
    · rename_i entity properties channel full
      obtain rfl := Option.some.inj moved
      have perm : before.underWay.Perm (.ok (entity, properties) :: (before.senders.flatten ++ channel)) := by
        rw [Exchange.underWay, full]
        exact List.perm_middle
      have listed : (entity, properties) ∈ pending := by
        have sent := delivers.underWay.subset (perm.symm.subset (.head _))
        simpa using sent
      obtain ⟨front, back, rfl⟩ := List.append_of_mem listed
      have rest : (before.senders.flatten ++ channel).Perm ((front ++ back).map .ok) := by
        refine (List.perm_cons (.ok (entity, properties))).mp (perm.symm.trans (delivers.underWay.trans ?_))
        exact List.perm_middle.map Except.ok
      have distinct := delivers.distinct
      rw [(List.perm_middle.map Prod.fst).nodup_iff, List.map_cons, List.nodup_cons] at distinct
      refine ⟨front ++ back, rest, distinct.2, fun candidate among => ?_, delivers.take, .inl ?_, delivers.room⟩
      · have apart : entity ≠ candidate.1 := fun same => distinct.1 (List.mem_map.mpr ⟨_, among, same.symm⟩)
        have fresh := delivers.fresh candidate (List.perm_middle.symm.subset (.tail _ among))
        rw [Exchange.take]
        split
        · simpa [Std.ExtTreeMap.mem_insert, apart] using fresh
        · exact fresh
      · simpa using waiting
    · rename_i error channel full
      have failed : .error error ∈ pending.map Except.ok :=
        delivers.underWay.subset (List.mem_append_right _ (full ▸ .head _))
      simp at failed
    · rename_i drained
      split at moved
      · rename_i idle
        obtain rfl := Option.some.inj moved
        obtain rfl : pending = [] := by
          have empty := delivers.underWay
          rw [underWay_eq_nil drained idle] at empty
          simpa using empty.symm.eq_nil
        exact ⟨[], { delivers with outcome := .inr ⟨rfl, rfl⟩ }⟩
      · contradiction

theorem Delivers.step {move : Move} (delivers : before.Delivers wanted pending)
    (moved : before.step? move = some after) : ∃ pending, after.Delivers wanted pending := by
  cases move with
  | send sender => exact ⟨pending, delivers.send moved⟩
  | receive => exact delivers.receive moved

/-- An exchange that cannot go on has ended. -/
theorem outcome_of_stuck (room : 0 < before.capacity) (stuck : before.step? before.next = none) :
    before.outcome ≠ none := by
  intro waiting
  unfold next at stuck
  split at stuck
  · rename_i received
    simp only [step?] at stuck
    rw [stuck] at received
    contradiction
  · rename_i unreceived
    simp only [receive?, waiting, Option.isSome_none, Bool.false_eq_true, if_false] at unreceived
    split at unreceived
    · simp at unreceived
    · simp at unreceived
    · rename_i drained
      have busy : ∃ items ∈ before.senders, !items.isEmpty := by
        split at unreceived
        · simp at unreceived
        · simp_all
      have bound := List.findIdx_lt_length_of_exists busy
      have filled := @List.findIdx_getElem _ (fun items => !items.isEmpty) before.senders bound
      obtain ⟨item, items, same⟩ : ∃ item items, _ = item :: items :=
        List.exists_cons_of_ne_nil (by simpa using filled)
      have found := (List.getElem?_eq_getElem bound).trans (congrArg some same)
      simp [step?, send?, found, waiting, drained, room] at stuck

theorem Delivers.ended (delivers : before.Delivers wanted pending) (stuck : before.step? before.next = none) :
    pending = [] ∧ before.outcome = some (.ok before.received) :=
  delivers.outcome.resolve_left (outcome_of_stuck delivers.room stuck)

abbrev Moves : Exchange → Exchange → Prop :=
  Relation.ReflTransGen fun before after => ∃ move, before.step? move = some after

theorem moves_finish (exchange : Exchange) :
    exchange.Moves exchange.finish ∧ exchange.finish.step? exchange.finish.next = none := by
  induction exchange using Exchange.finish.induct with
  | case1 exchange moved same ih =>
      rw [Exchange.finish, same]
      exact ⟨.head ⟨_, same⟩ ih.1, ih.2⟩
  | case2 exchange stuck =>
      rw [Exchange.finish, stuck]
      exact ⟨.refl, stuck⟩

theorem Delivers.moves (delivers : before.Delivers wanted pending) (moves : before.Moves after) :
    ∃ pending, after.Delivers wanted pending := by
  induction moves with
  | refl => exact ⟨pending, delivers⟩
  | tail _ moved ih =>
      obtain ⟨_, delivers⟩ := ih
      obtain ⟨_, moved⟩ := moved
      exact delivers.step moved

/-- Whatever the order of the moves, an exchange without failures ends with what was there at the start and
what was sent. -/
theorem result_of_moves {types : IdSet} {capacity : Nat} {senders : List (List Loaded)} {received : Candidates}
    (sent : senders.flatten = pending.map .ok) (distinct : (pending.map Prod.fst).Nodup)
    (fresh : ∀ candidate ∈ pending, candidate.1 ∉ received)
    (moves : (start types capacity senders received).Moves after) (stuck : after.step? after.next = none) :
    ∃ candidates, after.result = .ok candidates ∧ ∀ entity properties, candidates[entity]? = some properties ↔
      received[entity]? = some properties ∨
        (entity, properties) ∈ pending ∧ properties.hasValuesFor types := by
  have delivers : (start types capacity senders received).Delivers (fun entity properties =>
      received[entity]? = some properties ∨ (entity, properties) ∈ pending ∧ properties.hasValuesFor types)
      pending :=
    ⟨by simp [underWay, start, sent], distinct, fresh, fun _ _ => .rfl, .inl rfl, Nat.le_max_right _ _⟩
  obtain ⟨_, delivered⟩ := delivers.moves moves
  obtain ⟨rfl, ended⟩ := delivered.ended stuck
  refine ⟨after.received, by rw [result, ended]; rfl, fun entity properties => ?_⟩
  rw [delivered.wanted]
  simp

end Exchange

end RecordLinkage
