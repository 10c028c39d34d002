import RecordLinkage.Block.Exchange

/-! Items pass through an exchange as they are: what it has received is what was sent or what it started
with, and a failure that it ends with is one that was sent. -/

namespace RecordLinkage

namespace Exchange

structure Carries (given : Loaded → Prop) (exchange : Exchange) : Prop where
  senders : ∀ items ∈ exchange.senders, ∀ item ∈ items, given item
  channel : ∀ item ∈ exchange.channel, given item
  received : ∀ entity properties, exchange.received[entity]? = some properties →
    given (.ok (entity, properties))
  failed : ∀ error, exchange.outcome = some (.error error) → given (.error error)
  ended : ∀ candidates, exchange.outcome = some (.ok candidates) → candidates = exchange.received

variable {given : Loaded → Prop} {before after : Exchange}

theorem Carries.send {sender : Nat} (carries : before.Carries given)
    (moved : before.send? sender = some after) : after.Carries given := by
  unfold send? at moved
  split at moved
  · rename_i item items found
    have own := carries.senders _ (List.mem_of_getElem? found)
    split at moved
    · simp only [Option.some.injEq] at moved
      subst moved
      refine { carries with senders := ?_ }
      intro others listed
      rcases List.mem_or_eq_of_mem_set listed with old | rfl
      · exact carries.senders others old
      · simp
    · split at moved
      · simp only [Option.some.injEq] at moved
        subst moved
        refine { carries with senders := ?_, channel := ?_ }
        · intro others listed
          rcases List.mem_or_eq_of_mem_set listed with old | rfl
          · exact carries.senders others old
          · exact fun item waiting => own item (.tail _ waiting)
        · intro other listed
          rcases List.mem_append.mp listed with old | new
          · exact carries.channel other old
          · exact List.mem_singleton.mp new ▸ own item (.head _)
      · contradiction
  · contradiction

theorem Carries.receive (carries : before.Carries given) (moved : before.receive? = some after) :
    after.Carries given := by
  unfold receive? at moved
  split at moved
  · contradiction
  · rename_i waiting
    simp only [Option.isSome_iff_ne_none, ne_eq, Classical.not_not] at waiting
    split at moved
    · rename_i entity properties channel full
      simp only [Option.some.injEq] at moved
      subst moved
      refine ⟨carries.senders, fun item listed => carries.channel item (full ▸ .tail _ listed), ?_,
        by simp [waiting], by simp [waiting]⟩
      intro other known found
      simp only [take] at found
      split at found
      · simp only [Std.ExtTreeMap.getElem?_insert, Std.LawfulEqOrd.compare_eq_iff_eq] at found
        split at found
        · rename_i same
          simp only [Option.some.injEq] at found
          exact carries.channel _ (full ▸ same ▸ found ▸ .head _)
        · exact carries.received other known found
      · exact carries.received other known found
    · rename_i failure channel full
      simp only [Option.some.injEq] at moved
      subst moved
      refine ⟨carries.senders, fun item listed => carries.channel item (full ▸ .tail _ listed),
        carries.received, ?_, by simp⟩
      intro error same
      simp only [Option.some.injEq, Except.error.injEq] at same
      exact carries.channel _ (full ▸ same ▸ .head _)
    · split at moved
      · simp only [Option.some.injEq] at moved
        subst moved
        refine { carries with failed := by simp, ended := ?_ }
        intro candidates same
        simpa using same.symm
      · contradiction

theorem Carries.finish (carries : before.Carries given) : before.finish.Carries given := by
  induction before using Exchange.finish.induct with
  | case1 before moved same ih =>
      rw [Exchange.finish, same]
      apply ih
      cases move : before.next with
      | send sender => exact carries.send (by rwa [move] at same)
      | receive => exact carries.receive (by rwa [move] at same)
  | case2 before none =>
      rw [Exchange.finish, none]
      exact carries

theorem Carries.result (carries : before.Carries given) :
    match before.result with
    | .ok candidates => ∀ (entity : EntityKey) properties, candidates[entity]? = some properties →
        given (.ok (entity, properties))
    | .error error => given (.error error) := by
  unfold Exchange.result
  cases ends : before.outcome with
  | none => exact carries.received
  | some result =>
      cases result with
      | ok candidates =>
          obtain rfl := carries.ended candidates ends
          exact carries.received
      | error error => exact carries.failed error ends

theorem carries_start {types : IdSet} {capacity : Nat} {senders : List (List Loaded)}
    {received : Candidates} (sent : ∀ items ∈ senders, ∀ item ∈ items, given item)
    (own : ∀ (entity : EntityKey) properties, received[entity]? = some properties →
      given (.ok (entity, properties))) :
    (start types capacity senders received).Carries given :=
  ⟨sent, by simp [start], own, by simp [start], by simp [start]⟩

end Exchange

end RecordLinkage
