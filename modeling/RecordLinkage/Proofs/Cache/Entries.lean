import RecordLinkage.Proofs.Program.Answers

/-! The entries of a cache: what each call does to them, and how a cache that holds only what is right stays
so although entries vanish. -/

namespace RecordLinkage

def CacheCall.Puts {κ ν : Type} (right : κ → ν → Prop) : CacheCall κ ν → Prop
  | .land key value _ => right key value
  | .insert key value => right key value
  | _ => True

namespace Cache

variable {κ ν : Type} [Ord κ] [Std.TransOrd κ]

structure Thins (cache after : Cache κ ν) : Prop where
  lifetime : after.lifetime = cache.lifetime
  writes : after.writes = cache.writes
  entries : ∀ (key : κ) (value : ν), after.entries[key]? = some value → cache.entries[key]? = some value

theorem thins_evict (cache : Cache κ ν) (lost : List κ) : cache.Thins (lost.foldl evict cache) := by
  induction lost generalizing cache with
  | nil => exact ⟨rfl, rfl, fun _ _ => id⟩
  | cons key lost ih =>
      have rest := ih (cache.evict key)
      refine ⟨rest.lifetime, rest.writes, ?_⟩
      intro other value found
      have kept := rest.entries other value found
      simp only [evict, Std.ExtTreeMap.getElem?_erase] at kept
      split at kept
      · contradiction
      · exact kept

theorem lifetime_put (cache : Cache κ ν) (key : κ) (value : ν) :
    (cache.put key value).lifetime = cache.lifetime := by
  unfold put
  split <;> rfl

theorem writes_put (cache : Cache κ ν) (key : κ) (value : ν) :
    (cache.put key value).writes = cache.writes := by
  unfold put
  split <;> rfl

theorem writes_land (cache : Cache κ ν) (key : κ) (value : ν) (seen : Nat) :
    (cache.land key value seen).writes = cache.writes := by
  unfold land
  split
  · exact cache.writes_put key value
  · rfl

theorem getElem?_put [Std.LawfulEqOrd κ] [DecidableEq κ] {cache : Cache κ ν} {key other : κ}
    {value : ν} : (cache.put key value).entries[other]? =
      if cache.lifetime ≠ 0 ∧ key = other then some value else cache.entries[other]? := by
  unfold put
  split
  · rename_i none
    simp [none]
  · rename_i lasting
    simp [Std.ExtTreeMap.getElem?_insert, lasting]

theorem getElem?_invalidate [Std.LawfulEqOrd κ] [DecidableEq κ] {cache : Cache κ ν} {key other : κ} :
    (cache.invalidate key).entries[other]? = if key = other then none else cache.entries[other]? := by
  simp only [invalidate, evict, Std.ExtTreeMap.getElem?_erase, Std.LawfulEqOrd.compare_eq_iff_eq]

structure Faithful (right : κ → ν → Prop) (cache : Cache κ ν) : Prop where
  lasting : cache.lifetime = 0 → ∀ key : κ, cache.entries[key]? = none
  right : ∀ (key : κ) (value : ν), cache.entries[key]? = some value → right key value

section Faithful

variable {right : κ → ν → Prop} {cache after : Cache κ ν} {key : κ} {value : ν}

theorem faithful_of_empty (empty : cache.entries = ∅) : cache.Faithful right where
  lasting := by simp [empty]
  right := by simp [empty]

theorem Faithful.weaken {weaker : κ → ν → Prop} (faithful : cache.Faithful right)
    (weaken : ∀ key value, right key value → weaker key value) : cache.Faithful weaker where
  lasting := faithful.lasting
  right key value found := weaken key value (faithful.right key value found)

theorem Faithful.thinned (faithful : cache.Faithful right) (thins : cache.Thins after) :
    after.Faithful right where
  lasting := by
    intro brief key
    refine Option.eq_none_iff_forall_ne_some.mpr fun value found => ?_
    have known := thins.entries key value found
    rw [faithful.lasting (thins.lifetime ▸ brief) key] at known
    cases known
  right key value found := faithful.right key value (thins.entries key value found)

theorem Faithful.put [Std.LawfulEqOrd κ] [DecidableEq κ] (faithful : cache.Faithful right)
    (holds : right key value) : (cache.put key value).Faithful right where
  lasting := by
    intro brief other
    rw [lifetime_put] at brief
    rw [getElem?_put, if_neg fun lasting => lasting.1 brief]
    exact faithful.lasting brief other
  right := by
    intro other known found
    rw [getElem?_put] at found
    split at found
    · rename_i same
      obtain rfl := Option.some.inj found
      exact same.2 ▸ holds
    · exact faithful.right other known found

/-- A cache stays faithful if only what is right is put in it. -/
theorem Faithful.answers [Std.LawfulEqOrd κ] [DecidableEq κ] {call : CacheCall κ ν} {answer : call.Answer}
    (faithful : cache.Faithful right) (puts : call.Puts right) (answers : cache.Answers call answer after) :
    after.Faithful right := by
  obtain ⟨lost, answered⟩ := answers
  have left := faithful.thinned (cache.thins_evict lost)
  obtain rfl : _ = after := congrArg Prod.snd answered
  cases call with
  | find | countWrites => exact left
  | land key value seen =>
      change Faithful right (Cache.land _ key value seen)
      unfold Cache.land
      split
      · exact left.put puts
      · exact left
  | insert key value => exact ⟨(left.put puts).lasting, (left.put puts).right⟩
  | invalidate key =>
      have gone := left.thinned (thins_evict _ [key])
      exact ⟨gone.lasting, gone.right⟩
  | clear => exact faithful_of_empty rfl

theorem Faithful.found {after : Cache κ ν} (faithful : cache.Faithful right)
    (answers : cache.Answers (.find key) (some value) after) : right key value := by
  obtain ⟨lost, answered⟩ := answers
  have found : (lost.foldl evict cache).find? key = some value := congrArg Prod.fst answered
  exact faithful.right key value ((cache.thins_evict lost).entries key value found)

end Faithful

end Cache

end RecordLinkage
