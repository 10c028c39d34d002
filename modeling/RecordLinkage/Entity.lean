import Std.Data.ExtTreeMap
import RecordLinkage.Id

/-! Entity keys and unordered pairs of them. A key names the entity set that a record lives in and
the record within the set. A pair always holds its smaller key first, so the two ways of naming
two records give one pair. -/

namespace RecordLinkage

structure EntityKey where
  set : Id
  key : Id
deriving DecidableEq

namespace EntityKey

instance : Ord EntityKey := ⟨compareLex (compareOn set) (compareOn key)⟩

instance : Std.TransOrd EntityKey :=
  inferInstanceAs (Std.TransCmp (compareLex (compareOn set) (compareOn key)))

instance : Std.LawfulEqOrd EntityKey where
  eq_of_compare := by
    intro a b same
    obtain ⟨sets, keys⟩ := compareLex_eq_eq.mp same
    cases a
    cases b
    simp only [compareOn, Std.LawfulEqOrd.compare_eq_iff_eq] at sets keys
    simp [sets, keys]

def text (entity : EntityKey) : String := entity.set.text ++ "/" ++ entity.key.text

def short (entity : EntityKey) : String := entity.set.short ++ "/" ++ entity.key.short

end EntityKey

abbrev EntitySet := Std.ExtTreeSet EntityKey

structure EntityPair where
  first : EntityKey
  second : EntityKey
  ordered : (compare first second).isLE
deriving DecidableEq

namespace EntityPair

def of (a b : EntityKey) : EntityPair :=
  if le : (compare a b).isLE then ⟨a, b, le⟩
  else ⟨b, a, by
    rw [Std.OrientedOrd.eq_swap]
    cases order : compare a b <;> simp_all⟩

theorem of_comm (a b : EntityKey) : of a b = of b a := by
  have swap : compare b a = (compare a b).swap := Std.OrientedCmp.eq_swap
  by_cases le : (compare a b).isLE
  · by_cases ge : (compare b a).isLE
    · have same : compare a b = .eq := by
        rw [swap] at ge
        revert le ge
        cases compare a b <;> simp
      rw [Std.LawfulEqOrd.eq_of_compare same]
    · simp [of, le, ge]
  · have ge : (compare b a).isLE := by
      rw [swap]
      revert le
      cases compare a b <;> simp
    simp [of, le, ge]

instance : Ord EntityPair := ⟨compareLex (compareOn first) (compareOn second)⟩

instance : Std.TransOrd EntityPair :=
  inferInstanceAs (Std.TransCmp (compareLex (compareOn first) (compareOn second)))

instance : Std.LawfulEqOrd EntityPair where
  eq_of_compare := by
    intro a b same
    obtain ⟨firsts, seconds⟩ := compareLex_eq_eq.mp same
    cases a
    cases b
    simp only [compareOn, Std.LawfulEqOrd.compare_eq_iff_eq] at firsts seconds
    simp [firsts, seconds]

def involves (pair : EntityPair) (entity : EntityKey) : Bool :=
  pair.first = entity || pair.second = entity

def involvesSet (pair : EntityPair) (set : Id) : Bool :=
  pair.first.set = set || pair.second.set = set

def other (pair : EntityPair) (entity : EntityKey) : Option EntityKey :=
  if pair.first = entity then some pair.second
  else if pair.second = entity then some pair.first
  else none

def text (pair : EntityPair) : String :=
  "(" ++ pair.first.text ++ ", " ++ pair.second.text ++ ")"

end EntityPair

abbrev PairSet := Std.ExtTreeSet EntityPair

abbrev Members := Std.ExtTreeMap Id IdSet

namespace Members

def add (members : Members) (entity : EntityKey) : Members :=
  members.insert entity.set ((members.getD entity.set ∅).insert entity.key)

def single (entity : EntityKey) : Members := add ∅ entity

def ofEntities (entities : List EntityKey) : Members := entities.foldl add ∅

def has (members : Members) (entity : EntityKey) : Bool :=
  (members.getD entity.set ∅).contains entity.key

def entities (members : Members) : List EntityKey :=
  members.toList.flatMap fun group => group.2.toList.map fun key => ⟨group.1, key⟩

end Members

end RecordLinkage
