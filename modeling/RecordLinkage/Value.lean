import Std.Data.ExtTreeSet
import RecordLinkage.Id
import RecordLinkage.Decimal.Shortest
import RecordLinkage.Time.Rfc3339

/-! Property values: a closed union of the kinds that records hold. Values are ordered by kind and
then by payload, doubles by their total order, so any of them can live in an ordered set. -/

namespace RecordLinkage

inductive Value where
  | text (value : String)
  | int (value : Int)
  | double (value : Double)
  | bool (value : Bool)
  | instant (value : Instant)
  | binary (value : List UInt8)
deriving DecidableEq

namespace Value

def rank : Value → Nat
  | text _ => 0
  | int _ => 1
  | double _ => 2
  | bool _ => 3
  | instant _ => 4
  | binary _ => 5

def kindName : Value → String
  | text _ => "string"
  | int _ => "int"
  | double _ => "float"
  | bool _ => "bool"
  | instant _ => "timestamp"
  | binary _ => "binary"

def order : Value → Value → Ordering
  | text a, text b => compare a b
  | int a, int b => compare a b
  | double a, double b => compare a b
  | bool a, bool b => compare a b
  | instant a, instant b => compare a b
  | binary a, binary b => compare a b
  | a, b => compare a.rank b.rank

instance : Ord Value := ⟨order⟩

theorem order_eq_rank {a b : Value} (differ : a.rank ≠ b.rank) :
    order a b = compare a.rank b.rank := by
  cases a <;> cases b <;> first | rfl | exact absurd rfl differ

theorem rank_le_of_isLE {a b : Value} (le : (order a b).isLE) : a.rank ≤ b.rank := by
  by_cases same : a.rank = b.rank
  · omega
  · rw [order_eq_rank same] at le
    exact Nat.isLE_compare.mp le

theorem order_swap (a b : Value) : order a b = (order b a).swap := by
  by_cases same : a.rank = b.rank
  · cases a <;> cases b <;> simp only [rank] at same <;> try omega
    all_goals exact Std.OrientedOrd.eq_swap
  · rw [order_eq_rank same, order_eq_rank (Ne.symm same)]
    exact Std.OrientedOrd.eq_swap

theorem order_trans {a b c : Value} (ab : (order a b).isLE) (bc : (order b c).isLE) :
    (order a c).isLE := by
  have left := rank_le_of_isLE ab
  have right := rank_le_of_isLE bc
  by_cases same : a.rank = c.rank
  · cases a <;> cases b <;> cases c <;> simp only [rank] at left right same <;> try omega
    all_goals exact Std.TransOrd.isLE_trans ab bc
  · rw [order_eq_rank same]
    exact Nat.isLE_compare.mpr (by omega)

instance : Std.TransOrd Value where
  eq_swap := order_swap _ _
  isLE_trans := order_trans

theorem eq_of_order {a b : Value} (same : order a b = .eq) : a = b := by
  cases a <;> cases b <;> simp only [order] at same <;>
    first
    | exact congrArg _ (Std.LawfulEqOrd.eq_of_compare same)
    | (simp only [rank] at same; exact absurd same (by decide))

instance : Std.LawfulEqOrd Value where
  compare_self := by
    intro a
    cases a <;> exact Std.ReflOrd.compare_self
  eq_of_compare := eq_of_order

def asText? : Value → Option String
  | text value => some value
  | _ => none

def asDouble? : Value → Option Double
  | double value => some value
  | int value => some (.ofInt value)
  | _ => none

def asBool? : Value → Option Bool
  | bool value => some value
  | _ => none

def isBlank : Value → Bool
  | text value => isBlankText value
  | binary value => value.isEmpty
  | double value => value.isNaN
  | _ => false

def searchText : Value → String
  | text value => value
  | int value => toString value
  | double value => value.text
  | bool value => if value then "true" else "false"
  | instant value => value.milliText
  | binary value => String.ofList (hexBytes value)

end Value

abbrev ValueSet := Std.ExtTreeSet Value

abbrev TextSet := Std.ExtTreeSet String

abbrev Properties := Std.ExtTreeMap Id ValueSet

namespace Properties

def hasValuesFor (properties : Properties) (types : IdSet) : Bool :=
  types.toList.any fun type =>
    (properties.getD type ∅).toList.any fun value => !value.isBlank

def fieldSearches (properties : Properties) (types : IdSet) : Std.ExtTreeMap Id TextSet :=
  types.toList.foldl
    (fun fields type =>
      let texts := ((properties.getD type ∅).toList.filter fun value => !value.isBlank).map
        Value.searchText
      if texts.isEmpty then fields else fields.insert type (Std.ExtTreeSet.ofList texts))
    ∅

end Properties

end RecordLinkage
