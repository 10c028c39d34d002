import Std.Data.ExtTreeMap
import RecordLinkage.Power

/-! Binary64 numbers as their 64-bit patterns. Every pattern is a number of its own here, also the
many that are not a number, so `orderKey` puts all of them into one total order, while `lt` and
`le` compare numerically: the two zeros are equal and a pattern that is not a number compares
false with everything. -/

namespace RecordLinkage

structure Double where
  bits : UInt64
deriving DecidableEq

namespace Double

def ofFloat (value : Float) : Double := ⟨value.toBits⟩

def toFloat (d : Double) : Float := Float.ofBits d.bits

def ofNat (n : Nat) : Double := ofFloat (Float.ofNat n)

def ofInt (i : Int) : Double := ofFloat (Float.ofInt i)

def zero : Double := ⟨0⟩

def one : Double := ⟨0x3ff0000000000000⟩

def infinity : Double := ⟨0x7ff0000000000000⟩

def nan : Double := ⟨0x7ff8000000000000⟩

def invalid : Double := ⟨0xfff8000000000000⟩

def negative (d : Double) : Bool := 0x8000000000000000 ≤ d.bits

def magnitude (d : Double) : Nat := d.bits.toNat % 2 ^ 63

def exponentField (d : Double) : Nat := d.magnitude / 2 ^ 52

def fractionField (d : Double) : Nat := d.magnitude % 2 ^ 52

def isNaN (d : Double) : Bool := 0x7ff0000000000000 < d.magnitude

def isInfinite (d : Double) : Bool := d.magnitude = 0x7ff0000000000000

def isFinite (d : Double) : Bool := d.magnitude < 0x7ff0000000000000

def negate (d : Double) : Double := ⟨d.bits ^^^ 0x8000000000000000⟩

/-- Patterns with the sign set come first, the largest magnitude first among them. -/
def orderKey (d : Double) : Int :=
  if d.negative then -(d.magnitude : Int) - 1 else d.magnitude

instance : Ord Double := ⟨compareOn orderKey⟩

instance : Std.TransOrd Double := inferInstanceAs (Std.TransCmp (compareOn orderKey))

theorem orderKey_inj {a b : Double} : a.orderKey = b.orderKey ↔ a = b := by
  constructor
  · intro same
    cases a with
    | mk a =>
    cases b with
    | mk b =>
    have left := a.toNat_lt
    have right := b.toNat_lt
    have whole : a.toNat = b.toNat := by
      simp only [orderKey, negative, magnitude, decide_eq_true_eq, UInt64.le_iff_toNat_le,
        UInt64.reduceToNat] at same
      split at same <;> split at same <;> omega
    rw [UInt64.toNat_inj.mp whole]
  · intro same
    rw [same]

instance : Std.LawfulEqOrd Double where
  eq_of_compare := by
    intro a b same
    exact orderKey_inj.mp (Std.LawfulEqOrd.eq_of_compare (α := Int) same)

def lineKey (d : Double) : Int :=
  if d.negative then -(d.magnitude : Int) else d.magnitude

def lt (a b : Double) : Bool := !a.isNaN && !b.isNaN && a.lineKey < b.lineKey

def le (a b : Double) : Bool := !a.isNaN && !b.isNaN && a.lineKey ≤ b.lineKey

def inUnit (d : Double) : Bool := zero.le d && d.le one

def quiet (d : Double) : Double := ⟨d.bits ||| 0x0008000000000000⟩

/-- An operand that is not a number is the answer, the right one before the left one; otherwise the
operation rounds to the nearest number. -/
def arithmetic (operation : Float → Float → Float) (a b : Double) : Double :=
  if b.isNaN then b.quiet
  else if a.isNaN then a.quiet
  else
    let answer := ofFloat (operation a.toFloat b.toFloat)
    if answer.isNaN then invalid else answer

def add : Double → Double → Double := arithmetic (· + ·)

def div : Double → Double → Double := arithmetic (· / ·)

end Double

end RecordLinkage
