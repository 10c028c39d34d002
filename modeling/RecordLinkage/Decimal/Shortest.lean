import RecordLinkage.Double

/-! The shortest decimal of a binary64 number. A finite number is a mantissa times a power of two,
and the reals that round to it form an interval around it. `shortest` takes the coarsest grid of
multiples of a power of ten that has a point in the interval, and of its points the nearest. -/

namespace RecordLinkage

structure Decimal where
  digits : Nat
  exponent : Int
deriving DecidableEq

inductive Tie where
  | up
  | even
deriving DecidableEq

/-- The positive number `mantissa * 2 ^ scale` with the reals that round to it: those between
`lowest / 4` and `highest / 4` times `2 ^ scale`, ends included when `closed`. -/
structure Rounding where
  mantissa : Nat
  scale : Int
  lowest : Nat
  highest : Nat
  closed : Bool
deriving DecidableEq

namespace Double

/-- The interval is half as wide below the least mantissa of a binade. -/
def rounding (d : Double) : Rounding :=
  let fraction := d.fractionField
  let exponent := d.exponentField
  let mantissa := if exponent = 0 then fraction else fraction + 2 ^ 52
  let scale := (max exponent 1 : Int) - 1075
  let narrow := fraction = 0 ∧ 1 < exponent
  { mantissa, scale
    lowest := if narrow then 4 * mantissa - 1 else 4 * mantissa - 2
    highest := 4 * mantissa + 2
    closed := mantissa % 2 = 0 }

end Double

namespace Rounding

def unit (r : Rounding) (exponent : Int) : Nat × Nat :=
  (2 ^ (r.scale - 2).toNat * 10 ^ (-exponent).toNat, 2 ^ (2 - r.scale).toNat * 10 ^ exponent.toNat)

def holds (r : Rounding) (unit : Nat × Nat) (point : Nat) : Bool :=
  let place := point * unit.2
  if r.closed then r.lowest * unit.1 ≤ place && place ≤ r.highest * unit.1
  else r.lowest * unit.1 < place && place < r.highest * unit.1

def point? (r : Rounding) (tie : Tie) (exponent : Int) : Option Nat :=
  let unit := r.unit exponent
  let value := 4 * r.mantissa * unit.1
  let below := value / unit.2
  let above := below + 1
  match r.holds unit below, r.holds unit above with
  | true, true =>
      let remainder := 2 * (value % unit.2)
      if remainder < unit.2 then some below
      else if unit.2 < remainder then some above
      else match tie with
        | .up => some above
        | .even => if below % 2 = 0 then some below else some above
  | true, false => some below
  | false, true => some above
  | false, false => none

def search (r : Rounding) (tie : Tie) : Nat → Int → Decimal
  | 0, exponent => ⟨0, exponent⟩
  | fuel + 1, exponent =>
      match r.point? tie exponent with
      | some digits => ⟨digits, exponent⟩
      | none => r.search tie fuel (exponent - 1)

/-- An exponent of ten above the number: `log10 2` is less than 0.30103. -/
def ceiling (r : Rounding) : Int := ((r.mantissa.log2 + 1 + r.scale) * 30103) / 100000 + 1

end Rounding

namespace Decimal

def shortest (tie : Tie) (d : Double) : Decimal :=
  if d.magnitude = 0 then ⟨0, 0⟩
  else
    let r := d.rounding
    r.search tie 24 r.ceiling

def places (decimal : Decimal) : List Char × List Char :=
  let digits := Nat.toDigits 10 decimal.digits
  match decimal.exponent with
  | .ofNat zeros => (digits ++ List.replicate zeros '0', [])
  | .negSucc k =>
      let fraction := k + 1
      if fraction < digits.length then
        (digits.take (digits.length - fraction), digits.drop (digits.length - fraction))
      else (['0'], List.replicate (fraction - digits.length) '0' ++ digits)

def magnitude (decimal : Decimal) : Int :=
  decimal.exponent + (Nat.toDigits 10 decimal.digits).length - 1

end Decimal

namespace Double

/-- Positional text without an exponent: the shortest digits, a tie going up, and a point only
before a fraction. -/
def text (d : Double) : String :=
  if d.isNaN then "NaN"
  else
    let sign := if d.negative then "-" else ""
    if d.isInfinite then sign ++ "inf"
    else
      let places := (Decimal.shortest .up d).places
      let point := if places.2 = [] then "" else "."
      sign ++ String.ofList places.1 ++ point ++ String.ofList places.2

end Double

end RecordLinkage
