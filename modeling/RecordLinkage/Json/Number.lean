import RecordLinkage.Json
import RecordLinkage.Decimal.Shortest

/-! Numbers of JSON text. Integers are literals without a point or an exponent, and minus zero is
none. Doubles are written with their shortest digits and at least one place after the point,
positionally when the first digit's exponent is from -5 to 15. Reading a double keeps the leading
digits while they fit 64 bits and scales them by powers of ten in binary64 arithmetic, so the
result may be off by a last place; a number too large for binary64 is refused. -/

namespace RecordLinkage

namespace Json

def ofNat (n : Nat) : Json := .number ⟨false, Nat.toDigits 10 n, [], none⟩

def ofInt (i : Int) : Json := .number ⟨i < 0, Nat.toDigits 10 i.natAbs, [], none⟩

namespace Number

def integer? (n : Number) : Option Int :=
  if n.fraction = [] ∧ n.exponent = none then
    let value : Int := Nat.ofDigitChars 10 n.whole 0
    if n.negative then (if value = 0 then none else some (-value)) else some value
  else none

def significand : List Char → Nat → Nat → Nat × Nat
  | [], word, dropped => (word, dropped)
  | c :: rest, word, dropped =>
      let next := word * 10 + (c.toNat - '0'.toNat)
      if dropped = 0 ∧ next < 2 ^ 64 then significand rest next 0
      else significand rest word (dropped + 1)

def powerOfTen (e : Nat) : Float := OfScientific.ofScientific 1 false e

def scaleDown (value : Float) (e : Nat) : Float :=
  if e ≤ 308 then value / powerOfTen e
  else if value == 0 then value
  else scaleDown (value / powerOfTen 308) (e - 308)
termination_by e

def scale? (value : Float) : Int → Option Float
  | .ofNat e =>
      if e ≤ 308 then
        let scaled := value * powerOfTen e
        if scaled.isInf then none else some scaled
      else if value == 0 then some value
      else none
  | .negSucc e => some (scaleDown value (e + 1))

def exponentValue (n : Number) : Int :=
  match n.exponent with
  | none => 0
  | some (negative, digits) =>
      let value : Int := Nat.ofDigitChars 10 digits 0
      if negative then -value else value

/-- The double that a number is read as. Digits of the fraction are kept again when they still fit, also
behind digits of the whole part that had no room. -/
def double? (n : Number) : Option Double :=
  let (word, wholeDropped) := significand n.whole 0 0
  let (word, fractionDropped) := significand n.fraction word 0
  let exponent := n.exponentValue - n.fraction.length + wholeDropped + fractionDropped
  (scale? word.toUInt64.toFloat exponent).map fun value =>
    .ofFloat (if n.negative then -value else value)

def ofFinite (d : Double) : Number :=
  let decimal := Decimal.shortest .even d
  let digits := Nat.toDigits 10 decimal.digits
  let magnitude := decimal.magnitude
  if -5 ≤ magnitude ∧ magnitude < 16 then
    let places := decimal.places
    ⟨d.negative, places.1, if places.2 = [] then ['0'] else places.2, none⟩
  else
    ⟨d.negative, digits.take 1, digits.drop 1,
      some (magnitude < 0, Nat.toDigits 10 magnitude.natAbs)⟩

end Number

def ofDouble (d : Double) : Json := if d.isFinite then .number (.ofFinite d) else .null

def int? : Json → Option Int
  | .number n => n.integer?
  | _ => none

def double? : Json → Option Double
  | .number n => n.double?
  | _ => none

def intWithin? (low high : Int) (json : Json) : Option Int :=
  json.int?.filter fun value => low ≤ value ∧ value ≤ high

def natUpTo? (high : Nat) (json : Json) : Option Nat :=
  (json.intWithin? 0 high).map Int.toNat

def word64? : Json → Option Nat := natUpTo? (2 ^ 64 - 1)

def signed64? : Json → Option Int := intWithin? (-2 ^ 63) (2 ^ 63 - 1)

def byte? (json : Json) : Option UInt8 := (natUpTo? 255 json).map Nat.toUInt8

def bool? : Json → Option Bool
  | .bool value => some value
  | _ => none

end Json

end RecordLinkage
