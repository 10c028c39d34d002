import RecordLinkage.Double

/-! Decimal text read as the nearest binary64 number: a sign, digits with at most one point among
or around them, an exponent, or the names of infinity and of what is not a number in any case. -/

namespace RecordLinkage

namespace Decimal

def nearest (digits : Nat) (exponent : Int) : Double :=
  if digits = 0 then .zero
  else if exponent + (Nat.toDigits 10 digits).length > 400 then .infinity
  else if exponent + (Nat.toDigits 10 digits).length < -400 then .zero
  else match exponent with
    | .ofNat e => .ofFloat (OfScientific.ofScientific digits false e)
    | .negSucc e => .ofFloat (OfScientific.ofScientific digits true (e + 1))

def readDigits (text : List Char) : List Char × List Char :=
  (text.takeWhile Char.isDigit, text.dropWhile Char.isDigit)

def readExponent? : List Char → Option Int
  | [] => some 0
  | e :: rest =>
      if e = 'e' ∨ e = 'E' then
        let (negative, digits) := match rest with
          | '-' :: digits => (true, digits)
          | '+' :: digits => (false, digits)
          | digits => (false, digits)
        if digits.isEmpty || !digits.all Char.isDigit then none
        else
          let value : Int := Nat.ofDigitChars 10 digits 0
          some (if negative then -value else value)
      else none

def readUnsigned? (text : List Char) : Option Double :=
  let named := text.map Char.toLower
  if named = "nan".toList then some .nan
  else if named = "inf".toList ∨ named = "infinity".toList then some .infinity
  else
    let (whole, rest) := readDigits text
    let (fraction, rest) := match rest with
      | '.' :: rest => readDigits rest
      | rest => ([], rest)
    if whole.isEmpty && fraction.isEmpty then none
    else (readExponent? rest).map fun exponent =>
      nearest (Nat.ofDigitChars 10 (whole ++ fraction) 0) (exponent - fraction.length)

def read? (text : String) : Option Double :=
  match text.toList with
  | '-' :: rest => (readUnsigned? rest).map Double.negate
  | '+' :: rest => readUnsigned? rest
  | rest => readUnsigned? rest

end Decimal

end RecordLinkage
