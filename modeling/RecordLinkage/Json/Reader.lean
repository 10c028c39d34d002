import RecordLinkage.Json
import RecordLinkage.Json.Text

/-! Reading JSON text into its tree. Between tokens the blank, the tab and the two line ends are
skipped; the text must end after one value. -/

namespace RecordLinkage

namespace Json

def isSpace (byte : UInt8) : Bool := byte = 32 || byte = 10 || byte = 13 || byte = 9

def skipSpace (text : List UInt8) : List UInt8 := text.dropWhile isSpace

def isDigitByte (byte : UInt8) : Bool := '0'.toUInt8 ≤ byte && byte ≤ '9'.toUInt8

def takeDigits (text : List UInt8) : List Char × List UInt8 :=
  ((text.takeWhile isDigitByte).map Char.ofUInt8, text.dropWhile isDigitByte)

def takeFraction? : List UInt8 → Option (List Char × List UInt8)
  | [] => some ([], [])
  | byte :: rest =>
      if byte = '.'.toUInt8 then
        let (digits, rest) := takeDigits rest
        if digits = [] then none else some (digits, rest)
      else some ([], byte :: rest)

def takeSign : List UInt8 → Bool × List UInt8
  | [] => (false, [])
  | byte :: rest =>
      if byte = '-'.toUInt8 then (true, rest)
      else if byte = '+'.toUInt8 then (false, rest)
      else (false, byte :: rest)

def takeExponent? : List UInt8 → Option (Option (Bool × List Char) × List UInt8)
  | [] => some (none, [])
  | byte :: rest =>
      if byte = 'e'.toUInt8 ∨ byte = 'E'.toUInt8 then
        let (negative, rest) := takeSign rest
        let (digits, rest) := takeDigits rest
        if digits = [] then none else some (some (negative, digits), rest)
      else some (none, byte :: rest)

def takeWhole? (text : List UInt8) : Option (List Char × List UInt8) :=
  match takeDigits text with
  | ([], _) => none
  | ('0' :: _ :: _, _) => none
  | taken => some taken

def takeNumber? (text : List UInt8) : Option (Number × List UInt8) := do
  let (negative, rest) := match text with
    | byte :: rest => if byte = '-'.toUInt8 then (true, rest) else (false, text)
    | [] => (false, text)
  let (whole, rest) ← takeWhole? rest
  let (fraction, rest) ← takeFraction? rest
  let (exponent, rest) ← takeExponent? rest
  return (⟨negative, whole, fraction, exponent⟩, rest)

/-- The text up to the closing quote and the text after it. Escapes must be complete, and no byte
below 32 may stand for itself. -/
def takeString? : List UInt8 → Option (List UInt8 × List UInt8)
  | [] => none
  | byte :: rest =>
      if byte = '"'.toUInt8 then some ([], rest)
      else if byte = backslash then
        match rest with
        | [] => none
        | letter :: rest =>
            if letter = 'u'.toUInt8 then
              match rest with
              | a :: b :: c :: d :: rest =>
                  if (codeUnit? a b c d).isSome then
                    (takeString? rest).map fun taken =>
                      (byte :: letter :: a :: b :: c :: d :: taken.1, taken.2)
                  else none
              | _ => none
            else if (unescapeLetter? letter).isSome then
              (takeString? rest).map fun taken => (byte :: letter :: taken.1, taken.2)
            else none
      else if byte < 32 then none
      else (takeString? rest).map fun taken => (byte :: taken.1, taken.2)

def afterWord? (word : List Char) (text : List UInt8) : Option (List UInt8) :=
  if text.take word.length = ascii word then some (text.drop word.length) else none

def afterByte? (mark : Char) (text : List UInt8) : Option (List UInt8) :=
  match skipSpace text with
  | byte :: rest => if byte = mark.toUInt8 then some rest else none
  | [] => none

mutual

/-- One value from the front of the text. The fuel bounds the depth and the count of the values. -/
def takeValue? : Nat → List UInt8 → Option (Json × List UInt8)
  | 0, _ => none
  | fuel + 1, text =>
      match skipSpace text with
      | [] => none
      | byte :: rest =>
          if byte = 'n'.toUInt8 then
            (afterWord? ['u', 'l', 'l'] rest).map fun rest => (.null, rest)
          else if byte = 't'.toUInt8 then
            (afterWord? ['r', 'u', 'e'] rest).map fun rest => (.bool true, rest)
          else if byte = 'f'.toUInt8 then
            (afterWord? ['a', 'l', 's', 'e'] rest).map fun rest => (.bool false, rest)
          else if byte = '"'.toUInt8 then
            (takeString? rest).map fun taken => (.string taken.1, taken.2)
          else if byte = '['.toUInt8 then
            match afterByte? ']' rest with
            | some rest => some (.array [], rest)
            | none => (takeItems? fuel rest).map fun taken => (.array taken.1, taken.2)
          else if byte = '{'.toUInt8 then
            match afterByte? '}' rest with
            | some rest => some (.object [], rest)
            | none => (takeMembers? fuel rest).map fun taken => (.object taken.1, taken.2)
          else (takeNumber? (byte :: rest)).map fun taken => (.number taken.1, taken.2)

def takeItems? : Nat → List UInt8 → Option (List Json × List UInt8)
  | 0, _ => none
  | fuel + 1, text =>
      match takeValue? fuel text with
      | none => none
      | some (item, rest) =>
          match afterByte? ',' rest with
          | some rest => (takeItems? fuel rest).map fun taken => (item :: taken.1, taken.2)
          | none => (afterByte? ']' rest).map fun rest => ([item], rest)

def takeMembers? : Nat → List UInt8 → Option (List (List UInt8 × Json) × List UInt8)
  | 0, _ => none
  | fuel + 1, text =>
      match (afterByte? '"' text).bind takeString? with
      | none => none
      | some (name, rest) =>
          match (afterByte? ':' rest).bind (takeValue? fuel) with
          | none => none
          | some (value, rest) =>
              match afterByte? ',' rest with
              | some rest =>
                  (takeMembers? fuel rest).map fun taken => ((name, value) :: taken.1, taken.2)
              | none => (afterByte? '}' rest).map fun rest => ([(name, value)], rest)

end

def read? (text : List UInt8) : Option Json :=
  match takeValue? (text.length + 1) text with
  | some (json, rest) => if skipSpace rest = [] then some json else none
  | none => none

end Json

end RecordLinkage
