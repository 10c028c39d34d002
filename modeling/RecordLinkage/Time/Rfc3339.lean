import RecordLinkage.Time
import RecordLinkage.Text.Blank

/-! RFC 3339 text of instants. Writing uses universal time, the fewest of 0, 3, 6 or 9 fraction
digits that are exact, and a sign on years outside 0 to 9999. Reading is lenient: a space may stand
for the `T`, blanks may surround the fields, single digits are enough, a fraction is cut after nine
digits, and the offset may be written without its colon. -/

namespace RecordLinkage

def padded (width value : Nat) : List Char :=
  let digits := Nat.toDigits 10 value
  List.replicate (width - digits.length) '0' ++ digits

namespace Date

def yearText (year : Int) : List Char :=
  if 0 ≤ year ∧ year ≤ 9999 then padded 4 year.toNat
  else (if year < 0 then '-' else '+') :: padded 4 year.natAbs

def chars (date : Date) : List Char :=
  yearText date.year ++ '-' :: padded 2 date.month ++ '-' :: padded 2 date.day

end Date

namespace Instant

def clockChars (instant : Instant) : List Char :=
  let second := instant.second % 60 + (if instant.nano < 10 ^ 9 then 0 else 1)
  padded 2 (instant.second / 3600) ++ ':' :: padded 2 (instant.second / 60 % 60) ++
    ':' :: padded 2 second

def fraction (instant : Instant) : Nat := instant.nano % 10 ^ 9

def fractionChars (instant : Instant) : List Char :=
  let nano := instant.fraction
  if nano = 0 then []
  else if nano % 10 ^ 6 = 0 then '.' :: padded 3 (nano / 10 ^ 6)
  else if nano % 10 ^ 3 = 0 then '.' :: padded 6 (nano / 10 ^ 3)
  else '.' :: padded 9 nano

def chars (instant : Instant) : List Char :=
  instant.date.chars ++ 'T' :: instant.clockChars ++ instant.fractionChars ++ ['Z']

def text (instant : Instant) : String := String.ofList instant.chars

def milliText (instant : Instant) : String :=
  String.ofList (instant.date.chars ++ 'T' :: instant.clockChars ++
    '.' :: padded 3 (instant.fraction / 10 ^ 6) ++ ['Z'])

def skipBlank (text : List Char) : List Char := text.dropWhile isBlankChar

def readNumber? (width : Nat) (text : List Char) : Option (Nat × List Char) :=
  let text := skipBlank text
  let digits := (text.take width).takeWhile Char.isDigit
  if digits.isEmpty then none
  else some (Nat.ofDigitChars 10 digits 0, text.drop digits.length)

def readYear? (text : List Char) : Option (Int × List Char) :=
  let signed (sign : Int) (rest : List Char) : Option (Int × List Char) :=
    match rest with
    | c :: _ =>
        if c.isDigit then (readNumber? rest.length rest).map fun (n, rest) => (sign * n, rest)
        else none
    | [] => none
  match skipBlank text with
  | '-' :: rest => signed (-1) rest
  | '+' :: rest => signed 1 rest
  | rest => (readNumber? 4 rest).map fun (n, rest) => (n, rest)

def readMark? (mark : Char) (text : List Char) : Option (List Char) :=
  match skipBlank text with
  | c :: rest => if c = mark then some rest else none
  | [] => none

def readFraction? (text : List Char) : Option (Nat × List Char) :=
  match text with
  | '.' :: rest =>
      let digits := (rest.take 9).takeWhile Char.isDigit
      if digits.isEmpty then none
      else some (Nat.ofDigitChars 10 digits 0 * 10 ^ (9 - digits.length),
        rest.dropWhile Char.isDigit)
  | _ => some (0, text)

def readTwoDigits? (text : List Char) : Option (Nat × List Char) :=
  match text with
  | a :: b :: rest =>
      if a.isDigit && b.isDigit then some (Nat.ofDigitChars 10 [a, b] 0, rest) else none
  | _ => none

def readOffset? (text : List Char) : Option (Int × List Char) :=
  let timed (sign : Int) (rest : List Char) : Option (Int × List Char) := do
    let (hours, rest) ← readTwoDigits? rest
    let (minutes, rest) ← readTwoDigits? (rest.dropWhile fun c => c = ':' || isBlankChar c)
    if minutes < 60 then some (sign * (hours * 3600 + minutes * 60), rest) else none
  if (text.take 3).map Char.toLower = ['u', 't', 'c'] then some (0, text.drop 3)
  else match text with
    | c :: rest =>
        if c = 'Z' ∨ c = 'z' then some (0, rest)
        else if c = '+' then timed 1 rest
        else if c = '-' ∨ c = '\u2212' then timed (-1) rest
        else none
    | [] => none

def clockFields? (hour minute second nano : Nat) : Option (Nat × Nat) :=
  if hour < 24 ∧ minute < 60 ∧ second ≤ 60 then
    if second = 60 then some (hour * 3600 + minute * 60 + 59, nano + 10 ^ 9)
    else some (hour * 3600 + minute * 60 + second, nano)
  else none

def ofChars? (text : List Char) : Option Instant := do
  let (year, rest) ← readYear? text
  let rest ← readMark? '-' rest
  let (month, rest) ← readNumber? 2 rest
  let rest ← readMark? '-' rest
  let (day, rest) ← readNumber? 2 rest
  let rest ← match rest with
    | c :: rest => if c = 'T' ∨ c = 't' ∨ c = ' ' then some rest else none
    | [] => none
  let (hour, rest) ← readNumber? 2 rest
  let rest ← readMark? ':' rest
  let (minute, rest) ← readNumber? 2 rest
  let rest ← readMark? ':' rest
  let (second, rest) ← readNumber? 2 rest
  let (nano, rest) ← readFraction? rest
  let (offset, rest) ← readOffset? (skipBlank rest)
  if skipBlank rest ≠ [] ∨ offset.natAbs ≥ 86400 then none
  else do
    let date ← Date.of? year month day
    let (second, nano) ← clockFields? hour minute second nano
    ofLocal? date second nano offset

def read? (text : String) : Option Instant := ofChars? text.toList

end Instant

end RecordLinkage
