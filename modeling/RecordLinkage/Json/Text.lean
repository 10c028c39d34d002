import RecordLinkage.Json
import RecordLinkage.Text.Hex

/-! Strings between their quotes. Writing escapes the quote, the backslash and the bytes below 32;
reading takes every escape back, joins the two halves of a surrogate pair, and refuses a half that
stands alone. -/

namespace RecordLinkage

namespace Json

def backslash : UInt8 := '\\'.toUInt8

def shortEscape? (byte : UInt8) : Option Char :=
  if byte = 8 then some 'b'
  else if byte = 9 then some 't'
  else if byte = 10 then some 'n'
  else if byte = 12 then some 'f'
  else if byte = 13 then some 'r'
  else if byte = '"'.toUInt8 then some '"'
  else if byte = backslash then some '\\'
  else none

def escapeByte (byte : UInt8) : List UInt8 :=
  match shortEscape? byte with
  | some letter => [backslash, letter.toUInt8]
  | none =>
      if byte < 32 then backslash :: ascii ('u' :: hexDigits 4 byte.toNat)
      else [byte]

def escape (bytes : List UInt8) : List UInt8 := bytes.flatMap escapeByte

def unescapeLetter? (letter : UInt8) : Option UInt8 :=
  if letter = 'b'.toUInt8 then some 8
  else if letter = 't'.toUInt8 then some 9
  else if letter = 'n'.toUInt8 then some 10
  else if letter = 'f'.toUInt8 then some 12
  else if letter = 'r'.toUInt8 then some 13
  else if letter = '"'.toUInt8 ∨ letter = backslash ∨ letter = '/'.toUInt8 then some letter
  else none

def codeUnit? (a b c d : UInt8) : Option Nat :=
  readHex ([a, b, c, d].map fun byte => Char.ofUInt8 byte)

def isHighSurrogate (unit : Nat) : Bool := 0xd800 ≤ unit && unit < 0xdc00

def isLowSurrogate (unit : Nat) : Bool := 0xdc00 ≤ unit && unit < 0xe000

def joinSurrogates (high low : Nat) : Nat := 0x10000 + (high - 0xd800) * 0x400 + (low - 0xdc00)

def codePoint (n : Nat) : List UInt8 := String.utf8EncodeChar (Char.ofNat n)

def unescape? : List UInt8 → Option (List UInt8)
  | [] => some []
  | byte :: rest =>
      if byte = backslash then
        match rest with
        | [] => none
        | letter :: rest =>
            if letter = 'u'.toUInt8 then
              match rest with
              | a :: b :: c :: d :: rest =>
                  match codeUnit? a b c d with
                  | none => none
                  | some unit =>
                      if isHighSurrogate unit then
                        match rest with
                        | slash :: u :: e :: f :: g :: h :: rest =>
                            match codeUnit? e f g h with
                            | none => none
                            | some low =>
                                if slash = backslash ∧ u = 'u'.toUInt8 ∧ isLowSurrogate low then
                                  (unescape? rest).map (codePoint (joinSurrogates unit low) ++ ·)
                                else none
                        | _ => none
                      else if isLowSurrogate unit then none
                      else (unescape? rest).map (codePoint unit ++ ·)
              | _ => none
            else
              (unescapeLetter? letter).bind fun byte => (unescape? rest).map (byte :: ·)
      else (unescape? rest).map (byte :: ·)

def ofText (text : String) : Json := .string (escape (utf8 text))

def readText? (written : List UInt8) : Option String := (unescape? written).bind ofUtf8?

def text? : Json → Option String
  | .string written => readText? written
  | _ => none

end Json

end RecordLinkage
