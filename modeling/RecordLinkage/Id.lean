import Std.Data.ExtTreeSet
import RecordLinkage.Text.Hex

/-! Identifiers of entity sets, entities, property types and clusters: 128-bit words, ordered by
their value. The written form has 32 lowercase digits in groups of 8, 4, 4, 4 and 12; reading
also takes the bare digits, braces around the grouped form and the `urn:uuid:` form, letters in
either case. -/

namespace RecordLinkage

structure Id where
  word : BitVec 128
deriving DecidableEq

namespace Id

def toNat (id : Id) : Nat := id.word.toNat

def ofNat (value : Nat) : Id := ⟨BitVec.ofNat 128 value⟩

def version (id : Id) : Nat := id.toNat / 2 ^ 76 % 16

theorem toNat_inj {a b : Id} : a.toNat = b.toNat ↔ a = b := by
  cases a
  cases b
  simp [toNat, BitVec.toNat_inj]

instance : Ord Id := ⟨compareOn toNat⟩

instance : Std.TransOrd Id := inferInstanceAs (Std.TransCmp (compareOn toNat))

instance : Std.LawfulEqOrd Id where
  eq_of_compare := by
    intro a b same
    exact toNat_inj.mp (Std.LawfulEqOrd.eq_of_compare (α := Nat) same)

def hyphenate : List Nat → List Char → List Char
  | size :: next :: sizes, digits =>
      digits.take size ++ '-' :: hyphenate (next :: sizes) (digits.drop size)
  | _, digits => digits

def unhyphenate : List Nat → List Char → Option (List Char)
  | size :: next :: sizes, text =>
      match text.drop size with
      | '-' :: rest => (unhyphenate (next :: sizes) rest).map (text.take size ++ ·)
      | _ => none
  | [size], text => if text.length = size then some text else none
  | [], text => if text = [] then some [] else none

def groups : List Nat := [8, 4, 4, 4, 12]

def chars (id : Id) : List Char := hyphenate groups (hexDigits 32 id.toNat)

def text (id : Id) : String := String.ofList id.chars

def ofGrouped? (text : List Char) : Option Id :=
  (unhyphenate groups text).bind fun digits => (readHex digits).map ofNat

def ofChars? (text : List Char) : Option Id :=
  if text.length = 32 then (readHex text).map ofNat
  else if text.length = 36 then ofGrouped? text
  else if text.length = 38 ∧ text.head? = some '{' ∧ text.getLast? = some '}' then
    ofGrouped? ((text.drop 1).take 36)
  else if text.length = 45 ∧ (text.take 9).map Char.toLower = "urn:uuid:".toList then
    ofGrouped? (text.drop 9)
  else none

def read? (text : String) : Option Id := ofChars? text.toList

def short (id : Id) : String := String.ofList (Nat.toDigits 16 id.toNat)

def ofShort? (text : String) : Option Id := (readHex text.toList).map ofNat

end Id

abbrev IdSet := Std.ExtTreeSet Id

end RecordLinkage
