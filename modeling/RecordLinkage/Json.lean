/-! JSON text as bytes, and its tree. Strings and member names stay as they stand between their
quotes and numbers keep their digits, so a tree says no more than its text; what a string or a
number means is decided where it is read as a typed value. -/

namespace RecordLinkage

def utf8 (text : String) : List UInt8 := text.toByteArray.data.toList

def ofUtf8? (bytes : List UInt8) : Option String := String.fromUTF8? ⟨bytes.toArray⟩

theorem ofUtf8?_utf8 (text : String) : ofUtf8? (utf8 text) = some text := by
  simp only [ofUtf8?, utf8, String.fromUTF8?, Array.toArray_toList]
  exact dif_pos text.isValidUTF8

namespace Json

/-- A number as written: an empty `fraction` means that there is no point. -/
structure Number where
  negative : Bool
  whole : List Char
  fraction : List Char
  exponent : Option (Bool × List Char)
deriving DecidableEq

end Json

inductive Json where
  | null
  | bool (value : Bool)
  | number (value : Json.Number)
  | string (written : List UInt8)
  | array (items : List Json)
  | object (members : List (List UInt8 × Json))

namespace Json

def ascii (text : List Char) : List UInt8 := text.map Char.toUInt8

namespace Number

def render (n : Number) : List UInt8 :=
  let exponent := match n.exponent with
    | none => []
    | some (negative, digits) => 'e' :: (if negative then '-' else '+') :: digits
  let fraction := if n.fraction = [] then [] else '.' :: n.fraction
  ascii ((if n.negative then ['-'] else []) ++ n.whole ++ fraction ++ exponent)

end Number

def quoted (written : List UInt8) : List UInt8 := '"'.toUInt8 :: written ++ ['"'.toUInt8]

mutual

def render : Json → List UInt8
  | null => ascii ['n', 'u', 'l', 'l']
  | bool true => ascii ['t', 'r', 'u', 'e']
  | bool false => ascii ['f', 'a', 'l', 's', 'e']
  | number value => value.render
  | string written => quoted written
  | array items => '['.toUInt8 :: renderItems items ++ [']'.toUInt8]
  | object members => '{'.toUInt8 :: renderMembers members ++ ['}'.toUInt8]

def renderItems : List Json → List UInt8
  | [] => []
  | [item] => render item
  | item :: items => render item ++ ','.toUInt8 :: renderItems items

def renderMembers : List (List UInt8 × Json) → List UInt8
  | [] => []
  | [(name, value)] => quoted name ++ ':'.toUInt8 :: render value
  | (name, value) :: members =>
      quoted name ++ ':'.toUInt8 :: render value ++ ','.toUInt8 :: renderMembers members

end

end Json

end RecordLinkage
