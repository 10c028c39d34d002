import RecordLinkage.Json.Text

/-! Records in JSON: an object whose members stand in any order, or an array of the fields in theirs.
Members with other names are passed over, a name may not come twice, and an array has exactly
the fields. -/

namespace RecordLinkage

namespace Json

def memberNamed? (members : List (String × Json)) (name : String) : Option (Option Json) :=
  match members.filter fun member => member.1 = name with
  | [] => some none
  | [member] => some (some member.2)
  | _ => none

def readMembers? (members : List (List UInt8 × Json)) : Option (List (String × Json)) :=
  members.mapM fun member => (readText? member.1).map fun name => (name, member.2)

def record? (names : List String) : Json → Option (List (Option Json))
  | object members => (readMembers? members).bind fun members => names.mapM (memberNamed? members)
  | array items => if items.length = names.length then some (items.map some) else none
  | _ => none

/-- Like `record?`, but an array may stop early. -/
def openRecord? (names : List String) : Json → Option (List (Option Json))
  | array items =>
      if items.length ≤ names.length then
        some (items.map some ++ List.replicate (names.length - items.length) none)
      else none
  | json => record? names json

def bareName? : Json → Option String
  | object [(name, null)] => readText? name
  | json => json.text?

def ofRecord (members : List (String × Json)) : Json :=
  object (members.map fun member => (escape (utf8 member.1), member.2))

end Json

end RecordLinkage
