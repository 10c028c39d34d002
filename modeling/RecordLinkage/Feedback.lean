import RecordLinkage.Form

/-! Human feedback: an authoritative verdict on one pair of records, linked or not. -/

namespace RecordLinkage

structure Feedback where
  pair : EntityPair
  linked : Bool
deriving DecidableEq

inductive Verdict where
  | positive
  | negative
  | all
deriving DecidableEq

namespace Verdict

def accepts (verdict : Verdict) (linked : Bool) : Bool :=
  match verdict with
  | positive => linked
  | negative => !linked
  | all => true

def name : Verdict → String
  | positive => "positive"
  | negative => "negative"
  | all => "all"

def ofName? : String → Option Verdict
  | "positive" => some positive
  | "negative" => some negative
  | "all" => some all
  | _ => none

end Verdict

open Form

instance : Form Feedback where
  toJson row := Json.ofRecord [("pair", toJson row.pair), ("linked", toJson row.linked)]
  ofJson? json := do
    match ← json.record? ["pair", "linked"] with
    | [pair, linked] => return ⟨← required? pair, ← required? linked⟩
    | _ => none

instance : Form Verdict where
  toJson verdict := Json.ofText verdict.name
  ofJson? json := json.bareName?.bind Verdict.ofName?

end RecordLinkage
