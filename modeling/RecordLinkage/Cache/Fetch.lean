import RecordLinkage.Program

/-! Looking something up through a cache. -/

namespace RecordLinkage

namespace Cache

variable {κ ν : Type}

/-- The cached value, or else the loaded one, which is kept unless a write came during the load. A
failed load leaves the cache as it is. -/
def fetch (step : (call : CacheCall κ ν) → Program call.Answer) (key : κ) (load : Action ν) :
    Action ν := do
  match ← ExceptT.lift (step (.find key)) with
  | some value => return value
  | none =>
      let seen ← ExceptT.lift (step .countWrites)
      let value ← load
      ExceptT.lift (step (.land key value seen))
      return value

end Cache

end RecordLinkage
