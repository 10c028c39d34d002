import Std.Data.HashSet
import RecordLinkage.Json
import RecordLinkage.Value

/-! Values as keys. Two values are equal if neither comes before the other. A hasher is given the rank of the
kind and then the payload, a double by its bits. -/

namespace RecordLinkage

inductive HashInput where
  | byte (value : UInt8)
  | int (value : Int)
  | word (value : UInt64)
  | length (value : Nat)
  | bytes (value : List UInt8)
deriving DecidableEq

namespace Value

def order? (a b : Value) : Option Ordering := some (order a b)

def equal (a b : Value) : Bool := order a b = .eq

def hashInput (ofInstant : Instant → List HashInput) (value : Value) : List HashInput :=
  .byte (.ofNat value.rank) ::
    match value with
    | text value => [.bytes (utf8 value), .byte 0xff]
    | int value => [.int value]
    | double value => [.word value.bits]
    | bool value => [.byte value.toUInt8]
    | instant value => ofInstant value
    | binary value => [.length value.length, .bytes value]

end Value

structure HashedValue (ofInstant : Instant → List HashInput) (digest : List HashInput → UInt64) where
  value : Value

namespace HashedValue

variable {ofInstant : Instant → List HashInput} {digest : List HashInput → UInt64}

instance : BEq (HashedValue ofInstant digest) := ⟨fun a b => a.value.equal b.value⟩

instance : Hashable (HashedValue ofInstant digest) := ⟨fun key => digest (key.value.hashInput ofInstant)⟩

def table (ofInstant : Instant → List HashInput) (digest : List HashInput → UInt64) (values : List Value) :
    Std.HashSet (HashedValue ofInstant digest) :=
  .ofList (values.map .mk)

end HashedValue

end RecordLinkage
