/-! The 32-bit cyclic redundancy check with the reflected polynomial `edb88320`, all ones at the start
and inverted at the end. -/

namespace RecordLinkage

namespace Checksum

def polynomial : UInt32 := 0xedb88320

def stepBit (register : UInt32) : UInt32 :=
  if register &&& 1 = 1 then (register >>> 1) ^^^ polynomial else register >>> 1

def stepBits : Nat → UInt32 → UInt32
  | 0, register => register
  | count + 1, register => stepBits count (stepBit register)

def stepByte (register : UInt32) (byte : UInt8) : UInt32 :=
  stepBits 8 (register ^^^ byte.toUInt32)

end Checksum

def checksum (bytes : List UInt8) : UInt32 :=
  bytes.foldl Checksum.stepByte 0xffffffff ^^^ 0xffffffff

end RecordLinkage
