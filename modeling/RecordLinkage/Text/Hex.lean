import RecordLinkage.Power

/-! Hexadecimal text. Numbers are written with a fixed count of lowercase digits, most significant
first, and read back from digits of either case. -/

namespace RecordLinkage

def hexDigits : Nat → Nat → List Char
  | 0, _ => []
  | count + 1, value => hexDigits count (value / 16) ++ [Nat.digitChar (value % 16)]

def hexDigit? (c : Char) : Option Nat :=
  if c.isDigit then some (c.toNat - '0'.toNat)
  else if 'a' ≤ c ∧ c ≤ 'f' then some (c.toNat - 'a'.toNat + 10)
  else if 'A' ≤ c ∧ c ≤ 'F' then some (c.toNat - 'A'.toNat + 10)
  else none

def readHexFrom (leading : Nat) : List Char → Option Nat
  | [] => some leading
  | c :: rest => (hexDigit? c).bind fun digit => readHexFrom (leading * 16 + digit) rest

def readHex (text : List Char) : Option Nat := readHexFrom 0 text

def hexBytes (bytes : List UInt8) : List Char :=
  bytes.flatMap fun byte => hexDigits 2 byte.toNat

def readHexBytes : List Char → Option (List UInt8)
  | [] => some []
  | [_] => none
  | high :: low :: rest => do
      let value ← readHex [high, low]
      return value.toUInt8 :: (← readHexBytes rest)

theorem hexDigit?_digitChar {n : Nat} (small : n < 16) : hexDigit? (Nat.digitChar n) = some n := by
  have cases : ∀ m : Fin 16, hexDigit? (Nat.digitChar m.val) = some m.val := by decide
  exact cases ⟨n, small⟩

theorem length_hexDigits (count value : Nat) : (hexDigits count value).length = count := by
  induction count generalizing value with
  | zero => rfl
  | succ count ih => simp [hexDigits, ih]

theorem readHexFrom_append (left right : List Char) (leading : Nat) :
    readHexFrom leading (left ++ right) =
      (readHexFrom leading left).bind fun middle => readHexFrom middle right := by
  induction left generalizing leading with
  | nil => rfl
  | cons c left ih =>
      simp only [List.cons_append, readHexFrom]
      cases hexDigit? c with
      | none => rfl
      | some digit => simp [ih]

theorem readHexFrom_hexDigits (count value leading : Nat) (small : value < 16 ^ count) :
    readHexFrom leading (hexDigits count value) = some (leading * 16 ^ count + value) := by
  induction count generalizing value with
  | zero => simp_all [hexDigits, readHexFrom]
  | succ count ih =>
      have quotient : value / 16 < 16 ^ count := by
        rw [Nat.div_lt_iff_lt_mul (by omega)]
        simpa [Nat.pow_succ] using small
      rw [hexDigits, readHexFrom_append, ih _ quotient]
      simp only [Option.bind_some, readHexFrom, hexDigit?_digitChar (Nat.mod_lt value (by omega : 16 > 0))]
      have split := Nat.div_add_mod value 16
      rw [Nat.pow_succ, Nat.add_mul, Nat.mul_assoc]
      congr 1
      omega

/-- A number that fits its digits reads back. -/
theorem readHex_hexDigits {count value : Nat} (small : value < 16 ^ count) :
    readHex (hexDigits count value) = some value := by
  simp [readHex, readHexFrom_hexDigits count value 0 small]

end RecordLinkage
