import RecordLinkage.Json.Reader

/-! A text between quotes ends where it was ended and stands for the text that was written, whatever bytes
it has. -/

namespace RecordLinkage

namespace Json

inductive Escaped : UInt8 → List UInt8 → Prop where
  | plain {byte : UInt8} (unquoted : byte ≠ '"'.toUInt8) (unslashed : byte ≠ backslash)
      (printable : ¬byte < 32) : Escaped byte [byte]
  | short {byte letter : UInt8} (lettered : letter ≠ 'u'.toUInt8)
      (means : unescapeLetter? letter = some byte) : Escaped byte [backslash, letter]
  | control {byte a b c d : UInt8} (unit : codeUnit? a b c d = some byte.toNat)
      (unprintable : byte < 32) : Escaped byte [backslash, 'u'.toUInt8, a, b, c, d]

theorem ofUInt8_digitChar {n : Nat} (small : n < 16) :
    Char.ofUInt8 (Nat.digitChar n).toUInt8 = Nat.digitChar n := by
  have digits : ∀ n < 16, Char.ofUInt8 (Nat.digitChar n).toUInt8 = Nat.digitChar n := by decide
  exact digits n small

theorem escaped_control {byte : UInt8} (unprintable : byte < 32) :
    Escaped byte (backslash :: ascii ('u' :: hexDigits 4 byte.toNat)) := by
  have value : readHex (hexDigits 4 byte.toNat) = some byte.toNat :=
    readHex_hexDigits (Nat.lt_trans byte.toNat_lt (by decide))
  have back (n : Nat) : Char.ofUInt8 (Nat.digitChar (n % 16)).toUInt8 = Nat.digitChar (n % 16) :=
    ofUInt8_digitChar (Nat.mod_lt n (by decide))
  refine .control ?_ unprintable
  simp only [codeUnit?, List.map_cons, List.map_nil, back]
  exact value

/-- What holds of all bytes by their two hexadecimal digits. -/
theorem all_bytes {P : UInt8 → Prop} (all : ∀ high < 16, ∀ low < 16, P (16 * high + low).toUInt8)
    (byte : UInt8) : P byte := by
  have bound := byte.toNat_lt
  have found := all (byte.toNat / 16) (by omega) (byte.toNat % 16) (by omega)
  rw [Nat.div_add_mod] at found
  simpa using found

theorem escaped_short {byte : UInt8} {letter : Char} (found : shortEscape? byte = some letter) :
    Escaped byte [backslash, letter.toUInt8] := by
  have letters : ∀ byte : UInt8, (shortEscape? byte).all (fun letter =>
      letter.toUInt8 ≠ 'u'.toUInt8 ∧ unescapeLetter? letter.toUInt8 = some byte) = true :=
    all_bytes (by decide +kernel)
  have own := letters byte
  rw [found, Option.all_some, decide_eq_true_eq] at own
  exact .short own.1 own.2

theorem escaped (byte : UInt8) : Escaped byte (escapeByte byte) := by
  unfold escapeByte
  split
  · rename_i found
    exact escaped_short found
  · rename_i plain
    split
    · rename_i unprintable
      exact escaped_control unprintable
    · refine .plain ?_ ?_ ‹_›
      · rintro rfl
        contradiction
      · rintro rfl
        contradiction

theorem backslash_unquoted : backslash ≠ '"'.toUInt8 := by decide

theorem takeString?_written {byte : UInt8} {written : List UInt8} (escaped : Escaped byte written)
    (after : List UInt8) :
    takeString? (written ++ after) =
      (takeString? after).map fun taken => (written ++ taken.1, taken.2) := by
  cases escaped with
  | plain unquoted unslashed printable =>
      rw [List.singleton_append, takeString?.eq_def]
      simp [unquoted, unslashed, printable]
  | short lettered means =>
      rw [List.cons_append, takeString?.eq_def]
      simp [backslash_unquoted, lettered, means]
  | control unit unprintable =>
      rw [List.cons_append, takeString?.eq_def]
      simp [backslash_unquoted, unit]

theorem takeString?_escape (bytes rest : List UInt8) :
    takeString? (escape bytes ++ '"'.toUInt8 :: rest) = some (escape bytes, rest) := by
  induction bytes with
  | nil =>
      rw [escape, List.flatMap_nil, List.nil_append, takeString?.eq_def]
      simp
  | cons byte bytes ih =>
      rw [escape, List.flatMap_cons, ← escape, List.append_assoc, takeString?_written (escaped byte),
        ih]
      rfl

theorem codePoint_control {byte : UInt8} (unprintable : byte < 32) :
    codePoint byte.toNat = [byte] := by
  have points : ∀ n < 32, codePoint n = [n.toUInt8] := by decide
  simpa using points byte.toNat unprintable

theorem unescape?_written {byte : UInt8} {written : List UInt8} (escaped : Escaped byte written)
    (after : List UInt8) :
    unescape? (written ++ after) = (unescape? after).map fun bytes => byte :: bytes := by
  cases escaped with
  | plain unquoted unslashed printable =>
      rw [List.singleton_append, unescape?.eq_def]
      simp [unslashed]
  | short lettered means =>
      rw [List.cons_append, unescape?.eq_def]
      simp [lettered, means]
  | control unit unprintable =>
      have small : byte.toNat < 32 := unprintable
      have high : isHighSurrogate byte.toNat = false := by simp [isHighSurrogate]; omega
      have low : isLowSurrogate byte.toNat = false := by simp [isLowSurrogate]; omega
      rw [List.cons_append, unescape?.eq_def]
      simp [unit, high, low, codePoint_control unprintable]

theorem unescape?_escape (bytes : List UInt8) : unescape? (escape bytes) = some bytes := by
  induction bytes with
  | nil => rfl
  | cons byte bytes ih =>
      rw [escape, List.flatMap_cons, ← escape, unescape?_written (escaped byte), ih]
      rfl

theorem readText?_escape (text : String) : readText? (escape (utf8 text)) = some text := by
  rw [readText?, unescape?_escape, Option.bind_some, ofUtf8?_utf8]

theorem text?_ofText (text : String) : (ofText text).text? = some text := readText?_escape text

end Json

end RecordLinkage
