import RecordLinkage.Time.Rfc3339
import RecordLinkage.Id

/-! Decimal and hexadecimal digits are read back as the number that they were written for. -/

namespace RecordLinkage

theorem head?_toDigits {n : Nat} (positive : 0 < n) : (Nat.toDigits 10 n).head? ≠ some '0' := by
  induction n using Nat.strongRecOn with
  | ind n ih =>
      rw [Nat.toDigits_eq_if (by decide)]
      split
      · rename_i small
        have digits : ∀ m : Fin 10, 0 < m.val → [Nat.digitChar m.val].head? ≠ some '0' := by decide
        exact digits ⟨n, small⟩ positive
      · rename_i large
        have leading := ih (n / 10) (by omega) (by omega)
        rwa [List.head?_append, Option.or_of_isSome (by simp [Nat.toDigits_ne_nil])]

/-- Only zero is written with a zero in front, and then it is the only digit. -/
theorem toDigits_leads (n : Nat) (c : Char) (more : List Char) : Nat.toDigits 10 n ≠ '0' :: c :: more := by
  intro same
  by_cases zero : n = 0
  · rw [zero, Nat.toDigits_zero] at same
    simp at same
  · exact head?_toDigits (Nat.pos_of_ne_zero zero) (by rw [same]; rfl)

theorem isDigit_toDigits {n : Nat} : ∀ c ∈ Nat.toDigits 10 n, c.isDigit := fun _ listed =>
  Nat.isDigit_of_mem_toDigits (by decide) (by decide) listed

theorem isDigit_padded {width value : Nat} : ∀ c ∈ padded width value, c.isDigit := by
  intro c listed
  rcases List.mem_append.mp listed with zero | digit
  · rw [List.eq_of_mem_replicate zero]
    decide
  · exact isDigit_toDigits c digit

theorem ofDigitChars_padded (width value : Nat) : Nat.ofDigitChars 10 (padded width value) 0 = value := by
  rw [padded, Nat.ofDigitChars_append, Nat.ofDigitChars_replicate_zero, Nat.mul_zero,
    Nat.ofDigitChars_ten_toDigits]

theorem length_padded {width value : Nat} (room : 0 < width) (small : value < 10 ^ width) :
    (padded width value).length = width := by
  have length := (Nat.length_toDigits_le_iff (by decide) room).mpr small
  rw [padded, List.length_append, List.length_replicate]
  omega

namespace Id

theorem length_hyphenate {sizes : List Nat} {digits : List Char}
    (length : digits.length = sizes.foldr (· + ·) 0) :
    (hyphenate sizes digits).length = digits.length + (sizes.length - 1) := by
  induction sizes generalizing digits with
  | nil => rfl
  | cons size sizes ih =>
      cases sizes with
      | nil => rfl
      | cons next sizes =>
          have later := @ih (digits.drop size) (by simp_all)
          simp_all [hyphenate]
          omega

theorem unhyphenate_hyphenate {sizes : List Nat} {digits : List Char}
    (length : digits.length = sizes.foldr (· + ·) 0) :
    unhyphenate sizes (hyphenate sizes digits) = some digits := by
  induction sizes generalizing digits with
  | nil => simp_all [hyphenate, unhyphenate]
  | cons size sizes ih =>
      cases sizes with
      | nil => simp_all [hyphenate, unhyphenate]
      | cons next sizes =>
          have later := @ih (digits.drop size) (by simp_all)
          have front : (digits.take size).length = size := by
            simp_all
          have rest : (hyphenate (size :: next :: sizes) digits).drop size =
              '-' :: hyphenate (next :: sizes) (digits.drop size) := by
            rw [hyphenate, List.drop_append_of_le_length (by omega), List.drop_of_length_le (by omega)]
            rfl
          have taken : (hyphenate (size :: next :: sizes) digits).take size = digits.take size := by
            rw [hyphenate, List.take_append_of_le_length (by omega), List.take_of_length_le (by omega)]
          rw [unhyphenate, rest]
          simp [later, taken]

theorem read?_text (id : Id) : read? id.text = some id := by
  have length : (hexDigits 32 id.toNat).length = groups.foldr (· + ·) 0 :=
    length_hexDigits 32 _
  have value : readHex (hexDigits 32 id.toNat) = some id.toNat := readHex_hexDigits id.word.isLt
  rw [read?, text, String.toList_ofList, ofChars?, if_neg, if_pos]
  · rw [ofGrouped?, chars, unhyphenate_hyphenate length, Option.bind_some, value]
    simp [ofNat, toNat]
  · rw [chars, length_hyphenate length, length]
    rfl
  · rw [chars, length_hyphenate length, length]
    decide

end Id

end RecordLinkage
