import RecordLinkage.Proofs.Text.Digits

/-! The written form of an instant is read back as that instant, leap seconds and years of any length
included. -/

namespace RecordLinkage

theorem isBlankChar_digit {c : Char} (digit : c.isDigit) : isBlankChar c = false := by
  simp only [Char.isDigit, Bool.and_eq_true, decide_eq_true_eq, UInt32.le_iff_toNat_le] at digit
  have low : 48 ≤ c.toNat := digit.1
  have high : c.toNat ≤ 57 := digit.2
  simp only [isBlankChar, Bool.or_eq_false_iff, Bool.and_eq_false_iff, decide_eq_false_iff_not]
  omega

namespace Instant

theorem skipBlank_cons {c : Char} (filled : isBlankChar c = false) (rest : List Char) :
    skipBlank (c :: rest) = c :: rest := by
  simp [skipBlank, filled]

/-- Digits are read up to the width of the field or to the end of the digits. -/
theorem readNumber?_digits {width : Nat} {digits rest : List Char} (all : ∀ c ∈ digits, c.isDigit)
    (filled : digits ≠ []) (fits : digits.length ≤ width)
    (stops : (rest.take (width - digits.length)).takeWhile Char.isDigit = []) :
    readNumber? width (digits ++ rest) = some (Nat.ofDigitChars 10 digits 0, rest) := by
  have start : skipBlank (digits ++ rest) = digits ++ rest := by
    obtain ⟨c, more, rfl⟩ := List.exists_cons_of_ne_nil filled
    exact skipBlank_cons (isBlankChar_digit (all c (.head _))) _
  have taken : ((digits ++ rest).take width).takeWhile Char.isDigit = digits := by
    rw [List.take_append, List.take_of_length_le fits, List.takeWhile_append_of_pos all, stops,
      List.append_nil]
  simp [readNumber?, start, taken, filled]

theorem readNumber?_padded {width value : Nat} (room : 0 < width) (small : value < 10 ^ width)
    (rest : List Char) : readNumber? width (padded width value ++ rest) = some (value, rest) := by
  have length := length_padded room small
  have filled : padded width value ≠ [] := by
    intro none
    rw [none] at length
    simp at length
    omega
  rw [readNumber?_digits isDigit_padded filled (Nat.le_of_eq length) (by simp [length]),
    ofDigitChars_padded]

theorem readNumber?_pair {value : Nat} (small : value < 100) (rest : List Char) :
    readNumber? 2 (padded 2 value ++ rest) = some (value, rest) :=
  readNumber?_padded (by decide) small rest

theorem readMark?_cons {mark : Char} (filled : isBlankChar mark = false) (rest : List Char) :
    readMark? mark (mark :: rest) = some rest := by
  simp [readMark?, skipBlank_cons filled]

theorem padded_cons (width value : Nat) :
    ∃ c more, padded width value = c :: more ∧ c.isDigit := by
  have filled : padded width value ≠ [] := by simp [padded, Nat.toDigits_ne_nil]
  obtain ⟨c, more, same⟩ := List.exists_cons_of_ne_nil filled
  exact ⟨c, more, same, isDigit_padded c (show c ∈ padded width value by simp [same])⟩

theorem readYear?_text (year : Int) (rest : List Char) :
    readYear? (Date.yearText year ++ '-' :: rest) = some (year, '-' :: rest) := by
  unfold Date.yearText
  split
  · rename_i usual
    obtain ⟨c, more, same, digit⟩ := padded_cons 4 year.toNat
    have number := readNumber?_padded (by omega) (show year.toNat < 10 ^ 4 by omega) ('-' :: rest)
    rw [same, List.cons_append] at number ⊢
    unfold readYear?
    rw [skipBlank_cons (isBlankChar_digit digit)]
    split
    · rename_i minus
      obtain ⟨rfl, -⟩ := List.cons.inj minus
      contradiction
    · rename_i plus
      obtain ⟨rfl, -⟩ := List.cons.inj plus
      contradiction
    · simp only [number, Option.map_some, Option.some.injEq, Prod.mk.injEq, and_true]
      omega
  · rename_i unusual
    obtain ⟨c, more, same, digit⟩ := padded_cons 4 year.natAbs
    have number : readNumber? (padded 4 year.natAbs ++ '-' :: rest).length
        (padded 4 year.natAbs ++ '-' :: rest) = some (year.natAbs, '-' :: rest) := by
      rw [readNumber?_digits isDigit_padded (by simp [same]) (by simp) (by simp +decide),
        ofDigitChars_padded]
    rw [same, List.cons_append] at number ⊢
    by_cases negative : year < 0
    · rw [if_pos negative, List.cons_append, readYear?,
        skipBlank_cons (show isBlankChar '-' = false by decide)]
      simp only [digit, if_true, number, Option.map_some, Option.some.injEq, Prod.mk.injEq, and_true]
      omega
    · rw [if_neg negative, List.cons_append, readYear?,
        skipBlank_cons (show isBlankChar '+' = false by decide)]
      simp only [digit, if_true, number, Option.map_some, Option.some.injEq, Prod.mk.injEq, and_true]
      omega

theorem readFraction?_padded {width value : Nat} (room : 0 < width) (short : width ≤ 9)
    (small : value < 10 ^ width) :
    readFraction? ('.' :: (padded width value ++ ['Z'])) = some (value * 10 ^ (9 - width), ['Z']) := by
  have length := length_padded room small
  have taken : ((padded width value ++ ['Z']).take 9).takeWhile Char.isDigit = padded width value := by
    rw [List.take_append, List.take_of_length_le (by omega),
      List.takeWhile_append_of_pos isDigit_padded]
    cases (9 - (padded width value).length) <;> simp +decide
  have dropped : (padded width value ++ ['Z']).dropWhile Char.isDigit = ['Z'] := by
    rw [List.dropWhile_append_of_pos isDigit_padded]
    rfl
  have filled : padded width value ≠ [] := by
    intro none
    rw [none] at length
    simp at length
    omega
  simp [readFraction?, taken, dropped, filled, ofDigitChars_padded, length]

theorem readFraction?_chars (instant : Instant) :
    readFraction? (instant.fractionChars ++ ['Z']) = some (instant.fraction, ['Z']) := by
  have small : instant.fraction < 10 ^ 9 := Nat.mod_lt _ (by decide)
  unfold fractionChars
  simp only
  split
  · rename_i none
    rw [none]
    rfl
  · split
    · rw [List.cons_append, readFraction?_padded (by decide) (by decide) (by omega)]
      simp
      omega
    · split
      · rw [List.cons_append, readFraction?_padded (by decide) (by decide) (by omega)]
        simp
        omega
      · rw [List.cons_append, readFraction?_padded (by decide) (by decide) (by omega)]
        simp

theorem clockFields?_fields (instant : Instant) :
    clockFields? (instant.second / 3600) (instant.second / 60 % 60)
        (instant.second % 60 + if instant.nano < 10 ^ 9 then 0 else 1) instant.fraction =
      some (instant.second, instant.nano) := by
  obtain ⟨day, leap⟩ := instant.fits
  unfold clockFields? fraction
  by_cases usual : instant.nano < 10 ^ 9
  · rw [if_pos usual, if_pos (by omega), if_neg (by omega)]
    simp
    omega
  · rw [if_neg usual, if_pos (by omega), if_pos (by omega)]
    simp
    omega

theorem date_of? (date : Date) : Date.of? date.year date.month date.day = some date := by
  rw [Date.of?, dif_pos date.yearInRange, dif_pos date.monthInRange, dif_pos date.dayInRange]

theorem ofLocal?_universal (instant : Instant) :
    ofLocal? instant.date instant.second instant.nano 0 = some instant := by
  have day := instant.fits.1
  rw [ofLocal?]
  simp only [Int.sub_zero]
  rw [if_neg (by omega), if_neg (by omega), Int.toNat_natCast, of?, dif_pos instant.fits]

theorem read?_text (instant : Instant) : read? instant.text = some instant := by
  have month := instant.date.monthInRange
  have day : instant.date.day < 100 := by
    have bound := instant.date.dayInRange.2
    have longest : daysInMonth instant.date.year instant.date.month ≤ 31 := by
      unfold daysInMonth
      split <;> (try split) <;> omega
    omega
  have clock := instant.fits.1
  have seconds : (instant.second % 60 + if instant.nano < 10 ^ 9 then 0 else 1) < 100 := by
    split <;> omega
  have written : instant.chars = Date.yearText instant.date.year ++ '-' ::
      (padded 2 instant.date.month ++ '-' :: (padded 2 instant.date.day ++ 'T' ::
        (padded 2 (instant.second / 3600) ++ ':' :: (padded 2 (instant.second / 60 % 60) ++ ':' ::
          (padded 2 (instant.second % 60 + if instant.nano < 10 ^ 9 then 0 else 1) ++
            (instant.fractionChars ++ ['Z'])))))) := by
    simp [chars, Date.chars, clockChars]
  have dash (rest : List Char) : readMark? '-' ('-' :: rest) = some rest := readMark?_cons (by decide) rest
  have colon (rest : List Char) : readMark? ':' (':' :: rest) = some rest :=
    readMark?_cons (by decide) rest
  rw [read?, text, String.toList_ofList, written]
  refine Option.bind_eq_some_iff.mpr ⟨_, readYear?_text _ _, ?_⟩
  refine Option.bind_eq_some_iff.mpr ⟨_, dash _, ?_⟩
  refine Option.bind_eq_some_iff.mpr ⟨_, readNumber?_pair (by omega) _, ?_⟩
  refine Option.bind_eq_some_iff.mpr ⟨_, dash _, ?_⟩
  refine Option.bind_eq_some_iff.mpr ⟨_, readNumber?_pair day _, ?_⟩
  refine Option.bind_eq_some_iff.mpr ⟨_, readNumber?_pair (by omega) _, ?_⟩
  refine Option.bind_eq_some_iff.mpr ⟨_, colon _, ?_⟩
  refine Option.bind_eq_some_iff.mpr ⟨_, readNumber?_pair (by omega) _, ?_⟩
  refine Option.bind_eq_some_iff.mpr ⟨_, colon _, ?_⟩
  refine Option.bind_eq_some_iff.mpr ⟨_, readNumber?_pair seconds _, ?_⟩
  refine Option.bind_eq_some_iff.mpr ⟨_, readFraction?_chars instant, ?_⟩
  have offset : readOffset? (skipBlank ['Z']) = some (0, []) := by decide
  refine Option.bind_eq_some_iff.mpr ⟨_, offset, ?_⟩
  refine Option.bind_eq_some_iff.mpr ⟨_, date_of? instant.date, ?_⟩
  refine Option.bind_eq_some_iff.mpr ⟨_, clockFields?_fields instant, ?_⟩
  exact ofLocal?_universal instant

def epoch : Instant := ⟨⟨1970, 1, 1, by decide, by decide, by decide⟩, 0, 0, by decide⟩

example : epoch.text = "1970-01-01T00:00:00Z" := by decide +kernel

end Instant

end RecordLinkage
