import RecordLinkage.Proofs.Json.Trees

/-! A value that ends before its text does is read alike whatever comes behind it. An object ends with its
brace, so that no front of its text can be read. -/

namespace RecordLinkage

namespace Json

variable {text rest : List UInt8}

theorem skipSpace_append (filled : skipSpace text ≠ []) (more : List UInt8) :
    skipSpace (text ++ more) = skipSpace text ++ more := by
  induction text with
  | nil => contradiction
  | cons byte text ih =>
      by_cases space : isSpace byte
      · simp only [skipSpace, List.dropWhile_cons, space, if_true, List.cons_append] at filled ⊢
        exact ih filled
      · simp [skipSpace, space]

theorem afterByte?_append (mark : Char) (filled : skipSpace text ≠ []) (more : List UInt8) :
    afterByte? mark (text ++ more) = (afterByte? mark text).map (· ++ more) := by
  rw [afterByte?, skipSpace_append filled, afterByte?]
  cases found : skipSpace text with
  | nil => contradiction
  | cons byte after =>
      by_cases marked : byte = mark.toUInt8 <;> simp [marked]

theorem skipSpace_of_afterByte? {mark : Char} (after : afterByte? mark text = some rest) :
    skipSpace text ≠ [] := by
  intro none
  simp [afterByte?, none] at after

theorem ne_nil_of_skipSpace (filled : skipSpace text ≠ []) : text ≠ [] := by
  rintro rfl
  contradiction

theorem takeString?_append {written : List UInt8} (taken : takeString? text = some (written, rest))
    (more : List UInt8) : takeString? (text ++ more) = some (written, rest ++ more) := by
  fun_induction takeString? text generalizing written rest with
  | case1 | case3 | case5 | case6 | case8 | case9 => contradiction
  | case2 rest =>
      obtain ⟨rfl, rfl⟩ := taken
      rw [List.cons_append, takeString?.eq_def]
      simp
  | case4 a b c d later unit unquoted ih =>
      simp only [Option.map_eq_some_iff, Prod.exists, Prod.mk.injEq] at taken
      obtain ⟨_, _, taken, rfl, rfl⟩ := taken
      rw [List.cons_append, takeString?.eq_def]
      simp [unquoted, unit, ih taken]
  | case7 letter later other means unquoted ih =>
      simp only [Option.map_eq_some_iff, Prod.exists, Prod.mk.injEq] at taken
      obtain ⟨_, _, taken, rfl, rfl⟩ := taken
      rw [List.cons_append, takeString?.eq_def]
      simp [unquoted, other, means, ih taken]
  | case10 byte later unquoted unslashed printable ih =>
      simp only [Option.map_eq_some_iff, Prod.exists, Prod.mk.injEq] at taken
      obtain ⟨_, _, taken, rfl, rfl⟩ := taken
      rw [List.cons_append, takeString?.eq_def]
      simp [unquoted, unslashed, printable, ih taken]

theorem afterWord?_append {word : List Char} (after : afterWord? word text = some rest)
    (more : List UInt8) : afterWord? word (text ++ more) = some (rest ++ more) := by
  simp only [afterWord?, Option.ite_none_right_eq_some, Option.some.injEq] at after ⊢
  obtain ⟨found, rfl⟩ := after
  have long : word.length ≤ text.length := by
    have := congrArg List.length found
    simp only [List.length_take, ascii, List.length_map] at this
    omega
  rw [List.take_append_of_le_length long, List.drop_append_of_le_length long]
  exact ⟨found, rfl⟩

theorem takeDigits_append (stopped : (takeDigits text).2 ≠ []) (more : List UInt8) :
    takeDigits (text ++ more) = ((takeDigits text).1, (takeDigits text).2 ++ more) := by
  induction text with
  | nil => contradiction
  | cons byte text ih =>
      by_cases digit : isDigitByte byte
      · simp only [takeDigits, List.dropWhile_cons, List.takeWhile_cons, digit, if_true, List.cons_append,
          List.map_cons, Prod.mk.injEq, List.cons.injEq, true_and] at stopped ih ⊢
        exact ih stopped
      · simp [takeDigits, digit]

theorem takeDigits_of_takeWhole? {whole : List Char} (taken : takeWhole? text = some (whole, rest)) :
    takeDigits text = (whole, rest) := by
  rw [takeWhole?] at taken
  split at taken
  · contradiction
  · contradiction
  · exact Option.some.inj taken

theorem takeWhole?_append {whole : List Char} (taken : takeWhole? text = some (whole, rest))
    (stopped : rest ≠ []) (more : List UInt8) :
    takeWhole? (text ++ more) = some (whole, rest ++ more) := by
  have same := takeDigits_of_takeWhole? taken
  have longer : takeDigits (text ++ more) = (whole, rest ++ more) := by
    rw [takeDigits_append (by rwa [same]), same]
  rw [takeWhole?, same] at taken
  rw [takeWhole?, longer]
  split at taken <;> simp_all

theorem takeFraction?_append {fraction : List Char} (taken : takeFraction? text = some (fraction, rest))
    (stopped : rest ≠ []) (more : List UInt8) :
    takeFraction? (text ++ more) = some (fraction, rest ++ more) := by
  cases text with
  | nil => simp_all [takeFraction?]
  | cons byte text =>
      rw [takeFraction?] at taken
      rw [List.cons_append, takeFraction?]
      split at taken
      · rename_i point
        simp only [Option.ite_none_left_eq_some, Option.some.injEq, Prod.mk.injEq] at taken
        obtain ⟨some, rfl, rfl⟩ := taken
        simp [point, takeDigits_append stopped, some]
      · rename_i other
        obtain ⟨rfl, rfl⟩ := taken
        simp [other]

theorem takeSign_append (filled : text ≠ []) (more : List UInt8) :
    takeSign (text ++ more) = ((takeSign text).1, (takeSign text).2 ++ more) := by
  cases text with
  | nil => contradiction
  | cons byte text =>
      rw [List.cons_append, takeSign, takeSign]
      repeat' split
      all_goals rfl

theorem takeExponent?_append {exponent : Option (Bool × List Char)}
    (taken : takeExponent? text = some (exponent, rest)) (stopped : rest ≠ []) (more : List UInt8) :
    takeExponent? (text ++ more) = some (exponent, rest ++ more) := by
  cases text with
  | nil => simp_all [takeExponent?]
  | cons byte text =>
      rw [takeExponent?] at taken
      rw [List.cons_append, takeExponent?]
      split at taken
      · rename_i power
        simp only [Option.ite_none_left_eq_some, Option.some.injEq, Prod.mk.injEq] at taken
        obtain ⟨some, rfl, rfl⟩ := taken
        have filled : text ≠ [] := by
          rintro rfl
          contradiction
        simp [power, takeSign_append filled, takeDigits_append stopped, some]
      · rename_i other
        obtain ⟨rfl, rfl⟩ := taken
        simp [other]

theorem takeNumber?_append {n : Number} (taken : takeNumber? text = some (n, rest))
    (stopped : rest ≠ []) (more : List UInt8) :
    takeNumber? (text ++ more) = some (n, rest ++ more) := by
  cases text with
  | nil => contradiction
  | cons byte text =>
      simp only [takeNumber?, List.cons_append, Option.pure_def, Option.bind_eq_bind,
        Option.bind_eq_some_iff, Option.some.injEq, Prod.mk.injEq, Prod.exists] at taken ⊢
      obtain ⟨whole, afterWhole, first, fraction, afterFraction, second, exponent, _, third, number, rfl⟩ :=
        taken
      have filledFraction : afterFraction ≠ [] := by
        rintro rfl
        cases third
        contradiction
      have filledWhole : afterWhole ≠ [] := by
        rintro rfl
        cases second
        contradiction
      refine ⟨whole, afterWhole ++ more, ?_, fraction, afterFraction ++ more,
        takeFraction?_append second filledFraction more, exponent, _,
        takeExponent?_append third stopped more, ?_, rfl⟩
      · split at first
        · rename_i negative
          rw [if_pos negative]
          exact takeWhole?_append first filledWhole more
        · rename_i positive
          rw [if_neg positive]
          exact takeWhole?_append first filledWhole more
      · rw [← number]
        split <;> rfl

theorem skipSpace_of_takeValue? {fuel : Nat} {value : Json}
    (taken : takeValue? fuel text = some (value, rest)) : skipSpace text ≠ [] := by
  intro none
  cases fuel <;> simp [takeValue?, none] at taken

theorem skipSpace_of_takeItems? {fuel : Nat} {items : List Json}
    (taken : takeItems? fuel text = some (items, rest)) : skipSpace text ≠ [] := by
  cases fuel with
  | zero => contradiction
  | succ fuel =>
      rw [takeItems?] at taken
      split at taken
      · contradiction
      · exact skipSpace_of_takeValue? ‹_›

theorem skipSpace_of_takeMembers? {fuel : Nat} {members : List (List UInt8 × Json)}
    (taken : takeMembers? fuel text = some (members, rest)) : skipSpace text ≠ [] := by
  cases fuel with
  | zero => contradiction
  | succ fuel =>
      rw [takeMembers?] at taken
      split at taken
      · contradiction
      · rename_i named
        obtain ⟨_, quote, -⟩ := Option.bind_eq_some_iff.mp named
        exact skipSpace_of_afterByte? quote

mutual

theorem takeValue?_append : {fuel larger : Nat} → fuel ≤ larger → {text rest : List UInt8} →
    {value : Json} → takeValue? fuel text = some (value, rest) →
    rest ≠ [] ∨ (∃ members, value = .object members) → (more : List UInt8) →
      takeValue? larger (text ++ more) = some (value, rest ++ more)
  | 0, _, _, _, _, _, taken, _, _ => by contradiction
  | fuel + 1, larger + 1, enough, text, rest, value, taken, stopped, more => by
      have filled := skipSpace_of_takeValue? taken
      rw [takeValue?] at taken ⊢
      rw [skipSpace_append filled]
      split at taken
      · contradiction
      · rename_i byte after found
        simp only [found, List.cons_append]
        iterate 3
          split at taken
          · obtain ⟨_, word, same⟩ := Option.map_eq_some_iff.mp taken
            cases same
            simp +decide [*, afterWord?_append word]
        split at taken
        · obtain ⟨_, closed, same⟩ := Option.map_eq_some_iff.mp taken
          cases same
          simp +decide [*, takeString?_append closed]
        split at taken
        · split at taken
          · rename_i close
            cases taken
            simp +decide [*, afterByte?_append, skipSpace_of_afterByte? close]
          · obtain ⟨_, items, same⟩ := Option.map_eq_some_iff.mp taken
            cases same
            simp +decide [*, afterByte?_append, skipSpace_of_takeItems? items,
              takeItems?_append (Nat.le_of_succ_le_succ enough) items more]
        split at taken
        · split at taken
          · rename_i close
            cases taken
            simp +decide [*, afterByte?_append, skipSpace_of_afterByte? close]
          · obtain ⟨_, members, same⟩ := Option.map_eq_some_iff.mp taken
            cases same
            simp +decide [*, afterByte?_append, skipSpace_of_takeMembers? members,
              takeMembers?_append (Nat.le_of_succ_le_succ enough) members more]
        · obtain ⟨_, number, same⟩ := Option.map_eq_some_iff.mp taken
          cases same
          have longer := takeNumber?_append number (by simpa using stopped) more
          rw [List.cons_append] at longer
          simp [*]

theorem takeItems?_append : {fuel larger : Nat} → fuel ≤ larger → {text rest : List UInt8} →
    {items : List Json} → takeItems? fuel text = some (items, rest) →
    (more : List UInt8) → takeItems? larger (text ++ more) = some (items, rest ++ more)
  | 0, _, _, _, _, _, taken, _ => by contradiction
  | fuel + 1, larger + 1, enough, text, rest, items, taken, more => by
      rw [takeItems?] at taken ⊢
      split at taken
      · contradiction
      · rename_i item after first
        have filled : skipSpace after ≠ [] := by
          split at taken
          · exact skipSpace_of_afterByte? ‹_›
          · obtain ⟨_, close, -⟩ := Option.map_eq_some_iff.mp taken
            exact skipSpace_of_afterByte? close
        rw [takeValue?_append (Nat.le_of_succ_le_succ enough) first
          (.inl (ne_nil_of_skipSpace filled)) more]
        simp only [afterByte?_append _ filled]
        split at taken
        · rename_i later comma
          obtain ⟨_, tail, same⟩ := Option.map_eq_some_iff.mp taken
          cases same
          simp [comma, takeItems?_append (Nat.le_of_succ_le_succ enough) tail more]
        · rename_i last
          obtain ⟨_, close, same⟩ := Option.map_eq_some_iff.mp taken
          cases same
          simp [last, close]

theorem takeMembers?_append : {fuel larger : Nat} → fuel ≤ larger → {text rest : List UInt8} →
    {members : List (List UInt8 × Json)} → takeMembers? fuel text = some (members, rest) →
    (more : List UInt8) → takeMembers? larger (text ++ more) = some (members, rest ++ more)
  | 0, _, _, _, _, _, taken, _ => by contradiction
  | fuel + 1, larger + 1, enough, text, rest, members, taken, more => by
      rw [takeMembers?] at taken ⊢
      split at taken
      · contradiction
      · rename_i name after named
        obtain ⟨opened, quote, string⟩ := Option.bind_eq_some_iff.mp named
        have name := takeString?_append string more
        simp only [afterByte?_append _ (skipSpace_of_afterByte? quote), quote, Option.map_some,
          Option.bind_some, name]
        split at taken
        · contradiction
        · rename_i value later valued
          obtain ⟨_, colon, valued⟩ := Option.bind_eq_some_iff.mp valued
          have filled : skipSpace later ≠ [] := by
            split at taken
            · exact skipSpace_of_afterByte? ‹_›
            · obtain ⟨_, close, -⟩ := Option.map_eq_some_iff.mp taken
              exact skipSpace_of_afterByte? close
          have value := takeValue?_append (Nat.le_of_succ_le_succ enough) valued
            (.inl (ne_nil_of_skipSpace filled)) more
          simp only [afterByte?_append _ (skipSpace_of_afterByte? colon), colon, Option.map_some,
            Option.bind_some, value, afterByte?_append _ filled]
          split at taken
          · rename_i comma
            obtain ⟨_, tail, same⟩ := Option.map_eq_some_iff.mp taken
            cases same
            simp [comma, takeMembers?_append (Nat.le_of_succ_le_succ enough) tail more]
          · rename_i last
            obtain ⟨_, close, same⟩ := Option.map_eq_some_iff.mp taken
            cases same
            simp [last, close]

end

section

variable {members : List (List UInt8 × Json)} (wellFormed : (object members).WellFormed)

include wellFormed

/-- Only blanks may stand behind an object. -/
theorem read?_followed {more : List UInt8} (filled : skipSpace more ≠ []) :
    read? ((object members).render ++ more) = none := by
  have alone := takeValue?_render _ wellFormed _ [] (Nat.le_refl _) ends_nil
  rw [List.append_nil] at alone
  have enough : (object members).render.length + 1 ≤ ((object members).render ++ more).length + 1 := by
    simp
  rw [read?, takeValue?_append enough alone (.inr ⟨members, rfl⟩)]
  exact if_neg filled

theorem read?_front {front more : List UInt8} (split : front ++ more = (object members).render)
    (cut : more ≠ []) : read? front = none := by
  have alone := takeValue?_render _ wellFormed _ [] (Nat.le_refl _) ends_nil
  rw [List.append_nil, ← split] at alone
  rw [read?]
  cases taken : takeValue? (front.length + 1) front with
  | none => rfl
  | some found =>
      obtain ⟨json, rest⟩ := found
      have braced : ∃ members, json = .object members := by
        cases front with
        | nil => contradiction
        | cons byte front =>
            obtain ⟨rfl, -⟩ : byte = '{'.toUInt8 ∧ _ := List.cons.inj split
            rw [takeValue?_brace] at taken
            split at taken
            · cases taken
              exact ⟨_, rfl⟩
            · obtain ⟨_, -, same⟩ := Option.map_eq_some_iff.mp taken
              cases same
              exact ⟨_, rfl⟩
      have enough : front.length + 1 ≤ (front ++ more).length + 1 := by simp
      rw [takeValue?_append enough taken (.inr braced)] at alone
      simp [cut] at alone

end

end Json

end RecordLinkage
