import RecordLinkage.Json.Number
import RecordLinkage.Proofs.Json.Strings

/-! The text of a tree is read back as that tree, if its strings are escaped and its numbers are spelt as
JSON wants them. -/

namespace RecordLinkage

namespace Json

theorem ascii_append (left right : List Char) : ascii (left ++ right) = ascii left ++ ascii right :=
  List.map_append

theorem digit_byte {c : Char} (digit : c.isDigit) :
    isDigitByte c.toUInt8 = true ∧ Char.ofUInt8 c.toUInt8 = c := by
  have bytes : ∀ n < 58, 48 ≤ n → isDigitByte (Char.ofNat n).toUInt8 = true ∧
      Char.ofUInt8 (Char.ofNat n).toUInt8 = Char.ofNat n := by
    decide
  simp only [Char.isDigit, Bool.and_eq_true, decide_eq_true_eq, UInt32.le_iff_toNat_le] at digit
  have low : 48 ≤ c.toNat := digit.1
  have high : c.toNat < 58 := Nat.lt_succ_of_le digit.2
  have both := bytes c.toNat high low
  rwa [Char.ofNat_toNat] at both

def Ends (rest : List UInt8) : Prop :=
  ∀ byte ∈ rest.head?, isDigitByte byte = false ∧ byte ≠ '.'.toUInt8 ∧ byte ≠ 'e'.toUInt8 ∧
    byte ≠ 'E'.toUInt8

theorem ends_nil : Ends [] := by simp [Ends]

theorem takeDigits_ascii {digits : List Char} (all : ∀ c ∈ digits, c.isDigit) {rest : List UInt8}
    (stops : ∀ byte ∈ rest.head?, isDigitByte byte = false) :
    takeDigits (ascii digits ++ rest) = (digits, rest) := by
  have bytes : ∀ byte ∈ ascii digits, isDigitByte byte = true := by
    intro byte listed
    obtain ⟨c, digit, rfl⟩ := List.mem_map.mp listed
    exact (digit_byte (all c digit)).1
  have back : (ascii digits).map Char.ofUInt8 = digits := by
    rw [ascii, List.map_map]
    exact (List.map_congr_left fun c digit => (digit_byte (all c digit)).2).trans (List.map_id digits)
  have none : rest.takeWhile isDigitByte = [] ∧ rest.dropWhile isDigitByte = rest := by
    cases rest with
    | nil => exact ⟨rfl, rfl⟩
    | cons byte rest => simp [stops byte rfl]
  rw [takeDigits, List.takeWhile_append_of_pos bytes, List.dropWhile_append_of_pos bytes, none.1,
    none.2, List.append_nil, back]

namespace Number

structure Spelt (n : Number) : Prop where
  whole : ∀ c ∈ n.whole, c.isDigit
  some : n.whole ≠ []
  fraction : ∀ c ∈ n.fraction, c.isDigit
  exponent : ∀ negative digits, n.exponent = .some (negative, digits) →
    digits ≠ [] ∧ ∀ c ∈ digits, c.isDigit

def Leads (n : Number) : Prop := ∀ c more, n.whole ≠ '0' :: c :: more

def exponentChars (n : Number) : List Char :=
  match n.exponent with
  | none => []
  | some (negative, digits) => 'e' :: (if negative then '-' else '+') :: digits

def fractionChars (n : Number) : List Char := if n.fraction = [] then [] else '.' :: n.fraction

theorem render_eq (n : Number) : n.render = ascii (if n.negative then ['-'] else []) ++
    (ascii n.whole ++ (ascii n.fractionChars ++ ascii n.exponentChars)) := by
  simp only [render, ascii_append, List.append_assoc]
  rfl

theorem takeNumber?_eq {n : Number} (spelt : n.Spelt) (rest : List UInt8) :
    takeNumber? (n.render ++ rest) = (do
    let (whole, after) ← takeWhole?
      (ascii n.whole ++ (ascii n.fractionChars ++ (ascii n.exponentChars ++ rest)))
    let (fraction, after) ← takeFraction? after
    let (exponent, after) ← takeExponent? after
    return (⟨n.negative, whole, fraction, exponent⟩, after)) := by
  rw [render_eq, List.append_assoc, List.append_assoc, List.append_assoc]
  by_cases negative : n.negative
  · simp [takeNumber?, negative, ascii]
  · obtain ⟨c, more, whole⟩ := List.exists_cons_of_ne_nil spelt.some
    have digit := (digit_byte (spelt.whole c (by simp [whole]))).1
    have unsigned : c.toUInt8 ≠ '-'.toUInt8 := by
      intro same
      rw [same] at digit
      contradiction
    simp [takeNumber?, negative, ascii, whole, unsigned]

section

variable {n : Number} (spelt : n.Spelt) {rest : List UInt8} (ends : Ends rest)

include ends

theorem ends_exponentChars : ∀ byte ∈ (ascii n.exponentChars ++ rest).head?,
    isDigitByte byte = false ∧ byte ≠ '.'.toUInt8 := by
  unfold exponentChars
  split
  · exact fun byte first => ⟨(ends byte first).1, (ends byte first).2.1⟩
  · intro byte first
    obtain rfl := Option.some.inj first
    decide

theorem ends_fractionChars :
    ∀ byte ∈ (ascii n.fractionChars ++ (ascii n.exponentChars ++ rest)).head?,
      isDigitByte byte = false := by
  unfold fractionChars
  split
  · exact fun byte first => (ends_exponentChars ends byte first).1
  · intro byte first
    obtain rfl := Option.some.inj first
    decide

include spelt

theorem takeExponent?_chars : takeExponent? (ascii n.exponentChars ++ rest) = .some (n.exponent, rest) := by
  unfold exponentChars
  split
  · rename_i none
    rw [none]
    cases rest with
    | nil => rfl
    | cons byte rest => simp [ascii, takeExponent?, ends byte rfl]
  · rename_i negative digits found
    obtain ⟨some, all⟩ := spelt.exponent negative digits found
    have taken := takeDigits_ascii all fun byte first => (ends byte first).1
    have signed : takeSign (ascii ((if negative then '-' else '+') :: digits) ++ rest) =
        (negative, ascii digits ++ rest) := by
      cases negative <;> rfl
    rw [found]
    show takeExponent? ('e'.toUInt8 :: (ascii ((if negative then '-' else '+') :: digits) ++ rest)) = _
    simp [takeExponent?, signed, taken, some]

theorem takeFraction?_chars :
    takeFraction? (ascii n.fractionChars ++ (ascii n.exponentChars ++ rest)) =
      .some (n.fraction, ascii n.exponentChars ++ rest) := by
  have after := ends_exponentChars (n := n) ends
  unfold fractionChars
  split
  · rename_i none
    rw [none]
    generalize ascii n.exponentChars ++ rest = later at after
    cases later with
    | nil => rfl
    | cons byte later => simp [ascii, takeFraction?, after byte rfl]
  · rename_i some
    have taken := takeDigits_ascii spelt.fraction fun byte first => (after byte first).1
    show takeFraction? ('.'.toUInt8 :: (ascii n.fraction ++ (ascii n.exponentChars ++ rest))) = _
    simp [takeFraction?, taken, some]

theorem takeDigits_whole :
    takeDigits (ascii n.whole ++ (ascii n.fractionChars ++ (ascii n.exponentChars ++ rest))) =
      (n.whole, ascii n.fractionChars ++ (ascii n.exponentChars ++ rest)) :=
  takeDigits_ascii spelt.whole (ends_fractionChars ends)

theorem takeNumber?_render (leads : n.Leads) : takeNumber? (n.render ++ rest) = .some (n, rest) := by
  have whole : takeWhole?
      (ascii n.whole ++ (ascii n.fractionChars ++ (ascii n.exponentChars ++ rest))) =
        .some (n.whole, ascii n.fractionChars ++ (ascii n.exponentChars ++ rest)) := by
    rw [takeWhole?, takeDigits_whole spelt ends]
    split
    · rename_i none
      exact absurd (congrArg Prod.fst none) spelt.some
    · rename_i zero
      exact absurd (congrArg Prod.fst zero) (leads _ _)
    · rfl
  rw [takeNumber?_eq spelt, whole]
  simp [takeFraction?_chars spelt ends, takeExponent?_chars spelt ends]

end

end Number

theorem Number.starts {n : Number} (spelt : n.Spelt) :
    ∃ byte after, n.render = byte :: after ∧ (byte = '-'.toUInt8 ∨ isDigitByte byte = true) := by
  obtain ⟨c, more, whole⟩ := List.exists_cons_of_ne_nil spelt.some
  have digit := (digit_byte (spelt.whole c (by simp [whole]))).1
  rw [render_eq, whole]
  cases n.negative with
  | true => exact ⟨_, _, rfl, .inl rfl⟩
  | false => exact ⟨_, _, rfl, .inr digit⟩

theorem number_byte {byte : UInt8} (first : byte = '-'.toUInt8 ∨ isDigitByte byte = true) :
    isSpace byte = false ∧ byte ∉ ascii ['n', 't', 'f', '"', '[', '{', ']'] := by
  have bytes : ∀ byte : UInt8, byte = '-'.toUInt8 ∨ isDigitByte byte = true →
      isSpace byte = false ∧ byte ∉ ascii ['n', 't', 'f', '"', '[', '{', ']'] :=
    all_bytes (by decide +kernel)
  exact bytes byte first

theorem skipSpace_cons {byte : UInt8} (filled : isSpace byte = false) (rest : List UInt8) :
    skipSpace (byte :: rest) = byte :: rest := by
  simp [skipSpace, filled]

theorem afterByte?_cons {mark : Char} (filled : isSpace mark.toUInt8 = false) (rest : List UInt8) :
    afterByte? mark (mark.toUInt8 :: rest) = some rest := by
  simp [afterByte?, skipSpace_cons filled]

theorem takeValue?_quote (fuel : Nat) (text : List UInt8) :
    takeValue? (fuel + 1) ('"'.toUInt8 :: text) =
      (takeString? text).map fun taken => (.string taken.1, taken.2) := rfl

theorem takeValue?_bracket (fuel : Nat) (text : List UInt8) :
    takeValue? (fuel + 1) ('['.toUInt8 :: text) = match afterByte? ']' text with
      | some rest => some (.array [], rest)
      | none => (takeItems? fuel text).map fun taken => (.array taken.1, taken.2) := rfl

theorem takeValue?_brace (fuel : Nat) (text : List UInt8) :
    takeValue? (fuel + 1) ('{'.toUInt8 :: text) = match afterByte? '}' text with
      | some rest => some (.object [], rest)
      | none => (takeMembers? fuel text).map fun taken => (.object taken.1, taken.2) := rfl

theorem takeValue?_number {n : Number} (spelt : n.Spelt) (fuel : Nat) (rest : List UInt8) :
    takeValue? (fuel + 1) (n.render ++ rest) =
      (takeNumber? (n.render ++ rest)).map fun taken => (.number taken.1, taken.2) := by
  obtain ⟨byte, after, same, first⟩ := Number.starts spelt
  obtain ⟨filled, free⟩ := number_byte first
  simp only [ascii, List.map_cons, List.map_nil, List.mem_cons, List.not_mem_nil, or_false,
    not_or] at free
  rw [same, List.cons_append, takeValue?, skipSpace_cons filled]
  simp [free]

mutual

def WellFormed : Json → Prop
  | null => True
  | bool _ => True
  | number value => value.Spelt ∧ value.Leads
  | string written => ∃ bytes, written = escape bytes
  | array items => WellFormedItems items
  | object members => WellFormedMembers members

def WellFormedItems : List Json → Prop
  | [] => True
  | item :: items => item.WellFormed ∧ WellFormedItems items

def WellFormedMembers : List (List UInt8 × Json) → Prop
  | [] => True
  | (name, value) :: members =>
      (∃ bytes, name = escape bytes) ∧ value.WellFormed ∧ WellFormedMembers members

end

theorem starts {json : Json} (wellFormed : json.WellFormed) :
    ∃ byte after, json.render = byte :: after ∧ isSpace byte = false ∧ byte ≠ ']'.toUInt8 := by
  cases json with
  | null => exact ⟨_, _, rfl, by decide, by decide⟩
  | bool value => cases value <;> exact ⟨_, _, rfl, by decide, by decide⟩
  | number value =>
      obtain ⟨byte, after, same, first⟩ := Number.starts wellFormed.1
      obtain ⟨filled, free⟩ := number_byte first
      refine ⟨byte, after, same, filled, ?_⟩
      rintro rfl
      exact free (by decide)
  | string written => exact ⟨_, _, rfl, by decide, by decide⟩
  | array items => exact ⟨_, _, rfl, by decide, by decide⟩
  | object members => exact ⟨_, _, rfl, by decide, by decide⟩

theorem starts_items {items : List Json} (wellFormed : WellFormedItems items) (some : items ≠ []) :
    ∃ byte after, renderItems items = byte :: after ∧ isSpace byte = false ∧
      byte ≠ ']'.toUInt8 := by
  match items with
  | [] => contradiction
  | [item] => exact starts wellFormed.1
  | item :: next :: items =>
      obtain ⟨byte, after, same, free⟩ := starts wellFormed.1
      exact ⟨byte, _, by rw [renderItems, same]; rfl; simp, free⟩

theorem starts_members {members : List (List UInt8 × Json)} (some : members ≠ []) :
    ∃ after, renderMembers members = '"'.toUInt8 :: after := by
  match members with
  | [] => contradiction
  | [_] => exact ⟨_, rfl⟩
  | _ :: _ :: _ => exact ⟨_, rfl⟩

mutual

theorem takeValue?_render : (json : Json) → json.WellFormed → (fuel : Nat) → (rest : List UInt8) →
    json.render.length ≤ fuel → Ends rest →
      takeValue? (fuel + 1) (json.render ++ rest) = some (json, rest)
  | .null, _, fuel, rest, _, _ => rfl
  | .bool true, _, fuel, rest, _, _ => rfl
  | .bool false, _, fuel, rest, _, _ => rfl
  | .number n, wellFormed, fuel, rest, _, ends => by
      rw [render, takeValue?_number wellFormed.1,
        Number.takeNumber?_render wellFormed.1 ends wellFormed.2]
      rfl
  | .string written, wellFormed, fuel, rest, _, _ => by
      obtain ⟨bytes, rfl⟩ := wellFormed
      have text : (string (escape bytes)).render ++ rest =
          '"'.toUInt8 :: (escape bytes ++ '"'.toUInt8 :: rest) := by
        simp [render, quoted]
      rw [text, takeValue?_quote, takeString?_escape]
      rfl
  | .array items, wellFormed, fuel, rest, enough, _ => by
      have text : (array items).render ++ rest =
          '['.toUInt8 :: (renderItems items ++ ']'.toUInt8 :: rest) := by
        simp [render]
      rw [text, takeValue?_bracket]
      by_cases filled : items = []
      · subst filled
        rfl
      · have size : (array items).render.length = (renderItems items).length + 2 := by simp [render]
        have taken := takeItems?_render items wellFormed filled fuel rest (by omega)
        obtain ⟨byte, after, same, blank, open_⟩ := starts_items wellFormed filled
        have more : afterByte? ']' (renderItems items ++ ']'.toUInt8 :: rest) = none := by
          rw [same, afterByte?, List.cons_append, skipSpace_cons blank]
          exact if_neg open_
        simp [more, taken]
  | .object members, wellFormed, fuel, rest, enough, _ => by
      have text : (object members).render ++ rest =
          '{'.toUInt8 :: (renderMembers members ++ '}'.toUInt8 :: rest) := by
        simp [render]
      rw [text, takeValue?_brace]
      by_cases filled : members = []
      · subst filled
        rfl
      · have size : (object members).render.length = (renderMembers members).length + 2 := by
          simp [render]
        have taken := takeMembers?_render members wellFormed filled fuel rest (by omega)
        have more : afterByte? '}' (renderMembers members ++ '}'.toUInt8 :: rest) = none := by
          obtain ⟨after, same⟩ := starts_members filled
          rw [same]
          rfl
        simp [more, taken]

theorem takeItems?_render : (items : List Json) → WellFormedItems items → items ≠ [] →
    (fuel : Nat) → (rest : List UInt8) → (renderItems items).length + 2 ≤ fuel →
      takeItems? fuel (renderItems items ++ ']'.toUInt8 :: rest) = some (items, rest)
  | [], _, filled, _, _, _ => absurd rfl filled
  | [item], wellFormed, _, fuel + 2, rest, enough => by
      have bound : item.render.length ≤ fuel := Nat.le_of_add_le_add_right enough
      rw [renderItems, takeItems?,
        takeValue?_render item wellFormed.1 fuel (']'.toUInt8 :: rest) bound (by simp +decide [Ends])]
      rfl
  | item :: next :: items, wellFormed, _, fuel + 2, rest, enough => by
      have size : (renderItems (item :: next :: items)).length =
          item.render.length + ((renderItems (next :: items)).length + 1) := by
        simp [renderItems]
      have text : renderItems (item :: next :: items) ++ ']'.toUInt8 :: rest =
          item.render ++ ','.toUInt8 :: (renderItems (next :: items) ++ ']'.toUInt8 :: rest) := by
        simp [renderItems]
      have later := takeItems?_render (next :: items) wellFormed.2 (by simp) (fuel + 1) rest (by omega)
      rw [text, takeItems?, takeValue?_render item wellFormed.1 fuel _ (by omega)
        (by simp +decide [Ends])]
      show ((takeItems? (fuel + 1) (renderItems (next :: items) ++ ']'.toUInt8 :: rest)).map _) = _
      rw [later]
      rfl

theorem takeMembers?_render : (members : List (List UInt8 × Json)) → WellFormedMembers members →
    members ≠ [] → (fuel : Nat) → (rest : List UInt8) →
    (renderMembers members).length + 2 ≤ fuel →
      takeMembers? fuel (renderMembers members ++ '}'.toUInt8 :: rest) = some (members, rest)
  | [], _, filled, _, _, _ => absurd rfl filled
  | [(name, value)], wellFormed, _, fuel + 2, rest, enough => by
      obtain ⟨⟨bytes, rfl⟩, valued, -⟩ := wellFormed
      rw [renderMembers, List.length_append, List.length_cons] at enough
      have text : renderMembers [(escape bytes, value)] ++ '}'.toUInt8 :: rest =
          '"'.toUInt8 :: (escape bytes ++ '"'.toUInt8 :: ':'.toUInt8 ::
            (value.render ++ '}'.toUInt8 :: rest)) := by
        simp [renderMembers, quoted]
      have taken := takeValue?_render value valued fuel ('}'.toUInt8 :: rest) (by omega)
        (by simp +decide [Ends])
      rw [text, takeMembers?, afterByte?_cons (by decide), Option.bind_some, takeString?_escape]
      simp only [afterByte?_cons (show isSpace ':'.toUInt8 = false by decide), Option.bind_some, taken]
      rfl
  | (name, value) :: next :: members, wellFormed, _, fuel + 2, rest, enough => by
      obtain ⟨⟨bytes, rfl⟩, valued, more⟩ := wellFormed
      have size : value.render.length + (renderMembers (next :: members)).length + 4 ≤
          (renderMembers ((escape bytes, value) :: next :: members)).length := by
        simp [renderMembers, quoted]
        omega
      have text : renderMembers ((escape bytes, value) :: next :: members) ++ '}'.toUInt8 :: rest =
          '"'.toUInt8 :: (escape bytes ++ '"'.toUInt8 :: ':'.toUInt8 :: (value.render ++
            ','.toUInt8 :: (renderMembers (next :: members) ++ '}'.toUInt8 :: rest))) := by
        simp [renderMembers, quoted]
      have taken := takeValue?_render value valued fuel
        (','.toUInt8 :: (renderMembers (next :: members) ++ '}'.toUInt8 :: rest)) (by omega)
        (by simp +decide [Ends])
      have later := takeMembers?_render (next :: members) more (by simp) (fuel + 1) rest (by omega)
      rw [text, takeMembers?, afterByte?_cons (by decide), Option.bind_some, takeString?_escape]
      simp only [afterByte?_cons (show isSpace ':'.toUInt8 = false by decide), Option.bind_some, taken,
        afterByte?_cons (show isSpace ','.toUInt8 = false by decide), later]
      rfl

end

theorem read?_render {json : Json} (wellFormed : json.WellFormed) :
    read? json.render = some json := by
  have taken := takeValue?_render json wellFormed json.render.length [] (Nat.le_refl _) ends_nil
  rw [List.append_nil] at taken
  rw [read?, taken]
  rfl

end Json

end RecordLinkage
