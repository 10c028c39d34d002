import RecordLinkage.Journal.Frame
import RecordLinkage.Proofs.Decimal.Shortest
import RecordLinkage.Proofs.Json.Trees
import RecordLinkage.Proofs.Time.Rfc3339

/-! Stored values are read back from their text. For a double this is an assumption about the double,
since reading may be off by a last place; everything else always is. -/

namespace RecordLinkage

namespace Json

theorem wellFormed_items {items : List Json} (all : ∀ item ∈ items, item.WellFormed) :
    (array items).WellFormed := by
  show WellFormedItems items
  induction items with
  | nil => trivial
  | cons item items ih =>
      exact ⟨all item (.head _), ih fun other listed => all other (.tail _ listed)⟩

theorem wellFormed_record {members : List (String × Json)}
    (all : ∀ member ∈ members, member.2.WellFormed) : (ofRecord members).WellFormed := by
  show WellFormedMembers (members.map fun member => (escape (utf8 member.1), member.2))
  induction members with
  | nil => trivial
  | cons member members ih =>
      exact ⟨⟨_, rfl⟩, all member (.head _), ih fun other listed => all other (.tail _ listed)⟩

theorem wellFormed_ofText (text : String) : (ofText text).WellFormed := ⟨_, rfl⟩

theorem wellFormed_natural (negative : Bool) (n : Nat) :
    (number ⟨negative, Nat.toDigits 10 n, [], none⟩).WellFormed := by
  refine ⟨⟨isDigit_toDigits, Nat.toDigits_ne_nil, ?_, ?_⟩, toDigits_leads n⟩
  · intro c listed
    contradiction
  · intro negative digits impossible
    contradiction

theorem isDigit_places (decimal : Decimal) :
    (∀ c ∈ decimal.places.1, c.isDigit) ∧ decimal.places.1 ≠ [] ∧
      ∀ c ∈ decimal.places.2, c.isDigit := by
  have digits : ∀ c ∈ Nat.toDigits 10 decimal.digits, c.isDigit := isDigit_toDigits
  have filled : Nat.toDigits 10 decimal.digits ≠ [] := Nat.toDigits_ne_nil
  have zeros (count : Nat) : ∀ c ∈ List.replicate count '0', c.isDigit := by
    intro c listed
    rw [List.eq_of_mem_replicate listed]
    decide
  unfold Decimal.places
  split
  · refine ⟨fun c listed => ?_, by simp [filled], by simp⟩
    exact (List.mem_append.mp listed).elim (digits c) (zeros _ c)
  · simp only
    split
    · rename_i short
      refine ⟨fun c listed => digits c (List.mem_of_mem_take listed), ?_,
        fun c listed => digits c (List.mem_of_mem_drop listed)⟩
      intro none
      have length := congrArg List.length none
      simp only [List.length_take, List.length_nil] at length
      omega
    · refine ⟨by simp +decide, by simp, fun c listed => ?_⟩
      exact (List.mem_append.mp listed).elim (zeros _ c) (digits c)

theorem Number.spelt_ofFinite (value : Double) : (Number.ofFinite value).Spelt := by
  have digits (n : Nat) : ∀ c ∈ Nat.toDigits 10 n, c.isDigit := isDigit_toDigits
  unfold Number.ofFinite
  simp only
  split
  · obtain ⟨whole, filled, fraction⟩ := isDigit_places (.shortest .even value)
    refine ⟨whole, filled, fun c listed => ?_, fun negative digits impossible => by contradiction⟩
    simp only at listed
    split at listed
    · rw [List.mem_singleton.mp listed]
      decide
    · exact fraction c listed
  · refine ⟨fun c listed => digits _ c (List.mem_of_mem_take listed), ?_,
      fun c listed => digits _ c (List.mem_of_mem_drop listed), ?_⟩
    · simp [Nat.toDigits_ne_nil]
    · intro negative exponent same
      simp only [Option.some.injEq, Prod.mk.injEq] at same
      rw [← same.2]
      exact ⟨Nat.toDigits_ne_nil, digits _⟩

theorem places_leads {decimal : Decimal} (leads : 0 < decimal.digits ∨ decimal = ⟨0, 0⟩) (c : Char)
    (more : List Char) : decimal.places.1 ≠ '0' :: c :: more := by
  rcases leads with positive | rfl
  · have first := head?_toDigits positive
    have filled : Nat.toDigits 10 decimal.digits ≠ [] := Nat.toDigits_ne_nil
    intro same
    unfold Decimal.places at same
    split at same
    · apply first
      have front := congrArg List.head? same
      simpa [List.head?_append, Option.or_of_isSome, filled] using front
    · simp only at same
      split at same
      · rename_i short
        apply first
        have front := congrArg List.head? same
        rwa [List.head?_take, if_neg (by omega)] at front
      · simp at same
  · simp [Decimal.places]

theorem Number.leads_ofFinite {value : Double} (finite : value.isFinite) :
    (Number.ofFinite value).Leads := by
  have shortest := Decimal.shortest_pos finite .even
  intro c more
  unfold Number.ofFinite
  simp only
  split
  · exact places_leads shortest c more
  · intro same
    have length := congrArg List.length same
    simp only [List.length_take, List.length_cons] at length
    omega

theorem wellFormed_ofDouble (value : Double) : (ofDouble value).WellFormed := by
  unfold ofDouble
  split
  · rename_i finite
    exact ⟨Number.spelt_ofFinite value, Number.leads_ofFinite finite⟩
  · trivial

theorem readMembers?_escape (members : List (String × Json)) :
    readMembers? (members.map fun member => (escape (utf8 member.1), member.2)) = some members := by
  induction members with
  | nil => rfl
  | cons member members ih =>
      rw [readMembers?] at ih ⊢
      simp [readText?_escape, ih]

theorem filter_named {members : List (String × Json)} (distinct : (members.map Prod.fst).Nodup)
    {member : String × Json} (listed : member ∈ members) :
    members.filter (fun other => other.1 = member.1) = [member] := by
  induction members with
  | nil => contradiction
  | cons first members ih =>
      obtain ⟨fresh, distinct⟩ := List.nodup_cons.mp distinct
      rcases List.mem_cons.mp listed with rfl | later
      · have others : members.filter (fun other => other.1 = member.1) = [] := by
          refine List.filter_eq_nil_iff.mpr fun other found same => fresh ?_
          rw [← of_decide_eq_true same]
          exact List.mem_map_of_mem found
        rw [List.filter_cons_of_pos (by simp), others]
      · have differs : first.1 ≠ member.1 := by
          intro same
          rw [same] at fresh
          exact fresh (List.mem_map_of_mem later)
        rw [List.filter_cons_of_neg (by simpa using differs), ih distinct later]

theorem mapM_memberNamed? {members part : List (String × Json)}
    (named : ∀ member ∈ part, memberNamed? members member.1 = some (some member.2)) :
    (part.map Prod.fst).mapM (memberNamed? members) = some (part.map fun member => some member.2) := by
  induction part with
  | nil => rfl
  | cons member part ih =>
      simp [named member (.head _), ih fun other listed => named other (.tail _ listed)]

/-- An object with distinct names gives its fields in their order. -/
theorem record?_ofRecord {members : List (String × Json)} {names : List String}
    (named : members.map Prod.fst = names) (distinct : names.Nodup) :
    record? names (ofRecord members) = some (members.map fun member => some member.2) := by
  subst names
  rw [ofRecord, record?, readMembers?_escape, Option.bind_some]
  refine mapM_memberNamed? fun member listed => ?_
  rw [memberNamed?, filter_named distinct listed]

theorem int?_ofInt (i : Int) : (ofInt i).int? = some i := by
  simp only [ofInt, int?, Number.integer?, Nat.ofDigitChars_ten_toDigits, and_self, if_true,
    decide_eq_true_eq]
  split
  · rw [if_neg (by omega)]
    congr 1
    omega
  · congr 1
    omega

theorem int?_ofNat (n : Nat) : (ofNat n).int? = some (n : Int) := by
  simp [ofNat, int?, Number.integer?, Nat.ofDigitChars_ten_toDigits]

theorem signed64?_ofInt {i : Int} (low : -2 ^ 63 ≤ i) (high : i ≤ 2 ^ 63 - 1) : (ofInt i).signed64? = some i := by
  rw [signed64?, intWithin?, int?_ofInt, Option.filter_some, if_pos (by simp; omega)]

theorem natUpTo?_ofNat {n high : Nat} (fits : n ≤ high) : (ofNat n).natUpTo? high = some n := by
  rw [natUpTo?, intWithin?, int?_ofNat, Option.filter_some, if_pos (by simp; omega)]
  rfl

end Json

namespace Form

structure Exact {α : Type} [Form α] (value : α) : Prop where
  wellFormed : (toJson value).WellFormed
  back : ofJson? (toJson value) = some value

section

variable {α : Type} [Form α]

theorem Exact.read?_write {value : α} (exact : Exact value) : read? (write value) = some value := by
  rw [read?, write, Json.read?_render exact.wellFormed]
  exact exact.back

theorem Exact.required {value : α} (exact : Exact value) :
    required? (some (toJson value)) = some value := exact.back

theorem exact_list {values : List α} (all : ∀ value ∈ values, Exact value) : Exact values := by
  refine ⟨Json.wellFormed_items ?_, ?_⟩
  · intro item listed
    obtain ⟨value, valued, rfl⟩ := List.mem_map.mp listed
    exact (all value valued).wellFormed
  · show (values.map toJson).mapM ofJson? = some values
    induction values with
    | nil => rfl
    | cons value values ih =>
        have later := ih fun other listed => all other (.tail _ listed)
        simp [(all value (.head _)).back, later]

end

theorem exact_bool (value : Bool) : Exact value := ⟨trivial, rfl⟩

theorem exact_id (id : Id) : Exact id := by
  refine ⟨Json.wellFormed_ofText _, ?_⟩
  show ((Json.ofText id.text).text?).bind Id.read? = some id
  rw [Json.text?_ofText, Option.bind_some, Id.read?_text]

theorem exact_instant (instant : Instant) : Exact instant := by
  refine ⟨Json.wellFormed_ofText _, ?_⟩
  show ((Json.ofText instant.text).text?).bind Instant.read? = some instant
  rw [Json.text?_ofText, Option.bind_some, Instant.read?_text]

theorem exact_int64 (value : Int64) : Exact value := by
  refine ⟨Json.wellFormed_natural _ _, ?_⟩
  show (Json.signed64? (Json.ofInt value.toInt)).map Int64.ofInt = some value
  rw [Json.signed64?_ofInt value.le_toInt (Int.le_sub_one_of_lt value.toInt_lt)]
  simp

theorem exact_word (word : UInt64) : Exact word := by
  refine ⟨Json.wellFormed_natural _ _, ?_⟩
  show (Json.word64? (Json.ofNat word.toNat)).map Nat.toUInt64 = some word
  rw [Json.word64?, Json.natUpTo?_ofNat (Nat.le_sub_one_of_lt word.toNat_lt)]
  simp

theorem exact_double {value : Double} (back : (read? (write value) : Option Double) = some value) :
    Exact value := by
  have whole : (toJson value).WellFormed := Json.wellFormed_ofDouble value
  rw [read?, write, Json.read?_render whole] at back
  exact ⟨whole, back⟩

theorem exact_entity (entity : EntityKey) : Exact entity := by
  refine ⟨Json.wellFormed_record ?_, ?_⟩
  · simp [(exact_id _).wellFormed]
  · refine Option.bind_eq_some_iff.mpr ⟨_, Json.record?_ofRecord rfl (by decide), ?_⟩
    simp [(exact_id _).required]

theorem exact_pair (pair : EntityPair) : Exact pair := by
  refine ⟨Json.wellFormed_record ?_, ?_⟩
  · simp [(exact_entity _).wellFormed]
  · refine Option.bind_eq_some_iff.mpr ⟨_, Json.record?_ofRecord rfl (by decide), ?_⟩
    simp [(exact_entity _).required, EntityPair.of, pair.ordered]

end Form

end RecordLinkage
