import Mathlib.Data.List.Dedup
import RecordLinkage.Proofs.Ascending
import RecordLinkage.Value.Hashing

/-! The order of values is total, and it is in step with their equality and their hashing: what it does not tell
apart is one value, and gives a hasher the same. So sets of values, ordered or hashed, have each value that was put
into them just once. -/

namespace RecordLinkage

theorem utf8_inj {left right : String} (same : utf8 left = utf8 right) : left = right := by
  have read := ofUtf8?_utf8 right
  rw [← same, ofUtf8?_utf8] at read
  exact Option.some.inj read

/-- The elements of a set that lists each of some elements once. -/
theorem perm_dedup {α : Type} [DecidableEq α] {list elements : List α} (nodup : list.Nodup)
    (same : ∀ element, element ∈ list ↔ element ∈ elements) : list.Perm elements.dedup :=
  (List.perm_ext_iff_of_nodup nodup elements.nodup_dedup).mpr fun element => by rw [same, List.mem_dedup]

/-- Doubles that differ as numbers come in the order of the numbers. -/
theorem Double.compare_of_lt {a b : Double} (less : a.lt b) : compare a b = .lt := by
  have line : a.lineKey < b.lineKey := by
    simp only [lt, Bool.and_eq_true, decide_eq_true_eq] at less
    exact less.2
  refine Int.compare_eq_lt.mpr ?_
  -- Below zero the two keys differ by one, so that only the zeros change places.
  simp only [lineKey] at line
  simp only [orderKey]
  cases left : a.negative <;> cases right : b.negative <;>
    simp only [left, right, Bool.false_eq_true, if_false, if_true] at line ⊢ <;> omega

namespace Value

variable {a b : Value} {ofInstant : Instant → List HashInput}

theorem order_eq_iff : order a b = .eq ↔ a = b := by
  change compare a b = .eq ↔ a = b
  exact Std.LawfulEqOrd.compare_eq_iff_eq

theorem equal_iff : a.equal b ↔ a = b := by
  rw [equal, decide_eq_true_iff, order_eq_iff]

theorem order_total (a b : Value) : (order a b).isLE ∨ (order b a).isLE := by
  rw [order_swap b a]
  cases order a b <;> simp

theorem order_antisymm (below : (order a b).isLE) (above : (order b a).isLE) : a = b := by
  rw [order_swap b a] at above
  cases outcome : order a b with
  | eq => exact order_eq_iff.mp outcome
  | lt => simp [outcome] at above
  | gt => simp [outcome] at below

theorem order_ne_of_rank (differ : a.rank ≠ b.rank) : order a b ≠ .eq := by
  intro same
  exact differ (congrArg rank (order_eq_iff.mp same))

theorem rank_lt (value : Value) : value.rank < 6 := by
  cases value <;> simp [rank]

theorem rank_of_hashInput (same : a.hashInput ofInstant = b.hashInput ofInstant) : a.rank = b.rank := by
  have bytes := congrArg UInt8.toNat (HashInput.byte.inj (List.cons.inj same).1)
  have left := a.rank_lt
  have right := b.rank_lt
  rwa [UInt8.toNat_ofNat_of_lt' (Nat.lt_trans left (by decide)),
    UInt8.toNat_ofNat_of_lt' (Nat.lt_trans right (by decide))] at bytes

/-- A hasher is given different data for different values, as far as the calendar tells instants apart. -/
theorem eq_of_hashInput (same : a.hashInput ofInstant = b.hashInput ofInstant) :
    a = b ∨ ∃ left right, a = .instant left ∧ b = .instant right ∧ ofInstant left = ofInstant right := by
  have kinds := rank_of_hashInput same
  have payloads := (List.cons.inj same).2
  cases a <;> cases b <;> simp only [rank] at kinds <;> try omega
  case text.text left right =>
    exact .inl (congrArg text (utf8_inj (HashInput.bytes.inj (List.cons.inj payloads).1)))
  case int.int left right => exact .inl (congrArg int (HashInput.int.inj (List.cons.inj payloads).1))
  case double.double left right =>
    have bits := HashInput.word.inj (List.cons.inj payloads).1
    cases left
    exact .inl (congrArg (double ⟨·⟩) bits)
  case bool.bool left right =>
    have bytes := HashInput.byte.inj (List.cons.inj payloads).1
    have same : left = right := by
      cases left <;> cases right <;> first | rfl | exact absurd bytes (by decide)
    exact .inl (congrArg bool same)
  case instant.instant left right => exact .inr ⟨left, right, rfl, rfl, payloads⟩
  case binary.binary left right =>
    have bytes := (List.cons.inj payloads).2
    exact .inl (congrArg binary (HashInput.bytes.inj (List.cons.inj bytes).1))

end Value

theorem ValueSet.toList_ofList_perm (values : List Value) :
    (Std.ExtTreeSet.ofList values : ValueSet).toList.Perm values.dedup := by
  refine perm_dedup (ascending_elements _).nodup fun value => ?_
  rw [Std.ExtTreeSet.mem_toList, Std.ExtTreeSet.mem_ofList, List.contains_iff_mem]

namespace HashedValue

variable {ofInstant : Instant → List HashInput} {digest : List HashInput → UInt64}

theorem value_inj {a b : HashedValue ofInstant digest} (same : a.value = b.value) : a = b := by
  cases a
  exact congrArg mk same

instance : LawfulBEq (HashedValue ofInstant digest) where
  rfl := Value.equal_iff.mpr rfl
  eq_of_beq same := value_inj (Value.equal_iff.mp same)

theorem mem_table {values : List Value} {key : HashedValue ofInstant digest} :
    key ∈ table ofInstant digest values ↔ key.value ∈ values := by
  rw [table, Std.HashSet.mem_ofList, List.contains_iff_mem, List.mem_map]
  exact ⟨fun ⟨value, listed, same⟩ => same ▸ listed, fun listed => ⟨key.value, listed, rfl⟩⟩

theorem toList_table_perm (values : List Value) :
    ((table ofInstant digest values).toList.map value).Perm values.dedup := by
  refine perm_dedup ?_ fun element => ?_
  · have distinct : (table ofInstant digest values).toList.Pairwise fun a b => (a == b) = false :=
      Std.HashSet.distinct_toList
    refine List.pairwise_map.mpr (distinct.imp fun {a b} differ same => ?_)
    rw [value_inj same, beq_self_eq_true] at differ
    cases differ
  · rw [List.mem_map]
    constructor
    · rintro ⟨key, listed, rfl⟩
      exact mem_table.mp (Std.HashSet.mem_toList.mp listed)
    · exact fun listed => ⟨⟨element⟩, Std.HashSet.mem_toList.mpr (mem_table.mpr listed), rfl⟩

end HashedValue

namespace Value

/-- The order of values is total, and two values that it does not tell apart are of one kind and one payload, of
doubles the bits; other doubles are in the order of numbers if they are in any. Equality follows the order. What a
hasher is given is the same for equal values and differs for others. An ordered set and a hash table of some values,
whatever its hash function, have each of them once. -/
theorem lawfully_ordered (ofInstant : Instant → List HashInput) (digest : List HashInput → UInt64) :
    (∀ a b, order a b = (order b a).swap) ∧
    (∀ a b, (order a b).isLE → (order b a).isLE → a = b) ∧
    (∀ a b c, (order a b).isLE → (order b c).isLE → (order a c).isLE) ∧
    (∀ a b, (order a b).isLE ∨ (order b a).isLE) ∧
    (∀ a b : Value, a.rank ≠ b.rank → order a b ≠ .eq) ∧
    (∀ a b, order a b = .eq ↔ a = b) ∧
    (∀ a b : Double, (order (.double a) (.double b) = .eq ↔ a.bits = b.bits) ∧
      (a.lt b → order (.double a) (.double b) = .lt)) ∧
    (∀ a b, order? a b = some (order a b) ∧ (a.equal b ↔ order? a b = some .eq)) ∧
    (∀ a b, order a b = .eq → a.hashInput ofInstant = b.hashInput ofInstant) ∧
    (∀ a b, a.hashInput ofInstant = b.hashInput ofInstant → order a b = .eq ∨
      ∃ left right, a = .instant left ∧ b = .instant right ∧ ofInstant left = ofInstant right) ∧
    ∀ values : List Value, (Std.ExtTreeSet.ofList values : ValueSet).toList.Perm values.dedup ∧
      ((HashedValue.table ofInstant digest values).toList.map HashedValue.value).Perm values.dedup := by
  refine ⟨order_swap, fun _ _ => order_antisymm, fun _ _ _ => order_trans, order_total, fun _ _ => order_ne_of_rank,
    fun _ _ => order_eq_iff, ?_, ?_, ?_, ?_, ?_⟩
  · intro a b
    refine ⟨?_, Double.compare_of_lt⟩
    rw [order_eq_iff, double.injEq, Double.mk.injEq]
  · intro a b
    refine ⟨rfl, ?_⟩
    rw [order?, Option.some.injEq, equal_iff, order_eq_iff]
  · intro a b same
    rw [order_eq_iff.mp same]
  · intro a b same
    rw [order_eq_iff]
    exact eq_of_hashInput same
  · exact fun values => ⟨ValueSet.toList_ofList_perm values, HashedValue.toList_table_perm values⟩

end Value

namespace Sample

def newYearsEve (nano : Nat) (fits : nano < 2 * 10 ^ 9) : Instant :=
  ⟨⟨2016, 12, 31, by decide, by decide, by decide⟩, 86399, nano, ⟨by decide, .inr ⟨fits, rfl⟩⟩⟩

def lookalikes : List Value :=
  [.double .nan, .double .invalid, .double ⟨0x7ff8000000000001⟩, .double .nan, .double .zero,
    .double Double.zero.negate, .double .zero, .int 0, .bool false, .text "0", .int 0,
    .instant (newYearsEve 1500000000 (by decide)), .instant (newYearsEve 500000000 (by decide)),
    .instant (newYearsEve 1500000000 (by decide)), .text "", .binary [], .binary []]

/-- Also in a table in which all keys collide. -/
theorem lawfully_ordered_lookalikes : lookalikes.length = 17 ∧
    (Std.ExtTreeSet.ofList lookalikes : ValueSet).toList.length = 12 ∧
    (HashedValue.table (fun _ => []) (fun _ => 0) lookalikes).toList.length = 12 := by
  obtain ⟨_, _, _, _, _, _, _, _, _, _, sets⟩ := Value.lawfully_ordered (fun _ => []) (fun _ => 0)
  have distinct : lookalikes.dedup.length = 12 := by decide +kernel
  refine ⟨rfl, (sets lookalikes).1.length_eq.trans distinct, ?_⟩
  rw [← List.length_map (f := HashedValue.value), (sets lookalikes).2.length_eq, distinct]

end Sample

end RecordLinkage
