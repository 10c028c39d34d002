import RecordLinkage.Config
import RecordLinkage.Index
import RecordLinkage.Proofs.Decimal.Finite
import RecordLinkage.Proofs.Store.Changes

/-! Once a row is read, it does not matter from which text: whether from an object in any order or from an array,
with fields left out or unknown ones, with ids and times in any spelling. Its own text is read as the same row.
Only the digits of a double are in doubt, and a double that is read is finite. -/

namespace RecordLinkage

theorem Json.openRecord?_ofRecord {members : List (String × Json)} {names : List String}
    (named : members.map Prod.fst = names) (distinct : names.Nodup) :
    openRecord? names (ofRecord members) = some (members.map fun member => some member.2) :=
  record?_ofRecord named distinct

theorem Json.ofText_ne_null (text : String) : ofText text ≠ .null := nofun

namespace Form

section

variable {α : Type} [Form α] {value default : α} {field : Option Json}

def Accepted (value : α) : Prop := ∃ json, ofJson? json = some value

theorem Exact.accepted (exact : Exact value) : Accepted value := ⟨_, exact.back⟩

theorem accepted_of_required (read : required? field = some value) : Accepted value := by
  obtain ⟨json, _, read⟩ := Option.bind_eq_some_iff.mp read
  exact ⟨json, read⟩

theorem accepted_of_defaulted (known : Accepted default) (read : defaulted? default field = some value) :
    Accepted value := by
  cases field with
  | none => exact Option.some.inj read ▸ known
  | some json => exact ⟨json, read⟩

theorem optional?_ofOption {option : Option α} (exact : ∀ value : α, Exact value)
    (filled : ∀ value : α, toJson value ≠ .null) : optional? (some (ofOption option)) = some option := by
  cases option with
  | none => rfl
  | some value =>
      have inner : optional? (some (toJson value)) = (ofJson? (toJson value) : Option α).map some := by
        unfold optional?
        split
        · contradiction
        · rename_i null
          exact (filled value (Option.some.inj null)).elim
        · rename_i same
          rw [Option.some.inj same]
      exact inner.trans (by rw [(exact value).back]; rfl)

/-- Whatever text a value is read from, its own text is read as the same value, if the digits of the finite
doubles in it are read as these. -/
def ReadAgain (α : Type) [Form α] (doubles : α → List Double) : Prop :=
  ∀ text (value : α), read? text = some value →
    (∀ double ∈ doubles value, double.isFinite → (read? (write double) : Option Double) = some double) →
    read? (write value) = some value

theorem readAgain_of_exact {doubles : α → List Double} (exact : ∀ value : α, Accepted value →
    (∀ double ∈ doubles value, double.isFinite → (read? (write double) : Option Double) = some double) →
    Exact value) : ReadAgain α doubles := by
  intro text value read back
  obtain ⟨json, _, accepted⟩ := Option.bind_eq_some_iff.mp read
  exact (exact value ⟨json, accepted⟩ back).read?_write

end

theorem lt_of_accepted {n : Nat} (accepted : Accepted n) : n < 2 ^ 64 := by
  obtain ⟨json, read⟩ := accepted
  obtain ⟨i, found, rfl⟩ := Option.map_eq_some_iff.mp read
  have bounds := (Option.filter_eq_some_iff.mp found).2
  simp at bounds
  omega

theorem exact_nat {n : Nat} (fits : n < 2 ^ 64) : Exact n := by
  exact ⟨Json.wellFormed_natural _ _, Json.natUpTo?_ofNat (Nat.le_sub_one_of_lt fits)⟩

theorem isFinite_of_accepted {value : Double} (accepted : Accepted value) : value.isFinite := by
  obtain ⟨json, read⟩ := accepted
  cases json with
  | number n => exact n.isFinite_double? read
  | _ => cases read

theorem exact_ids (ids : IdSet) : Exact ids := by
  have exact : Exact ids.toList := exact_list fun id _ => exact_id id
  refine ⟨exact.wellFormed, ?_⟩
  show (ofJson? (toJson ids.toList) : Option (List Id)).map (fun ids => Std.ExtTreeSet.ofList ids) = some ids
  rw [exact.back, Option.map_some]
  congr 1
  ext id
  simp

theorem exact_verdict (verdict : Verdict) : Exact verdict := by
  refine ⟨Json.wellFormed_ofText _, ?_⟩
  show (Json.text? (Json.ofText verdict.name)).bind Verdict.ofName? = some verdict
  rw [Json.text?_ofText, Option.bind_some]
  cases verdict <;> rfl

theorem exact_indexed (record : IndexRecord) : Exact record := by
  have cluster : optional? (some (ofOption record.cluster)) = some record.cluster :=
    optional?_ofOption exact_id fun id => Json.ofText_ne_null id.text
  have lastLink : optional? (some (ofOption record.lastLink)) = some record.lastLink :=
    optional?_ofOption exact_instant fun instant => Json.ofText_ne_null instant.text
  have wellFormed {α : Type} [Form α] (option : Option α) (exact : ∀ value : α, Exact value) :
      (ofOption option).WellFormed := by
    cases option with
    | none => trivial
    | some value => exact (exact value).wellFormed
  refine ⟨Json.wellFormed_record ?_, ?_⟩
  · simp [wellFormed _ exact_id, wellFormed _ exact_instant, (exact_instant _).wellFormed, (exact_int64 _).wellFormed]
  · refine Option.bind_eq_some_iff.mpr ⟨_, Json.record?_ofRecord rfl (by decide), ?_⟩
    simp [cluster, lastLink, (exact_instant _).required, (exact_int64 _).required]

theorem exact_matched {matched : MatchedEdge} (score : Exact matched.row.score) : Exact matched := by
  refine ⟨Json.wellFormed_record ?_, ?_⟩
  · simp [(exact_id _).wellFormed, (exact_entity _).wellFormed, score.wellFormed, (exact_instant _).wellFormed]
  · refine Option.bind_eq_some_iff.mpr ⟨_, Json.record?_ofRecord rfl (by decide), ?_⟩
    simp [(exact_id _).required, (exact_entity _).required, score.required, (exact_instant _).required]

theorem exact_summary {summary : ClusterSummary} (score : Exact summary.averageScore)
    (count : Exact summary.edgeCount) : Exact summary := by
  refine ⟨Json.wellFormed_record ?_, ?_⟩
  · simp [(exact_id _).wellFormed, score.wellFormed, count.wellFormed]
  · refine Option.bind_eq_some_iff.mpr ⟨_, Json.record?_ofRecord rfl (by decide), ?_⟩
    simp [(exact_id _).required, score.required, count.required]

theorem exact_blockSize {block : BlockSize} (size : Exact block.size) : Exact block := by
  refine ⟨Json.wellFormed_record ?_, ?_⟩
  · simp [(exact_entity _).wellFormed, size.wellFormed]
  · refine Option.bind_eq_some_iff.mpr ⟨_, Json.record?_ofRecord rfl (by decide), ?_⟩
    simp [(exact_entity _).required, size.required]

theorem exact_blocking {config : BlockingConfig} (top : Exact config.top) (buffer : Exact config.loadBuffer) :
    Exact config := by
  refine ⟨Json.wellFormed_record ?_, ?_⟩
  · simp [top.wellFormed, (exact_bool _).wellFormed, (exact_ids _).wellFormed, buffer.wellFormed]
  · refine Option.bind_eq_some_iff.mpr ⟨_, Json.openRecord?_ofRecord rfl (by decide), ?_⟩
    simp [defaulted?, top.back, (exact_bool _).back, (exact_ids _).back, buffer.back]

theorem exact_cache {config : CacheConfig} (lifetime : Exact config.feedbackLifetime)
    (capacity : Exact config.feedbackCapacity) (sets : Exact config.entitySetLifetime) : Exact config := by
  refine ⟨Json.wellFormed_record ?_, ?_⟩
  · simp [lifetime.wellFormed, capacity.wellFormed, sets.wellFormed]
  · refine Option.bind_eq_some_iff.mpr ⟨_, Json.openRecord?_ofRecord rfl (by decide), ?_⟩
    simp [defaulted?, lifetime.back, capacity.back, sets.back]

theorem exact_linking {config : LinkingConfig} (blocking : Exact config.blocking) (cache : Exact config.cache)
    (score : Exact config.minMatchScore) : Exact config := by
  refine ⟨Json.wellFormed_record ?_, ?_⟩
  · simp [blocking.wellFormed, cache.wellFormed, score.wellFormed]
  · refine Option.bind_eq_some_iff.mpr ⟨_, Json.openRecord?_ofRecord rfl (by decide), ?_⟩
    simp [defaulted?, blocking.back, cache.back, score.back]

theorem exact_default_blocking : Exact BlockingConfig.default :=
  exact_blocking (exact_nat (by decide)) (exact_nat (by decide))

theorem exact_default_cache : Exact CacheConfig.default :=
  exact_cache (exact_nat (by decide)) (exact_nat (by decide)) (exact_nat (by decide))

theorem exact_default_score : Exact LinkingConfig.defaultMinMatchScore := exact_double (by decide +kernel)

section Accepted

theorem accepted_scored {scored : ScoredEdge} (accepted : Accepted scored) : Accepted scored.score := by
  obtain ⟨json, read⟩ := accepted
  obtain ⟨fields, _, read⟩ := Option.bind_eq_some_iff.mp read
  split at read
  · simp only [Option.bind_eq_bind, Option.bind_eq_some_iff, Option.pure_def, Option.some.injEq] at read
    obtain ⟨_, _, _, _, _, _, _, found, rfl⟩ := read
    exact accepted_of_required found
  · cases read

theorem accepted_matched {matched : MatchedEdge} (accepted : Accepted matched) : Accepted matched.row.score := by
  obtain ⟨json, read⟩ := accepted
  obtain ⟨fields, _, read⟩ := Option.bind_eq_some_iff.mp read
  split at read
  · simp only [Option.bind_eq_bind, Option.bind_eq_some_iff, Option.pure_def, Option.some.injEq] at read
    obtain ⟨_, _, _, _, _, _, _, found, _, _, rfl⟩ := read
    exact accepted_of_required found
  · cases read

theorem accepted_summary {summary : ClusterSummary} (accepted : Accepted summary) :
    Accepted summary.averageScore ∧ Accepted summary.edgeCount := by
  obtain ⟨json, read⟩ := accepted
  obtain ⟨fields, _, read⟩ := Option.bind_eq_some_iff.mp read
  split at read
  · simp only [Option.bind_eq_bind, Option.bind_eq_some_iff, Option.pure_def, Option.some.injEq] at read
    obtain ⟨_, _, _, score, _, count, rfl⟩ := read
    exact ⟨accepted_of_required score, accepted_of_required count⟩
  · cases read

theorem accepted_blockSize {block : BlockSize} (accepted : Accepted block) : Accepted block.size := by
  obtain ⟨json, read⟩ := accepted
  obtain ⟨fields, _, read⟩ := Option.bind_eq_some_iff.mp read
  split at read
  · simp only [Option.bind_eq_bind, Option.bind_eq_some_iff, Option.pure_def, Option.some.injEq] at read
    obtain ⟨_, _, _, size, rfl⟩ := read
    exact accepted_of_required size
  · cases read

theorem accepted_blocking {config : BlockingConfig} (accepted : Accepted config) :
    Accepted config.top ∧ Accepted config.loadBuffer := by
  obtain ⟨json, read⟩ := accepted
  obtain ⟨fields, _, read⟩ := Option.bind_eq_some_iff.mp read
  split at read
  · simp only [Option.bind_eq_bind, Option.bind_eq_some_iff, Option.pure_def, Option.some.injEq] at read
    obtain ⟨_, top, _, _, _, _, _, buffer, rfl⟩ := read
    exact ⟨accepted_of_defaulted (exact_nat (by decide)).accepted top,
      accepted_of_defaulted (exact_nat (by decide)).accepted buffer⟩
  · cases read

theorem accepted_cache {config : CacheConfig} (accepted : Accepted config) :
    Accepted config.feedbackLifetime ∧ Accepted config.feedbackCapacity ∧ Accepted config.entitySetLifetime := by
  obtain ⟨json, read⟩ := accepted
  obtain ⟨fields, _, read⟩ := Option.bind_eq_some_iff.mp read
  split at read
  · simp only [Option.bind_eq_bind, Option.bind_eq_some_iff, Option.pure_def, Option.some.injEq] at read
    obtain ⟨_, lifetime, _, capacity, _, sets, rfl⟩ := read
    exact ⟨accepted_of_defaulted (exact_nat (by decide)).accepted lifetime,
      accepted_of_defaulted (exact_nat (by decide)).accepted capacity,
      accepted_of_defaulted (exact_nat (by decide)).accepted sets⟩
  · cases read

theorem accepted_linking {config : LinkingConfig} (accepted : Accepted config) :
    Accepted config.blocking ∧ Accepted config.cache ∧ Accepted config.minMatchScore := by
  obtain ⟨json, read⟩ := accepted
  obtain ⟨fields, _, read⟩ := Option.bind_eq_some_iff.mp read
  split at read
  · simp only [Option.bind_eq_bind, Option.bind_eq_some_iff, Option.pure_def, Option.some.injEq] at read
    obtain ⟨_, blocking, _, cache, _, score, rfl⟩ := read
    exact ⟨accepted_of_defaulted exact_default_blocking.accepted blocking,
      accepted_of_defaulted exact_default_cache.accepted cache,
      accepted_of_defaulted exact_default_score.accepted score⟩
  · cases read

end Accepted

end Form

namespace Value

open Form

def doubles : Value → List Double
  | double value => [value]
  | _ => []

def Fits : Value → Prop
  | int value => -2 ^ 63 ≤ value ∧ value ≤ 2 ^ 63 - 1
  | _ => True

theorem accepted_of_payload {kind : String} {json : Json} {value : Value} (read : ofPayload? kind json = some value) :
    value.Fits ∧ ∀ double ∈ value.doubles, double.isFinite := by
  unfold ofPayload? at read
  -- The kinds in their order; only integers and doubles could be anything that is not written.
  split at read
  case h_2 =>
    obtain ⟨i, found, rfl⟩ := Option.map_eq_some_iff.mp read
    have fits : -2 ^ 63 ≤ i ∧ i ≤ 2 ^ 63 - 1 := of_decide_eq_true (Option.filter_eq_some_iff.mp found).2
    exact ⟨fits, nofun⟩
  case h_3 =>
    obtain ⟨double, found, rfl⟩ := Option.map_eq_some_iff.mp read
    exact ⟨trivial, List.forall_mem_singleton.mpr (isFinite_of_accepted ⟨_, found⟩)⟩
  case h_6 =>
    split at read
    · obtain ⟨_, _, rfl⟩ := Option.map_eq_some_iff.mp read
      exact ⟨trivial, nofun⟩
    · cases read
  case h_7 => cases read
  all_goals
    obtain ⟨_, _, rfl⟩ := Option.map_eq_some_iff.mp read
    exact ⟨trivial, nofun⟩

theorem accepted_payload {value : Value} (accepted : Accepted value) :
    ∃ kind json, ofPayload? kind json = some value := by
  obtain ⟨json, read⟩ := accepted
  simp only [ofJson?] at read
  split at read
  · obtain ⟨kind, _, read⟩ := Option.bind_eq_some_iff.mp read
    exact ⟨kind, _, read⟩
  · obtain ⟨fields, _, read⟩ := Option.bind_eq_some_iff.mp read
    split at read
    · obtain ⟨kind, _, read⟩ := Option.bind_eq_some_iff.mp read
      exact ⟨kind, _, read⟩
    · cases read

theorem byte?_ofNat (byte : UInt8) : Json.byte? (Json.ofNat byte.toNat) = some byte := by
  rw [Json.byte?, Json.natUpTo?_ofNat (Nat.le_sub_one_of_lt byte.toNat_lt), Option.map_some]
  simp

theorem mapM_byte? (bytes : List UInt8) :
    (bytes.map fun byte => Json.ofNat byte.toNat).mapM Json.byte? = some bytes := by
  induction bytes with
  | nil => rfl
  | cons byte bytes ih => simp [byte?_ofNat, ih]

theorem exact_payload {value : Value} (fits : value.Fits) (doubles : ∀ double ∈ value.doubles, Exact double) :
    value.payload.WellFormed ∧ ofPayload? value.kindName value.payload = some value := by
  cases value with
  | text value =>
      refine ⟨Json.wellFormed_ofText _, ?_⟩
      show (Json.text? (Json.ofText value)).map text = _
      rw [Json.text?_ofText]
      rfl
  | int value =>
      refine ⟨Json.wellFormed_natural _ _, ?_⟩
      show (Json.signed64? (Json.ofInt value)).map int = _
      rw [Json.signed64?_ofInt fits.1 fits.2]
      rfl
  | double value =>
      have exact := doubles value (.head _)
      refine ⟨exact.wellFormed, ?_⟩
      show (ofJson? (toJson value)).map double = _
      rw [exact.back]
      rfl
  | bool value => exact ⟨trivial, rfl⟩
  | instant value =>
      refine ⟨(exact_instant value).wellFormed, ?_⟩
      show (ofJson? (toJson value)).map instant = _
      rw [(exact_instant value).back]
      rfl
  | binary bytes =>
      refine ⟨Json.wellFormed_items ?_, ?_⟩
      · intro item listed
        obtain ⟨byte, _, rfl⟩ := List.mem_map.mp listed
        exact Json.wellFormed_natural _ _
      · show ((bytes.map fun byte => Json.ofNat byte.toNat).mapM Json.byte?).map binary = _
        rw [mapM_byte?]
        rfl

theorem exact_value {value : Value} (fits : value.Fits) (doubles : ∀ double ∈ value.doubles, Exact double) :
    Exact value := by
  obtain ⟨wellFormed, back⟩ := exact_payload fits doubles
  refine ⟨Json.wellFormed_record ?_, ?_⟩
  · simp [wellFormed, Json.wellFormed_ofText]
  · refine Option.bind_eq_some_iff.mpr ⟨_, Json.record?_ofRecord rfl (by decide), ?_⟩
    refine Option.bind_eq_some_iff.mpr ⟨value.kindName, Json.text?_ofText _, back⟩

end Value

open Form

def EntityPair.NamedBy (json : Json) (a b : EntityKey) : Prop :=
  ∃ first second, json.record? ["first", "second"] = some [first, second] ∧ required? first = some a ∧
    required? second = some b

/-- Whichever key is named first. -/
theorem EntityPair.named_of_ofJson? {json : Json} {pair : EntityPair} (read : ofJson? json = some pair) :
    ∃ a b, NamedBy json a b ∧ pair = .of a b ∧ pair = .of b a := by
  obtain ⟨fields, members, read⟩ := Option.bind_eq_some_iff.mp read
  split at read
  · simp only [Option.bind_eq_bind, Option.bind_eq_some_iff, Option.pure_def, Option.some.injEq] at read
    obtain ⟨a, first, b, second, rfl⟩ := read
    exact ⟨a, b, ⟨_, _, members, first, second⟩, rfl, EntityPair.of_comm a b⟩
  · cases read

theorem Feedback.pair_of_ofJson? {json : Json} {row : Feedback} (read : ofJson? json = some row) :
    ∃ pair linked, json.record? ["pair", "linked"] = some [some pair, linked] ∧ ofJson? pair = some row.pair := by
  obtain ⟨fields, members, read⟩ := Option.bind_eq_some_iff.mp read
  split at read
  · simp only [Option.bind_eq_bind, Option.bind_eq_some_iff, Option.pure_def, Option.some.injEq] at read
    obtain ⟨_, pair, _, _, rfl⟩ := read
    obtain ⟨json, rfl, read⟩ := Option.bind_eq_some_iff.mp pair
    exact ⟨json, _, members, read⟩
  · cases read

/-- Whatever text a row is read from, its own text is read as the same row, as far as the digits of its finite
doubles are. A pair has its smaller key first, alone or in feedback, whichever its text names first. -/
theorem rows_read_again :
    ReadAgain EntityKey (fun _ => []) ∧ ReadAgain EntityPair (fun _ => []) ∧
    ReadAgain Feedback (fun _ => []) ∧ ReadAgain Verdict (fun _ => []) ∧ ReadAgain LogEntry (fun _ => []) ∧
    ReadAgain ScoredEdge (fun scored => [scored.score]) ∧
    ReadAgain MatchedEdge (fun matched => [matched.row.score]) ∧
    ReadAgain ClusterSummary (fun summary => [summary.averageScore]) ∧
    ReadAgain BlockSize (fun _ => []) ∧ ReadAgain IndexRecord (fun _ => []) ∧ ReadAgain Value Value.doubles ∧
    ReadAgain BlockingConfig (fun _ => []) ∧ ReadAgain CacheConfig (fun _ => []) ∧
    ReadAgain LinkingConfig (fun config => [config.minMatchScore]) ∧
    (∀ text (pair : EntityPair), read? text = some pair → (compare pair.first pair.second).isLE ∧
      ∃ json a b, Json.read? text = some json ∧ EntityPair.NamedBy json a b ∧
        pair = .of a b ∧ pair = .of b a) ∧
    ∀ text (row : Feedback), read? text = some row → (compare row.pair.first row.pair.second).isLE ∧
      ∃ json pair linked a b, Json.read? text = some json ∧
        json.record? ["pair", "linked"] = some [some pair, linked] ∧ EntityPair.NamedBy pair a b ∧
        row.pair = .of a b ∧ row.pair = .of b a := by
  have nat {n : Nat} (accepted : Accepted n) : Exact n := exact_nat (lt_of_accepted accepted)
  have blocking {config : BlockingConfig} (accepted : Accepted config) : Exact config :=
    exact_blocking (nat (accepted_blocking accepted).1) (nat (accepted_blocking accepted).2)
  have cache {config : CacheConfig} (accepted : Accepted config) : Exact config :=
    exact_cache (nat (accepted_cache accepted).1) (nat (accepted_cache accepted).2.1)
      (nat (accepted_cache accepted).2.2)
  refine ⟨?_, ?_, ?_, ?_, ?_, ?_, ?_, ?_, ?_, ?_, ?_, ?_, ?_, ?_, ?_, ?_⟩
  · exact readAgain_of_exact fun entity _ _ => exact_entity entity
  · exact readAgain_of_exact fun pair _ _ => exact_pair pair
  · exact readAgain_of_exact fun row _ _ => exact_feedback row
  · exact readAgain_of_exact fun verdict _ _ => exact_verdict verdict
  · exact readAgain_of_exact fun entry _ _ => exact_logged entry
  · refine readAgain_of_exact fun scored accepted back => exact_scored (back _ (.head _) ?_)
    exact isFinite_of_accepted (accepted_scored accepted)
  · refine readAgain_of_exact fun matched accepted back => exact_matched (exact_double (back _ (.head _) ?_))
    exact isFinite_of_accepted (accepted_matched accepted)
  · refine readAgain_of_exact fun summary accepted back => ?_
    obtain ⟨score, count⟩ := accepted_summary accepted
    exact exact_summary (exact_double (back _ (.head _) (isFinite_of_accepted score))) (nat count)
  · exact readAgain_of_exact fun block accepted _ => exact_blockSize (nat (accepted_blockSize accepted))
  · exact readAgain_of_exact fun record _ _ => exact_indexed record
  · refine readAgain_of_exact fun value accepted back => ?_
    obtain ⟨_, _, read⟩ := Value.accepted_payload accepted
    obtain ⟨fits, finite⟩ := Value.accepted_of_payload read
    exact Value.exact_value fits fun double listed => exact_double (back double listed (finite double listed))
  · exact readAgain_of_exact fun config accepted _ => blocking accepted
  · exact readAgain_of_exact fun config accepted _ => cache accepted
  · refine readAgain_of_exact fun config accepted back => ?_
    obtain ⟨blocks, caches, score⟩ := accepted_linking accepted
    exact exact_linking (blocking blocks) (cache caches)
      (exact_double (back _ (.head _) (isFinite_of_accepted score)))
  · intro text pair read
    obtain ⟨json, tree, read⟩ := Option.bind_eq_some_iff.mp read
    obtain ⟨a, b, named, same⟩ := EntityPair.named_of_ofJson? read
    exact ⟨pair.ordered, json, a, b, tree, named, same⟩
  · intro text row read
    obtain ⟨json, tree, read⟩ := Option.bind_eq_some_iff.mp read
    obtain ⟨pair, linked, members, read⟩ := Feedback.pair_of_ofJson? read
    obtain ⟨a, b, named, same⟩ := EntityPair.named_of_ofJson? read
    exact ⟨row.pair.ordered, json, pair, linked, a, b, tree, members, named, same⟩

namespace Sample

def reversed : List UInt8 := utf8 ("[[[\"00000000000000000000000000000002\",\"00000000000000000000000000000001\"]," ++
  "[\"00000000000000000000000000000001\",\"00000000000000000000000000000001\"]], true]")

theorem rows_read_again_reversed : ∃ row : Feedback, (read? reversed : Option Feedback) = some row ∧
    row.pair.first = ⟨.ofNat 1, .ofNat 1⟩ ∧ row.pair.second = ⟨.ofNat 2, .ofNat 1⟩ ∧ row.linked = true ∧
    (read? (write row) : Option Feedback) = some row ∧ write row ≠ reversed := by
  have read : (read? reversed : Option Feedback) =
      some ⟨.of ⟨.ofNat 2, .ofNat 1⟩ ⟨.ofNat 1, .ofNat 1⟩, true⟩ := by decide +kernel
  obtain ⟨_, _, feedback, _⟩ := rows_read_again
  exact ⟨_, read, by decide +kernel, by decide +kernel, rfl, feedback _ _ read nofun, by decide +kernel⟩

end Sample

end RecordLinkage
