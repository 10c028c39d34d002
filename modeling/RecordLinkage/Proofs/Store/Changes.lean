import RecordLinkage.Proofs.Json.Forms
import RecordLinkage.Proofs.Journal.Frames

/-! A journal entry is read back from its payload, as long as the scores in it are. -/

namespace RecordLinkage

open Form

theorem exact_scored {scored : ScoredEdge}
    (score : (read? (write scored.score) : Option Double) = some scored.score) : Exact scored := by
  refine ⟨Json.wellFormed_record ?_, ?_⟩
  · simp [(exact_id _).wellFormed, (exact_entity _).wellFormed, (exact_double score).wellFormed]
  · refine Option.bind_eq_some_iff.mpr ⟨_, Json.record?_ofRecord rfl (by decide), ?_⟩
    simp [(exact_id _).required, (exact_entity _).required, (exact_double score).required]

theorem exact_edge (edge : Edge) : Exact edge := by
  refine ⟨Json.wellFormed_items ?_, ?_⟩
  · simp [(exact_id _).wellFormed, (exact_entity _).wellFormed]
  · refine Option.bind_eq_some_iff.mpr ⟨_, (exact_id _).back, ?_⟩
    simp [(exact_entity _).back]

theorem exact_feedback (row : Feedback) : Exact row := by
  refine ⟨Json.wellFormed_record ?_, ?_⟩
  · simp [(exact_pair _).wellFormed, (exact_bool _).wellFormed]
  · refine Option.bind_eq_some_iff.mpr ⟨_, Json.record?_ofRecord rfl (by decide), ?_⟩
    simp [(exact_pair _).required, (exact_bool _).required]

theorem exact_logged (entry : LogEntry) : Exact entry := by
  refine ⟨Json.wellFormed_record ?_, ?_⟩
  · simp [(exact_id _).wellFormed, (exact_int64 _).wellFormed]
  · refine Option.bind_eq_some_iff.mpr ⟨_, Json.record?_ofRecord rfl (by decide), ?_⟩
    simp [(exact_id _).required, (exact_int64 _).required]

namespace Change

def ScoresReadBack : Change → Prop
  | upsertEdges edges _ =>
      ∀ scored ∈ edges, (read? (write scored.score) : Option Double) = some scored.score
  | _ => True

instance : (change : Change) → Decidable change.ScoresReadBack
  | upsertEdges edges _ => inferInstanceAs (Decidable (∀ scored ∈ edges, _ = _))
  | removeEdges _ | upsertFeedback _ | removeFeedback _ | appendEntries _ | removeEntries _ _ =>
      inferInstanceAs (Decidable True)

theorem soleField?_ofRecord {α : Type} [Form α] {value : α} (exact : Exact value) (name : String) :
    soleField? name (Json.ofRecord [(name, toJson value)]) = some value := by
  refine Option.bind_eq_some_iff.mpr ⟨_, Json.record?_ofRecord rfl (by simp), ?_⟩
  exact exact.required

theorem payload_exact {change : Change} (scores : change.ScoresReadBack) :
    change.payload.WellFormed ∧ ofPayload? change.kindName change.payload = some change := by
  cases change with
  | upsertEdges edges writtenAt =>
      have listed : Exact edges := exact_list fun scored found => exact_scored (scores scored found)
      refine ⟨Json.wellFormed_record ?_, ?_⟩
      · simp [listed.wellFormed, (exact_instant _).wellFormed]
      · have fields : (payload (upsertEdges edges writtenAt)).record? ["edges", "written_at"] =
            some [some (toJson edges), some (toJson writtenAt)] :=
          Json.record?_ofRecord rfl (by decide)
        simp [ofPayload?, kindName, fields, listed.required, (exact_instant _).required]
  | removeEdges edges =>
      have listed : Exact edges := exact_list fun edge _ => exact_edge edge
      refine ⟨Json.wellFormed_record (by simp [listed.wellFormed]), ?_⟩
      show (soleField? "rows" (Json.ofRecord [("rows", toJson edges)])).map removeEdges = _
      rw [soleField?_ofRecord listed]
      rfl
  | upsertFeedback row =>
      refine ⟨(exact_feedback row).wellFormed, ?_⟩
      show (ofJson? (toJson row)).map upsertFeedback = _
      rw [(exact_feedback row).back]
      rfl
  | removeFeedback pairs =>
      have listed : Exact pairs := exact_list fun pair _ => exact_pair pair
      refine ⟨Json.wellFormed_record (by simp [listed.wellFormed]), ?_⟩
      show (soleField? "pairs" (Json.ofRecord [("pairs", toJson pairs)])).map removeFeedback = _
      rw [soleField?_ofRecord listed]
      rfl
  | appendEntries entries =>
      have listed : Exact entries := exact_list fun entry _ => exact_logged entry
      refine ⟨Json.wellFormed_record (by simp [listed.wellFormed]), ?_⟩
      show (soleField? "entries" (Json.ofRecord [("entries", toJson entries)])).map appendEntries = _
      rw [soleField?_ofRecord listed]
      rfl
  | removeEntries cluster entries =>
      have listed : Exact entries := exact_list fun entry _ => exact_logged entry
      refine ⟨Json.wellFormed_record ?_, ?_⟩
      · simp [listed.wellFormed, (exact_id _).wellFormed]
      · have fields : (payload (removeEntries cluster entries)).record? ["linking_id", "entries"] =
            some [some (toJson cluster), some (toJson entries)] :=
          Json.record?_ofRecord rfl (by decide)
        simp [ofPayload?, kindName, fields, listed.required, (exact_id _).required]

end Change

theorem exact_change {change : Change} (scores : change.ScoresReadBack) : Exact change := by
  obtain ⟨wellFormed, back⟩ := Change.payload_exact scores
  refine ⟨Json.wellFormed_record (by simpa using wellFormed), ?_⟩
  show (Json.readText? (Json.escape (utf8 change.kindName))).bind
    (Change.ofPayload? · change.payload) = some change
  rw [Json.readText?_escape]
  exact back

theorem exact_entry {entry : JournalEntry} (scores : entry.change.ScoresReadBack) : Exact entry := by
  refine ⟨Json.wellFormed_record ?_, ?_⟩
  · simp [(exact_word _).wellFormed, (exact_instant _).wellFormed, (exact_change scores).wellFormed]
  · refine Option.bind_eq_some_iff.mpr ⟨_, Json.record?_ofRecord rfl (by decide), ?_⟩
    simp [(exact_word _).required, (exact_instant _).required, (exact_change scores).required]

/-- Only the length of its payload and the scores in it can keep an entry from being read back. -/
theorem JournalEntry.readable {entry : JournalEntry} (length : (write entry).length ≤ maxFrameLength)
    (scores : entry.change.ScoresReadBack) : entry.Readable :=
  ⟨length, (exact_entry scores).read?_write⟩

end RecordLinkage
