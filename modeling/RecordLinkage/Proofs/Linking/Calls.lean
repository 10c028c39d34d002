import RecordLinkage.Proofs.Linking.Joins
import RecordLinkage.Proofs.Linking.Operations

/-! The calls that a pass makes once it has something to link, whatever it is answered. It wipes the rows
of its focal entity and writes edges of that entity; only when these are written does it move pointers
and write to the log. -/

namespace RecordLinkage

namespace Linking

def Flushes : Answering Bool := fun flushed call answer after =>
  match call, answer with
  | .write (.upsertEdges _ _), .ok _ => after = true
  | _, _ => after = flushed

theorem exists_flushes (flushed : Bool) (call : Call) (answer : call.Answer) :
    ∃ after, Flushes flushed call answer after := by
  unfold Flushes
  split <;> exact ⟨_, rfl⟩

end Linking

namespace Prepared

def Permits (prepared : Prepared) (flushed : Bool) : Call → Prop
  | .read _ | .lock _ | .now | .drawId => True
  | .index (.record _) => True
  | .write (.deleteTouching entity kept) => entity = prepared.focal ∧ kept = prepared.positive
  | .write (.upsertEdges edges _) => ∀ scored ∈ edges, ∃ entity ∈ prepared.scored,
      scored.edge.link = ⟨prepared.focal, entity⟩ ∨ scored.edge.link = ⟨entity, prepared.focal⟩
  | .write (.appendEntries _) | .index (.setCluster _ _ _) | .tick => flushed = true
  | _ => False

def Clears (prepared : Prepared) : Call → Prop
  | .read _ | .lock _ | .now | .drawId => True
  | .index (.record _) => True
  | .write (.deleteTouching entity kept) => entity = prepared.focal ∧ kept = prepared.positive
  | _ => False

theorem Clears.permits {prepared : Prepared} {call : Call} (clears : prepared.Clears call) (flushed : Bool) :
    prepared.Permits flushed call := by
  cases call with
  | read | lock | now | drawId => trivial
  | index request =>
      cases request with
      | record => trivial
      | _ => exact clears.elim
  | write request =>
      cases request with
      | deleteTouching => exact clears
      | _ => exact clears.elim
  | _ => exact clears.elim

theorem Clears.steady {prepared : Prepared} {call : Call} {answer : call.Answer} {flushed after : Bool}
    (clears : prepared.Clears call) (flushes : Linking.Flushes flushed call answer after) : after = flushed := by
  unfold Linking.Flushes at flushes
  split at flushes
  · exact clears.elim
  · exact flushes

/-- The edge from the focal entity to a matched one, also to itself, is among those to write. -/
theorem edge_listed {prepared : Prepared} {snapshot : Linking.Snapshot} {cluster : Id} {entity : EntityKey}
    (matched : entity ∈ prepared.matched snapshot cluster) :
    ∃ scored ∈ prepared.edges snapshot cluster, scored.edge = ⟨cluster, ⟨prepared.focal, entity⟩⟩ := by
  have written : ((ScoreMap.symmetric prepared.focal (prepared.matched snapshot cluster)).score?
      ⟨prepared.focal, entity⟩).isSome := ScoreMap.isSome_score?_symmetric matched
  obtain ⟨score, known⟩ := Option.isSome_iff_exists.mp written
  exact ⟨_, List.mem_map_of_mem (ScoreMap.mem_links.mpr known), rfl⟩

theorem Places.joined {prepared : Prepared} {held : LockTable} {reserved : Id} {snapshot : Linking.Snapshot}
    {graph after : LinkGraph} {entity : EntityKey}
    (places : prepared.Places held reserved snapshot graph after)
    (matched : entity ∈ prepared.matched snapshot (prepared.cluster reserved snapshot)) :
    (⟨prepared.focal, entity⟩ : Link) ∈ after.scores (prepared.cluster reserved snapshot) := by
  rw [places.scores, LinkGraph.mem_scores_upsert]
  exact .inr (edge_listed matched)

theorem edges_ne_nil {prepared : Prepared} (focal : prepared.focal ∈ prepared.scored)
    (snapshot : Linking.Snapshot) (cluster : Id) : prepared.edges snapshot cluster ≠ [] := by
  obtain ⟨scored, listed, _⟩ := edge_listed (focal_matched focal snapshot cluster)
  exact List.ne_nil_of_mem listed

end Prepared

namespace Transaction

theorem stage_ok {transaction after : Transaction} {cluster : Id} {scores : ScoreMap}
    (staged : transaction.stage cluster scores = .ok after) :
    after = { transaction with staged := transaction.staged ++ scores.edges cluster } := by
  unfold stage at staged
  split at staged
  · contradiction
  · dsimp only at staged
    split at staged
    · contradiction
    · exact (Except.ok.inj staged).symm

end Transaction

namespace Action

variable {α β : Type} {prepared : Prepared} {flushed : Bool}

abbrev Permitted (prepared : Prepared) (flushed : Bool) (post : α → Bool → Prop)
    (action : Action α) : Prop :=
  action.Ensures Linking.Flushes prepared.Permits (fun _ _ => True) post flushed

abbrev Steady (prepared : Prepared) (flushed : Bool) (action : Action α) : Prop :=
  action.Permitted prepared flushed fun _ after => after = flushed

theorem permitted_bind {found : α → Bool → Prop} {post : β → Bool → Prop} {action : Action α}
    {rest : α → Action β} (first : action.Permitted prepared flushed found)
    (then' : ∀ value after, found value after → (rest value).Permitted prepared after post) :
    (action >>= rest).Permitted prepared flushed post :=
  (ensures_bind _ _ _).mpr (first.mono then')

theorem steady_bind {post : β → Bool → Prop} {action : Action α} {rest : α → Action β}
    (first : action.Steady prepared flushed)
    (then' : ∀ value, (rest value).Permitted prepared flushed post) :
    (action >>= rest).Permitted prepared flushed post := by
  refine permitted_bind first ?_
  rintro value _ rfl
  exact then' value

theorem steady_pure (value : α) : (pure value : Action α).Steady prepared flushed := rfl

theorem permitted_of_asks {post : α → Prop} {action : Action α}
    (asks : action.Asks True prepared.Clears post) :
    action.Permitted prepared flushed fun value after => after = flushed ∧ post value := by
  refine Program.Ensures.mono (Program.Ensures.simulate asks (fun state _ => state = flushed) rfl ?_ ?_) ?_
  · exact fun _ _ _ _ clears => clears.permits _
  · rintro _ _ call answer after rfl clears flushes
    exact ⟨(), .inr trivial, clears.steady flushes⟩
  · rintro result _ ⟨_, rfl, holds⟩
    cases result with
    | ok value => exact ⟨rfl, holds⟩
    | error error => trivial

theorem steady_of_asks {post : α → Prop} {action : Action α} (asks : action.Asks True prepared.Clears post) :
    action.Steady prepared flushed :=
  (permitted_of_asks asks).mono fun _ _ => And.left

theorem permitted_flush {transaction : Transaction} (some : transaction.staged ≠ [])
    (permitted : ∀ writtenAt, prepared.Permits flushed (.write (.upsertEdges transaction.staged writtenAt))) :
    transaction.flush.Permitted prepared flushed fun _ after => after = true := by
  unfold Transaction.flush
  rw [if_neg (by simpa using some)]
  refine steady_bind (steady_of_asks (asks_lift trivial)) fun now => ?_
  have writes : (Action.write (.upsertEdges transaction.staged now)).Permitted prepared flushed
      fun _ after => after = true := by
    refine ⟨permitted now, ?_⟩
    intro answer after same
    cases answer with
    | ok written => exact same
    | error error => trivial
  exact permitted_bind writes fun _ _ done => done

/-- Once the edges are written, whatever points entities and writes to the log is permitted. -/
theorem steady_of_relays {cluster : Id} {entities : List EntityKey} {action : Action α}
    (relays : action.Relays (Call.Joins cluster entities)) : action.Steady prepared true := by
  refine relays.ensures rfl ?_ ?_ (fun _ _ _ _ _ _ _ _ _ => trivial)
  · rintro _ call rfl joins
    cases call with
    | index request =>
        cases request with
        | setCluster => rfl
        | record => trivial
        | _ => exact joins.elim
    | write request =>
        cases request with
        | appendEntries => rfl
        | _ => exact joins.elim
    | tick => rfl
    | now => trivial
    | _ => exact joins.elim
  · rintro _ call answer after rfl joins flushes
    unfold Linking.Flushes at flushes
    split at flushes <;> exact flushes

theorem permitted_place {transaction : Transaction} (focal : prepared.focal ∈ prepared.scored)
    (staged : transaction.staged = []) :
    (Linking.place transaction prepared.focal prepared.scored prepared.positive).Permitted prepared
      flushed fun _ after => after = true := by
  unfold Linking.place
  have reads : ∀ request, prepared.Clears (.read request) := fun _ => trivial
  refine steady_bind (steady_of_asks (asks_pointer trivial)) fun previous => ?_
  refine steady_bind (steady_of_asks (asks_deleteNeighborhoodIn reads ⟨rfl, rfl⟩ _)) fun _ => ?_
  refine steady_bind (steady_of_asks (asks_clustersContaining reads _)) fun ids => ?_
  refine steady_bind (steady_of_asks (asks_clusters reads ids)) fun snapshot => ?_
  refine steady_bind (steady_of_asks (asks_choose _ _ _ _)) fun chosen => ?_
  dsimp only
  split
  · exact (ensures_throw _ _).mpr trivial
  · rename_i accepted ok
    have own : accepted.staged = prepared.edges snapshot chosen.1 := by
      rw [Transaction.stage_ok ok, staged]
      rfl
    refine permitted_bind (permitted_flush ?_ ?_) ?_
    · rw [own]
      exact Prepared.edges_ne_nil focal snapshot chosen.1
    · intro writtenAt scored listed
      obtain ⟨_, entity, found, ends⟩ := Prepared.mem_edges (own ▸ listed)
      refine ⟨entity, ?_, ends⟩
      rw [Std.ExtTreeMap.mem_iff_isSome_getElem?, Prepared.getElem?_matched found]
      rfl
    · rintro written _ rfl
      refine steady_bind (steady_of_relays (relays_moveAll _ _ _ _)) fun _ => ?_
      exact steady_bind (steady_of_relays (relays_join _ [] _)) fun _ => steady_pure _

theorem permitted_settle {transaction : Transaction} (focal : prepared.focal ∈ prepared.scored)
    (staged : transaction.staged = []) :
    (prepared.settle transaction).Permitted prepared flushed fun _ after => after = true := by
  rw [prepared.settle_eq]
  refine (ensures_thenAlways _ _ _).mpr (Program.Ensures.mono (permitted_place focal staged) ?_)
  intro result after holds
  refine (transaction.ensures_release trivial fun _ _ same => same).mono ?_
  rintro _ _ rfl
  cases result with
  | ok outcome => exact holds
  | error error => trivial

/-- A pass is done only once its edges are written. -/
theorem permitted_finish (sound : prepared.Sound) :
    prepared.finish.Permitted prepared flushed fun _ after => after = true := by
  refine permitted_bind (permitted_of_asks (asks_lockStable _ (fun _ => trivial) (fun _ => trivial)
    (asks_clustersContaining (fun _ => trivial) _))) ?_
  rintro transaction _ ⟨rfl, staged, _⟩
  exact permitted_settle sound.focal staged

end Action

end RecordLinkage
