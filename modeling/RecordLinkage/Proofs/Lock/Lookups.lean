import RecordLinkage.Proofs.Lock.Users
import RecordLinkage.Proofs.Match.Changes

/-! What those who delete rows or link know of the rows that they remove. A deletion by entities has these
locked, looks up their clusters and finds that it has them locked too, and a pass does so for its focal
entity. The deletion of a set has locked the clusters that it finds, but no entity. -/

namespace RecordLinkage

namespace Call

def StandsAside : Call → Prop
  | .write (.upsertEdges _ _) | .write (.deleteEdge _) | .write (.deleteTouching _ _) => False
  | .write (.deleteTouchingKeys _ _) | .write (.deleteTouchingSet _) | .lock _ => False
  | _ => True

theorem Looks.standsAside {call : Call} (looks : call.Looks) : call.StandsAside := by
  cases call with
  | write | lock => exact looks.elim
  | _ => trivial

theorem Joins.standsAside {cluster : Id} {entities : List EntityKey} {call : Call}
    (joins : call.Joins cluster entities) : call.StandsAside := by
  cases call with
  | write request =>
      cases request with
      | appendEntries => trivial
      | _ => exact joins.elim
  | lock => exact joins.elim
  | _ => trivial

def Reserves : Call → Prop
  | .read _ | .lock _ | .drawId => True
  | _ => False

def IsRead : Call → Prop
  | .read _ => True
  | _ => False

section IsRead

variable {call : Call} (reads : call.IsRead)
include reads

theorem IsRead.looks : call.Looks := by
  cases call with
  | read => trivial
  | _ => exact reads.elim

theorem IsRead.stores : call.Stores := by
  cases call with
  | read => trivial
  | _ => exact reads.elim

theorem IsRead.reserves : call.Reserves := by
  cases call with
  | read => trivial
  | _ => exact reads.elim

end IsRead

end Call

inductive Lookup where
  | clusters (entities : EntitySet) (ids : IdSet)
  | rows (edges : List MatchedEdge)

namespace Lookup

def of? : (call : Call) → call.Answer → Option Lookup
  | .read (.clustersContaining entities), .ok ids => some (.clusters entities ids)
  | .read .allEdges, .ok edges => some (.rows edges)
  | _, _ => none

def IsOf (table : MatchTable) : Lookup → Prop
  | .clusters entities ids => ids = table.clustersContaining entities
  | .rows edges => edges = table.all

end Lookup

structure EditProgress where
  held : LockTable
  flushed : List Edge
  last : Option Lookup

namespace EditProgress

def start : EditProgress := ⟨.empty, [], none⟩

def flushedAfter (flushed : List Edge) : (call : Call) → call.Answer → List Edge
  | .write (.upsertEdges edges _), .ok _ => edges.map ScoredEdge.edge ++ flushed
  | .lock (.release _ _), _ => []
  | _, _ => flushed

def after (progress : EditProgress) (call : Call) (answer : call.Answer) : EditProgress :=
  ⟨progress.held.afterCall call, flushedAfter progress.flushed call answer, Lookup.of? call answer⟩

abbrev Recalls : Answering EditProgress := fun progress call answer later => later = progress.after call answer

def Covers (progress : EditProgress) (entity : EntityKey) : Prop :=
  entity ∈ progress.held.members ∧ ∃ entities ids, progress.last = some (.clusters entities ids) ∧
    entity ∈ entities ∧ ∀ id ∈ ids, id ∈ progress.held.clusters

def CoversSet (progress : EditProgress) (set : Id) : Prop :=
  ∃ edges, progress.last = some (.rows edges) ∧
    ∀ row ∈ edges, row.edge.link.TouchesSet set → row.edge.cluster ∈ progress.held.clusters

def Allows (request : GraphRequest) (progress : EditProgress) : Call → Prop
  | .write (.upsertEdges edges _) => ∀ scored ∈ edges, scored.edge.cluster ∈ progress.held.clusters ∧
      scored.edge.link.src ∈ progress.held.members ∧ scored.edge.link.dst ∈ progress.held.members
  | .write (.deleteTouchingSet set) =>
      request = .deleteSet set ∧ progress.flushed = [] ∧ progress.CoversSet set
  | .write wipe => ∀ link, wipe.Wipes link →
      progress.flushed = [] ∧ ∃ entity, link.touches entity ∧ progress.Covers entity
  | _ => True

variable {request : GraphRequest} {progress : EditProgress} {call : Call}

theorem allows_of_standsAside (aside : call.StandsAside) : Allows request progress call := by
  cases call with
  | write change =>
      cases change with
      | upsertEdges | deleteEdge | deleteTouching | deleteTouchingKeys | deleteTouchingSet =>
          exact aside.elim
      | _ => exact fun _ none => none.elim
  | _ => trivial

theorem allows_of_reserves (reserves : call.Reserves) : Allows request progress call := by
  cases call with
  | write => exact reserves.elim
  | _ => trivial

theorem flushedAfter_of_standsAside (aside : call.StandsAside) (flushed : List Edge) (answer : call.Answer) :
    flushedAfter flushed call answer = flushed := by
  unfold flushedAfter
  split
  · exact aside.elim
  · exact aside.elim
  · rfl

theorem flushedAfter_of_reserves (reserves : call.Reserves) (answer : call.Answer) :
    flushedAfter [] call answer = [] := by
  unfold flushedAfter
  split
  · exact reserves.elim
  · rfl
  · rfl

end EditProgress

theorem Call.StandsAside.not_isLock {call : Call} (aside : call.StandsAside) : ¬call.IsLock := by
  cases call with
  | lock => exact aside.elim
  | _ => exact id

theorem Write.Wipes.not_standsAside {request : Write} {link : Link} (wipes : request.Wipes link) :
    ¬(Call.write request).StandsAside := by
  cases request with
  | deleteEdge | deleteTouching | deleteTouchingKeys | deleteTouchingSet => exact id
  | _ => exact wipes.elim

open EditProgress

namespace Transaction

theorem holds_of_stage {transaction after : Transaction} {cluster : Id} {scores : ScoreMap}
    (staged : transaction.stage cluster scores = .ok after) : cluster ∈ transaction.clusters := by
  unfold stage at staged
  split at staged
  · contradiction
  · rename_i holds
    simpa [Transaction.holds] using holds

end Transaction

namespace Action

variable {α : Type} {request : GraphRequest} {progress : EditProgress}

abbrev Edits (request : GraphRequest) (post : α → EditProgress → Prop) (action : Action α)
    (progress : EditProgress) : Prop :=
  action.Ensures Recalls (Allows request) (fun _ _ => True) post progress

theorem edits_of_asks {allowed : Call → Prop} {known : α → Prop} {holds : EditProgress → Prop}
    {action : Action α} (asks : action.Asks True allowed known) (start : holds progress)
    (fits : ∀ progress call, allowed call → Allows request progress call)
    (kept : ∀ progress call answer, holds progress → allowed call → holds (progress.after call answer)) :
    action.Edits request (fun value later => known value ∧ holds later) progress := by
  have ensured : action.Ensures Recalls (Allows request) (fun _ => holds)
      (fun value later => holds later ∧ known value) progress := by
    refine asks.ensures holds start (fun state call _ => fits state call) ?_
    rintro state call answer _ holds allowed rfl
    exact kept state call answer holds allowed
  exact (ensured.refuse fun _ _ _ => trivial).mono fun _ _ => And.symm

theorem edits_aside {allowed : Call → Prop} {known : α → Prop} {action : Action α} {held : LockTable}
    {flushed : List Edge} (asks : action.Asks True allowed known)
    (aside : ∀ call, allowed call → call.StandsAside)
    (start : progress.held = held ∧ progress.flushed = flushed) :
    action.Edits request (fun value later => known value ∧ later.held = held ∧ later.flushed = flushed)
      progress := by
  refine edits_of_asks asks start (fun _ call fits => allows_of_standsAside (aside call fits)) ?_
  rintro state call answer ⟨rfl, rfl⟩ fits
  exact ⟨LockProgress.afterCall_of_not_isLock (aside call fits).not_isLock,
    flushedAfter_of_standsAside (aside call fits) _ answer⟩

theorem edits_reserving {known : α → Prop} {action : Action α} (asks : action.Asks True Call.Reserves known) :
    action.Edits request (fun value later => known value ∧ (progress.flushed = [] → later.flushed = []))
      progress := by
  refine edits_of_asks asks id (fun _ _ => allows_of_reserves) ?_
  rintro ⟨held, _, last⟩ call answer none reserves start
  obtain rfl := none start
  exact flushedAfter_of_reserves reserves answer

theorem Edits.also {post holds : α → EditProgress → Prop} {safe : EditProgress → Call → Prop} {action : Action α}
    (edits : action.Edits request post progress)
    (also : action.Ensures Recalls safe (fun _ _ => True) holds progress) :
    action.Edits request (fun value later => post value later ∧ holds value later) progress := by
  refine Program.Ensures.mono (Program.Ensures.and edits also) ?_
  intro result later both
  cases result with
  | ok value => exact both
  | error error => trivial

/-- What is kept of locks is so whatever else is known. -/
theorem edits_of_keeps {locks : LockProgress} {post : α → LockProgress → Prop} {action : Action α}
    (keeps : action.Keeps post locks) (same : progress.held = locks.held) :
    action.Ensures Recalls (fun _ _ => True) (fun _ _ => True)
      (fun value later => ∃ locks : LockProgress, later.held = locks.held ∧ post value locks) progress := by
  refine Program.Ensures.mono (Program.Ensures.simulate keeps (fun state locks => state.held = locks.held) same
    (fun _ _ _ _ _ => trivial) ?_) ?_
  · rintro state locks call answer _ same _ rfl
    obtain ⟨later, told⟩ := LockProgress.exists_anyhow locks call answer
    exact ⟨later, told, (congrArg (LockTable.afterCall · call) same).trans told.held.symm⟩
  · rintro result later ⟨locks, same, holds⟩
    cases result with
    | ok value => exact ⟨locks, same, holds⟩
    | error error => trivial

theorem edits_release (request : GraphRequest) (transaction : Transaction) (progress : EditProgress) :
    transaction.release.Ensures Recalls (Allows request) (fun _ _ => True) progress := by
  unfold Transaction.release releaseLocks
  split
  · trivial
  · exact ⟨trivial, fun _ _ _ => trivial⟩

structure Finds (find : Action IdSet) (shows : IdSet → Lookup → Prop) : Prop where
  asks : find.Asks True Call.IsRead fun _ => True
  shown : ∀ request progress, find.Edits request
    (fun ids later => ∃ lookup, later.last = some lookup ∧ shows ids lookup) progress

structure Found (members : EntitySet) (shows : IdSet → Lookup → Prop) (transaction : Transaction)
    (progress : EditProgress) : Prop where
  members : transaction.members = members
  staged : transaction.staged = []
  held : progress.held = transaction.locks
  flushed : progress.flushed = []
  covers : ∃ ids lookup, progress.last = some lookup ∧ shows ids lookup ∧
    ∀ id ∈ ids, id ∈ transaction.clusters

variable {find : Action IdSet} {shows : IdSet → Lookup → Prop}

theorem Finds.stores (finds : Finds find shows) : find.Stores fun _ => True :=
  finds.asks.allow fun _ => Call.IsRead.stores

theorem Finds.reserves (finds : Finds find shows) : find.Asks True Call.Reserves fun _ => True :=
  finds.asks.allow fun _ => Call.IsRead.reserves

/-- All that is found under the locks was found before, and is locked. -/
theorem edits_tryLock (members : EntitySet) (reserve : Bool) (finds : Finds find shows) :
    (ClusterGraph.tryLock members reserve find).Edits request
      (fun result later => ∀ transaction, result = some transaction →
        ∃ ids lookup, later.last = some lookup ∧ shows ids lookup ∧ ∀ id ∈ ids, id ∈ transaction.clusters)
      progress := by
  have locks : ∀ lock, Call.Reserves (.lock lock) := fun _ => trivial
  refine (ensures_bind _ _ _).mpr ((edits_reserving finds.reserves).mono fun found _ _ => ?_)
  refine (ensures_bind _ _ _).mpr
    ((edits_reserving (asks_reserveId fun _ => trivial)).mono fun reserved _ _ => ?_)
  refine (ensures_bind _ _ _).mpr ((edits_reserving (asks_takeLocks locks _)).mono fun _ middle _ => ?_)
  have seen := finds.shown request middle
  refine (ensures_bind _ _ _).mpr ((ensures_onFailure _ _ _).mpr
    ((seen.refuse fun _ _ _ => edits_release _ _ _).mono ?_))
  rintro again later ⟨lookup, last, shown⟩
  split
  · -- What is found again was found before the locks were taken, and so it is locked.
    rename_i known
    refine (ensures_pure _ _).mpr ?_
    rintro _ ⟨rfl⟩
    refine ⟨again, lookup, last, shown, fun id listed => ?_⟩
    simp only [List.all_eq_true, Std.ExtTreeSet.mem_toList, Std.ExtTreeSet.contains_iff_mem] at known
    simp [known id listed]
  · refine (ensures_bind _ _ _).mpr ((ensures_lift _ _).mpr ((edits_release _ _ _).mono ?_))
    exact fun _ _ _ => (ensures_pure _ _).mpr nofun

theorem edits_lockStable (members : EntitySet) (reserve : Bool) (finds : Finds find shows)
    (free : progress.held = .empty) (start : progress.flushed = []) :
    (ClusterGraph.lockStable members reserve find).Edits request (Found members shows) progress := by
  have seen : (ClusterGraph.lockStable members reserve find).Edits request (fun transaction later =>
      ∃ ids lookup, later.last = some lookup ∧ shows ids lookup ∧ ∀ id ∈ ids, id ∈ transaction.clusters)
      progress := by
    unfold ClusterGraph.lockStable
    generalize ClusterGraph.maxLockAttempts = attempts
    clear free start
    induction attempts generalizing progress with
    | zero => exact (ensures_throw _ _).mpr trivial
    | succ attempts ih =>
        refine (ensures_bind _ _ _).mpr ((edits_tryLock members reserve finds).mono ?_)
        intro result later found
        cases result with
        | some transaction => exact (ensures_pure _ _).mpr (found transaction rfl)
        | none => exact ih
  have asks : (ClusterGraph.lockStable members reserve find).Asks True Call.Reserves fun transaction =>
      transaction.staged = [] ∧ (reserve → transaction.reserved.isSome) :=
    asks_lockStable members (fun _ => trivial) (fun _ => trivial) finds.reserves
  have unwritten : (ClusterGraph.lockStable members reserve find).Edits request _ progress :=
    edits_reserving asks
  have keeps : (ClusterGraph.lockStable members reserve find).Keeps _ LockProgress.start :=
    keeps_lockStable members reserve finds.stores rfl
  refine ((seen.also unwritten).also (edits_of_keeps keeps free)).mono ?_
  rintro transaction later ⟨⟨covers, ⟨staged, _⟩, flushed⟩, locks, same, held, fits⟩
  exact ⟨fits.members, staged, same.trans held, flushed start, covers⟩

theorem edits_deleteHolding {transaction : Transaction} {deletion : Action Nat}
    (staged : transaction.staged = []) (deletes : deletion.Edits request (fun _ _ => True) progress) :
    (ClusterGraph.deleteHolding transaction deletion).Edits request (fun _ _ => True) progress := by
  refine (ensures_bind _ _ _).mpr ((ensures_onFailure _ _ _).mpr
    ((deletes.refuse fun _ _ _ => edits_release _ _ _).mono fun rows later _ => ?_))
  have commits : transaction.commit.Edits request (fun _ _ => True) later := by
    refine (ensures_thenAlways _ _ _).mpr ?_
    simp only [Transaction.flush, staged, List.isEmpty_nil, if_true]
    exact (Program.ensures_pure (Except.ok 0) _).mpr (edits_release _ _ _)
  exact (ensures_bind _ _ _).mpr (commits.mono fun _ _ _ => (ensures_pure _ _).mpr trivial)

theorem edits_deletion (members : EntitySet) (finds : Finds find shows) {deletion : Transaction → Action Nat}
    (deletes : ∀ transaction later, Found members shows transaction later →
      (deletion transaction).Edits request (fun _ _ => True) later) :
    Edits request (fun _ _ => True) (do
      let transaction ← ClusterGraph.lockStable members false find
      ClusterGraph.deleteHolding transaction (deletion transaction)) .start := by
  refine (ensures_bind _ _ _).mpr ((edits_lockStable members false finds rfl rfl).mono ?_)
  exact fun transaction later found => edits_deleteHolding found.staged (deletes transaction later found)

theorem edits_deleteRows {wipe : Write} {post : Nat → EditProgress → Prop}
    (allowed : Allows request progress (.write wipe))
    (holds : ∀ count answer, post count (progress.after (.write wipe) answer)) :
    (ClusterGraph.deleteRows wipe).Edits request post progress := by
  refine ⟨allowed, ?_⟩
  rintro answer _ rfl
  cases answer with
  | ok written => exact holds _ _
  | error error => trivial

theorem finds_clustersContaining {entities : EntitySet} (filled : entities.isEmpty = false) :
    Finds (ClusterGraph.clustersContaining entities) fun ids lookup => lookup = .clusters entities ids := by
  have reads : ClusterGraph.clustersContaining entities = Action.read (.clustersContaining entities) := by
    simp [ClusterGraph.clustersContaining, filled]
  rw [reads]
  refine ⟨asks_read trivial, fun request progress => ⟨trivial, ?_⟩⟩
  rintro answer _ rfl
  cases answer with
  | ok ids => exact ⟨_, rfl, rfl⟩
  | error error => trivial

theorem finds_clustersTouchingSet (set : Id) :
    Finds (ClusterGraph.clustersTouchingSet set) fun ids lookup => ∃ edges, lookup = .rows edges ∧
      ∀ row ∈ edges, row.edge.link.TouchesSet set → row.edge.cluster ∈ ids := by
  refine ⟨asks_bind (asks_read trivial) fun _ _ => asks_pure trivial, fun request progress => ⟨trivial, ?_⟩⟩
  rintro answer _ rfl
  cases answer with
  | ok edges =>
      refine ⟨_, rfl, edges, rfl, fun row listed touches => ?_⟩
      simp only [Std.ExtTreeSet.mem_ofList, List.contains_iff_mem, List.mem_map, List.mem_filter]
      exact ⟨row, ⟨listed, by simpa [Link.TouchesSet] using touches⟩, rfl⟩
  | error error => trivial

/-- The clusters of the members have just been found, and are locked as the members are. -/
theorem Found.covered {members : EntitySet} {transaction : Transaction} {entity : EntityKey}
    (found : Found members (fun ids lookup => lookup = .clusters members ids) transaction progress)
    (listed : entity ∈ members) : progress.Covers entity := by
  obtain ⟨ids, _, last, rfl, locked⟩ := found.covers
  rw [Covers, found.held, Transaction.locks, found.members]
  exact ⟨listed, members, ids, last, listed, locked⟩

theorem edits_deleteNeighborhoodIn {transaction : Transaction} {entity : EntityKey} {kept : PairSet}
    (held : progress.held = transaction.locks) (start : progress.flushed = []) :
    (ClusterGraph.deleteNeighborhoodIn transaction entity kept).Edits request
      (fun _ later => later.held = transaction.locks ∧ later.flushed = []) progress := by
  unfold ClusterGraph.deleteNeighborhoodIn
  split
  · exact (ensures_throw _ _).mpr trivial
  · rename_i member
    have finds : Finds (ClusterGraph.clustersContaining (.ofList [entity])) _ :=
      finds_clustersContaining (by simp)
    have reads : ∀ call : Call, call.IsRead → call.StandsAside := fun _ read => read.looks.standsAside
    have same : (ClusterGraph.clustersContaining (.ofList [entity])).Edits request _ progress :=
      edits_aside finds.asks reads ⟨held, start⟩
    refine (ensures_bind _ _ _).mpr (((finds.shown request progress).also same).mono ?_)
    rintro ids later ⟨⟨_, last, rfl⟩, _, held, flushed⟩
    split
    · exact (ensures_throw _ _).mpr trivial
    · rename_i locked
      refine edits_deleteRows (fun link touches => ⟨flushed, entity, touches, ?_⟩) fun _ _ => ⟨held, flushed⟩
      rw [Covers, held, Transaction.locks]
      refine ⟨by simpa [Transaction.holdsMember] using member, _, ids, last, by simp, fun id listed => ?_⟩
      simp only [List.find?_eq_none, Std.ExtTreeSet.mem_toList] at locked
      simpa [Transaction.holds] using locked id listed

theorem edits_flush {transaction : Transaction}
    (allowed : ∀ scored ∈ transaction.staged, scored.edge.cluster ∈ progress.held.clusters ∧
      scored.edge.link.src ∈ progress.held.members ∧ scored.edge.link.dst ∈ progress.held.members) :
    transaction.flush.Edits request (fun _ _ => True) progress := by
  unfold Transaction.flush
  split
  · exact (ensures_pure _ _).mpr trivial
  · refine (ensures_bind _ _ _).mpr ((ensures_lift _ _).mpr ⟨trivial, ?_⟩)
    rintro now _ rfl
    refine (ensures_bind _ _ _).mpr ⟨allowed, ?_⟩
    rintro answer _ rfl
    cases answer <;> trivial

/-- What a pass does under its locks: it removes what it has found, and writes edges of what it locked. -/
theorem edits_place {prepared : Prepared} {transaction : Transaction} (focal : prepared.focal ∈ prepared.scored)
    (members : transaction.members = prepared.members) (staged : transaction.staged = [])
    (held : progress.held = transaction.locks) (start : progress.flushed = []) :
    (Linking.place transaction prepared.focal prepared.scored prepared.positive).Edits request
      (fun _ _ => True) progress := by
  unfold Linking.place
  have looks : ∀ call : Call, call.Looks → call.StandsAside := fun _ => Call.Looks.standsAside
  refine (ensures_bind _ _ _).mpr ((edits_aside (asks_pointer trivial) looks ⟨held, start⟩).mono ?_)
  rintro previous progress ⟨_, held, start⟩
  refine (ensures_bind _ _ _).mpr ((edits_deleteNeighborhoodIn held start).mono ?_)
  rintro rows progress same
  refine (ensures_bind _ _ _).mpr
    ((edits_aside (asks_clustersContaining (fun _ => trivial) _) looks same).mono ?_)
  rintro ids progress ⟨_, same⟩
  refine (ensures_bind _ _ _).mpr ((edits_aside (asks_clusters (fun _ => trivial) ids) looks same).mono ?_)
  rintro snapshot progress ⟨_, same⟩
  refine (ensures_bind _ _ _).mpr ((edits_aside (asks_choose _ _ _ _) looks same).mono ?_)
  rintro ⟨cluster, isNew⟩ progress ⟨_, held, _⟩
  dsimp only
  split
  · exact (ensures_throw _ _).mpr trivial
  · rename_i accepted ok
    have own : accepted.staged = prepared.edges snapshot cluster := by
      rw [Transaction.stage_ok ok, staged]
      rfl
    refine (ensures_bind _ _ _).mpr ((edits_flush ?_).mono fun written progress _ => ?_)
    · intro scored listed
      obtain ⟨same, entity, found, ends⟩ := Prepared.mem_edges (own ▸ listed)
      have accepted : entity ∈ prepared.scored := by
        rw [Std.ExtTreeMap.mem_iff_isSome_getElem?, Prepared.getElem?_matched found]
        rfl
      rw [held, Transaction.locks, members, same, Prepared.mem_members, Prepared.mem_members]
      refine ⟨Transaction.holds_of_stage ok, ?_⟩
      rcases ends with same | same <;> rw [same]
      · exact ⟨focal, accepted⟩
      · exact ⟨accepted, focal⟩
    · have joins : ∀ {entities : List EntityKey} {β : Type} {action : Action β} (progress : EditProgress),
          action.Relays (Call.Joins cluster entities) → action.Edits request (fun _ _ => True) progress :=
        fun progress relays => (edits_aside (asks_of_relays relays) (fun _ => Call.Joins.standsAside)
          ⟨rfl, rfl⟩).mono fun _ _ _ => trivial
      refine (ensures_bind _ _ _).mpr ((joins _ (relays_moveAll _ _ _ _)).mono fun _ progress _ => ?_)
      refine (ensures_bind _ _ _).mpr ((joins _ (relays_join _ [] _)).mono fun _ _ _ => ?_)
      exact (ensures_pure _ _).mpr trivial

theorem edits_link (linker : Linker) (focal : EntityKey) :
    (linker.link focal).Edits request (fun _ _ => True) .start := by
  rw [linker.link_eq]
  have looks : ∀ call : Call, call.Looks → call.StandsAside := fun _ => Call.Looks.standsAside
  refine (ensures_bind _ _ _).mpr ((edits_aside (linker.looks_prepare focal) looks ⟨rfl, rfl⟩).mono ?_)
  rintro found progress ⟨sound, free, start⟩
  cases found with
  | inl outcome => exact (ensures_pure _ _).mpr trivial
  | inr prepared =>
      have sound : prepared.Sound := sound
      refine (ensures_bind _ _ _).mpr
        ((edits_lockStable _ true (finds_clustersContaining sound.filled) free start).mono ?_)
      intro transaction later found
      rw [prepared.settle_eq]
      refine (ensures_thenAlways _ _ _).mpr ?_
      refine Program.Ensures.mono
        (edits_place sound.focal found.members found.staged found.held found.flushed) fun result after _ => ?_
      refine (edits_release _ _ _).mono fun _ _ _ => ?_
      cases result <;> trivial

end Action

namespace GraphRequest

def IsEdit : GraphRequest → Prop
  | deleteEdge _ | deleteNeighborhood _ _ | deleteNeighborhoods _ _ | deleteSet _ | link _ _ => True
  | _ => False

theorem IsEdit.opens {request : GraphRequest} (edit : request.IsEdit) : request.Opens := by
  cases request with
  | commit | rollback => exact edit.elim
  | _ => trivial

theorem edits_ended {α : Type} {request : GraphRequest} {operation : Action α}
    (edits : operation.Edits request (fun _ _ => True) .start) :
    Action.Edits request (fun _ _ => True) (do let _ ← operation; return none : Action (Option Transaction))
      .start :=
  (Action.ensures_bind _ _ _).mpr (edits.mono fun _ _ _ => (Action.ensures_pure _ _).mpr trivial)

theorem IsEdit.edits {request : GraphRequest} (edit : request.IsEdit) :
    request.action.Edits request (fun _ _ => True) .start := by
  cases request with
  | lockClusters | lockMembers | commit | rollback => exact edit.elim
  | deleteEdge ends =>
      have finds : Action.Finds (ClusterGraph.clustersContaining (.ofList [ends.src, ends.dst])) _ :=
        Action.finds_clustersContaining (by simp)
      refine edits_ended (Action.edits_deletion _ finds fun transaction later found => ?_)
      refine Action.edits_deleteRows ?_ fun _ _ => trivial
      rintro link rfl
      exact ⟨found.flushed, link.src, by simp [Link.touches], found.covered (by simp)⟩
  | deleteNeighborhood entity kept =>
      have finds : Action.Finds (ClusterGraph.clustersContaining (.ofList [entity])) _ :=
        Action.finds_clustersContaining (by simp)
      refine edits_ended (Action.edits_deletion _ finds fun transaction later found => ?_)
      exact (Action.edits_deleteNeighborhoodIn found.held found.flushed).mono fun _ _ _ => trivial
  | deleteNeighborhoods set keys =>
      refine edits_ended ?_
      unfold ClusterGraph.deleteNeighborhoods
      split
      · exact (Action.ensures_pure _ _).mpr trivial
      · rename_i filled
        have finds : Action.Finds (ClusterGraph.clustersContaining
            (.ofList (keys.toList.map fun key => (⟨set, key⟩ : EntityKey)))) _ :=
          Action.finds_clustersContaining (by simpa using filled)
        refine Action.edits_deletion _ finds fun transaction later found => ?_
        refine Action.edits_deleteRows ?_ fun _ _ => trivial
        rintro link ⟨key, listed, touches⟩
        exact ⟨found.flushed, ⟨set, key⟩, touches, found.covered (by simpa using listed)⟩
  | deleteSet set =>
      refine edits_ended (Action.edits_deletion _ (Action.finds_clustersTouchingSet set)
        fun transaction later found => ?_)
      obtain ⟨ids, _, last, ⟨edges, rfl, touching⟩, locked⟩ := found.covers
      refine Action.edits_deleteRows ⟨rfl, found.flushed, edges, last, ?_⟩ fun _ _ => trivial
      intro row listed touches
      rw [found.held]
      exact locked _ (touching row listed touches)
  | link linker focal => exact edits_ended (Action.edits_link linker focal)

end GraphRequest

end RecordLinkage
