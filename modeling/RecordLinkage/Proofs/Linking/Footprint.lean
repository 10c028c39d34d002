import RecordLinkage.Proofs.Linking.Graph

/-! The part of the graph that some locks cover. A program that keeps to it leaves everything else as it
was and finds in it the same whatever happens elsewhere, so programs with disjoint locks do not
disturb each other. A wipe takes rows off entities that nobody locked; they are in locked clusters. -/

namespace RecordLinkage

namespace LockTable

def Allows (held : LockTable) : Call → Prop
  | .read (.clustersContaining entities) => ∀ entity ∈ entities, entity ∈ held.members
  | .read (.loadClusters ids) => ∀ cluster ∈ ids, cluster ∈ held.clusters
  | .write (.upsertEdges edges _) => ∀ scored ∈ edges, scored.edge.cluster ∈ held.clusters ∧
      scored.edge.link.src ∈ held.members ∧ scored.edge.link.dst ∈ held.members
  | .write (.deleteTouching entity _) => entity ∈ held.members
  | .write (.appendEntries entries) => ∀ entry ∈ entries, entry.entity ∈ held.members
  | .index (.setCluster entity _ _) => entity ∈ held.members
  | .index (.record entity) => entity ∈ held.members
  | .now => True
  | .tick => True
  | _ => False

structure Apart (held other : LockTable) : Prop where
  members : ∀ entity ∈ held.members, entity ∉ other.members
  clusters : ∀ cluster ∈ held.clusters, cluster ∉ other.clusters

theorem Apart.symm {held other : LockTable} (apart : held.Apart other) : other.Apart held where
  members := fun entity inOther inHeld => apart.members entity inHeld inOther
  clusters := fun cluster inOther inHeld => apart.clusters cluster inHeld inOther

end LockTable

namespace LinkGraph

def Closed (held : LockTable) (graph : LinkGraph) : Prop :=
  ∀ entity ∈ held.members, ∀ cluster, graph.Touches cluster entity → cluster ∈ held.clusters

structure Within (held : LockTable) (graph after : LinkGraph) : Prop where
  scores : ∀ cluster, cluster ∉ held.clusters → after.scores cluster = graph.scores cluster
  touches : ∀ cluster entity, after.Touches cluster entity →
    graph.Touches cluster entity ∨ entity ∈ held.members
  record : ∀ entity, entity ∉ held.members → after.record entity = graph.record entity
  present : ∀ cluster entity, entity ∉ held.members →
    after.present cluster entity = graph.present cluster entity
  stamps : ∀ entity, entity ∉ held.members → after.stamps entity = graph.stamps entity
  lastTick : graph.lastTick ≤ after.lastTick

namespace Within

variable {held : LockTable} {graph middle after : LinkGraph}

theorem refl (held : LockTable) (graph : LinkGraph) : graph.Within held graph where
  scores := fun _ _ => rfl
  touches := fun _ _ => .inl
  record := fun _ _ => rfl
  present := fun _ _ _ => rfl
  stamps := fun _ _ => rfl
  lastTick := Int.le_refl _

theorem trans (first : graph.Within held middle) (second : middle.Within held after) :
    graph.Within held after where
  scores := fun cluster outside => (second.scores cluster outside).trans (first.scores cluster outside)
  touches := fun cluster entity touches =>
    (second.touches cluster entity touches).elim (first.touches cluster entity) .inr
  record := fun entity outside => (second.record entity outside).trans (first.record entity outside)
  present := fun cluster entity outside =>
    (second.present cluster entity outside).trans (first.present cluster entity outside)
  stamps := fun entity outside => (second.stamps entity outside).trans (first.stamps entity outside)
  lastTick := Int.le_trans first.lastTick second.lastTick

theorem closed (within : graph.Within held after) (closed : graph.Closed held) :
    after.Closed held := by
  intro entity inside cluster touches
  apply Classical.byContradiction
  intro outside
  rw [Touches, within.scores cluster outside] at touches
  exact outside (closed entity inside cluster touches)

end Within

structure Alike (held : LockTable) (graph other : LinkGraph) : Prop where
  scores : ∀ cluster ∈ held.clusters, graph.scores cluster = other.scores cluster
  record : ∀ entity ∈ held.members, graph.record entity = other.record entity
  present : ∀ cluster, ∀ entity ∈ held.members,
    graph.present cluster entity = other.present cluster entity
  stamps : ∀ entity ∈ held.members, graph.stamps entity = other.stamps entity
  closed : graph.Closed held
  closedOther : other.Closed held
  lastTick : graph.lastTick ≤ other.lastTick

theorem Within.alike {held other : LockTable} {graph after : LinkGraph}
    (within : graph.Within other after) (apart : held.Apart other) (closed : graph.Closed held) :
    graph.Alike held after where
  scores := fun cluster inside => (within.scores cluster (apart.clusters cluster inside)).symm
  record := fun entity inside => (within.record entity (apart.members entity inside)).symm
  present := fun cluster entity inside =>
    (within.present cluster entity (apart.members entity inside)).symm
  stamps := fun entity inside => (within.stamps entity (apart.members entity inside)).symm
  closed := closed
  closedOther := by
    intro entity inside cluster touches
    rcases within.touches cluster entity touches with old | foreign
    · exact closed entity inside cluster old
    · exact absurd foreign (apart.members entity inside)
  lastTick := within.lastTick

section Wipe

variable {graph : LinkGraph} {entity : EntityKey} {kept : PairSet}

theorem mem_scores_wipe {cluster : Id} {link : Link} :
    link ∈ (graph.wipe entity kept).scores cluster ↔
      link ∈ graph.scores cluster ∧ (link.touches entity → link.pair ∈ kept) := by
  refine mem_filter_key.trans ?_
  cases link.touches entity <;> simp

theorem touches_wipe {cluster : Id} {other : EntityKey}
    (touches : (graph.wipe entity kept).Touches cluster other) : graph.Touches cluster other := by
  obtain ⟨link, about, listed⟩ := touches
  exact ⟨link, about, (mem_scores_wipe.mp listed).1⟩

end Wipe

theorem mem_scores_upsert {graph : LinkGraph} {edges : List ScoredEdge} {cluster : Id}
    {link : Link} :
    link ∈ (graph.upsert edges).scores cluster ↔
      link ∈ graph.scores cluster ∨ ∃ scored ∈ edges, scored.edge = ⟨cluster, link⟩ := by
  induction edges generalizing graph with
  | nil => simp [upsert]
  | cons scored edges ih =>
      refine ih.trans ?_
      obtain ⟨⟨own, ends⟩, score⟩ := scored
      simp only [put, List.mem_cons, exists_eq_or_imp, Edge.mk.injEq]
      by_cases same : own = cluster
      · subst same
        simp only [if_true, Std.ExtTreeMap.mem_insert, Std.LawfulEqOrd.compare_eq_iff_eq, true_and]
        constructor
        · rintro ((first | old) | later)
          · exact .inr (.inl first)
          · exact .inl old
          · exact .inr (.inr later)
        · rintro (old | first | later)
          · exact .inl (.inr old)
          · exact .inl (.inl first)
          · exact .inr later
      · simp [same]

theorem scores_upsert_apart {graph : LinkGraph} {edges : List ScoredEdge} {cluster : Id}
    (apart : ∀ scored ∈ edges, scored.edge.cluster ≠ cluster) :
    (graph.upsert edges).scores cluster = graph.scores cluster := by
  induction edges generalizing graph with
  | nil => rfl
  | cons scored edges ih =>
      have first := apart scored (.head _)
      refine (ih fun other listed => apart other (.tail _ listed)).trans ?_
      simp [put, first]

theorem upsert_rest (graph : LinkGraph) (edges : List ScoredEdge) :
    graph.upsert edges = { graph with scores := (graph.upsert edges).scores } := by
  induction edges generalizing graph with
  | nil => rfl
  | cons scored edges ih => exact ih (graph.put scored)

section Rest

variable (graph : LinkGraph) (edges : List ScoredEdge) (entity : EntityKey) (kept : PairSet)

@[simp] theorem record_upsert : (graph.upsert edges).record = graph.record := by rw [upsert_rest]

@[simp] theorem present_upsert : (graph.upsert edges).present = graph.present := by rw [upsert_rest]

@[simp] theorem stamps_upsert : (graph.upsert edges).stamps = graph.stamps := by rw [upsert_rest]

@[simp] theorem lastTick_upsert : (graph.upsert edges).lastTick = graph.lastTick := by
  rw [upsert_rest]

@[simp] theorem record_wipe : (graph.wipe entity kept).record = graph.record := rfl

@[simp] theorem present_wipe : (graph.wipe entity kept).present = graph.present := rfl

@[simp] theorem stamps_wipe : (graph.wipe entity kept).stamps = graph.stamps := rfl

@[simp] theorem lastTick_wipe : (graph.wipe entity kept).lastTick = graph.lastTick := rfl

end Rest

/-- What a cluster's scores become depends on nothing but what they were. -/
theorem scores_upsert_congr {graph other : LinkGraph} {cluster : Id}
    (same : graph.scores cluster = other.scores cluster) (edges : List ScoredEdge) :
    (graph.upsert edges).scores cluster = (other.upsert edges).scores cluster := by
  induction edges generalizing graph other with
  | nil => exact same
  | cons scored edges ih =>
      apply ih
      simp only [put, same]

section Calls

variable {mayFail : Prop} {held : LockTable} {graph after : LinkGraph} {call : Call}
  {answer : call.Answer}

theorem within_upsert (graph : LinkGraph) {edges : List ScoredEdge}
    (allowed : ∀ scored ∈ edges, scored.edge.cluster ∈ held.clusters ∧
      scored.edge.link.src ∈ held.members ∧ scored.edge.link.dst ∈ held.members) :
    graph.Within held (graph.upsert edges) := by
  rw [upsert_rest]
  constructor
  case scores =>
    intro cluster outside
    apply scores_upsert_apart
    intro scored listed same
    exact outside (same ▸ (allowed scored listed).1)
  case touches =>
    rintro cluster entity ⟨link, about, listed⟩
    rcases mem_scores_upsert.mp listed with old | ⟨scored, new, same⟩
    · exact .inl ⟨link, about, old⟩
    · obtain ⟨_, source, target⟩ := allowed scored new
      rw [same] at source target
      simp only [Link.touches, Bool.or_eq_true, decide_eq_true_eq] at about
      rcases about with rfl | rfl
      · exact .inr source
      · exact .inr target
  case record => exact fun _ _ => rfl
  case present => exact fun _ _ _ => rfl
  case stamps => exact fun _ _ => rfl
  case lastTick => exact Int.le_refl _

theorem within_wipe {entity : EntityKey} {kept : PairSet} (inside : entity ∈ held.members)
    (closed : graph.Closed held) : graph.Within held (graph.wipe entity kept) where
  scores := by
    intro cluster outside
    apply Std.ExtTreeMap.ext_getElem?
    intro link
    simp only [wipe, Std.ExtTreeMap.getElem?_filter']
    cases known : (graph.scores cluster)[link]? with
    | none => rfl
    | some score =>
        cases about : link.touches entity with
        | false => simp
        | true =>
            have listed : link ∈ graph.scores cluster := by
              rw [Std.ExtTreeMap.mem_iff_isSome_getElem?, known]
              rfl
            exact absurd (closed entity inside cluster ⟨link, about, listed⟩) outside
  touches := fun _ _ touches => .inl (touches_wipe touches)
  record := fun _ _ => rfl
  present := fun _ _ _ => rfl
  stamps := fun _ _ => rfl
  lastTick := Int.le_refl _

theorem within_point {entity : EntityKey} (cluster : Id) (inside : entity ∈ held.members) :
    graph.Within held (graph.point entity cluster) where
  scores := fun _ _ => rfl
  touches := fun _ _ => .inl
  record := by
    intro other outside
    have apart : entity ≠ other := fun same => outside (same ▸ inside)
    simp [point, apart]
  present := fun _ _ _ => rfl
  stamps := fun _ _ => rfl
  lastTick := Int.le_refl _

theorem Appends.within {entries : List LogEntry} (appends : graph.Appends entries after)
    (allowed : ∀ entry ∈ entries, entry.entity ∈ held.members) : graph.Within held after where
  scores := fun _ _ => by rw [appends.scores]
  touches := fun _ _ touches => .inl (by rwa [Touches, ← appends.scores])
  record := fun _ _ => by rw [appends.record]
  present := by
    intro cluster entity outside
    apply appends.apart
    intro entry listed _ same
    exact outside (same ▸ allowed entry listed)
  stamps := by
    intro entity outside
    funext time
    refine propext ((appends.stamps entity time).trans ?_)
    constructor
    · rintro (old | ⟨entry, listed, same, _⟩)
      · exact old
      · exact absurd (same ▸ allowed entry listed) outside
    · exact .inl
  lastTick := Int.le_of_eq appends.lastTick.symm

theorem Answers.within (answered : Answers mayFail graph call answer after)
    (allowed : held.Allows call) (closed : graph.Closed held) : graph.Within held after := by
  cases call with
  | read request =>
      have same : after = graph := by
        cases answer <;> exact answered.1
      exact same ▸ .refl held graph
  | write request =>
      cases answer with
      | error error => exact answered.1 ▸ .refl held graph
      | ok written =>
          cases request with
          | upsertEdges edges writtenAt =>
              exact Eq.symm answered ▸ within_upsert graph allowed
          | deleteTouching entity kept => exact Eq.symm answered ▸ within_wipe allowed closed
          | appendEntries entries => exact Appends.within answered allowed
          | _ => exact allowed.elim
  | index request =>
      cases request with
      | setCluster entity cluster linkedAt =>
          cases answer with
          | ok count => exact Eq.symm answered ▸ within_point cluster allowed
          | error error => exact answered.1 ▸ .refl held graph
      | record entity =>
          have same : after = graph := by
            cases answer <;> exact answered.1
          exact same ▸ .refl held graph
      | needingLinking => exact allowed.elim
      | notLinked => exact allowed.elim
  | now => exact Eq.symm answered ▸ .refl held graph
  | tick =>
      obtain ⟨later, _, rfl⟩ := answered
      refine ⟨fun _ _ => rfl, fun _ _ => .inl, fun _ _ => rfl, fun _ _ _ => rfl, fun _ _ => rfl, ?_⟩
      simp only [ticked]
      omega
  | _ => exact allowed.elim

section Replay

variable {other : LinkGraph} (alike : graph.Alike held other)

include alike

theorem Alike.touches {cluster : Id} {entity : EntityKey} (inside : entity ∈ held.members) :
    graph.Touches cluster entity ↔ other.Touches cluster entity := by
  constructor
  · intro touches
    have listed := alike.closed entity inside cluster touches
    rwa [Touches, ← alike.scores cluster listed]
  · intro touches
    have listed := alike.closedOther entity inside cluster touches
    rwa [Touches, alike.scores cluster listed]

/-- Whatever both do to the rows of the locked clusters in the same way. -/
theorem Alike.rescored {rows rows' : Id → LinkScores}
    (same : ∀ cluster ∈ held.clusters, rows cluster = rows' cluster)
    (closed : Closed held { graph with scores := rows })
    (closedOther : Closed held { other with scores := rows' }) :
    Alike held { graph with scores := rows } { other with scores := rows' } where
  scores := same
  record := alike.record
  present := alike.present
  stamps := alike.stamps
  closed := closed
  closedOther := closedOther
  lastTick := alike.lastTick

theorem Alike.upserted {edges : List ScoredEdge}
    (allowed : ∀ scored ∈ edges, scored.edge.cluster ∈ held.clusters ∧
      scored.edge.link.src ∈ held.members ∧ scored.edge.link.dst ∈ held.members) :
    (graph.upsert edges).Alike held (other.upsert edges) := by
  have closed := (within_upsert graph allowed).closed alike.closed
  have closedOther := (within_upsert other allowed).closed alike.closedOther
  rw [upsert_rest] at closed closedOther ⊢
  rw [upsert_rest other]
  exact alike.rescored (fun cluster inside => scores_upsert_congr (alike.scores cluster inside) edges)
    closed closedOther

theorem Alike.wiped {entity : EntityKey} {kept : PairSet} (inside : entity ∈ held.members) :
    (graph.wipe entity kept).Alike held (other.wipe entity kept) :=
  alike.rescored (fun cluster inside => by simp only [alike.scores cluster inside])
    ((within_wipe inside alike.closed).closed alike.closed)
    ((within_wipe inside alike.closedOther).closed alike.closedOther)

theorem Alike.pointed (entity : EntityKey) (cluster : Id) :
    (graph.point entity cluster).Alike held (other.point entity cluster) where
  scores := alike.scores
  record := by
    intro known inside
    simp only [point, alike.record known inside]
  present := alike.present
  stamps := alike.stamps
  closed := alike.closed
  closedOther := alike.closedOther
  lastTick := alike.lastTick

theorem Alike.appended {entries : List LogEntry} (appends : other.Appends entries after)
    (allowed : ∀ entry ∈ entries, entry.entity ∈ held.members) :
    ∃ image, graph.Appends entries image ∧ image.Alike held after := by
  refine ⟨{ graph with
    present := fun cluster entity =>
      if held.members.contains entity then after.present cluster entity
      else graph.present cluster entity
    stamps := fun entity time => graph.stamps entity time ∨
      ∃ entry ∈ entries, entry.entity = entity ∧ entry.micros = time }, ?_, ?_⟩
  · constructor
    case scores => rfl
    case record => rfl
    case lastTick => rfl
    case stamps =>
      intro entity time
      rfl
    case apart =>
      intro cluster entity apart
      dsimp only
      split
      · rename_i inside
        rw [appends.apart cluster entity apart,
          alike.present cluster entity (Std.ExtTreeSet.contains_iff_mem.mp inside)]
      · rfl
    case later =>
      intro entry listed same later
      have inside := allowed entry listed
      dsimp only
      rw [if_pos (Std.ExtTreeSet.contains_iff_mem.mpr inside)]
      apply appends.later entry listed same
      rwa [← alike.stamps _ inside]
  · constructor
    case scores =>
      intro cluster inside
      rw [appends.scores]
      exact alike.scores cluster inside
    case record =>
      intro entity inside
      rw [appends.record]
      exact alike.record entity inside
    case present =>
      intro cluster entity inside
      simp [inside]
    case stamps =>
      intro entity inside
      funext time
      simp only [alike.stamps entity inside]
      exact propext (appends.stamps entity time).symm
    case closed => exact alike.closed
    case closedOther =>
      intro entity inside cluster touches
      rw [Touches, appends.scores] at touches
      exact alike.closedOther entity inside cluster touches
    case lastTick =>
      rw [appends.lastTick]
      exact alike.lastTick

/-- Under the same locks the other graph gives no answer that the first one does not. -/
theorem Alike.replay (answered : Answers mayFail other call answer after)
    (allowed : held.Allows call) :
    ∃ image, Answers mayFail graph call answer image ∧ image.Alike held after := by
  cases call with
  | read request =>
      cases answer with
      | error error =>
          obtain ⟨rfl, failed⟩ := answered
          exact ⟨graph, ⟨rfl, failed⟩, alike⟩
      | ok answer =>
          obtain ⟨rfl, reads⟩ := answered
          refine ⟨graph, ⟨rfl, ?_⟩, alike⟩
          cases request with
          | clustersContaining entities =>
              intro cluster
              refine (reads cluster).trans ?_
              constructor
              · rintro ⟨entity, listed, touches⟩
                exact ⟨entity, listed, (alike.touches (allowed entity listed)).mpr touches⟩
              · rintro ⟨entity, listed, touches⟩
                exact ⟨entity, listed, (alike.touches (allowed entity listed)).mp touches⟩
          | loadClusters ids =>
              intro cluster
              by_cases listed : cluster ∈ ids
              · rw [alike.scores cluster (allowed cluster listed)]
                exact reads cluster
              · exact ⟨fun inside => absurd inside listed, fun _ => (reads cluster).2 (by simp [listed])⟩
          | _ => exact allowed.elim
  | write request =>
      cases answer with
      | error error =>
          obtain ⟨rfl, failed⟩ := answered
          exact ⟨graph, ⟨rfl, failed⟩, alike⟩
      | ok written =>
          cases request with
          | upsertEdges edges writtenAt =>
              exact ⟨_, rfl, Eq.symm answered ▸ alike.upserted allowed⟩
          | deleteTouching entity kept => exact ⟨_, rfl, Eq.symm answered ▸ alike.wiped allowed⟩
          | appendEntries entries => exact alike.appended answered allowed
          | _ => exact allowed.elim
  | index request =>
      cases answer with
      | error error =>
          cases request with
          | setCluster | record =>
              obtain ⟨rfl, failed⟩ := answered
              exact ⟨graph, ⟨rfl, failed⟩, alike⟩
          | needingLinking | notLinked => exact allowed.elim
      | ok answer =>
          cases request with
          | setCluster entity cluster linkedAt =>
              exact ⟨_, rfl, Eq.symm answered ▸ alike.pointed entity cluster⟩
          | record entity =>
              obtain ⟨rfl, found⟩ := answered
              exact ⟨graph, ⟨rfl, found.trans (alike.record entity allowed).symm⟩, alike⟩
          | needingLinking => exact allowed.elim
          | notLinked => exact allowed.elim
  | now => exact ⟨graph, rfl, Eq.symm answered ▸ alike⟩
  | tick =>
      obtain ⟨later, start, rfl⟩ := answered
      have order := alike.lastTick
      exact ⟨graph.ticked answer, ⟨by omega, start, rfl⟩, ⟨alike.scores, alike.record, alike.present,
        alike.stamps, alike.closed, alike.closedOther, Int.le_refl _⟩⟩
  | _ => exact allowed.elim

end Replay

end Calls

end LinkGraph

namespace Program

variable {α : Type} {mayFail : Prop} {held : LockTable} {graph other : LinkGraph}
  {program : Program α} {post : α → LinkGraph → Prop}

theorem Ensures.within
    (ensured : program.Ensures (LinkGraph.Answers mayFail) (fun _ => held.Allows) post graph)
    (closed : graph.Closed held) :
    program.Ensures (LinkGraph.Answers mayFail) (fun _ => held.Allows)
      (fun value after => post value after ∧ graph.Within held after) graph := by
  have kept : program.Ensures (LinkGraph.Answers mayFail) (fun _ => held.Allows)
      (fun value after => ∃ image, (after = image ∧ graph.Within held after) ∧ post value image)
      graph := by
    refine ensured.simulate (fun state image => state = image ∧ graph.Within held state)
      ⟨rfl, .refl held graph⟩ (fun _ _ _ _ allowed => allowed) ?_
    rintro state _ call answer after ⟨rfl, within⟩ allowed answered
    exact ⟨after, answered, rfl, within.trans (answered.within allowed (within.closed closed))⟩
  refine kept.mono ?_
  rintro value state ⟨_, ⟨rfl, within⟩, holds⟩
  exact ⟨holds, within⟩

theorem Ensures.alike
    (ensured : program.Ensures (LinkGraph.Answers mayFail) (fun _ => held.Allows) post graph)
    (alike : graph.Alike held other) :
    program.Ensures (LinkGraph.Answers mayFail) (fun _ => held.Allows)
      (fun value after => ∃ image, image.Alike held after ∧ post value image) other := by
  refine ensured.simulate (fun state image => image.Alike held state) alike
    (fun _ _ _ _ allowed => allowed) ?_
  intro state image call answer after alike allowed answered
  exact alike.replay answered allowed

end Program

end RecordLinkage
