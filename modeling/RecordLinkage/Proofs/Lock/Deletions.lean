import RecordLinkage.Proofs.Lock.Lookups

/-! Deletions and passes that share the rows and the locks, one call of one after the other in any order.
Whoever removes a row has the cluster of the row locked, so nobody else has, and the row is none that a pass
has written under locks that it still has. Only the deletion of a set may remove a row of a cluster that it
has not locked: one that came after its look-ups. -/

namespace RecordLinkage

structure GraphEdits extends GraphUsers where
  flushed : Nat → List Edge

namespace GraphEdits

def start (system : System) : GraphEdits := ⟨⟨system, []⟩, fun _ => []⟩

def begun (edits : GraphEdits) (request : GraphRequest) : GraphEdits :=
  { edits with users := edits.users ++ [.start request] }

def called (edits : GraphEdits) (place : Nat) (user : GraphUser) (call : Call) (answer : call.Answer)
    (rest : Program (Except LinkError (Option Transaction))) (after : System) : GraphEdits where
  system := after
  users := edits.users.set place (user.after edits.system call rest)
  flushed := Function.update edits.flushed place
    (EditProgress.flushedAfter (edits.flushed place) call answer)

inductive Step (edits : GraphEdits) : GraphEdits → Prop
  | begin (request : GraphRequest) : request.IsEdit → Step edits (edits.begun request)
  | call {place : Nat} {user : GraphUser} {call : Call}
      {next : call.Answer → Program (Except LinkError (Option Transaction))} {answer : call.Answer}
      {after : System} :
      edits.users[place]? = some user → user.rest = .ask call next →
      System.Answers True edits.system call answer after →
      Step edits (edits.called place user call answer (next answer) after)
  | elsewhere {call : Call} {answer : call.Answer} {after : System} :
      call.StandsAside → System.Answers True edits.system call answer after →
      Step edits { edits with system := after }
  | reindex (index : Index) : Step edits { edits with system := { edits.system with index } }

abbrev Steps : GraphEdits → GraphEdits → Prop := Relation.ReflTransGen Step

def Deletes (edits after : GraphEdits) (place : Nat) (user : GraphUser) (link : Link) : Prop :=
  ∃ request next answer, edits.users[place]? = some user ∧ user.rest = .ask (.write request) next ∧
    request.Wipes link ∧ after = edits.called place user (.write request) answer (next answer) after.system

end GraphEdits

/-- A deletion of a set that has neither locked a cluster nor, at its last look-up, found a row of the set
there. -/
def GraphUser.Overlooks (user : GraphUser) (cluster : Id) (link : Link) : Prop :=
  ∃ set, user.request = .deleteSet set ∧ link.TouchesSet set ∧ ¬user.held.holds (.cluster cluster) ∧
    ∀ other ∈ user.checked.rowsOf cluster, ¬other.TouchesSet set

namespace System

theorem MayAnswer.lookup {system after : System} {call : Call} {answer : call.Answer} {lookup : Lookup}
    (possible : system.MayAnswer call answer after) (found : Lookup.of? call answer = some lookup) :
    (∃ request, call = .read request) ∧ after = system ∧ lookup.IsOf system.store.tables.matched := by
  unfold Lookup.of? at found
  split at found
  · obtain rfl := Option.some.inj found
    exact ⟨⟨_, rfl⟩, possible.2, possible.1⟩
  · obtain rfl := Option.some.inj found
    exact ⟨⟨_, rfl⟩, possible.2, possible.1⟩
  · contradiction

end System

namespace GraphEdits

variable {edits after : GraphEdits} {place : Nat} {user : GraphUser} {progress : EditProgress}

theorem Step.shared (step : Step edits after) : GraphUsers.Step edits.toGraphUsers after.toGraphUsers := by
  cases step with
  | begin request edit => exact .begin request edit.opens
  | call found asks answered => exact .call found asks answered
  | elsewhere aside answered => exact .elsewhere aside.not_isLock answered
  | reindex index => exact .reindex index

structure Aware (edits : GraphEdits) (place : Nat) (user : GraphUser) (progress : EditProgress) : Prop where
  held : progress.held = user.held
  flushed : progress.flushed = edits.flushed place
  ensured : user.rest.Ensures EditProgress.Recalls (EditProgress.Allows user.request)
    (Action.outcome (fun _ _ => True) fun _ _ => True) progress
  sound : user.checked.Sound
  told : ∀ lookup, progress.last = some lookup → lookup.IsOf user.checked
  fresh : ∀ lookup, progress.last = some lookup → ∀ entity ∈ user.held.members, ∀ cluster link,
    link.touches entity → edits.system.HasRow cluster link → link ∈ user.checked.rowsOf cluster
  covered : ∀ edge ∈ progress.flushed, edge.cluster ∈ user.held.clusters

theorem aware_start {request : GraphRequest} (edit : request.IsEdit) (none : edits.flushed place = []) :
    edits.Aware place (.start request) .start where
  held := edit.opens.locks_eq.symm
  flushed := none.symm
  ensured := edit.edits
  sound := MatchTable.sound_empty
  told := nofun
  fresh := nofun
  covered := nofun

theorem Aware.later (aware : edits.Aware place user progress)
    (flushed : after.flushed place = edits.flushed place)
    (rows : ∀ entity ∈ user.held.members, ∀ cluster link, link.touches entity →
      after.system.HasRow cluster link → edits.system.HasRow cluster link) :
    after.Aware place user progress where
  held := aware.held
  flushed := aware.flushed.trans flushed.symm
  ensured := aware.ensured
  sound := aware.sound
  told := aware.told
  fresh := fun lookup last entity member cluster link touches listed =>
    aware.fresh lookup last entity member cluster link touches (rows entity member cluster link touches listed)
  covered := aware.covered

section Call

variable {call : Call} {next : call.Answer → Program (Except LinkError (Option Transaction))}
  {answer : call.Answer} {system : System}

theorem Aware.allows (aware : edits.Aware place user progress) (asks : user.rest = .ask call next) :
    EditProgress.Allows user.request progress call := by
  have ensured := aware.ensured
  rw [asks] at ensured
  exact ensured.1

theorem Aware.coveredAfter (aware : edits.Aware place user progress) (asks : user.rest = .ask call next)
    (answer : call.Answer) : ∀ edge ∈ EditProgress.flushedAfter progress.flushed call answer,
      edge.cluster ∈ (user.held.afterCall call).clusters := by
  have allowed := aware.allows asks
  intro edge listed
  cases call with
  | write request =>
      cases request with
      | upsertEdges edges writtenAt =>
          cases answer with
          | error error => exact aware.covered edge listed
          | ok written =>
              rcases List.mem_append.mp listed with new | old
              · obtain ⟨scored, among, rfl⟩ := List.mem_map.mp new
                exact aware.held ▸ (allowed scored among).1
              · exact aware.covered edge old
      | _ => exact aware.covered edge listed
  | lock request =>
      cases request with
      | release => cases listed
      | take lock =>
          have old := aware.covered edge listed
          cases lock with
          | member => exact old
          | cluster id => exact Std.ExtTreeSet.mem_insert.mpr (.inr old)
  | _ => exact aware.covered edge listed

theorem Aware.answered (aware : edits.Aware place user progress) (asks : user.rest = .ask call next)
    (sound : edits.system.store.tables.matched.Sound) (possible : edits.system.MayAnswer call answer system) :
    (edits.called place user call answer (next answer) system).Aware place
      (user.after edits.system call (next answer)) (progress.after call answer) where
  held := congrArg (LockTable.afterCall · call) aware.held
  flushed := by
    simp only [called, Function.update_self, ← aware.flushed]
    rfl
  ensured := by
    have ensured := aware.ensured
    rw [asks] at ensured
    exact ensured.2 answer _ rfl
  sound := by
    cases call with
    | read => exact sound
    | _ => exact aware.sound
  told := by
    intro lookup last
    obtain ⟨⟨_, rfl⟩, _, found⟩ := possible.lookup last
    exact found
  fresh := by
    intro lookup last entity _ cluster link _ listed
    obtain ⟨⟨_, rfl⟩, rfl, _⟩ := possible.lookup last
    exact listed
  covered := aware.coveredAfter asks answer

end Call

structure Careful (edits : GraphEdits) : Prop where
  orderly : edits.toGraphUsers.Orderly
  aware : ∀ place user, edits.users[place]? = some user → ∃ progress, edits.Aware place user progress
  none : ∀ place, edits.users[place]? = none → edits.flushed place = []

theorem careful_start {system : System} (free : system.locks = .empty)
    (sound : system.store.tables.matched.Sound) : (start system).Careful where
  orderly := GraphUsers.orderly_of_reached rfl free sound .refl
  aware := nofun
  none := fun _ _ => rfl

theorem Careful.begun (careful : edits.Careful) {request : GraphRequest} (edit : request.IsEdit) :
    (edits.begun request).Careful where
  orderly := careful.orderly.step (Step.begin request edit).shared
  aware := by
    intro place user found
    rcases Nat.lt_or_ge place edits.users.length with inside | outside
    · rw [GraphEdits.begun, List.getElem?_append_left inside] at found
      obtain ⟨progress, aware⟩ := careful.aware place user found
      exact ⟨progress, aware.later rfl fun _ _ _ _ _ => id⟩
    · have none := careful.none place (List.getElem?_eq_none outside)
      rw [GraphEdits.begun, List.getElem?_append_right outside, List.getElem?_singleton] at found
      split at found
      · obtain rfl := Option.some.inj found
        exact ⟨.start, aware_start edit none⟩
      · contradiction
  none := by
    intro place outside
    refine careful.none place (List.getElem?_eq_none ?_)
    rw [List.getElem?_eq_none_iff, GraphEdits.begun, List.length_append] at outside
    exact Nat.le_trans (Nat.le_add_right _ _) outside

theorem Careful.alone (careful : edits.Careful) (found : edits.users[place]? = some user) {lock : Lock}
    (mine : user.held.holds lock) (other : Nat) (has : (edits.held other).holds lock) : other = place :=
  careful.orderly.shared.apart other place lock has (LockTable.holds_listed.mpr ⟨user, found, mine⟩)

theorem Careful.fresh_of_other (careful : edits.Careful) {other : Nat} {one : GraphUser} {call : Call}
    {answer : call.Answer} {system : System} {next : call.Answer → Program (Except LinkError (Option Transaction))}
    (found : edits.users[place]? = some user) (asks : user.rest = .ask call next)
    (possible : edits.system.MayAnswer call answer system)
    (apart : other ≠ place) (foundOther : edits.users[other]? = some one) :
    ∀ entity ∈ one.held.members, ∀ cluster link, link.touches entity → system.HasRow cluster link →
      edits.system.HasRow cluster link := by
  intro entity member cluster link touches listed
  by_contra fresh
  -- Whoever writes a new row has both of its ends locked, so nobody else has one of them.
  obtain ⟨edges, writtenAt, rfl, scored, among, same⟩ := possible.added listed fresh
  obtain ⟨progress, aware⟩ := careful.aware place user found
  obtain ⟨_, source, target⟩ := aware.allows asks scored among
  have mine : entity ∈ user.held.members := by
    rw [same, aware.held] at source target
    simp only [Link.touches, Bool.or_eq_true, decide_eq_true_eq] at touches
    rcases touches with rfl | rfl
    · exact source
    · exact target
  have locked : user.held.holds (.member entity) := Std.ExtTreeSet.contains_iff_mem.mpr mine
  have lockedOther : one.held.holds (.member entity) := Std.ExtTreeSet.contains_iff_mem.mpr member
  exact apart (careful.alone found locked other (LockTable.holds_listed.mpr ⟨one, foundOther, lockedOther⟩))

theorem Careful.called (careful : edits.Careful) {call : Call} {answer : call.Answer} {system : System}
    {next : call.Answer → Program (Except LinkError (Option Transaction))}
    (found : edits.users[place]? = some user) (asks : user.rest = .ask call next)
    (answered : System.Answers True edits.system call answer system) :
    (edits.called place user call answer (next answer) system).Careful where
  orderly := careful.orderly.step (Step.call found asks answered).shared
  aware := by
    intro other one foundOther
    by_cases same : other = place
    · subst same
      rw [GraphEdits.called, List.getElem?_set_self (List.getElem?_eq_some_iff.mp found).1,
        Option.some.injEq] at foundOther
      obtain ⟨progress, aware⟩ := careful.aware other user found
      exact ⟨_, foundOther ▸ aware.answered asks careful.orderly.sound answered.1⟩
    · rw [GraphEdits.called, List.getElem?_set_ne (Ne.symm same)] at foundOther
      obtain ⟨progress, aware⟩ := careful.aware other one foundOther
      exact ⟨progress, aware.later (Function.update_of_ne same _ _)
        (careful.fresh_of_other found asks answered.1 same foundOther)⟩
  none := by
    intro other outside
    have apart : other ≠ place := by
      rintro rfl
      rw [GraphEdits.called, List.getElem?_set_self (List.getElem?_eq_some_iff.mp found).1] at outside
      contradiction
    rw [GraphEdits.called, List.getElem?_set_ne (Ne.symm apart)] at outside
    exact (Function.update_of_ne apart _ _).trans (careful.none other outside)

theorem Careful.elsewhere (careful : edits.Careful) {call : Call} {answer : call.Answer} {system : System}
    (aside : call.StandsAside) (answered : System.Answers True edits.system call answer system) :
    Careful { edits with system } where
  orderly := careful.orderly.step (Step.elsewhere aside answered).shared
  aware := by
    intro place user found
    obtain ⟨progress, aware⟩ := careful.aware place user found
    refine ⟨progress, aware.later rfl fun entity _ cluster link _ listed => ?_⟩
    by_contra fresh
    obtain ⟨_, _, rfl, _⟩ := answered.1.added listed fresh
    exact aside
  none := careful.none

theorem Careful.step (careful : edits.Careful) (step : Step edits after) : after.Careful := by
  cases step with
  | begin request edit => exact careful.begun edit
  | call found asks answered => exact careful.called found asks answered
  | elsewhere aside answered => exact careful.elsewhere aside answered
  | reindex index =>
      refine ⟨careful.orderly.step (Step.reindex index).shared, ?_, careful.none⟩
      intro place user found
      obtain ⟨progress, aware⟩ := careful.aware place user found
      exact ⟨progress, aware.later rfl fun _ _ _ _ _ => id⟩

theorem careful_of_reached {system : System} (free : system.locks = .empty)
    (sound : system.store.tables.matched.Sound) (reached : Steps (start system) edits) : edits.Careful := by
  induction reached with
  | refl => exact careful_start free sound
  | tail _ step ih => exact ih.step step

/-- A user that covers an entity has the cluster of each row of the entity locked. -/
theorem Aware.locked (aware : edits.Aware place user progress) {entity : EntityKey} {cluster : Id} {link : Link}
    (covers : progress.Covers entity) (touches : link.touches entity) (had : edits.system.HasRow cluster link) :
    cluster ∈ user.held.clusters := by
  obtain ⟨member, entities, ids, last, listed, locked⟩ := covers
  have old := aware.fresh _ last entity (aware.held ▸ member) cluster link touches had
  have found : ids = user.checked.clustersContaining entities := aware.told _ last
  refine aware.held ▸ locked cluster ?_
  rw [found, MatchTable.mem_clustersContaining aware.sound]
  exact ⟨entity, listed, link, touches, old⟩

/-- A deletion of a set has the clusters locked in which it found rows of the set. -/
theorem Aware.locked_of_seen (aware : edits.Aware place user progress) {set cluster : Id} {link : Link}
    (covers : progress.CoversSet set) (seen : link ∈ user.checked.rowsOf cluster) (touches : link.TouchesSet set) :
    cluster ∈ user.held.clusters := by
  obtain ⟨edges, last, locked⟩ := covers
  obtain ⟨row, known⟩ := Option.isSome_iff_exists.mp (Std.ExtTreeMap.mem_iff_isSome_getElem?.mp seen)
  have found : edges = user.checked.all := aware.told _ last
  have listed : ⟨⟨cluster, link⟩, row⟩ ∈ edges := found ▸ MatchTable.mem_all.mpr known
  exact aware.held ▸ locked _ listed touches

/-- Only who has the cluster locked has written edges there under locks that it still has. -/
theorem Careful.not_flushed (careful : edits.Careful) (found : edits.users[place]? = some user)
    (aware : edits.Aware place user progress) (unwritten : progress.flushed = []) {edge : Edge}
    (locked : user.held.holds (.cluster edge.cluster)) (other : Nat) : edge ∉ edits.flushed other := by
  intro written
  cases foundOther : edits.users[other]? with
  | none => simp [careful.none other foundOther] at written
  | some one =>
      obtain ⟨progressOther, awareOther⟩ := careful.aware other one foundOther
      have covered : one.held.holds (.cluster edge.cluster) :=
        Std.ExtTreeSet.contains_iff_mem.mpr (awareOther.covered edge (awareOther.flushed ▸ written))
      obtain rfl := careful.alone found locked other (LockTable.holds_listed.mpr ⟨one, foundOther, covered⟩)
      simp [← aware.flushed, unwritten] at written

end GraphEdits

inductive GraphMove where
  | begin (request : GraphRequest) (edit : request.IsEdit)
  | call (place : Nat)

namespace GraphEdits

variable {edits after : GraphEdits}

def move? (edits : GraphEdits) : GraphMove → Option GraphEdits
  | .begin request _ => some (edits.begun request)
  | .call place =>
      match edits.users[place]? with
      | some ⟨request, .ask call next, held, checked⟩ =>
          (edits.system.answer? call).map fun (answer, system) =>
            edits.called place ⟨request, .ask call next, held, checked⟩ call answer (next answer) system
      | _ => none

theorem step_of_move {move : GraphMove} (moved : edits.move? move = some after) : Step edits after := by
  cases move with
  | begin request edit =>
      obtain rfl := Option.some.inj moved
      exact .begin request edit
  | call place =>
      simp only [move?] at moved
      split at moved
      · rename_i found
        obtain ⟨⟨answer, system⟩, answered, rfl⟩ := Option.map_eq_some_iff.mp moved
        exact .call found rfl ⟨System.mayAnswer_of_answer? answered, .inr trivial⟩
      · cases moved

end GraphEdits

namespace GraphRequest

def isDeleteSet : GraphRequest → Bool
  | deleteSet _ => true
  | _ => false

def isLink : GraphRequest → Bool
  | link _ _ => true
  | _ => false

end GraphRequest

namespace GraphUser

def deletes (set : Id) : GraphUser → Bool
  | ⟨.deleteSet _, .ask (.write (.deleteTouchingSet own)) _, _, _⟩ => own = set
  | _ => false

theorem rest_of_deletes {set : Id} {user : GraphUser} (deletes : user.deletes set) :
    user.request.isDeleteSet ∧ ∃ next, user.rest = .ask (.write (.deleteTouchingSet set)) next := by
  unfold GraphUser.deletes at deletes
  split at deletes
  · obtain rfl := of_decide_eq_true deletes
    exact ⟨rfl, _, rfl⟩
  · contradiction

end GraphUser

namespace System

def hasRow? (system : System) (edge : Edge) : Bool :=
  (system.store.tables.matched.rowsOf edge.cluster).contains edge.link

theorem hasRow?_iff {system : System} {edge : Edge} :
    system.hasRow? edge ↔ system.HasRow edge.cluster edge.link := Std.ExtTreeMap.contains_iff_mem

end System

namespace Sample

def pair : Edge := ⟨.ofNat 100, ⟨left, right⟩⟩

def waiting : List GraphMove :=
  [.begin (.link linker left) trivial] ++ List.replicate 23 (.call 0) ++
    [.begin (.deleteEdge pair.link) trivial, .call 1] ++ List.replicate 8 (.call 0) ++ List.replicate 4 (.call 1)

/-- A pass writes the first edges of a set once the deletion of the set has looked for its clusters. -/
def overlooking : List GraphMove :=
  [.begin (.deleteSet set) trivial, .call 0, .call 0, .begin (.link linker left) trivial] ++
    List.replicate 23 (.call 1)

end Sample

namespace GraphEdits

open Sample

variable {edits after : GraphEdits}

/-- Whenever a row is removed, one user removes it. It alone has the cluster of the row locked, and no user
has written the row under locks that it still has; or it deletes a set and has overlooked the cluster. -/
theorem removed_by_holder {system : System} (free : system.locks = .empty)
    (sound : system.store.tables.matched.Sound) (reached : Steps (start system) edits) (step : Step edits after)
    {cluster : Id} {link : Link} (had : edits.system.HasRow cluster link)
    (gone : ¬after.system.HasRow cluster link) :
    ∃ place user, edits.Deletes after place user link ∧
      (user.Overlooks cluster link ∨ user.held.holds (.cluster cluster) ∧
        (∀ other, (edits.held other).holds (.cluster cluster) → other = place) ∧
        ∀ other, ⟨cluster, link⟩ ∉ edits.flushed other) := by
  have careful := careful_of_reached free sound reached
  cases step with
  | begin | reindex => exact absurd had gone
  | elsewhere aside answered =>
      obtain ⟨request, rfl, wipes⟩ := answered.1.wipes careful.orderly.sound had gone
      exact absurd aside wipes.not_standsAside
  | @call place user call next answer later found asks answered =>
      obtain ⟨request, rfl, wipes⟩ := answered.1.wipes careful.orderly.sound had gone
      refine ⟨place, user, ⟨request, next, answer, found, asks, wipes, rfl⟩, ?_⟩
      obtain ⟨progress, aware⟩ := careful.aware place user found
      have allowed := aware.allows asks
      have sole : progress.flushed = [] → cluster ∈ user.held.clusters →
          user.held.holds (.cluster cluster) ∧
            (∀ other, (edits.held other).holds (.cluster cluster) → other = place) ∧
            ∀ other, ⟨cluster, link⟩ ∉ edits.flushed other := by
        intro unwritten member
        have locked : user.held.holds (.cluster cluster) := Std.ExtTreeSet.contains_iff_mem.mpr member
        exact ⟨locked, careful.alone found locked, careful.not_flushed found aware unwritten locked⟩
      cases request with
      | deleteTouchingSet set =>
          obtain ⟨own, unwritten, covers⟩ := allowed
          by_cases locked : cluster ∈ user.held.clusters
          · exact .inr (sole unwritten locked)
          · -- It locks no entity, so rows may have come since its last look-up; there were none then.
            refine .inl ⟨set, own, wipes, by simpa [LockTable.holds] using locked, fun other seen touches => ?_⟩
            exact locked (aware.locked_of_seen covers seen touches)
      | deleteEdge | deleteTouching | deleteTouchingKeys =>
          -- With an end of the row locked, the row was there at the last look-up and so its cluster is locked.
          obtain ⟨unwritten, entity, touches, covers⟩ := allowed link wipes
          exact .inr (sole unwritten (aware.locked covers touches had))
      | _ => exact wipes.elim

theorem removed_by_holder_waiting :
    ∃ edits after, Steps (start Sample.start) edits ∧ Step edits after ∧
      edits.system.HasRow pair.cluster pair.link ∧ ¬after.system.HasRow pair.cluster pair.link ∧
      ∃ place user, edits.Deletes after place user pair.link ∧ user.held.holds (.cluster pair.cluster) ∧
        (∀ other, (edits.held other).holds (.cluster pair.cluster) → other = place) ∧
        ∀ other, pair ∉ edits.flushed other := by
  have ran : (waiting.foldlM move? (start Sample.start)).any fun edits =>
      edits.system.hasRow? pair && ((edits.move? (.call 1)).any fun after => !after.system.hasRow? pair) &&
        edits.users.all fun user => !user.request.isDeleteSet := by decide +kernel
  obtain ⟨edits, ended, holds⟩ := (Option.any_eq_true _ _).mp ran
  obtain ⟨holds, others⟩ := Bool.and_eq_true_iff.mp holds
  obtain ⟨had, holds⟩ := Bool.and_eq_true_iff.mp holds
  obtain ⟨after, moved, gone⟩ := (Option.any_eq_true _ _).mp holds
  have reached := steps_of_moves ended fun _ _ _ => step_of_move
  have free : Sample.start.locks = .empty := rfl
  have sound : Sample.start.store.tables.matched.Sound := MatchTable.sound_empty
  have had : edits.system.HasRow pair.cluster pair.link := System.hasRow?_iff.mp had
  have gone : ¬after.system.HasRow pair.cluster pair.link := by
    rw [← System.hasRow?_iff]
    simpa using gone
  obtain ⟨place, user, deletes, overlooks | sole⟩ :=
    removed_by_holder free sound reached (step_of_move moved) had gone
  · -- Nobody deletes a set.
    obtain ⟨set, own, _⟩ := overlooks
    obtain ⟨_, _, _, found, _⟩ := deletes
    have other := List.all_eq_true.mp others user (List.mem_of_getElem? found)
    simp [own, GraphRequest.isDeleteSet] at other
  · exact ⟨edits, after, reached, step_of_move moved, had, gone, place, user, deletes, sole⟩

/-- The deletion of a set removes a row that a pass has written, while the pass has the cluster locked. -/
theorem removed_under_pass :
    ∃ edits after, Steps (start Sample.start) edits ∧ Step edits after ∧
      edits.system.HasRow pair.cluster pair.link ∧ ¬after.system.HasRow pair.cluster pair.link ∧
      ∃ user pass, edits.Deletes after 0 user pair.link ∧ user.request.isDeleteSet ∧
        edits.users[1]? = some pass ∧ pass.request.isLink ∧ (edits.held 1).holds (.cluster pair.cluster) ∧
        pair ∈ edits.flushed 1 := by
  let wiped (system : System) : Except LinkError Written × System := system.write (.deleteTouchingSet set)
  have ran : (overlooking.foldlM move? (start Sample.start)).any fun edits =>
      (edits.system.hasRow? pair && !(wiped edits.system).2.hasRow? pair && (edits.flushed 1).contains pair) &&
        ((edits.users[0]?.any fun user => user.deletes set) &&
          edits.users[1]?.any fun pass => pass.request.isLink && pass.held.holds (.cluster pair.cluster)) := by
    decide +kernel
  obtain ⟨edits, ended, holds⟩ := (Option.any_eq_true _ _).mp ran
  simp only [Bool.and_eq_true, Option.any_eq_true, List.contains_iff_mem, Bool.not_eq_true'] at holds
  obtain ⟨⟨⟨had, gone⟩, written⟩, ⟨user, found, deletes⟩, pass, foundPass, links, locked⟩ := holds
  obtain ⟨own, next, asks⟩ := GraphUser.rest_of_deletes deletes
  have answered : System.Answers True edits.system (.write (.deleteTouchingSet set)) (wiped edits.system).1
      (wiped edits.system).2 := ⟨System.mayAnswer_of_answer? rfl, .inr trivial⟩
  have reached := steps_of_moves ended fun _ _ _ => step_of_move
  refine ⟨edits, _, reached, .call found asks answered, System.hasRow?_iff.mp had, ?_, user, pass,
    ⟨_, next, _, found, asks, .inl rfl, rfl⟩, own, foundPass, links, ?_, written⟩
  · intro kept
    have listed : (wiped edits.system).2.hasRow? pair := System.hasRow?_iff.mpr kept
    rw [gone] at listed
    contradiction
  · rwa [GraphUsers.held, LockTable.listed_eq GraphUser.held foundPass]

end GraphEdits

end RecordLinkage
