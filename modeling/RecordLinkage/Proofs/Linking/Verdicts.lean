import Mathlib.Logic.Relation
import RecordLinkage.Proofs.Feedback.Coherence
import RecordLinkage.Proofs.Linking.Calls
import RecordLinkage.Proofs.Linking.Candidates

/-! Passes respect feedback in the rows that they remove and write. A pass protects the pairs of the positive
rows that it reads, and it accepts no entity from which a verdict keeps its focal one apart; the cache
that it asks first never has another verdict than the table. -/

namespace RecordLinkage

namespace Call

def LoadsAsked : (call : Call) → call.Answer → Prop
  | .host (.loadMany _ keys), .ok items => ∀ key properties, .ok (key, properties) ∈ items → key ∈ keys
  | _, _ => True

end Call

namespace Loaded

theorem of_mem_ofStream {set : Id} {stream : PropertyStream} {entity : EntityKey}
    {properties : Properties} (sent : .ok (entity, properties) ∈ ofStream set stream) :
    entity.set = set ∧ .ok (entity.key, properties) ∈ stream := by
  induction stream with
  | nil => cases sent
  | cons item stream ih =>
      cases item with
      | error error => simp [ofStream] at sent
      | ok loaded =>
          rcases List.mem_cons.mp sent with same | later
          · cases same
            exact ⟨rfl, .head _⟩
          · exact ⟨(ih later).1, .tail _ (ih later).2⟩

end Loaded

namespace EntityPair

variable {a b entity : EntityKey}

theorem involves_of : (of a b).involves entity ↔ a = entity ∨ b = entity := by
  unfold of involves
  split
  · simp
  · simp [or_comm]

theorem of_self_ne {c : EntityKey} (apart : a ≠ b) : of c c ≠ of a b := by
  intro same
  have first : (of c c).involves a := same ▸ involves_of.mpr (.inl rfl)
  have second : (of c c).involves b := same ▸ involves_of.mpr (.inr rfl)
  rw [involves_of, or_self] at first second
  exact apart (first.symm.trans second)

end EntityPair

namespace Link

theorem touches_iff {link : Link} {entity : EntityKey} :
    link.touches entity ↔ link.pair.involves entity := by
  rw [pair, EntityPair.involves_of]
  simp [touches]

end Link

namespace System

def testimony (system : System) : Testimony where
  verdict pair value := system.stored pair = value
  rows entity verdict rows := rows = system.store.tables.feedback.findByEntity entity verdict
  loads set keys entity := entity.set = set ∧ entity.key ∈ keys
  told := by
    rintro entity verdict _ rfl row listed
    exact FeedbackTable.getElem?_of_mem_findByEntity listed

section Backs

variable {system : System} {prepared : Prepared} {pair : EntityPair} {a b entity : EntityKey}

theorem mem_positive (sound : system.store.tables.feedback.Sound)
    (backs : system.testimony.Backs prepared) :
    pair ∈ prepared.positive ↔ pair.involves prepared.focal ∧ system.stored pair = some true := by
  obtain ⟨rows, rfl, same⟩ := backs.positive
  simp only [same, Std.ExtTreeSet.mem_ofList, List.contains_iff_mem, List.mem_map,
    FeedbackTable.mem_findByEntity sound, Verdict.accepts]
  constructor
  · rintro ⟨⟨pair, linked⟩, ⟨about, known, positive⟩, rfl⟩
    obtain rfl : linked = true := positive
    exact ⟨about, known⟩
  · rintro ⟨about, known⟩
    exact ⟨⟨pair, true⟩, ⟨about, known, rfl⟩, rfl⟩

theorem undisputed_of_accepted (backs : system.testimony.Backs prepared)
    (accepted : entity ∈ prepared.scored) (apart : a ≠ b) (negative : system.stored (.of a b) = some false) :
    EntityPair.of prepared.focal entity ≠ .of a b := by
  intro same
  rcases backs.scored entity accepted with rfl | ⟨set, keys, ⟨rfl, asked⟩, clear⟩
  · exact EntityPair.of_self_ne apart same
  · obtain ⟨value, known, other⟩ := clear _ asked
    rw [← same] at negative
    exact other (known.symm.trans negative)

end Backs

def Heeds (system : System) (focal : EntityKey) (call : Call) : Prop :=
  system.testimony.Allows call ∨ ∃ prepared : Prepared, ∃ flushed,
    prepared.focal = focal ∧ system.testimony.Backs prepared ∧ prepared.Permits flushed call

structure Retains (system now : System) : Prop where
  feedback : now.store.tables.feedback = system.store.tables.feedback
  coherent : now.Coherent

def AnswersAsked : Answering System := fun system call answer after =>
  Answers True system call answer after ∧ call.LoadsAsked answer

variable {system now after : System} {focal a b : EntityKey} {call : Call} {answer : call.Answer}

theorem Retains.stored (retains : system.Retains now) : now.stored = system.stored := by
  funext pair
  simp only [System.stored, retains.feedback]

theorem Heeds.keepsFeedback (heeds : system.Heeds focal call) : call.KeepsFeedback := by
  rcases heeds with allowed | ⟨prepared, flushed, _, _, permitted⟩
  · cases call with
    | write => exact allowed.looks.elim
    | _ => trivial
  · cases call with
    | write request =>
        cases request with
        | upsertFeedback | deleteFeedbackInSet | deleteFeedbackOn => exact permitted.elim
        | _ => trivial
    | _ => trivial

theorem Retains.kept (retains : system.Retains now) (keeps : call.KeepsFeedback)
    (puts : ∀ request, call = .feedbackCache request →
      request.Puts fun pair value => system.stored pair = value)
    (possible : now.MayAnswer call answer after) : system.Retains after where
  feedback := (possible.feedback keeps).trans retains.feedback
  coherent := retains.coherent.answered keeps (retains.stored ▸ puts) possible

theorem Retains.answered (retains : system.Retains now) (heeds : system.Heeds focal call)
    (possible : now.MayAnswer call answer after) : system.Retains after := by
  refine retains.kept heeds.keepsFeedback ?_ possible
  rintro request rfl
  rcases heeds with allowed | ⟨_, _, _, _, permitted⟩
  · exact allowed
  · exact permitted.elim

/-- What a pass hears is so whatever the loader sends. -/
theorem Retains.heard (retains : system.Retains now) (possible : now.MayAnswer call answer after) :
    { system.testimony with loads := fun _ _ _ => True }.Answers () call answer () := by
  unfold Testimony.Answers
  split
  · rename_i pair row
    obtain ⟨rfl, _⟩ := possible
    refine Eq.symm (Eq.trans (FeedbackTable.map_linked_get?) ?_)
    rw [retains.feedback]
    rfl
  · rename_i entity verdict rows
    obtain ⟨rfl, _⟩ := possible
    exact congrArg (FeedbackTable.findByEntity · entity verdict) retains.feedback
  · rename_i pair value
    obtain ⟨_, answers, _⟩ := possible
    have known := retains.coherent.cache.found answers
    rwa [retains.stored] at known
  · exact fun _ _ _ => trivial
  · trivial

theorem Retains.testifies (retains : system.Retains now) (answered : now.AnswersAsked call answer after) :
    system.testimony.Answers () call answer () := by
  obtain ⟨⟨possible, free⟩, asked⟩ := answered
  have heard := retains.heard possible
  clear free possible
  unfold Testimony.Answers
  split
  · exact heard
  · exact heard
  · exact heard
  · rename_i set keys answer
    intro entity properties sent
    cases answer with
    | error error => simp [Loaded.ofAnswer] at sent
    | ok items =>
        obtain ⟨own, listed⟩ := Loaded.of_mem_ofStream sent
        exact ⟨own, asked _ _ listed⟩
  · trivial

end System

namespace Prepared

structure Rewrites (prepared : Prepared) (graph after : LinkGraph) : Prop where
  kept : ∀ cluster, ∀ link ∈ graph.scores cluster,
    (link.touches prepared.focal → link.pair ∈ prepared.positive) → link ∈ after.scores cluster
  new : ∀ cluster, ∀ link ∈ after.scores cluster, link ∈ graph.scores cluster ∨
    ∃ entity ∈ prepared.scored, link = ⟨prepared.focal, entity⟩ ∨ link = ⟨entity, prepared.focal⟩

variable {prepared : Prepared} {graph after : LinkGraph}

theorem rewrites_of_eq (same : after.scores = graph.scores) : prepared.Rewrites graph after where
  kept _ _ listed _ := same ▸ listed
  new _ _ listed := .inl (same ▸ listed)

theorem Permits.rewrites {flushed : Bool} {call : Call} {answer : call.Answer}
    (permitted : prepared.Permits flushed call)
    (answered : LinkGraph.Answers True graph call answer after) : prepared.Rewrites graph after := by
  cases call with
  | write request =>
      cases answer with
      | error error => exact rewrites_of_eq (answered.1 ▸ rfl)
      | ok written =>
          cases request with
          | deleteTouching entity kept =>
              obtain ⟨rfl, rfl⟩ := permitted
              obtain rfl := answered
              exact ⟨fun _ _ listed spared => LinkGraph.mem_scores_wipe.mpr ⟨listed, spared⟩,
                fun _ _ listed => .inl (LinkGraph.mem_scores_wipe.mp listed).1⟩
          | upsertEdges edges writtenAt =>
              obtain rfl := answered
              refine ⟨fun _ _ listed _ => LinkGraph.mem_scores_upsert.mpr (.inl listed), ?_⟩
              intro cluster link listed
              rcases LinkGraph.mem_scores_upsert.mp listed with old | ⟨scored, new, same⟩
              · exact .inl old
              · obtain ⟨entity, accepted, ends⟩ := permitted scored new
                rw [same] at ends
                exact .inr ⟨entity, accepted, ends⟩
          | appendEntries => exact rewrites_of_eq answered.scores
          | _ => exact permitted.elim
  | read request => cases answer <;> exact rewrites_of_eq (answered.1 ▸ rfl)
  | index request =>
      cases request with
      | setCluster =>
          cases answer with
          | ok answer => exact rewrites_of_eq (answered ▸ rfl)
          | error error => exact rewrites_of_eq (answered.1 ▸ rfl)
      | record => cases answer <;> exact rewrites_of_eq (answered.1 ▸ rfl)
      | _ => exact permitted.elim
  | tick => exact rewrites_of_eq (answered.2.2 ▸ rfl)
  | lock | now | drawId => exact rewrites_of_eq (answered ▸ rfl)
  | _ => exact permitted.elim

end Prepared

namespace System

variable {system now after : System} {focal a b : EntityKey} {call : Call} {answer : call.Answer}

def HasRow (system : System) (cluster : Id) (link : Link) : Prop :=
  link ∈ system.store.tables.matched.rowsOf cluster

theorem Depicts.hasRow {graph : LinkGraph} (depicted : system.Depicts graph) {cluster : Id} {link : Link} :
    link ∈ graph.scores cluster ↔ system.HasRow cluster link := by
  rw [depicted.scores, ClusterRows.mem_scores]
  rfl

/-- A call of a pass removes no row of a pair with positive feedback and adds none of a pair with negative
feedback. -/
theorem Heeds.rows (heeds : system.Heeds focal call) (coherent : system.Coherent)
    (sound : now.store.tables.matched.Sound) (answered : Answers True now call answer after)
    {cluster : Id} {link : Link} : after.store.tables.matched.Sound ∧
      (system.stored link.pair = some true → now.HasRow cluster link → after.HasRow cluster link) ∧
      (link.src ≠ link.dst → system.stored link.pair = some false → after.HasRow cluster link →
        now.HasRow cluster link) := by
  obtain ⟨image, given, depicts⟩ := (depicts_self sound).answered answered
  simp only [← depicts.hasRow, ← (depicts_self sound).hasRow]
  refine ⟨depicts.sound, ?_⟩
  rcases heeds with allowed | ⟨prepared, flushed, rfl, backs, permitted⟩
  · rw [given.looked allowed.looks]
    exact ⟨fun _ => id, fun _ _ => id⟩
  · have rewrites := permitted.rewrites given
    constructor
    · intro positive listed
      refine rewrites.kept cluster link listed fun touches => ?_
      exact (mem_positive coherent.sound backs).mpr ⟨Link.touches_iff.mp touches, positive⟩
    · intro apart negative listed
      refine (rewrites.new cluster link listed).resolve_right ?_
      rintro ⟨entity, accepted, ends⟩
      refine undisputed_of_accepted backs accepted apart negative ?_
      rcases ends with rfl | rfl
      · rfl
      · exact EntityPair.of_comm _ _

def Parts (system : System) (focal : EntityKey) (after : System) : Prop :=
  ∀ a b, a ≠ b → (EntityPair.of a b).involves focal → system.stored (.of a b) = some false →
    ∀ cluster link, link.pair = .of a b → ¬after.HasRow cluster link

variable {graph : LinkGraph} {prepared : Prepared} {linker : Linker}

theorem ensures_prepare (coherent : system.Coherent) (depicted : system.Depicts graph) :
    (linker.prepare focal).Ensures AnswersAsked (fun _ => system.Heeds focal) (fun _ _ => True)
      (fun found now => now.Depicts graph ∧ Linking.Found found ∧ ∀ prepared, found = .inr prepared →
        prepared.focal = focal ∧ system.testimony.Backs prepared) system := by
  have hears : (linker.prepare focal).Hears system.testimony _ := linker.hears_prepare focal
  have heard : (linker.prepare focal).run.Ensures AnswersAsked (fun _ => system.Heeds focal) _ system :=
    Program.Ensures.simulate hears (fun now _ => system.Retains now) ⟨rfl, coherent⟩
      (fun _ _ _ _ => .inl) (by
        intro now _ call answer after retains allowed answered
        have heeds : system.Heeds focal call := .inl allowed
        exact ⟨(), retains.testifies answered, retains.answered heeds answered.1.1⟩)
  have looks : (linker.prepare focal).Looks True _ := linker.looks_prepare focal
  have looked : (linker.prepare focal).run.Ensures AnswersAsked (fun _ _ => True) _ system :=
    Program.Ensures.simulate looks (fun now _ => now.Depicts graph) depicted
      (fun _ _ _ _ _ => trivial) (by
        intro now _ call answer after depicts allowed answered
        obtain ⟨image, given, depicts⟩ := depicts.answered answered.1
        exact ⟨(), .inr trivial, given.looked allowed ▸ depicts⟩)
  refine Program.Ensures.mono (heard.and looked) ?_
  rintro result now ⟨⟨_, _, told⟩, ⟨_, depicts, found⟩⟩
  cases result with
  | ok value => exact ⟨depicts, found, told⟩
  | error error => trivial

theorem parts_of_placed {image : LinkGraph} {held : LockTable} {reserved : Id} (coherent : system.Coherent)
    (backs : system.testimony.Backs prepared) (placed : prepared.Placed held reserved graph image)
    (depicted : after.Depicts image) : system.Parts prepared.focal after := by
  obtain ⟨snapshot, places⟩ := placed
  intro a b apart about negative cluster link same listed
  rw [← depicted.hasRow, places.scores, LinkGraph.mem_scores_upsert] at listed
  rcases listed with old | ⟨scored, new, own⟩
  · -- The wipe left the row, so its pair is protected.
    have spared := (LinkGraph.mem_scores_wipe.mp old).2 (Link.touches_iff.mpr (same ▸ about))
    have positive := ((mem_positive coherent.sound backs).mp spared).2
    rw [same, negative] at positive
    cases positive
  · -- The pass wrote the row, so it accepted the other end.
    obtain ⟨_, entity, known, ends⟩ := Prepared.mem_edges new
    have accepted : entity ∈ prepared.scored := by
      rw [Std.ExtTreeMap.mem_iff_isSome_getElem?, Prepared.getElem?_matched known]
      rfl
    refine undisputed_of_accepted backs accepted apart negative ?_
    rw [own] at ends
    rw [← same]
    rcases ends with rfl | rfl
    · rfl
    · exact EntityPair.of_comm _ _

theorem ensures_finish (coherent : system.Coherent) (backs : system.testimony.Backs prepared)
    (sound : prepared.Sound) (depicted : now.Depicts graph) :
    prepared.finish.Ensures AnswersAsked (fun _ => system.Heeds prepared.focal) (fun _ _ => True)
      (fun _ after => system.Parts prepared.focal after) now := by
  have permitted : prepared.finish.Permitted prepared false _ := Action.permitted_finish sound
  have heeds : prepared.finish.run.Ensures AnswersAsked (fun _ => system.Heeds prepared.focal) _ now :=
    Program.Ensures.simulate permitted (fun _ _ => True) trivial
      (fun _ flushed _ _ permitted => .inr ⟨prepared, flushed, rfl, backs, permitted⟩) (by
        intro _ flushed call answer _ _ _ _
        obtain ⟨later, flushes⟩ := Linking.exists_flushes flushed call answer
        exact ⟨later, flushes, trivial⟩)
  have linked : prepared.finish.run.Ensures AnswersAsked (fun _ _ => True) _ now :=
    Program.Ensures.simulate (LinkGraph.ensures_finish sound) Depicts depicted
      (fun _ _ _ _ _ => trivial) fun _ _ _ _ _ depicted _ answered => depicted.answered answered.1
  refine Program.Ensures.mono (heeds.and linked) ?_
  rintro result after ⟨_, image, depicts, holds⟩
  cases result with
  | ok outcome =>
      obtain ⟨held, reserved, snapshot, _, places, _⟩ := holds
      exact parts_of_placed coherent backs ⟨snapshot, places⟩ depicts
  | error error => trivial

theorem ensures_link (coherent : system.Coherent) (sound : system.store.tables.matched.Sound) :
    (linker.link focal).Ensures AnswersAsked (fun _ => system.Heeds focal) (fun _ _ => True)
      (fun outcome after => outcome.isSkipped = false → system.Parts focal after) system := by
  rw [linker.link_eq]
  refine (Action.ensures_bind _ _ _).mpr ((ensures_prepare coherent (depicts_self sound)).mono ?_)
  rintro found now ⟨depicts, sound, told⟩
  cases found with
  | inl outcome =>
      refine (Action.ensures_pure _ _).mpr fun linked => ?_
      rw [show outcome.isSkipped = true from sound] at linked
      cases linked
  | inr prepared =>
      obtain ⟨rfl, backs⟩ := told prepared rfl
      exact (ensures_finish coherent backs sound depicts).mono fun _ _ parts _ => parts

inductive Proceeds : System → System → Prop
  | feedback (operation : FeedbackOperation) {before after : System} :
      Program.Runs (System.Answers True) operation.program before () after → Proceeds before after
  | link (linker : Linker) (focal : EntityKey) {before after : System}
      {rest : Program (Except LinkError LinkOutcome)} :
      Program.Reaches AnswersAsked (linker.link focal).run before rest after → Proceeds before after
  | recordWrite (entity : EntityKey) (writtenAt : Instant) (system : System) :
      Proceeds system { system with index := system.index.recordWrite entity writtenAt }
  | tombstone (entity : EntityKey) (system : System) :
      Proceeds system { system with index := (system.index.tombstone entity).2 }

theorem Answers.sound_matched {mayFail : Prop} (answered : Answers mayFail system call answer after)
    (sound : system.store.tables.matched.Sound) : after.store.tables.matched.Sound := by
  obtain ⟨_, _, depicts⟩ := (depicts_self sound).answered answered
  exact depicts.sound

section Pass

variable {rest : Program (Except LinkError LinkOutcome)}
  (pass : Program.Reaches AnswersAsked (linker.link focal).run system rest after)
  (coherent : system.Coherent) (sound : system.store.tables.matched.Sound)
include pass coherent sound

theorem retains_of_pass : system.Retains after ∧ after.store.tables.matched.Sound := by
  refine pass.keeps (ensures_link coherent sound)
    (fun now => system.Retains now ∧ now.store.tables.matched.Sound) ⟨⟨rfl, coherent⟩, sound⟩ ?_
  rintro now call answer later ⟨retains, sound⟩ heeds ⟨answered, _⟩
  exact ⟨retains.answered heeds answered.1, answered.sound_matched sound⟩

theorem row_kept_of_pass {cluster : Id} {link : Link} (positive : system.stored link.pair = some true)
    (listed : system.HasRow cluster link) : after.HasRow cluster link := by
  refine (pass.keeps (ensures_link coherent sound)
    (fun now => now.store.tables.matched.Sound ∧ now.HasRow cluster link) ⟨sound, listed⟩ ?_).2
  rintro now call answer later ⟨sound, listed⟩ heeds ⟨answered, _⟩
  obtain ⟨sound, kept, _⟩ := heeds.rows coherent sound answered
  exact ⟨sound, kept positive listed⟩

theorem row_old_of_pass {cluster : Id} {link : Link} (apart : link.src ≠ link.dst)
    (negative : system.stored link.pair = some false) (listed : after.HasRow cluster link) :
    system.HasRow cluster link := by
  refine (pass.keeps (ensures_link coherent sound)
    (fun now => now.store.tables.matched.Sound ∧ (now.HasRow cluster link → system.HasRow cluster link))
    ⟨sound, id⟩ ?_).2 listed
  rintro now call answer later ⟨sound, old⟩ heeds ⟨answered, _⟩
  obtain ⟨sound, _, new⟩ := heeds.rows coherent sound answered
  exact ⟨sound, fun listed => old (new apart negative listed)⟩

theorem apart_of_written {edges : List ScoredEdge} {writtenAt : Instant}
    {next : Except LinkError Written → Program (Except LinkError LinkOutcome)}
    (writes : rest = .ask (.write (.upsertEdges edges writtenAt)) next) (apart : a ≠ b)
    (negative : system.stored (.of a b) = some false) :
    ∀ scored ∈ edges, scored.edge.link.pair ≠ .of a b := by
  have ensured := pass.ensured (ensures_link coherent sound)
  rw [writes] at ensured
  intro scored listed same
  rcases ensured.1 with allowed | ⟨prepared, _, _, backs, permitted⟩
  · exact allowed.looks
  · obtain ⟨entity, accepted, ends⟩ := permitted scored listed
    refine undisputed_of_accepted backs accepted apart negative ?_
    rw [← same]
    rcases ends with own | own <;> rw [own]
    · rfl
    · exact EntityPair.of_comm _ _

end Pass

theorem coherent_of_proceeds (proceeds : Proceeds system after) (coherent : system.Coherent)
    (sound : system.store.tables.matched.Sound) :
    after.Coherent ∧ after.store.tables.matched.Sound := by
  cases proceeds with
  | feedback operation run =>
      refine ⟨coherent.operation run, run.keeps (·.store.tables.matched.Sound) sound ?_⟩
      exact fun _ _ _ _ sound answered => answered.sound_matched sound
  | link linker focal pass =>
      obtain ⟨retains, sound⟩ := retains_of_pass pass coherent sound
      exact ⟨retains.coherent, sound⟩
  | recordWrite | tombstone => exact ⟨⟨coherent.sound, coherent.cache⟩, sound⟩

/-- While two entities have positive feedback no pass removes a row between them, and while they have
negative feedback none writes one; and when a pass has then linked one of them, no row is left between
them in any cluster. -/
theorem rows_respect_feedback {start : System} (matched : start.store.tables.matched.Sound)
    (feedback : start.store.tables.feedback.Sound) (cold : start.feedbackCache.entries = ∅)
    (history : Relation.ReflTransGen Proceeds start system)
    {rest : Program (Except LinkError LinkOutcome)}
    (pass : Program.Reaches AnswersAsked (linker.link focal).run system rest after) (apart : a ≠ b) :
    (system.stored (.of a b) = some true → ∀ cluster link, link.pair = .of a b →
      system.HasRow cluster link → after.HasRow cluster link) ∧
    (system.stored (.of a b) = some false →
      (∀ edges writtenAt next, rest = .ask (.write (.upsertEdges edges writtenAt)) next →
        ∀ scored ∈ edges, scored.edge.link.pair ≠ .of a b) ∧
      (∀ cluster link, link.pair = .of a b → after.HasRow cluster link → system.HasRow cluster link) ∧
      ∀ outcome, rest = .done (.ok outcome) → outcome.isSkipped = false → focal = a ∨ focal = b →
        ∀ cluster link, link.pair = .of a b → ¬after.HasRow cluster link) := by
  obtain ⟨coherent, sound⟩ : system.Coherent ∧ system.store.tables.matched.Sound := by
    clear pass
    induction history with
    | refl => exact ⟨⟨feedback, Cache.faithful_of_empty cold⟩, matched⟩
    | tail _ proceeds ih => exact coherent_of_proceeds proceeds ih.1 ih.2
  constructor
  · intro positive cluster link same listed
    exact row_kept_of_pass pass coherent sound (same ▸ positive) listed
  · intro negative
    refine ⟨?_, ?_, ?_⟩
    · intro edges writtenAt next writes
      exact apart_of_written pass coherent sound writes apart negative
    · intro cluster link same listed
      refine row_old_of_pass pass coherent sound (fun loop => ?_) (same ▸ negative) listed
      rw [Link.pair, loop] at same
      exact EntityPair.of_self_ne apart same
    · rintro outcome rfl linked own
      have parts := pass.ensured (ensures_link coherent sound)
      exact parts linked a b apart (EntityPair.involves_of.mpr (own.imp Eq.symm Eq.symm)) negative

end System

def Host.LoadsAsked (host : Host) : Prop := ∀ call, (Call.host call).LoadsAsked (host call)

theorem System.asked_of_answer? {system after : System} {host : Host} {call : Call} {answer : call.Answer}
    (asked : host.LoadsAsked) (own : system.host = host)
    (answered : system.answer? call = some (answer, after)) :
    system.AnswersAsked call answer after ∧ after.host = host := by
  have possible := System.mayAnswer_of_answer? answered
  refine ⟨⟨⟨possible, .inr trivial⟩, ?_⟩, possible.fixes.host.trans own⟩
  cases call with
  | host request =>
      simp only [System.answer?, own, Option.some.injEq, Prod.mk.injEq] at answered
      rw [← answered.1]
      exact asked request
  | _ => trivial

theorem System.runs_of_linked {linker : Linker} {focal : EntityKey} {system : System} {host : Host}
    (asked : host.LoadsAsked) (own : system.host = host)
    (ended : ((linker.link focal).run.run answer? system).1.result?.any fun
      | .ok outcome => !outcome.isSkipped
      | .error _ => false) :
    ∃ outcome, outcome.isSkipped = false ∧ Program.Runs AnswersAsked (linker.link focal).run system
      (.ok outcome) ((linker.link focal).run.run answer? system).2 := by
  obtain ⟨result, same, linked⟩ := (Option.any_eq_true _ _).mp ended
  cases result with
  | error error => contradiction
  | ok outcome =>
      refine ⟨outcome, by simpa using linked, ?_⟩
      exact (Program.runs_of_result same).mono_of own fun _ _ _ _ => asked_of_answer? asked

namespace Sample

def disputed : System := ((FeedbackOperation.add left right false).program.run System.answer? linked).2

def parted : System := ((linker.link left).run.run System.answer? disputed).2

theorem loads_asked : host.LoadsAsked := by
  intro call
  cases call with
  | loadMany set keys =>
      intro key values sent
      obtain ⟨_, listed, same⟩ := List.mem_map.mp sent
      cases same
      exact Std.ExtTreeSet.mem_toList.mp listed
  | _ => trivial

theorem reaches_of_ended {system : System} (own : system.host = host)
    (ended : ((linker.link left).run.run System.answer? system).1.result?.any fun
      | .ok outcome => !outcome.isSkipped
      | .error _ => false) :
    ∃ outcome, outcome.isSkipped = false ∧ Program.Reaches System.AnswersAsked (linker.link left).run
      system (.done (.ok outcome)) ((linker.link left).run.run System.answer? system).2 := by
  obtain ⟨outcome, linked, run⟩ := System.runs_of_linked loads_asked own ended
  exact ⟨outcome, linked, run.reaches⟩

theorem proceeds_disputed : Relation.ReflTransGen System.Proceeds start disputed := by
  obtain ⟨_, _, pass⟩ := @reaches_of_ended written rfl (by decide +kernel)
  have ended : ((FeedbackOperation.add left right false).program.run System.answer? linked).1.result? =
      some () := by decide +kernel
  refine .tail (.tail (.single (.recordWrite left noon _)) (.link linker left pass)) ?_
  refine .feedback (.add left right false) ((Program.runs_of_result ended).mono ?_)
  exact fun _ _ _ _ answered => ⟨System.mayAnswer_of_answer? answered, .inr trivial⟩

/-- The next pass leaves no row between the two. -/
theorem rows_respect_feedback_disputed :
    Relation.ReflTransGen System.Proceeds start disputed ∧
    disputed.stored (.of left right) = some false ∧ disputed.HasRow (.ofNat 100) ⟨left, right⟩ ∧
    (∃ outcome, outcome.isSkipped = false ∧ Program.Reaches System.AnswersAsked (linker.link left).run
      disputed (.done (.ok outcome)) parted) ∧
    ∀ cluster link, link.pair = .of left right → ¬parted.HasRow cluster link := by
  have negative : disputed.stored (.of left right) = some false := by decide +kernel
  have own : disputed.host = host := (System.host_run _ _).trans (System.host_run _ _)
  obtain ⟨outcome, linked, pass⟩ := reaches_of_ended own (by decide +kernel)
  refine ⟨proceeds_disputed, negative, by unfold System.HasRow; decide +kernel, ⟨outcome, linked, pass⟩, ?_⟩
  have matched : start.store.tables.matched.Sound := MatchTable.sound_empty
  have feedback : start.store.tables.feedback.Sound := FeedbackTable.sound_empty
  have respected := System.rows_respect_feedback matched feedback rfl proceeds_disputed pass
    (show left ≠ right by decide)
  exact (respected.2 negative).2.2 outcome rfl linked (.inl rfl)

end Sample

end RecordLinkage
