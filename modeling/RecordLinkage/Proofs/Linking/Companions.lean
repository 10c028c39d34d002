import RecordLinkage.Proofs.Linking.Shape

/-! Who shares a cluster with an entity that was just linked. Feedback decides over the rows between two entities
and over who is accepted, but not over the rows among others: a cluster is chosen as a whole, and an accepted
entity that is in another one stays there. -/

namespace RecordLinkage

namespace Linker

def prepareBlock (linker : Linker) (focal : EntityKey) (block : Block) : Action (LinkOutcome ⊕ Prepared) := do
  if block.isEmpty then return .inl (.skipped focal (← ClusterGraph.pointer focal))
  else
    let positive ← FeedbackService.positivePairs focal
    let scored ← Linking.scoreBlock block positive linker.config.minMatchScore
    return .inr ⟨focal, scored, positive⟩

def linkBlock (linker : Linker) (focal : EntityKey) (block : Block) : Action LinkOutcome :=
  linker.prepareBlock focal block >>= Linking.resume

theorem prepare_eq (linker : Linker) (focal : EntityKey) :
    linker.prepare focal = linker.block focal >>= linker.prepareBlock focal := rfl

end Linker

/-- A pass that links has a block, accepts some of it and goes on under its locks. -/
theorem Linker.stages_of_pass {σ : Type} {answers : Answering σ} {state final : σ} {linker : Linker}
    {focal : EntityKey} {outcome : LinkOutcome}
    (pass : Program.Runs answers (linker.link focal).run state (.ok outcome) final)
    (linked : outcome.isSkipped = false) :
    ∃ block now prepared middle, Program.Runs answers (linker.block focal).run state (.ok block) now ∧
      Program.Runs answers (linker.linkBlock focal block).run now (.ok outcome) final ∧
      Program.Runs answers (linker.prepareBlock focal block).run now (.ok (.inr prepared)) middle ∧
      Program.Runs answers (linker.prepare focal).run state (.ok (.inr prepared)) middle ∧
      Program.Runs answers prepared.finish.run middle (.ok outcome) final := by
  rw [linker.link_eq] at pass
  obtain ⟨_, failed, _⟩ | ⟨found, middle, prepares, resumes⟩ := Action.runs_bind pass
  · cases failed
  have prepares' := prepares
  rw [linker.prepare_eq] at prepares'
  obtain ⟨_, failed, _⟩ | ⟨block, now, blocks, accepts⟩ := Action.runs_bind prepares'
  · cases failed
  cases found with
  | inl skipped =>
      have nothing : skipped.isSkipped := (linker.looks_prepare focal).holds prepares
      cases resumes with
      | done =>
          rw [nothing] at linked
          cases linked
  | inr prepared =>
      exact ⟨block, now, prepared, middle, blocks, Action.runs_of_bind accepts resumes, accepts, prepares, resumes⟩

namespace Action

variable {mayFail : Prop} {focal : EntityKey} {properties : Properties} {positive : PairSet} {minimum : Double}

theorem looks_scoreAll_positive (least : minimum.le .one) {candidates : List (EntityKey × Properties)}
    {scored : Scored} : (Linking.scoreAll focal properties positive minimum candidates scored).Looks mayFail
      fun accepted => (∀ entity ∈ scored, entity ∈ accepted) ∧ ∀ candidate ∈ candidates,
        EntityPair.of focal candidate.1 ∈ positive → candidate.1 = focal ∨ candidate.1 ∈ accepted := by
  induction candidates generalizing scored with
  | nil => exact asks_pure ⟨fun _ => id, by simp⟩
  | cons candidate candidates ih =>
      unfold Linking.scoreAll
      split
      · rename_i own
        exact ih.mono fun accepted _ found => ⟨found.1, List.forall_mem_cons.mpr ⟨fun _ => .inl own, found.2⟩⟩
      · by_cases protects : EntityPair.of focal candidate.1 ∈ positive
        · -- The best score is within bounds and no less than the minimum.
          have best : Linking.score focal properties positive candidate = pure .one := by
            simp [Linking.score, protects]
          have inUnit : Double.one.inUnit := by decide
          simp only [best, pure_bind, inUnit, Bool.not_true, Bool.false_eq_true, if_false, least, if_true]
          refine ih.mono fun accepted _ found => ⟨fun entity old => found.1 entity ?_, ?_⟩
          · exact Std.ExtTreeMap.mem_insert.mpr (.inr old)
          · exact List.forall_mem_cons.mpr ⟨fun _ => .inr (found.1 _ Std.ExtTreeMap.mem_insert_self), found.2⟩
        · refine asks_bind (consults_score focal properties positive candidate).looks fun score _ => ?_
          split
          · exact (ensures_throw _ _).mpr fun locking => locking.elim
          · split
            · refine ih.mono fun accepted _ found => ⟨fun entity old => found.1 entity ?_, ?_⟩
              · exact Std.ExtTreeMap.mem_insert.mpr (.inr old)
              · exact List.forall_mem_cons.mpr ⟨fun listed => absurd listed protects, found.2⟩
            · exact ih.mono fun accepted _ found =>
                ⟨found.1, List.forall_mem_cons.mpr ⟨fun listed => absurd listed protects, found.2⟩⟩

theorem looks_prepareBlock {linker : Linker} (least : linker.config.minMatchScore.le .one) {block : Block}
    (own : block.focal = focal) : (linker.prepareBlock focal block).Looks mayFail fun found =>
      ∀ prepared, found = .inr prepared → ∀ entity ∈ block.candidates,
        EntityPair.of focal entity ∈ prepared.positive → entity ∈ prepared.scored := by
  unfold Linker.prepareBlock
  split
  · exact asks_bind (asks_pointer trivial) fun _ _ => asks_pure nofun
  · refine asks_bind (looks_positivePairs focal) fun positive _ => ?_
    have accepts : (Linking.scoreBlock block positive linker.config.minMatchScore).Looks mayFail
        fun scored => ∀ entity ∈ block.candidates, EntityPair.of focal entity ∈ positive → entity ∈ scored := by
      unfold Linking.scoreBlock
      split
      · exact (ensures_throw _ _).mpr fun locking => locking.elim
      · refine (looks_scoreAll_positive least).mono fun accepted _ found entity listed protects => ?_
        have candidate := Std.ExtTreeMap.mem_toList_iff_getElem?_eq_some.mpr
          (Std.ExtTreeMap.getElem?_eq_some_getElem listed)
        rcases found.2 _ candidate (own ▸ protects) with same | other
        · exact found.1 entity (by simpa using same.symm)
        · exact other
    refine asks_bind accepts fun scored accepts => asks_pure ?_
    rintro _ ⟨rfl⟩
    exact accepts

end Action

namespace Prepared

variable {prepared : Prepared} {graph after : LinkGraph} {held : LockTable} {reserved : Id}
  {snapshot : Linking.Snapshot} {entity : EntityKey}

theorem Shows.member_of_touches (shows : prepared.Shows graph snapshot) (accepted : entity ∈ prepared.scored)
    {cluster : Id} (touches : graph.Touches cluster entity) : entity ∈ snapshot.membersOf cluster := by
  rw [Linking.Snapshot.membersOf, Std.ExtTreeMap.getD_eq_getD_getElem?,
    shows.found cluster ⟨entity, accepted, touches⟩]
  exact ScoreMap.mem_members_ofLinks.mpr touches

/-- An accepted entity is admitted to a cluster that it is in, and to any if it is in none. -/
theorem Shows.admits_iff (shows : prepared.Shows graph snapshot) (accepted : entity ∈ prepared.scored)
    {cluster : Id} : snapshot.admits prepared.focal cluster entity ↔
      entity = prepared.focal ∨ graph.Touches cluster entity ∨ ∀ other, ¬graph.Touches other entity := by
  have member : entity ∈ snapshot.membersOf cluster ↔ graph.Touches cluster entity :=
    ⟨shows.touches_of_member, shows.member_of_touches accepted⟩
  simp only [Linking.Snapshot.admits, Bool.or_eq_true, decide_eq_true_eq, Std.ExtTreeSet.contains_iff_mem,
    Bool.not_eq_true', Bool.eq_false_iff, ne_eq, member, shows.clustered accepted, not_exists, or_assoc]

theorem Places.others (places : prepared.Places held reserved snapshot graph after) {cluster : Id} {link : Link}
    (apart : ¬link.touches prepared.focal) : link ∈ after.scores cluster ↔ link ∈ graph.scores cluster := by
  rw [places.scores, LinkGraph.mem_scores_upsert, wiped, LinkGraph.mem_scores_wipe]
  constructor
  · rintro (⟨old, _⟩ | ⟨scored, new, same⟩)
    · exact old
    · obtain ⟨_, entity, _, ends⟩ := mem_edges new
      refine absurd ?_ apart
      rw [show link = scored.edge.link by rw [same]]
      rcases ends with forth | back
      · simp [forth, Link.touches]
      · simp [back, Link.touches]
  · exact fun old => .inl ⟨old, fun touches => absurd touches apart⟩

/-- An accepted entity stays out of the chosen cluster only when it is in another one, by rows of others alone. -/
theorem Places.stays (consistent : graph.Consistent) (sound : prepared.Sound)
    (places : prepared.Places held reserved snapshot graph after) (accepted : entity ∈ prepared.scored)
    (refused : ¬snapshot.admits prepared.focal (prepared.cluster reserved snapshot) entity) :
    ¬after.Touches (prepared.cluster reserved snapshot) entity ∧
    (∃ other, ∃ link ∈ graph.scores other, link.touches entity ∧ ¬link.touches prepared.focal) ∧
    ∀ cluster, ∀ link ∈ graph.scores cluster, link.touches entity → link.touches prepared.focal →
      link.pair ∉ prepared.positive := by
  have wiped : (prepared.wiped graph).Consistent :=
    consistent.shrunk (fun _ _ => LinkGraph.touches_wipe) fun _ => rfl
  simp only [Linking.Snapshot.admits, Bool.or_eq_true, decide_eq_true_eq, Bool.not_eq_true', not_or,
    ← Bool.not_eq_true, Std.ExtTreeSet.contains_iff_mem, Decidable.not_not] at refused
  obtain ⟨⟨_, outside⟩, clustered⟩ := refused
  have notThere : ¬(prepared.wiped graph).Touches (prepared.cluster reserved snapshot) entity :=
    fun touches => outside (places.shows.member_of_touches accepted touches)
  -- Where the focal entity is in, it links; so what is left of its rows does not touch this one.
  have alone : ∀ cluster, ∀ link ∈ (prepared.wiped graph).scores cluster, link.touches entity →
      ¬link.touches prepared.focal := by
    intro cluster link listed about touches
    have home := places.shows.focal_touches sound reserved ⟨link, touches, listed⟩
    have same := wiped.single _ _ _ ⟨link, touches, listed⟩ home
    exact notThere (same ▸ ⟨link, about, listed⟩)
  obtain ⟨other, link, about, listed⟩ := (places.shows.clustered accepted).mp clustered
  have apart := alone other link listed about
  have old := (LinkGraph.mem_scores_wipe.mp listed).1
  refine ⟨fun touches => ?_, ⟨other, link, old, about, apart⟩, ?_⟩
  · have kept : after.Touches other entity := ⟨link, about, (places.others apart).mpr old⟩
    have same := (consistent.placed sound ⟨snapshot, places⟩).single _ _ _ touches kept
    exact notThere (same ▸ ⟨link, about, listed⟩)
  · intro cluster link old about touches protects
    exact alone cluster link (LinkGraph.mem_scores_wipe.mpr ⟨old, fun _ => protects⟩) about touches

end Prepared

theorem Link.pair_eq_of_touches {link : Link} {a b : EntityKey} (apart : a ≠ b) (first : link.touches a)
    (second : link.touches b) : link.pair = .of a b := by
  obtain ⟨source, target⟩ := link
  simp only [touches, Bool.or_eq_true, decide_eq_true_eq] at first second
  rcases first with rfl | rfl <;> rcases second with rfl | rfl
  · exact absurd rfl apart
  · rfl
  · exact EntityPair.of_comm _ _
  · exact absurd rfl apart

theorem LinkingConfig.least_of_valid {config : LinkingConfig} (valid : config.fault? = none) :
    config.minMatchScore.le .one := by
  unfold fault? at valid
  grind [Double.inUnit]

theorem Duty.Permits.removes {duty : Duty} {call : Call} (permitted : duty.Permits call) : call.Removes := by
  unfold Duty.Permits at permitted
  split at permitted <;> trivial

theorem FeedbackOperation.ensures_consistent {graph : LinkGraph} (operation : FeedbackOperation)
    (consistent : graph.Consistent) : operation.program.Ensures (LinkGraph.Answers True) (fun _ _ => True)
      (fun _ after => after.Consistent) graph := by
  refine Program.Ensures.mono (Program.Ensures.simulate operation.ensures_program
    (fun graph _ => graph.Consistent) consistent (fun _ _ _ _ _ => trivial) ?_) ?_
  · intro graph duty call answer after consistent permitted answered
    exact ⟨duty.next call answer, rfl, answered.consistent permitted.removes consistent⟩
  · rintro _ after ⟨_, consistent, _⟩
    exact consistent

namespace System

variable {start system after now : System} {linker : Linker} {focal : EntityKey} {outcome : LinkOutcome}

inductive Advances : System → System → Prop
  | feedback (operation : FeedbackOperation) {before after : System} :
      Program.Runs (Answers True) operation.program before () after → Advances before after
  | link (linker : Linker) (focal : EntityKey) {before after : System} {outcome : LinkOutcome} :
      Program.Runs AnswersAsked (linker.link focal).run before (.ok outcome) after → Advances before after
  | recordWrite (entity : EntityKey) (writtenAt : Instant) (system : System) :
      Advances system { system with index := system.index.recordWrite entity writtenAt }
  | tombstone (entity : EntityKey) (system : System) :
      Advances system { system with index := (system.index.tombstone entity).2 }

theorem Advances.proceeds (advances : Advances system after) : Proceeds system after := by
  cases advances with
  | feedback operation run => exact .feedback operation run
  | link linker focal run => exact .link linker focal run.reaches
  | recordWrite entity writtenAt => exact .recordWrite entity writtenAt system
  | tombstone entity => exact .tombstone entity system

theorem depicts_of_advances {graph : LinkGraph} (advances : Advances system after)
    (depicted : system.Depicts graph) (consistent : graph.Consistent) :
    ∃ image, after.Depicts image ∧ image.Consistent := by
  cases advances with
  | feedback operation run => exact depicted.runs run (operation.ensures_consistent consistent)
  | link linker focal run =>
      exact depicts_of_operates (.link linker focal (run.mono fun _ _ _ _ => And.left)) depicted consistent
  | recordWrite entity writtenAt =>
      exact depicts_of_operates (.recordWrite entity writtenAt system) depicted consistent
  | tombstone entity => exact depicts_of_operates (.tombstone entity system) depicted consistent

theorem ready_of_advances (empty : start.store.tables = .empty) (cold : start.feedbackCache.entries = ∅)
    (history : Relation.ReflTransGen Advances start system) :
    system.Coherent ∧ ∃ graph, system.Depicts graph ∧ graph.Consistent := by
  induction history with
  | refl =>
      refine ⟨⟨?_, Cache.faithful_of_empty cold⟩, _, depicts_self ?_, consistent_empty _ empty⟩
      · rw [empty]
        exact FeedbackTable.sound_empty
      · rw [empty]
        exact MatchTable.sound_empty
  | tail _ advances ih =>
      obtain ⟨coherent, graph, depicted, consistent⟩ := ih
      exact ⟨(coherent_of_proceeds advances.proceeds coherent depicted.sound).1,
        depicts_of_advances advances depicted consistent⟩

def Houses (system : System) (cluster : Id) (entity : EntityKey) : Prop :=
  Touched (system.store.tables.matched.rowsOf cluster) entity

def StandsApart (system : System) (focal : EntityKey) (cluster : Id) (entity : EntityKey) : Prop :=
  ∃ link, system.HasRow cluster link ∧ link.touches entity ∧ ¬link.touches focal

def Joins (system : System) (a b : EntityKey) : Prop :=
  ∃ cluster link, system.HasRow cluster link ∧ link.touches a ∧ link.touches b

theorem accepts_positive {block : Block} {prepared : Prepared} {middle : System}
    (least : linker.config.minMatchScore.le .one)
    (blocks : Program.Runs AnswersAsked (linker.block focal).run system (.ok block) now)
    (accepts : Program.Runs AnswersAsked (linker.prepareBlock focal block).run now (.ok (.inr prepared)) middle) :
    ∀ entity ∈ block.candidates, EntityPair.of focal entity ∈ prepared.positive → entity ∈ prepared.scored := by
  have own : block.focal = focal := (Action.looks_build _ _ _ _).holds blocks
  exact (Action.looks_prepareBlock least own).holds accepts prepared rfl

section Placed

variable {graph image : LinkGraph} {prepared : Prepared} {held : LockTable} {reserved : Id}
  {snapshot : Linking.Snapshot} {entity : EntityKey} (depicted : system.Depicts graph)
  (depicts : after.Depicts image) (places : prepared.Places held reserved snapshot graph image)

include depicted depicts places

theorem hasRow_others {cluster : Id} {link : Link} (apart : ¬link.touches prepared.focal) :
    after.HasRow cluster link ↔ system.HasRow cluster link := by
  rw [← depicts.hasRow, ← depicted.hasRow]
  exact places.others apart

theorem standsApart_of_houses {cluster : Id} (parts : ¬after.Joins prepared.focal entity)
    (houses : after.Houses cluster entity) :
    system.StandsApart prepared.focal cluster entity ∧ after.StandsApart prepared.focal cluster entity := by
  obtain ⟨link, about, listed⟩ := houses
  have alone : ¬link.touches prepared.focal := fun touches => parts ⟨_, link, listed, touches, about⟩
  exact ⟨⟨link, (hasRow_others depicted depicts places alone).mp listed, about, alone⟩,
    ⟨link, listed, about, alone⟩⟩

theorem standsApart_of_refused (consistent : graph.Consistent) (sound : prepared.Sound)
    (accepted : entity ∈ prepared.scored) (protects : EntityPair.of prepared.focal entity ∈ prepared.positive)
    (refused : ¬snapshot.admits prepared.focal (prepared.cluster reserved snapshot) entity) :
    ¬after.Houses (prepared.cluster reserved snapshot) entity ∧ ¬system.Joins prepared.focal entity ∧
      ∃ other, system.StandsApart prepared.focal other entity ∧
        after.StandsApart prepared.focal other entity := by
  obtain ⟨outside, ⟨other, link, old, about, alone⟩, unprotected⟩ :=
    places.stays consistent sound accepted refused
  have apart : entity ≠ prepared.focal := fun same => refused (by simp [Linking.Snapshot.admits, same])
  refine ⟨fun houses => outside (depicts.touches.mpr houses), ?_, other, ?_⟩
  · -- A row between the two would have outlasted the wipe, and then the cluster admits the entity.
    rintro ⟨cluster, link, listed, first, second⟩
    refine unprotected cluster link (depicted.hasRow.mpr listed) second first ?_
    rwa [Link.pair_eq_of_touches apart.symm first second]
  · have before := depicted.hasRow.mp old
    exact ⟨⟨link, before, about, alone⟩,
      ⟨link, (hasRow_others depicted depicts places alone).mpr before, about, alone⟩⟩

end Placed

/-- Right after a pass that links: an entity that feedback keeps apart from the focal one shares no row with it,
and it is in its cluster only by rows of others that were there before. An entity of the block that feedback puts
together with the focal one has a row with it in its cluster, unless the outcome defers it: then no row joined the
two before, and the entity stays in another cluster by rows of others. -/
theorem companions_by_feedback (empty : start.store.tables = .empty) (cold : start.feedbackCache.entries = ∅)
    (history : Relation.ReflTransGen Advances start system) (valid : linker.config.fault? = none)
    (pass : Program.Runs AnswersAsked (linker.link focal).run system (.ok outcome) after)
    (linked : outcome.isSkipped = false) :
    ∃ cluster, outcome.cluster = some cluster ∧ after.HasRow cluster ⟨focal, focal⟩ ∧
      (∀ pointed, after.pointer focal = some pointed → pointed = cluster) ∧
      (∀ entity, entity ≠ focal → system.stored (.of focal entity) = some false →
        ¬after.Joins focal entity ∧ (after.Houses cluster entity →
          system.StandsApart focal cluster entity ∧ after.StandsApart focal cluster entity)) ∧
      ∃ block now, Program.Runs AnswersAsked (linker.block focal).run system (.ok block) now ∧
        Program.Runs AnswersAsked (linker.linkBlock focal block).run now (.ok outcome) after ∧
        ∀ entity ∈ block.candidates, system.stored (.of focal entity) = some true →
          after.HasRow cluster ⟨focal, entity⟩ ∧ entity ∉ outcome.deferred ∨
          entity ∈ outcome.deferred ∧ ¬after.Houses cluster entity ∧ ¬system.Joins focal entity ∧
            ∃ other, system.StandsApart focal other entity ∧ after.StandsApart focal other entity := by
  obtain ⟨coherent, graph, depicted, consistent⟩ := ready_of_advances empty cold history
  obtain ⟨block, now, prepared, middle, blocks, links, accepts, prepares, finishes⟩ :=
    Linker.stages_of_pass pass linked
  obtain ⟨depictedThen, sound, told⟩ := prepares.ensured (ensures_prepare coherent depicted)
  obtain ⟨rfl, backs⟩ := told prepared rfl
  obtain ⟨image, depicts, held, reserved, snapshot, reports, places, _⟩ := depictedThen.runs
    (finishes.mono fun _ _ _ _ => And.left) (LinkGraph.ensures_finish sound)
  refine ⟨_, reports.cluster, ?_, ?_, ?_, block, now, blocks, links, ?_⟩
  · exact depicts.hasRow.mp (places.joined (Prepared.focal_matched sound.focal _ _))
  · intro pointed points
    rw [← depicts.pointer, LinkGraph.pointer, places.record,
      if_pos (Prepared.mem_joining.mpr ⟨sound.focal, .inl rfl⟩)] at points
    cases known : graph.record prepared.focal <;> simp_all
  · intro entity apart negative
    have parts : ¬after.Joins prepared.focal entity := by
      rintro ⟨cluster, link, listed, first, second⟩
      exact parts_of_placed coherent backs ⟨snapshot, places⟩ depicts _ _ apart.symm
        (EntityPair.involves_of.mpr (.inl rfl)) negative cluster link
        (Link.pair_eq_of_touches apart.symm first second) listed
    exact ⟨parts, standsApart_of_houses depicted depicts places parts⟩
  · intro entity listed positive
    have protects : EntityPair.of prepared.focal entity ∈ prepared.positive :=
      (mem_positive coherent.sound backs).mpr ⟨EntityPair.involves_of.mpr (.inl rfl), positive⟩
    have accepted := accepts_positive (LinkingConfig.least_of_valid valid) blocks accepts entity listed protects
    rw [reports.deferred]
    by_cases admits : snapshot.admits prepared.focal (prepared.cluster reserved snapshot) entity
    · have matched := Prepared.mem_matched.mpr ⟨accepted, admits⟩
      exact .inl ⟨depicts.hasRow.mp (places.joined matched), fun deferred => deferred.2 admits⟩
    · exact .inr ⟨⟨accepted, admits⟩,
        standsApart_of_refused depicted depicts places consistent sound accepted protects admits⟩

end System

namespace Sample

def third : EntityKey := ⟨set, .ofNat 3⟩

def fourth : EntityKey := ⟨set, .ofNat 4⟩

def quartet : Host
  | .search _ => .ok (.ofEntities [left, right, third, fourth])
  | call => host call

theorem quartet_asked : quartet.LoadsAsked := by
  intro call
  cases call with
  | loadMany set keys => exact loads_asked (.loadMany set keys)
  | _ => trivial

def known : System :=
  { start with host := quartet, index := start.index.recordWrite left noon }

def passed (system : System) (focal : EntityKey) : System :=
  ((linker.link focal).run.run System.answer? system).2

def judged (system : System) (a b : EntityKey) (linked : Bool) : System :=
  ((FeedbackOperation.add a b linked).program.run System.answer? system).2

@[simp] theorem host_passed (system : System) (focal : EntityKey) : (passed system focal).host = system.host :=
  System.host_run _ _

@[simp] theorem host_judged (system : System) (a b : EntityKey) (linked : Bool) :
    (judged system a b linked).host = system.host := System.host_run _ _

theorem advances_judged {system : System} {a b : EntityKey} {linked : Bool}
    (ended : ((FeedbackOperation.add a b linked).program.run System.answer? system).1.result? = some ()) :
    System.Advances system (judged system a b linked) :=
  .feedback _ ((Program.runs_of_result ended).mono fun _ _ _ _ answered =>
    ⟨System.mayAnswer_of_answer? answered, .inr trivial⟩)

theorem advances_passed {system : System} {focal : EntityKey} (own : system.host = quartet)
    (ended : ((linker.link focal).run.run System.answer? system).1.result?.any fun
      | .ok outcome => !outcome.isSkipped
      | .error _ => false) : System.Advances system (passed system focal) := by
  obtain ⟨_, _, run⟩ := System.runs_of_linked quartet_asked own ended
  exact .link linker focal run

def mixed : System := passed (judged known left right false) right

def torn : System :=
  let apart := judged (judged (judged (judged known left right false) left fourth false) right third false)
    third fourth false
  judged (passed (passed apart right) third) left right true

theorem advances_mixed : Relation.ReflTransGen System.Advances known mixed :=
  .tail (.single (advances_judged (by decide +kernel))) (advances_passed (by simp [known]) (by decide +kernel))

theorem advances_torn : Relation.ReflTransGen System.Advances known torn := by
  refine .tail (.tail (.tail (.tail (.tail (.tail (.single (advances_judged ?_)) (advances_judged ?_))
    (advances_judged ?_)) (advances_judged ?_)) (advances_passed (by simp [known]) ?_))
    (advances_passed (by simp [known]) ?_)) (advances_judged ?_)
  all_goals decide +kernel

theorem linked_mixed : ∃ outcome, outcome.isSkipped = false ∧ Program.Runs System.AnswersAsked
    (linker.link left).run mixed (.ok outcome) (passed mixed left) :=
  System.runs_of_linked quartet_asked (by simp [mixed, known]) (by decide +kernel)

theorem linked_torn : ∃ outcome, outcome.isSkipped = false ∧ Program.Runs System.AnswersAsked
    (linker.link left).run torn (.ok outcome) (passed torn left) :=
  System.runs_of_linked quartet_asked (by simp [torn, known]) (by decide +kernel)

/-- The left entity joins the cluster of the others, where the right one is by rows of theirs. -/
theorem companions_of_left : ∃ outcome, known.store.tables = .empty ∧ known.feedbackCache.entries = ∅ ∧
    Relation.ReflTransGen System.Advances known mixed ∧ linker.config.fault? = none ∧
    Program.Runs System.AnswersAsked (linker.link left).run mixed (.ok outcome) (passed mixed left) ∧
    outcome.isSkipped = false ∧ mixed.stored (.of left right) = some false ∧
    ¬(passed mixed left).Joins left right ∧ (passed mixed left).StandsApart left (.ofNat 100) right := by
  obtain ⟨outcome, linked, pass⟩ := linked_mixed
  have valid : linker.config.fault? = none := by decide +kernel
  have negative : mixed.stored (.of left right) = some false := by decide +kernel
  obtain ⟨cluster, _, _, points, parts, _⟩ :=
    System.companions_by_feedback rfl rfl advances_mixed valid pass linked
  obtain rfl := points (.ofNat 100) (by decide +kernel)
  have houses : (passed mixed left).Houses (.ofNat 100) right := ⟨⟨right, third⟩, by decide, by decide +kernel⟩
  obtain ⟨apart, stands⟩ := parts right (by decide) negative
  exact ⟨outcome, rfl, rfl, advances_mixed, valid, pass, linked, negative, apart, (stands houses).2⟩

/-- Feedback does not decide over whole clusters: the left entity is linked in a cluster with one that it is
kept apart from, and in another cluster than one of its block that it belongs together with. -/
theorem companions_despite_feedback : known.store.tables = .empty ∧ known.feedbackCache.entries = ∅ ∧
    (∃ cluster, Relation.ReflTransGen System.Advances known mixed ∧
      mixed.stored (.of left right) = some false ∧
      (∃ outcome, outcome.isSkipped = false ∧ Program.Runs System.AnswersAsked (linker.link left).run mixed
        (.ok outcome) (passed mixed left)) ∧
      (passed mixed left).pointer left = some cluster ∧ (passed mixed left).Houses cluster right) ∧
    ∃ cluster, Relation.ReflTransGen System.Advances known torn ∧
      torn.stored (.of left right) = some true ∧
      (∃ outcome, outcome.isSkipped = false ∧ Program.Runs System.AnswersAsked (linker.link left).run torn
        (.ok outcome) (passed torn left)) ∧
      (∃ block now, Program.Runs System.AnswersAsked (linker.block left).run torn (.ok block) now ∧
        right ∈ block.candidates) ∧
      (passed torn left).pointer left = some cluster ∧ ¬(passed torn left).Houses cluster right := by
  refine ⟨rfl, rfl, ⟨.ofNat 100, advances_mixed, by decide +kernel, linked_mixed, by decide +kernel,
    ⟨right, third⟩, by decide, by decide +kernel⟩, ?_⟩
  refine ⟨.ofNat 101, advances_torn, by decide +kernel, linked_torn, ?_, by decide +kernel, ?_⟩
  · have own : torn.host = quartet := by simp [torn, known]
    have blocked : ((linker.block left).run.run System.answer? torn).1.result?.any fun
        | .ok block => decide (right ∈ block.candidates)
        | .error _ => false := by decide +kernel
    obtain ⟨result, same, listed⟩ := (Option.any_eq_true _ _).mp blocked
    cases result with
    | error error => contradiction
    | ok block =>
        exact ⟨block, _, (Program.runs_of_result same).mono_of own fun _ _ _ _ =>
          System.asked_of_answer? quartet_asked, of_decide_eq_true listed⟩
  · rintro ⟨link, about, listed⟩
    have apart : ∀ link ∈ ((passed torn left).store.tables.matched.rowsOf (.ofNat 101)).keys,
        ¬link.touches right := by decide +kernel
    exact apart link (Std.ExtTreeMap.mem_keys.mpr listed) about

end Sample

end RecordLinkage
