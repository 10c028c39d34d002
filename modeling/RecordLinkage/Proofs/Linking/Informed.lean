import RecordLinkage.Proofs.Linking.Histories
import RecordLinkage.Proofs.Linking.Resolves

/-! A system that is informed: its caches hold what the host and the feedback table say. Over such a system what a
pass finds out before it takes its locks is settled, and the system stays informed. -/

namespace RecordLinkage

namespace Call

def Served (host : Host) (mayFail : Prop) : (call : Call) → call.Answer → Prop
  | .host request, answer => answer = host request
  | call, answer => call.Succeeds answer ∨ mayFail

end Call

theorem Cache.Faithful.truthful {κ ν : Type} [Ord κ] [Std.TransOrd κ] {right : κ → ν → Prop} {cache after : Cache κ ν}
    {call : CacheCall κ ν} {answer : call.Answer} (faithful : cache.Faithful right)
    (answers : cache.Answers call answer after) : call.Says right answer := by
  cases call with
  | find key =>
      cases answer with
      | some value => exact faithful.found answers
      | none => trivial
  | _ => trivial

namespace System

def AnswersBy (host : Host) (mayFail : Prop) : Answering System := fun system call answer after =>
  system.MayAnswer call answer after ∧ call.Served host mayFail answer

structure Informed (host : Host) (system : System) : Prop where
  coherent : system.Coherent
  types : system.typeCache.Faithful fun set value => host (.typeOf set) = .ok value
  sets : system.setsCache.Faithful fun entityType value => host (.setsOf entityType) = .ok value

def Recached (system after : System) : Prop :=
  after = { system with
    feedbackCache := after.feedbackCache, typeCache := after.typeCache, setsCache := after.setsCache }

variable {host : Host} {mayFail : Prop} {system middle after : System} {call : Call} {answer : call.Answer}

theorem AnswersBy.any (answered : AnswersBy host mayFail system call answer after) :
    Answers True system call answer after := ⟨answered.1, .inr trivial⟩

/-- Without a call to the host, what is served succeeds. -/
theorem AnswersBy.succeeds (answered : AnswersBy host mayFail system call answer after)
    (within : ∀ request, call ≠ .host request) : Answers mayFail system call answer after := by
  obtain ⟨possible, served⟩ := answered
  refine ⟨possible, ?_⟩
  cases call with
  | host request => exact absurd rfl (within request)
  | _ => exact served

theorem Recached.trans (first : system.Recached middle) (second : middle.Recached after) :
    system.Recached after := by
  unfold Recached at *
  rw [second, first]

theorem MayAnswer.recached (possible : system.MayAnswer call answer after) (looks : call.Looks) :
    system.Recached after := by
  cases call with
  | host => exact possible ▸ rfl
  | read =>
      cases answer with
      | ok => exact possible.2 ▸ rfl
      | error => exact possible ▸ rfl
  | index request =>
      cases request with
      | record =>
          cases answer with
          | ok => exact possible.2 ▸ rfl
          | error => exact possible ▸ rfl
      | _ => exact looks.elim
  | feedbackCache | typeCache | setsCache =>
      obtain ⟨_, _, rfl⟩ := possible
      rfl
  | _ => exact looks.elim

theorem Recached.store (recached : system.Recached after) : after.store = system.store := by
  rw [recached]

theorem Recached.depicts {graph : LinkGraph} (recached : system.Recached after) (depicted : system.Depicts graph) :
    after.Depicts graph := by
  rw [recached]
  exact depicted.unchanged rfl rfl rfl rfl rfl

theorem Informed.kept (informed : system.Informed host) (coherent : after.Coherent)
    (types : ∀ request, call = .typeCache request → request.Puts fun set value => host (.typeOf set) = .ok value)
    (sets : ∀ request, call = .setsCache request →
      request.Puts fun entityType value => host (.setsOf entityType) = .ok value)
    (possible : system.MayAnswer call answer after) : after.Informed host := by
  refine ⟨coherent, ?_, ?_⟩
  · by_cases asks : ∃ request, call = .typeCache request
    · obtain ⟨request, rfl⟩ := asks
      obtain ⟨_, answers, rfl⟩ := possible
      exact informed.types.answers (types request rfl) answers
    · rw [possible.fixes.typeCache (not_exists.mp asks)]
      exact informed.types
  · by_cases asks : ∃ request, call = .setsCache request
    · obtain ⟨request, rfl⟩ := asks
      obtain ⟨_, answers, rfl⟩ := possible
      exact informed.sets.answers (sets request rfl) answers
    · rw [possible.fixes.setsCache (not_exists.mp asks)]
      exact informed.sets

/-- No more is cached than what the host and the feedback table say. -/
theorem Informed.answered (informed : system.Informed host)
    (lands : call.Lands host system.store.tables.feedback) (possible : system.MayAnswer call answer after) :
    after.Informed host := by
  refine informed.kept (informed.coherent.answered ?_ ?_ possible) ?_ ?_ possible
  · cases call with
    | write => exact lands.elim
    | _ => trivial
  all_goals
    rintro request rfl
    exact lands

theorem Informed.permitted {prepared : Prepared} {flushed : Bool} (informed : system.Informed host)
    (permitted : prepared.Permits flushed call) (possible : system.MayAnswer call answer after) :
    after.Informed host := by
  have retains : system.Retains system := ⟨rfl, informed.coherent⟩
  refine informed.kept (retains.permitted permitted possible).coherent ?_ ?_ possible
  all_goals
    rintro request rfl
    exact permitted.elim

theorem tells_of_answered {recalled : Prop} (informed : recalled → system.Informed host)
    (lands : call.Lands host system.store.tables.feedback)
    (answered : AnswersBy host mayFail system call answer after) :
    call.Tells host system.store.tables.feedback recalled mayFail answer := by
  obtain ⟨possible, served⟩ := answered
  cases call with
  | host => exact served
  | read request =>
      cases answer with
      | ok answer =>
          obtain ⟨rfl, rfl⟩ := possible
          cases request <;> trivial
      | error error => cases request <;> exact served.resolve_left id
  | index request =>
      cases answer with
      | ok => trivial
      | error => exact served.resolve_left id
  | feedbackCache request =>
      obtain ⟨_, answers, _⟩ := possible
      exact fun recalls => (informed recalls).coherent.cache.truthful answers
  | typeCache request =>
      obtain ⟨_, answers, _⟩ := possible
      exact fun recalls => (informed recalls).types.truthful answers
  | setsCache request =>
      obtain ⟨_, answers, _⟩ := possible
      exact fun recalls => (informed recalls).sets.truthful answers
  | _ => exact lands.elim

theorem told_of_answered {recalled : Prop} {now : System}
    (kept : (recalled → now.Informed host) ∧ system.Recached now)
    (lands : call.Lands host system.store.tables.feedback) (answered : AnswersBy host mayFail now call answer after) :
    call.Tells host system.store.tables.feedback recalled mayFail answer ∧
      (recalled → after.Informed host) ∧ system.Recached after := by
  obtain ⟨informed, recached⟩ := kept
  rw [← recached.store] at lands ⊢
  exact ⟨tells_of_answered informed lands answered, fun recalls => (informed recalls).answered lands answered.1,
    recached.trans (answered.1.recached lands.looks)⟩

/-- What an action does when it is told what the host and the feedback table say, it does over a system of that
host whose caches, if they are relied on, say no more. -/
theorem ensures_told {α : Type} {recalled : Prop} {action : Action α} {refused : LinkError → Prop}
    {post : α → Prop} (informed : recalled → system.Informed host)
    (told : action.Told host system.store.tables.feedback recalled mayFail refused post) :
    action.Ensures (AnswersBy host mayFail) (fun _ => Call.Looks)
      (fun error after => ((recalled → after.Informed host) ∧ system.Recached after) ∧ refused error)
      (fun value after => ((recalled → after.Informed host) ∧ system.Recached after) ∧ post value) system := by
  refine Program.Ensures.mono (Program.Ensures.simulate told
    (fun now _ => (recalled → now.Informed host) ∧ system.Recached now) ⟨informed, rfl⟩
    (fun _ _ _ _ lands => lands.looks) ?_) ?_
  · exact fun _ _ _ _ _ kept lands answered => ⟨(), told_of_answered kept lands answered⟩
  · rintro result after ⟨_, kept, ended⟩
    cases result <;> exact ⟨kept, ended⟩

theorem recached_of_looks {α : Type} {action : Action α} {post : α → Prop} {value : α}
    (looks : action.Looks True post) (run : Program.Runs (AnswersBy host mayFail) action.run system (.ok value) after) :
    system.Recached after := by
  have ensured : action.Ensures (AnswersBy host mayFail) (fun _ _ => True) (fun _ => system.Recached)
      (fun value after => system.Recached after ∧ post value) system :=
    looks.ensures system.Recached rfl (fun _ _ _ _ => trivial) fun _ _ _ _ recached looks answered =>
      recached.trans (answered.1.recached looks)
  exact (run.ensured ensured).1

def Available (system : System) (call : Call) : Prop :=
  ∀ lock, call = .lock (.take lock) → ¬system.locks.holds lock

theorem Grants.available (grants : system.Grants call) : system.Available call := by
  rintro lock rfl
  exact grants

theorem available_of_looks (looks : call.Looks) : system.Available call := by
  rintro lock rfl
  exact looks.elim

structure Idle (host : Host) (system : System) (graph : LinkGraph) : Prop
    extends system.Informed host, system.HeldBy .empty graph

theorem Idle.recached {graph : LinkGraph} (idle : system.Idle host graph) (informed : after.Informed host)
    (recached : system.Recached after) : after.Idle host graph where
  toInformed := informed
  depicted := recached.depicts idle.depicted
  locks := by
    rw [recached]
    exact idle.locks

def Draws (system : System) (id : Id) : Prop := ∃ reading, system.drawn ≤ reading ∧ id = system.ids reading

theorem Informed.ensures_finish {prepared : Prepared} (informed : system.Informed host) (sound : prepared.Sound) :
    prepared.finish.Ensures (AnswersBy host mayFail) (fun _ _ => True) (fun _ after => after.Informed host)
      (fun _ after => after.Informed host) system := by
  have permitted : prepared.finish.Permitted prepared false _ := Action.permitted_finish sound
  refine Program.Ensures.mono (Program.Ensures.simulate permitted (fun state _ => state.Informed host) informed
    (fun _ _ _ _ _ => trivial) ?_) ?_
  · intro _ flushed call answer _ informed permits answered
    obtain ⟨later, flushes⟩ := Linking.exists_flushes flushed call answer
    exact ⟨later, flushes, informed.permitted permits answered.1⟩
  · rintro (error | outcome) after ⟨_, informed, _⟩ <;> exact informed

/-- A pass with something to link comes to its end when no one else holds a lock and no store fails. -/
theorem Idle.ensures_finish {prepared : Prepared} {graph : LinkGraph} (idle : system.Idle host graph)
    (sound : prepared.Sound) :
    prepared.finish.Ensures (AnswersBy host False) Available (fun _ _ => False)
      (fun outcome after => ∃ image, after.Idle host image ∧ ∃ held reserved snapshot,
        prepared.Settles system.Draws graph outcome held reserved snapshot image) system := by
  have settles := @Prepared.ensures_unhindered _ _ _ system.Draws sound idle.toHeldBy
    fun reading later => ⟨reading, later, rfl⟩
  have served : Program.Ensures (AnswersBy host False) Available _ prepared.finish.run system :=
    settles.simulate Eq rfl (by rintro state _ call rfl grants; exact grants.available) (by
      rintro state _ call answer after rfl grants answered
      refine ⟨after, answered.succeeds ?_, rfl⟩
      rintro request rfl
      exact grants)
  refine Program.Ensures.mono (served.and (idle.toInformed.ensures_finish sound)) ?_
  rintro (error | outcome) after ⟨⟨_, rfl, ended⟩, informed⟩
  · exact ended
  · obtain ⟨image, held, settles⟩ := ended
    exact ⟨image, ⟨informed, held⟩, settles⟩

/-- So does a whole pass, if what it finds out before it takes its locks is no error. -/
theorem Idle.ensures_link {linker : Linker} {focal : EntityKey} {graph : LinkGraph}
    {found : LinkOutcome ⊕ Prepared → Prop} (idle : system.Idle host graph)
    (told : (linker.prepare focal).Told host system.store.tables.feedback True False (fun _ => False) found) :
    (linker.link focal).Ensures (AnswersBy host False) Available (fun _ _ => False)
      (fun outcome after => ∃ image, after.Idle host image ∧
        (found (.inl outcome) ∧ outcome.isSkipped ∧ system.Recached after ∨
          ∃ prepared, found (.inr prepared) ∧ prepared.Sound ∧ ∃ held reserved snapshot,
            prepared.Settles system.Draws graph outcome held reserved snapshot image)) system := by
  have looks : (linker.prepare focal).Looks True Linking.Found := linker.looks_prepare focal
  have prepares : Program.Ensures (AnswersBy host False) Available _ (linker.prepare focal).run system :=
    Program.Ensures.allow (ensures_told (fun _ => idle.toInformed) told) fun _ _ => available_of_looks
  rw [linker.link_eq]
  refine (Action.ensures_bind _ _ _).mpr (Program.Ensures.mono (prepares.and
    (looks.ensures (fun _ => True) trivial (fun _ _ _ _ => trivial) fun _ _ _ _ _ _ _ => trivial)) ?_)
  rintro (error | outcome | prepared) now ⟨⟨⟨informed, recached⟩, found⟩, holds⟩
  · exact found
  · have idle := idle.recached (informed trivial) recached
    exact (Action.ensures_pure _ _).mpr ⟨graph, idle, .inl ⟨found, holds.2, recached⟩⟩
  · have idle := idle.recached (informed trivial) recached
    have same : now.Draws = system.Draws := by
      rw [recached]
      rfl
    refine (idle.ensures_finish holds.2).mono ?_
    rintro outcome after ⟨image, idle, settles⟩
    exact ⟨image, idle, .inr ⟨prepared, found, holds.2, same ▸ settles⟩⟩

theorem served_of_answer? (own : system.host = host) (answered : system.answer? call = some (answer, after)) :
    AnswersBy host True system call answer after ∧ after.host = host := by
  have possible := mayAnswer_of_answer? answered
  refine ⟨⟨possible, ?_⟩, possible.fixes.host.trans own⟩
  cases call with
  | host request =>
      simp only [answer?, own, Option.some.injEq, Prod.mk.injEq] at answered
      exact answered.1.symm
  | _ => exact .inr trivial

theorem served_of_linked {linker : Linker} {focal : EntityKey} {test : LinkOutcome → Bool} (own : system.host = host)
    (ended : ((linker.link focal).run.run answer? system).1.result?.any fun
      | .ok outcome => test outcome
      | .error _ => false) :
    ∃ outcome, test outcome ∧ Program.Runs (AnswersBy host True) (linker.link focal).run system
      (.ok outcome) ((linker.link focal).run.run answer? system).2 := by
  obtain ⟨result, same, linked⟩ := (Option.any_eq_true _ _).mp ended
  cases result with
  | error error => contradiction
  | ok outcome =>
      exact ⟨outcome, linked, (Program.runs_of_result same).mono_of own fun _ _ _ _ => served_of_answer?⟩

end System

namespace Linker

variable {host : Host} {feedback : FeedbackTable} {recalled serves : Prop} {focal : EntityKey}

theorem resolves_block (recalls : recalled) (linker : Linker) (reliable : serves → host.Reliable)
    (knows : serves → host.Knows focal) :
    (linker.block focal).Resolves host feedback recalled serves fun block => block.focal = focal ∧
      ∃ properties, host (.loadOne focal) = .ok properties ∧
        if properties.hasValuesFor linker.config.blocking.propertyTypes then focal ∈ block.candidates
        else block.candidates = ∅ :=
  Action.resolves_build recalls _ _ _ _ reliable knows

theorem looks_prepareBlock_filled (linker : Linker) (block : Block) :
    (linker.prepareBlock focal block).Looks True fun found =>
      ∀ prepared, found = .inr prepared → block.isEmpty = false := by
  unfold prepareBlock
  split
  · exact Action.asks_bind (Action.asks_pointer trivial) fun _ _ => Action.asks_pure nofun
  · rename_i filled
    refine Action.asks_bind (Action.looks_positivePairs _) fun positive _ => ?_
    refine Action.asks_bind (Action.looks_scoreBlock _ _ _) fun scored _ => ?_
    exact Action.asks_pure fun _ _ => by simpa using filled

/-- What a pass accepts of a block that has candidates. -/
theorem resolves_prepareBlock (linker : Linker) (reliable : serves → host.Reliable) {block : Block}
    (own : block.focal = focal) (member : serves → focal ∈ block.candidates) (filled : block.isEmpty = false) :
    (linker.prepareBlock focal block).Resolves host feedback recalled serves fun found =>
      ∃ scored : Scored, found = .inr ⟨focal, scored, feedback.positivePairs focal⟩ ∧ focal ∈ block.candidates ∧
        ∀ entity score, scored[entity]? = some score ↔
          block.Accepts host (feedback.positivePairs focal) linker.config.minMatchScore entity score := by
  subst own
  unfold prepareBlock
  rw [if_neg (by simp [filled])]
  refine Action.resolves_bind (Action.resolves_positivePairs block.focal) ?_
  rintro _ rfl
  refine Action.resolves_bind (Action.resolves_scoreBlock reliable member) fun scored found => ?_
  exact Action.resolves_pure ⟨scored, rfl, found⟩

end Linker

end RecordLinkage
