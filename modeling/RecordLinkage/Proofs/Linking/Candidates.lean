import RecordLinkage.Proofs.Cache.Entries
import RecordLinkage.Proofs.Linking.Preparing

/-! Where the entities that a pass accepts come from. Each is the focal one or was loaded among entities
that feedback does not keep apart from it; and the pairs that a pass protects are those of the rows
that it read. -/

namespace RecordLinkage

structure Testimony where
  verdict : EntityPair → Option Bool → Prop
  rows : EntityKey → Verdict → List Feedback → Prop
  loads : Id → IdSet → EntityKey → Prop
  told : ∀ entity kind list, rows entity kind list → ∀ row ∈ list, verdict row.pair (some row.linked)

namespace Testimony

def Answers (testimony : Testimony) : Answering Unit := fun _ call answer _ =>
  match call, answer with
  | .read (.feedback pair), .ok row => testimony.verdict pair (row.map Feedback.linked)
  | .read (.feedbackOn entity verdict), .ok rows => testimony.rows entity verdict rows
  | .feedbackCache (.find pair), some value => testimony.verdict pair value
  | .host (.loadMany set keys), answer =>
      ∀ entity properties, .ok (entity, properties) ∈ Loaded.ofAnswer set answer →
        testimony.loads set keys entity
  | _, _ => True

def Allows (testimony : Testimony) : Call → Prop
  | .feedbackCache request => request.Puts testimony.verdict
  | call => call.Looks

theorem Allows.looks {testimony : Testimony} {call : Call} (allowed : testimony.Allows call) :
    call.Looks := by
  cases call with
  | feedbackCache => trivial
  | _ => exact allowed

def Clears (testimony : Testimony) (focal entity : EntityKey) : Prop :=
  ∃ value, testimony.verdict (.of focal entity) value ∧ value ≠ some false

def Proposes (testimony : Testimony) (focal entity : EntityKey) : Prop :=
  ∃ set keys, testimony.loads set keys entity ∧ ∀ key ∈ keys, testimony.Clears focal ⟨set, key⟩

structure Backs (testimony : Testimony) (prepared : Prepared) : Prop where
  scored : ∀ entity ∈ prepared.scored,
    entity = prepared.focal ∨ testimony.Proposes prepared.focal entity
  positive : ∃ rows, testimony.rows prepared.focal .positive rows ∧
    prepared.positive = .ofList (rows.map Feedback.pair)

end Testimony

namespace Action

variable {α β : Type} {testimony : Testimony} {focal : EntityKey}

abbrev Hears (testimony : Testimony) (post : α → Prop) (action : Action α) : Prop :=
  action.Ensures testimony.Answers (fun _ => testimony.Allows) (fun _ _ => True)
    (fun value _ => post value) ()

theorem hears_bind {found : α → Prop} {post : β → Prop} {action : Action α} {rest : α → Action β}
    (first : action.Hears testimony found)
    (then' : ∀ value, found value → (rest value).Hears testimony post) :
    (action >>= rest).Hears testimony post :=
  (ensures_bind _ _ _).mpr (first.mono fun value _ holds => then' value holds)

theorem hears_pure {post : α → Prop} {value : α} (holds : post value) :
    (pure value : Action α).Hears testimony post := holds

theorem Consults.hears {post : α → Prop} {action : Action α} (consults : action.Consults True post) :
    action.Hears testimony post := by
  have allows : ∀ call : Call, call.Consults → testimony.Allows call := by
    intro call consults
    cases call with
    | feedbackCache => exact consults.elim
    | _ => exact consults.looks
  have hears : action.Ensures testimony.Answers (fun _ => testimony.Allows) (fun _ _ => True) _ () :=
    Asks.ensures consults (fun _ => True) trivial (fun _ call _ => allows call) fun _ _ _ _ _ _ _ => trivial
  exact hears.mono fun _ _ => And.right

/-- What is put in the cache makes no difference to what is heard. -/
theorem hears_cache {request : CacheCall EntityPair (Option Bool)} (puts : request.Puts testimony.verdict) :
    Action.Hears testimony (fun _ => True) (ExceptT.lift (FeedbackService.cache request)) :=
  (ensures_lift _ _).mpr ⟨puts, fun _ _ _ => trivial⟩

theorem hears_verdict (pair : EntityPair) :
    (FeedbackService.verdict pair).Hears testimony (testimony.verdict pair) := by
  have stored : (FeedbackService.stored pair).Hears testimony (testimony.verdict pair) := by
    refine ⟨trivial, ?_⟩
    intro answer _ heard
    cases answer with
    | ok row => exact heard
    | error error => trivial
  refine (ensures_bind _ _ _).mpr ((ensures_lift _ _).mpr ⟨trivial, ?_⟩)
  intro found _ heard
  cases found with
  | some value => exact heard
  | none =>
      refine hears_bind (hears_cache trivial) fun seen _ => hears_bind stored ?_
      intro value heard
      exact hears_bind (hears_cache heard) fun _ _ => hears_pure heard

theorem hears_hasNegative (a b : EntityKey) :
    (FeedbackService.hasNegative a b).Hears testimony fun negative =>
      ∃ value, testimony.verdict (.of a b) value ∧ (negative = true ↔ value = some false) := by
  have row : (FeedbackService.get a b).Hears testimony fun row =>
      ∃ value, testimony.verdict (.of a b) value ∧ row.map Feedback.linked = value :=
    hears_bind (hears_verdict _) fun value heard => hears_pure ⟨value, heard, by simp [Function.comp_def]⟩
  refine hears_bind row ?_
  rintro row ⟨value, heard, rfl⟩
  exact hears_pure ⟨_, heard, by cases row <;> simp⟩

theorem hears_undisputed (focal : EntityKey) (entities : List EntityKey) :
    (Block.undisputed focal entities).Hears testimony fun kept =>
      ∀ entity ∈ kept, entity = focal ∨ testimony.Clears focal entity := by
  induction entities with
  | nil => exact hears_pure (by simp)
  | cons first entities ih =>
      unfold Block.undisputed
      have tail : ∀ disputed : Bool,
          (disputed = false → first = focal ∨ testimony.Clears focal first) →
          Action.Hears testimony
            (fun kept => ∀ entity ∈ kept, entity = focal ∨ testimony.Clears focal entity) (do
              let rest ← Block.undisputed focal entities
              return if disputed then rest else first :: rest) := by
        intro disputed clear
        refine hears_bind ih fun rest kept => hears_pure ?_
        cases disputed with
        | true => exact kept
        | false => exact List.forall_mem_cons.mpr ⟨clear rfl, kept⟩
      split
      · rename_i own
        exact tail false fun _ => .inl own
      · refine hears_bind (hears_hasNegative focal first) ?_
        rintro disputed ⟨value, heard, negative⟩
        refine tail disputed fun clear => .inr ⟨value, heard, ?_⟩
        intro against
        rw [negative.mpr against] at clear
        cases clear

theorem hears_openStreams (groups : List (Id × IdSet)) :
    (Block.openStreams groups).Hears testimony fun streams =>
      ∀ items ∈ streams, ∀ entity properties, .ok (entity, properties) ∈ items →
        ∃ group ∈ groups, testimony.loads group.1 group.2 entity := by
  induction groups with
  | nil => exact hears_pure (by simp)
  | cons group groups ih =>
      obtain ⟨set, keys⟩ := group
      unfold Block.openStreams
      refine (ensures_bind _ _ _).mpr ((ensures_lift _ _).mpr ⟨trivial, ?_⟩)
      intro answer _ loaded
      refine hears_bind ih fun streams sound => hears_pure ?_
      intro items listed entity properties sent
      rcases List.mem_cons.mp listed with rfl | other
      · exact ⟨_, .head _, loaded entity properties sent⟩
      · obtain ⟨group, among, loads⟩ := sound items other entity properties sent
        exact ⟨group, .tail _ among, loads⟩

theorem hears_load (config : BlockingConfig) (properties : Properties) {entities : List EntityKey}
    (clear : ∀ entity ∈ entities, entity = focal ∨ testimony.Clears focal entity) :
    (Block.load config focal properties entities).Hears testimony fun candidates =>
      ∀ entity ∈ candidates, entity = focal ∨ testimony.Proposes focal entity := by
  refine hears_bind (hears_openStreams _) ?_
  intro streams loaded
  have carries : (Exchange.start config.propertyTypes config.loadBuffer streams
      (if entities.contains focal then .ofList [(focal, properties)] else ∅)).Carries
        fun item => ∀ entity properties, item = .ok (entity, properties) →
          entity = focal ∨ testimony.Proposes focal entity := by
    refine Exchange.carries_start ?_ ?_
    · rintro items listed _ sent entity properties rfl
      obtain ⟨⟨set, keys⟩, among, loads⟩ := loaded items listed entity properties sent
      refine .inr ⟨set, keys, loads, ?_⟩
      intro key asked
      have other : (Members.ofEntities (entities.filter fun entity => entity ≠ focal)).has
          ⟨set, key⟩ := by
        have found := Std.ExtTreeMap.mem_toList_iff_getElem?_eq_some.mp among
        simpa only [Members.has, Std.ExtTreeMap.getD_eq_getD_getElem?, found, Option.getD_some,
          Std.ExtTreeSet.contains_iff_mem] using asked
      rw [Members.has_ofEntities, List.mem_filter] at other
      exact (clear _ other.1).resolve_left (by simpa using other.2)
    · intro entity known found _ _ same
      cases same
      refine .inl ?_
      split at found
      · simp only [Std.ExtTreeMap.ofList_singleton, Std.ExtTreeMap.getElem?_insert,
          Std.ExtTreeMap.getElem?_empty, Std.LawfulEqOrd.compare_eq_iff_eq] at found
        split at found
        · exact Eq.symm ‹_›
        · contradiction
      · simp at found
  have ended := carries.finish.result
  change outcome _ _ (Exchange.result _) _
  revert ended
  cases (Exchange.start config.propertyTypes config.loadBuffer streams
      (if entities.contains focal then .ofList [(focal, properties)] else ∅)).finish.result with
  | ok candidates =>
      intro ended entity member
      have known := Std.ExtTreeMap.getElem?_eq_some_getElem member
      exact ended entity _ known entity _ rfl
  | error error => exact fun _ => trivial

theorem hears_build (config : BlockingConfig) (cached : Bool) (focal : EntityKey) (top : Nat) :
    (Block.build config cached focal top).Hears testimony fun block => block.focal = focal ∧
      ∀ entity ∈ block.candidates, entity = focal ∨ testimony.Proposes focal entity := by
  refine hears_bind (Consults.hears (asks_any (asks_host trivial))) fun properties _ => ?_
  split
  · exact hears_pure ⟨rfl, by simp⟩
  · refine hears_bind
      (Consults.hears (asks_typeOf (fun _ => trivial) (fun _ => trivial) cached focal.set)) fun entityType _ => ?_
    cases entityType with
    | none => exact (ensures_throw _ _).mpr trivial
    | some entityType =>
        refine hears_bind
          (Consults.hears (asks_setsOf (fun _ => trivial) (fun _ => trivial) cached entityType)) fun sets _ => ?_
        refine hears_bind (Consults.hears (asks_any (asks_host trivial))) fun hits _ => ?_
        refine hears_bind (hears_undisputed focal _) fun entities clear => ?_
        exact hears_bind (hears_load config properties clear) fun _ sound => hears_pure ⟨rfl, sound⟩

theorem hears_refresh {rows : List Feedback}
    (told : ∀ row ∈ rows, testimony.verdict row.pair (some row.linked)) :
    (FeedbackService.refresh rows).Hears testimony fun _ => True := by
  induction rows with
  | nil => exact hears_pure trivial
  | cons row rows ih =>
      exact hears_bind (hears_cache (told row (.head _))) fun _ _ =>
        ih fun other listed => told other (.tail _ listed)

theorem hears_positivePairs (focal : EntityKey) :
    (FeedbackService.positivePairs focal).Hears testimony fun positive =>
      ∃ rows, testimony.rows focal .positive rows ∧ positive = .ofList (rows.map Feedback.pair) := by
  have onEntity : (FeedbackService.onEntity .positive focal).Hears testimony
      (testimony.rows focal .positive) := by
    refine ⟨trivial, ?_⟩
    intro answer _ heard
    cases answer with
    | ok rows =>
        exact hears_bind (hears_refresh (testimony.told _ _ _ heard)) fun _ _ => hears_pure heard
    | error error => trivial
  exact hears_bind onEntity fun rows heard => hears_pure ⟨rows, heard, rfl⟩

theorem hears_scoreAll {properties : Properties} {positive : PairSet} {minimum : Double}
    {candidates : List (EntityKey × Properties)} {scored : Scored} {known : EntityKey → Prop}
    (old : ∀ entity ∈ scored, known entity)
    (new : ∀ candidate ∈ candidates, known candidate.1) :
    (Linking.scoreAll focal properties positive minimum candidates scored).Hears testimony
      fun scored => ∀ entity ∈ scored, known entity := by
  induction candidates generalizing scored with
  | nil => exact hears_pure old
  | cons candidate candidates ih =>
      have later := fun other listed => new other (.tail _ listed)
      unfold Linking.scoreAll
      split
      · exact ih old later
      · refine hears_bind ((consults_score focal properties positive candidate).hears) fun score _ => ?_
        split
        · exact (ensures_throw _ _).mpr trivial
        · split
          · refine ih ?_ later
            intro entity member
            rcases Std.ExtTreeMap.mem_insert.mp member with same | before
            · rw [← Std.LawfulEqOrd.eq_of_compare same]
              exact new candidate (.head _)
            · exact old entity before
          · exact ih old later

theorem hears_scoreBlock (block : Block) (positive : PairSet) (minimum : Double) :
    (Linking.scoreBlock block positive minimum).Hears testimony fun scored =>
      ∀ entity ∈ scored, entity = block.focal ∨ entity ∈ block.candidates := by
  unfold Linking.scoreBlock
  split
  · exact (ensures_throw _ _).mpr trivial
  · apply hears_scoreAll
    · intro entity member
      simp only [Std.ExtTreeMap.mem_ofList, List.map_cons, List.map_nil, List.contains_cons,
        List.contains_nil, Bool.or_false, beq_iff_eq] at member
      exact .inl member
    · intro candidate listed
      have known := Std.ExtTreeMap.mem_toList_iff_getElem?_eq_some.mp listed
      exact .inr (Std.ExtTreeMap.mem_iff_isSome_getElem?.mpr (by simp [known]))

end Action

namespace Linker

theorem hears_prepare {testimony : Testimony} (linker : Linker) (focal : EntityKey) :
    (linker.prepare focal).Hears testimony fun found => ∀ prepared, found = .inr prepared →
      prepared.focal = focal ∧ testimony.Backs prepared := by
  refine Action.hears_bind (Action.hears_build _ _ _ _) ?_
  rintro block ⟨rfl, sound⟩
  split
  · exact Action.hears_bind (Action.Consults.hears (Action.asks_pointer trivial)) fun _ _ =>
      Action.hears_pure nofun
  · refine Action.hears_bind (Action.hears_positivePairs _) fun positive heard => ?_
    refine Action.hears_bind (Action.hears_scoreBlock _ _ _) fun scored among => ?_
    refine Action.hears_pure ?_
    rintro _ ⟨rfl⟩
    refine ⟨rfl, ?_, heard⟩
    intro entity member
    rcases among entity member with own | candidate
    · exact .inl own
    · exact sound entity candidate

end Linker

end RecordLinkage
