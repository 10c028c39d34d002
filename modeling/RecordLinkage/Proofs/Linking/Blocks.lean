import Mathlib.Data.List.Nodup
import Mathlib.Tactic.Tauto
import RecordLinkage.Proofs.Block.Delivery
import RecordLinkage.Proofs.Linking.Informed
import RecordLinkage.Proofs.Program.Noted

/-! The rules by which a block is built, and that it is built by no others: what is asked of the search index, which
of its hits become candidates, and with which properties. -/

namespace RecordLinkage

namespace Properties

variable {properties : Properties} {types : IdSet} {type : Id}

def Filled (properties : Properties) (types : IdSet) : Prop :=
  ∃ type ∈ types, ∃ value ∈ properties.getD type ∅, value.isBlank = false

theorem hasValuesFor_iff : properties.hasValuesFor types ↔ properties.Filled types := by
  simp [hasValuesFor, Filled, List.any_eq_true]

def texts (properties : Properties) (type : Id) : List String :=
  ((properties.getD type ∅).toList.filter fun value => !value.isBlank).map Value.searchText

theorem mem_texts {text : String} : text ∈ properties.texts type ↔
    ∃ value ∈ properties.getD type ∅, value.isBlank = false ∧ value.searchText = text := by
  simp [texts, and_assoc]

theorem getElem?_fieldSearches : (properties.fieldSearches types)[type]? =
    if type ∈ types ∧ properties.texts type ≠ [] then some (Std.ExtTreeSet.ofList (properties.texts type) : TextSet)
    else none := by
  have folded (list : List Id) (fields : Std.ExtTreeMap Id TextSet) : (list.foldl (fun fields type =>
      if (properties.texts type).isEmpty then fields
      else fields.insert type (Std.ExtTreeSet.ofList (properties.texts type))) fields)[type]? =
        if type ∈ list ∧ properties.texts type ≠ [] then
          some (Std.ExtTreeSet.ofList (properties.texts type) : TextSet) else fields[type]? := by
    induction list generalizing fields with
    | nil => simp
    | cons first list ih =>
        rw [List.foldl_cons, ih]
        by_cases same : first = type
        · subst same
          by_cases none : properties.texts first = [] <;> simp [none]
        · have apart : ¬type = first := fun same' => same same'.symm
          simp only [List.mem_cons, apart, false_or]
          split
          · rfl
          · split
            · rfl
            · simp [Std.ExtTreeMap.getElem?_insert, same]
  refine (folded types.toList ∅).trans ?_
  simp

end Properties

def Call.search? : Call → Option SearchRequest
  | .host (.search request) => some request
  | _ => none

structure SearchRequest.Seeks (request : SearchRequest) (config : BlockingConfig) (own : Properties)
    (entityType : Id) (sets : IdSet) (top : Nat) : Prop where
  entityType : request.entityType = entityType
  sets : request.sets = sets
  top : request.top = top
  exact : request.exact = config.exactMatch
  nonempty : request.fields ≠ ∅
  filled : ∀ (type : Id) (texts : TextSet), request.fields[type]? = some texts → texts ≠ ∅
  texts : ∀ (type : Id) text, (∃ texts : TextSet, request.fields[type]? = some texts ∧ text ∈ texts) ↔
    type ∈ config.propertyTypes ∧ ∃ value ∈ own.getD type ∅, value.isBlank = false ∧ value.searchText = text

@[simp]
theorem Block.fields_request (config : BlockingConfig) (entityType : Id) (sets : IdSet) (own : Properties) (top : Nat) :
    (Block.request config entityType sets own top).fields = own.fieldSearches config.propertyTypes := rfl

theorem Block.seeks_request {config : BlockingConfig} {own : Properties} (filled : own.Filled config.propertyTypes)
    (entityType : Id) (sets : IdSet) (top : Nat) :
    (Block.request config entityType sets own top).Seeks config own entityType sets top where
  entityType := rfl
  sets := rfl
  top := rfl
  exact := rfl
  nonempty := by
    obtain ⟨type, listed, value, among, valued⟩ := filled
    have text : value.searchText ∈ own.texts type := Properties.mem_texts.mpr ⟨value, among, valued, rfl⟩
    intro none
    have found := @Properties.getElem?_fieldSearches own config.propertyTypes type
    rw [if_pos ⟨listed, List.ne_nil_of_mem text⟩] at found
    rw [fields_request] at none
    simp [none] at found
  filled type texts found := by
    rw [fields_request, Properties.getElem?_fieldSearches] at found
    split at found
    · rename_i asked
      obtain rfl := Option.some.inj found
      obtain ⟨text, listed⟩ := List.exists_mem_of_ne_nil _ asked.2
      intro none
      have among : text ∈ (Std.ExtTreeSet.ofList (own.texts type) : TextSet) := by simpa using listed
      simp [none] at among
    · cases found
  texts type text := by
    rw [fields_request, Properties.getElem?_fieldSearches, ← Properties.mem_texts]
    constructor
    · rintro ⟨texts, found, listed⟩
      split at found
      · rename_i asked
        obtain rfl := Option.some.inj found
        exact ⟨asked.1, by simpa using listed⟩
      · cases found
    · rintro ⟨among, listed⟩
      exact ⟨_, if_pos ⟨among, List.ne_nil_of_mem listed⟩, by simpa using listed⟩

namespace Loaded

/-- Of a stream without a failure everything is sent. -/
theorem ofStream_eq {set : Id} {stream : PropertyStream} (loads : ∀ item ∈ stream, ∃ loaded, item = .ok loaded) :
    ofStream set stream = (stream.filterMap Except.toOption).map fun item => .ok (⟨set, item.1⟩, item.2) := by
  induction stream with
  | nil => rfl
  | cons item stream ih =>
      obtain ⟨_, rfl⟩ := loads _ (.head _)
      exact congrArg (_ :: ·) (ih fun other listed => loads other (.tail _ listed))

end Loaded

namespace Host

variable {host : Host}

def loaded (host : Host) (set : Id) (keys : IdSet) : List (Id × Properties) :=
  match (host (.loadMany set keys) : Except LinkError PropertyStream) with
  | .ok stream => stream.filterMap Except.toOption
  | .error _ => []

def loadedAll (host : Host) (groups : List (Id × IdSet)) : List (EntityKey × Properties) :=
  groups.flatMap fun group => (host.loaded group.1 group.2).map fun item => (⟨group.1, item.1⟩, item.2)

structure LoadsOnce (host : Host) : Prop where
  once : ∀ set keys, ((host.loaded set keys).map Prod.fst).Nodup
  asked : ∀ set keys, ∀ item ∈ host.loaded set keys, item.1 ∈ keys

theorem Succeeds.flatten_streams (sound : host.Succeeds) (groups : List (Id × IdSet)) :
    (host.streams groups).flatten = (host.loadedAll groups).map .ok := by
  rw [Host.streams, ← List.flatMap_def, loadedAll, List.map_flatMap]
  refine List.flatMap_congr fun group _ => ?_
  have succeeds := sound (.loadMany group.1 group.2)
  unfold loaded
  cases answered : host (.loadMany group.1 group.2) with
  | error error => exact absurd answered sound.ne_error
  | ok stream =>
      rw [answered] at succeeds
      exact (Loaded.ofStream_eq succeeds).trans (by simp)

theorem mem_loadedAll {groups : List (Id × IdSet)} {entity : EntityKey} {properties : Properties} :
    (entity, properties) ∈ host.loadedAll groups ↔
      ∃ keys, (entity.set, keys) ∈ groups ∧ (entity.key, properties) ∈ host.loaded entity.set keys := by
  simp only [loadedAll, List.mem_flatMap, List.mem_map, Prod.mk.injEq, Prod.exists]
  constructor
  · rintro ⟨set, keys, listed, key, _, given, rfl, rfl⟩
    exact ⟨keys, listed, given⟩
  · rintro ⟨keys, listed, given⟩
    exact ⟨entity.set, keys, listed, entity.key, properties, given, rfl, rfl⟩

theorem LoadsOnce.nodup (once : host.LoadsOnce) (members : Members) :
    ((host.loadedAll members.toList).map Prod.fst).Nodup := by
  rw [loadedAll, List.map_flatMap, List.nodup_flatMap]
  constructor
  · rintro ⟨set, keys⟩ _
    rw [List.map_map]
    have same : (Prod.fst ∘ fun item : Id × Properties => ((⟨set, item.1⟩ : EntityKey), item.2)) =
        (EntityKey.mk set ∘ Prod.fst) := rfl
    rw [same, ← List.map_map]
    exact (once.once set keys).map fun _ _ same => (EntityKey.mk.inj same).2
  · refine Std.ExtTreeMap.distinct_keys_toList.imp fun {group other} apart => ?_
    intro entity listed listed'
    simp only [List.map_map, List.mem_map] at listed listed'
    obtain ⟨_, _, rfl⟩ := listed
    obtain ⟨_, _, same⟩ := listed'
    exact apart (by simp [(EntityKey.mk.inj same).1])

/-- Of some members the loader gives those that it finds, when it is asked for all those of their set. -/
theorem LoadsOnce.mem_loadedAll (once : host.LoadsOnce) {members : Members} {entity : EntityKey}
    {properties : Properties} : (entity, properties) ∈ host.loadedAll members.toList ↔ members.has entity ∧
      ∃ keys : IdSet, (∀ key, key ∈ keys ↔ members.has ⟨entity.set, key⟩) ∧
        (entity.key, properties) ∈ host.loaded entity.set keys := by
  simp only [Host.mem_loadedAll, Std.ExtTreeMap.mem_toList_iff_getElem?_eq_some]
  have has {keys : IdSet} (found : members[entity.set]? = some keys) (key : Id) :
      members.has ⟨entity.set, key⟩ ↔ key ∈ keys := by
    simp [Members.has, Std.ExtTreeMap.getD_eq_getD_getElem?, found]
  constructor
  · rintro ⟨keys, found, given⟩
    exact ⟨(has found entity.key).mpr (once.asked _ _ _ given), keys, fun key => (has found key).symm, given⟩
  · rintro ⟨member, keys, same, given⟩
    cases found : members[entity.set]? with
    | none => simp [Members.has, Std.ExtTreeMap.getD_eq_getD_getElem?, found] at member
    | some known =>
        obtain rfl : known = keys := Std.ExtTreeSet.ext_mem fun key => ((has found key).symm.trans (same key).symm)
        exact ⟨known, rfl, given⟩

end Host

namespace Block

variable {host : Host} {feedback : FeedbackTable} {config : BlockingConfig} {focal : EntityKey} {own : Properties}
  {sets : IdSet} {hits : Members}

/-- The exchange in which candidates are loaded ends with the focal entity, as it was found, and of the others with
those that the loader has a value of. -/
theorem finish_exchange (sound : host.Succeeds) (once : host.LoadsOnce) {entities : List EntityKey}
    (listed : focal ∈ entities) :
    ∃ candidates, (exchange config host focal own entities).finish.result = .ok candidates ∧
      ∀ entity properties, candidates[entity]? = some properties ↔ entity = focal ∧ properties = own ∨
        (entity ∈ entities ∧ entity ≠ focal) ∧ properties.Filled config.propertyTypes ∧
          ∃ keys : IdSet, (∀ key, key ∈ keys ↔ ⟨entity.set, key⟩ ∈ entities ∧ ⟨entity.set, key⟩ ≠ focal) ∧
            (entity.key, properties) ∈ host.loaded entity.set keys := by
  let others := Members.ofEntities (entities.filter fun entity => entity ≠ focal)
  have among (entity : EntityKey) : others.has entity ↔ entity ∈ entities ∧ entity ≠ focal := by
    simp [others, Members.has_ofEntities]
  have start : exchange config host focal own entities = .start config.propertyTypes config.loadBuffer
      (host.streams others.toList) (.ofList [(focal, own)]) := by
    simp [exchange, others, listed]
  have received (entity : EntityKey) (properties : Properties) :
      (.ofList [(focal, own)] : Candidates)[entity]? = some properties ↔ entity = focal ∧ properties = own := by
    simp only [Std.ExtTreeMap.ofList_singleton, Std.ExtTreeMap.getElem?_insert, Std.LawfulEqOrd.compare_eq_iff_eq,
      Std.ExtTreeMap.getElem?_empty]
    grind
  have fresh : ∀ candidate ∈ host.loadedAll others.toList,
      candidate.1 ∉ (.ofList [(focal, own)] : Candidates) := by
    intro candidate given
    have other := (among _).mp (once.mem_loadedAll.mp given).1
    simpa using Ne.symm other.2
  rw [start]
  obtain ⟨moves, stuck⟩ := Exchange.moves_finish (.start config.propertyTypes config.loadBuffer
    (host.streams others.toList) (.ofList [(focal, own)]))
  obtain ⟨candidates, ended, found⟩ := Exchange.result_of_moves (sound.flatten_streams _) (once.nodup others)
    fresh moves stuck
  refine ⟨candidates, ended, fun entity properties => ?_⟩
  rw [found, received, once.mem_loadedAll, among, Properties.hasValuesFor_iff]
  simp only [among]
  tauto

def Hit (sets : IdSet) (hits : Members) (entity : EntityKey) : Prop := hits.has entity ∧ entity.set ∈ sets

def Admits (feedback : FeedbackTable) (sets : IdSet) (hits : Members) (focal entity : EntityKey) : Prop :=
  entity ≠ focal ∧ Hit sets hits entity ∧ feedback.rows[EntityPair.of focal entity]? ≠ some false

/-- The rules for candidates: the focal entity is alone unless it is a hit itself. Otherwise the hits that are admitted
join it, with the properties that the loader gives, if these have a value. -/
structure Follows (host : Host) (feedback : FeedbackTable) (types sets : IdSet) (focal : EntityKey) (own : Properties)
    (hits : Members) (candidates : Candidates) : Prop where
  alone : ¬Hit sets hits focal → ∀ entity properties, candidates[entity]? = some properties ↔
    entity = focal ∧ properties = own
  joined : Hit sets hits focal → ∀ entity properties, candidates[entity]? = some properties ↔
    entity = focal ∧ properties = own ∨
      Admits feedback sets hits focal entity ∧ properties.Filled types ∧
        ∃ keys : IdSet, (∀ key, key ∈ keys ↔ Admits feedback sets hits focal ⟨entity.set, key⟩) ∧
          (entity.key, properties) ∈ host.loaded entity.set keys

theorem mem_usableHits_of_hit (hit : Hit sets hits focal) {entity : EntityKey} :
    entity ∈ usableHits focal sets hits ↔ Hit sets hits entity := by
  have usable (entity : EntityKey) : entity ∈ (hits.entities.filter fun entity => sets.contains entity.set) ↔
      Hit sets hits entity := by
    simp [Hit, Members.mem_entities]
  rw [usableHits, if_pos (List.contains_iff_mem.mpr ((usable focal).mpr hit)), usable]

theorem usableHits_of_not_hit (missed : ¬Hit sets hits focal) : usableHits focal sets hits = [focal] := by
  rw [usableHits, if_neg]
  simpa [Hit, Members.mem_entities] using missed

theorem follows_of_finish (sound : host.Succeeds) (once : host.LoadsOnce) {candidates : Candidates}
    (ended : (exchange config host focal own
      ((usableHits focal sets hits).filter (feedback.permits focal))).finish.result = .ok candidates) :
    Follows host feedback config.propertyTypes sets focal own hits candidates := by
  have permitted : feedback.permits focal focal := by simp [FeedbackTable.permits]
  obtain ⟨_, ended', found⟩ := finish_exchange sound once
    (List.mem_filter.mpr ⟨mem_usableHits focal sets hits, permitted⟩)
  obtain rfl := Except.ok.inj (ended.symm.trans ended')
  constructor
  · intro missed entity properties
    rw [found, usableHits_of_not_hit missed]
    simp +contextual
  · intro hit entity properties
    have admits (entity : EntityKey) : entity ∈ (usableHits focal sets hits).filter (feedback.permits focal) ∧
        entity ≠ focal ↔ Admits feedback sets hits focal entity := by
      simp only [List.mem_filter, mem_usableHits_of_hit hit, FeedbackTable.permits, Admits]
      grind
    rw [found]
    simp only [admits]

inductive Built (host : Host) (feedback : FeedbackTable) (config : BlockingConfig) (focal : EntityKey) (top : Nat)
    (own : Properties) : Except LinkError Block → List Call → Prop
  | blank : ¬own.Filled config.propertyTypes →
      Built host feedback config focal top own (.ok ⟨focal, ∅⟩) [.host (.loadOne focal)]
  | unknown {calls : List Call} : own.Filled config.propertyTypes → host (.typeOf focal.set) = .ok none →
      calls.filterMap Call.search? = [] →
      Built host feedback config focal top own (.error (.execution (.unknownEntitySet focal.set))) calls
  | searched {entityType : Id} {sets : IdSet} {request : SearchRequest} {hits : Members} {candidates : Candidates}
      {calls : List Call} : own.Filled config.propertyTypes → host (.typeOf focal.set) = .ok (some entityType) →
      host (.setsOf entityType) = .ok sets → request.Seeks config own entityType sets top →
      calls.filterMap Call.search? = [request] → host (.search request) = .ok hits →
      Follows host feedback config.propertyTypes sets focal own hits candidates →
      Built host feedback config focal top own (.ok ⟨focal, candidates⟩) calls

/-- Just those with a value have a block that is not empty, and they are in it as they were found. -/
theorem Built.filled_iff {top : Nat} {block : Block} {calls : List Call}
    (built : Built host feedback config focal top own (.ok block) calls) :
    (block.isEmpty = false ↔ own.Filled config.propertyTypes) ∧
      (own.Filled config.propertyTypes → block.candidates[focal]? = some own) := by
  cases built with
  | blank blank => simp [blank, isEmpty]
  | @searched _ sets _ hits candidates _ filled _ _ _ _ _ follows =>
      have found : candidates[focal]? = some own := by
        by_cases hit : Hit sets hits focal
        · exact (follows.joined hit focal own).mpr (.inl ⟨rfl, rfl⟩)
        · exact (follows.alone hit focal own).mpr ⟨rfl, rfl⟩
      have nonempty : candidates.isEmpty = false := by
        refine Bool.eq_false_iff.mpr fun empty => ?_
        simp [Std.ExtTreeMap.isEmpty_iff.mp empty] at found
      exact ⟨⟨fun _ => filled, fun _ => nonempty⟩, fun _ => found⟩

end Block

namespace Action

variable {α β : Type} {host : Host} {feedback : FeedbackTable} {calls : List Call}

abbrev Notes (host : Host) (feedback : FeedbackTable) (refused : LinkError → List Call → Prop)
    (post : α → List Call → Prop) (action : Action α) (calls : List Call) : Prop :=
  action.Ensures (Answering.noting fun (_ : Unit) call answer _ => call.Tells host feedback True False answer)
    (fun _ call => call.Lands host feedback) (fun error state => refused error state.2)
    (fun value state => post value state.2) ((), calls)

theorem notes_bind {refused : LinkError → List Call → Prop} {found : α → List Call → Prop}
    {post : β → List Call → Prop} {action : Action α} {rest : α → Action β}
    (first : action.Notes host feedback (fun _ _ => False) found calls)
    (then' : ∀ value calls, found value calls → (rest value).Notes host feedback refused post calls) :
    (action >>= rest).Notes host feedback refused post calls :=
  (ensures_bind _ _ _).mpr ((first.refuse fun _ _ => False.elim).mono fun value _ holds => then' value _ holds)

theorem notes_host (sound : host.Succeeds) (request : HostCall) :
    (Action.host request).Notes host feedback (fun _ _ => False)
      (fun answer after => host request = .ok answer ∧ after = calls ++ [.host request]) calls := by
  refine ⟨trivial, ?_⟩
  rintro answer ⟨_, after⟩ ⟨rfl, noted⟩
  cases answered : host request with
  | ok answer => exact ⟨rfl, noted⟩
  | error error => exact (sound.ne_error answered).elim

/-- What makes no search has its one result, and no more searches are noted. -/
theorem Resolves.notes {post : α → Prop} {action : Action α} (resolves : action.Resolves host feedback True True post)
    (asks : action.Asks True (fun call => call.search? = none) fun _ => True) :
    action.Notes host feedback (fun _ _ => False) (fun value after =>
      post value ∧ after.filterMap Call.search? = calls.filterMap Call.search?) calls := by
  refine Program.Ensures.mono (Program.Ensures.noted resolves.told asks (fun _ _ _ _ _ => .inr trivial) calls) ?_
  rintro (error | value) ⟨_, _⟩ ⟨ended, made, rfl, searchless⟩
  · exact ended
  · refine ⟨ended, ?_⟩
    rw [List.filterMap_append, List.filterMap_eq_nil_iff.mpr searchless, List.append_nil]

theorem notes_build (sound : host.Succeeds) (once : host.LoadsOnce) (config : BlockingConfig) (cached : Bool)
    (focal : EntityKey) (top : Nat) {own : Properties} (loaded : host (.loadOne focal) = .ok own) :
    (Block.build config cached focal top).Notes host feedback
      (fun error => Block.Built host feedback config focal top own (.error error))
      (fun block => Block.Built host feedback config focal top own (.ok block)) [] := by
  have serves : True → host.Succeeds := fun _ => sound
  refine notes_bind (notes_host sound (.loadOne focal)) ?_
  rintro _ _ ⟨loaded', rfl⟩
  obtain rfl := Except.ok.inj (loaded.symm.trans loaded')
  split
  · rename_i blank
    exact .blank (by simpa [← Properties.hasValuesFor_iff] using blank)
  · rename_i filled
    replace filled : own.Filled config.propertyTypes := by simpa [← Properties.hasValuesFor_iff] using filled
    refine notes_bind ((resolves_typeOf trivial serves cached focal.set).notes
      (asks_typeOf (fun _ => rfl) (fun _ => rfl) _ _)) ?_
    rintro (_ | entityType) typed ⟨known, before⟩
    · exact .unknown filled known before
    · refine notes_bind ((resolves_setsOf trivial serves cached entityType).notes
        (asks_setsOf (fun _ => rfl) (fun _ => rfl) _ _)) fun sets listed noted => ?_
      refine notes_bind (notes_host sound (.search _)) ?_
      rintro hits _ ⟨found, rfl⟩
      refine notes_bind ((resolves_undisputed trivial focal (Block.usableHits focal sets hits)).notes
        (asks_undisputed (fun _ => rfl) (fun _ => rfl) _ _)) ?_
      rintro _ checked ⟨rfl, unsearched⟩
      refine notes_bind ((resolves_load serves config focal own _).notes (asks_load (fun _ _ => rfl) _ _ _ _)) ?_
      rintro candidates after ⟨ended, unsearched'⟩
      refine .searched filled known noted.1 (Block.seeks_request filled entityType sets top) ?_ found
        (Block.follows_of_finish sound once ended)
      rw [unsearched', unsearched, List.filterMap_append, noted.2, before]
      rfl

end Action

namespace System

variable {host : Host} {system : System} {call : Call}

/-- A call that only looks is always answered. -/
theorem answered_of_looks (looks : call.Looks) : ∃ answer after, AnswersBy host False system call answer after := by
  cases call with
  | host request => exact ⟨host request, system, rfl, rfl⟩
  | read request => exact ⟨.ok (system.store.read request), system, ⟨rfl, rfl⟩, .inl trivial⟩
  | index request =>
      cases request with
      | record entity => exact ⟨.ok system.index[entity]?, system, ⟨rfl, rfl⟩, .inl trivial⟩
      | _ => exact looks.elim
  | feedbackCache request =>
      let after := (system.feedbackCache.answer request).2
      exact ⟨_, { system with feedbackCache := after }, ⟨_, ⟨[], rfl⟩, rfl⟩, .inl trivial⟩
  | typeCache request =>
      let after := (system.typeCache.answer request).2
      exact ⟨_, { system with typeCache := after }, ⟨_, ⟨[], rfl⟩, rfl⟩, .inl trivial⟩
  | setsCache request =>
      let after := (system.setsCache.answer request).2
      exact ⟨_, { system with setsCache := after }, ⟨_, ⟨[], rfl⟩, rfl⟩, .inl trivial⟩
  | _ => exact looks.elim

/-- The block of an informed system is built by the rules, and every call on the way is one that is answered. -/
theorem Informed.ensures_build (informed : system.Informed host) (sound : host.Succeeds) (once : host.LoadsOnce)
    (config : BlockingConfig) (cached : Bool) {focal : EntityKey} (top : Nat) {own : Properties}
    (loaded : host (.loadOne focal) = .ok own) :
    (Block.build config cached focal top).run.Ensures (AnswersBy host False).noting (fun _ => Call.Looks)
      (fun result after => Block.Built host system.store.tables.feedback config focal top own result after.2)
      (system, []) := by
  have notes := @Action.notes_build host system.store.tables.feedback sound once config cached focal top own loaded
  refine Program.Ensures.mono (@Program.Ensures.simulate_noted _ _ _ _ (fun _ => Call.Looks) _ _ _ _ _ _ _ notes
    (fun now _ => (True → now.Informed host) ∧ system.Recached now) ⟨fun _ => informed, rfl⟩
    (fun _ _ _ _ lands => lands.looks)
    fun _ _ _ _ _ kept lands answered => ⟨(), told_of_answered kept lands answered⟩) ?_
  rintro (error | block) _ ⟨_, _, built⟩ <;> exact built

/-- If no call fails then a block is built by the rules and by no others. Just those entities have one that is not
empty that have a value, and they are in it as they were found. -/
theorem built_of_informed (informed : system.Informed host) (sound : host.Succeeds) (once : host.LoadsOnce)
    (config : BlockingConfig) (cached : Bool) (focal : EntityKey) (top : Nat) :
    ∃ own, host (.loadOne focal) = .ok own ∧
      (∃ result after, Program.Runs (AnswersBy host False).noting (Block.build config cached focal top).run
        (system, []) result after) ∧
      ∀ result after, Program.Runs (AnswersBy host False).noting (Block.build config cached focal top).run
          (system, []) result after →
        Block.Built host system.store.tables.feedback config focal top own result after.2 ∧
          ∀ block, result = .ok block → (block.isEmpty = false ↔ own.Filled config.propertyTypes) ∧
            (own.Filled config.propertyTypes → block.candidates[focal]? = some own) := by
  cases loaded : host (.loadOne focal) with
  | error error => exact (sound.ne_error loaded).elim
  | ok own =>
      have ensured := informed.ensures_build sound once config cached top loaded
      refine ⟨own, rfl, ensured.exists_runs fun state call looks => ?_, fun result after run => ?_⟩
      · obtain ⟨answer, after, answered⟩ := @answered_of_looks host state.1 call looks
        exact ⟨answer, (after, _), answered, rfl⟩
      · have built := run.ensured ensured
        refine ⟨built, ?_⟩
        rintro block rfl
        exact built.filled_iff

end System

namespace Sample

theorem loads_once : host.LoadsOnce := by
  have loaded (set : Id) (keys : IdSet) : host.loaded set keys = keys.toList.map fun key => (key, properties) := by
    simp [Host.loaded, host, List.filterMap_map, Function.comp_def, Except.toOption]
  constructor
  · intro set keys
    rw [loaded, List.map_map]
    have distinct : keys.toList.Nodup := Std.ExtTreeSet.distinct_toList.imp Std.ReflCmp.ne_of_cmp_ne_eq
    simpa [Function.comp_def] using distinct
  · intro set keys item given
    rw [loaded] at given
    obtain ⟨_, listed, rfl⟩ := List.mem_map.mp given
    exact Std.ExtTreeSet.mem_toList.mp listed

/-- The left entity has a value, so there is a block and it is in it. -/
theorem built_of_left : start.Informed host ∧ host.Succeeds ∧ host.LoadsOnce ∧
    (∃ result after, Program.Runs (System.AnswersBy host False).noting
      (Block.build linker.config.blocking false left 2).run (start, []) result after) ∧
    ∀ result after, Program.Runs (System.AnswersBy host False).noting
        (Block.build linker.config.blocking false left 2).run (start, []) result after →
      ∃ block, result = .ok block ∧ block.isEmpty = false ∧ block.candidates[left]? = some properties := by
  have informed : start.Informed host :=
    ⟨⟨FeedbackTable.sound_empty, Cache.faithful_of_empty rfl⟩, Cache.faithful_of_empty rfl, Cache.faithful_of_empty rfl⟩
  obtain ⟨own, loaded, runs, built⟩ :=
    System.built_of_informed informed host_succeeds loads_once linker.config.blocking false left 2
  obtain rfl : properties = own := Except.ok.inj loaded
  have filled : properties.Filled linker.config.blocking.propertyTypes :=
    Properties.hasValuesFor_iff.mp (by decide +kernel)
  refine ⟨informed, host_succeeds, loads_once, runs, fun result after run => ?_⟩
  obtain ⟨found, holds⟩ := built result after run
  cases result with
  | ok block => exact ⟨block, rfl, (holds block rfl).1.mpr filled, (holds block rfl).2 filled⟩
  | error error =>
      cases found with
      | unknown _ typed _ => cases typed

end Sample

end RecordLinkage
