import RecordLinkage.Proofs.Linking.Effects

/-! Which cluster a pass links in: the one where the focal entity still has a row, or else the one whose members
score best on average, or a new one if no accepted entity is in any. -/

namespace RecordLinkage

namespace Double

variable {a b c : Double}

theorem lt_of_lt_of_le (less : a.lt b) (most : b.le c) : a.lt c := by
  simp only [lt, le, Bool.and_eq_true, decide_eq_true_eq] at *
  grind

theorem le_of_lt (less : a.lt b) : a.le b := by
  simp only [lt, le, Bool.and_eq_true, decide_eq_true_eq] at *
  grind

theorem lt_irrefl (a : Double) : a.lt a = false := by
  simp [lt]

end Double

namespace Linking

variable {focal : EntityKey} {scored : Scored}

def lead (focal : EntityKey) (scored : Scored) (best : Option (Id × Double)) (entry : Id × ScoreMap) :
    Option (Id × Double) :=
  let mean := meanScore focal scored entry.2.members
  match best with
  | none => some (entry.1, mean)
  | some (_, highest) => if highest.lt mean then some (entry.1, mean) else best

theorem bestCluster_eq (clusters : List (Id × ScoreMap)) :
    bestCluster focal scored clusters = (clusters.foldl (lead focal scored) none).map (·.1) := rfl

structure Leads (focal : EntityKey) (scored : Scored) (best : Id × Double) (clusters : List (Id × ScoreMap)) :
    Prop where
  listed : ∃ scores, (best.1, scores) ∈ clusters ∧ best.2 = meanScore focal scored scores.members
  highest : ∀ entry ∈ clusters, best.2.lt (meanScore focal scored entry.2.members) = false
  first : ∀ entry ∈ clusters, best.2.le (meanScore focal scored entry.2.members) → (compare best.1 entry.1).isLE

theorem leads_single (entry : Id × ScoreMap) :
    Leads focal scored (entry.1, meanScore focal scored entry.2.members) [entry] where
  listed := ⟨entry.2, .head _, rfl⟩
  highest := List.forall_mem_singleton.mpr (Double.lt_irrefl _)
  first := List.forall_mem_singleton.mpr fun _ => by simp

theorem Leads.next {best : Id × Double} {seen : List (Id × ScoreMap)} {entry : Id × ScoreMap}
    (leads : Leads focal scored best seen) (later : ∀ other ∈ seen, compare other.1 entry.1 = .lt)
    {after : Id × Double} (taken : lead focal scored (some best) entry = some after) :
    Leads focal scored after (seen ++ [entry]) := by
  simp only [lead] at taken
  split at taken
  · rename_i higher
    obtain rfl := Option.some.inj taken
    -- What the old best is not exceeded by does not reach the new one.
    have below (other : Id × ScoreMap) (listed : other ∈ seen) :
        (meanScore focal scored entry.2.members).le (meanScore focal scored other.2.members) = false := by
      refine Bool.eq_false_iff.mpr fun reaches => ?_
      have exceeds := Double.lt_of_lt_of_le higher reaches
      rw [leads.highest other listed] at exceeds
      cases exceeds
    have alone := @leads_single focal scored entry
    refine ⟨⟨entry.2, List.mem_append_right _ (.head _), rfl⟩, ?_, ?_⟩
    · refine List.forall_mem_append.mpr ⟨fun other listed => ?_, alone.highest⟩
      refine Bool.eq_false_iff.mpr fun exceeds => ?_
      exact absurd (Double.le_of_lt exceeds) (by simp [below other listed])
    · refine List.forall_mem_append.mpr ⟨fun other listed reaches => ?_, alone.first⟩
      exact absurd reaches (by simp [below other listed])
  · rename_i lower
    obtain rfl := Option.some.inj taken
    obtain ⟨scores, listed, same⟩ := leads.listed
    refine ⟨⟨scores, List.mem_append_left _ listed, same⟩, ?_, ?_⟩
    · exact List.forall_mem_append.mpr ⟨leads.highest, List.forall_mem_singleton.mpr (by simpa using lower)⟩
    · refine List.forall_mem_append.mpr ⟨leads.first, List.forall_mem_singleton.mpr fun _ => ?_⟩
      simp [later _ listed]

theorem Leads.foldl {clusters seen : List (Id × ScoreMap)} {best after : Id × Double}
    (leads : Leads focal scored best seen) (ascending : Ascending Prod.fst (seen ++ clusters))
    (ended : clusters.foldl (lead focal scored) (some best) = some after) :
    Leads focal scored after (seen ++ clusters) := by
  induction clusters generalizing seen best with
  | nil =>
      obtain rfl := Option.some.inj ended
      rwa [List.append_nil]
  | cons entry clusters ih =>
      have later : ∀ other ∈ seen, compare other.1 entry.1 = .lt := fun other listed =>
        (List.pairwise_append.mp ascending).2.2 other listed entry (.head _)
      obtain ⟨middle, taken⟩ : ∃ middle, lead focal scored (some best) entry = some middle := by
        simp only [lead]
        split <;> exact ⟨_, rfl⟩
      rw [List.foldl_cons, taken] at ended
      have together : seen ++ entry :: clusters = seen ++ [entry] ++ clusters := by simp
      rw [together] at ascending ⊢
      exact ih (leads.next later taken) ascending ended

theorem leads_bestCluster {clusters : List (Id × ScoreMap)} {cluster : Id} (ascending : Ascending Prod.fst clusters)
    (best : bestCluster focal scored clusters = some cluster) :
    ∃ mean, Leads focal scored (cluster, mean) clusters := by
  rw [bestCluster_eq] at best
  obtain ⟨after, ended, rfl⟩ := Option.map_eq_some_iff.mp best
  cases clusters with
  | nil => cases ended
  | cons entry clusters => exact ⟨after.2, (leads_single entry).foldl ascending ended⟩

end Linking

namespace Prepared

variable {prepared : Prepared} {graph : LinkGraph} {snapshot : Linking.Snapshot} {cluster other : Id}

def mean (prepared : Prepared) (graph : LinkGraph) (cluster : Id) : Double :=
  Linking.meanScore prepared.focal prepared.scored (ScoreMap.ofLinks (graph.scores cluster)).members

/-- If the focal entity is in no cluster then all those that an accepted entity is in are to choose from. -/
theorem Shows.choices_eq (shows : prepared.Shows graph snapshot)
    (homeless : ∀ cluster, ¬graph.Touches cluster prepared.focal) :
    snapshot.choices prepared.focal = snapshot.toList := by
  rw [Linking.Snapshot.choices, if_pos]
  refine List.isEmpty_iff.mpr (List.filter_eq_nil_iff.mpr ?_)
  rintro ⟨cluster, scores⟩ listed member
  obtain ⟨_, rfl⟩ := shows.known (Std.ExtTreeMap.mem_toList_iff_getElem?_eq_some.mp listed)
  exact homeless cluster (ScoreMap.mem_members_ofLinks.mp (Std.ExtTreeSet.contains_iff_mem.mp member))

/-- Of all clusters that an accepted entity is in, none has a higher mean than the one that is chosen, and none with
the same mean comes before it. -/
theorem Shows.leads (shows : prepared.Shows graph snapshot)
    (homeless : ∀ cluster, ¬graph.Touches cluster prepared.focal) (reserved : Id)
    (meets : prepared.Meets graph other) :
    (prepared.mean graph (prepared.cluster reserved snapshot)).lt (prepared.mean graph other) = false ∧
      ((prepared.mean graph (prepared.cluster reserved snapshot)).le (prepared.mean graph other) →
        (compare (prepared.cluster reserved snapshot) other).isLE) := by
  unfold cluster
  cases best : Linking.bestCluster prepared.focal prepared.scored (snapshot.choices prepared.focal) with
  | none => exact absurd meets (shows.founds_iff.mp (by rw [founds, best]; rfl) other)
  | some chosen =>
      rw [Option.getD_some]
      rw [shows.choices_eq homeless] at best
      have ascending : Ascending Prod.fst snapshot.toList := Std.ExtTreeMap.ordered_keys_toList
      obtain ⟨mean, leads⟩ := Linking.leads_bestCluster ascending best
      obtain ⟨scores, listed, same⟩ := leads.listed
      obtain ⟨_, rfl⟩ := shows.known (Std.ExtTreeMap.mem_toList_iff_getElem?_eq_some.mp listed)
      change mean = prepared.mean graph chosen at same
      subst same
      have among := Std.ExtTreeMap.mem_toList_iff_getElem?_eq_some.mpr (shows.found other meets)
      have highest := leads.highest _ among
      have first := leads.first _ among
      exact ⟨highest, first⟩

end Prepared

namespace System

def Eligible (system : System) (focal : EntityKey) (positive : PairSet) (accepts : EntityKey → Double → Prop)
    (cluster : Id) : Prop :=
  ∃ entity score, accepts entity score ∧ system.Outlasts focal positive cluster entity

structure Weighs (accepts : EntityKey → Double → Prop) (weight : EntityKey → Double) : Prop where
  accepted : ∀ entity score, accepts entity score → weight entity = score
  others : ∀ entity, (∀ score, ¬accepts entity score) → weight entity = .zero

/-- The mean of what the entities weigh that are then in the cluster beside the focal one, summed up in ascending
order. -/
def Averages (system : System) (focal : EntityKey) (positive : PairSet) (weight : EntityKey → Double) (cluster : Id)
    (mean : Double) : Prop :=
  ∃ others : List EntityKey, others ≠ [] ∧ Ascending id others ∧
    (∀ entity, entity ∈ others ↔ entity ≠ focal ∧ system.Outlasts focal positive cluster entity) ∧
    mean = (others.foldl (fun sum entity => sum.add (weight entity)) Double.zero).div (.ofNat others.length)

def Drawn (system after : System) (id : Id) : Prop :=
  ∃ reading, system.drawn ≤ reading ∧ reading < after.drawn ∧ id = system.ids reading

structure Chooses (system after : System) (focal : EntityKey) (positive : PairSet)
    (accepts : EntityKey → Double → Prop) (outcome : LinkOutcome) (cluster : Id) : Prop where
  stays : ∀ home, system.Outlasts focal positive home focal → cluster = home
  joins : (∀ home, ¬system.Outlasts focal positive home focal) →
    (∃ other, system.Eligible focal positive accepts other) → system.Eligible focal positive accepts cluster ∧
      ∃ (weight : EntityKey → Double) (mean : Id → Double), Weighs accepts weight ∧
        (∀ other, system.Eligible focal positive accepts other →
          system.Averages focal positive weight other (mean other)) ∧
        ∀ other, system.Eligible focal positive accepts other → (mean cluster).lt (mean other) = false ∧
          ((mean cluster).le (mean other) → (compare cluster other).isLE)
  founds : (∀ other, ¬system.Eligible focal positive accepts other) →
    system.Drawn after cluster ∧ ∀ link, ¬system.HasRow cluster link
  newCluster : outcome.newCluster ↔ ∀ other, ¬system.Eligible focal positive accepts other
  placed : ∀ other, after.Houses other focal ↔ other = cluster

section Enacted

variable {system after : System} {prepared : Prepared} {reserved : Id}
  {snapshot : Linking.Snapshot} {outcome : LinkOutcome} {accepts : EntityKey → Double → Prop} {cluster : Id}

theorem meets_cleared (sound : system.store.tables.matched.Sound)
    (accepted : ∀ (entity : EntityKey) score, prepared.scored[entity]? = some score ↔ accepts entity score) :
    prepared.Meets (prepared.cleared system.store.tables.matched).graph cluster ↔
      system.Eligible prepared.focal prepared.positive accepts cluster := by
  have member (entity : EntityKey) : entity ∈ prepared.scored ↔ ∃ score, accepts entity score := by
    rw [Std.ExtTreeMap.mem_iff_isSome_getElem?, Option.isSome_iff_exists]
    exact exists_congr fun score => accepted entity score
  simp only [Prepared.Meets, Eligible, member, touches_cleared sound, exists_and_right]

theorem averages_mean (sound : system.store.tables.matched.Sound)
    (homeless : ∀ home, ¬system.Outlasts prepared.focal prepared.positive home prepared.focal)
    (eligible : system.Eligible prepared.focal prepared.positive accepts cluster) :
    system.Averages prepared.focal prepared.positive (prepared.scored.getD · .zero) cluster
      (prepared.mean (prepared.cleared system.store.tables.matched).graph cluster) := by
  let members := (ScoreMap.ofLinks ((prepared.cleared system.store.tables.matched).graph.scores cluster)).members
  let others := members.toList.filter fun entity => entity ≠ prepared.focal
  have among (entity : EntityKey) : entity ∈ others ↔
      entity ≠ prepared.focal ∧ system.Outlasts prepared.focal prepared.positive cluster entity := by
    rw [← touches_cleared sound, List.mem_filter, Std.ExtTreeSet.mem_toList, decide_eq_true_eq, and_comm]
    exact and_congr_right fun _ => ScoreMap.mem_members_ofLinks
  obtain ⟨entity, _, _, outlasts⟩ := eligible
  have other : entity ≠ prepared.focal := fun same => homeless cluster (same ▸ outlasts)
  have some : others ≠ [] := List.ne_nil_of_mem ((among entity).mpr ⟨other, outlasts⟩)
  refine ⟨others, some, (ascending_elements members).filter _, among, ?_⟩
  exact if_neg fun none => some (List.isEmpty_iff.mp none)

theorem weighs_scored
    (accepted : ∀ (entity : EntityKey) score, prepared.scored[entity]? = some score ↔ accepts entity score) :
    Weighs accepts (prepared.scored.getD · .zero) where
  accepted entity score accepts := by
    rw [Std.ExtTreeMap.getD_eq_getD_getElem?, (accepted entity score).mpr accepts, Option.getD_some]
  others entity refused := by
    have unscored : prepared.scored[entity]? = none :=
      Option.eq_none_iff_forall_ne_some.mpr fun score found => refused score ((accepted entity score).mp found)
    rw [Std.ExtTreeMap.getD_eq_getD_getElem?, unscored, Option.getD_none]

theorem chooses_of_enacts (sound : system.store.tables.matched.Sound)
    (single : ∀ entity cluster other, system.Houses cluster entity → system.Houses other entity → cluster = other)
    (unused : ∀ id, system.Drawn after id → ∀ link, ¬system.HasRow id link) (ready : prepared.Sound)
    (enacts : prepared.Enacts system.Shown reserved snapshot system.ledger outcome after.ledger)
    (accepted : ∀ (entity : EntityKey) score, prepared.scored[entity]? = some score ↔ accepts entity score)
    (drawn : outcome.newCluster → system.Drawn after (prepared.cluster reserved snapshot)) :
    system.Chooses after prepared.focal prepared.positive accepts outcome (prepared.cluster reserved snapshot) := by
  have shows : prepared.Shows (prepared.cleared system.store.tables.matched).graph snapshot := enacts.shows
  have meets (other : Id) := @meets_cleared system prepared accepts other sound accepted
  have founds : outcome.newCluster ↔
      ∀ other, ¬system.Eligible prepared.focal prepared.positive accepts other := by
    rw [enacts.reports.newCluster, shows.founds_iff]
    simp only [meets]
  have stays (home : Id) (outlasts : system.Outlasts prepared.focal prepared.positive home prepared.focal) :
      prepared.cluster reserved snapshot = home := by
    have touches := shows.focal_touches ready reserved ((touches_cleared sound).mpr outlasts)
    exact single _ _ _ ((touches_cleared sound).mp touches).houses outlasts.houses
  have affects := affects_of_enacts sound enacts ready single fun _ => Iff.rfl
  have own : prepared.focal ∈ outcome.matched :=
    enacts.reports.matched ▸ Prepared.focal_matched ready.focal _ _
  refine ⟨stays, fun homeless some => ?_, fun none => ?_, founds, fun other => ?_⟩
  · have joins := (shows.cluster_cases reserved).resolve_right fun nowhere => by
      obtain ⟨other, eligible⟩ := some
      exact nowhere.2 other ((meets other).mpr eligible)
    refine ⟨(meets _).mp joins, (prepared.scored.getD · .zero),
      prepared.mean (prepared.cleared system.store.tables.matched).graph, weighs_scored accepted,
      fun other => averages_mean sound homeless, fun other eligible => ?_⟩
    exact shows.leads (fun home touches => homeless home ((touches_cleared sound).mp touches)) reserved
      ((meets other).mpr eligible)
  · have fresh := drawn (founds.mpr none)
    exact ⟨fresh, unused _ fresh⟩
  · exact (affects.houses_focal own).trans (or_iff_left_of_imp fun outlasts => (stays other outlasts).symm)

end Enacted

end System

namespace Action

variable {draws : Id → Prop}

abbrev Drawing {α : Type} (draws : Id → Prop) (post : α → Prop) (action : Action α) : Prop :=
  action.Ensures (fun (_ : Unit) call answer _ => LockProgress.Draws draws call answer) (fun _ _ => True)
    (fun _ _ => True) (fun value _ => post value) ()

theorem drawing_lockMembers {members : EntitySet} (filled : members.isEmpty = false) :
    (ClusterGraph.lockMembers members).Drawing draws fun transaction =>
      ∃ id, transaction.reserved = some id ∧ draws id := by
  have locks := @ensures_lockMembers True (fun _ => True) draws members .start filled rfl
  refine Program.Ensures.mono (Program.Ensures.simulate locks (fun _ _ => True) trivial
    (fun _ _ _ _ _ => trivial) ?_) ?_
  · rintro _ progress call answer _ _ _ drawn
    obtain ⟨later, answered⟩ := progress.exists_answers drawn
    exact ⟨later, answered, trivial⟩
  · rintro (error | transaction) _ ⟨_, _, acquired⟩
    · trivial
    · obtain ⟨id, own, _, drawn⟩ := acquired.reserved
      exact ⟨id, own, drawn⟩

/-- A new cluster is the one that the transaction reserved. -/
theorem asks_place {transaction : Transaction} {focal : EntityKey} {scored : Scored} {positive : PairSet} :
    (Linking.place transaction focal scored positive).Asks True (fun _ => True) fun outcome =>
      outcome.newCluster → outcome.cluster = transaction.reserved := by
  have choose (snapshot : Linking.Snapshot) : (Linking.choose transaction focal scored snapshot).Asks True
      (fun _ => True) fun chosen => chosen.2 → some chosen.1 = transaction.reserved := by
    unfold Linking.choose
    split
    · exact asks_pure nofun
    · split
      · rename_i reserved own
        exact asks_pure fun _ => own.symm
      · exact asks_throw _
  unfold Linking.place
  refine asks_bind (asks_pointer trivial) fun previous _ => ?_
  refine asks_bind (asks_deleteNeighborhoodIn (fun _ => trivial) trivial _) fun _ _ => ?_
  refine asks_bind (asks_clustersContaining (fun _ => trivial) _) fun ids _ => ?_
  refine asks_bind (asks_clusters (fun _ => trivial) ids) fun snapshot _ => ?_
  refine asks_bind (choose snapshot) fun chosen fresh => ?_
  dsimp only
  split
  · exact asks_throw _
  · refine asks_bind (asks_flush trivial fun _ => trivial) fun _ _ => ?_
    refine asks_bind (asks_of_relays ((relays_moveAll _ _ _ _).allow fun _ _ => trivial)) fun _ _ => ?_
    refine asks_bind (asks_of_relays ((relays_join _ [] _).allow fun _ _ => trivial)) fun _ _ => ?_
    exact asks_pure fresh

/-- A new cluster has an identifier that the pass drew. -/
theorem drawing_finish {prepared : Prepared} (sound : prepared.Sound) :
    prepared.finish.Drawing draws fun outcome =>
      outcome.newCluster → ∃ cluster, outcome.cluster = some cluster ∧ draws cluster := by
  refine (ensures_bind _ _ _).mpr ((drawing_lockMembers sound.filled).mono ?_)
  rintro transaction _ ⟨id, own, drawn⟩
  have places : (Linking.place transaction prepared.focal prepared.scored prepared.positive).Ensures
      (fun (_ : Unit) call answer _ => LockProgress.Draws draws call answer) (fun _ _ => True) _ _ () :=
    asks_place.ensures (fun _ => True) trivial (fun _ _ _ _ => trivial) fun _ _ _ _ _ _ _ => trivial
  rw [prepared.settle_eq]
  refine (ensures_thenAlways _ _ _).mpr (Program.Ensures.mono places ?_)
  rintro result _ ended
  refine (transaction.ensures_release trivial fun _ _ _ => rfl).mono fun _ _ _ => ?_
  cases result with
  | ok outcome => exact fun fresh => ⟨id, (ended.2 fresh).trans own, drawn⟩
  | error error => trivial

end Action

namespace System

variable {host : Host} {linker : Linker} {focal : EntityKey} {system after : System} {outcome : LinkOutcome}

/-- Identifiers are drawn one after the other. -/
theorem MayAnswer.drawn {call : Call} {answer : call.Answer} (possible : system.MayAnswer call answer after) :
    LockProgress.Draws (system.Drawn after) call answer ∧ system.drawn ≤ after.drawn := by
  cases call with
  | host => exact ⟨trivial, possible ▸ Nat.le_refl _⟩
  | read =>
      cases answer with
      | ok => exact ⟨trivial, possible.2 ▸ Nat.le_refl _⟩
      | error => exact ⟨trivial, possible ▸ Nat.le_refl _⟩
  | write => obtain ⟨_, _, _, _, _, rfl⟩ | ⟨_, _, rfl⟩ := possible <;> exact ⟨trivial, Nat.le_refl _⟩
  | index =>
      cases answer with
      | ok => exact ⟨trivial, possible.2 ▸ Nat.le_refl _⟩
      | error => exact ⟨trivial, possible ▸ Nat.le_refl _⟩
  | feedbackCache | typeCache | setsCache =>
      obtain ⟨_, _, rfl⟩ := possible
      exact ⟨trivial, Nat.le_refl _⟩
  | lock =>
      simp only [MayAnswer, answer?, Option.map_eq_some_iff, Prod.mk.injEq] at possible
      obtain ⟨_, _, _, rfl⟩ := possible
      exact ⟨trivial, Nat.le_refl _⟩
  | now | tick =>
      simp only [MayAnswer, answer?, Option.some.injEq, Prod.mk.injEq] at possible
      obtain ⟨_, rfl⟩ := possible
      exact ⟨trivial, Nat.le_refl _⟩
  | drawId =>
      simp only [MayAnswer, answer?, Option.some.injEq, Prod.mk.injEq] at possible
      obtain ⟨rfl, rfl⟩ := possible
      exact ⟨⟨_, Nat.le_refl _, Nat.lt_succ_self _, rfl⟩, Nat.le_succ _⟩

theorem drawn_of_finish {prepared : Prepared} (sound : prepared.Sound)
    (run : Program.Runs (AnswersBy host True) prepared.finish.run system (.ok outcome) after)
    (fresh : outcome.newCluster) : ∃ cluster, outcome.cluster = some cluster ∧ system.Drawn after cluster := by
  have bounded := (run.upTo System.drawn fun _ _ _ _ answered => answered.1.drawn.2).2
  obtain ⟨_, _, founded⟩ := bounded.simulated (@Action.drawing_finish (system.Drawn after) prepared sound)
    (fun now _ => now.ids = system.ids ∧ system.drawn ≤ now.drawn) ⟨rfl, Nat.le_refl _⟩ (by
      rintro now _ call answer later ⟨ids, since⟩ _ ⟨answered, until'⟩
      obtain ⟨draws, next⟩ := answered.1.drawn
      refine ⟨(), ?_, answered.1.fixes.ids.trans ids, Nat.le_trans since next⟩
      cases call with
      | drawId =>
          obtain ⟨reading, left, before, rfl⟩ := draws
          exact ⟨reading, Nat.le_trans since left, Nat.lt_of_lt_of_le before until', by rw [ids]⟩
      | _ => trivial)
  exact founded fresh

/-- Which cluster a pass links in that ends without an error, over rows that have each entity in one cluster at most,
if the identifiers that it draws are not in use. -/
theorem chooses_of_pass (sound : system.store.tables.matched.Sound)
    (single : ∀ entity cluster other, system.Houses cluster entity → system.Houses other entity → cluster = other)
    (unused : ∀ id, system.Drawn after id → ∀ link, ¬system.HasRow id link)
    (pass : Program.Runs (AnswersBy host True) (linker.link focal).run system (.ok outcome) after)
    (linked : outcome.isSkipped = false) :
    ∃ cluster block now, outcome.cluster = some cluster ∧
      Program.Runs (AnswersBy host True) (linker.block focal).run system (.ok block) now ∧
      Program.Runs (AnswersBy host True) (linker.linkBlock focal block).run now (.ok outcome) after ∧
      system.Chooses after focal (system.store.tables.feedback.positivePairs focal)
        (block.Accepts host (system.store.tables.feedback.positivePairs focal) linker.config.minMatchScore)
        outcome cluster := by
  obtain ⟨block, now, scored, middle, staged⟩ := staged_of_pass pass linked
  obtain ⟨reserved, snapshot, enacts⟩ := staged.enacts sound
  have same : middle.Drawn after = system.Drawn after := by
    rw [staged.recached]
    rfl
  refine ⟨_, block, now, enacts.reports.cluster, staged.blocks, staged.links, ?_⟩
  refine chooses_of_enacts sound single unused staged.sound enacts staged.accepted fun fresh => ?_
  obtain ⟨cluster, chosen, drawn⟩ := drawn_of_finish staged.sound staged.finishes fresh
  obtain rfl := Option.some.inj (enacts.reports.cluster.symm.trans chosen)
  exact same ▸ drawn

end System

namespace Sample

/-- The pass of the left entity, which joins the third one: the right one scores as well, but shares its cluster with
the fourth. -/
theorem chooses_of_left_torn : ∃ (outcome : LinkOutcome) (block : Block),
    torn.store.tables.matched.Sound ∧
    (∀ entity cluster other, torn.Houses cluster entity → torn.Houses other entity → cluster = other) ∧
    (∀ id, torn.Drawn (passed torn left) id → ∀ link, ¬torn.HasRow id link) ∧
    Program.Runs (System.AnswersBy quartet True) (linker.link left).run torn (.ok outcome) (passed torn left) ∧
    outcome.isSkipped = false ∧ outcome.cluster = some (.ofNat 101) ∧
    torn.Chooses (passed torn left) left (torn.store.tables.feedback.positivePairs left)
      (block.Accepts quartet (torn.store.tables.feedback.positivePairs left) linker.config.minMatchScore)
      outcome (.ofNat 101) := by
  obtain ⟨sound, consistent⟩ := torn_sound
  have single : ∀ entity cluster other, torn.Houses cluster entity → torn.Houses other entity → cluster = other :=
    consistent.single
  have unused : ∀ id, torn.Drawn (passed torn left) id → ∀ link, ¬torn.HasRow id link := by
    rintro _ ⟨reading, since, before, rfl⟩ link listed
    have start : torn.drawn = 2 := by decide +kernel
    have final : (passed torn left).drawn = 3 := by decide +kernel
    obtain rfl : reading = 2 := by omega
    have empty : (torn.store.tables.matched.rowsOf (torn.ids 2)).isEmpty := by decide +kernel
    rw [System.HasRow, Std.ExtTreeMap.isEmpty_iff.mp empty] at listed
    exact Std.ExtTreeMap.not_mem_empty listed
  have own : torn.host = quartet := by simp [torn, known]
  obtain ⟨outcome, joined, pass⟩ := @System.served_of_linked quartet torn linker left
    (fun outcome => outcome.cluster = some (.ofNat 101)) own (by decide +kernel)
  replace joined : outcome.cluster = some (.ofNat 101) := by simpa using joined
  have linked : outcome.isSkipped = false := by rw [LinkOutcome.isSkipped, joined]; rfl
  obtain ⟨cluster, block, _, chosen, _, _, chooses⟩ :=
    System.chooses_of_pass sound single unused pass linked
  obtain rfl := Option.some.inj (joined.symm.trans chosen)
  exact ⟨outcome, block, sound, single, unused, pass, linked, joined, chooses⟩

end Sample

end RecordLinkage
