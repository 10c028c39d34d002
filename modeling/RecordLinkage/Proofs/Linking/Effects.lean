import Mathlib.Tactic.Tauto
import RecordLinkage.Proofs.Linking.Informed
import RecordLinkage.Proofs.Linking.Ledger
import RecordLinkage.Proofs.Match.Stars

/-! The whole effect of a pass that links: what it makes of the rows, the index and the log, and what its outcome
says about that. Nothing else is changed. -/

namespace RecordLinkage

def Block.Takes (block : Block) (host : Host) (positive : PairSet) (minimum : Double) (entity : EntityKey) : Prop :=
  entity = block.focal ∨ entity ∈ block.candidates ∧ (EntityPair.of block.focal entity ∈ positive ∨
    ∃ own properties score, block.focalProperties? = some own ∧ block.candidates[entity]? = some properties ∧
      host (.score own properties) = .ok score ∧ minimum.le score)

theorem Block.takes_iff {block : Block} {host : Host} {positive : PairSet} {minimum : Double} {entity : EntityKey}
    (least : minimum.le .one) (own : block.focal ∈ block.candidates) :
    block.Takes host positive minimum entity ↔ ∃ score, block.Accepts host positive minimum entity score := by
  obtain ⟨self, found⟩ : ∃ properties, block.focalProperties? = some properties :=
    Option.isSome_iff_exists.mp (Std.ExtTreeMap.mem_iff_isSome_getElem?.mp own)
  constructor
  · intro takes
    by_cases focal : entity = block.focal
    · exact ⟨.one, .inl ⟨focal, rfl⟩⟩
    obtain ⟨member, reasons⟩ := takes.resolve_left focal
    by_cases protects : EntityPair.of block.focal entity ∈ positive
    · obtain ⟨candidate, listed⟩ := Option.isSome_iff_exists.mp (Std.ExtTreeMap.mem_iff_isSome_getElem?.mp member)
      exact ⟨.one, .inr ⟨focal, self, candidate, found, listed, (if_pos protects).mpr rfl, least⟩⟩
    · obtain ⟨own, candidate, score, found, listed, scored, enough⟩ := reasons.resolve_left protects
      exact ⟨score, .inr ⟨focal, own, candidate, found, listed, (if_neg protects).mpr scored, enough⟩⟩
  · rintro ⟨score, ⟨focal, _⟩ | ⟨focal, own, candidate, found, listed, scored, enough⟩⟩
    · exact .inl focal
    refine .inr ⟨Std.ExtTreeMap.mem_iff_isSome_getElem?.mpr (Option.isSome_of_eq_some listed), ?_⟩
    by_cases protects : EntityPair.of block.focal entity ∈ positive
    · exact .inl protects
    · exact .inr ⟨own, candidate, score, found, listed, (if_neg protects).mp scored, enough⟩

namespace System

/-- A row of the entity in the cluster that is still there when the rows of the focal entity are removed. -/
def Outlasts (system : System) (focal : EntityKey) (positive : PairSet) (cluster : Id) (entity : EntityKey) : Prop :=
  ∃ link, system.HasRow cluster link ∧ link.touches entity ∧ (link.touches focal → link.pair ∈ positive)

def Shown (system : System) (time : Instant) : Prop := ∃ reading, time = system.clock reading

structure Affects (system after : System) (focal : EntityKey) (positive : PairSet) (accepts : EntityKey → Prop)
    (outcome : LinkOutcome) (cluster : Id) : Prop where
  /-- The rows between the focal entity and its matches are written; of the others those of the focal entity are gone
  unless they are protected, and the rest is as it was. -/
  rows : ∃ writtenAt, system.Shown writtenAt ∧ ∀ edge, after.store.tables.matched.find? edge =
    ((if edge.cluster = cluster then ScoreMap.star focal outcome.matched edge.link else none).map
      (⟨·, writtenAt⟩)).or
      (if edge.link.touches focal ∧ edge.link.pair ∉ positive then none else system.store.tables.matched.find? edge)
  edgesWritten : outcome.edgesWritten + 1 = 2 * outcome.matched.size
  accepted : ∀ entity, accepts entity ↔ entity ∈ outcome.matched ∨ entity ∈ outcome.deferred
  apart : ∀ entity ∈ outcome.matched, entity ∉ outcome.deferred
  deferred : ∀ entity, entity ∈ outcome.deferred ↔
    accepts entity ∧ ∃ other, other ≠ cluster ∧ system.Outlasts focal positive other entity
  /-- The focal entity and the matches without a row are pointed at the cluster. The log has them leave the clusters
  where they pointed before, each at a tick of its own, and then join all at one tick. -/
  joining : ∃ joining : List EntityKey, joining.Sublist outcome.matched.keys ∧
    (∀ entity, entity ∈ joining ↔
      entity ∈ outcome.matched ∧ (entity = focal ∨ ∀ other, ¬system.Outlasts focal positive other entity)) ∧
    Ledger.Points system.Shown cluster joining system.index after.index ∧
    ∃ departures last, Departs system.lastTick (system.ledger.leaving cluster joining) departures last ∧
      last < after.lastTick ∧ 1 ≤ after.lastTick ∧ after.store.tables.log = system.store.tables.log.append
        (departures ++ joining.map (⟨cluster, ·, .ofInt after.lastTick⟩))
  feedback : after.store.tables.feedback = system.store.tables.feedback

section Enacted

variable {system after : System} {prepared : Prepared} {reserved : Id}
  {snapshot : Linking.Snapshot} {outcome : LinkOutcome} {cluster : Id} {entity : EntityKey}

theorem touches_cleared (sound : system.store.tables.matched.Sound) :
    (prepared.cleared system.store.tables.matched).graph.Touches cluster entity ↔
      system.Outlasts prepared.focal prepared.positive cluster entity := by
  have kept (link : Link) : link ∈ (prepared.cleared system.store.tables.matched).rowsOf cluster ↔
      system.HasRow cluster link ∧ (link.touches prepared.focal → link.pair ∈ prepared.positive) := by
    have found := MatchTable.find?_remove_planTouching sound prepared.focal prepared.positive ⟨cluster, link⟩
    simp only [MatchTable.find?] at found
    rw [Prepared.cleared, Std.ExtTreeMap.mem_iff_isSome_getElem?, found, HasRow,
      Std.ExtTreeMap.mem_iff_isSome_getElem?]
    split <;> grind
  refine ClusterRows.touched_scores.trans ?_
  simp only [Touched, kept, Outlasts]
  grind

theorem Outlasts.houses {focal : EntityKey} {positive : PairSet}
    (outlasts : system.Outlasts focal positive cluster entity) : system.Houses cluster entity := by
  obtain ⟨link, listed, touches, _⟩ := outlasts
  exact ⟨link, touches, listed⟩

variable (sound : system.store.tables.matched.Sound)
  (enacts : prepared.Enacts system.Shown reserved snapshot system.ledger outcome after.ledger)

include sound enacts

theorem clustered_iff (accepted : entity ∈ prepared.scored) : entity ∈ snapshot.clustered ↔
    ∃ other, system.Outlasts prepared.focal prepared.positive other entity := by
  simp only [enacts.shows.clustered accepted, ledger, touches_cleared sound]

/-- An accepted entity is left out just when it is in another cluster. -/
theorem refused_iff (accepts : prepared.Sound)
    (single : ∀ entity cluster other, system.Houses cluster entity → system.Houses other entity → cluster = other)
    (accepted : entity ∈ prepared.scored) :
    ¬snapshot.admits prepared.focal (prepared.cluster reserved snapshot) entity ↔
      ∃ other, other ≠ prepared.cluster reserved snapshot ∧
        system.Outlasts prepared.focal prepared.positive other entity := by
  have shows := enacts.shows
  rw [shows.admits_iff accepted]
  simp only [ledger, touches_cleared sound, not_or, not_forall, Classical.not_not]
  constructor
  · rintro ⟨_, outside, other, outlasts⟩
    exact ⟨other, fun same => outside (same ▸ outlasts), outlasts⟩
  · rintro ⟨other, apart, outlasts⟩
    refine ⟨?_, fun here => apart (single entity _ _ outlasts.houses here.houses), other, outlasts⟩
    -- The focal entity is linked in the cluster where it is, if it is in one.
    rintro rfl
    have home := shows.focal_touches accepts reserved ((touches_cleared sound).mpr outlasts)
    exact apart (single _ _ _ outlasts.houses ((touches_cleared sound).mp home).houses)

theorem affects_of_enacts (accepts : prepared.Sound)
    (single : ∀ entity cluster other, system.Houses cluster entity → system.Houses other entity → cluster = other)
    {takes : EntityKey → Prop} (taken : ∀ entity, takes entity ↔ entity ∈ prepared.scored) :
    system.Affects after prepared.focal prepared.positive takes outcome (prepared.cluster reserved snapshot) := by
  have matched := enacts.reports.matched
  have own : prepared.focal ∈ outcome.matched := matched ▸ Prepared.focal_matched accepts.focal _ _
  refine ⟨?_, ?_, ?_, ?_, ?_, ?_, enacts.feedback⟩
  · obtain ⟨writtenAt, shown, written⟩ := enacts.matched
    refine ⟨writtenAt, shown, fun edge => ?_⟩
    change MatchTable.find? after.ledger.tables.matched edge = _
    rw [written, Prepared.edges, ← matched, MatchTable.find?_upsert_edges, ScoreMap.score?_symmetric_eq]
    exact congrArg (Option.or _) (MatchTable.find?_remove_planTouching sound prepared.focal prepared.positive edge)
  · rw [enacts.edgesWritten, Prepared.edges, ← matched, ScoreMap.edges, List.length_map,
      ScoreMap.length_links_symmetric own]
  · intro entity
    rw [taken, matched, Prepared.mem_matched, enacts.reports.deferred]
    tauto
  · intro entity listed deferred
    rw [matched, Prepared.mem_matched] at listed
    exact ((enacts.reports.deferred entity).mp deferred).2 listed.2
  · intro entity
    rw [taken, enacts.reports.deferred]
    exact and_congr_right fun accepted => refused_iff sound enacts accepts single accepted
  · obtain ⟨departures, last, departs, later, start, log⟩ := enacts.log
    refine ⟨prepared.joining snapshot (prepared.cluster reserved snapshot), ?_, ?_, enacts.index,
      departures, last, departs, later, start, log⟩
    · exact matched ▸ List.filter_sublist
    · intro entity
      rw [Prepared.mem_joining, matched, Prepared.mem_matched, and_assoc]
      refine and_congr_right fun accepted => ?_
      rw [clustered_iff sound enacts accepted, not_exists]
      refine (and_iff_right_of_imp fun joins => ?_).symm
      refine Classical.byContradiction fun refused => ?_
      obtain ⟨other, apart, outlasts⟩ := (refused_iff sound enacts accepts single accepted).mp refused
      rcases joins with rfl | nowhere
      · exact refused (by simp [Linking.Snapshot.admits])
      · exact nowhere other outlasts

end Enacted

/-- After a pass the focal entity has rows where it links, and where it still had some. -/
theorem Affects.houses_focal {system after : System} {focal : EntityKey} {positive : PairSet}
    {takes : EntityKey → Prop} {outcome : LinkOutcome} {cluster other : Id}
    (affects : system.Affects after focal positive takes outcome cluster) (own : focal ∈ outcome.matched) :
    after.Houses other focal ↔ other = cluster ∨ system.Outlasts focal positive other focal := by
  have rows (link : Link) : after.HasRow other link ↔
      (other = cluster ∧ (ScoreMap.star focal outcome.matched link).isSome) ∨
        system.HasRow other link ∧ (link.touches focal → link.pair ∈ positive) := by
    obtain ⟨_, _, found⟩ := affects.rows
    have written := found ⟨other, link⟩
    simp only [MatchTable.find?] at written
    rw [HasRow, HasRow, Std.ExtTreeMap.mem_iff_isSome_getElem?, Std.ExtTreeMap.mem_iff_isSome_getElem?, written,
      Option.isSome_or, Option.isSome_map]
    split <;> split <;> grind
  constructor
  · rintro ⟨link, touches, listed⟩
    obtain ⟨here, _⟩ | ⟨old, kept⟩ := (rows link).mp listed
    · exact .inl here
    · exact .inr ⟨link, old, touches, kept⟩
  · rintro (rfl | ⟨link, old, touches, kept⟩)
    · obtain ⟨score, scored⟩ := Option.isSome_iff_exists.mp (Std.ExtTreeMap.mem_iff_isSome_getElem?.mp own)
      exact ⟨⟨focal, focal⟩, by simp [Link.touches],
        (rows _).mpr (.inl ⟨rfl, Option.isSome_of_eq_some (ScoreMap.star_eq_some.mpr ⟨focal, scored, .inl rfl⟩)⟩)⟩
    · exact ⟨link, touches, (rows link).mpr (.inr ⟨old, kept⟩)⟩

structure Staged (host : Host) (linker : Linker) (focal : EntityKey) (system after : System) (outcome : LinkOutcome)
    (block : Block) (now : System) (scored : Scored) (middle : System) : Prop where
  blocks : Program.Runs (AnswersBy host True) (linker.block focal).run system (.ok block) now
  links : Program.Runs (AnswersBy host True) (linker.linkBlock focal block).run now (.ok outcome) after
  finishes : Program.Runs (AnswersBy host True)
    (Prepared.mk focal scored (system.store.tables.feedback.positivePairs focal)).finish.run middle (.ok outcome) after
  recached : system.Recached middle
  own : block.focal = focal
  member : focal ∈ block.candidates
  sound : (Prepared.mk focal scored (system.store.tables.feedback.positivePairs focal)).Sound
  accepted : ∀ entity score, scored[entity]? = some score ↔
    block.Accepts host (system.store.tables.feedback.positivePairs focal) linker.config.minMatchScore entity score

section Staged

variable {host : Host} {linker : Linker} {focal : EntityKey} {system after : System} {outcome : LinkOutcome}

theorem staged_of_pass
    (pass : Program.Runs (AnswersBy host True) (linker.link focal).run system (.ok outcome) after)
    (linked : outcome.isSkipped = false) :
    ∃ block now scored middle, Staged host linker focal system after outcome block now scored middle := by
  obtain ⟨block, now, prepared, middle, blocks, links, accepts, prepares, finishes⟩ :=
    Linker.stages_of_pass pass linked
  have own : block.focal = focal := (Action.looks_build _ _ _ _).holds blocks
  have filled := (linker.looks_prepareBlock_filled block).holds accepts prepared rfl
  have seen : system.Recached now := recached_of_looks (Action.looks_build _ _ _ _) blocks
  obtain ⟨result, _, known, told⟩ := @Linker.resolves_prepareBlock host now.store.tables.feedback False False focal
    linker nofun block own nofun filled
  obtain ⟨⟨_, recached⟩, same⟩ := accepts.ensured (ensures_told nofun (told True))
  obtain ⟨scored, ⟨rfl⟩, member, accepted⟩ := known _ same
  have sound : Prepared.Sound _ := (linker.looks_prepare focal).holds prepares
  rw [seen.store] at accepted finishes sound
  exact ⟨block, now, scored, middle, blocks, links, finishes, seen.trans recached, own, own ▸ member, sound, accepted⟩

theorem Staged.enacts {block : Block} {now middle : System} {scored : Scored}
    (staged : Staged host linker focal system after outcome block now scored middle)
    (sound : system.store.tables.matched.Sound) :
    ∃ reserved snapshot, (Prepared.mk focal scored (system.store.tables.feedback.positivePairs focal)).Enacts
      system.Shown reserved snapshot system.ledger outcome after.ledger := by
  have recached := staged.recached
  have ledger : middle.ledger = system.ledger := by rw [recached]; rfl
  have shown : ∀ reading, system.Shown (middle.clock reading) := by
    rw [recached]
    exact fun reading => ⟨reading, rfl⟩
  have tables : middle.ledger.tables.matched.Sound := ledger ▸ sound
  obtain ⟨enacts, _⟩ := staged.finishes.ensured (ensures_ledger (fun _ _ _ _ => And.left)
    (fun reading _ => shown reading) (Action.does_finish staged.sound.focal tables))
  rwa [ledger] at enacts

/-- The whole effect of a pass that ends without an error and links, over rows that have each entity in one cluster
at most. -/
theorem affects_of_pass (sound : system.store.tables.matched.Sound)
    (single : ∀ entity cluster other, system.Houses cluster entity → system.Houses other entity → cluster = other)
    (valid : linker.config.minMatchScore.inUnit)
    (pass : Program.Runs (AnswersBy host True) (linker.link focal).run system (.ok outcome) after)
    (linked : outcome.isSkipped = false) :
    ∃ cluster block now, outcome.cluster = some cluster ∧
      Program.Runs (AnswersBy host True) (linker.block focal).run system (.ok block) now ∧
      Program.Runs (AnswersBy host True) (linker.linkBlock focal block).run now (.ok outcome) after ∧
      (∀ entity score, outcome.matched[entity]? = some score → block.Accepts host
        (system.store.tables.feedback.positivePairs focal) linker.config.minMatchScore entity score) ∧
      system.Affects after focal (system.store.tables.feedback.positivePairs focal)
        (block.Takes host (system.store.tables.feedback.positivePairs focal) linker.config.minMatchScore)
        outcome cluster := by
  obtain ⟨block, now, scored, middle, staged⟩ := staged_of_pass pass linked
  obtain ⟨reserved, snapshot, enacts⟩ := staged.enacts sound
  have least : linker.config.minMatchScore.le .one := by grind [Double.inUnit]
  refine ⟨_, block, now, enacts.reports.cluster, staged.blocks, staged.links, fun entity score listed => ?_, ?_⟩
  · rw [enacts.reports.matched] at listed
    exact (staged.accepted entity score).mp (Prepared.getElem?_matched listed)
  · refine affects_of_enacts sound enacts staged.sound single fun entity => ?_
    rw [Block.takes_iff least (staged.own ▸ staged.member), Std.ExtTreeMap.mem_iff_isSome_getElem?,
      Option.isSome_iff_exists]
    exact exists_congr fun score => (staged.accepted entity score).symm

end Staged

end System

namespace Sample

theorem torn_sound : torn.store.tables.matched.Sound ∧ torn.Consistent := by
  obtain ⟨_, _, depicted, consistent⟩ := System.ready_of_advances rfl rfl advances_torn
  exact ⟨depicted.sound, depicted.consistent consistent⟩

/-- The pass of the left entity, which leaves the right one in the cluster of the fourth. -/
theorem affects_of_left_torn : ∃ (outcome : LinkOutcome) (cluster : Id) (block : Block),
    torn.store.tables.matched.Sound ∧
    (∀ entity cluster other, torn.Houses cluster entity → torn.Houses other entity → cluster = other) ∧
    linker.config.minMatchScore.inUnit ∧
    Program.Runs (System.AnswersBy quartet True) (linker.link left).run torn (.ok outcome) (passed torn left) ∧
    outcome.isSkipped = false ∧ outcome.cluster = some cluster ∧
    torn.Affects (passed torn left) left (torn.store.tables.feedback.positivePairs left)
      (block.Takes quartet (torn.store.tables.feedback.positivePairs left) linker.config.minMatchScore)
      outcome cluster := by
  obtain ⟨sound, consistent⟩ := torn_sound
  have single : ∀ entity cluster other, torn.Houses cluster entity → torn.Houses other entity → cluster = other :=
    consistent.single
  have valid : linker.config.minMatchScore.inUnit := by decide +kernel
  have own : torn.host = quartet := by simp [torn, known]
  obtain ⟨outcome, linked, pass⟩ :=
    @System.served_of_linked quartet torn linker left (fun outcome => outcome.isSkipped = false) own (by decide +kernel)
  replace linked : outcome.isSkipped = false := by simpa using linked
  obtain ⟨cluster, block, _, chosen, _, _, _, affects⟩ :=
    System.affects_of_pass sound single valid pass linked
  exact ⟨outcome, cluster, block, sound, single, valid, pass, linked, chosen, affects⟩

end Sample

end RecordLinkage
