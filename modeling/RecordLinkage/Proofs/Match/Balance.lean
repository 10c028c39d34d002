import RecordLinkage.Proofs.Match.Changes

/-! Balanced scores: every link has the score of its reverse, every score lies between zero and one, and an
entity has the best score with itself. Balanced edges keep a table so, and so does each deletion that
goes by the ends of a link without their order. -/

namespace RecordLinkage

namespace Link

def reverse (link : Link) : Link := ⟨link.dst, link.src⟩

@[simp]
theorem reverse_reverse (link : Link) : link.reverse.reverse = link := rfl

@[simp]
theorem touches_reverse (link : Link) (entity : EntityKey) :
    link.reverse.touches entity = link.touches entity := Bool.or_comm _ _

@[simp]
theorem pair_reverse (link : Link) : link.reverse.pair = link.pair := EntityPair.of_comm _ _

theorem reverse_eq_iff {link : Link} {src dst : EntityKey} : link.reverse = ⟨src, dst⟩ ↔ link = ⟨dst, src⟩ := by
  obtain ⟨_, _⟩ := link
  simp [reverse, and_comm]

end Link

namespace Double

theorem not_isNaN_of_inUnit {score : Double} (inUnit : score.inUnit) : score.isNaN = false := by
  simp only [Double.inUnit, le, Bool.and_eq_true, Bool.not_eq_true'] at inUnit
  exact inUnit.1.1.2

end Double

structure Balanced (score? : Link → Option Double) : Prop where
  mirrored : ∀ link, score? link.reverse = score? link
  inUnit : ∀ link score, score? link = some score → score.inUnit
  loops : ∀ entity score, score? ⟨entity, entity⟩ = some score → score = .one

namespace Balanced

variable {score? other? : Link → Option Double}

/-- Scores that take the place of others. -/
theorem overlaid (balanced : Balanced score?) (others : Balanced other?) :
    Balanced fun link => (other? link).or (score? link) where
  mirrored link := by simp only [balanced.mirrored, others.mirrored]
  inUnit link score found := by
    rcases Option.or_eq_some_iff.mp found with new | ⟨_, old⟩
    · exact others.inUnit link score new
    · exact balanced.inUnit link score old
  loops entity score found := by
    rcases Option.or_eq_some_iff.mp found with new | ⟨_, old⟩
    · exact others.loops entity score new
    · exact balanced.loops entity score old

/-- Scores without those of some links and their reverses. -/
theorem without (balanced : Balanced score?) {gone : Link → Prop} [DecidablePred gone]
    (both : ∀ link, gone link.reverse ↔ gone link) :
    Balanced fun link => if gone link then none else score? link where
  mirrored link := by simp only [both, balanced.mirrored]
  inUnit link score found := by
    split at found
    · cases found
    · exact balanced.inUnit link score found
  loops entity score found := by
    split at found
    · cases found
    · exact balanced.loops entity score found

end Balanced

namespace ScoreMap

variable {focal : EntityKey} {matched : Std.ExtTreeMap EntityKey Double}

theorem mirrored_symmetric (focal : EntityKey) (matched : Std.ExtTreeMap EntityKey Double) (link : Link) :
    (symmetric focal matched).score? link.reverse = (symmetric focal matched).score? link := by
  have folded : ∀ (list : List (EntityKey × Double)) (map : ScoreMap),
      map.score? link.reverse = map.score? link →
      (list.foldl
        (fun scores entry => (scores.add focal entry.1 entry.2).add entry.1 focal entry.2)
        map).score? link.reverse = (list.foldl
        (fun scores entry => (scores.add focal entry.1 entry.2).add entry.1 focal entry.2)
        map).score? link := by
    intro list
    induction list with
    | nil => exact fun map same => same
    | cons entry list ih =>
        intro map same
        refine ih _ ?_
        simp only [score?_add, same, Link.reverse_eq_iff]
        by_cases forth : link = ⟨focal, entry.1⟩ <;> by_cases back : link = ⟨entry.1, focal⟩ <;>
          simp [forth, back]
  exact folded matched.toList ∅ (by simp [score?])

theorem balanced_symmetric (best : ∀ score, matched[focal]? = some score → score = .one)
    (inUnit : ∀ (entity : EntityKey) score, matched[entity]? = some score → score.inUnit) :
    Balanced (symmetric focal matched).score? where
  mirrored := mirrored_symmetric focal matched
  inUnit link score found := by
    obtain ⟨entity, known, _⟩ := score?_symmetric found
    exact inUnit entity score known
  loops entity score found := by
    obtain ⟨other, known, ends⟩ := score?_symmetric found
    simp only [Link.mk.injEq] at ends
    obtain rfl : other = focal := by
      rcases ends with ⟨own, same⟩ | ⟨same, own⟩
      · exact same.symm.trans own
      · exact same.symm.trans own
    exact best score known

theorem mem_edges {scores : ScoreMap} {cluster : Id} {scored : ScoredEdge} : scored ∈ scores.edges cluster ↔
    scored.edge.cluster = cluster ∧ scores.score? scored.edge.link = some scored.score := by
  obtain ⟨⟨own, ends⟩, score⟩ := scored
  simp only [edges, List.mem_map, Prod.exists, mem_links, ScoredEdge.mk.injEq, Edge.mk.injEq]
  constructor
  · rintro ⟨_, _, found, ⟨rfl, rfl⟩, rfl⟩
    exact ⟨rfl, found⟩
  · rintro ⟨rfl, found⟩
    exact ⟨ends, score, found, ⟨rfl, rfl⟩, rfl⟩

end ScoreMap

namespace MatchTable

variable {table : MatchTable}

def score? (table : MatchTable) (cluster : Id) (link : Link) : Option Double :=
  (table.rowsOf cluster)[link]?.map MatchRow.score

def Balanced (table : MatchTable) : Prop := ∀ cluster, RecordLinkage.Balanced (table.score? cluster)

/-- A written edge has a row with a score that was written for it, and every other one keeps its row. -/
theorem find?_upsert (table : MatchTable) (edges : List ScoredEdge) (writtenAt : Instant) (edge : Edge) :
    (∃ scored ∈ edges, scored.edge = edge ∧
      (table.upsert edges writtenAt).find? edge = some ⟨scored.score, writtenAt⟩) ∨
    (∀ scored ∈ edges, scored.edge ≠ edge) ∧ (table.upsert edges writtenAt).find? edge = table.find? edge := by
  induction edges generalizing table with
  | nil => exact .inr ⟨by simp, rfl⟩
  | cons scored edges ih =>
      have later : table.upsert (scored :: edges) writtenAt =
          (table.put scored.edge ⟨scored.score, writtenAt⟩).upsert edges writtenAt := rfl
      rw [later]
      rcases ih (table.put scored.edge ⟨scored.score, writtenAt⟩) with
        ⟨other, listed, own, found⟩ | ⟨apart, same⟩
      · exact .inl ⟨other, .tail _ listed, own, found⟩
      · rw [same, find?, rowsOf_put]
        by_cases own : scored.edge = edge
        · exact .inl ⟨scored, .head _, own, by simp [own]⟩
        · refine .inr ⟨List.forall_mem_cons.mpr ⟨own, apart⟩, ?_⟩
          split
          · rename_i here
            have other : scored.edge.link ≠ edge.link :=
              fun there => own (congr (congrArg Edge.mk here) there)
            rw [Std.ExtTreeMap.getElem?_insert, if_neg (by simpa using other), find?]
          · rfl

/-- Scores that are written for a cluster replace the rows of their links there. -/
theorem find?_upsert_edges (table : MatchTable) (scores : ScoreMap) (writtenAt : Instant) (cluster : Id)
    (edge : Edge) : (table.upsert (scores.edges cluster) writtenAt).find? edge =
      ((if edge.cluster = cluster then scores.score? edge.link else none).map (⟨·, writtenAt⟩)).or
        (table.find? edge) := by
  rcases find?_upsert table (scores.edges cluster) writtenAt edge with
    ⟨scored, member, own, found⟩ | ⟨apart, same⟩
  · obtain ⟨here, known⟩ := ScoreMap.mem_edges.mp member
    rw [own] at here known
    rw [if_pos here, found, known, Option.map_some, Option.some_or]
  · rw [same]
    split
    · rename_i here
      cases known : scores.score? edge.link with
      | none => rfl
      | some score => exact absurd rfl (apart ⟨edge, score⟩ (ScoreMap.mem_edges.mpr ⟨here, known⟩))
    · rfl

theorem score?_upsert_edges (table : MatchTable) (scores : ScoreMap) (writtenAt : Instant)
    (cluster other : Id) (link : Link) :
    (table.upsert (scores.edges cluster) writtenAt).score? other link =
      ((if other = cluster then scores.score? link else none).or (table.score? other link)) := by
  have written := table.find?_upsert_edges scores writtenAt cluster ⟨other, link⟩
  refine (congrArg (Option.map MatchRow.score) written).trans ?_
  rw [Option.map_or, Option.map_map]
  exact congrArg (Option.or · _) Option.map_id'

theorem Balanced.upsert (balanced : table.Balanced) {scores : ScoreMap}
    (new : RecordLinkage.Balanced scores.score?) (cluster : Id) (writtenAt : Instant) :
    (table.upsert (scores.edges cluster) writtenAt).Balanced := by
  intro other
  simp only [funext fun link => score?_upsert_edges table scores writtenAt cluster other link]
  refine (balanced other).overlaid ?_
  split
  · exact new
  · exact ⟨fun _ => rfl, nofun, nofun⟩

theorem Balanced.remove (balanced : table.Balanced) {edges : List Edge}
    (both : ∀ cluster link, ⟨cluster, link.reverse⟩ ∈ edges ↔ ⟨cluster, link⟩ ∈ edges) :
    (table.remove edges).2.Balanced := by
  intro cluster
  have removed : (table.remove edges).2.score? cluster = fun link =>
      if ⟨cluster, link⟩ ∈ edges then none else table.score? cluster link := by
    funext link
    rw [score?, getElem?_rowsOf_remove]
    split <;> rfl
  rw [removed]
  exact (balanced cluster).without (both cluster)

theorem Balanced.mem_reverse (balanced : table.Balanced) {cluster : Id} {link : Link} :
    link.reverse ∈ table.rowsOf cluster ↔ link ∈ table.rowsOf cluster := by
  have same := congrArg Option.isSome ((balanced cluster).mirrored link)
  simp only [score?, Option.isSome_map] at same
  simp only [Std.ExtTreeMap.mem_iff_isSome_getElem?, same]

theorem balanced_empty : MatchTable.empty.Balanced := by
  intro cluster
  have none : MatchTable.empty.score? cluster = fun _ => none := by
    funext link
    simp [score?, rowsOf, empty]
  rw [none]
  exact ⟨fun _ => rfl, by simp, by simp⟩

end MatchTable

namespace Write

def Balances (named : EntityKey → Prop) : Write → Prop
  | .upsertEdges edges _ => ∃ (cluster : Id) (scores : ScoreMap),
      edges = scores.edges cluster ∧ RecordLinkage.Balanced scores.score?
  | .deleteEdge _ => False
  | .deleteTouching entity _ => named entity
  | .deleteTouchingKeys set keys => ∀ key ∈ keys, named ⟨set, key⟩
  | .deleteTouchingSet set => ∀ entity : EntityKey, entity.set = set → named entity
  | _ => True

variable {named : EntityKey → Prop} {request : Write}

theorem Balances.touches (balances : request.Balances named) {link : Link} (wipes : request.Wipes link) :
    ∃ entity, named entity ∧ link.touches entity := by
  cases request with
  | deleteEdge => exact balances.elim
  | deleteTouching entity kept => exact ⟨entity, balances, wipes⟩
  | deleteTouchingKeys set keys =>
      obtain ⟨key, listed, touches⟩ := wipes
      exact ⟨_, balances key listed, touches⟩
  | deleteTouchingSet set =>
      obtain ⟨entity, own, touches⟩ := Link.touchesSet_iff.mp wipes
      exact ⟨entity, balances entity own, touches⟩
  | _ => exact wipes.elim

theorem Balances.written (balances : request.Balances named) {tables : Tables}
    (sound : tables.matched.Sound) (balanced : tables.matched.Balanced) :
    (tables.write request).2.matched.Balanced := by
  cases request with
  | upsertEdges edges writtenAt =>
      obtain ⟨cluster, scores, rfl, new⟩ := balances
      exact balanced.upsert new cluster writtenAt
  | deleteEdge => exact balances.elim
  | deleteTouching entity kept =>
      refine balanced.remove fun cluster link => ?_
      simp only [MatchTable.mem_planTouching sound, Link.touches_reverse, Link.pair_reverse,
        balanced.mem_reverse]
  | deleteTouchingKeys set keys =>
      refine balanced.remove fun cluster link => ?_
      simp only [MatchTable.mem_planTouchingWhere sound, Link.touches_reverse, balanced.mem_reverse]
  | deleteTouchingSet set =>
      refine balanced.remove fun cluster link => ?_
      simp only [MatchTable.mem_planTouchingWhere sound, Link.touches_reverse, balanced.mem_reverse]
  | _ => exact balanced

end Write

end RecordLinkage
