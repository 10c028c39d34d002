import RecordLinkage.Proofs.Match.Table

/-! What a snapshot of a cluster tells: its scores by source and target, and the entities at the ends of
its rows. Two clusters with the same scores give the same snapshot. -/

namespace RecordLinkage

abbrev LinkScores := Std.ExtTreeMap Link Double

namespace ClusterRows

def scores (rows : ClusterRows) : LinkScores := rows.map fun _ row => row.score

theorem getElem?_scores (rows : ClusterRows) (link : Link) :
    rows.scores[link]? = rows[link]?.map MatchRow.score :=
  Std.ExtTreeMap.getElem?_map

theorem mem_scores {rows : ClusterRows} {link : Link} : link ∈ rows.scores ↔ link ∈ rows :=
  Std.ExtTreeMap.mem_map

theorem touched_scores {rows : ClusterRows} {entity : EntityKey} :
    Touched rows.scores entity ↔ Touched rows entity := by
  simp only [Touched, mem_scores]

theorem scores_eq_empty {rows : ClusterRows} : rows.scores = ∅ ↔ rows = ∅ := by
  simp only [Std.ExtTreeMap.eq_empty_iff_forall_not_mem, mem_scores]

end ClusterRows

namespace ScoreMap

def ofLinks (scores : LinkScores) : ScoreMap :=
  scores.toList.foldl (fun map entry => map.add entry.1.src entry.1.dst entry.2) ∅

theorem scoresOf_eq (rows : ClusterRows) : MatchTable.scoresOf rows = ofLinks rows.scores := by
  simp only [MatchTable.scoresOf, ofLinks, ClusterRows.scores, Std.ExtTreeMap.toList_map,
    List.foldl_map]

def score? (scores : ScoreMap) (link : Link) : Option Double :=
  scores[link.src]?.bind fun targets => targets[link.dst]?

theorem score?_add (scores : ScoreMap) (src dst : EntityKey) (score : Double) (link : Link) :
    (scores.add src dst score).score? link =
      if link = ⟨src, dst⟩ then some score else scores.score? link := by
  obtain ⟨source, target⟩ := link
  simp only [score?, add, Std.ExtTreeMap.getElem?_insert, Std.LawfulEqOrd.compare_eq_iff_eq,
    Link.mk.injEq]
  by_cases first : src = source
  · subst first
    by_cases second : dst = target
    · subst second
      simp
    · simp [second, Ne.symm second, Std.ExtTreeMap.getElem?_insert,
        Std.ExtTreeMap.getD_eq_getD_getElem?]
      cases scores[src]? <;> simp
  · simp [first, Ne.symm first]

def Filled (scores : ScoreMap) : Prop :=
  ∀ (src : EntityKey) targets, scores[src]? = some targets → ∃ dst, dst ∈ targets

theorem filled_add {scores : ScoreMap} (filled : scores.Filled) (src dst : EntityKey)
    (score : Double) : (scores.add src dst score).Filled := by
  intro source targets found
  simp only [add, Std.ExtTreeMap.getElem?_insert, Std.LawfulEqOrd.compare_eq_iff_eq] at found
  split at found
  · simp only [Option.some.injEq] at found
    exact ⟨dst, by simp [← found]⟩
  · exact filled source targets found

theorem filled_foldl_add {α : Type} (ends : α → Link × Double) (list : List α) :
    ∀ {scores : ScoreMap}, scores.Filled →
      (list.foldl (fun map entry =>
        map.add (ends entry).1.src (ends entry).1.dst (ends entry).2) scores).Filled := by
  induction list with
  | nil => exact id
  | cons entry list ih => exact fun filled => ih (filled_add filled _ _ _)

theorem mem_members {scores : ScoreMap} {entity : EntityKey} (filled : scores.Filled) :
    entity ∈ scores.members ↔
      ∃ link, link.touches entity ∧ (scores.score? link).isSome := by
  have folded : ∀ (list : List (EntityKey × Std.ExtTreeMap EntityKey Double)) (members : EntitySet),
      entity ∈ list.foldl
          (fun members entry => (members.insert entry.1).insertMany entry.2.keys) members ↔
        entity ∈ members ∨ ∃ entry ∈ list, entry.1 = entity ∨ entity ∈ entry.2 := by
    intro list
    induction list with
    | nil => simp
    | cons entry list ih =>
        intro members
        simp [ih, or_assoc, or_left_comm]
  refine (folded scores.toList ∅).trans ?_
  simp only [Std.ExtTreeSet.not_mem_empty, false_or, Prod.exists,
    Std.ExtTreeMap.mem_toList_iff_getElem?_eq_some, score?, Link.touches, Bool.or_eq_true,
    decide_eq_true_eq]
  constructor
  · rintro ⟨src, targets, found, same | target⟩
    · obtain ⟨dst, target⟩ := filled src targets found
      exact ⟨⟨src, dst⟩, .inl same, by simpa [found] using target⟩
    · exact ⟨⟨src, entity⟩, .inr rfl, by simpa [found] using target⟩
  · rintro ⟨⟨src, dst⟩, touches, some⟩
    cases found : scores[src]? with
    | none => simp [found] at some
    | some targets =>
        refine ⟨src, targets, found, ?_⟩
        rcases touches with source | target
        · exact .inl source
        · change dst = entity at target
          subst target
          exact .inr (by simpa [found] using some)

theorem mem_links {scores : ScoreMap} {link : Link} {score : Double} :
    (link, score) ∈ scores.links ↔ scores.score? link = some score := by
  obtain ⟨src, dst⟩ := link
  simp only [links, List.mem_flatMap, List.mem_map, Prod.exists, Prod.mk.injEq, Link.mk.injEq,
    Std.ExtTreeMap.mem_toList_iff_getElem?_eq_some, score?]
  constructor
  · rintro ⟨_, targets, found, _, _, target, ⟨rfl, rfl⟩, rfl⟩
    simp [found, target]
  · intro some
    cases found : scores[src]? with
    | none => simp [found] at some
    | some targets => exact ⟨src, targets, found, dst, score, by simpa [found] using some, by simp⟩

theorem filled_empty : Filled ∅ := by
  intro src targets found
  simp at found

theorem filled_ofLinks (scores : LinkScores) : (ofLinks scores).Filled :=
  filled_foldl_add id scores.toList filled_empty

theorem isSome_score?_ofLinks (scores : LinkScores) (link : Link) :
    ((ofLinks scores).score? link).isSome ↔ link ∈ scores := by
  have folded : ∀ (list : List (Link × Double)) (map : ScoreMap),
      ((list.foldl (fun map entry => map.add entry.1.src entry.1.dst entry.2) map).score?
        link).isSome ↔ (∃ score, (link, score) ∈ list) ∨ (map.score? link).isSome := by
    intro list
    induction list with
    | nil => simp
    | cons entry list ih =>
        intro map
        rw [List.foldl_cons, ih, score?_add]
        by_cases same : link = entry.1
        · subst same
          simp only [if_true, Option.isSome_some, or_true, List.mem_cons, true_iff]
          exact .inl ⟨entry.2, .inl rfl⟩
        · have other : ∀ score, (link, score) ≠ entry := fun score first => same (by rw [← first])
          simp [same, other]
  refine (folded scores.toList ∅).trans ?_
  simp only [Std.ExtTreeMap.mem_toList_iff_getElem?_eq_some, score?,
    Std.ExtTreeMap.mem_iff_isSome_getElem?, Option.isSome_iff_exists]
  simp

theorem mem_members_ofLinks {scores : LinkScores} {entity : EntityKey} :
    entity ∈ (ofLinks scores).members ↔ Touched scores entity := by
  simp only [mem_members (filled_ofLinks scores), isSome_score?_ofLinks, Touched]

section Symmetric

variable {focal : EntityKey} {matched : Std.ExtTreeMap EntityKey Double}

theorem score?_symmetric {link : Link} {score : Double}
    (found : (symmetric focal matched).score? link = some score) :
    ∃ entity, matched[entity]? = some score ∧
      (link = ⟨focal, entity⟩ ∨ link = ⟨entity, focal⟩) := by
  have folded : ∀ (list : List (EntityKey × Double)) (map : ScoreMap),
      (list.foldl
        (fun scores entry => (scores.add focal entry.1 entry.2).add entry.1 focal entry.2)
        map).score? link = some score →
      (∃ entity, (entity, score) ∈ list ∧ (link = ⟨focal, entity⟩ ∨ link = ⟨entity, focal⟩)) ∨
        map.score? link = some score := by
    intro list
    induction list with
    | nil => exact fun map found => .inr found
    | cons entry list ih =>
        intro map found
        rcases ih _ found with ⟨entity, listed, ends⟩ | first
        · exact .inl ⟨entity, .tail _ listed, ends⟩
        · simp only [score?_add] at first
          split at first
          · rename_i back
            simp only [Option.some.injEq] at first
            exact .inl ⟨entry.1, by rw [← first]; exact .head _, .inr back⟩
          · split at first
            · rename_i forth
              simp only [Option.some.injEq] at first
              exact .inl ⟨entry.1, by rw [← first]; exact .head _, .inl forth⟩
            · exact .inr first
  rcases folded matched.toList ∅ found with ⟨entity, listed, ends⟩ | none
  · exact ⟨entity, Std.ExtTreeMap.mem_toList_iff_getElem?_eq_some.mp listed, ends⟩
  · simp [score?] at none

theorem isSome_score?_symmetric {entity : EntityKey} (member : entity ∈ matched) :
    ((symmetric focal matched).score? ⟨focal, entity⟩).isSome := by
  have folded : ∀ (list : List (EntityKey × Double)) (map : ScoreMap),
      (∃ score, (entity, score) ∈ list) ∨ (map.score? ⟨focal, entity⟩).isSome →
      ((list.foldl
        (fun scores entry => (scores.add focal entry.1 entry.2).add entry.1 focal entry.2)
        map).score? ⟨focal, entity⟩).isSome := by
    intro list
    induction list with
    | nil => exact fun map known => known.resolve_left (by simp)
    | cons entry list ih =>
        intro map known
        refine ih _ ?_
        rcases known with ⟨score, listed⟩ | old
        · rcases List.mem_cons.mp listed with rfl | later
          · refine .inr ?_
            simp only [score?_add]
            split <;> simp
          · exact .inl ⟨score, later⟩
        · refine .inr ?_
          simp only [score?_add]
          split
          · rfl
          · split
            · rfl
            · exact old
  refine folded matched.toList ∅ (.inl ⟨matched[entity], ?_⟩)
  exact Std.ExtTreeMap.mem_toList_iff_getElem?_eq_some.mpr (Std.ExtTreeMap.getElem?_eq_some_getElem member)

/-- Both ends of an edge to write are accepted, and so is its score. -/
theorem mem_edges_symmetric {cluster : Id} {scored : ScoredEdge}
    (staged : scored ∈ (symmetric focal matched).edges cluster) :
    scored.edge.cluster = cluster ∧ ∃ entity, matched[entity]? = some scored.score ∧
      (scored.edge.link = ⟨focal, entity⟩ ∨ scored.edge.link = ⟨entity, focal⟩) := by
  simp only [edges, List.mem_map, Prod.exists] at staged
  obtain ⟨link, score, listed, rfl⟩ := staged
  exact ⟨rfl, score?_symmetric (mem_links.mp listed)⟩

end Symmetric

end ScoreMap

end RecordLinkage
