import RecordLinkage.Proofs.Ascending
import RecordLinkage.Proofs.Match.Balance

/-! The edges between one entity and its matches, which a pass writes in both directions: which they are, how many,
and what a table is once they are written. -/

namespace RecordLinkage

namespace ScoreMap

variable {focal entity : EntityKey} {matched : Std.ExtTreeMap EntityKey Double} {link : Link}

def star (focal : EntityKey) (matched : Std.ExtTreeMap EntityKey Double) (link : Link) : Option Double :=
  if link.src = focal then matched[link.dst]? else if link.dst = focal then matched[link.src]? else none

theorem star_eq_some {score : Double} : star focal matched link = some score ↔
    ∃ entity, matched[entity]? = some score ∧ (link = ⟨focal, entity⟩ ∨ link = ⟨entity, focal⟩) := by
  obtain ⟨src, dst⟩ := link
  simp only [star, Link.mk.injEq]
  grind

/-- The score that is written for a link is that of the match at its other end. -/
theorem score?_symmetric_eq (focal : EntityKey) (matched : Std.ExtTreeMap EntityKey Double) (link : Link) :
    (symmetric focal matched).score? link = star focal matched link := by
  refine Option.ext fun score => ⟨fun found => star_eq_some.mpr (score?_symmetric found), fun known => ?_⟩
  obtain ⟨entity, known, ends⟩ := star_eq_some.mp known
  have member : entity ∈ matched := Std.ExtTreeMap.mem_iff_isSome_getElem?.mpr (by simp [known])
  have forth : (symmetric focal matched).score? ⟨focal, entity⟩ = some score := by
    obtain ⟨other, found⟩ := Option.isSome_iff_exists.mp (isSome_score?_symmetric member)
    obtain ⟨partner, known', same⟩ := score?_symmetric found
    have own : partner = entity := by
      simp only [Link.mk.injEq] at same
      grind
    rw [found, ← known', own, known]
  rcases ends with rfl | rfl
  · exact forth
  · exact (mirrored_symmetric focal matched ⟨focal, entity⟩).trans forth

theorem ascending_links (scores : ScoreMap) : Ascending Prod.fst scores.links := by
  refine List.pairwise_flatMap.mpr ⟨fun entry _ => ?_, ?_⟩
  · refine List.Pairwise.map _ ?_ Std.ExtTreeMap.ordered_keys_toList
    intro a b less
    change (compare entry.1 entry.1).then (compare a.1 b.1) = .lt
    rw [Std.ReflOrd.compare_self, less]
    rfl
  · refine Std.ExtTreeMap.ordered_keys_toList.imp ?_
    intro a b less row first other second
    obtain ⟨_, _, rfl⟩ := List.mem_map.mp first
    obtain ⟨_, _, rfl⟩ := List.mem_map.mp second
    change (compare a.1 b.1).then _ = .lt
    rw [less]
    rfl

theorem nodup_links (scores : ScoreMap) : (scores.links.map Prod.fst).Nodup := by
  refine List.pairwise_map.mpr (scores.ascending_links.imp ?_)
  rintro a b less same
  rw [same, Std.ReflOrd.compare_self] at less
  cases less

/-- Two edges for each match, but one for that of the entity with itself. -/
theorem length_links_symmetric (own : focal ∈ matched) :
    (symmetric focal matched).links.length + 1 = 2 * matched.size := by
  have distinct : matched.keys.Nodup := Std.ExtTreeMap.nodup_keys
  let outgoing := matched.keys.map (Link.mk focal)
  let incoming := (matched.keys.erase focal).map (Link.mk · focal)
  have parts : (outgoing ++ incoming).Nodup := by
    refine List.nodup_append.mpr ⟨distinct.map fun a b => by simp, (distinct.erase focal).map fun a b => by simp, ?_⟩
    rintro link out _ back rfl
    obtain ⟨target, _, rfl⟩ := List.mem_map.mp out
    obtain ⟨source, listed, same⟩ := List.mem_map.mp back
    exact (distinct.mem_erase_iff.mp listed).1 (congrArg Link.src same)
  have listed : ((symmetric focal matched).links.map Prod.fst).Perm (outgoing ++ incoming) := by
    refine (List.perm_ext_iff_of_nodup (nodup_links _) parts).mpr fun link => ?_
    have written : link ∈ (symmetric focal matched).links.map Prod.fst ↔
        ∃ score, star focal matched link = some score := by
      simp only [List.mem_map, Prod.exists, mem_links, score?_symmetric_eq, exists_and_right, exists_eq_right]
    obtain ⟨src, dst⟩ := link
    simp only [written, star_eq_some, List.mem_append, List.mem_map, outgoing, incoming, distinct.mem_erase_iff,
      Std.ExtTreeMap.mem_keys, Std.ExtTreeMap.mem_iff_isSome_getElem?, Option.isSome_iff_exists, Link.mk.injEq]
    grind
  have lengths := listed.length_eq
  have others := List.length_erase_of_mem (Std.ExtTreeMap.mem_keys.mpr own)
  have some : 0 < matched.keys.length := List.length_pos_of_mem (Std.ExtTreeMap.mem_keys.mpr own)
  simp only [outgoing, incoming, List.length_map, List.length_append] at lengths
  rw [← Std.ExtTreeMap.length_keys]
  omega

end ScoreMap

namespace MatchTable

theorem find?_remove_planTouching {table : MatchTable} (sound : table.Sound) (entity : EntityKey) (kept : PairSet)
    (edge : Edge) : (table.remove (table.planTouching entity kept)).2.find? edge =
      if edge.link.touches entity ∧ edge.link.pair ∉ kept then none else table.find? edge := by
  refine (getElem?_rowsOf_remove table _ edge.cluster edge.link).trans ?_
  simp only [mem_planTouching sound]
  by_cases old : edge.link ∈ table.rowsOf edge.cluster
  · simp [old, find?]
  · simp [old, find?]

end MatchTable

end RecordLinkage
