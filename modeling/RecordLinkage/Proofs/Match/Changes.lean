import RecordLinkage.Proofs.Linking.Verdicts
import RecordLinkage.Proofs.Match.Rows

/-! What a call does to the rows. Rows come only with a write of their edges, and they go only with a
deletion of their link, of one of its ends or of a set with one of its ends. -/

namespace RecordLinkage

namespace Link

def TouchesSet (link : Link) (set : Id) : Prop := link.src.set = set ∨ link.dst.set = set

theorem touchesSet_iff {link : Link} {set : Id} :
    link.TouchesSet set ↔ ∃ entity : EntityKey, entity.set = set ∧ link.touches entity := by
  simp only [TouchesSet, touches, Bool.or_eq_true, decide_eq_true_eq]
  constructor
  · rintro (source | target)
    · exact ⟨link.src, source, .inl rfl⟩
    · exact ⟨link.dst, target, .inr rfl⟩
  · rintro ⟨entity, own, rfl | rfl⟩
    · exact .inl own
    · exact .inr own

end Link

namespace Write

def Wipes (link : Link) : Write → Prop
  | .deleteEdge ends => link = ends
  | .deleteTouching entity _ => link.touches entity
  | .deleteTouchingKeys set keys => ∃ key ∈ keys, link.touches ⟨set, key⟩
  | .deleteTouchingSet set => link.TouchesSet set
  | _ => False

end Write

namespace MatchTable

theorem mem_rowsOf_upsert {table : MatchTable} {edges : List ScoredEdge} {writtenAt : Instant} {cluster : Id}
    {link : Link} : link ∈ (table.upsert edges writtenAt).rowsOf cluster ↔
      link ∈ table.rowsOf cluster ∨ ∃ scored ∈ edges, scored.edge = ⟨cluster, link⟩ := by
  induction edges generalizing table with
  | nil => simp [upsert]
  | cons scored edges ih =>
      refine ih.trans ?_
      obtain ⟨⟨own, ends⟩, score⟩ := scored
      rw [rowsOf_put]
      simp only [List.mem_cons, exists_eq_or_imp, Edge.mk.injEq]
      by_cases same : own = cluster
      · simp only [same, if_true, Std.ExtTreeMap.mem_insert, Std.LawfulEqOrd.compare_eq_iff_eq, true_and]
        tauto
      · simp [same]

theorem mem_rowsOf_remove {table : MatchTable} {edges : List Edge} {cluster : Id} {link : Link} :
    link ∈ (table.remove edges).2.rowsOf cluster ↔ link ∈ table.rowsOf cluster ∧ ⟨cluster, link⟩ ∉ edges := by
  simp only [Std.ExtTreeMap.mem_iff_isSome_getElem?, getElem?_rowsOf_remove]
  split <;> simp [*]

end MatchTable

namespace Tables

variable {tables : Tables} {request : Write} {cluster : Id} {link : Link}

theorem added_of_write (new : link ∈ (tables.write request).2.matched.rowsOf cluster)
    (fresh : link ∉ tables.matched.rowsOf cluster) :
    ∃ edges writtenAt, request = .upsertEdges edges writtenAt ∧ ∃ scored ∈ edges, scored.edge = ⟨cluster, link⟩ := by
  cases request with
  | upsertEdges edges writtenAt =>
      exact ⟨edges, writtenAt, rfl, (MatchTable.mem_rowsOf_upsert.mp new).resolve_left fresh⟩
  | deleteEdge | deleteTouching | deleteTouchingKeys | deleteTouchingSet =>
      exact absurd (MatchTable.mem_rowsOf_remove.mp new).1 fresh
  | _ => exact absurd new fresh

theorem wipes_of_write (sound : tables.matched.Sound) (old : link ∈ tables.matched.rowsOf cluster)
    (gone : link ∉ (tables.write request).2.matched.rowsOf cluster) : request.Wipes link := by
  have planned : ∀ {edges : List Edge}, link ∉ (tables.matched.remove edges).2.rowsOf cluster →
      ⟨cluster, link⟩ ∈ edges := by
    intro edges gone
    rw [MatchTable.mem_rowsOf_remove, not_and, not_not] at gone
    exact gone old
  cases request with
  | upsertEdges edges writtenAt => exact absurd (MatchTable.mem_rowsOf_upsert.mpr (.inl old)) gone
  | deleteEdge ends => exact ((MatchTable.mem_planEdge sound).mp (planned gone)).2
  | deleteTouching entity kept => exact ((MatchTable.mem_planTouching sound).mp (planned gone)).1
  | deleteTouchingKeys set keys =>
      obtain ⟨_, entity, chosen, touches⟩ := (MatchTable.mem_planTouchingWhere sound).mp (planned gone)
      simp only [Bool.and_eq_true, decide_eq_true_eq, Std.ExtTreeSet.contains_iff_mem] at chosen
      obtain ⟨rfl, listed⟩ := chosen
      exact ⟨entity.key, listed, touches⟩
  | deleteTouchingSet set =>
      obtain ⟨_, entity, chosen, touches⟩ := (MatchTable.mem_planTouchingWhere sound).mp (planned gone)
      exact Link.touchesSet_iff.mpr ⟨entity, of_decide_eq_true chosen, touches⟩
  | _ => exact absurd old gone

end Tables

namespace System

variable {system after : System} {call : Call} {answer : call.Answer} {cluster : Id} {link : Link}

theorem MayAnswer.added (possible : system.MayAnswer call answer after) (new : after.HasRow cluster link)
    (fresh : ¬system.HasRow cluster link) : ∃ edges writtenAt, call = .write (.upsertEdges edges writtenAt) ∧
      ∃ scored ∈ edges, scored.edge = ⟨cluster, link⟩ := by
  rcases possible.tables with same | ⟨request, rfl, same⟩
  · exact absurd (by rwa [HasRow, same] at new) fresh
  · rw [HasRow, same] at new
    obtain ⟨edges, writtenAt, rfl, listed⟩ := Tables.added_of_write new fresh
    exact ⟨edges, writtenAt, rfl, listed⟩

theorem MayAnswer.wipes (possible : system.MayAnswer call answer after)
    (sound : system.store.tables.matched.Sound) (old : system.HasRow cluster link)
    (gone : ¬after.HasRow cluster link) : ∃ request, call = .write request ∧ request.Wipes link := by
  rcases possible.tables with same | ⟨request, rfl, same⟩
  · exact absurd (by rwa [HasRow, same]) gone
  · rw [HasRow, same] at gone
    exact ⟨request, rfl, Tables.wipes_of_write sound old gone⟩

end System

end RecordLinkage
