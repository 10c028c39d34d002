import Mathlib.Data.List.Nodup
import Std.Data.ExtTreeMap
import Std.Data.ExtTreeSet

/-! Lists in the strict order of a key of their elements. They have no element twice, and two of them with
the same elements are the same. -/

namespace RecordLinkage

variable {α κ : Type} [Ord κ] {key : α → κ} {list other : List α}

def Ascending (key : α → κ) (list : List α) : Prop :=
  list.Pairwise fun a b => compare (key a) (key b) = .lt

theorem Ascending.nodup [Std.ReflOrd κ] (ascending : Ascending key list) : list.Nodup := by
  refine ascending.imp ?_
  rintro a _ less rfl
  rw [Std.ReflOrd.compare_self] at less
  cases less

theorem Ascending.eq_of_mem_iff [Std.TransOrd κ] (ascending : Ascending key list)
    (ascending' : Ascending key other) (same : ∀ element, element ∈ list ↔ element ∈ other) : list = other := by
  refine List.Perm.eq_of_pairwise ?_ ascending ascending' ?_
  · intro a b _ _ less more
    rw [Std.OrientedOrd.eq_swap, less] at more
    cases more
  · exact (List.perm_ext_iff_of_nodup ascending.nodup ascending'.nodup).mpr same

/-- One list with fewer elements than another is what is left when the others are taken out. -/
theorem Ascending.sublist [Std.TransOrd κ] (ascending : Ascending key list) (ascending' : Ascending key other)
    (fewer : list ⊆ other) : list.Sublist other := by
  classical
  have left : list = other.filter (· ∈ list) :=
    ascending.eq_of_mem_iff (ascending'.filter _) fun element => by simpa using fun listed => fewer listed
  rw [left]
  exact List.filter_sublist

/-- The entries of a map, in the order of their keys. -/
theorem ascending_entries {ν : Type} [Std.TransOrd κ] (map : Std.ExtTreeMap κ ν) (form : κ × ν → α)
    (keyed : ∀ entry, key (form entry) = entry.1) : Ascending key (map.toList.map form) :=
  List.Pairwise.map _ (fun _ _ less => by rwa [keyed, keyed]) Std.ExtTreeMap.ordered_keys_toList

theorem ascending_elements [Std.TransOrd κ] (set : Std.ExtTreeSet κ) : Ascending id set.toList := by
  change set.toList.Pairwise fun a b => compare a b = .lt
  exact set.ordered_toList

end RecordLinkage
