import Mathlib.Logic.Function.Basic
import RecordLinkage.Proofs.Linking.Locking

/-! Locks that are shared out. A table holds what its owners have and no lock has two owners. It stays so
when an owner takes a lock that is free and when one gives back all that it has. -/

namespace RecordLinkage

namespace LockTable

structure Shared (table : LockTable) (held : Nat → LockTable) : Prop where
  all : ∀ lock, table.holds lock ↔ ∃ owner, (held owner).holds lock
  apart : ∀ first second lock, (held first).holds lock → (held second).holds lock → first = second

theorem shared_empty : Shared .empty fun _ => .empty where
  all := by simp
  apart := by simp

variable {table after later : LockTable} {held : Nat → LockTable} {owner : Nat}

/-- One owner has given back what it no longer has, and what it has more was free. -/
theorem Shared.update (shared : table.Shared held)
    (holds : ∀ lock, after.holds lock ↔
      later.holds lock ∨ table.holds lock ∧ ¬(held owner).holds lock)
    (free : ∀ lock, later.holds lock → (held owner).holds lock ∨ ¬table.holds lock) :
    after.Shared (Function.update held owner later) := by
  -- What another owner has is in the table, so it is not what this one has now.
  have exclusive : ∀ other lock, other ≠ owner → (held other).holds lock → ¬later.holds lock := by
    intro other lock apart has taken
    rcases free lock taken with old | fresh
    · exact apart (shared.apart other owner lock has old)
    · exact fresh ((shared.all lock).mpr ⟨other, has⟩)
  constructor
  · intro lock
    rw [holds, shared.all]
    constructor
    · rintro (has | ⟨⟨other, has⟩, gone⟩)
      · exact ⟨owner, by rwa [Function.update_self]⟩
      · have apart : other ≠ owner := by
          rintro rfl
          exact gone has
        exact ⟨other, by rwa [Function.update_of_ne apart]⟩
    · rintro ⟨other, has⟩
      by_cases same : other = owner
      · subst same
        rw [Function.update_self] at has
        exact .inl has
      · rw [Function.update_of_ne same] at has
        exact .inr ⟨⟨other, has⟩, fun mine => same (shared.apart other owner lock has mine)⟩
  · intro first second lock one two
    by_cases same : first = owner <;> by_cases same' : second = owner
    · exact same.trans same'.symm
    · rw [same, Function.update_self] at one
      rw [Function.update_of_ne same'] at two
      exact (exclusive second lock same' two one).elim
    · rw [Function.update_of_ne same] at one
      rw [same', Function.update_self] at two
      exact (exclusive first lock same one two).elim
    · rw [Function.update_of_ne same] at one
      rw [Function.update_of_ne same'] at two
      exact shared.apart first second lock one two

theorem Shared.take {lock : Lock} (shared : table.Shared held) (free : table.holds lock = false) :
    (table.add lock).Shared (Function.update held owner ((held owner).add lock)) := by
  refine shared.update ?_ ?_
  · intro other
    simp only [holds_add]
    have kept : (held owner).holds other → table.holds other := fun has =>
      (shared.all other).mpr ⟨owner, has⟩
    by_cases has : (held owner).holds other <;> simp [has, kept]
  · intro other has
    rcases holds_add.mp has with rfl | old
    · exact .inr (by simp [free])
    · exact .inl old

theorem Shared.release {members : EntitySet} {clusters : IdSet} (shared : table.Shared held)
    (own : held owner = ⟨members, clusters⟩) :
    (table.release members clusters).Shared (Function.update held owner .empty) := by
  refine shared.update ?_ ?_
  · simp [holds_release, own]
  · simp

section Listed

variable {α : Type} {holds : α → LockTable} {owners : List α}

def listed (holds : α → LockTable) (owners : List α) (owner : Nat) : LockTable :=
  (owners[owner]?.map holds).getD .empty

theorem listed_eq (holds : α → LockTable) {one : α} (found : owners[owner]? = some one) :
    listed holds owners owner = holds one := by
  simp [listed, found]

theorem holds_listed {lock : Lock} : (listed holds owners owner).holds lock ↔
    ∃ one, owners[owner]? = some one ∧ (holds one).holds lock := by
  cases found : owners[owner]? <;> simp [listed, found]

theorem listed_set (inside : owner < owners.length) (next : α) :
    listed holds (owners.set owner next) = Function.update (listed holds owners) owner (holds next) := by
  funext other
  by_cases same : other = owner
  · subst same
    simp [listed, inside]
  · simp [listed, List.getElem?_set_ne (Ne.symm same), same]

theorem listed_append {next : α} (none : holds next = .empty) :
    listed holds (owners ++ [next]) = listed holds owners := by
  funext other
  rcases Nat.lt_trichotomy other owners.length with inside | rfl | outside
  · simp [listed, List.getElem?_append_left inside]
  · simp [listed, none]
  · have before : owners[other]? = Option.none := List.getElem?_eq_none (Nat.le_of_lt outside)
    have after : (owners ++ [next])[other]? = Option.none := by
      rw [List.getElem?_append_right (Nat.le_of_lt outside)]
      exact List.getElem?_eq_none (Nat.sub_pos_of_lt outside)
    simp only [listed, before, after]

end Listed

end LockTable

end RecordLinkage
