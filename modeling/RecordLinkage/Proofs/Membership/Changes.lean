import RecordLinkage.Proofs.Ascending
import RecordLinkage.Membership.Log
import RecordLinkage.Proofs.Membership.Fold

/-! Membership as what changes made of it. The fold over the rows of some changes, in whatever order the
rows stand, is the set of members that is left when the changes are applied in the order of their ticks. A
history of requests leaves on record what each change moved and no later deletion took away. -/

namespace RecordLinkage

structure MembershipChange where
  cluster : Id
  joins : Bool
  tick : Int
  members : List EntityKey
deriving DecidableEq

namespace MembershipChange

def rows (change : MembershipChange) : List LogEntry :=
  change.members.map (⟨change.cluster, ·, .ofInt (if change.joins then change.tick else -change.tick)⟩)

def apply (members : EntitySet) (change : MembershipChange) : EntitySet :=
  if change.joins then members.insertMany change.members
  else members.filter fun entity => !change.members.contains entity

def inOrder (changes : List MembershipChange) : List MembershipChange :=
  changes.mergeSort fun a b => a.tick ≤ b.tick

def applied (changes : List MembershipChange) : EntitySet := (inOrder changes).foldl apply ∅

structure Timed (changes : List MembershipChange) : Prop where
  distinct : (changes.map tick).Nodup
  fits : ∀ change ∈ changes, 1 ≤ change.tick ∧ change.tick ≤ Membership.latest

variable {changes : List MembershipChange} {change : MembershipChange} {entity : EntityKey}

theorem rows_in (change : MembershipChange) (cluster : Id) :
    change.rows.filter (fun row => row.cluster = cluster) =
      if change.cluster = cluster then change.rows else [] := by
  have own : ∀ row ∈ change.rows, row.cluster = change.cluster := by
    intro row listed
    obtain ⟨_, _, rfl⟩ := List.mem_map.mp listed
    rfl
  split
  · rename_i same
    exact List.filter_eq_self.mpr fun row listed => decide_eq_true ((own row listed).trans same)
  · rename_i apart
    exact List.filter_eq_nil_iff.mpr fun row listed => by simpa [own row listed] using apart

theorem mem_apply {members : EntitySet} :
    entity ∈ apply members change ↔ if entity ∈ change.members then change.joins else entity ∈ members := by
  unfold apply
  split
  · rename_i joins
    by_cases listed : entity ∈ change.members <;> simp [listed, joins]
  · rename_i leaves
    by_cases listed : entity ∈ change.members <;> simp [listed, leaves, Std.ExtTreeSet.mem_filter]

/-- The last change of an entity decides. -/
theorem mem_applied : entity ∈ applied changes ↔
    ∃ change, ((inOrder changes).filter fun change => entity ∈ change.members).getLast? = some change ∧
      change.joins := by
  have folded : ∀ (list : List MembershipChange) (members : EntitySet), entity ∈ list.foldl apply members ↔
      match (list.filter fun change => entity ∈ change.members).getLast? with
      | some change => change.joins
      | none => entity ∈ members := by
    intro list
    induction list with
    | nil => simp
    | cons change list ih =>
        intro members
        rw [List.foldl_cons, ih]
        by_cases listed : entity ∈ change.members
        · simp only [listed, List.filter_cons, decide_true, if_true, List.getLast?_cons]
          cases (list.filter fun change => entity ∈ change.members).getLast? <;> simp [mem_apply, listed]
        · simp only [listed, List.filter_cons, decide_false, Bool.false_eq_true, if_false]
          cases (list.filter fun change => entity ∈ change.members).getLast? <;> simp [mem_apply, listed]
  rw [applied, folded]
  cases ((inOrder changes).filter fun change => entity ∈ change.members).getLast? <;> simp

theorem not_mem_applied (absent : ∀ change ∈ changes, entity ∉ change.members) : entity ∉ applied changes := by
  rw [mem_applied]
  rintro ⟨change, last, _⟩
  have listed := List.mem_filter.mp (List.mem_of_getLast? last)
  exact absent change (List.mem_mergeSort.mp listed.1) (of_decide_eq_true listed.2)

theorem mem_applied_of_last (listed : change ∈ changes) (about : entity ∈ change.members)
    (last : ∀ other ∈ changes, entity ∈ other.members → other = change ∨ other.tick < change.tick) :
    entity ∈ applied changes ↔ change.joins := by
  have ordered : ((inOrder changes).filter fun change => entity ∈ change.members).Pairwise
      fun a b => a.tick ≤ b.tick := by
    have sorted : (inOrder changes).Pairwise fun a b => decide (a.tick ≤ b.tick) :=
      List.pairwise_mergeSort (by simp only [decide_eq_true_eq]; omega)
        (by simp only [Bool.or_eq_true, decide_eq_true_eq]; omega) changes
    exact (sorted.imp of_decide_eq_true).filter _
  have own : change ∈ (inOrder changes).filter fun change => entity ∈ change.members :=
    List.mem_filter.mpr ⟨List.mem_mergeSort.mpr listed, decide_eq_true about⟩
  have top : ((inOrder changes).filter fun change => entity ∈ change.members).getLast? = some change := by
    rcases List.eq_nil_or_concat ((inOrder changes).filter fun change => entity ∈ change.members)
      with none | ⟨earlier, final, split⟩
    · rw [none] at own
      cases own
    · rw [List.concat_eq_append] at split
      rw [split] at own ordered ⊢
      have found : final ∈ (inOrder changes).filter fun change => entity ∈ change.members := by simp [split]
      obtain ⟨old, about'⟩ := List.mem_filter.mp found
      rcases last final (List.mem_mergeSort.mp old) (of_decide_eq_true about') with same | less
      · simp [same]
      · -- What stands before the last one is no later.
        rcases List.mem_append.mp own with before | same
        · have order := (List.pairwise_append.mp ordered).2.2 change before final (by simp)
          omega
        · simp [List.mem_singleton.mp same]
  rw [mem_applied, top]
  simp

end MembershipChange

namespace Membership

open MembershipChange

variable {changes : List MembershipChange} {asOf : Int}

theorem mem_rows {row : LogEntry} : row ∈ changes.flatMap rows ↔ ∃ change ∈ changes,
    row.entity ∈ change.members ∧ row.cluster = change.cluster ∧
      row.stamp = .ofInt (if change.joins then change.tick else -change.tick) := by
  obtain ⟨cluster, entity, stamp⟩ := row
  simp only [List.mem_flatMap, rows, List.mem_map, LogEntry.mk.injEq]
  constructor
  · rintro ⟨change, listed, entity, about, rfl, rfl, rfl⟩
    exact ⟨change, listed, about, rfl, rfl⟩
  · rintro ⟨change, listed, about, rfl, rfl⟩
    exact ⟨change, listed, entity, about, rfl, rfl, rfl⟩

theorem row_of_change {change : MembershipChange} {entity : EntityKey} (listed : change ∈ changes)
    (about : entity ∈ change.members) (fits : 1 ≤ change.tick ∧ change.tick ≤ latest) :
    ∃ row ∈ changes.flatMap rows,
      row.entity = entity ∧ row.micros = change.tick ∧ row.isDeparture = !change.joins :=
  ⟨⟨change.cluster, entity, _⟩, mem_rows.mpr ⟨change, listed, about, rfl, rfl⟩, rfl,
    stamp_decides fits.1 fits.2 rfl⟩

theorem presence_rows (timed : Timed changes) (entity : EntityKey) :
    (presence (changes.flatMap rows) asOf)[entity]? = some true ↔
      entity ∈ applied (changes.filter fun change => change.tick ≤ asOf) := by
  have reads : ∀ change ∈ changes, entity ∈ change.members → ∃ row ∈ changes.flatMap rows,
      row.entity = entity ∧ row.micros = change.tick ∧ row.isDeparture = !change.joins :=
    fun change listed about => row_of_change listed about (timed.fits change listed)
  rcases presence_cases (changes.flatMap rows) asOf entity with ⟨none, absent⟩ | ⟨row, last, present⟩
  · rw [absent]
    refine iff_of_false nofun (not_mem_applied fun change found about => ?_)
    obtain ⟨listed, inTime⟩ := List.mem_filter.mp found
    obtain ⟨row, old, same, micros, _⟩ := reads change listed about
    exact none row old same (micros ▸ of_decide_eq_true inTime)
  · -- The row that decides is one of the last change that moves the entity.
    obtain ⟨change, listed, about, _, stamp⟩ := mem_rows.mp last.listed
    have fits := timed.fits change listed
    obtain ⟨micros, departs⟩ := stamp_decides fits.1 fits.2 stamp
    rw [present, departs, Bool.not_not, Option.some.injEq]
    refine (mem_applied_of_last ?_ (last.about ▸ about) ?_).symm
    · exact List.mem_filter.mpr ⟨listed, decide_eq_true (micros ▸ last.inTime)⟩
    · intro other found about'
      obtain ⟨listed', inTime⟩ := List.mem_filter.mp found
      obtain ⟨row', old, same, micros', _⟩ := reads other listed' about'
      have order := last.last row' old same (micros' ▸ of_decide_eq_true inTime)
      rw [LogEntry.before_iff, micros, micros'] at order
      rcases order with less | ⟨same, _⟩
      · exact .inr less
      · exact .inl (List.inj_on_of_nodup_map timed.distinct listed' listed same)

/-- The fold is the set of members that the changes up to the time have left. -/
theorem fold_rows (timed : Timed changes) (asOf : Int) : fold (changes.flatMap rows) asOf =
    Members.ofEntities (applied (changes.filter fun change => change.tick ≤ asOf)).toList := by
  have listed : ((presence (changes.flatMap rows) asOf).toList.filter Prod.snd).map Prod.fst =
      (applied (changes.filter fun change => change.tick ≤ asOf)).toList := by
    refine Ascending.eq_of_mem_iff ?_ (ascending_elements _) fun entity => ?_
    · exact List.pairwise_map.mpr (Std.ExtTreeMap.ordered_keys_toList.filter _)
    · rw [Std.ExtTreeSet.mem_toList, ← presence_rows timed]
      simp
  rw [← listed, Members.ofEntities, List.foldl_map, List.foldl_filter]
  rfl

end Membership

inductive LogRequest where
  | change (joins : Bool) (cluster : Id) (members : Members)
  | deleteSet (cluster set : Id)
  | deleteMembers (cluster : Id) (members : Members)

namespace LogRequest

def action : LogRequest → Action Nat
  | change true cluster members => MembershipLog.join cluster members
  | change false cluster members => MembershipLog.leave cluster members
  | deleteSet cluster set => MembershipLog.deleteSet cluster set
  | deleteMembers cluster members => MembershipLog.deleteMembers cluster members

def deletes (request : LogRequest) (cluster : Id) (entity : EntityKey) : Bool :=
  match request with
  | change _ _ _ => false
  | deleteSet own set => own = cluster && entity.set = set
  | deleteMembers own members => own = cluster && members.has entity

end LogRequest

structure LogEvent where
  request : LogRequest
  tick : Option Int

namespace MembershipChange

def without (request : LogRequest) (change : MembershipChange) : MembershipChange :=
  { change with members := change.members.filter fun entity => !request.deletes change.cluster entity }

def record (changes : List MembershipChange) : LogEvent → List MembershipChange
  | ⟨.change joins cluster members, some tick⟩ => changes ++ [⟨cluster, joins, tick, members.entities⟩]
  | ⟨request, _⟩ => changes.map (without request)

/-- What is left of the changes of a history, in the order in which their rows were written. -/
def recorded (history : List LogEvent) : List MembershipChange := history.foldl record []

def upTo (changes : List MembershipChange) (cluster : Id) (asOf : Int) : List MembershipChange :=
  changes.filter fun change => change.cluster = cluster && change.tick ≤ asOf

end MembershipChange

/-- The event has no say in whether the entity was in the cluster at a time. -/
def LogEvent.Spares (event : LogEvent) (cluster : Id) (entity : EntityKey) (asOf : Int) : Prop :=
  match event with
  | ⟨.change _ other _, tick⟩ => other ≠ cluster ∨ ∀ taken ∈ tick, asOf < taken
  | ⟨request, _⟩ => request.deletes cluster entity = false

namespace MembershipChange

variable {changes : List MembershipChange} {cluster : Id} {entity : EntityKey} {asOf : Int}

theorem inOrder_without (request : LogRequest) :
    inOrder (changes.map (without request)) = (inOrder changes).map (without request) :=
  (List.map_mergeSort (f := without request) fun _ _ _ _ => rfl).symm

theorem recorded_append (history : List LogEvent) (event : LogEvent) :
    recorded (history ++ [event]) = record (recorded history) event := by
  simp [recorded]

theorem mem_applied_without {request : LogRequest} (spares : request.deletes cluster entity = false) :
    entity ∈ applied (upTo (changes.map (without request)) cluster asOf) ↔
      entity ∈ applied (upTo changes cluster asOf) := by
  have own : upTo (changes.map (without request)) cluster asOf =
      (upTo changes cluster asOf).map (without request) := by
    simp only [upTo, List.filter_map]
    rfl
  have listed : ((inOrder (upTo changes cluster asOf)).map (without request)).filter
      (fun change => entity ∈ change.members) =
      ((inOrder (upTo changes cluster asOf)).filter fun change => entity ∈ change.members).map
        (without request) := by
    rw [List.filter_map]
    refine congrArg _ (List.filter_congr fun change found => ?_)
    have here : change.cluster = cluster := by
      have chosen := (List.mem_filter.mp (List.mem_mergeSort.mp found)).2
      simp only [Bool.and_eq_true, decide_eq_true_eq] at chosen
      exact chosen.1
    simp [without, here, spares]
  rw [mem_applied, mem_applied, own, inOrder_without, listed, List.getLast?_map]
  simp [without]

theorem mem_applied_record {event : LogEvent} (spares : event.Spares cluster entity asOf) :
    entity ∈ applied (upTo (record changes event) cluster asOf) ↔ entity ∈ applied (upTo changes cluster asOf) := by
  obtain ⟨request, tick⟩ := event
  cases request with
  | change joins other members =>
      cases tick with
      | none => exact mem_applied_without rfl
      | some tick =>
          have apart : upTo (record changes ⟨.change joins other members, some tick⟩) cluster asOf =
              upTo changes cluster asOf := by
            simp only [record, upTo, List.filter_append, List.filter_singleton]
            rcases spares with apart | late
            · simp [apart]
            · have after := late tick rfl
              simp [show ¬tick ≤ asOf by omega]
          rw [apart]
  | deleteSet | deleteMembers =>
      cases tick <;> exact mem_applied_without spares

theorem rows_without (request : LogRequest) (changes : List MembershipChange) (cluster : Id) :
    ((changes.map (without request)).filter fun change => change.cluster = cluster).flatMap rows =
      ((changes.filter fun change => change.cluster = cluster).flatMap rows).filter
        fun row => !request.deletes cluster row.entity := by
  rw [List.filter_map, List.flatMap_map, List.filter_flatMap]
  refine List.flatMap_congr fun change found => ?_
  have here : change.cluster = cluster := of_decide_eq_true (List.mem_filter.mp found).2
  simp only [rows, without, here, List.filter_map]
  rfl

end MembershipChange

end RecordLinkage
