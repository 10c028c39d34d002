import RecordLinkage.Host

/-! Loaded candidates on their way into a block. Every loader sends its items through one bounded channel,
and one receiver takes them out; it returns early at the first failure, and loaders that still have
something to send then stop. -/

namespace RecordLinkage

abbrev Candidates := Std.ExtTreeMap EntityKey Properties

abbrev Loaded := Except LinkError (EntityKey × Properties)

namespace Loaded

def ofStream (set : Id) : PropertyStream → List Loaded
  | [] => []
  | .error error :: _ => [.error error]
  | .ok (key, properties) :: items => .ok (⟨set, key⟩, properties) :: ofStream set items

def ofAnswer (set : Id) : Except LinkError PropertyStream → List Loaded
  | .error error => [.error error]
  | .ok stream => ofStream set stream

end Loaded

structure Exchange where
  types : IdSet
  capacity : Nat
  senders : List (List Loaded)
  channel : List Loaded
  received : Candidates
  outcome : Option (Except LinkError Candidates)

namespace Exchange

inductive Move where
  | send (sender : Nat)
  | receive
deriving DecidableEq

def take (exchange : Exchange) (entity : EntityKey) (properties : Properties) : Candidates :=
  if properties.hasValuesFor exchange.types then exchange.received.insert entity properties
  else exchange.received

def send? (exchange : Exchange) (sender : Nat) : Option Exchange :=
  match exchange.senders[sender]? with
  | some (item :: items) =>
      if exchange.outcome.isSome then
        some { exchange with senders := exchange.senders.set sender [] }
      else if exchange.channel.length < exchange.capacity then
        some { exchange with
          senders := exchange.senders.set sender items
          channel := exchange.channel ++ [item] }
      else none
  | _ => none

def receive? (exchange : Exchange) : Option Exchange :=
  if exchange.outcome.isSome then none
  else match exchange.channel with
    | .ok (entity, properties) :: channel =>
        some { exchange with channel, received := exchange.take entity properties }
    | .error error :: channel => some { exchange with channel, outcome := some (.error error) }
    | [] =>
        if exchange.senders.all List.isEmpty then
          some { exchange with outcome := some (.ok exchange.received) }
        else none

def step? (exchange : Exchange) : Move → Option Exchange
  | .send sender => exchange.send? sender
  | .receive => exchange.receive?

def work (exchange : Exchange) : Nat :=
  2 * exchange.senders.flatten.length + exchange.channel.length +
    (if exchange.outcome.isSome then 0 else 1)

theorem length_flatten_set_lt {lists : List (List Loaded)} {index : Nat} {old : List Loaded}
    (new : List Loaded) (found : lists[index]? = some old) (shorter : new.length < old.length) :
    (lists.set index new).flatten.length < lists.flatten.length := by
  induction lists generalizing index with
  | nil => simp at found
  | cons list lists ih =>
      cases index with
      | zero =>
          simp only [List.getElem?_cons_zero, Option.some.injEq] at found
          subst found
          simp only [List.set_cons_zero, List.flatten_cons, List.length_append]
          omega
      | succ index =>
          simp only [List.getElem?_cons_succ] at found
          have rest := ih found
          simp only [List.set_cons_succ, List.flatten_cons, List.length_append]
          omega

theorem work_send {before after : Exchange} {sender : Nat}
    (moved : before.send? sender = some after) : after.work < before.work := by
  unfold send? at moved
  split at moved
  · rename_i item items found
    split at moved
    · simp only [Option.some.injEq] at moved
      subst moved
      have less := length_flatten_set_lt [] found (by simp)
      simp only [work]
      omega
    · split at moved
      · simp only [Option.some.injEq] at moved
        subst moved
        have less := length_flatten_set_lt items found (by simp)
        simp only [work, List.length_append, List.length_singleton]
        omega
      · contradiction
  · contradiction

theorem work_receive {before after : Exchange} (moved : before.receive? = some after) :
    after.work < before.work := by
  unfold receive? at moved
  split at moved
  · contradiction
  · rename_i waiting
    split at moved
    · rename_i full
      simp only [Option.some.injEq] at moved
      subst moved
      simp [work, full]
    · rename_i full
      simp only [Option.some.injEq] at moved
      subst moved
      simp [work, full]
      omega
    · rename_i drained
      split at moved
      · simp only [Option.some.injEq] at moved
        subst moved
        simp [work, drained, waiting]
      · contradiction

theorem work_step {before after : Exchange} {move : Move} (moved : before.step? move = some after) :
    after.work < before.work := by
  cases move with
  | send sender => exact work_send moved
  | receive => exact work_receive moved

def next (exchange : Exchange) : Move :=
  if exchange.receive?.isSome then .receive
  else .send (exchange.senders.findIdx fun items => !items.isEmpty)

def finish (exchange : Exchange) : Exchange :=
  match _moved : exchange.step? exchange.next with
  | some moved => finish moved
  | none => exchange
termination_by exchange.work
decreasing_by exact work_step ‹_›

def start (types : IdSet) (capacity : Nat) (senders : List (List Loaded))
    (received : Candidates) : Exchange :=
  ⟨types, max capacity 1, senders, [], received, none⟩

def result (exchange : Exchange) : Except LinkError Candidates :=
  exchange.outcome.getD (.ok exchange.received)

end Exchange

end RecordLinkage
