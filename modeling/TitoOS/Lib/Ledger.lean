import Mathlib.Data.List.Basic

/-!
# Redelivery ledgers

The books of a queue whose items are handed out in batches: a batch in flight
is either consumed for good or put back in front of what has arrived meanwhile.
Whatever the order of the operations, every item ever accepted is consumed, in
flight or pending, once and in acceptance order: the books balance by
construction (`Ledger.balanced`).
-/

/-- What a queue has accepted, and where it is now. -/
structure Ledger (α : Type) where
  accepted : List α
  consumed : List α
  inFlight : List α
  pending : List α
  balanced : accepted = consumed ++ inFlight ++ pending

namespace Ledger

variable {α : Type}

instance : EmptyCollection (Ledger α) := ⟨⟨[], [], [], [], rfl⟩⟩

/-- New items join at the end. -/
def accept (l : Ledger α) (items : List α) : Ledger α where
  accepted := l.accepted ++ items
  consumed := l.consumed
  inFlight := l.inFlight
  pending := l.pending ++ items
  balanced := by simp [l.balanced]

/-- Everything pending is handed out. -/
def take (l : Ledger α) : Ledger α where
  accepted := l.accepted
  consumed := l.consumed
  inFlight := l.inFlight ++ l.pending
  pending := []
  balanced := by simp [l.balanced]

/-- What is in flight has been dealt with. -/
def commit (l : Ledger α) : Ledger α where
  accepted := l.accepted
  consumed := l.consumed ++ l.inFlight
  inFlight := []
  pending := l.pending
  balanced := by simp [l.balanced]

/-- What is in flight comes back, ahead of what arrived meanwhile. -/
def rollback (l : Ledger α) : Ledger α where
  accepted := l.accepted
  consumed := l.consumed
  inFlight := []
  pending := l.inFlight ++ l.pending
  balanced := by simp [l.balanced]

/-- Hand out what is pending, accept `items` meanwhile, and commit or put back. -/
def round (l : Ledger α) (items : List α) (done : Bool) : Ledger α :=
  if done then (l.take.accept items).commit else (l.take.accept items).rollback

@[simp] theorem accepted_empty : (∅ : Ledger α).accepted = [] := rfl
@[simp] theorem consumed_empty : (∅ : Ledger α).consumed = [] := rfl
@[simp] theorem inFlight_empty : (∅ : Ledger α).inFlight = [] := rfl
@[simp] theorem pending_empty : (∅ : Ledger α).pending = [] := rfl

@[simp] theorem accepted_accept (l : Ledger α) (items : List α) :
    (l.accept items).accepted = l.accepted ++ items := rfl
@[simp] theorem consumed_accept (l : Ledger α) (items : List α) :
    (l.accept items).consumed = l.consumed := rfl
@[simp] theorem inFlight_accept (l : Ledger α) (items : List α) :
    (l.accept items).inFlight = l.inFlight := rfl
@[simp] theorem pending_accept (l : Ledger α) (items : List α) :
    (l.accept items).pending = l.pending ++ items := rfl

@[simp] theorem accepted_round (l : Ledger α) (items : List α) (done : Bool) :
    (l.round items done).accepted = l.accepted ++ items := by cases done <;> rfl

@[simp] theorem inFlight_round (l : Ledger α) (items : List α) (done : Bool) :
    (l.round items done).inFlight = [] := by cases done <;> rfl

/-- A round consumes what was pending before it, if it is committed. -/
theorem consumed_round {l : Ledger α} (h : l.inFlight = []) (items : List α) (done : Bool) :
    (l.round items done).consumed = l.consumed ++ if done then l.pending else [] := by
  cases done <;> simp [round, take, accept, commit, rollback, h]

/-- A round leaves pending what arrived during it, behind what it put back. -/
theorem pending_round {l : Ledger α} (h : l.inFlight = []) (items : List α) (done : Bool) :
    (l.round items done).pending = (if done then [] else l.pending) ++ items := by
  cases done <;> simp [round, take, accept, commit, rollback, h]

/-- With nothing in flight, what was accepted is what was consumed and what is
pending. -/
theorem accepted_eq {l : Ledger α} (h : l.inFlight = []) :
    l.accepted = l.consumed ++ l.pending := by
  rw [l.balanced, h, List.append_nil]

end Ledger
