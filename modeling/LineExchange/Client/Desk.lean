import LineExchange.Client.Roster
import LineExchange.Client.Ticket

/-!
# Desk — tickets, and which of them are active

A desk issues tickets; any number of them may have the same name, but only one of these is active
at a time.  Cancelling by name reaches the active ticket only.  This file defines:

* `Desk` — the tickets issued and the roster of the active ones;
* `Desk.activate`, `Desk.retire`, `Desk.cancel`, `Desk.cancelAll` — what is done under the
  roster's lock;
* `Desk.Step`, `Desk.Reply`, `Desk.step` and `Desk.run` — everything that can be done, in any
  order.
-/

namespace LineExchange

/-- Tickets, by the order of their issue, and the active ones. -/
structure Desk where
  tickets : List Ticket
  active : Roster
  deriving DecidableEq, Repr

namespace Desk

def empty : Desk :=
  ⟨[], .empty⟩

/-- A new ticket is issued; it is not active. -/
def issue (t : Ticket) (d : Desk) : Desk :=
  { d with tickets := d.tickets ++ [t] }

/-- Ticket `k` becomes active, unless its name is in use. -/
def activate (k : Nat) (d : Desk) : Desk × Bool :=
  match d.tickets[k]? with
  | none => (d, false)
  | some t =>
      match d.active.insert? t.id k with
      | some r => ({ d with active := r }, true)
      | none => (d, false)

/-- The active ticket of a name is active no more. -/
def retire (id : UInt32) (d : Desk) : Desk × Option Nat :=
  ({ d with active := d.active.erase id }, d.active.get? id)

/-- Ticket `k` is cancelled, active or not. -/
def cancelTicket (k : Nat) (d : Desk) : Desk :=
  { d with tickets := d.tickets.modify k Ticket.cancel }

/-- The active ticket of a name is cancelled, if there is one. -/
def cancel (id : UInt32) (d : Desk) : Desk × Bool :=
  match d.active.get? id with
  | some k => (d.cancelTicket k, true)
  | none => (d, false)

/-- Every active ticket is cancelled. -/
def cancelAll (d : Desk) : Desk :=
  d.active.occupants.foldl (fun d k => d.cancelTicket k) d

@[simp] theorem active_cancelTicket (k : Nat) (d : Desk) :
    (d.cancelTicket k).active = d.active := rfl

theorem getElem?_cancelTicket (k : Nat) (d : Desk) (i : Nat) :
    (d.cancelTicket k).tickets[i]? =
      if k = i then d.tickets[i]?.map Ticket.cancel else d.tickets[i]? := by
  simp only [cancelTicket, List.getElem?_modify]
  split
  · rfl
  · cases d.tickets[i]? <;> rfl

/-- A name is found exactly when it has an active ticket. -/
theorem cancel_found_iff {id : UInt32} {d : Desk} :
    (d.cancel id).2 = true ↔ ∃ k, d.active.get? id = some k := by
  unfold cancel
  split <;> simp_all

@[simp] theorem active_cancel (id : UInt32) (d : Desk) : (d.cancel id).1.active = d.active := by
  unfold cancel
  split <;> rfl

@[simp] theorem active_foldl_cancelTicket (ks : List Nat) (d : Desk) :
    (ks.foldl (fun d k => d.cancelTicket k) d).active = d.active := by
  induction ks generalizing d with
  | nil => rfl
  | cons k ks ih => exact ih (d.cancelTicket k)

@[simp] theorem active_cancelAll (d : Desk) : d.cancelAll.active = d.active :=
  active_foldl_cancelTicket d.active.occupants d

theorem cancel_eq_foldl (id : UInt32) (d : Desk) :
    (d.cancel id).1 = (d.active.get? id).toList.foldl (fun d k => d.cancelTicket k) d := by
  unfold cancel
  split <;> simp_all

/-- What becomes of a ticket when the tickets `ks` are cancelled. -/
theorem getElem?_foldl_cancelTicket {ks : List Nat} {d : Desk} {i : Nat} {t' : Ticket}
    (h : (ks.foldl (fun d k => d.cancelTicket k) d).tickets[i]? = some t') :
    ∃ t, d.tickets[i]? = some t ∧ (t'.cancelled = true ↔ t.cancelled = true ∨ i ∈ ks) ∧
      (t.IsSound → t'.IsSound) := by
  induction ks generalizing d with
  | nil => exact ⟨t', h, by simp, id⟩
  | cons k ks ih =>
      rcases ih h with ⟨u, hget, flag, sound⟩
      rw [getElem?_cancelTicket] at hget
      split at hget
      · rename_i own
        subst own
        rcases Option.map_eq_some_iff.1 hget with ⟨t, before, rfl⟩
        exact ⟨t, before, by simp [flag], fun _ => sound (Ticket.isSound_cancel t)⟩
      · rename_i other
        exact ⟨u, hget, by simp [flag, Ne.symm other], sound⟩

inductive Step where
  | issue (id : UInt32) (endpoint : Endpoint) (payload : Bytes)
  | activate (k : Nat)
  | retire (id : UInt32)
  | cancel (id : UInt32)
  | cancelTicket (k : Nat)
  | cancelAll
  | contains (id : UInt32)
  deriving DecidableEq, Repr

inductive Reply where
  | issued (ticket : Ticket)
  | flag (value : Bool)
  /-- The ticket that was active. -/
  | retired (k : Option Nat)
  | count (value : Nat)
  | nothing
  deriving DecidableEq, Repr

def step (d : Desk) : Step → Desk × Reply
  | .issue id endpoint payload =>
      let t := Ticket.issue id endpoint payload
      (d.issue t, .issued t)
  | .activate k =>
      let (d, ok) := d.activate k
      (d, .flag ok)
  | .retire id =>
      let (d, k) := d.retire id
      (d, .retired k)
  | .cancel id =>
      let (d, found) := d.cancel id
      (d, .flag found)
  | .cancelTicket k => (d.cancelTicket k, .nothing)
  | .cancelAll => (d.cancelAll, .count d.active.size)
  | .contains id => (d, .flag (d.active.contains id))

def run (d : Desk) : List Step → List (Desk × Reply)
  | [] => []
  | a :: as =>
      let r := step d a
      r :: run r.1 as

end Desk
end LineExchange
