import LineExchange.Proofs.Server.Lodging
import LineExchange.Proofs.Server.Stopping

/-!
# Handing — what comes of an accept is handed on

The loop of a listener issues one accept after another; the connection that an accept brings gets
an exchange, and its error is counted, in the next step of the loop.  This file defines:

* `Server.connections` and `Server.failures` — what came of the accepts of a run;
* `Server.heard` — what an event of the server is to the listener;
* `Server.issues` — the loop issues an accept;
* `Server.Handed` — each connection that was accepted has an exchange, or is about to have one, and
  each error was counted, or is about to be.

The listener does what it hears and nothing else (`step?_of_heard`), and every move hands on what
comes of the accepts (`Handed.of_move`).
-/

namespace LineExchange

namespace Server

variable {p : Responder} {s s' : Server} {e : Event}

/-! ## What comes of the accepts -/

namespace Event

def isCompletion : Event → Bool
  | .complete _ => true
  | _ => false

def connection? : Event → Option Wire
  | .complete (.ok w) => some w
  | _ => none

def isFailedAccept : Event → Bool
  | .complete (.error _) => true
  | _ => false

end Event

def connections (es : List Event) : List Wire :=
  es.filterMap Event.connection?

def failures (es : List Event) : Nat :=
  es.countP Event.isFailedAccept

/-- An accept that is completed brings a connection or an error. -/
theorem countP_isCompletion (es : List Event) :
    es.countP Event.isCompletion = (connections es).length + failures es := by
  induction es with
  | nil => rfl
  | cons e es ih =>
      simp only [connections, failures, List.countP_cons, List.filterMap_cons] at ih ⊢
      cases e with
      | complete r =>
          cases r <;> simp [Event.isCompletion, Event.connection?, Event.isFailedAccept, ih] <;> omega
      | _ => exact ih

/-! ## What the listener hears -/

/-- What an event of the server is to the listener. -/
def heard (s : Server) : Event → Option Listener.Event
  | .start r => some (.start r)
  | .arm => some .arm
  | .spawn => some (.spawn s.crew.isUp)
  | .stopListener => some .stop
  | .loop => some .step
  | .complete (.ok _) => some (.complete true)
  | .complete (.error _) => some (.complete false)
  | .discard j => if s.tenants[j]? = some .loop then some .drop else none
  | .stopCrew | .exchange _ | .leave _ | .joined => none

/-- The listener does what it hears, and nothing else. -/
theorem step?_of_heard (move : Move p s e s') :
    (∃ e', s.heard e = some e' ∧ s.listener.step? e' = some s'.listener) ∨
      s.heard e = none ∧ s'.listener = s.listener := by
  cases move with
  | @alone e e' l of heard =>
      refine .inl ⟨e', ?_, heard⟩
      cases e with
      | complete r => cases r <;> first | exact of | cases of
      | start | arm | stopListener => exact of
      | _ => cases of
  | completed heard => exact .inl ⟨_, rfl, heard⟩
  | brought armed heard => exact .inl ⟨_, rfl, heard⟩
  | engaged may accepted incoming heard => exact .inl ⟨_, rfl, heard⟩
  | acceptFailed may failed heard => exact .inl ⟨_, rfl, heard⟩
  | looped may noAccept heard => exact .inl ⟨_, rfl, heard⟩
  | loopDropped tenant joining heard => exact .inl ⟨.drop, by simp [Server.heard, tenant], heard⟩
  | exchangeDropped tenant => exact .inr ⟨by simp [Server.heard, tenant], rfl⟩
  | crewStopped | exchanged | left | crewGone => exact .inr ⟨rfl, rfl⟩

def issues (s : Server) : Event → Bool
  | .loop => decide (s.listener.loop = .ready)
  | _ => false

theorem completes_of_heard {e' : Listener.Event} (h : s.heard e = some e') :
    e'.completes = e.isCompletion ∧ s.listener.issues e' = s.issues e := by
  cases e with
  | complete r => cases r <;> cases h <;> exact ⟨rfl, rfl⟩
  | discard j =>
      simp only [heard] at h
      split at h <;> cases h
      exact ⟨rfl, rfl⟩
  | start | arm | spawn | stopListener | loop =>
      cases h
      exact ⟨rfl, rfl⟩
  | _ => cases h

theorem quiet_of_unheard (h : s.heard e = none) :
    e.isCompletion = false ∧ s.issues e = false ∧ e ≠ .stopListener := by
  cases e with
  | complete r => cases r <;> cases h
  | start | arm | spawn | stopListener | loop => cases h
  | _ => exact ⟨rfl, rfl, by simp⟩

/-! ## Connections and errors are handed on -/

/-- Each connection that was accepted has an exchange, in their order, but for the one that just
came; and each failed accept was counted, but for the one that just failed. -/
structure Handed (p : Responder) (wires : List Wire) (errors : Nat) (s : Server) : Prop where
  incoming : s.incoming.isSome = true ↔ s.listener.loop = .completed true
  exchanges : ∃ fs, (Exchanges.machine p).run? .fresh fs = some s.exchanges ∧
    fs.filterMap Exchanges.Event.wire? ++ s.incoming.toList = wires ∧
    fs.countP Exchanges.Event.isFailure +
      (if s.listener.loop = .completed false then 1 else 0) = errors

/-- A connection that has its exchange is not waiting any more. -/
theorem incoming_engage (s : Server) (w : Wire) : (s.engage w).incoming = none := by
  simp only [engage]
  split
  · rfl
  · generalize hs : bring _ _ = s₁
    have nothing : s₁.incoming = none := by
      rw [← hs]
      rfl
    cases dropped : s₁.dropExchange s.exchanges.all.length with
    | none => exact nothing
    | some s₂ =>
        rcases dropExchange_eq_some dropped with ⟨xs, -, rfl⟩
        exact nothing

/-- The exchange on a connection is begun once, and dropped if the crew is down. -/
theorem exists_events_of_engage (p : Responder) (s : Server) (w : Wire) :
    ∃ gs, (Exchanges.machine p).run? s.exchanges gs = some (s.engage w).exchanges ∧
      gs.filterMap Exchanges.Event.wire? = [w] ∧ gs.countP Exchanges.Event.isFailure = 0 := by
  rcases exchanges_engage s w with ⟨-, -, up, down⟩
  cases isUp : s.crew.isUp with
  | true => exact ⟨[.accept w], congrArg some (up isUp).symm, rfl, rfl⟩
  | false =>
      refine ⟨[.accept w, .drop s.exchanges.all.length], ?_, rfl, rfl⟩
      simp [Exchanges.machine, Exchanges.step?, down isUp]

namespace Handed

variable {wires : List Wire} {errors : Nat}

theorem start (p : Responder) (threads : Nat) : Handed p [] 0 (onCrew (.ofSize threads)) where
  incoming := by simp [onCrew, Listener.fresh]
  exchanges := ⟨[], rfl, rfl, rfl⟩

/-- An event that completes no accept, and accounts for none. -/
theorem keep (gs : List Exchanges.Event) (h : Handed p wires errors s)
    (noConnection : e.connection? = none) (noFailure : e.isFailedAccept = false)
    (run : (Exchanges.machine p).run? s.exchanges gs = some s'.exchanges)
    (begins : gs.filterMap Exchanges.Event.wire? = [])
    (counts : gs.countP Exchanges.Event.isFailure = 0) (incoming : s'.incoming = s.incoming)
    (same : ∀ ok, s'.listener.loop = .completed ok ↔ s.listener.loop = .completed ok) :
    Handed p (wires ++ e.connection?.toList) (errors + e.isFailedAccept.toNat) s' := by
  rw [noConnection, noFailure, Option.toList_none, List.append_nil, Bool.toNat_false, Nat.add_zero]
  rcases h with ⟨waits, fs, before, accepted, failed⟩
  refine ⟨by rw [incoming, same]; exact waits, fs ++ gs, ?_, ?_, ?_⟩
  · rw [Machine.run?_append, before]
    exact run
  · rw [List.filterMap_append, begins, List.append_nil, incoming]
    exact accepted
  · rw [List.countP_append, counts, Nat.add_zero]
    simp only [same]
    exact failed

/-- An event that the listener hears leaves a completed accept where it is, if it is neither the
completion of one nor a step of the loop. -/
theorem completed_iff_of_other {l l' : Listener} {e' : Listener.Event} (shows : l.Shows)
    (move : Listener.Move l e' l') (noStep : e' ≠ .step) (noCompletion : ∀ ok, e' ≠ .complete ok)
    (ok : Bool) : l'.loop = .completed ok ↔ l.loop = .completed ok := by
  rw [move.completed_iff shows]
  simp [noStep, noCompletion]

/-- The listener alone hears an event: only a failed accept is to be accounted for. -/
theorem alone {e' : Listener.Event} {l : Listener} (h : Handed p wires errors s)
    (shows : s.listener.Shows) (of : e.alone? = some e')
    (heard : s.listener.step? e' = some l) :
    Handed p (wires ++ e.connection?.toList) (errors + e.isFailedAccept.toNat)
      { s with listener := l } := by
  have own := Listener.Move.of_step? heard
  cases e with
  | start r =>
      cases of
      exact h.keep [] rfl rfl rfl rfl rfl rfl
        (completed_iff_of_other shows own (by simp) (by simp))
  | arm =>
      cases of
      exact h.keep [] rfl rfl rfl rfl rfl rfl
        (completed_iff_of_other shows own (by simp) (by simp))
  | stopListener =>
      cases of
      exact h.keep [] rfl rfl rfl rfl rfl rfl
        (completed_iff_of_other shows own (by simp) (by simp))
  | complete r =>
      cases r with
      | ok w => cases of
      | error err =>
          cases of
          cases own with
          | completed accepting =>
              -- A failed accept has no connection; the loop notes its error later.
              rcases h with ⟨waits, fs, before, accepted, failed⟩
              simp only [accepting, reduceCtorEq, if_false, iff_false] at waits failed
              refine ⟨?_, fs, before, ?_, ?_⟩
              · simpa using waits
              · simpa [Event.connection?] using accepted
              · simpa [Event.isFailedAccept] using failed
  | _ => cases of

/-- A connection comes; it waits for the next step of the loop. -/
theorem completed {w : Wire} {l : Listener} (h : Handed p wires errors s)
    (heard : s.listener.step? (.complete true) = some l) :
    Handed p (wires ++ [w]) errors { s with listener := l, incoming := some w } := by
  cases Listener.Move.of_step? heard with
  | completed accepting =>
      rcases h with ⟨waits, fs, before, accepted, failed⟩
      simp only [accepting, reduceCtorEq, if_false, iff_false] at waits failed
      have nothing : s.incoming = none := by simpa using waits
      rw [nothing, Option.toList_none, List.append_nil] at accepted
      exact ⟨by simp, fs, before, by simp [accepted], by simpa using failed⟩

/-- The loop hands the connection that came to an exchange. -/
theorem engaged {w : Wire} {l : Listener} (h : Handed p wires errors s)
    (hloop : s.listener.loop = .completed true) (incoming : s.incoming = some w)
    (heard : s.listener.step? .step = some l) :
    Handed p wires errors { s.engage w with listener := l } := by
  rcases h with ⟨-, fs, before, accepted, failed⟩
  rcases exists_events_of_engage p s w with ⟨gs, run, begun, hnone⟩
  have loop : l.loop = .checking := by
    simpa [Listener.step?, Listener.loopStep, hloop, eq_comm] using
      congrArg (Option.map (·.loop)) heard
  refine ⟨by simp [incoming_engage, loop], fs ++ gs, ?_, ?_, ?_⟩
  · rw [Machine.run?_append, before]
    exact run
  · simpa [incoming_engage, begun, incoming] using accepted
  · simpa [loop, hloop, hnone] using failed

/-- The loop counts the accept that failed. -/
theorem acceptFailed {l : Listener} (h : Handed p wires errors s)
    (hloop : s.listener.loop = .completed false) (heard : s.listener.step? .step = some l) :
    Handed p wires errors
      { s with
        listener := l
        exchanges := { s.exchanges with traffic := s.exchanges.traffic.acceptFailed } } := by
  rcases h with ⟨waits, fs, before, accepted, failed⟩
  have loop : l.loop = .checking := by
    simpa [Listener.step?, Listener.loopStep, hloop, eq_comm] using
      congrArg (Option.map (·.loop)) heard
  refine ⟨by simpa [loop, hloop] using waits, fs ++ [.acceptFailed], ?_, ?_, ?_⟩
  · rw [Machine.run?_append, before]
    rfl
  · rw [List.filterMap_append, List.append_assoc]
    exact accepted
  · simpa [loop, hloop, Exchanges.Event.isFailure] using failed

/-- Every move hands on what comes of the accepts. -/
theorem of_move (h : Handed p wires errors s) (shows : s.listener.Shows) (move : Move p s e s') :
    Handed p (wires ++ e.connection?.toList) (errors + e.isFailedAccept.toNat) s' := by
  cases move with
  | alone of heard => exact h.alone shows of heard
  | completed heard => exact h.completed heard
  | brought armed heard =>
      exact h.keep [] rfl rfl rfl rfl rfl rfl
        (completed_iff_of_other shows (.of_step? heard) (by simp) (by simp))
  | engaged may accepted incoming heard =>
      simpa [Event.connection?, Event.isFailedAccept] using h.engaged accepted incoming heard
  | acceptFailed may failed heard =>
      simpa [Event.connection?, Event.isFailedAccept] using h.acceptFailed failed heard
  | @looped l may noAccept heard =>
      -- A loop that has a completed accept behind it would have its connection, or its error.
      have elsewhere (ok : Bool) : s.listener.loop ≠ .completed ok := by
        intro hloop
        rcases noAccept ok hloop with ⟨rfl, nothing⟩
        simpa [nothing] using h.incoming.2 hloop
      have still (ok : Bool) : l.loop = .completed ok ↔ s.listener.loop = .completed ok := by
        rw [(Listener.Move.of_step? heard).completed_iff shows]
        simp [elsewhere]
      exact h.keep [] rfl rfl rfl rfl rfl rfl still
  | crewStopped | left | crewGone =>
      exact h.keep [] rfl rfl rfl rfl rfl rfl (fun _ => Iff.rfl)
  | @exchanged e xs may own stepped =>
      rcases own with ⟨noAccept, noFailure, -⟩
      have begins : e.wire? = none := by
        cases e <;> first | rfl | exact absurd rfl (noAccept _)
      have counts : e.isFailure = false := by
        cases e <;> first | rfl | exact absurd rfl noFailure
      exact h.keep [e] rfl rfl (by simp [Exchanges.machine, stepped]) (by simp [begins])
        (by simp [counts]) rfl (fun _ => Iff.rfl)
  | loopDropped tenant joining heard =>
      exact h.keep [] rfl rfl rfl rfl rfl rfl
        (completed_iff_of_other shows (.of_step? heard) (by simp) (by simp))
  | @exchangeDropped i j xs tenant joining dropped =>
      exact h.keep [.drop i] rfl rfl
        (by simp [Exchanges.machine, Exchanges.step?, dropped]) rfl rfl rfl (fun _ => Iff.rfl)

end Handed

end Server
end LineExchange
