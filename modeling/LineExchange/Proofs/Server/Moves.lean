import LineExchange.Proofs.Server.Listening
import LineExchange.Server.Server

/-!
# Moves — what the events of a server do

This file says once, for each event of a server, everything that it may do.  It defines:

* `Server.Event.alone?` — the events that only the listener hears;
* `Server.Move` — what an event may do, one constructor for each kind of step.

`Move.of_step?` proves that an event does nothing else.  Where a move brings a job to the crew,
`bring_spec` and `engage_spec` say what becomes of the crew and of the listener.
-/

namespace LineExchange
namespace Server

/-- What an event is to the listener, when nothing else has a part in it. -/
def Event.alone? : Event → Option Listener.Event
  | .start r => some (.start r)
  | .arm => some .arm
  | .stopListener => some .stop
  | .complete (.error _) => some (.complete false)
  | _ => none

inductive Move (p : Responder) (s : Server) : Event → Server → Prop where
  | alone {e : Event} {e' : Listener.Event} {l : Listener} (of : e.alone? = some e')
      (heard : s.listener.step? e' = some l) : Move p s e { s with listener := l }
  | completed {w : Wire} {l : Listener} (heard : s.listener.step? (.complete true) = some l) :
      Move p s (.complete (.ok w)) { s with listener := l, incoming := some w }
  | brought {l : Listener} (armed : s.listener.loop = .armed)
      (heard : s.listener.step? (.spawn s.crew.isUp) = some l) :
      Move p s .spawn { s.bring .loop with listener := l }
  /-- The loop gives a connection to an exchange of its own. -/
  | engaged {w : Wire} {l : Listener} (may : s.mayWork .loop = true)
      (accepted : s.listener.loop = .completed true) (incoming : s.incoming = some w)
      (heard : s.listener.step? .step = some l) : Move p s .loop { s.engage w with listener := l }
  | acceptFailed {l : Listener} (may : s.mayWork .loop = true)
      (failed : s.listener.loop = .completed false) (heard : s.listener.step? .step = some l) :
      Move p s .loop
        { s with
          listener := l
          exchanges := { s.exchanges with traffic := s.exchanges.traffic.acceptFailed } }
  /-- A step of the loop that has no accept to account for. -/
  | looped {l : Listener} (may : s.mayWork .loop = true)
      (noAccept : ∀ ok, s.listener.loop = .completed ok → ok = true ∧ s.incoming = none)
      (heard : s.listener.step? .step = some l) : Move p s .loop { s with listener := l }
  | crewStopped {crew : Crew} (stopped : s.crew.step? .stop = some crew) :
      Move p s .stopCrew { s with crew }
  | exchanged {e : Exchanges.Event} {xs : Exchanges}
      (may : ∀ i, goesOn? e = some i → s.mayWork (.exchange i) = true)
      (own : (∀ w, e ≠ .accept w) ∧ e ≠ .acceptFailed ∧ ∀ i, e ≠ .drop i)
      (stepped : Exchanges.step? p s.exchanges e = some xs) :
      Move p s (.exchange e) { s with exchanges := xs }
  | left {j : Nat} {t : Tenant} {crew : Crew} (tenant : s.tenants[j]? = some t)
      (done : s.isFinished t = true)
      (leave : (s.crew.step? (.finish j false)).bind (fun c => c.step? (.leave j)) = some crew) :
      Move p s (.leave j) { s with crew }
  | loopDropped {j : Nat} {l : Listener} (tenant : s.tenants[j]? = some .loop)
      (joining : s.crew.closing = .joining) (heard : s.listener.step? .drop = some l) :
      Move p s (.discard j) { s with listener := l }
  | exchangeDropped {i j : Nat} {xs : Exchanges} (tenant : s.tenants[j]? = some (.exchange i))
      (joining : s.crew.closing = .joining) (dropped : s.exchanges.drop? i = some xs) :
      Move p s (.discard j) { s with exchanges := xs }
  | crewGone {crew : Crew} (gone : s.crew.step? .joined = some crew) :
      Move p s .joined { s with crew }

variable {p : Responder} {s s' : Server} {e : Event}

/-! ## What belongs to a job that comes to the crew -/

/-- A job that is brought is on the crew when the crew is there, and else dropped. -/
theorem bring_spec (s : Server) (t : Tenant) :
    (s.bring t).listener = s.listener ∧ (s.bring t).tenants = s.tenants ++ [t] ∧
      (s.bring t).crew.jobs = s.crew.jobs ++ [if s.crew.isUp then .live else .dropped] ∧
      (s.bring t).crew.closing = s.crew.closing := by
  refine ⟨rfl, rfl, ?_⟩
  cases closing : s.crew.closing <;> simp [bring, Crew.step?, Crew.isUp, closing, Crew.uncount]

theorem dropExchange_eq_some {i : Nat} (h : s.dropExchange i = some s') :
    ∃ xs, s.exchanges.drop? i = some xs ∧ s' = { s with exchanges := xs } := by
  rcases Option.map_eq_some_iff.1 h with ⟨xs, dropped, rfl⟩
  exact ⟨xs, dropped, rfl⟩

/-- A connection that was accepted has one more job. -/
theorem engage_spec (s : Server) (w : Wire) :
    (s.engage w).listener = s.listener ∧
      (∃ t, (s.engage w).tenants = s.tenants ++ [t]) ∧
      (∃ b, (s.engage w).crew.jobs = s.crew.jobs ++ [b]) ∧
      (s.engage w).crew.closing = s.crew.closing := by
  have brought := bring_spec { s with exchanges := s.exchanges.accept w, incoming := none }
    (.exchange s.exchanges.all.length)
  simp only [engage]
  split
  · exact ⟨brought.1, ⟨_, brought.2.1⟩, ⟨_, brought.2.2.1⟩, brought.2.2.2⟩
  · -- The crew is going down, so the exchange is dropped with its job.
    rename_i down
    generalize hs : bring _ _ = s₁ at brought
    cases dropped : s₁.dropExchange s.exchanges.all.length with
    | none =>
        exact ⟨brought.1, ⟨_, brought.2.1⟩, ⟨_, brought.2.2.1⟩, brought.2.2.2⟩
    | some s₂ =>
        rcases dropExchange_eq_some dropped with ⟨xs, -, rfl⟩
        exact ⟨brought.1, ⟨_, brought.2.1⟩, ⟨_, brought.2.2.1⟩, brought.2.2.2⟩

/-! ## There is no other move -/

theorem onListener_eq_some {e' : Listener.Event} (h : s.onListener e' = some s') :
    ∃ l, s.listener.step? e' = some l ∧ s' = { s with listener := l } := by
  rcases Option.map_eq_some_iff.1 h with ⟨l, heard, rfl⟩
  exact ⟨l, heard, rfl⟩

theorem Move.of_alone {e' : Listener.Event} (of : e.alone? = some e')
    (h : s.onListener e' = some s') : Move p s e s' := by
  rcases onListener_eq_some h with ⟨l, heard, rfl⟩
  exact .alone of heard

theorem Move.of_loopStep (may : s.mayWork .loop = true) (h : s.loopStep = some s') :
    Move p s .loop s' := by
  simp only [loopStep] at h
  split at h
  · rename_i w accepted incoming
    rcases onListener_eq_some h with ⟨l, heard, rfl⟩
    rw [(engage_spec s w).1] at heard
    exact .engaged may accepted incoming heard
  · rename_i failed
    rcases onListener_eq_some h with ⟨l, heard, rfl⟩
    exact .acceptFailed may failed heard
  · rename_i noFailure noConnection
    rcases onListener_eq_some h with ⟨l, heard, rfl⟩
    refine .looped may ?_ heard
    intro ok completed
    cases ok with
    | true =>
        cases incoming : s.incoming with
        | none => exact ⟨rfl, rfl⟩
        | some w => exact absurd incoming (noConnection w completed)
    | false => exact absurd completed noFailure

theorem Move.of_exchange {e : Exchanges.Event} (h : step? p s (.exchange e) = some s') :
    Move p s (.exchange e) s' := by
  simp only [step?] at h
  split at h
  · cases h
  · cases h
  · cases h
  · rename_i i noAccept noFailure noDrop goes
    split at h
    · rename_i may
      rcases Option.map_eq_some_iff.1 h with ⟨xs, stepped, rfl⟩
      refine .exchanged ?_ ⟨noAccept, noFailure, noDrop⟩ stepped
      intro i' goes'
      cases goes.symm.trans goes'
      exact may
    · cases h
  · rename_i noAccept noFailure noDrop stays
    rcases Option.map_eq_some_iff.1 h with ⟨xs, stepped, rfl⟩
    refine .exchanged ?_ ⟨noAccept, noFailure, noDrop⟩ stepped
    intro i goes
    cases stays.symm.trans goes

/-- An event does nothing but what `Move` says. -/
theorem Move.of_step? (h : step? p s e = some s') : Move p s e s' := by
  cases e with
  | start r => exact .of_alone rfl h
  | arm => exact .of_alone rfl h
  | spawn =>
      simp only [step?] at h
      split at h
      · rename_i armed
        rcases onListener_eq_some h with ⟨l, heard, rfl⟩
        exact .brought armed heard
      · cases h
  | stopListener => exact .of_alone rfl h
  | stopCrew =>
      rcases Option.map_eq_some_iff.1 h with ⟨crew, stopped, rfl⟩
      exact .crewStopped stopped
  | loop =>
      simp only [step?] at h
      split at h
      · rename_i may
        exact .of_loopStep may h
      · cases h
  | complete r =>
      -- An accept that brings a connection is the server's; one that fails is its listener's alone.
      cases r with
      | ok w =>
          rcases Option.map_eq_some_iff.1 h with ⟨s₁, listened, rfl⟩
          rcases onListener_eq_some listened with ⟨l, heard, rfl⟩
          exact .completed heard
      | error e => exact .of_alone rfl h
  | exchange e => exact .of_exchange h
  | leave j =>
      simp only [step?] at h
      split at h
      · rename_i t tenant
        split at h
        · rename_i done
          split at h <;> cases h
          rename_i leave
          exact .left tenant done leave
        · cases h
      · cases h
  | discard j =>
      simp only [step?] at h
      split at h
      · rename_i t tenant joining
        cases t with
        | loop =>
            rcases onListener_eq_some h with ⟨l, heard, rfl⟩
            exact .loopDropped tenant joining heard
        | exchange i =>
            rcases dropExchange_eq_some h with ⟨xs, dropped, rfl⟩
            exact .exchangeDropped tenant joining dropped
      · cases h
  | joined =>
      rcases Option.map_eq_some_iff.1 h with ⟨crew, gone, rfl⟩
      exact .crewGone gone

end Server
end LineExchange
