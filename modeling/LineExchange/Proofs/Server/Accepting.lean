import LineExchange.Proofs.Server.Handing

/-!
# Accepting — every accept is accounted for, and no error ends the loop

A loop goes on, whatever its accepts bring, until somebody asks it to stop or its crew goes down.
This file defines:

* `Server.issued` — how often the loop issued an accept in a run;
* `Server.Unbroken` — a loop that nobody asked to stop, on a crew that is there, is not leaving;
* `Server.Posted` — the loop is a job of the crew at most once;
* `Server.failedRound` and `Server.withFailures` — an accept that fails, up to the next one, and the
  server behind it.

They are kept by every move, so they hold after every run; and however many accepts fail in a row, a
loop that nobody asked to stop accepts again (`run?_failedRounds`).
-/

namespace LineExchange
namespace Server

variable {p : Responder} {s s' : Server} {e : Event}

/-! ## The loop goes on -/

/-- A loop that nobody asked to stop is not leaving, as long as the crew is there. -/
def Unbroken (s : Server) : Prop :=
  s.listener.stopped = false → s.crew.isUp = true → s.listener.loop.isLeaving = false

/-- A crew that is there was there before. -/
theorem isUp_of_move (move : Move p s e s') (up : s'.crew.isUp = true) : s.crew.isUp = true := by
  cases move with
  | brought =>
      have closing := (bring_spec s .loop).2.2.2
      simpa [Crew.isUp, closing] using up
  | @engaged w =>
      have closing := (engage_spec s w).2.2.2
      simpa [Crew.isUp, closing] using up
  | crewStopped stopped => cases Crew.Move.of_step? stopped with
      | stopped => cases up
  | left _ _ leave =>
      have closing := (Crew.of_finish_leave leave).2
      simpa [Crew.isUp, closing] using up
  | crewGone gone => cases Crew.Move.of_step? gone with
      | gone => cases up
  | _ => exact up

/-- The loop is dropped, or turned away, only by a crew that is not there. -/
theorem isUp_of_heard (move : Move p s e s') {e' : Listener.Event} (heard : s.heard e = some e')
    (lost : e' = .drop ∨ e' = .spawn false) : s.crew.isUp = false := by
  cases move with
  | @alone e _ l of =>
      cases e with
      | complete r => cases r <;> cases heard <;> simp at lost
      | start | arm | stopListener =>
          cases heard
          simp at lost
      | _ => cases of
  | brought =>
      cases heard
      simpa using lost
  | loopDropped _ joining => simp [Crew.isUp, joining]
  | exchangeDropped tenant => simp [Server.heard, tenant] at heard
  | completed | engaged | acceptFailed | looped =>
      cases heard
      simp at lost
  | crewStopped | exchanged | left | crewGone => cases heard

/-- Every move leaves a loop unbroken. -/
theorem Unbroken.of_move (h : Unbroken s) (move : Move p s e s') : Unbroken s' := by
  intro unasked up
  have upBefore := isUp_of_move move up
  apply Bool.eq_false_iff.2
  intro leaving
  rcases step?_of_heard move with ⟨e', heard, own⟩ | ⟨-, same⟩
  · have unaskedBefore : s.listener.stopped = false := by
      apply Bool.eq_false_iff.2
      intro asked
      simp [Contended.stopped_of_step? own asked] at unasked
    rcases (Listener.Move.of_step? own).isLeaving unasked leaving with before | lost
    · simp [h unaskedBefore upBefore] at before
    · simp [isUp_of_heard move heard lost] at upBefore
  · rw [same] at unasked leaving
    simp [h unasked upBefore] at leaving

/-- The loop is a job of the crew at most once, and not before it is brought to it. -/
structure Posted (s : Server) : Prop where
  fresh : s.listener.loop.isSpawned = false → .loop ∉ s.tenants
  once : ∀ i j : Nat, s.tenants[i]? = some .loop → s.tenants[j]? = some .loop → i = j

namespace Posted

theorem start (threads : Nat) : Posted (onCrew (.ofSize threads)) where
  fresh _ := by simp [onCrew]
  once i j hget := by simp [onCrew] at hget

theorem keep (h : Posted s) (tenants : s'.tenants = s.tenants)
    (spawned : s'.listener.loop.isSpawned = false → s.listener.loop.isSpawned = false) :
    Posted s' := by
  rcases h with ⟨fresh, once⟩
  rw [← tenants] at fresh once
  exact ⟨fun unspawned => fresh (spawned unspawned), once⟩

/-- One more job comes to the crew; it is the loop only if the loop had none. -/
theorem grow {t : Tenant} (h : Posted s) (tenants : s'.tenants = s.tenants ++ [t])
    (first : t = .loop → .loop ∉ s.tenants)
    (spawned : s'.listener.loop.isSpawned = false →
      t ≠ .loop ∧ s.listener.loop.isSpawned = false) : Posted s' where
  fresh unspawned := by
    rcases spawned unspawned with ⟨other, before⟩
    rw [tenants, List.mem_append, List.mem_singleton, not_or]
    exact ⟨h.fresh before, Ne.symm other⟩
  once i j hget hget' := by
    have place (k : Nat) (here : s'.tenants[k]? = some .loop) :
        s.tenants[k]? = some .loop ∨ k = s.tenants.length ∧ t = .loop := by
      rw [tenants, List.getElem?_append] at here
      split at here
      · exact .inl here
      · rw [List.getElem?_singleton] at here
        split at here <;> cases here
        exact .inr ⟨by omega, rfl⟩
    rcases place i hget with old | ⟨rfl, own⟩ <;> rcases place j hget' with old' | ⟨rfl, own'⟩
    · exact h.once i j old old'
    · exact absurd (List.mem_of_getElem? old) (first own')
    · exact absurd (List.mem_of_getElem? old') (first own)
    · rfl

/-- A loop that was brought to the crew stays so. -/
theorem isSpawned_of_step? {l l' : Listener} {e' : Listener.Event} (shows : l.Shows)
    (heard : l.step? e' = some l') (unspawned : l'.loop.isSpawned = false) :
    l.loop.isSpawned = false := by
  cases Listener.Move.of_step? heard with
  | started created => rw [shows.created created]; rfl
  | refused => exact unspawned
  | stopped => exact unspawned
  | armed opened => rw [opened]; rfl
  | _ => cases unspawned

theorem of_move (h : Posted s) (shows : s.listener.Shows) (move : Move p s e s') : Posted s' := by
  cases move with
  | alone of heard => exact h.keep rfl (isSpawned_of_step? shows heard)
  | completed heard => exact h.keep rfl (isSpawned_of_step? shows heard)
  | @brought l armed heard =>
      have unposted := h.fresh (by rw [armed]; rfl)
      have spawned : l.loop.isSpawned = true := by
        generalize s.crew.isUp = up at heard
        cases Listener.Move.of_step? heard <;> rfl
      exact h.grow (bring_spec s .loop).2.1 (fun _ => unposted) (by simp [spawned])
  | @engaged w l may accepted incoming heard =>
      refine h.grow (exchanges_engage s w).1 (by simp) ?_
      intro unspawned
      exact ⟨by simp, isSpawned_of_step? shows heard unspawned⟩
  | acceptFailed may failed heard => exact h.keep rfl (isSpawned_of_step? shows heard)
  | looped may noAccept heard => exact h.keep rfl (isSpawned_of_step? shows heard)
  | loopDropped tenant joining heard => exact h.keep rfl (isSpawned_of_step? shows heard)
  | crewStopped | exchanged | left | exchangeDropped | crewGone => exact h.keep rfl id

/-- The job of a loop that is with the crew may work. -/
theorem mayWork (h : Posted s) (housed : Housed s)
    (running : s.listener.loop.isRunning = true) : s.mayWork .loop = true := by
  rcases housed.home running with ⟨j, tenant, live⟩
  have here : s.crew.closing ≠ .closed := by
    intro gone
    simp [housed.gone gone] at running
  have works : (s.crew.step? (.work j)).isSome = true := by
    simp only [Crew.step?, live]
    cases closing : s.crew.closing <;> simp_all
  cases found : s.tenants.findIdx? (· == .loop) with
  | none =>
      have absent := List.findIdx?_eq_none_iff.1 found _ (List.mem_of_getElem? tenant)
      simp at absent
  | some i =>
      rcases List.findIdx?_eq_some_iff_getElem.1 found with ⟨lt, first, -⟩
      have same : i = j := by
        refine h.once i j ?_ tenant
        rw [List.getElem?_eq_getElem lt, eq_of_beq first]
      simp only [Server.mayWork, found, same]
      exact works

end Posted

/-! ## Errors in a row -/

/-- An accept fails, and the loop goes on until it accepts again. -/
def failedRound (err : IoError) : List Event :=
  [.complete (.error err), .loop, .loop, .loop]

def withFailures (s : Server) (n : Nat) : Server :=
  { s with
    exchanges :=
      { s.exchanges with
        traffic :=
          { s.exchanges.traffic with
            acceptErrors := s.exchanges.traffic.acceptErrors + .ofNat n } } }

theorem step?_loop (may : s.mayWork .loop = true) : step? p s .loop = s.loopStep :=
  if_pos may

/-- A loop that nobody asked to stop accepts again behind a failed accept, which is counted. -/
theorem run?_failedRound (threads : Nat) (err : IoError) (may : s.mayWork .loop = true)
    (accepting : s.listener.loop = .accepting) (pending : s.listener.pending = 1)
    (unasked : s.listener.stopped = false) :
    (machine p threads).run? s (failedRound err) = some (s.withFailures 1) := by
  -- Only the listener and the counters change, so the workers may go on with the loop throughout.
  let listening (loop : Listener.Loop) : Listener := { s.listener with pending := 0, loop := loop }
  have failed : step? p s (.complete (.error err)) =
      some { s with listener := listening (.completed false) } := by
    simp [step?, onListener, Listener.step?, accepting, pending, listening]
  have counted : step? p { s with listener := listening (.completed false) } .loop =
      some { s.withFailures 1 with listener := listening .checking } := by
    rw [step?_loop (by exact may)]
    rfl
  have checked : step? p { s.withFailures 1 with listener := listening .checking } .loop =
      some { s.withFailures 1 with listener := listening .ready } := by
    rw [step?_loop (by exact may)]
    simp [loopStep, onListener, Listener.step?, Listener.loopStep, listening, unasked]
  have issued : step? p { s.withFailures 1 with listener := listening .ready } .loop =
      some (s.withFailures 1) := by
    have back : { listening .ready with pending := 1, loop := .accepting } = s.listener := by
      rw [← pending, ← accepting]
    rw [step?_loop (by exact may)]
    simp only [loopStep, onListener, Listener.step?, Listener.loopStep, listening, Option.map_some,
      Nat.zero_add] at back ⊢
    rw [back]
    rfl
  simp [failedRound, machine, failed, counted, checked, issued]

/-- However many accepts fail in a row, a loop that nobody asked to stop accepts again. -/
theorem run?_failedRounds (threads : Nat) (may : s.mayWork .loop = true)
    (accepting : s.listener.loop = .accepting) (pending : s.listener.pending = 1)
    (unasked : s.listener.stopped = false) (errs : List IoError) :
    (machine p threads).run? s (errs.flatMap failedRound) = some (s.withFailures errs.length) := by
  -- By the errors: one more leaves a server that differs only in its count.
  induction errs generalizing s with
  | nil => simp [withFailures]
  | cons err errs ih =>
      have first := run?_failedRound (p := p) threads err may accepting pending unasked
      have more : (s.withFailures 1).withFailures errs.length =
          s.withFailures (err :: errs).length := by
        simp [withFailures, UInt64.ofNat_add, UInt64.add_assoc, UInt64.add_comm 1]
      rw [List.flatMap_cons, Machine.run?_append, first, Option.bind_some,
        ih (s := s.withFailures 1) may accepting pending unasked, more]

/-! ## Runs -/

variable {threads : Nat} {es fs : List Event} {t : Server}

def issued (p : Responder) (threads : Nat) (es : List Event) : Nat :=
  ((machine p threads).log (fun s e => if s.issues e then some e else none)
    (onCrew (.ofSize threads)) es).length

/-- A move of the server keeps the listener's ledger. -/
theorem ledger_of_move {i c : Nat} (h : s.listener.Ledger i c) (shows : s.listener.Shows)
    (move : Move p s e s') :
    s'.listener.Ledger (i + (s.issues e).toNat) (c + e.isCompletion.toNat) := by
  rcases step?_of_heard move with ⟨e', heard, own⟩ | ⟨unheard, same⟩
  · rcases completes_of_heard heard with ⟨completes, issues⟩
    rw [← completes, ← issues]
    exact h.of_move shows (.of_step? own)
  · rcases quiet_of_unheard unheard with ⟨completes, issues, -⟩
    rw [completes, issues, same]
    exact h

/-- In every run what came of the accepts is handed on, no accept was issued before the last one
was completed, and the loop goes on as long as nobody asks it to stop. -/
theorem accepts_of_run (run : (machine p threads).run? (onCrew (.ofSize threads)) es = some s) :
    Handed p (connections es) (failures es) s ∧
      s.listener.Ledger (issued p threads es) (es.countP Event.isCompletion) ∧
      Unbroken s ∧ Posted s := by
  refine Machine.run?_induction (motive := fun es s =>
    Handed p (connections es) (failures es) s ∧
      s.listener.Ledger (issued p threads es) (es.countP Event.isCompletion) ∧
      Unbroken s ∧ Posted s) ?_ ?_ run
  · exact ⟨.start p threads, Listener.ledger_fresh, fun _ _ => rfl, .start threads⟩
  · intro es s s' e run last ih
    rcases ih with ⟨handed, ledger, unbroken, posted⟩
    have shows := (listener_of_run run).1
    have move : Move p s e s' := .of_step? last
    -- What the longer run counts is what the shorter one counted and what the last event adds.
    have came : connections (es ++ [e]) = connections es ++ e.connection?.toList := by
      simp only [connections, List.filterMap_append, List.filterMap_cons, List.filterMap_nil]
      cases e.connection? <;> rfl
    have failed : failures (es ++ [e]) = failures es + e.isFailedAccept.toNat := by
      simp only [failures, List.countP_append, List.countP_singleton]
      cases e.isFailedAccept <;> rfl
    have completed : (es ++ [e]).countP Event.isCompletion =
        es.countP Event.isCompletion + e.isCompletion.toNat := by
      simp only [List.countP_append, List.countP_singleton]
      cases e.isCompletion <;> rfl
    have issues : issued p threads (es ++ [e]) = issued p threads es + (s.issues e).toNat := by
      simp only [issued, Machine.log_concat _ run last, List.length_append]
      cases s.issues e <;> rfl
    rw [came, failed, completed, issues]
    exact ⟨handed.of_move shows move, ledger_of_move ledger shows move, unbroken.of_move move,
      posted.of_move shows move⟩

/-- A flag that was raised stays so. -/
theorem stopped_of_move (move : Move p s e s') (asked : s.listener.stopped = true) :
    s'.listener.stopped = true := by
  rcases step?_of_heard move with ⟨e', -, own⟩ | ⟨-, same⟩
  · exact Contended.stopped_of_step? own asked
  · rw [same]
    exact asked

/-- A listener that was asked to stop in a run has its flag raised. -/
theorem stopped_of_run (run : (machine p threads).run? (onCrew (.ofSize threads)) es = some s)
    (asked : .stopListener ∈ es) : s.listener.stopped = true := by
  refine Machine.run?_induction (motive := fun es s => .stopListener ∈ es →
    s.listener.stopped = true) (by simp) ?_ run asked
  intro es s s' e _ last ih mem
  rcases List.mem_append.1 mem with earlier | now
  · exact stopped_of_move (.of_step? last) (ih earlier)
  · obtain rfl : Event.stopListener = e := by simpa using now
    cases last
    rfl

/-- Behind a stop at most one more accept is completed, and none is issued when one was. -/
theorem completions_of_asked (shows : s.listener.Shows) (asked : s.listener.stopped = true)
    (run : (machine p threads).run? s fs = some t) :
    t.listener.loop.toComplete + fs.countP Event.isCompletion ≤ 1 := by
  have bounded := Machine.add_countP_le_of_run (m := machine p threads)
    (fun s => s.listener.loop.toComplete) Event.isCompletion
    (fun s => s.listener.Shows ∧ s.listener.stopped = true)
    ?_ ?_ ⟨shows, asked⟩ run
  · exact Nat.le_trans bounded.2 s.listener.loop.toComplete_le_one
  · rintro s s' e ⟨shows, asked⟩ step
    have move : Move p s e s' := .of_step? step
    exact ⟨(shows_of_move shows move).1, stopped_of_move move asked⟩
  · rintro s s' e ⟨shows, asked⟩ step
    have move : Move p s e s' := .of_step? step
    rcases step?_of_heard move with ⟨e', heard, own⟩ | ⟨unheard, same⟩
    · rw [← (completes_of_heard heard).1]
      exact (Listener.Move.of_step? own).add_le_of_asked shows asked
    · rw [(quiet_of_unheard unheard).1, same]
      exact Nat.le_refl _

/-- A loop that may complete no more accept neither has one under way nor issues one. -/
theorem idle_of_toComplete {n : Nat} {l : Listener.Loop} (le : l.toComplete + n ≤ 1) (one : n = 1) :
    l ≠ .ready ∧ l ≠ .accepting := by
  constructor <;> rintro rfl <;> simp [one, Listener.Loop.toComplete] at le

/-- The connection that came is handed to an exchange in the next step of the loop, which may be
taken. -/
theorem exists_engaged {w : Wire} (handed : Handed p (connections es) (failures es) s)
    (posted : Posted s) (housed : Housed s) (incoming : s.incoming = some w) :
    ∃ s', step? p s .loop = some s' ∧ s'.listener.loop = .checking ∧ s'.incoming = none ∧
      s'.exchanges.all.length = s.exchanges.all.length + 1 := by
  have hloop : s.listener.loop = .completed true := handed.incoming.1 (by simp [incoming])
  have may : s.mayWork .loop = true := posted.mayWork housed (by rw [hloop]; rfl)
  have heard : s.listener.step? .step = some { s.listener with loop := .checking } := by
    simp [Listener.step?, Listener.loopStep, hloop]
  refine ⟨{ s.engage w with listener := { s.listener with loop := .checking } }, ?_, rfl,
    incoming_engage s w, ?_⟩
  · rw [step?_loop may]
    simp [loopStep, hloop, incoming, onListener, (engage_spec s w).1, heard]
  · rcases exchanges_engage s w with ⟨-, -, up, down⟩
    cases isUp : s.crew.isUp with
    | true => simp [up isUp, Exchanges.accept]
    | false =>
        rcases Option.bind_eq_some_iff.1 (down isUp) with ⟨x, -, hput⟩
        rcases Option.map_eq_some_iff.1 hput with ⟨r, -, same⟩
        simp [← same, Exchanges.put, Exchanges.accept]

/-- When no accept is to be accounted for, each connection has its exchange, and the counters of
connections and errors have all the accepts that were completed. -/
theorem traffic_of_handed (handed : Handed p (connections es) (failures es) s)
    (between : ∀ ok, s.listener.loop ≠ .completed ok) :
    s.exchanges.all.length = (connections es).length ∧
      s.exchanges.traffic.acceptErrors = .ofNat (failures es) ∧
      s.exchanges.traffic.accepted + s.exchanges.traffic.acceptErrors =
        .ofNat (es.countP Event.isCompletion) := by
  rcases handed with ⟨waits, fs, own, accepted, failed⟩
  have accounts := Exchanges.accounts_of_run own
  -- Between two accepts no connection waits for its exchange.
  have nothing : s.incoming = none := by simpa [between] using waits
  have begun (gs : List Exchanges.Event) :
      (gs.filterMap Exchanges.Event.wire?).length = gs.countP Exchanges.Event.isAccept := by
    rw [List.length_filterMap_eq_countP]
    refine List.countP_congr ?_
    intro g _
    cases g <;> simp [Exchanges.Event.wire?, Exchanges.Event.isAccept]
  have created : fs.countP Exchanges.Event.isAccept = (connections es).length := by
    rw [← begun, ← accepted, nothing]
    simp
  have counted : fs.countP Exchanges.Event.isFailure = failures es := by
    simpa [between] using failed
  refine ⟨accounts.created.trans created, counted ▸ accounts.acceptErrors, ?_⟩
  rw [accounts.accepted, accounts.acceptErrors, created, counted, countP_isCompletion,
    UInt64.ofNat_add]

/-- In every run of a server, whatever its accepts bring and whenever its listener is stopped: each
connection that was accepted has one exchange, in their order, but for one that just came, which is
handed to its exchange in the next step of the loop, and that step may be taken; each failed accept
was counted once, but for one that just failed; and so between two accepts as many were completed as
the counters of connections and of errors have together.  As long as nobody asked the listener to
stop and its crew is there, the loop is not leaving, and however many accepts fail in a row, it
accepts again.  An accept is issued only when all before it were completed.  Behind a stop at most
one more accept is completed, and when one was, none is issued any more.  Before the listener says
that it is closed, its socket is.  The bound behind a stop holds as soon as the flag is raised, when
a stopper takes two writes. -/
theorem accepts_are_accounted_for (p : Responder) (threads : Nat) :
    (∀ (es : List Event) (s : Server),
      (machine p threads).run? (onCrew (.ofSize threads)) es = some s →
        ((∃ fs, (Exchanges.machine p).run? .fresh fs = some s.exchanges ∧
            fs.filterMap Exchanges.Event.wire? ++ s.incoming.toList = connections es ∧
            fs.countP Exchanges.Event.isFailure +
              (if s.listener.loop = .completed false then 1 else 0) = failures es) ∧
          (∀ w, s.incoming = some w → ∃ s', step? p s .loop = some s' ∧
            s'.listener.loop = .checking ∧ s'.incoming = none ∧
            s'.exchanges.all.length = s.exchanges.all.length + 1) ∧
          ((∀ ok, s.listener.loop ≠ .completed ok) →
            s.exchanges.all.length = (connections es).length ∧
            s.exchanges.traffic.acceptErrors = .ofNat (failures es) ∧
            s.exchanges.traffic.accepted + s.exchanges.traffic.acceptErrors =
              .ofNat (es.countP Event.isCompletion))) ∧
        (s.listener.stopped = false → s.crew.isUp = true →
          s.listener.loop.isLeaving = false ∧
          (s.listener.loop = .accepting → ∀ errs : List IoError,
            (machine p threads).run? s (errs.flatMap failedRound) =
              some (s.withFailures errs.length))) ∧
        (es.countP Event.isCompletion ≤ issued p threads es ∧
          issued p threads es ≤ es.countP Event.isCompletion + 1 ∧
          (s.listener.loop = .ready → issued p threads es = es.countP Event.isCompletion)) ∧
        (.stopListener ∈ es → ∀ (fs : List Event) (t : Server),
          (machine p threads).run? s fs = some t →
            fs.countP Event.isCompletion ≤ 1 ∧
            (fs.countP Event.isCompletion = 1 →
              t.listener.loop ≠ .ready ∧ t.listener.loop ≠ .accepting)) ∧
        ∀ (e : Event) (s' : Server), step? p s e = some s' → s'.listener.phase = .closed →
          s.listener.socketOpen = false) ∧
    ∀ (es : List Contended.Event) (c : Contended), Contended.machine.run? .fresh es = some c →
      c.listener.stopped = true → ∀ (fs : List Contended.Event) (d : Contended),
        Contended.machine.run? c fs = some d →
          fs.countP Contended.Event.completes ≤ 1 ∧
          (fs.countP Contended.Event.completes = 1 →
            d.listener.loop ≠ .ready ∧ d.listener.loop ≠ .accepting) := by
  refine ⟨?_, ?_⟩
  · intro es s run
    rcases accepts_of_run run with ⟨handed, ledger, unbroken, posted⟩
    rcases listener_of_run run with ⟨shows, housed, -⟩
    refine ⟨⟨handed.exchanges, fun w => exists_engaged handed posted housed, traffic_of_handed handed⟩,
      ?_, ⟨ledger.le, ledger.le_succ, ?_⟩, ?_, ?_⟩
    · intro unasked up
      refine ⟨unbroken unasked up, ?_⟩
      intro accepting
      have pending : s.listener.pending = 1 := by simpa [accepting] using shows.pending
      have may : s.mayWork .loop = true := posted.mayWork housed (by rw [accepting]; rfl)
      exact run?_failedRounds threads may accepting pending unasked
    · intro ready
      exact ledger.settled (by rw [ready]; rfl)
    · intro asked fs t later
      have le := completions_of_asked shows (stopped_of_run run asked) later
      exact ⟨by omega, idle_of_toComplete le⟩
    · intro e s' step closed
      -- An event of the server is one of its listener, or it leaves the listener as it is.
      rcases step?_of_heard (.of_step? step) with ⟨e', -, own⟩ | ⟨-, same⟩
      · exact shows.socket_of_move (.of_step? own) closed
      · rw [same] at closed
        exact shows.socket_of_move (e := .stop) .stopped (by simp [Listener.stop, closed])
  · intro es c run asked fs d later
    have le := Contended.add_countP_le_of_asked (Contended.kept_of_run run).1 asked later
    have bounded := Nat.le_trans le c.listener.loop.toComplete_le_one
    exact ⟨by omega, idle_of_toComplete bounded⟩

/-- An accept fails, and the listener is stopped while the next is under way, which brings a
connection. -/
def lateAcceptRun : List Event :=
  [.start (.ok (.v4 ⟨127, 0, 0, 1⟩ 7000)), .arm, .spawn, .loop, .loop,
    .complete (.error (.bare .connectionAborted)), .loop, .loop, .loop, .stopListener]

def lateAcceptRest : List Event :=
  [.complete (.ok .blank), .loop, .loop, .loop, .loop, .loop]

theorem accounted_of_lateAcceptRun :
    ∃ s t, (machine id 1).run? (onCrew (.ofSize 1)) lateAcceptRun = some s ∧
      (machine id 1).run? s lateAcceptRest = some t ∧
      lateAcceptRest.countP Event.isCompletion = 1 ∧ t.listener.loop ≠ .accepting ∧
      t.exchanges.all.length = 1 ∧
      t.exchanges.traffic.accepted + t.exchanges.traffic.acceptErrors = 2 := by
  obtain ⟨s, run⟩ : ∃ s, (machine id 1).run? (onCrew (.ofSize 1)) lateAcceptRun = some s :=
    ⟨_, rfl⟩
  obtain ⟨t, rest⟩ : ∃ t, (machine id 1).run? s lateAcceptRest = some t := by
    cases run
    exact ⟨_, rfl⟩
  have whole : (machine id 1).run? (onCrew (.ofSize 1)) (lateAcceptRun ++ lateAcceptRest) =
      some t := by
    rw [Machine.run?_append, run]
    exact rest
  have finished : t.listener.loop = .finished := by
    cases run
    cases rest
    rfl
  have haccounts := (accepts_are_accounted_for id 1).1
  rcases haccounts _ s run with ⟨-, -, -, behind, -⟩
  rcases haccounts _ t whole with ⟨⟨-, -, counted⟩, -⟩
  rcases counted (by simp [finished]) with ⟨created, -, sum⟩
  exact ⟨s, t, run, rest, rfl, ((behind (by simp [lateAcceptRun]) _ t rest).2 rfl).2, created, sum⟩

end Server
end LineExchange
