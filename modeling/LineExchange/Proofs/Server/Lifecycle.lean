import LineExchange.Proofs.Server.Contention

/-!
# Lifecycle — a listener goes one way, and accepts one connection at a time

Starters, stoppers and the loop write the phase, the flag and the count of accepts in different
steps and in any order.  This file defines:

* `Listener.Phase.Passes` — how a phase may pass into another;
* `Listener.Flagged` — how the flag agrees with the phase while nobody holds the lock;
* `Contended.starts`, `Contended.WasDropped` — the answers to those who started the listener, and
  whether its loop was dropped while it accepted;
* `Contended.Begun`, `Contended.Interrupted` — how these agree with where the loop stands.

All of them are kept by every move, so they hold after every run, however starters, stoppers, the
loop and the workers follow upon each other.
-/

namespace LineExchange

namespace Listener

/-! ## Phases -/

/-- A phase may pass into another, when the loop is with the workers and not over, or not. -/
inductive Phase.Passes (live : Bool) : Phase → Phase → Prop where
  | stays (p : Phase) : Passes live p p
  | listens : Passes live .created .listening
  | accepts : Passes live .listening .accepting
  | stops : Passes live .accepting .stopping
  | stopsEarly : Passes live .listening .stopping
  | neverStarted : Passes live .created .closed
  | ends {p : Phase} (running : live = true) : Passes live p .closed

variable {live : Bool} {p q : Phase} {l l' : Listener} {e : Event}

theorem Phase.Passes.rank_le (h : p.Passes live q) : p.rank ≤ q.rank := by
  cases h with
  | stays => exact Nat.le_refl _
  | ends => cases p <;> decide
  | _ => decide

theorem Phase.Passes.eq_closed (h : Phase.closed.Passes live q) : q = .closed := by
  cases h <;> rfl

theorem passes_stop (l : Listener) : l.phase.Passes live l.stop.phase := by
  cases phase : l.phase <;> simp only [Listener.stop, phase] <;> constructor

/-- Every move leaves the phase as it is or passes it on. -/
theorem Move.passes (move : Move l e l') : l.phase.Passes l.loop.isRunning l'.phase := by
  cases move with
  | started created =>
      rw [created]
      exact .listens
  | armed opened =>
      by_cases listening : l.phase = .listening
      · simp only [listening, if_true]
        exact .accepts
      · simp only [if_neg listening]
        exact .stays _
  | stopped => exact passes_stop l
  | marks marking => exact .ends (by rw [marking]; rfl)
  | _ => exact .stays _

/-! ## The flag -/

/-- The flag is raised only in the last two phases, and always in the first of them. -/
structure Flagged (l : Listener) : Prop where
  late : l.stopped = true → l.phase = .stopping ∨ l.phase = .closed
  stopping : l.phase = .stopping → l.stopped = true

theorem Flagged.of_move (h : Flagged l) (move : Move l e l') : Flagged l' := by
  rcases h with ⟨late, stopping⟩
  cases move with
  | started created =>
      -- A listener that was stopped before it was started is not created any more.
      have unasked : l.stopped ≠ true := by
        intro asked
        have passed := late asked
        simp [created] at passed
      exact ⟨fun asked => absurd asked unasked, by simp⟩
  | armed opened =>
      by_cases listening : l.phase = .listening
      · have unasked : l.stopped ≠ true := by
          intro asked
          have passed := late asked
          simp [listening] at passed
        exact ⟨fun asked => absurd asked unasked, by simp [listening]⟩
      · simp only [if_neg listening]
        exact ⟨late, stopping⟩
  | stopped =>
      refine ⟨fun _ => ?_, fun _ => rfl⟩
      cases phase : l.phase <;> simp [Listener.stop, phase]
  | marks => exact ⟨fun _ => .inr rfl, by simp⟩
  | _ => exact ⟨late, stopping⟩

theorem flagged_of_reachable (reachable : machine.Reachable l) : Flagged l := by
  induction reachable with
  | here =>
      have unasked : fresh.stopped = false := rfl
      exact ⟨by simp [machine, unasked], by simp [machine, fresh]⟩
  | step _ next ih => exact ih.of_move (.of_step? next)

end Listener

namespace Contended

variable {c c' d : Contended} {es fs : List Event}

/-! ## What a listener shows while it is stopped -/

theorem shows_of_step? {e : Event} (shows : c.listener.Shows) (h : c.step? e = some c') :
    c'.listener.Shows := by
  cases Move.of_step? h with
  | raised => exact ⟨shows.pending, shows.atMostOne, shows.socket, shows.created, shows.closed⟩
  | turned =>
      have stopped := shows.stop
      exact ⟨stopped.pending, stopped.atMostOne, stopped.socket, stopped.created, stopped.closed⟩
  | moved noStop free heard => exact shows.of_move (.of_step? heard)

/-- Every event leaves the phase as it is or passes it on, and never clears the flag. -/
theorem passes_of_step? {e : Event} (h : c.step? e = some c') :
    c.listener.phase.Passes c.listener.loop.isRunning c'.listener.phase ∧
      (c.listener.stopped = true → c'.listener.stopped = true) := by
  cases Move.of_step? h with
  | raised => exact ⟨.stays _, fun _ => rfl⟩
  | turned => exact ⟨Listener.passes_stop c.listener, id⟩
  | moved noStop free heard =>
      exact ⟨(Listener.Move.of_step? heard).passes, stopped_of_step? heard⟩

/-- However a run goes on, the phase goes forward only, and stays closed when it is closed. -/
theorem rank_le_of_run (run : machine.run? c fs = some d) :
    c.listener.phase.rank ≤ d.listener.phase.rank ∧
      (c.listener.phase = .closed → d.listener.phase = .closed) := by
  refine Machine.run?_induction (motive := fun _ d =>
    c.listener.phase.rank ≤ d.listener.phase.rank ∧
      (c.listener.phase = .closed → d.listener.phase = .closed)) ⟨Nat.le_refl _, id⟩ ?_ run
  intro _ t u e _ last ih
  have passes := (passes_of_step? last).1
  refine ⟨Nat.le_trans ih.1 passes.rank_le, ?_⟩
  intro closed
  have before := ih.2 closed
  rw [before] at passes
  exact passes.eq_closed

/-! ## Who started the listener, and what became of its loop -/

/-- What somebody is answered who starts the listener. -/
def start? (c : Contended) : Event → Option (Except Listener.StartError Listener)
  | .other (.start r) => some (c.listener.begin r)
  | _ => none

def starts (es : List Event) : List (Except Listener.StartError Listener) :=
  machine.log start? fresh es

def Event.isSpawn : Event → Bool
  | .other (.spawn _) => true
  | _ => false

def DropsAccept (c : Contended) : Event → Prop
  | .other .drop => c.listener.loop = .accepting
  | _ => False

def WasDropped (es : List Event) : Prop :=
  machine.Happens DropsAccept fresh es

/-- Where the loop stands agrees with whether it was dropped while it accepted. -/
structure Interrupted (dropped : Prop) (l : Listener) : Prop where
  behind : dropped → l.loop = .clearing ∨ l.loop = .marking ∨ l.loop = .finished
  clearing : l.loop = .clearing → (l.pending = 1 ↔ dropped)

/-- Where the loop stands agrees with how often the listener was started, and with how often the
loop was brought to the workers. -/
structure Begun (started spawned : Nat) (l : Listener) : Prop where
  started : started = if l.loop = .absent then 0 else 1
  spawned : spawned = if l.loop.isSpawned then 1 else 0

variable {l l' : Listener} {e : Listener.Event} {dropped dropped' : Prop} {started spawned : Nat}

namespace Interrupted

/-- What leaves the loop and the count of accepts alone keeps the agreement. -/
theorem congr (h : Interrupted dropped l) (loop : l'.loop = l.loop)
    (pending : l'.pending = l.pending) (same : dropped' ↔ dropped) : Interrupted dropped' l' := by
  constructor
  · rw [same, loop]
    exact h.behind
  · rw [same, loop, pending]
    exact h.clearing

/-- A loop that is still to clear up was not dropped while it accepted. -/
theorem of_early (h : Interrupted dropped l) (later : dropped' → dropped)
    (early : l.loop ≠ .clearing ∧ l.loop ≠ .marking ∧ l.loop ≠ .finished)
    (elsewhere : l'.loop ≠ .clearing) : Interrupted dropped' l' := by
  have spared : ¬dropped' := by
    intro past
    rcases h.behind (later past) with hloop | hloop | hloop
    · exact early.1 hloop
    · exact early.2.1 hloop
    · exact early.2.2 hloop
  exact ⟨fun past => absurd past spared, fun hloop => absurd hloop elsewhere⟩

/-- Every move of the listener keeps the agreement. -/
theorem of_move (h : Interrupted dropped l) (shows : l.Shows) (move : Listener.Move l e l') :
    Interrupted (dropped ∨ DropsAccept ⟨l, false⟩ (.other e)) l' := by
  have onlyBefore (other : ¬DropsAccept ⟨l, false⟩ (.other e)) :
      dropped ∨ DropsAccept ⟨l, false⟩ (.other e) → dropped := by
    intro past
    exact past.resolve_right other
  cases move with
  | started created =>
      exact h.of_early (onlyBefore id) (by simp [shows.created created]) (by simp)
  | refused => simpa [DropsAccept] using h
  | armed opened => exact h.of_early (onlyBefore id) (by simp [opened]) (by simp)
  | brought armed => exact h.of_early (onlyBefore id) (by simp [armed]) (by simp)
  | turnedAway armed => exact h.of_early (onlyBefore id) (by simp [armed]) (by simp)
  | stopped =>
      have noDrop : ¬DropsAccept ⟨l, false⟩ (.other .stop) := id
      exact h.congr rfl rfl (by simp [noDrop])
  | polled queued => exact h.of_early (onlyBefore id) (by simp [queued]) (by simp)
  | accepts ready => exact h.of_early (onlyBefore id) (by simp [ready]) (by simp)
  | completed accepting => exact h.of_early (onlyBefore id) (by simp [accepting]) (by simp)
  | accounted completed => exact h.of_early (onlyBefore id) (by simp [completed]) (by simp)
  | goesOn checking => exact h.of_early (onlyBefore id) (by simp [checking]) (by simp)
  | leaves checking => exact h.of_early (onlyBefore id) (by simp [checking]) (by simp)
  | lost queued =>
      have idle : ¬DropsAccept ⟨l, false⟩ (.other .drop) := by simp [DropsAccept, queued]
      exact h.of_early (onlyBefore idle) (by simp [queued]) (by simp)
  | closes leaving =>
      -- A loop that leaves by itself completed its last accept.
      have spared : ¬dropped := by
        intro past
        simpa [leaving] using h.behind past
      have idle : l.pending = 0 := by simpa [leaving] using shows.pending
      exact ⟨fun _ => .inl rfl, fun _ => by simp [idle, spared, DropsAccept]⟩
  | clears => exact ⟨fun _ => .inr (.inl rfl), fun hloop => by cases hloop⟩
  | marks => exact ⟨fun _ => .inr (.inr rfl), fun hloop => by cases hloop⟩
  | droppedAccepting accepting =>
      have busy : l.pending = 1 := by simpa [accepting] using shows.pending
      exact ⟨fun _ => .inl rfl, fun _ => by simp [busy, DropsAccept, accepting]⟩

end Interrupted

def succeeds (c : Contended) (e : Event) : Nat :=
  (c.start? e).toList.countP Except.isOk

/-- Every move of the listener keeps count of starts and of loops. -/
theorem Begun.of_move (h : Begun started spawned l) (shows : l.Shows)
    (move : Listener.Move l e l') :
    Begun (started + succeeds ⟨l, false⟩ (.other e))
      (spawned + if (Event.other e).isSpawn then 1 else 0) l' := by
  rcases h with ⟨rfl, rfl⟩
  cases move with
  | started created =>
      -- Only a listener that has no loop yet can be started.
      have absent := shows.created created
      constructor
      · simp [absent, succeeds, start?, Listener.begin, created, Except.isOk, Except.toBool]
      · simp [absent, Event.isSpawn, Listener.Loop.isSpawned]
  | refused begun =>
      constructor
      · simp [succeeds, start?, begun, Except.isOk, Except.toBool]
      · simp [Event.isSpawn]
  | stopped => exact ⟨rfl, rfl⟩
  | armed hloop | brought hloop | turnedAway hloop | polled hloop | accepts hloop
  | completed hloop | accounted hloop | goesOn hloop | leaves hloop | closes hloop | clears hloop
  | marks hloop | lost hloop
  | droppedAccepting hloop =>
      constructor
      · simp [hloop, succeeds, start?]
      · simp [hloop, Event.isSpawn, Listener.Loop.isSpawned]

/-! ## Runs -/

/-- In every run what a listener shows agrees with where its loop stands, with what became of the
loop, and with how often it was started and brought to the workers. -/
theorem kept_of_run (run : machine.run? fresh es = some c) :
    c.listener.Shows ∧ Interrupted (WasDropped es) c.listener ∧
      Begun ((starts es).countP Except.isOk) (es.countP Event.isSpawn) c.listener := by
  refine Machine.run?_induction (motive := fun es c =>
    c.listener.Shows ∧ Interrupted (WasDropped es) c.listener ∧
      Begun ((starts es).countP Except.isOk) (es.countP Event.isSpawn) c.listener) ?_ ?_ run
  · have spared : ¬WasDropped [] := Machine.not_happens_nil _ _ _
    exact ⟨Listener.shows_fresh, ⟨fun past => absurd past spared, fun hloop => by cases hloop⟩,
      ⟨rfl, rfl⟩⟩
  · intro es c c' e run last ih
    rcases ih with ⟨shows, interrupted, begun⟩
    have drops : WasDropped (es ++ [e]) ↔ WasDropped es ∨ DropsAccept c e :=
      Machine.happens_concat run
    have answers : (starts (es ++ [e])).countP Except.isOk =
        (starts es).countP Except.isOk + succeeds c e := by
      simp [starts, succeeds, Machine.log_concat start? run last]
    have brought : (es ++ [e]).countP Event.isSpawn =
        es.countP Event.isSpawn + if e.isSpawn then 1 else 0 := by
      simp
    refine ⟨shows_of_step? shows last, ?_⟩
    rw [drops, answers, brought]
    cases Move.of_step? last with
    | raised =>
        exact ⟨interrupted.congr rfl rfl (by simp [DropsAccept]), ⟨begun.started, begun.spawned⟩⟩
    | turned =>
        exact ⟨interrupted.congr rfl rfl (by simp [DropsAccept]), ⟨begun.started, begun.spawned⟩⟩
    | moved noStop free heard =>
        have own := Listener.Move.of_step? heard
        exact ⟨interrupted.of_move shows own, begun.of_move shows own⟩

/-- In every run of a listener, with stopping in two steps: at most one accept is under way, and
one is exactly while the loop accepts, or was dropped there and did not clear up yet; whatever
happens next passes the phase on as it may pass and keeps the flag, and whatever happens later
leads the phase forward and never out of the last one; while nobody holds the lock the flag is
raised only in the last two phases, and it always is in the first of them; the listener was started
with success at most once, its loop was brought to the workers at most once, who starts it later
is answered with its phase, and who fails to start it leaves everything as it was. -/
theorem goes_one_way_of_run (run : machine.run? fresh es = some c) :
    (c.listener.pending ≤ 1 ∧
      (c.listener.pending = 1 ↔
        c.listener.loop = .accepting ∨ c.listener.loop = .clearing ∧ WasDropped es)) ∧
    (∀ (e : Event) (c' : Contended), c.step? e = some c' →
      c.listener.phase.Passes c.listener.loop.isRunning c'.listener.phase ∧
        (c.listener.stopped = true → c'.listener.stopped = true)) ∧
    (∀ (fs : List Event) (d : Contended), machine.run? c fs = some d →
      c.listener.phase.rank ≤ d.listener.phase.rank ∧
        (c.listener.phase = .closed → d.listener.phase = .closed)) ∧
    ((c.stopping = false → c.listener.stopped = true →
        c.listener.phase = .stopping ∨ c.listener.phase = .closed) ∧
      (c.listener.phase = .stopping → c.listener.stopped = true)) ∧
    ((starts es).countP Except.isOk ≤ 1 ∧ es.countP Event.isSpawn ≤ 1 ∧
      ∀ r : Except IoError Endpoint,
        (c.listener.phase ≠ .created →
          c.listener.begin r = .error (.alreadyStarted c.listener.phase)) ∧
        ∀ err, c.listener.begin r = .error err →
          ∀ c', c.step? (.other (.start r)) = some c' → c' = c) := by
  rcases kept_of_run run with ⟨shows, interrupted, begun⟩
  rcases reachable_settled (Machine.reaches_iff_run?.2 ⟨es, run⟩) with ⟨raised, path⟩
  have flagged := Listener.flagged_of_reachable path
  refine ⟨⟨shows.atMostOne, ?_⟩, fun e c' => passes_of_step?, fun fs d => rank_le_of_run,
    ⟨?_, ?_⟩, ?_, ?_, ?_⟩
  · by_cases clearing : c.listener.loop = .clearing
    · simp [clearing, interrupted.clearing clearing]
    · have pending := shows.pending clearing
      by_cases accepting : c.listener.loop = .accepting <;> simp [pending, accepting, clearing]
  · intro free asked
    -- While nobody is within a stop, the listener is what the stopper will leave behind.
    have here : c.settled = c.listener := by simp [settled, free]
    rw [here] at flagged
    exact flagged.late asked
  · intro stopping
    cases held : c.stopping with
    | true => exact raised held
    | false =>
        have here : c.settled = c.listener := by simp [settled, held]
        rw [here] at flagged
        exact flagged.stopping stopping
  · rw [begun.started]
    split <;> decide
  · rw [begun.spawned]
    split <;> decide
  · intro r
    constructor
    · intro late
      cases phase : c.listener.phase <;> simp_all [Listener.begin]
    · intro err refused c' next
      cases Move.of_step? next with
      | moved _ _ heard =>
          simp only [Listener.step?, refused, Option.some.injEq] at heard
          rw [← heard]

/-- A loop is dropped while it accepts and while a stopper holds the lock, and the listener is
started once more before the loop has cleared up. -/
def droppedRun : List Event :=
  let there : Endpoint := .v4 ⟨127, 0, 0, 1⟩ 7000
  [.other (.start (.ok there)), .other .arm, .other (.spawn true), .other .step, .other .step,
    .raise, .other .drop, .turn, .other (.start (.ok there))]

theorem goes_one_way_of_droppedRun :
    ∃ c, machine.run? fresh droppedRun = some c ∧ c.listener.pending = 1 ∧
      WasDropped droppedRun ∧ (starts droppedRun).countP Except.isOk ≤ 1 := by
  obtain ⟨c, run⟩ : ∃ c, machine.run? fresh droppedRun = some c := ⟨_, rfl⟩
  rcases goes_one_way_of_run run with ⟨⟨-, pending⟩, -, -, -, once, -⟩
  have clearing : c.listener.loop = .clearing := by
    cases run
    rfl
  have dropped : WasDropped droppedRun :=
    ⟨droppedRun.take 6, .other .drop, droppedRun.drop 7, _, rfl, rfl, rfl⟩
  exact ⟨c, run, pending.2 (.inr ⟨clearing, dropped⟩), dropped, once⟩

end Contended
end LineExchange
