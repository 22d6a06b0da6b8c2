import LineExchange.Proofs.History
import LineExchange.Proofs.Server.Moves
import LineExchange.Proofs.Work.Jobs

/-!
# Closing — what a listener shows when its crew is gone

When a crew is stopped, the loop of a listener goes on to its end or is dropped where it waits.
This file defines:

* `Server.Housed` — the loop has a job on the crew as long as it is not over;
* `Server.Polls` and `Server.WasPolled` — the loop takes, or took, its first step.

The invariant `Housed` is kept by every move (`Housed.of_move`).  When the last thread of the crew
is gone, no accept is under way and the socket is closed; but the listener says that it is closed
only if its loop ever ran, because it is the loop's own end that says so.
-/

namespace LineExchange
namespace Server

structure Housed (s : Server) : Prop where
  sizes : s.crew.jobs.length = s.tenants.length
  home : s.listener.loop.isRunning = true →
    ∃ j : Nat, s.tenants[j]? = some Tenant.loop ∧ s.crew.jobs[j]? = some Job.live
  gone : s.crew.closing = .closed → s.listener.loop.isRunning = false

variable {p : Responder} {s s' : Server} {e : Event}

/-! ## The loop has a job until it is over -/

namespace Housed

theorem start (threads : Nat) : Housed (onCrew (.ofSize threads)) where
  sizes := rfl
  home running := by cases running
  gone down := by cases down

/-- What changes no job keeps the loop housed, if it does not bring it back. -/
theorem keep (h : Housed s) (jobs : s'.crew.jobs = s.crew.jobs)
    (closing : s'.crew.closing = s.crew.closing) (tenants : s'.tenants = s.tenants)
    (running : s'.listener.loop.isRunning = true → s.listener.loop.isRunning = true) :
    Housed s' where
  sizes := by rw [jobs, tenants, h.sizes]
  home still := by
    rw [jobs, tenants]
    exact h.home (running still)
  gone down := by
    rw [closing] at down
    apply Bool.eq_false_iff.2
    intro still
    exact absurd (running still) (by simp [h.gone down])

/-- One more job keeps the loop housed, if the loop is with the crew only when it is there. -/
theorem grow {t : Tenant} {b : Job} (h : Housed s) (jobs : s'.crew.jobs = s.crew.jobs ++ [b])
    (closing : s'.crew.closing = s.crew.closing) (tenants : s'.tenants = s.tenants ++ [t])
    (running : s'.listener.loop.isRunning = true →
      s.listener.loop.isRunning = true ∨ t = .loop ∧ b = .live ∧ s.crew.isUp = true) :
    Housed s' where
  sizes := by simp [jobs, tenants, h.sizes]
  home still := by
    rw [jobs, tenants]
    rcases running still with before | ⟨rfl, rfl, -⟩
    · rcases h.home before with ⟨j, tenant, live⟩
      have inTenants := (List.getElem?_eq_some_iff.1 tenant).1
      have inJobs := (List.getElem?_eq_some_iff.1 live).1
      exact ⟨j, by rwa [List.getElem?_append_left inTenants],
        by rwa [List.getElem?_append_left inJobs]⟩
    · exact ⟨s.tenants.length, by simp, by simp [← h.sizes]⟩
  gone down := by
    rw [closing] at down
    apply Bool.eq_false_iff.2
    intro still
    rcases running still with before | ⟨-, -, up⟩
    · exact absurd before (by simp [h.gone down])
    · simp [Crew.isUp, down] at up

/-- A job that is over is counted no more; the loop's job is not over before the loop is. -/
theorem leave {j : Nat} {t : Tenant} {crew : Crew} (h : Housed s) (tenant : s.tenants[j]? = some t)
    (done : s.isFinished t = true)
    (left : (s.crew.step? (.finish j false)).bind (fun c => c.step? (.leave j)) = some crew) :
    Housed { s with crew } := by
  have elsewhere : s.listener.loop.isRunning = true → t ≠ .loop := by
    rintro running rfl
    rcases Bool.or_eq_true _ _ ▸ done with ended | ended
    · simp [eq_of_beq ended, Listener.Loop.isRunning] at running
    · simp [eq_of_beq ended, Listener.Loop.isRunning] at running
  rcases Crew.of_finish_leave left with ⟨⟨b, jobs⟩, closing⟩
  refine ⟨by simp [jobs, h.sizes], ?_, fun down => h.gone (closing ▸ down)⟩
  intro running
  rcases h.home running with ⟨i, home, live⟩
  have ne : j ≠ i := by
    rintro rfl
    exact elsewhere running (Option.some.inj (tenant.symm.trans home))
  exact ⟨i, home, by rw [jobs, List.getElem?_set_ne ne, live]⟩

/-- The last thread is gone only when no job is on the crew. -/
theorem crewGone {crew : Crew} (h : Housed s) (gone : s.crew.step? .joined = some crew) :
    Housed { s with crew } := by
  cases Crew.Move.of_step? gone with
  | gone _ still =>
      refine ⟨h.sizes, h.home, ?_⟩
      intro _
      apply Bool.eq_false_iff.2
      intro running
      rcases h.home running with ⟨j, -, live⟩
      exact (still _ (List.mem_of_getElem? live)).1 rfl

/-- A step of the listener brings no loop back that is over, unless it brings it to the workers. -/
theorem running_of_heard {l : Listener} {e' : Listener.Event}
    (heard : s.listener.step? e' = some l) (other : e' ≠ .spawn true)
    (running : l.loop.isRunning = true) : s.listener.loop.isRunning = true :=
  ((Listener.Move.of_step? heard).isRunning running).resolve_right other

/-- Every move keeps the loop housed. -/
theorem of_move (h : Housed s) (move : Move p s e s') : Housed s' := by
  cases move with
  | alone of heard =>
      refine h.keep rfl rfl rfl (running_of_heard heard ?_)
      rintro rfl
      cases e with
      | complete r => cases r <;> cases of
      | _ => cases of
  | completed heard => exact h.keep rfl rfl rfl (running_of_heard heard (by simp))
  | brought armed heard =>
      rcases bring_spec s .loop with ⟨-, tenants, jobs, closing⟩
      refine h.grow jobs closing tenants ?_
      intro running
      rcases (Listener.Move.of_step? heard).isRunning running with before | spawned
      · exact .inl before
      · injection spawned with up
        exact .inr ⟨rfl, by rw [up]; rfl, up⟩
  | @engaged w l may accepted incoming heard =>
      -- The new tenant is an exchange, and the loop stays where it was.
      rcases engage_spec s w with ⟨-, ⟨t, tenants⟩, ⟨b, jobs⟩, closing⟩
      refine h.grow jobs closing tenants ?_
      intro running
      exact .inl (running_of_heard heard (by simp) running)
  | acceptFailed may failed heard =>
      exact h.keep rfl rfl rfl (running_of_heard heard (by simp))
  | looped may noAccept heard => exact h.keep rfl rfl rfl (running_of_heard heard (by simp))
  | crewStopped stopped => cases Crew.Move.of_step? stopped with
      | stopped => exact ⟨by simpa using h.sizes, by simpa using h.home, fun down => by cases down⟩
  | exchanged => exact h.keep rfl rfl rfl id
  | left tenant done leave => exact h.leave tenant done leave
  | loopDropped tenant joining heard =>
      exact h.keep rfl rfl rfl (running_of_heard heard (by simp))
  | exchangeDropped => exact h.keep rfl rfl rfl id
  | crewGone gone => exact h.crewGone gone

end Housed

/-! ## The first poll of the loop -/

def Polls (s : Server) : Event → Prop
  | .loop => s.listener.loop = .queued
  | _ => False

/-- What an event does to the listener, and whether it is the first poll of its loop. -/
theorem listener_of_move (move : Move p s e s') :
    s'.listener = s.listener ∧ ¬Polls s e ∨
      ∃ e', s.listener.step? e' = some s'.listener ∧
        (e'.isFirstStep s.listener = true ↔ Polls s e) := by
  cases move with
  | @alone e e' l of heard =>
      refine .inr ⟨e', heard, ?_⟩
      cases e with
      | complete r =>
          cases r with
          | ok w => cases of
          | error err =>
              cases of
              simp [Listener.Event.isFirstStep, Polls]
      | start r =>
          cases of
          simp [Listener.Event.isFirstStep, Polls]
      | arm =>
          cases of
          simp [Listener.Event.isFirstStep, Polls]
      | stopListener =>
          cases of
          simp [Listener.Event.isFirstStep, Polls]
      | _ => cases of
  | completed heard => exact .inr ⟨_, heard, by simp [Listener.Event.isFirstStep, Polls]⟩
  | brought armed heard => exact .inr ⟨_, heard, by simp [Listener.Event.isFirstStep, Polls]⟩
  | engaged may accepted incoming heard =>
      exact .inr ⟨_, heard, by simp [Listener.Event.isFirstStep, Polls]⟩
  | acceptFailed may failed heard =>
      exact .inr ⟨_, heard, by simp [Listener.Event.isFirstStep, Polls]⟩
  | looped may noAccept heard =>
      exact .inr ⟨_, heard, by simp [Listener.Event.isFirstStep, Polls]⟩
  | crewStopped => exact .inl ⟨rfl, id⟩
  | exchanged => exact .inl ⟨rfl, id⟩
  | left => exact .inl ⟨rfl, id⟩
  | loopDropped tenant joining heard =>
      exact .inr ⟨_, heard, by simp [Listener.Event.isFirstStep, Polls]⟩
  | exchangeDropped => exact .inl ⟨rfl, id⟩
  | crewGone => exact .inl ⟨rfl, id⟩

/-- A listener shows where its loop stands behind every move, and its loop has run when it was
polled, and from then on. -/
theorem shows_of_move (shows : s.listener.Shows) (move : Move p s e s') :
    s'.listener.Shows ∧
      (s'.listener.loop.hasRun = true ↔ s.listener.loop.hasRun = true ∨ Polls s e) := by
  rcases listener_of_move move with ⟨same, noPoll⟩ | ⟨e', heard, first⟩
  · rw [same]
    exact ⟨shows, by simp [noPoll]⟩
  · have own := Listener.Move.of_step? heard
    refine ⟨shows.of_move own, ?_⟩
    rw [own.hasRun_iff shows, first]

/-! ## Runs -/

variable {threads : Nat} {es : List Event}

def WasPolled (p : Responder) (threads : Nat) (es : List Event) : Prop :=
  (machine p threads).Happens Polls (onCrew (.ofSize threads)) es

/-- In every run the listener shows where its loop stands, the loop has a job until it is over, and
it has run exactly when it was polled. -/
theorem listener_of_run (run : (machine p threads).run? (onCrew (.ofSize threads)) es = some s) :
    s.listener.Shows ∧ Housed s ∧
      (s.listener.loop.hasRun = true ↔ WasPolled p threads es) := by
  refine Machine.run?_induction (motive := fun es s => s.listener.Shows ∧ Housed s ∧
    (s.listener.loop.hasRun = true ↔ WasPolled p threads es)) ?_ ?_ run
  · have unpolled : ¬WasPolled p threads [] := Machine.not_happens_nil _ _ _
    exact ⟨Listener.shows_fresh, Housed.start threads, by simp [unpolled, onCrew, Listener.fresh,
      Listener.Loop.hasRun]⟩
  · intro es s s' e run last ih
    rcases ih with ⟨shows, housed, ran⟩
    have move : Move p s e s' := .of_step? last
    rcases shows_of_move shows move with ⟨shows', ran'⟩
    refine ⟨shows', housed.of_move move, ?_⟩
    rw [ran', ran]
    exact (Machine.happens_concat run).symm

/-- When the last thread of the crew is gone, a listener that was started has no accept under way
and its socket is closed; and it says that it is closed exactly when its loop was ever polled. -/
theorem closed_iff_polled_of_gone
    (run : (machine p threads).run? (onCrew (.ofSize threads)) es = some s)
    (gone : s.crew.closing = .closed) (spawned : s.listener.loop.isSpawned = true) :
    s.listener.pending = 0 ∧ s.listener.socketOpen = false ∧
      (s.listener.phase = .closed ↔ WasPolled p threads es) := by
  rcases listener_of_run run with ⟨shows, housed, ran⟩
  -- A loop that is over came to its end, or it was dropped where it was queued.
  have finished : s.listener.loop = .finished ∨ s.listener.loop = .lost := by
    have still := housed.gone gone
    cases loop : s.listener.loop <;>
      simp_all [Listener.Loop.isRunning, Listener.Loop.isSpawned]
  rw [← ran]
  rcases finished with loop | loop
  · refine ⟨?_, ?_, ?_⟩
    · simpa [loop] using shows.pending
    · simpa [loop, Listener.Loop.holdsSocket] using shows.socket
    · simpa [loop, Listener.Loop.hasRun] using shows.closed
  · refine ⟨?_, ?_, ?_⟩
    · simpa [loop] using shows.pending
    · simpa [loop, Listener.Loop.holdsSocket] using shows.socket
    · simpa [loop, Listener.Loop.hasRun] using shows.closed

/-- A listener is started and its crew stopped before the loop's first poll. -/
def unpolledRun : List Event :=
  [.start (.ok (.v4 ⟨127, 0, 0, 1⟩ 7000)), .arm, .spawn, .stopListener, .stopCrew, .discard 0,
    .leave 0, .joined]

def polledRun : List Event :=
  [.start (.ok (.v4 ⟨127, 0, 0, 1⟩ 7000)), .arm, .spawn, .loop, .stopListener, .stopCrew, .loop,
    .discard 0, .loop, .loop, .leave 0, .joined]

theorem closed_of_polledRun :
    ∃ s, (machine answerLine 1).run? (onCrew (.ofSize 1)) polledRun = some s ∧
      s.crew.closing = .closed ∧ s.listener.loop.isSpawned = true ∧ s.listener.phase = .closed := by
  obtain ⟨s, run⟩ : ∃ s, (machine answerLine 1).run? (onCrew (.ofSize 1)) polledRun = some s :=
    ⟨_, rfl⟩
  have gone : s.crew.closing = .closed ∧ s.listener.loop.isSpawned = true := by
    cases run
    exact ⟨rfl, rfl⟩
  have polled : WasPolled answerLine 1 polledRun :=
    ⟨polledRun.take 3, .loop, polledRun.drop 4, _, rfl, rfl, rfl⟩
  rcases closed_iff_polled_of_gone run gone.1 gone.2 with ⟨-, -, closed⟩
  exact ⟨s, run, gone.1, gone.2, closed.2 polled⟩

/-- A listener may not say that it is closed when its crew is gone. -/
theorem not_always_closed_when_gone :
    ¬∀ (es : List Event) (s : Server),
      (machine answerLine 1).run? (onCrew (.ofSize 1)) es = some s → s.crew.closing = .closed →
        s.listener.loop.isSpawned = true → s.listener.phase = .closed := by
  intro always
  have closed := always unpolledRun _ rfl rfl rfl
  cases closed

end Server
end LineExchange
