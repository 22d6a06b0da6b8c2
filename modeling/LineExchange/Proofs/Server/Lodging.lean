import LineExchange.Proofs.Server.Accounts
import LineExchange.Proofs.Server.Closing

/-!
# Lodging — no exchange outlives its crew, and the counters say so

Every exchange of a server has a job on the crew until it is over, so none is under way when the
last thread of the crew is gone.  This file defines:

* `Server.Lodged` — each exchange that is under way has its job on the crew.

The invariant `Lodged` is kept by every move (`Lodged.of_move`), and what a server does to its
exchanges is a run of the exchanges (`exchangesRun_of_run`); so the counters of a server agree with
its exchanges, and none is counted as active when the crew is gone.
-/

namespace LineExchange
namespace Server

/-- Each exchange that is under way has its job on the crew; so the crew is not gone. -/
structure Lodged (s : Server) : Prop where
  sizes : s.crew.jobs.length = s.tenants.length
  home : ∀ (i : Nat) (x : Exchange), s.exchanges.all[i]? = some x → x.isFinished = false →
    ∃ j : Nat, s.tenants[j]? = some (.exchange i) ∧ s.crew.jobs[j]? = some .live
  gone : s.crew.closing = .closed → ∀ (i : Nat) (x : Exchange), s.exchanges.all[i]? = some x →
    x.isFinished = true

variable {p : Responder} {s s' : Server} {e : Event}

/-! ## A connection comes to the crew -/

/-- The exchange on a connection is on the crew when the crew is there, and else it is dropped
before it begins. -/
theorem exchanges_engage (s : Server) (w : Wire) :
    (s.engage w).tenants = s.tenants ++ [.exchange s.exchanges.all.length] ∧
      (s.engage w).crew.jobs = s.crew.jobs ++ [if s.crew.isUp then .live else .dropped] ∧
      (s.crew.isUp = true → (s.engage w).exchanges = s.exchanges.accept w) ∧
      (s.crew.isUp = false →
        (s.exchanges.accept w).drop? s.exchanges.all.length = some (s.engage w).exchanges) := by
  have brought := bring_spec { s with exchanges := s.exchanges.accept w, incoming := none }
    (.exchange s.exchanges.all.length)
  rcases brought with ⟨-, tenants, jobs, closing⟩
  have same : (bring { s with exchanges := s.exchanges.accept w, incoming := none }
      (.exchange s.exchanges.all.length)).crew.isUp = s.crew.isUp := by
    simp only [Crew.isUp, closing]
  simp only [engage, same]
  cases up : s.crew.isUp with
  | true =>
      rw [up] at jobs
      exact ⟨tenants, jobs, fun _ => rfl, by simp⟩
  | false =>
      rw [up] at jobs
      -- The exchange has only just begun, so it can be dropped.
      have here : (s.exchanges.accept w).all[s.exchanges.all.length]? = some (.start w) := by
        simp [Exchanges.accept]
      have dropped : ∃ xs, (s.exchanges.accept w).drop? s.exchanges.all.length = some xs := by
        simp [Exchanges.drop?, here, Exchange.drop, Exchange.start]
      rcases dropped with ⟨xs, dropped⟩
      refine ⟨?_, ?_, by simp, ?_⟩
      · simp [dropExchange, bring, dropped]
      · simpa [dropExchange, bring, dropped] using jobs
      · simp [dropExchange, bring, dropped]

/-! ## Every exchange under way has a job -/

namespace Lodged

theorem start (threads : Nat) : Lodged (onCrew (.ofSize threads)) where
  sizes := rfl
  home i x hget := by simp [onCrew, Exchanges.fresh] at hget
  gone down := by cases down

/-- What changes no job keeps the exchanges lodged, if it begins none. -/
theorem keep (h : Lodged s) (jobs : s'.crew.jobs = s.crew.jobs)
    (tenants : s'.tenants = s.tenants)
    (closing : s'.crew.closing = .closed → s.crew.closing = .closed)
    (before : ∀ (i : Nat) (x' : Exchange), s'.exchanges.all[i]? = some x' → x'.isFinished = false →
      ∃ x, s.exchanges.all[i]? = some x ∧ x.isFinished = false) : Lodged s' where
  sizes := by rw [jobs, tenants, h.sizes]
  home i x' hget' hopen := by
    rcases before i x' hget' hopen with ⟨x, hget, hopen⟩
    rw [jobs, tenants]
    exact h.home i x hget hopen
  gone down i x' hget' := by
    apply Bool.not_eq_false _ |>.mp
    intro hopen
    rcases before i x' hget' hopen with ⟨x, hget, hopen⟩
    exact absurd (h.gone (closing down) i x hget) (by simp [hopen])

/-- One more job keeps the exchanges lodged, if one that begins is the job's own, on the crew. -/
theorem grow {t : Tenant} {b : Job} (h : Lodged s) (jobs : s'.crew.jobs = s.crew.jobs ++ [b])
    (tenants : s'.tenants = s.tenants ++ [t]) (closing : s'.crew.closing = s.crew.closing)
    (before : ∀ (i : Nat) (x' : Exchange), s'.exchanges.all[i]? = some x' → x'.isFinished = false →
      (∃ x, s.exchanges.all[i]? = some x ∧ x.isFinished = false) ∨
        t = .exchange i ∧ b = .live ∧ s.crew.isUp = true) : Lodged s' where
  sizes := by simp [jobs, tenants, h.sizes]
  home i x' hget' hopen := by
    rw [jobs, tenants]
    rcases before i x' hget' hopen with ⟨x, hget, hopen⟩ | ⟨rfl, rfl, -⟩
    · rcases h.home i x hget hopen with ⟨j, tenant, live⟩
      have inTenants := (List.getElem?_eq_some_iff.1 tenant).1
      have inJobs := (List.getElem?_eq_some_iff.1 live).1
      exact ⟨j, by rwa [List.getElem?_append_left inTenants],
        by rwa [List.getElem?_append_left inJobs]⟩
    · exact ⟨s.tenants.length, by simp, by simp [← h.sizes]⟩
  gone down i x' hget' := by
    rw [closing] at down
    apply Bool.not_eq_false _ |>.mp
    intro hopen
    rcases before i x' hget' hopen with ⟨x, hget, hopen⟩ | ⟨-, -, up⟩
    · exact absurd (h.gone down i x hget) (by simp [hopen])
    · simp [Crew.isUp, down] at up

/-- A job that is over is counted no more; the job of an exchange is not over before it is. -/
theorem leave {j : Nat} {t : Tenant} {crew : Crew} (h : Lodged s) (tenant : s.tenants[j]? = some t)
    (done : s.isFinished t = true)
    (left : (s.crew.step? (.finish j false)).bind (fun c => c.step? (.leave j)) = some crew) :
    Lodged { s with crew } := by
  rcases Crew.of_finish_leave left with ⟨⟨b, jobs⟩, closing⟩
  refine ⟨by simp [jobs, h.sizes], ?_, fun down => h.gone (closing ▸ down)⟩
  intro i x hget hopen
  rcases h.home i x hget hopen with ⟨k, home, live⟩
  have ne : j ≠ k := by
    rintro rfl
    cases tenant.symm.trans home
    simp [isFinished, hget, hopen] at done
  exact ⟨k, home, by rw [jobs, List.getElem?_set_ne ne, live]⟩

/-- The last thread is gone only when no job is on the crew. -/
theorem crewGone {crew : Crew} (h : Lodged s) (gone : s.crew.step? .joined = some crew) :
    Lodged { s with crew } := by
  cases Crew.Move.of_step? gone with
  | gone _ still =>
      refine ⟨h.sizes, h.home, ?_⟩
      intro _ i x hget
      apply Bool.not_eq_false _ |>.mp
      intro hopen
      rcases h.home i x hget hopen with ⟨j, -, live⟩
      exact (still _ (List.mem_of_getElem? live)).1 rfl

theorem engage (h : Lodged s) (w : Wire) : Lodged (s.engage w) := by
  rcases exchanges_engage s w with ⟨tenants, jobs, up, down⟩
  refine h.grow jobs tenants (engage_spec s w).2.2.2 ?_
  intro i x' hget' hopen
  cases isUp : s.crew.isUp with
  | true =>
      rw [up isUp] at hget'
      rcases Exchanges.open_of_accept hget' hopen with before | rfl
      · exact .inl before
      · exact .inr ⟨rfl, by simp, rfl⟩
  | false =>
      rcases Exchanges.open_of_drop? (down isUp) hget' hopen with ⟨ne, hget⟩
      exact .inl ((Exchanges.open_of_accept hget hopen).resolve_right ne)

theorem of_move (h : Lodged s) (move : Move p s e s') : Lodged s' := by
  -- What the listener does alone leaves the exchanges as they are.
  have still (i : Nat) (x : Exchange) (hget : s.exchanges.all[i]? = some x)
      (hopen : x.isFinished = false) : ∃ x, s.exchanges.all[i]? = some x ∧ x.isFinished = false :=
    ⟨x, hget, hopen⟩
  cases move with
  | alone => exact h.keep rfl rfl id still
  | completed => exact h.keep rfl rfl id still
  | brought armed heard =>
      rcases bring_spec s .loop with ⟨-, tenants, jobs, closing⟩
      exact h.grow jobs tenants closing (fun i x hget hopen => .inl ⟨x, hget, hopen⟩)
  | @engaged w => exact (h.engage w).keep rfl rfl id (fun i x hget hopen => ⟨x, hget, hopen⟩)
  | acceptFailed => exact h.keep rfl rfl id still
  | looped => exact h.keep rfl rfl id still
  | crewStopped stopped => cases Crew.Move.of_step? stopped with
      | stopped => exact h.keep (by simp) rfl (fun down => by cases down) still
  | exchanged may own stepped =>
      have move := Exchanges.Move.of_step? stepped
      refine h.keep rfl rfl id ?_
      intro i x' hget' hopen
      exact move.isFinished own.1 hget' hopen
  | left tenant done leave => exact h.leave tenant done leave
  | loopDropped => exact h.keep rfl rfl id still
  | exchangeDropped tenant joining dropped =>
      refine h.keep rfl rfl id ?_
      intro i x' hget' hopen
      exact ⟨x', (Exchanges.open_of_drop? dropped hget' hopen).2, hopen⟩
  | crewGone gone => exact h.crewGone gone

end Lodged

/-! ## A server runs its exchanges -/

/-- The events of the exchanges in one event of the server. -/
theorem exchangesRun_of_move (move : Move p s e s') :
    ∃ fs, (Exchanges.machine p).run? s.exchanges fs = some s'.exchanges := by
  cases move with
  | @engaged w =>
      rcases exchanges_engage s w with ⟨-, -, up, down⟩
      cases isUp : s.crew.isUp with
      | true => exact ⟨[.accept w], congrArg some (up isUp).symm⟩
      | false => exact ⟨[.accept w, .drop s.exchanges.all.length], by
          simp [Exchanges.machine, Exchanges.step?, down isUp]⟩
  | acceptFailed => exact ⟨[.acceptFailed], rfl⟩
  | @exchanged e xs may own stepped => exact ⟨[e], by simp [Exchanges.machine, stepped]⟩
  | @exchangeDropped i j xs tenant joining dropped =>
      exact ⟨[.drop i], by simp [Exchanges.machine, Exchanges.step?, dropped]⟩
  | _ => exact ⟨[], rfl⟩

/-! ## Runs -/

variable {threads : Nat} {es : List Event}

/-- In every run the exchanges are lodged, and they have gone through a run of their own. -/
theorem exchanges_of_run (run : (machine p threads).run? (onCrew (.ofSize threads)) es = some s) :
    Lodged s ∧ ∃ fs, (Exchanges.machine p).run? .fresh fs = some s.exchanges := by
  refine Machine.run?_induction (motive := fun _ s => Lodged s ∧
    ∃ fs, (Exchanges.machine p).run? .fresh fs = some s.exchanges)
    ⟨Lodged.start threads, [], rfl⟩ ?_ run
  intro es s s' e _ last ih
  rcases ih with ⟨lodged, fs, before⟩
  have move : Move p s e s' := .of_step? last
  rcases exchangesRun_of_move move with ⟨gs, behind⟩
  refine ⟨lodged.of_move move, fs ++ gs, ?_⟩
  rw [Machine.run?_append, before]
  exact behind

/-- In every run of the exchanges of a server, up to a wrap around: as many are counted as accepted
as were made, as active as are not over, as processed as the responder answered, and as many bytes
as read and written as the lines that were read, and the responses that were written to their ends,
have together.  The exchanges of a server go through such a run, and when its crew is gone, all of
them are over and none is counted as active. -/
theorem traffic_accounts_for_exchanges (p : Responder) :
    (∀ (es : List Exchanges.Event) (xs : Exchanges), (Exchanges.machine p).run? .fresh es = some xs →
      xs.all.length = es.countP Exchanges.Event.isAccept ∧
      xs.traffic.accepted = .ofNat xs.all.length ∧
      xs.traffic.active = .ofNat (xs.all.countP fun x => !x.isFinished) ∧
      xs.traffic.processed = .ofNat (Exchanges.answers p es) ∧
      xs.traffic.bytesRead = .ofNat ((Exchanges.linesRead p es).map List.length).sum ∧
      xs.traffic.bytesWritten = .ofNat ((Exchanges.written p es).map List.length).sum ∧
      xs.traffic.acceptErrors = .ofNat (es.countP Exchanges.Event.isFailure)) ∧
    ∀ (threads : Nat) (es : List Event) (s : Server),
      (machine p threads).run? (onCrew (.ofSize threads)) es = some s →
        (∃ fs, (Exchanges.machine p).run? .fresh fs = some s.exchanges) ∧
        (s.crew.closing = .closed →
          (∀ x ∈ s.exchanges.all, x.isFinished = true) ∧ s.exchanges.traffic.active = 0) := by
  refine ⟨?_, ?_⟩
  · intro es xs run
    have accounts := Exchanges.accounts_of_run run
    refine ⟨accounts.created, ?_, accounts.active, accounts.tallies.processed,
      accounts.tallies.bytesRead, accounts.tallies.bytesWritten, accounts.acceptErrors⟩
    rw [accounts.created]
    exact accounts.accepted
  · intro threads es s run
    -- A run of the server is a run of its exchanges, seen apart.
    rcases exchanges_of_run run with ⟨lodged, fs, own⟩
    refine ⟨⟨fs, own⟩, ?_⟩
    intro gone
    have finished : ∀ x ∈ s.exchanges.all, x.isFinished = true := by
      intro x mem
      rcases List.mem_iff_getElem?.1 mem with ⟨i, hget⟩
      exact lodged.gone gone i x hget
    exact ⟨finished, (Exchanges.accounts_of_run own).active_eq_zero finished⟩

/-- One exchange gives back the line that it read, one fails on its line and has yet to let its
connection go, and one is dropped before it begins. -/
def mixedRun : List Exchanges.Event :=
  [.accept .blank, .accept .blank, .accept .blank, .arrive 0 (.piece [80, 13, 10]),
    .arrive 1 (.piece [81, 10]), .step 0, .step 1, .step 0, .step 1, .step 1, .crash 1, .step 0,
    .step 0, .drop 2, .step 0, .step 0, .step 0]

/-- A crew is stopped between an accept and the end of the exchange on its connection. -/
def abandonedRun : List Event :=
  [.start (.ok (.v4 ⟨127, 0, 0, 1⟩ 7000)), .arm, .spawn, .loop, .loop, .complete (.ok .blank), .loop,
    .stopCrew, .discard 1, .loop, .loop, .discard 0, .loop, .loop, .leave 0, .leave 1, .joined]

theorem traffic_of_abandonedRun :
    (∃ xs, (Exchanges.machine id).run? .fresh mixedRun = some xs ∧
      xs.traffic.accepted = 3 ∧ xs.traffic.active = 1 ∧ xs.traffic.processed = 1 ∧
      xs.traffic.bytesRead = 5 ∧ xs.traffic.bytesWritten = 3) ∧
    ∃ s, (machine id 1).run? (onCrew (.ofSize 1)) abandonedRun = some s ∧
      s.crew.closing = .closed ∧ s.exchanges.all.length = 1 ∧ s.exchanges.traffic.active = 0 := by
  rcases traffic_accounts_for_exchanges id with ⟨exchanges, servers⟩
  obtain ⟨xs, own⟩ : ∃ xs, (Exchanges.machine id).run? .fresh mixedRun = some xs := ⟨_, rfl⟩
  obtain ⟨s, run⟩ : ∃ s, (machine id 1).run? (onCrew (.ofSize 1)) abandonedRun = some s := ⟨_, rfl⟩
  refine ⟨⟨xs, own, ?_⟩, s, run, ?_⟩
  · rcases exchanges mixedRun xs own with
      ⟨created, accepted, active, processed, bytesRead, bytesWritten, -⟩
    have hopen : xs.all.countP (fun x => !x.isFinished) = 1 := by
      cases own
      rfl
    rw [created] at accepted
    rw [hopen] at active
    exact ⟨accepted, active, processed, bytesRead, bytesWritten⟩
  · have gone : s.crew.closing = .closed ∧ s.exchanges.all.length = 1 := by
      cases run
      exact ⟨rfl, rfl⟩
    exact ⟨gone.1, gone.2, ((servers 1 abandonedRun s run).2 gone.1).2⟩

end Server
end LineExchange
