import Mathlib.Algebra.GroupWithZero.Nat
import LineExchange.Proofs.Work.Balance
import LineExchange.Server.Exchange

/-!
# Accounts — the counters of a server agree with what its exchanges did

The counters are moved at several places of an exchange, and its end is counted where it is let go.
This file defines:

* `Exchange.Note` and `Exchange.note?` — what is seen of an exchange that goes from one stage to
  another: a line that was read, an answer that was given, a response that was written;
* `Exchanges.Move` — what an event may do to the exchanges, one constructor for each kind of step;
* `Exchanges.Accounts` — each counter is, up to a wrap around, the number of what it counts;
* `Exchanges.notes` — what was seen of a whole run.

The invariant `Accounts` is kept by every move (`Accounts.of_move`), so it holds after every run
(`accounts_of_run`), whatever the order of the exchanges and however each of them ends.
-/

namespace LineExchange

namespace Exchange

inductive Note where
  | read (line : Bytes)
  | answered
  | wrote (response : Bytes)
  deriving DecidableEq, Repr

namespace Note

def line? : Note → Option Bytes
  | .read line => some line
  | _ => none

def response? : Note → Option Bytes
  | .wrote response => some response
  | _ => none

end Note

/-- What is seen when an exchange goes from one stage to another. -/
def note? : Stage → Stage → Option Note
  | .searching, .answering line => some (.read line)
  | .answering _, .writing .. => some .answered
  | .writing response _, .ending .success => some (.wrote response)
  | _, _ => none

end Exchange

namespace Traffic

def enter (t : Traffic) : Option Exchange.Note → Traffic
  | some (.read line) => t.read (.ofNat line.length)
  | some .answered => t.answered
  | some (.wrote response) => t.wrote (.ofNat response.length)
  | none => t

structure Tallies (notes : List Exchange.Note) (t : Traffic) : Prop where
  processed : t.processed = .ofNat (notes.countP (· == .answered))
  bytesRead : t.bytesRead = .ofNat ((notes.filterMap Exchange.Note.line?).map List.length).sum
  bytesWritten :
    t.bytesWritten = .ofNat ((notes.filterMap Exchange.Note.response?).map List.length).sum

variable {ns : List Exchange.Note} {t : Traffic}

/-- Entering what was seen keeps the tallies. -/
theorem Tallies.enter (ht : Tallies ns t) (note : Option Exchange.Note) :
    Tallies (ns ++ note.toList) (t.enter note) := by
  rcases ht with ⟨processed, bytesRead, bytesWritten⟩
  cases note with
  | none =>
      rw [Option.toList_none, List.append_nil]
      exact ⟨processed, bytesRead, bytesWritten⟩
  | some note =>
      -- Each note moves one counter, by as much as it adds to the sum on the other side.
      cases note <;>
        constructor <;>
        simp [Traffic.enter, Traffic.read, Traffic.answered, Traffic.wrote, Exchange.Note.line?,
          Exchange.Note.response?, List.filterMap_cons, UInt64.ofNat_add, processed, bytesRead,
          bytesWritten]

/-- What is seen of exchanges opens and closes none, and is no failed accept. -/
theorem enter_frame (t : Traffic) (note : Option Exchange.Note) :
    (t.enter note).accepted = t.accepted ∧ (t.enter note).active = t.active ∧
      (t.enter note).acceptErrors = t.acceptErrors := by
  cases note with
  | none => exact ⟨rfl, rfl, rfl⟩
  | some note => cases note <;> exact ⟨rfl, rfl, rfl⟩

end Traffic

namespace Exchange

variable {p : Responder} {x x' : Exchange} {t t' : Traffic}

/-! ## What one exchange does to the counters -/

/-- What an exchange does on its way is counted as what is seen of it, and its end as an end. -/
theorem step_spec (h : x.step p t = some (x', t')) :
    x.isFinished = false ∧
      (x'.isFinished = false ∧ t' = t.enter (note? x.stage x'.stage) ∨
        x'.isFinished = true ∧ note? x.stage x'.stage = none ∧ t' = t.closed) := by
  unfold step at h
  split at h
  · rename_i stage
    refine ⟨by simp [isFinished, stage], .inl ?_⟩
    simp only [searchStep, Option.some.injEq] at h
    split at h <;> cases h <;> simp [isFinished, stage, note?, Traffic.enter]
  · rename_i wait stage
    refine ⟨by simp [isFinished, stage], .inl ?_⟩
    simp only [awaitStep, Option.some.injEq, Prod.mk.injEq] at h
    rcases h with ⟨h, rfl⟩
    split at h <;> cases h <;> simp [isFinished, stage, note?, Traffic.enter]
  · rename_i line stage
    cases h
    exact ⟨by simp [isFinished, stage], .inl ⟨rfl, by simp [stage, note?, Traffic.enter]⟩⟩
  · rename_i response rest stage
    refine ⟨by simp [isFinished, stage], .inl ?_⟩
    simp only [writeStep, Option.some.injEq] at h
    -- Nothing left to write: the flush.  Else one write.
    split at h
    · split at h <;> cases h <;> simp [isFinished, stage, note?, Traffic.enter]
    · split at h <;> cases h <;> simp [isFinished, stage, note?, Traffic.enter]
  · rename_i r stage
    cases h
    exact ⟨by simp [isFinished, stage], .inr ⟨rfl, by simp [stage, note?], rfl⟩⟩
  · cases h

/-- An exchange that is dropped was not over, and its end is counted. -/
theorem drop_spec (h : x.drop t = some (x', t')) :
    x.isFinished = false ∧ x'.isFinished = true ∧ t' = t.closed := by
  unfold drop at h
  split at h <;> cases h <;> simp_all [isFinished]

/-- A failure of the responder is no end yet. -/
theorem crash_spec (h : x.crash = some x') : x.isFinished = false ∧ x'.isFinished = false := by
  unfold crash at h
  split at h <;> cases h
  simp_all [isFinished]

end Exchange

namespace Exchanges

variable {p : Responder} {xs xs' : Exchanges} {e : Event}

/-! ## What the exchanges of a server do -/

def Event.script? : Event → Option (Nat × (Wire → Wire))
  | .arrive i a => some (i, .expect a)
  | .allow i u => some (i, .allow u)
  | .failFlush i err => some (i, .failFlush err)
  | _ => none

inductive Move (p : Responder) (xs : Exchanges) : Event → Exchanges → Prop where
  | accepted {w : Wire} : Move p xs (.accept w) (xs.accept w)
  | acceptFailed : Move p xs .acceptFailed { xs with traffic := xs.traffic.acceptFailed }
  | scripted {e : Event} {i : Nat} {f : Wire → Wire} {x x' : Exchange}
      (of : e.script? = some (i, f)) (hget : xs.all[i]? = some x)
      (same : x'.isFinished = x.isFinished) : Move p xs e (xs.put i (x', xs.traffic))
  | stepped {i : Nat} {x x' : Exchange} {t : Traffic} (hget : xs.all[i]? = some x)
      (step : x.step p xs.traffic = some (x', t)) : Move p xs (.step i) (xs.put i (x', t))
  | crashed {i : Nat} {x x' : Exchange} (hget : xs.all[i]? = some x) (crash : x.crash = some x') :
      Move p xs (.crash i) (xs.put i (x', xs.traffic))
  | dropped {i : Nat} {x x' : Exchange} {t : Traffic} (hget : xs.all[i]? = some x)
      (drop : x.drop xs.traffic = some (x', t)) : Move p xs (.drop i) (xs.put i (x', t))

theorem Move.of_onWire {i : Nat} {f : Wire → Wire} (of : e.script? = some (i, f))
    (h : xs.onWire i f = some xs') : Move p xs e xs' := by
  rcases Option.map_eq_some_iff.1 h with ⟨x, hget, rfl⟩
  exact .scripted of hget rfl

/-- An event does nothing but what `Move` says. -/
theorem Move.of_step? (h : step? p xs e = some xs') : Move p xs e xs' := by
  cases e with
  | accept w =>
      cases h
      exact .accepted
  | acceptFailed =>
      cases h
      exact .acceptFailed
  | arrive i a => exact .of_onWire rfl h
  | allow i u => exact .of_onWire rfl h
  | failFlush i err => exact .of_onWire rfl h
  | step i =>
      rcases Option.bind_eq_some_iff.1 h with ⟨x, hget, put⟩
      rcases Option.map_eq_some_iff.1 put with ⟨⟨x', t⟩, step, rfl⟩
      exact .stepped hget step
  | crash i =>
      rcases Option.bind_eq_some_iff.1 h with ⟨x, hget, put⟩
      rcases Option.map_eq_some_iff.1 put with ⟨x', crash, rfl⟩
      exact .crashed hget crash
  | drop i =>
      rcases Option.bind_eq_some_iff.1 h with ⟨x, hget, put⟩
      rcases Option.map_eq_some_iff.1 put with ⟨⟨x', t⟩, drop, rfl⟩
      exact .dropped hget drop

/-- An exchange that goes on brings none back that is over. -/
theorem open_of_put {i k : Nat} {r : Exchange × Traffic} {x x' : Exchange}
    (hget : xs.all[k]? = some x) (before : r.1.isFinished = false → x.isFinished = false)
    (hget' : (xs.put k r).all[i]? = some x') (hopen : x'.isFinished = false) :
    ∃ x, xs.all[i]? = some x ∧ x.isFinished = false := by
  simp only [put, List.getElem?_set] at hget'
  split at hget'
  · rename_i same
    subst same
    split at hget' <;> cases hget'
    exact ⟨x, hget, before hopen⟩
  · exact ⟨x', hget', hopen⟩

theorem open_of_accept {i : Nat} {w : Wire} {x' : Exchange}
    (hget' : (xs.accept w).all[i]? = some x') (hopen : x'.isFinished = false) :
    (∃ x, xs.all[i]? = some x ∧ x.isFinished = false) ∨ i = xs.all.length := by
  simp only [accept, List.getElem?_append, List.getElem?_singleton] at hget'
  split at hget'
  · exact .inl ⟨x', hget', hopen⟩
  · rename_i ge
    split at hget'
    · exact .inr (by omega)
    · cases hget'

/-- An exchange that is dropped is over, and no other is touched. -/
theorem open_of_drop? {i k : Nat} {x' : Exchange} (dropped : xs.drop? k = some xs')
    (hget' : xs'.all[i]? = some x') (hopen : x'.isFinished = false) :
    i ≠ k ∧ xs.all[i]? = some x' := by
  rcases Option.bind_eq_some_iff.1 dropped with ⟨x, -, hput⟩
  rcases Option.map_eq_some_iff.1 hput with ⟨⟨y, t⟩, drop, rfl⟩
  have finished : y.isFinished = true := (Exchange.drop_spec drop).2.1
  simp only [put, List.getElem?_set] at hget'
  split at hget'
  · split at hget' <;> cases hget'
    rw [finished] at hopen
    cases hopen
  · rename_i ne
    exact ⟨Ne.symm ne, hget'⟩

/-- No exchange begins but with an accept, and none that is finished goes on. -/
theorem Move.isFinished {i : Nat} {x' : Exchange} (move : Move p xs e xs')
    (noAccept : ∀ w, e ≠ .accept w) (hget' : xs'.all[i]? = some x')
    (hopen : x'.isFinished = false) : ∃ x, xs.all[i]? = some x ∧ x.isFinished = false := by
  cases move with
  | accepted => exact absurd rfl (noAccept _)
  | acceptFailed => exact ⟨x', hget', hopen⟩
  | scripted of hget same => exact open_of_put hget (fun h => same ▸ h) hget' hopen
  | stepped hget step => exact open_of_put hget (fun _ => (Exchange.step_spec step).1) hget' hopen
  | crashed hget crash =>
      exact open_of_put hget (fun _ => (Exchange.crash_spec crash).1) hget' hopen
  | dropped hget drop => exact open_of_put hget (fun _ => (Exchange.drop_spec drop).1) hget' hopen

/-! ## The accounts -/

/-- What is seen of an event. -/
def note? (p : Responder) (xs : Exchanges) : Event → Option Exchange.Note
  | .step i =>
      xs.all[i]?.bind fun x =>
        (x.step p xs.traffic).bind fun r => Exchange.note? x.stage r.1.stage
  | _ => none

def underWay (xs : Exchanges) : Nat :=
  xs.all.countP fun x => !x.isFinished

/-- Each counter agrees with the number of connections accepted and failed, and with what was seen
of the exchanges. -/
structure Accounts (accepted failed : Nat) (notes : List Exchange.Note) (xs : Exchanges) :
    Prop where
  created : xs.all.length = accepted
  accepted : xs.traffic.accepted = .ofNat accepted
  active : xs.traffic.active = .ofNat xs.underWay
  acceptErrors : xs.traffic.acceptErrors = .ofNat failed
  tallies : xs.traffic.Tallies notes

def Event.wire? : Event → Option Wire
  | .accept w => some w
  | _ => none

/-- The connection that an event accepts makes an exchange. -/
def Event.isAccept : Event → Bool
  | .accept _ => true
  | _ => false

def Event.isFailure : Event → Bool
  | .acceptFailed => true
  | _ => false

namespace Accounts

variable {a f i : Nat} {ns : List Exchange.Note} {x x' : Exchange}

theorem fresh : Accounts 0 0 [] .fresh where
  created := rfl
  accepted := rfl
  active := rfl
  acceptErrors := rfl
  tallies := ⟨rfl, rfl, rfl⟩

/-- An exchange goes on without coming to its end, and what is seen of it is counted. -/
theorem goOn (ha : Accounts a f ns xs) (hget : xs.all[i]? = some x)
    (same : x'.isFinished = x.isFinished) (note : Option Exchange.Note) :
    Accounts a f (ns ++ note.toList) (xs.put i (x', xs.traffic.enter note)) := by
  rcases xs.traffic.enter_frame note with ⟨accepted, active, acceptErrors⟩
  have underWay : (xs.put i (x', xs.traffic.enter note)).underWay = xs.underWay := by
    have counted := Crew.countP_set_of_getElem? (p := fun x => !x.isFinished) (b := x') hget
    simp only [same] at counted
    exact Nat.add_right_cancel counted
  refine ⟨by simpa [put] using ha.created, accepted.trans ha.accepted, ?_,
    acceptErrors.trans ha.acceptErrors, ha.tallies.enter note⟩
  rw [underWay]
  exact active.trans ha.active

/-- An exchange comes to its end, which is counted once. -/
theorem finish (ha : Accounts a f ns xs) (hget : xs.all[i]? = some x) (hopen : x.isFinished = false)
    (finished : x'.isFinished = true) : Accounts a f ns (xs.put i (x', xs.traffic.closed)) := by
  have counted := Crew.countP_set_of_getElem? (p := fun x => !x.isFinished) (b := x') hget
  simp only [hopen, finished, Bool.not_false, Bool.not_true, Bool.toNat_true, Bool.toNat_false]
    at counted
  have fewer : xs.underWay = (xs.put i (x', xs.traffic.closed)).underWay + 1 := counted.symm
  refine ⟨by simpa [put] using ha.created, ha.accepted, ?_, ha.acceptErrors,
    ⟨ha.tallies.processed, ha.tallies.bytesRead, ha.tallies.bytesWritten⟩⟩
  -- One exchange at least was under way, so the subtraction does not wrap around.
  calc (xs.put i (x', xs.traffic.closed)).traffic.active = xs.traffic.active - 1 := rfl
    _ = UInt64.ofNat xs.underWay - UInt64.ofNat 1 := by rw [ha.active, UInt64.ofNat_one]
    _ = UInt64.ofNat (xs.underWay - 1) := (UInt64.ofNat_sub (by omega)).symm
    _ = UInt64.ofNat (xs.put i (x', xs.traffic.closed)).underWay := by
      rw [fewer, Nat.add_sub_cancel]

theorem accept (ha : Accounts a f ns xs) (w : Wire) : Accounts (a + 1) f ns (xs.accept w) := by
  have more : (xs.accept w).underWay = xs.underWay + 1 := by
    simp [Exchanges.underWay, Exchanges.accept, Exchange.start, Exchange.isFinished]
  refine ⟨by simp [Exchanges.accept, ha.created], ?_, ?_, ha.acceptErrors,
    ⟨ha.tallies.processed, ha.tallies.bytesRead, ha.tallies.bytesWritten⟩⟩
  · rw [UInt64.ofNat_add, ← ha.accepted]
    rfl
  · rw [more, UInt64.ofNat_add, ← ha.active]
    rfl

theorem acceptFailed (ha : Accounts a f ns xs) :
    Accounts a (f + 1) ns { xs with traffic := xs.traffic.acceptFailed } := by
  refine ⟨ha.created, ha.accepted, ha.active, ?_,
    ⟨ha.tallies.processed, ha.tallies.bytesRead, ha.tallies.bytesWritten⟩⟩
  rw [UInt64.ofNat_add, ← ha.acceptErrors]
  rfl

/-- Every move keeps the accounts. -/
theorem of_move (ha : Accounts a f ns xs) (move : Move p xs e xs') :
    Accounts (a + if e.isAccept then 1 else 0) (f + if e.isFailure then 1 else 0)
      (ns ++ (note? p xs e).toList) xs' := by
  cases move with
  | @accepted w => simpa [Event.isAccept, Event.isFailure, note?] using ha.accept w
  | acceptFailed => simpa [Event.isAccept, Event.isFailure, note?] using ha.acceptFailed
  | @scripted e i g x x' of hget same =>
      have goesOn := ha.goOn hget same none
      cases e <;> first | exact goesOn | cases of
  | @stepped i x x' t hget step =>
      have seen : note? p xs (.step i) = Exchange.note? x.stage x'.stage := by
        simp [note?, hget, step]
      rw [seen]
      rcases Exchange.step_spec step with ⟨hopen, ⟨still, rfl⟩ | ⟨finished, hnone, rfl⟩⟩
      · exact ha.goOn hget (still.trans hopen.symm) _
      · rw [hnone]
        simpa [Event.isAccept, Event.isFailure] using ha.finish hget hopen finished
  | crashed hget crash =>
      rcases Exchange.crash_spec crash with ⟨hopen, still⟩
      exact ha.goOn hget (still.trans hopen.symm) none
  | dropped hget drop =>
      rcases Exchange.drop_spec drop with ⟨hopen, finished, rfl⟩
      simpa [Event.isAccept, Event.isFailure, note?] using ha.finish hget hopen finished

theorem active_eq_zero (ha : Accounts a f ns xs) (finished : ∀ x ∈ xs.all, x.isFinished = true) :
    xs.traffic.active = 0 := by
  have hnone : xs.underWay = 0 := by
    simpa [Exchanges.underWay, List.countP_eq_zero] using finished
  rw [ha.active, hnone]
  rfl

end Accounts

/-! ## Runs -/

def notes (p : Responder) (es : List Event) : List Exchange.Note :=
  (machine p).log (note? p) .fresh es

def linesRead (p : Responder) (es : List Event) : List Bytes :=
  (notes p es).filterMap Exchange.Note.line?

def answers (p : Responder) (es : List Event) : Nat :=
  (notes p es).countP (· == .answered)

/-- The responses that were written, to their ends, in a run. -/
def written (p : Responder) (es : List Event) : List Bytes :=
  (notes p es).filterMap Exchange.Note.response?

/-- The accounts are kept in every run. -/
theorem accounts_of_run {es : List Event} (run : (machine p).run? .fresh es = some xs) :
    Accounts (es.countP Event.isAccept) (es.countP Event.isFailure) (notes p es) xs := by
  refine Machine.run?_induction (motive := fun es xs => Accounts (es.countP Event.isAccept)
    (es.countP Event.isFailure) (notes p es) xs) Accounts.fresh ?_ run
  intro es xs xs' e run last ih
  have next := ih.of_move (.of_step? last)
  have sees : notes p (es ++ [e]) = notes p es ++ (note? p xs e).toList :=
    Machine.log_concat (note? p) run last
  rw [sees, List.countP_append, List.countP_append, List.countP_singleton, List.countP_singleton]
  exact next

end Exchanges
end LineExchange
