import LineExchange.Proofs.Channel.Framing

/-!
# Room — what a read takes while there is room for more

A channel looks at its limit before it reads and not behind that, so the piece that carries the
inbox to the limit may carry it past the limit.  This file defines:

* `Arrival.StartBelow` — where arrivals start, each behind the bytes of those before it;
* `Inbox.Asks`, `Inbox.IsFull` — inboxes without a line that have room for more or have none;
* `Channel.Draws` — the arrivals that a poll of a read takes off the script, and how it ends.

Every poll of a read does that (`draws_pollRead`, `draws_resumeRead`): an arrival is taken only while
there is room for more.
-/

namespace LineExchange

namespace Arrival

def IsPiece (a : Arrival) : Prop :=
  ∃ b bs, a = .piece (b :: bs)

/-- When the first of the arrivals starts at the offset `n`, all of them start below `limit`. -/
def StartBelow (limit n : Nat) : List Arrival → Prop
  | [] => True
  | a :: later => n < limit ∧ StartBelow limit (n + a.bytes.length) later

variable {limit n k : Nat} {past later left more : List Arrival} {a : Arrival}

theorem startBelow_append :
    StartBelow limit n (past ++ later) ↔
      StartBelow limit n past ∧ StartBelow limit (n + (past.flatMap bytes).length) later := by
  induction past generalizing n with
  | nil => simp [StartBelow]
  | cons a past ih => simp [StartBelow, ih, and_assoc, Nat.add_assoc]

theorem StartBelow.shift (k : Nat) (h : StartBelow limit n later) :
    StartBelow (k + limit) (k + n) later := by
  induction later generalizing n with
  | nil => trivial
  | cons a later ih =>
      rcases h with ⟨here, others⟩
      refine ⟨by omega, ?_⟩
      rw [Nat.add_assoc]
      exact ih others

theorem StartBelow.mono (le : limit ≤ k) (h : StartBelow limit n later) :
    StartBelow k n later := by
  induction later generalizing n with
  | nil => trivial
  | cons a later ih => exact ⟨Nat.lt_of_lt_of_le h.1 le, ih h.2⟩

/-- Arrivals that start below a limit end before it, or in the last of them. -/
theorem StartBelow.length_lt (h : StartBelow limit n later) (below : n < limit + k)
    (small : ∀ a ∈ later, a.bytes.length ≤ k) :
    n + (later.flatMap bytes).length < limit + k := by
  induction later generalizing n with
  | nil => simpa using below
  | cons a later ih =>
      have here : a.bytes.length ≤ k := small a (by simp)
      have first : n < limit := h.1
      have others := ih h.2 (by omega) (fun x mem => small x (by simp [mem]))
      rw [List.flatMap_cons, List.length_append]
      omega

/-- An arrival that starts before an end of the first arrivals is one of them. -/
theorem exists_of_length_lt (split : past ++ left = later ++ a :: more)
    (starts : (later.flatMap bytes).length < (past.flatMap bytes).length) :
    ∃ rest, past = later ++ a :: rest := by
  rcases List.append_eq_append_iff.1 split with ⟨mid, rfl, -⟩ | ⟨mid, rfl, rest⟩
  · rw [List.flatMap_append, List.length_append] at starts
    omega
  · cases mid with
    | nil => simp at starts
    | cons x mid =>
        cases rest
        exact ⟨mid, rfl⟩

end Arrival

namespace Inbox

/-- All of the bytes were looked at, and there is room for more. -/
structure Asks (i : Inbox) : Prop where
  looked : i.unseen = []
  room : i.bytes.length < capacity

/-- All of the bytes were looked at, and there is no room for more. -/
structure IsFull (i : Inbox) : Prop where
  looked : i.unseen = []
  full : capacity ≤ i.bytes.length

variable {d : UInt8} {i j : Inbox}

theorem asks_of_offer (h : i.offer d = (j, .more)) : j.Asks := by
  unfold offer at h
  split at h
  · cases h
  · simp only [Prod.mk.injEq, ite_eq_right_iff, reduceCtorEq, imp_false] at h
    rcases h with ⟨rfl, room⟩
    rw [scanned_look] at room
    exact ⟨rfl, by rw [bytes_look]; omega⟩

theorem isFull_of_offer (h : i.offer d = (j, .full)) : j.IsFull := by
  unfold offer at h
  split at h
  · cases h
  · simp only [Prod.mk.injEq, ite_eq_left_iff, reduceCtorEq, imp_false, Decidable.not_not] at h
    rcases h with ⟨rfl, full⟩
    rw [scanned_look] at full
    exact ⟨rfl, by rwa [bytes_look]⟩

/-- A full inbox has no line to offer, whatever is looked for. -/
theorem IsFull.offer_eq (isFull : i.IsFull) (d : UInt8) : i.offer d = (i.look, .full) := by
  have hnone : Line.cut? d i.unseen = none := by
    rw [isFull.looked]
    rfl
  have full : capacity ≤ i.look.scanned := by
    rw [scanned_look]
    exact isFull.full
  simp [offer, hnone, full]

theorem IsFull.look (isFull : i.IsFull) : i.look.IsFull where
  looked := rfl
  full := by rw [bytes_look]; exact isFull.full

/-- Where all of the bytes were looked at in vain there is no delimiter. -/
theorem not_mem_bytes_of_looked (clean : d ∉ i.seen) (looked : i.unseen = []) : d ∉ i.bytes :=
  not_mem_bytes clean (by rw [looked]; rfl)

end Inbox

namespace Channel

/-! ## Polls of a read -/

variable {l : Latch} {d : UInt8} {wait : Wait} {c c' c'' : Channel} {r : ReadPoll}
  {taken : List Arrival} {a : Arrival}

/-- Which arrivals a poll of a read takes off the script: each while there is room for more.  The
poll ends for want of room when there is none, it waits when there is room and nothing is to come,
and otherwise it fails by the latch or by an arrival that brings no bytes. -/
structure Draws (l : Latch) (c c' : Channel) (r : ReadPoll) (taken : List Arrival) : Prop where
  arrivals : c.wire.arrivals = taken ++ c'.wire.arrivals
  early : Arrival.StartBelow Inbox.capacity c.inbox.bytes.length taken
  full : r = .ready (.error .bufferFull) → c'.inbox.IsFull
  waits : ∀ wait, r = .pending wait → c'.inbox.Asks ∧ c'.wire.arrivals = []
  fails : ∀ e, r = .ready (.error e) →
    e = .bufferFull ∨ l.raised = true ∨ ∃ a ∈ taken, ¬a.IsPiece

/-- What one look at the latch and one read may come to. -/
theorem await_cases {r : Awaited} (h : c.await l wait = (c', r)) :
    (∃ a, r = .arrived ∧ c.wire.arrivals = a :: c'.wire.arrivals ∧
        c'.inbox = c.inbox.push a.bytes) ∨
      (∃ wait', r = .pending wait' ∧ c.wire.arrivals = [] ∧ c'.wire.arrivals = [] ∧
        c'.inbox = c.inbox) ∨
      ∃ e, r = .failed e ∧ e ≠ .bufferFull ∧ c'.inbox = c.inbox ∧
        (l.raised = true ∧ c'.wire.arrivals = c.wire.arrivals ∨
          ∃ a, c.wire.arrivals = a :: c'.wire.arrivals ∧ ¬a.IsPiece) := by
  unfold await at h
  split at h
  · rename_i s polled
    cases h
    have raised := Signal.raised_of_poll_eq_none (congrArg Prod.snd polled)
    exact .inr (.inr ⟨_, rfl, by simp, rfl, .inl ⟨raised, rfl⟩⟩)
  · -- The latch lets the wait go on, so the stream decides.
    unfold receive Wire.arrive at h
    cases due : c.wire.arrivals with
    | nil =>
        simp only [due] at h
        cases h
        exact .inr (.inl ⟨_, rfl, rfl, due, rfl⟩)
    | cons a later =>
        simp only [due] at h
        cases a with
        | piece bs =>
            cases bs with
            | nil =>
                cases h
                exact .inr (.inr ⟨_, rfl, by simp, rfl, .inr ⟨_, rfl, by simp [Arrival.IsPiece]⟩⟩)
            | cons b bs =>
                cases h
                exact .inl ⟨_, rfl, rfl, rfl⟩
        | close =>
            cases h
            exact .inr (.inr ⟨_, rfl, by simp, rfl, .inr ⟨_, rfl, by simp [Arrival.IsPiece]⟩⟩)
        | failure e =>
            cases h
            exact .inr (.inr ⟨_, rfl, by simp, rfl, .inr ⟨_, rfl, by simp [Arrival.IsPiece]⟩⟩)

theorem exists_arrival (h : c.await l wait = (c', .arrived)) :
    ∃ a, c.wire.arrivals = a :: c'.wire.arrivals ∧
      c'.inbox.bytes = c.inbox.bytes ++ a.bytes := by
  rcases await_cases h with ⟨a, -, arrivals, inbox⟩ | ⟨w, pending, -⟩ | ⟨e, failed, -⟩
  · exact ⟨a, arrivals, by rw [inbox, Inbox.bytes_push]⟩
  · cases pending
  · cases failed

/-- A poll that takes one more arrival first. -/
theorem Draws.cons (next : Draws l c' c'' r taken)
    (room : c.inbox.bytes.length < Inbox.capacity)
    (arrivals : c.wire.arrivals = a :: c'.wire.arrivals)
    (bytes : c'.inbox.bytes = c.inbox.bytes ++ a.bytes) : Draws l c c'' r (a :: taken) where
  arrivals := by rw [arrivals, next.arrivals, List.cons_append]
  early := by
    have later := next.early
    rw [bytes, List.length_append] at later
    exact ⟨room, later⟩
  full := next.full
  waits := next.waits
  fails e same := by
    rcases next.fails e same with full | raised | ⟨x, mem, other⟩
    · exact .inl full
    · exact .inr (.inl raised)
    · exact .inr (.inr ⟨x, List.mem_cons_of_mem a mem, other⟩)

/-- A poll that ends with what the inbox has to offer. -/
theorem Draws.of_offer (arrivals : c'.wire.arrivals = c.wire.arrivals)
    (full : r = .ready (.error .bufferFull) → c'.inbox.IsFull)
    (ends : (∃ line, r = .ready (.ok line)) ∨ r = .ready (.error .bufferFull)) :
    Draws l c c' r [] where
  arrivals := arrivals.symm
  early := trivial
  full := full
  waits wait same := by
    rcases ends with ⟨line, rfl⟩ | rfl <;> cases same
  fails e same := by
    rcases ends with ⟨line, rfl⟩ | rfl <;> cases same
    exact .inl rfl

/-- Every poll of a read that goes on does that. -/
theorem draws_resumeRead (l : Latch) (d : UInt8) (wait : Wait) (c : Channel)
    (asks : c.inbox.Asks) :
    ∃ taken, Draws l c (c.resumeRead l d wait).1 (c.resumeRead l d wait).2 taken := by
  -- By the recursion of the read: wherever it goes on, the inbox asks for more.
  fun_induction resumeRead l d wait c with
  | case1 wait c c' e awaited =>
      rcases await_cases awaited with ⟨a, arrived, -⟩ | ⟨wait', pending, -⟩ |
        ⟨e', failed, other, -, ⟨raised, arrivals⟩ | ⟨a, arrivals, pieceless⟩⟩
      · cases arrived
      · cases pending
      · cases failed
        refine ⟨[], arrivals.symm, trivial, by simp [other], by simp, ?_⟩
        exact fun e same => .inr (.inl raised)
      · cases failed
        refine ⟨[a], arrivals, ⟨asks.room, trivial⟩, by simp [other], by simp, ?_⟩
        exact fun e same => .inr (.inr ⟨a, by simp, pieceless⟩)
  | case2 wait c c' wait' awaited =>
      rcases await_cases awaited with ⟨a, arrived, -⟩ | ⟨w, -, before, after, inbox⟩ |
        ⟨e, failed, -⟩
      · cases arrived
      · refine ⟨[], by rw [before, after]; rfl, trivial, by simp, ?_, by simp⟩
        exact fun wait same => ⟨by rw [inbox]; exact asks, after⟩
      · cases failed
  | case3 wait c c' awaited i line offered =>
      rcases exists_arrival awaited with ⟨a, arrivals, bytes⟩
      have here : Draws l c' { c' with inbox := i } (.ready (.ok line)) [] :=
        .of_offer rfl (by simp) (by simp)
      exact ⟨[a], here.cons asks.room arrivals bytes⟩
  | case4 wait c c' awaited i offered =>
      rcases exists_arrival awaited with ⟨a, arrivals, bytes⟩
      have isFull : i.IsFull := Inbox.isFull_of_offer offered
      have here : Draws l c' { c' with inbox := i } (.ready (.error .bufferFull)) [] :=
        .of_offer rfl (fun _ => isFull) (by simp)
      exact ⟨[a], here.cons asks.room arrivals bytes⟩
  | case5 wait c c' awaited i offered ih =>
      rcases exists_arrival awaited with ⟨a, arrivals, bytes⟩
      have kept : i.bytes = c'.inbox.bytes := Inbox.given_append_bytes offered
      rcases ih (Inbox.asks_of_offer offered) with ⟨taken, next⟩
      exact ⟨a :: taken, next.cons asks.room arrivals (kept.trans bytes)⟩

/-- Every first poll of a read does that. -/
theorem draws_pollRead (l : Latch) (d : UInt8) (c : Channel) :
    ∃ taken, Draws l c (c.pollRead l d).1 (c.pollRead l d).2 taken := by
  cases offered : c.inbox.offer d with
  | mk i o =>
      cases o with
      | line bs =>
          simp only [pollRead, offer, offered]
          exact ⟨[], .of_offer rfl (by simp) (by simp)⟩
      | full =>
          simp only [pollRead, offer, offered]
          have isFull : i.IsFull := Inbox.isFull_of_offer offered
          exact ⟨[], .of_offer rfl (fun _ => isFull) (by simp)⟩
      | more =>
          simp only [pollRead, offer, offered]
          have kept : i.bytes = c.inbox.bytes := Inbox.given_append_bytes offered
          rcases draws_resumeRead l d .unpolled { c with inbox := i }
            (Inbox.asks_of_offer offered) with ⟨taken, draws⟩
          refine ⟨taken, draws.arrivals, ?_, draws.full, draws.waits, draws.fails⟩
          rw [← kept]
          exact draws.early

end Channel
end LineExchange
