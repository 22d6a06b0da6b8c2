import LineExchange.Proofs.Channel.Posting
import LineExchange.Proofs.Channel.Room

/-!
# Endless — reading from a stream that never runs dry

The loop of a read has no bound of its own: it goes on as long as pieces come without a delimiter in
them.  What ends it is the inbox.  The stream is read only while there is room for more, and a read
without bytes makes an end, so every turn of the loop that goes on uses up some of the room.  A
script runs out by itself, so here the stream is given anew for each turn, and there is no last one.
This file defines:

* `Channel.search` and `Channel.turn` — the search of the inbox, and one turn of the loop;
* `Channel.Turns` — what a turn comes to;
* `Channel.Attempt` — an attempt at a line between two turns, with the reads that it has made;
* `Channel.Surroundings` — how an attempt finds the latch and the stream, turn after turn;
* `Channel.Attempt.room` — how many more reads an attempt may make.

Polls of a read are made up of such turns (`pollRead_eq`, `resumeRead_eq`).  No turn makes more
reads than it takes off the room, and a turn that goes on takes some (`Attempt.spends_next`); so an
attempt makes no more reads than it had room for, and each of its polls comes to an end
(`terminates_on_endless_stream`).  A stream of single bytes takes all of the room
(`reads_of_dripping`).
-/

namespace LineExchange
namespace Channel

variable {l : Latch} {d : UInt8} {wait : Wait} {c c' : Channel} {r : Option ReadPoll} {w : Wire}

/-! ## Turns of the loop -/

/-- Searches the inbox.  There is no result where the loop goes on. -/
def search (d : UInt8) (c : Channel) : Channel × Option ReadPoll :=
  match c.inbox.offer d with
  | (i, .line bs) => ({ c with inbox := i }, some (.ready (.ok bs)))
  | (i, .full) => ({ c with inbox := i }, some (.ready (.error .bufferFull)))
  | (i, .more) => ({ c with inbox := i }, none)

/-- One turn of the loop: looks at the latch, reads once, and searches what came. -/
def turn (l : Latch) (d : UInt8) (wait : Wait) (c : Channel) : Channel × Option ReadPoll :=
  match c.await l wait with
  | (c, .failed e) => (c, some (.ready (.error e)))
  | (c, .pending wait) => (c, some (.pending wait))
  | (c, .arrived) => c.search d

def finishPoll (l : Latch) (d : UInt8) : Channel × Option ReadPoll → Channel × ReadPoll
  | (c, some r) => (c, r)
  | (c, none) => c.resumeRead l d .unpolled

/-- The first poll of a read searches the inbox, and then goes on. -/
theorem pollRead_eq (l : Latch) (d : UInt8) (c : Channel) :
    c.pollRead l d = finishPoll l d (c.search d) := by
  cases offered : c.inbox.offer d with
  | mk i o => cases o <;> simp only [pollRead, offer, search, offered, finishPoll]

/-- A poll that goes on makes a turn of the loop, and then goes on. -/
theorem resumeRead_eq (l : Latch) (d : UInt8) (wait : Wait) (c : Channel) :
    c.resumeRead l d wait = finishPoll l d (c.turn l d wait) := by
  rw [resumeRead]
  unfold turn
  split
  · rename_i awaited
    rw [awaited]
    rfl
  · rename_i awaited
    rw [awaited]
    rfl
  · rename_i c' awaited
    rw [awaited]
    cases offered : c'.inbox.offer d with
    | mk i o => cases o <;> simp only [search, offered, finishPoll]

/-- What a search comes to: the stream is left alone, and the loop goes on if all of the bytes were
looked at and there is room for more; else the read returns. -/
theorem search_cases (h : c.search d = (c', r)) :
    c'.wire = c.wire ∧ (r = none ∧ c'.inbox.Asks ∧ c'.inbox.bytes = c.inbox.bytes ∨
      ∃ result, r = some (.ready result)) := by
  unfold search at h
  split at h
  · cases h
    exact ⟨rfl, .inr ⟨_, rfl⟩⟩
  · cases h
    exact ⟨rfl, .inr ⟨_, rfl⟩⟩
  · rename_i i offered
    cases h
    exact ⟨rfl, .inl ⟨rfl, Inbox.asks_of_offer offered, Inbox.given_append_bytes offered⟩⟩

/-- Only a piece that has bytes arrives. -/
theorem isPiece_of_arrived {a : Arrival} (h : c.await l wait = (c', .arrived))
    (first : c.wire.arrivals = a :: c'.wire.arrivals) : a.IsPiece := by
  unfold await at h
  split at h
  · cases h
  · simp only [receive, Wire.arrive, first] at h
    have arrived := congrArg Prod.snd h
    cases a with
    | piece bs =>
        cases bs with
        | nil => cases arrived
        | cons b bs => exact ⟨b, bs, rfl⟩
    | close => cases arrived
    | failure e => cases arrived

/-- What a turn comes to.  It goes on with a piece more in the inbox, and there is still room; or it
waits, as nothing has come; or it returns, with at most one arrival taken off the stream. -/
inductive Turns (c c' : Channel) : Option ReadPoll → Prop where
  | goesOn {a : Arrival} (isPiece : a.IsPiece) (arrivals : c.wire.arrivals = a :: c'.wire.arrivals)
      (bytes : c'.inbox.bytes = c.inbox.bytes ++ a.bytes) (asks : c'.inbox.Asks) : Turns c c' none
  | waits {wait : Wait} (arrivals : c'.wire.arrivals = c.wire.arrivals)
      (inbox : c'.inbox = c.inbox) : Turns c c' (some (.pending wait))
  | returns {result : Except ChannelError Bytes}
      (arrivals : c.wire.arrivals.length ≤ c'.wire.arrivals.length + 1) :
      Turns c c' (some (.ready result))

/-- A search of what has just arrived. -/
theorem Turns.of_search {c'' : Channel} (awaited : c.await l wait = (c', .arrived))
    (searched : c'.search d = (c'', r)) : Turns c c'' r := by
  rcases exists_arrival awaited with ⟨a, arrivals, bytes⟩
  have isPiece := isPiece_of_arrived awaited arrivals
  rcases search_cases searched with ⟨wire, ⟨rfl, asks, kept⟩ | ⟨result, rfl⟩⟩
  · rw [← wire] at arrivals
    exact .goesOn isPiece arrivals (kept.trans bytes) asks
  · exact .returns (by simp [arrivals, wire])

/-- Every turn does one of these. -/
theorem turns_of_turn (h : c.turn l d wait = (c', r)) : Turns c c' r := by
  unfold turn at h
  split at h
  · rename_i awaited
    cases h
    rcases await_cases awaited with ⟨a, arrived, -⟩ | ⟨w, pending, -⟩ |
      ⟨e, -, -, -, ⟨-, arrivals⟩ | ⟨a, arrivals, -⟩⟩
    · cases arrived
    · cases pending
    · -- A raised latch leaves the stream alone.
      exact .returns (by simp [arrivals])
    · exact .returns (by simp [arrivals])
  · rename_i awaited
    cases h
    rcases await_cases awaited with ⟨a, arrived, -⟩ | ⟨w, -, before, after, inbox⟩ |
      ⟨e, failed, -⟩
    · cases arrived
    · exact .waits (after.trans before.symm) inbox
    · cases failed
  · rename_i awaited
    exact .of_search awaited h

/-- How many more reads may follow a turn: each of them but the last brings a byte. -/
def room (c : Channel) : Option ReadPoll → Nat
  | some (.ready _) => 0
  | none | some (.pending _) => Inbox.capacity - c.inbox.bytes.length

/-- A turn that goes on uses up some of the room. -/
theorem Turns.falls (turns : Turns c c' r) (asks : c.inbox.Asks) (goesOn : r = none) :
    c'.room r < Inbox.capacity - c.inbox.bytes.length := by
  cases turns with
  | goesOn isPiece _ bytes _ =>
      -- A piece without bytes would use up nothing, but it does not arrive: it is the end.
      rcases isPiece with ⟨b, bs, rfl⟩
      have longer : c.inbox.bytes.length < c'.inbox.bytes.length := by
        simp [bytes, Arrival.bytes]
      have below := asks.room
      simp only [room]
      omega
  | waits => cases goesOn
  | returns => cases goesOn

/-- A turn makes no more reads than it uses up of the room. -/
theorem Turns.pays (turns : Turns c c' r) (asks : c.inbox.Asks) :
    c.wire.arrivals.length - c'.wire.arrivals.length + c'.room r ≤
      Inbox.capacity - c.inbox.bytes.length := by
  have falls := turns.falls asks
  cases turns with
  | goesOn _ arrivals _ _ =>
      have used := falls rfl
      rw [arrivals, List.length_cons, Nat.add_sub_cancel_left]
      omega
  | waits arrivals inbox =>
      simp only [room, arrivals, inbox, Nat.sub_self, Nat.zero_add]
      exact Nat.le_refl _
  | returns arrivals =>
      have below := asks.room
      simp only [room]
      omega

/-- A turn behind which the read has not returned asks for more. -/
theorem Turns.asks (turns : Turns c c' r) (asks : c.inbox.Asks)
    (unreturned : ∀ result, r ≠ some (.ready result)) : c'.inbox.Asks := by
  cases turns with
  | goesOn _ _ _ asks' => exact asks'
  | waits _ inbox =>
      rw [inbox]
      exact asks
  | returns _ => exact absurd rfl (unreturned _)

/-! ## Attempts -/

/-- An attempt at a line, between two turns of its loop. -/
structure Attempt where
  channel : Channel
  /-- How the last poll ended, unless it is to go on. -/
  ended : Option ReadPoll
  /-- How many reads of the stream have returned since the attempt began. -/
  reads : Nat

namespace Attempt

def start (d : UInt8) (c : Channel) : Attempt where
  channel := (c.search d).1
  ended := (c.search d).2
  reads := 0

/-- A turn, with the latch and the stream as it finds them.  A read that returns is one that takes
an arrival off the stream. -/
def turn (l : Latch) (w : Wire) (d : UInt8) (wait : Wait) (x : Attempt) : Attempt :=
  let (c, r) := { x.channel with wire := w }.turn l d wait
  ⟨c, r, x.reads + (w.arrivals.length - c.wire.arrivals.length)⟩

def next (l : Latch) (w : Wire) (d : UInt8) (x : Attempt) : Attempt :=
  match x.ended with
  | none => x.turn l w d .unpolled
  | some (.pending wait) => x.turn l w d wait
  | some (.ready _) => x

def IsOpen (x : Attempt) : Prop :=
  ∀ result, x.ended ≠ some (.ready result)

def Asks (x : Attempt) : Prop :=
  x.IsOpen → x.channel.inbox.Asks

/-- How many more reads an attempt may make. -/
def room (x : Attempt) : Nat :=
  x.channel.room x.ended

variable {x : Attempt}

theorem room_of_isOpen (hopen : x.IsOpen) :
    x.room = Inbox.capacity - x.channel.inbox.bytes.length := by
  unfold room Channel.room
  split
  · rename_i result ended
    exact absurd ended (hopen result)
  · rfl
  · rfl

/-- An attempt makes a turn, or it has returned. -/
theorem next_cases (x : Attempt) (l : Latch) (w : Wire) (d : UInt8) :
    x.IsOpen ∧ (∃ wait, x.next l w d = x.turn l w d wait) ∨
      (∃ result, x.ended = some (.ready result)) ∧ x.next l w d = x := by
  unfold IsOpen next
  split
  · rename_i ended
    exact .inl ⟨by simp [ended], .unpolled, rfl⟩
  · rename_i wait ended
    exact .inl ⟨by simp [ended], wait, rfl⟩
  · rename_i result ended
    exact .inr ⟨⟨result, ended⟩, rfl⟩

/-- An attempt that begins has no more room than the inbox. -/
theorem start_spec (d : UInt8) (c : Channel) :
    (start d c).Asks ∧ (start d c).room ≤ Inbox.capacity - c.inbox.bytes.length := by
  cases searched : c.search d with
  | mk c' r =>
      have same : start d c = ⟨c', r, 0⟩ := by simp only [start, searched]
      rw [same]
      rcases search_cases searched with ⟨-, ⟨rfl, asks, kept⟩ | ⟨result, rfl⟩⟩
      · refine ⟨fun _ => asks, ?_⟩
        simp only [room, Channel.room, kept]
        exact Nat.le_refl _
      · exact ⟨fun hopen => absurd rfl (hopen result), Nat.zero_le _⟩

/-- What a turn does to an attempt: no more reads than it takes off the room, and some of the room
is taken where the loop goes on. -/
structure Spends (x y : Attempt) : Prop where
  asks : y.Asks
  pays : y.reads + y.room ≤ x.reads + x.room
  falls : y.ended = none → y.room < x.room

theorem spends_turn (asks : x.Asks) (hopen : x.IsOpen) (l : Latch) (w : Wire) (d : UInt8)
    (wait : Wait) : x.Spends (x.turn l w d wait) := by
  have asked : x.channel.inbox.Asks := asks hopen
  have turns : Turns { x.channel with wire := w } (x.turn l w d wait).channel
      (x.turn l w d wait).ended := turns_of_turn rfl
  refine ⟨turns.asks asked, ?_, ?_⟩
  · have pays := turns.pays asked
    rw [room_of_isOpen hopen]
    calc
      (x.turn l w d wait).reads + (x.turn l w d wait).room
          = x.reads + (w.arrivals.length - (x.turn l w d wait).channel.wire.arrivals.length
              + (x.turn l w d wait).room) := Nat.add_assoc ..
      _ ≤ x.reads + (Inbox.capacity - x.channel.inbox.bytes.length) := Nat.add_le_add_left pays _
  · intro goesOn
    rw [room_of_isOpen hopen]
    exact turns.falls asked goesOn

/-- Every turn does that. -/
theorem spends_next (asks : x.Asks) (l : Latch) (w : Wire) (d : UInt8) :
    x.Spends (x.next l w d) := by
  rcases x.next_cases l w d with ⟨hopen, wait, same⟩ | ⟨⟨result, ended⟩, same⟩
  · rw [same]
    exact spends_turn asks hopen l w d wait
  · rw [same]
    refine ⟨asks, Nat.le_refl _, ?_⟩
    intro goesOn
    cases goesOn.symm.trans ended

end Attempt

/-! ## Surroundings without an end -/

/-- How an attempt finds the latch and the stream, turn after turn.  There is no last turn, and
between two of them anything may become of both. -/
structure Surroundings where
  latch : Nat → Latch
  wire : Nat → Wire

namespace Surroundings

variable {s : Surroundings}

/-- An attempt at a line that ends in `d`, after `k` turns. -/
def after (s : Surroundings) (d : UInt8) (c : Channel) : Nat → Attempt
  | 0 => .start d c
  | k + 1 => (s.after d c k).next (s.latch k) (s.wire k) d

theorem asks_after (s : Surroundings) (d : UInt8) (c : Channel) (k : Nat) :
    (s.after d c k).Asks := by
  induction k with
  | zero => exact (Attempt.start_spec d c).1
  | succ k ih => exact (Attempt.spends_next ih (s.latch k) (s.wire k) d).asks

/-- The reads that were made, and those that may be made, were in the room at the start. -/
theorem reads_add_room_le (s : Surroundings) (d : UInt8) (c : Channel) (k : Nat) :
    (s.after d c k).reads + (s.after d c k).room ≤ Inbox.capacity - c.inbox.bytes.length := by
  induction k with
  | zero =>
      have fresh : (s.after d c 0).reads = 0 := rfl
      rw [fresh, Nat.zero_add]
      exact (Attempt.start_spec d c).2
  | succ k ih =>
      have spends := Attempt.spends_next (s.asks_after d c k) (s.latch k) (s.wire k) d
      exact Nat.le_trans spends.pays ih

/-- The poll that goes on behind `k` turns ends behind `m` turns. -/
structure EndsPoll (s : Surroundings) (d : UInt8) (c : Channel) (k m : Nat) : Prop where
  later : k < m
  goesOn : ∀ j, k < j → j < m → (s.after d c j).ended = none
  ends : ∃ poll, (s.after d c m).ended = some poll

/-- Every poll of an attempt ends while there is room. -/
theorem exists_endsPoll {k : Nat} (hopen : (s.after d c k).IsOpen) :
    ∃ m, m ≤ k + (s.after d c k).room ∧ s.EndsPoll d c k m := by
  -- By induction on the room, of which every turn that goes on uses up some.
  induction measure : (s.after d c k).room using Nat.strongRecOn generalizing k with
  | ind n ih =>
    subst measure
    have asks := s.asks_after d c k
    have spends : (s.after d c k).Spends (s.after d c (k + 1)) :=
      Attempt.spends_next asks (s.latch k) (s.wire k) d
    cases ended : (s.after d c (k + 1)).ended with
    | some poll =>
        have below := (asks hopen).room
        have room := Attempt.room_of_isOpen hopen
        exact ⟨k + 1, by omega, Nat.lt_succ_self k, by omega, poll, ended⟩
    | none =>
        -- The poll goes on with less room, and ends where it ends from there.
        have falls := spends.falls ended
        have open' : (s.after d c (k + 1)).IsOpen := by simp [Attempt.IsOpen, ended]
        rcases ih _ falls open' rfl with ⟨m, le, later, goesOn, ends⟩
        refine ⟨m, by omega, Nat.lt_of_succ_lt later, ?_, ends⟩
        intro j behind before
        rcases Nat.eq_or_lt_of_le behind with rfl | further
        · exact ended
        · exact goesOn j further before

end Surroundings

/-- Whatever a read finds on the stream and of the latch, turn after turn and without an end, and
whatever is in the inbox as it begins: until it returns it reads the stream at most as often as
bytes are wanting to the capacity of the inbox; and each of its polls ends, after so many turns of
the loop at most, with a result or in waiting.  The polls of a channel are made up of these
turns. -/
theorem terminates_on_endless_stream (s : Surroundings) (d : UInt8) (c : Channel) :
    (∀ k, (s.after d c k).reads ≤ Inbox.capacity - c.inbox.bytes.length) ∧
      (∀ k, (s.after d c k).IsOpen →
        ∃ m, m ≤ k + (Inbox.capacity - (s.after d c k).channel.inbox.bytes.length) ∧
          s.EndsPoll d c k m) ∧
      (∀ l, c.pollRead l d = finishPoll l d (c.search d)) ∧
      ∀ l wait, c.resumeRead l d wait = finishPoll l d (c.turn l d wait) := by
  refine ⟨?_, ?_, fun l => pollRead_eq l d c, fun l wait => resumeRead_eq l d wait c⟩
  · intro k
    exact Nat.le_trans (Nat.le_add_right _ _) (s.reads_add_room_le d c k)
  · intro k hopen
    have ends := Surroundings.exists_endsPoll hopen
    rwa [Attempt.room_of_isOpen hopen] at ends

/-- Letters come one at a time, and before every third turn there is none. -/
def haltingLetters : Surroundings where
  latch _ := .fresh
  wire k := Wire.blank.withArrivals (if k % 3 = 2 then [] else [.piece [97]])

def leftover : Channel where
  wire := .blank
  inbox := .ofUnseen [98, 99]
  signal := .first

theorem terminates_of_haltingLetters :
    (haltingLetters.after 10 leftover 3).ended = some (.pending .watching) ∧
      (haltingLetters.after 10 leftover 3).reads = 2 ∧
      (∀ k, (haltingLetters.after 10 leftover k).reads ≤ 65534) ∧
      ∃ m, m ≤ 3 + 65532 ∧ haltingLetters.EndsPoll 10 leftover 3 m := by
  have halts : (haltingLetters.after 10 leftover 3).ended = some (.pending .watching) := rfl
  rcases terminates_on_endless_stream haltingLetters 10 leftover with ⟨reads, polls, -⟩
  exact ⟨halts, rfl, reads, polls 3 (by simp [Attempt.IsOpen, halts])⟩

/-! ## All of the room -/

def droplet (b : UInt8) : Wire :=
  Wire.blank.withArrivals [.piece [b]]

def dripping (b : UInt8) : Surroundings where
  latch _ := .never
  wire _ := droplet b

variable {b : UInt8}

/-- Where no delimiter is found, everything was looked at, and the loop goes on if there is room. -/
theorem search_of_free (free : d ∉ c.inbox.unseen) :
    c.search d = ({ c with inbox := c.inbox.look },
      if Inbox.capacity ≤ c.inbox.bytes.length then some (.ready (.error .bufferFull))
      else none) := by
  have hnone : Line.cut? d c.inbox.unseen = none := Line.cut?_eq_none_iff.2 free
  unfold search Inbox.offer
  simp only [hnone, Inbox.scanned_look]
  by_cases full : Inbox.capacity ≤ c.inbox.bytes.length
  · simp only [if_pos full]
  · simp only [if_neg full]

/-- A turn that finds one byte puts it into the inbox. -/
theorem turn_droplet (looked : c.inbox.unseen = []) (other : b ≠ d) :
    { c with wire := droplet b }.turn .never d .unpolled =
      ({ wire := .blank, inbox := (c.inbox.push [b]).look, signal := ⟨0⟩ },
        if Inbox.capacity ≤ c.inbox.bytes.length + 1 then some (.ready (.error .bufferFull))
        else none) := by
  have awaited : { c with wire := droplet b }.await .never .unpolled =
      ({ wire := .blank, inbox := c.inbox.push [b], signal := ⟨0⟩ }, .arrived) := rfl
  have free : d ∉ (c.inbox.push [b]).unseen := by
    simp [Inbox.push, looked, other.symm]
  simp only [turn, awaited]
  rw [search_of_free free, Inbox.bytes_push, List.length_append, List.length_singleton]

/-- As long as there is room, each turn reads one byte. -/
theorem after_dripping (free : d ∉ c.inbox.unseen) (other : b ≠ d) (k : Nat)
    (le : k ≤ Inbox.capacity - c.inbox.bytes.length) :
    ∃ c', c'.inbox.unseen = [] ∧ c'.inbox.bytes.length = c.inbox.bytes.length + k ∧
      (dripping b).after d c k = ⟨c', if Inbox.capacity ≤ c.inbox.bytes.length + k then
        some (.ready (.error .bufferFull)) else none, k⟩ := by
  -- By the turns: each of them leaves a letter more in the inbox, and all of it looked at.
  induction k with
  | zero =>
      refine ⟨{ c with inbox := c.inbox.look }, rfl, by simp, ?_⟩
      simp only [Surroundings.after, Attempt.start, search_of_free free, Nat.add_zero]
  | succ k ih =>
      rcases ih (by omega) with ⟨c', looked, length, after⟩
      have room : ¬Inbox.capacity ≤ c.inbox.bytes.length + k := by omega
      rw [if_neg room] at after
      have longer : (c'.inbox.push [b]).look.bytes.length = c.inbox.bytes.length + (k + 1) := by
        rw [Inbox.bytes_look, Inbox.bytes_push, List.length_append, length]
        rfl
      refine ⟨⟨.blank, (c'.inbox.push [b]).look, ⟨0⟩⟩, rfl, longer, ?_⟩
      calc
        (dripping b).after d c (k + 1) = Attempt.next .never (droplet b) d ⟨c', none, k⟩ := by
          rw [← after]
          rfl
        _ = _ := by
          simp only [Attempt.next, Attempt.turn, turn_droplet looked other, length, Nat.add_assoc]
          rfl

/-- A stream of single bytes that never ends and never brings the delimiter is read until there is
no room, as often as it may be. -/
theorem reads_of_dripping (free : d ∉ c.inbox.unseen) (other : b ≠ d) :
    let x := (dripping b).after d c (Inbox.capacity - c.inbox.bytes.length)
    x.reads = Inbox.capacity - c.inbox.bytes.length ∧
      x.ended = some (.ready (.error .bufferFull)) := by
  intro x
  rcases after_dripping free other _ (Nat.le_refl _) with ⟨c', -, -, after⟩
  have full : Inbox.capacity ≤
      c.inbox.bytes.length + (Inbox.capacity - c.inbox.bytes.length) := by omega
  rw [if_pos full] at after
  exact ⟨congrArg Attempt.reads after, congrArg Attempt.ended after⟩

end Channel
end LineExchange
