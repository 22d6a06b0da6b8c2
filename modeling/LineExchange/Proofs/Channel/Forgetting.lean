import Mathlib.Data.List.Forall2
import LineExchange.Proofs.Channel.Agreement

/-!
# Forgetting — the begun line that an error takes away

A patient reader keeps a line that was begun in the read itself, so an error that ends the read takes
the line away, and the next read begins in the middle of it.  This file defines:

* `Line.Fits` — bytes in which no line is over the limit;
* `Arrival.stop?` — the error with which an arrival ends a read that waits for it;
* `Patient.readings` — what one read after another comes to, behind errors as well;
* `Patient.accounts` — what these come to, said by the lines that came between the errors;
* `Patient.StopsBetween` — errors that come where no line was begun, or none is ended any more.

The readings are what is accounted for (`readings_eq_take`).  So every delimiter still ends one line,
of which the part before the last error is missing (`forall₂_suffix`), and the lines are those that
were sent exactly when the errors come between them (`given_eq_iff`).  A channel keeps the begun
line in its inbox, and loses nothing where a patient reader does (`forgets_begun_line`).
-/

namespace LineExchange

/-! ## Lines with begun lines before and behind them -/

namespace Line

variable {d : UInt8} {bs rest t : Bytes} {lines : List Bytes}

theorem segments_of_free (free : d ∉ bs) : segments d bs = [] := by
  simp [segments, List.splitOn_eq_singleton free]

theorem tail_of_free (free : d ∉ bs) : tail d bs = bs := by
  simp [tail, List.splitOn_eq_singleton free]

theorem tail_flatten_append (h : ∀ line ∈ lines, IsLine d line) :
    tail d (lines.flatten ++ rest) = tail d rest := by
  induction lines with
  | nil => rfl
  | cons line lines ih =>
      have first : IsLine d line := h line List.mem_cons_self
      rw [List.flatten_cons, List.append_assoc, tail_append first]
      exact ih fun other mem => h other (List.mem_cons_of_mem line mem)

/-- Bytes are some lines and the beginning of another. -/
theorem exists_lines (d : UInt8) (bs : Bytes) :
    ∃ (lines : List Bytes) (t : Bytes),
      bs = lines.flatten ++ t ∧ (∀ line ∈ lines, IsLine d line) ∧ d ∉ t := by
  induction bs with
  | nil => exact ⟨[], [], rfl, by simp, by simp⟩
  | cons b bs ih =>
      rcases ih with ⟨lines, t, rfl, areLines, free⟩
      by_cases here : b = d
      · have single : IsLine d [b] := ⟨[], by simp [here], by simp⟩
        exact ⟨[b] :: lines, t, rfl, by simpa [single] using areLines, free⟩
      · -- The byte stands before the first line, or before what was begun.
        have before : d ∉ [b] := by simpa using Ne.symm here
        cases lines with
        | nil => exact ⟨[], b :: t, rfl, by simp, by simp [free, Ne.symm here]⟩
        | cons line lines =>
            have longer := (areLines line List.mem_cons_self).append_left before
            refine ⟨([b] ++ line) :: lines, t, by simp, ?_, free⟩
            intro other mem
            rcases List.mem_cons.1 mem with rfl | later
            · exact longer
            · exact areLines other (List.mem_cons_of_mem line later)

/-- Behind a begun line the first segment is longer by it, and the others are the same. -/
theorem segments_append_left (free : d ∉ t) (mem : d ∈ bs) :
    ∃ line others, segments d bs = line :: others ∧ segments d (t ++ bs) = (t ++ line) :: others := by
  cases found : cut? d bs with
  | none => exact absurd mem (cut?_eq_none_iff.1 found)
  | some cut =>
      rcases cut with ⟨line, rest⟩
      have isLine := isLine_of_cut? found
      rw [← append_of_cut? found, segments_append isLine, ← List.append_assoc,
        segments_append (isLine.append_left free)]
      exact ⟨line, segments d rest, rfl, rfl⟩

/-- No line of the bytes is over the limit: nowhere are so many in a row without the delimiter. -/
def Fits (d : UInt8) (bs : Bytes) : Prop :=
  ∀ part, part <:+: bs → d ∉ part → part.length < Inbox.capacity

theorem Fits.of_append_right (fits : Fits d (bs ++ rest)) : Fits d rest :=
  fun part inside free => fits part (inside.trans (List.suffix_append bs rest).isInfix) free

theorem Fits.of_short (short : bs.length < Inbox.capacity) : Fits d bs :=
  fun _ inside _ => Nat.lt_of_le_of_lt inside.length_le short

end Line

/-- The error with which an arrival ends a read that waits for it; bytes end none, and neither does
an interruption. -/
def Arrival.stop? : Arrival → Option ChannelError
  | .piece [] | .close => some .endOfStream
  | .piece (_ :: _) => none
  | .failure e => if e.kind = .interrupted then none else some (.io e)

theorem Arrival.bytes_of_stop? {a : Arrival} {e : ChannelError} (stop : a.stop? = some e) :
    a.bytes = [] := by
  cases a with
  | piece bs =>
      cases bs with
      | nil => rfl
      | cons b bs => cases stop
  | close => rfl
  | failure e => rfl

namespace Patient

open Line

/-! ## What the reads come to -/

/-- What at most `n` reads come to, one after another and behind errors as well, as long as they
end. -/
def readings (d : UInt8) : Nat → Patient → List (Except ChannelError Bytes)
  | 0, _ => []
  | n + 1, r =>
      match r.readLine d with
      | (r', some result) => result :: readings d n r'
      | (_, none) => []

/-- What reads come to when the bytes `front` came since the last of them that ended with an error:
the lines of what comes between two errors, and each error; what is begun before it is dropped. -/
def accounts (d : UInt8) (front : Bytes) : List Arrival → List (Except ChannelError Bytes)
  | [] => (segments d front).map .ok
  | a :: rest =>
      match a.stop? with
      | none => accounts d (front ++ a.bytes) rest
      | some e => (segments d front).map .ok ++ .error e :: accounts d [] rest

def given (results : List (Except ChannelError Bytes)) : List Bytes :=
  results.filterMap Except.toOption

/-- The arrivals that end a read come where no line was begun, or none is ended any more. -/
def StopsBetween (d : UInt8) (front : Bytes) : List Arrival → Prop
  | [] => True
  | a :: rest =>
      match a.stop? with
      | none => StopsBetween d (front ++ a.bytes) rest
      | some _ => (tail d front = [] ∨ d ∉ rest.flatMap Arrival.bytes) ∧ StopsBetween d [] rest

variable {d : UInt8} {front line pending rest : Bytes} {room : Nat} {a : Arrival}
  {arrivals later : List Arrival} {e : ChannelError}

theorem accounts_of_go (go : a.stop? = none) :
    accounts d front (a :: later) = accounts d (front ++ a.bytes) later := by
  simp only [accounts, go]

theorem accounts_of_stop (stop : a.stop? = some e) :
    accounts d front (a :: later) =
      (segments d front).map .ok ++ .error e :: accounts d [] later := by
  simp only [accounts, stop]

/-- A line that came is accounted for, and then the rest is. -/
theorem accounts_append (isLine : IsLine d line) (front : Bytes) (arrivals : List Arrival) :
    accounts d (line ++ front) arrivals = .ok line :: accounts d front arrivals := by
  induction arrivals generalizing front with
  | nil => simp [accounts, segments_append isLine]
  | cons a later ih =>
      cases stop : a.stop? with
      | none => rw [accounts_of_go stop, accounts_of_go stop, List.append_assoc, ih]
      | some e =>
          rw [accounts_of_stop stop, accounts_of_stop stop, segments_append isLine]
          rfl

/-- A read came to the first of what is accounted for, and leaves the others to the next. -/
def Leads (d : UInt8) (front : Bytes) (arrivals : List Arrival) :
    Patient × Option (Except ChannelError Bytes) → Prop
  | (r, some result) =>
      accounts d front arrivals = result :: accounts d r.pending r.arrivals ∧
        Fits d (r.pending ++ r.arrivals.flatMap Arrival.bytes)
  | (_, none) => accounts d front arrivals = []

theorem leads_of_go (go : a.stop? = none)
    {r : Patient × Option (Except ChannelError Bytes)} (leads : Leads d (front ++ a.bytes) later r) :
    Leads d front (a :: later) r := by
  rcases r with ⟨r, result⟩
  cases result with
  | none => exact (accounts_of_go go).trans leads
  | some result => exact ⟨(accounts_of_go go).trans leads.1, leads.2⟩

/-- A line that was begun goes on with what comes, unless that ends the read. -/
theorem collect_of_short {begun : Bytes} {room' : Nat}
    (filled : fill d room line pending = .short begun room') :
    collect d room line pending (a :: later) =
      match a.stop? with
      | none => collect d room' begun a.bytes later
      | some e => (⟨[], later⟩, some (.error e)) := by
  cases a with
  | piece bs => cases bs <;> simp only [collect, filled, Arrival.stop?, Arrival.bytes]
  | close => simp only [collect, filled, Arrival.stop?]
  | failure e =>
      by_cases again : e.kind = .interrupted <;>
        simp [collect, filled, Arrival.stop?, Arrival.bytes, again]

/-- A line that the pending bytes end is what is accounted for first; and they fill up none. -/
theorem leads_or_short (free : d ∉ line) (limited : line.length + room = Inbox.capacity)
    (fits : Fits d (line ++ (pending ++ arrivals.flatMap Arrival.bytes))) :
    Leads d (line ++ pending) arrivals (collect d room line pending arrivals) ∨
      fill d room line pending = .short (line ++ pending) (room - pending.length) ∧
        d ∉ line ++ pending ∧ pending.length < room := by
  rcases fill_cases d room line pending with
    ⟨head, filled, isLine, whole, -⟩ | ⟨filled, free', long⟩ | ⟨filled, free', short⟩
  · rw [collect_of_line filled]
    have isLine' := isLine.append_left free
    have split : line ++ pending = (line ++ head) ++ pending.drop head.length := by
      rw [List.append_assoc, whole]
    refine .inl ⟨?_, ?_⟩
    · rw [split]
      exact accounts_append isLine' _ arrivals
    · rw [← List.append_assoc, split, List.append_assoc] at fits
      exact fits.of_append_right
  · -- The line would be over the limit.
    have inside : line ++ pending.take room <:+:
        line ++ (pending ++ arrivals.flatMap Arrival.bytes) := by
      apply List.IsPrefix.isInfix
      apply (List.prefix_append_right_inj line).2
      exact (List.take_prefix room pending).trans (List.prefix_append _ _)
    have less := fits _ inside (by simp [free, free'])
    rw [List.length_append, List.length_take_of_le long] at less
    omega
  · exact .inr ⟨filled, by simp [free, free'], short⟩

/-- Collecting behind the bytes of a line that was begun comes to what is accounted for first. -/
theorem collect_leads (free : d ∉ line) (limited : line.length + room = Inbox.capacity)
    (fits : Fits d (line ++ (pending ++ arrivals.flatMap Arrival.bytes))) :
    Leads d (line ++ pending) arrivals (collect d room line pending arrivals) := by
  -- By the arrivals: each of them makes the begun line longer, or ends the read.
  induction arrivals generalizing room line pending with
  | nil =>
      rcases leads_or_short free limited fits with leads | ⟨filled, free', -⟩
      · exact leads
      · simp only [collect, filled]
        show accounts d (line ++ pending) [] = []
        rw [accounts, segments_of_free free', List.map_nil]
  | cons a later ih =>
      rcases leads_or_short free limited fits with leads | ⟨filled, free', short⟩
      · exact leads
      · rw [collect_of_short filled]
        cases stop : a.stop? with
        | none =>
            apply leads_of_go stop
            apply ih free'
            · rw [List.length_append]
              omega
            · simpa using fits
        | some e =>
            refine ⟨?_, ?_⟩
            · rw [accounts_of_stop stop, segments_of_free free']
              rfl
            · rw [List.flatMap_cons, Arrival.bytes_of_stop? stop, ← List.append_assoc] at fits
              exact fits.of_append_right

/-- The readings are what is accounted for. -/
theorem readings_eq_take {r : Patient}
    (fits : Fits d (r.pending ++ r.arrivals.flatMap Arrival.bytes)) (n : Nat) :
    readings d n r = (accounts d r.pending r.arrivals).take n := by
  induction n generalizing r with
  | zero => rfl
  | succ n ih =>
      have leads : Leads d r.pending r.arrivals (r.readLine d) :=
        collect_leads List.not_mem_nil (Nat.zero_add _) fits
      cases did : r.readLine d with
      | mk r' came =>
          rw [did] at leads
          cases came with
          | none =>
              have nothing : accounts d r.pending r.arrivals = [] := leads
              simp only [readings, did, nothing, List.take_nil]
          | some result =>
              rcases leads with ⟨first, fits'⟩
              simp only [readings, did]
              rw [first, List.take_succ_cons, ih fits']

/-! ## Lines that were sent -/

theorem given_map_ok (lines : List Bytes) : given (lines.map .ok) = lines := by
  induction lines with
  | nil => rfl
  | cons line lines ih => exact congrArg (line :: ·) ih

theorem given_of_stop (stop : a.stop? = some e) :
    given (accounts d front (a :: later)) = segments d front ++ given (accounts d [] later) := by
  rw [accounts_of_stop stop, given, List.filterMap_append]
  exact congrArg (· ++ _) (given_map_ok _)

/-- What is sent before a read ends and what is sent after it, as lines and a begun line. -/
theorem exists_lines_of_stop (d : UInt8) (stop : a.stop? = some e) (front : Bytes)
    (later : List Arrival) :
    ∃ lines begun, segments d front = lines ∧ tail d front = begun ∧ d ∉ begun ∧
      segments d (front ++ (a :: later).flatMap Arrival.bytes) =
        lines ++ segments d (begun ++ later.flatMap Arrival.bytes) := by
  rcases exists_lines d front with ⟨lines, begun, rfl, areLines, free⟩
  refine ⟨lines, begun, ?_, ?_, free, ?_⟩
  · rw [segments_flatten_append areLines, segments_of_free free, List.append_nil]
  · rw [tail_flatten_append areLines, tail_of_free free]
  · rw [List.flatMap_cons, Arrival.bytes_of_stop? stop, List.nil_append, List.append_assoc,
      segments_flatten_append areLines]

/-- Ends of lines are ends of lines that are longer by what was begun before them. -/
theorem forall₂_suffix_append_left {ends : List Bytes} {begun bs : Bytes} (free : d ∉ begun)
    (h : List.Forall₂ (· <:+ ·) ends (segments d bs)) :
    List.Forall₂ (· <:+ ·) ends (segments d (begun ++ bs)) := by
  by_cases mem : d ∈ bs
  · rcases segments_append_left free mem with ⟨line, others, same, longer⟩
    rw [same] at h
    rw [longer]
    cases h with
    | cons first rest => exact .cons (first.trans (List.suffix_append begun line)) rest
  · rw [segments_of_free mem] at h
    rw [segments_of_free (by simp [free, mem])]
    exact h

/-- The lines that are given are the ends of the lines that were sent, one for each. -/
theorem forall₂_suffix (d : UInt8) (front : Bytes) (arrivals : List Arrival) :
    List.Forall₂ (· <:+ ·) (given (accounts d front arrivals))
      (segments d (front ++ arrivals.flatMap Arrival.bytes)) := by
  induction arrivals generalizing front with
  | nil =>
      rw [accounts, given_map_ok, List.flatMap_nil, List.append_nil]
      exact List.forall₂_same.2 fun line _ => List.suffix_refl line
  | cons a later ih =>
      cases stop : a.stop? with
      | none =>
          rw [accounts_of_go stop, List.flatMap_cons, ← List.append_assoc]
          exact ih (front ++ a.bytes)
      | some e =>
          rcases exists_lines_of_stop d stop front later with ⟨lines, begun, same, -, free, split⟩
          rw [given_of_stop stop, split, same]
          apply List.rel_append
          · exact List.forall₂_same.2 fun line _ => List.suffix_refl line
          · exact forall₂_suffix_append_left free (ih [])

/-- Ends of lines are not the lines themselves if something was begun before the first. -/
theorem ne_of_begun {ends : List Bytes} {begun bs : Bytes} (free : d ∉ begun) (hne : begun ≠ [])
    (mem : d ∈ bs) (h : List.Forall₂ (· <:+ ·) ends (segments d bs)) :
    ends ≠ segments d (begun ++ bs) := by
  intro same
  rcases segments_append_left free mem with ⟨line, others, single, longer⟩
  rw [same, single, longer] at h
  cases h with
  | cons first rest =>
      have le := first.length_le
      have positive := List.length_pos_of_ne_nil hne
      rw [List.length_append] at le
      omega

/-- The lines that are given are those that were sent exactly when the reads end between them. -/
theorem given_eq_iff (d : UInt8) (front : Bytes) (arrivals : List Arrival) :
    given (accounts d front arrivals) = segments d (front ++ arrivals.flatMap Arrival.bytes) ↔
      StopsBetween d front arrivals := by
  induction arrivals generalizing front with
  | nil => simp [accounts, given_map_ok, StopsBetween]
  | cons a later ih =>
      cases stop : a.stop? with
      | none =>
          simp only [accounts_of_go stop, StopsBetween, stop, List.flatMap_cons]
          rw [← List.append_assoc]
          exact ih (front ++ a.bytes)
      | some e =>
          rcases exists_lines_of_stop d stop front later with ⟨lines, begun, same, last, free, split⟩
          have ends := forall₂_suffix d [] later
          have others := ih []
          rw [List.nil_append] at ends others
          simp only [given_of_stop stop, StopsBetween, stop, split, same, last]
          rw [List.append_cancel_left_eq, ← others]
          by_cases hnil : begun = []
          · simp [hnil]
          · by_cases mem : d ∈ later.flatMap Arrival.bytes
            · simp [hnil, mem, ne_of_begun free hnil mem ends]
            · -- No line is ended any more, so none is given and none is missing.
              have unended : d ∉ begun ++ later.flatMap Arrival.bytes := by simp [free, mem]
              simp [mem, segments_of_free mem, segments_of_free unended]

/-- A patient reader that reads again and again, behind errors as well, from a stream no line of
which is over the limit: what it comes to are, again and again, the lines of what comes before an
arrival that ends a read, and then the error; a line that is begun there is dropped.  So the lines
that it gives are, one for one, the ends of the lines that were sent; and they are these lines
themselves exactly when every such arrival comes where no line was begun, or none is ended any
more. -/
theorem readings_drop_begun_lines {arrivals : List Arrival}
    (fits : Fits d (arrivals.flatMap Arrival.bytes)) (n : Nat) :
    let results := accounts d [] arrivals
    let sent := segments d (arrivals.flatMap Arrival.bytes)
    readings d n (.ofArrivals arrivals) = results.take n ∧
      List.Forall₂ (· <:+ ·) (given results) sent ∧
      (given results = sent ↔ StopsBetween d [] arrivals) :=
  ⟨readings_eq_take fits n, forall₂_suffix d [] arrivals, given_eq_iff d [] arrivals⟩

def timeout : Arrival :=
  .failure (.system 11)

/-- A line and the begin of another, a timeout within that line, and another behind it. -/
def lateArrivals : List Arrival :=
  [.piece [97, 10, 98], timeout, .piece [99, 10], timeout, .piece [100, 10]]

theorem readings_of_lateArrivals :
    Fits 10 (lateArrivals.flatMap Arrival.bytes) ∧
      readings 10 5 (.ofArrivals lateArrivals) =
        [.ok [97, 10], .error (.io (.system 11)), .ok [99, 10], .error (.io (.system 11)),
          .ok [100, 10]] ∧
      List.Forall₂ (· <:+ ·) [[97, 10], [99, 10], [100, 10]]
        ([[97, 10], [98, 99, 10], [100, 10]] : List Bytes) ∧
      ¬StopsBetween 10 [] lateArrivals := by
  have fits : Fits 10 (lateArrivals.flatMap Arrival.bytes) := .of_short (by decide)
  rcases readings_drop_begun_lines fits 5 with ⟨readings, ends, whole⟩
  have results : accounts 10 [] lateArrivals =
      [.ok [97, 10], .error (.io (.system 11)), .ok [99, 10], .error (.io (.system 11)),
        .ok [100, 10]] := by decide +kernel
  have sent : segments 10 (lateArrivals.flatMap Arrival.bytes) =
      [[97, 10], [98, 99, 10], [100, 10]] := by decide +kernel
  rw [results] at readings ends whole
  rw [sent] at ends whole
  refine ⟨fits, readings, ends, fun between => ?_⟩
  have same := whole.2 between
  revert same
  decide

/-- What the given lines make up is not always the beginning of what was sent.  A channel that
reads the same arrivals gives out the line that is cut here. -/
theorem forgets_begun_line :
    (¬∀ (d : UInt8) (arrivals : List Arrival) (n : Nat), Fits d (arrivals.flatMap Arrival.bytes) →
      (given (readings d n (.ofArrivals arrivals))).flatten <+: arrivals.flatMap Arrival.bytes) ∧
    ∃ c₁ c₂ c₃ : Channel,
      (Channel.ofWire { Wire.blank with arrivals := lateArrivals } .first).read .never 10 =
        (c₁, some (.ok [97, 10])) ∧
      c₁.read .never 10 = (c₂, some (.error (.io (.system 11)))) ∧
      c₂.read .never 10 = (c₃, some (.ok [98, 99, 10])) := by
  constructor
  · intro always
    have beginning := always 10 lateArrivals 5 (.of_short (by decide))
    revert beginning
    decide +kernel
  · refine ⟨_, _, _, Prod.ext rfl ?_, Prod.ext rfl ?_, Prod.ext rfl ?_⟩
    · decide +kernel
    · decide +kernel
    · decide +kernel

end Patient
end LineExchange
