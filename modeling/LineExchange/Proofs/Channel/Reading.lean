import LineExchange.Channel.Channel

/-!
# Reading — what becomes of the bytes that a channel reads

A channel takes arrivals off the script of its stream and moves their bytes through its inbox to
the lines that it gives out.  This file defines:

* `Arrival.bytes` and `Wire.due` — the bytes that arrivals bring, and those that are still to come;
* `Wire.Delivers` — the bytes that a stream delivered from one state to a later one;
* `Line.IsLine` — bytes that end in the delimiter and have no other;
* `Channel.Searches` — what one poll of a read does to the bytes, whatever was looked at before;
* `Channel.Reads` — what it does when no delimiter is among the bytes that were looked at.

Every poll of a read does that, whether it ends with a line or an error or waits
(`searches_pollRead`, `searches_resumeRead`), so no byte is lost or given out twice.
-/

namespace LineExchange

def Arrival.bytes : Arrival → Bytes
  | .piece bs => bs
  | .close | .failure _ => []

namespace Wire

def due (w : Wire) : Bytes :=
  w.arrivals.flatMap Arrival.bytes

/-- From `w` to `w'` the stream delivered the bytes `got`. -/
def Delivers (w w' : Wire) (got : Bytes) : Prop :=
  ∃ past, w.arrivals = past ++ w'.arrivals ∧ got = past.flatMap Arrival.bytes

/-- The bytes of those arrivals that `w` has and `w'` has no more. -/
def delivered (w w' : Wire) : Bytes :=
  (w.arrivals.take (w.arrivals.length - w'.arrivals.length)).flatMap Arrival.bytes

variable {w w' w'' : Wire} {got more : Bytes}

theorem Delivers.of_arrivals (same : w'.arrivals = w.arrivals) : w.Delivers w' [] :=
  ⟨[], by rw [same]; rfl, rfl⟩

theorem Delivers.trans (first : w.Delivers w' got) (next : w'.Delivers w'' more) :
    w.Delivers w'' (got ++ more) := by
  rcases first with ⟨past, before, rfl⟩
  rcases next with ⟨later, after, rfl⟩
  exact ⟨past ++ later, by rw [before, after, List.append_assoc], by rw [List.flatMap_append]⟩

theorem Delivers.eq_delivered (h : w.Delivers w' got) : got = w.delivered w' := by
  rcases h with ⟨past, split, rfl⟩
  simp [delivered, split]

/-- What was delivered is due no more. -/
theorem Delivers.due_eq (h : w.Delivers w' got) : w.due = got ++ w'.due := by
  rcases h with ⟨past, split, rfl⟩
  rw [due, split, List.flatMap_append]
  rfl

/-- One read delivers what it brings. -/
theorem delivers_arrive {a : Arrival} (h : w.arrive = (w', some a)) : w.Delivers w' a.bytes := by
  unfold arrive at h
  split at h
  · cases h
  · rename_i b rest script
    cases h
    exact ⟨[a], script, by simp⟩

theorem arrivals_takeSome (n : Nat) (bs : Bytes) (w : Wire) :
    (w.takeSome n bs).1.arrivals = w.arrivals := by
  unfold takeSome
  split <;> rfl

/-- A write delivers nothing. -/
theorem arrivals_take (bs : Bytes) (w : Wire) : (w.take bs).1.arrivals = w.arrivals := by
  unfold take
  split
  · rfl
  · exact arrivals_takeSome _ _ _
  · rfl
  · rfl

theorem arrivals_flush (w : Wire) : w.flush.1.arrivals = w.arrivals := by
  unfold flush
  split <;> rfl

end Wire

namespace Line

variable {d : UInt8} {bs line rest : Bytes}

/-- The bytes end in `d` and have no other `d`. -/
def IsLine (d : UInt8) (line : Bytes) : Prop :=
  ∃ body, line = body ++ [d] ∧ d ∉ body

theorem isLine_of_cut? (h : cut? d bs = some (line, rest)) : IsLine d line := by
  unfold cut? at h
  split at h
  · cases h
  · rename_i b r found
    cases h
    have stops : b = d := by
      have head := List.head?_dropWhile_not (· != d) bs
      simpa [found] using head
    refine ⟨_, by rw [stops], ?_⟩
    intro mem
    simpa using List.all_eq_true.1 List.all_takeWhile d mem

theorem IsLine.length_pos (isLine : IsLine d line) : 0 < line.length := by
  rcases isLine with ⟨body, rfl, -⟩
  simp

/-- A line has its delimiter nowhere but at its end. -/
theorem IsLine.not_mem_dropLast (isLine : IsLine d line) : d ∉ line.dropLast := by
  rcases isLine with ⟨body, rfl, free⟩
  simpa using free

/-- Bytes that begin as a line does, but lack the delimiter, are fewer. -/
theorem IsLine.length_lt_of_append {more : Bytes} (isLine : IsLine d line) (free : d ∉ bs)
    (same : bs ++ more = line ++ rest) : bs.length < line.length := by
  rcases isLine with ⟨body, rfl, -⟩
  rcases Nat.lt_or_ge bs.length (body ++ [d]).length with lt | ge
  · exact lt
  · -- Else the whole line would stand within them.
    have part : body ++ [d] <+: bs :=
      List.prefix_of_prefix_length_le ⟨rest, rfl⟩ ⟨more, same⟩ ge
    exact absurd (part.subset (by simp)) free

/-- Bytes without a delimiter before a line make a longer line. -/
theorem IsLine.append_left {front : Bytes} (isLine : IsLine d line) (free : d ∉ front) :
    IsLine d (front ++ line) := by
  rcases isLine with ⟨body, rfl, free'⟩
  exact ⟨front ++ body, by simp, by simp [free, free']⟩

end Line

namespace Inbox

def Offer.given : Offer → Bytes
  | .line bs => bs
  | .full | .more => []

variable {d : UInt8} {i j : Inbox} {o : Offer}

/-- There is no delimiter where none was seen before and none is found now. -/
theorem not_mem_bytes (clean : d ∉ i.seen) (hnone : Line.cut? d i.unseen = none) :
    d ∉ i.bytes := by
  rw [bytes_eq, List.mem_append, List.mem_reverse, not_or]
  exact ⟨clean, Line.cut?_eq_none_iff.1 hnone⟩

/-- An offer, whatever was looked at before: a line begins with all of those bytes, and what it has
behind them is a line; where there is no line, the other bytes are without a delimiter, and they
were looked at as well. -/
theorem offer_cases (h : i.offer d = (j, o)) :
    (∃ behind, o = .line (i.seen.reverse ++ behind) ∧ Line.IsLine d behind ∧
        behind ++ j.bytes = i.unseen ∧ j.seen = []) ∨
      (∀ line, o ≠ .line line) ∧ j = i.look ∧ d ∉ i.unseen := by
  unfold offer at h
  split at h
  · rename_i behind rest found
    cases h
    have split := Line.append_of_cut? found
    exact .inl ⟨behind, by rw [List.reverseAux_eq], Line.isLine_of_cut? found, split, rfl⟩
  · rename_i hnone
    cases h
    refine .inr ⟨?_, rfl, Line.cut?_eq_none_iff.1 hnone⟩
    intro line same
    split at same <;> cases same

theorem Offer.given_eq_nil (other : ∀ line, o ≠ .line line) : o.given = [] := by
  cases o with
  | line bs => exact absurd rfl (other bs)
  | full => rfl
  | more => rfl

/-- Nothing is lost with an offer. -/
theorem given_append_bytes (h : i.offer d = (j, o)) : o.given ++ j.bytes = i.bytes := by
  rcases offer_cases h with ⟨behind, rfl, -, split, -⟩ | ⟨other, rfl, -⟩
  · calc
      (i.seen.reverse ++ behind) ++ j.bytes = i.seen.reverse ++ (behind ++ j.bytes) :=
        List.append_assoc ..
      _ = i.bytes := by rw [split, bytes_eq]
  · rw [Offer.given_eq_nil other, List.nil_append, bytes_look]

/-- An offer that is made of bytes without a delimiter among those that were looked at: nothing is
lost, a line is a line, and none of the bytes that are then looked at is a delimiter. -/
theorem offer_spec (clean : d ∉ i.seen) (h : i.offer d = (j, o)) :
    o.given ++ j.bytes = i.bytes ∧ d ∉ j.seen ∧ ∀ line, o = .line line → Line.IsLine d line := by
  refine ⟨given_append_bytes h, ?_⟩
  rcases offer_cases h with ⟨behind, rfl, isLine, -, nothing⟩ | ⟨other, rfl, free⟩
  · refine ⟨by simp [nothing], ?_⟩
    intro line same
    cases same
    exact isLine.append_left (by simpa using clean)
  · exact ⟨by simp [seen_look, clean, free], fun line same => absurd same (other line)⟩

end Inbox

namespace Channel

/-! ## Polls of a read -/

def ReadPoll.given : ReadPoll → Bytes
  | .ready (.ok line) => line
  | .ready (.error _) | .pending _ => []

def ReadPoll.IsLineless (r : ReadPoll) : Prop :=
  ∀ line, r ≠ .ready (.ok line)

theorem ReadPoll.IsLineless.given_eq_nil {r : ReadPoll} (lineless : r.IsLineless) :
    r.given = [] := by
  cases r with
  | ready result =>
      cases result with
      | ok line => exact absurd rfl (lineless line)
      | error e => rfl
  | pending wait => rfl

/-- What a poll of a read does, whatever was looked at before: what the stream delivered and the
inbox had is given out or kept, in this order; only a line is given out, which begins with the
bytes that were looked at and is behind them a line; and where none is given out, the bytes that
were looked at besides have no delimiter. -/
structure Searches (d : UInt8) (c c' : Channel) (r : ReadPoll) (got : Bytes) : Prop where
  delivers : c.wire.Delivers c'.wire got
  bytes : r.given ++ c'.inbox.bytes = c.inbox.bytes ++ got
  line : ∀ line, r = .ready (.ok line) → c'.inbox.seen = [] ∧
    ∃ behind, line = c.inbox.seen.reverse ++ behind ∧ Line.IsLine d behind
  free : r.IsLineless → ∃ besides, c'.inbox.seen = besides ++ c.inbox.seen ∧ d ∉ besides

/-- What a poll of a read does: what the stream delivered and the inbox had is given out or kept,
in this order; only a line is given out; and none of the bytes that were looked at is a
delimiter. -/
structure Reads (d : UInt8) (c c' : Channel) (r : ReadPoll) (got : Bytes) : Prop where
  delivers : c.wire.Delivers c'.wire got
  bytes : r.given ++ c'.inbox.bytes = c.inbox.bytes ++ got
  clean : d ∉ c'.inbox.seen
  line : ∀ line, r = .ready (.ok line) → Line.IsLine d line

variable {l : Latch} {d : UInt8} {wait : Wait} {c c' : Channel}

/-- What was received stands behind the bytes that were there, and was not looked at. -/
theorem receive_spec {r : Awaited} (h : c.receive wait = (c', r)) :
    ∃ got, c.wire.Delivers c'.wire got ∧ c'.inbox = c.inbox.push got := by
  unfold receive at h
  split at h
  · cases h
    exact ⟨[], .of_arrivals rfl, by simp [Inbox.push]⟩
  · rename_i arrive
    cases h
    exact ⟨_, Wire.delivers_arrive arrive, by simp [Arrival.bytes, Inbox.push]⟩
  · rename_i arrive
    cases h
    exact ⟨_, Wire.delivers_arrive arrive, rfl⟩
  · rename_i arrive
    cases h
    exact ⟨_, Wire.delivers_arrive arrive, by simp [Arrival.bytes, Inbox.push]⟩
  · rename_i arrive
    cases h
    exact ⟨_, Wire.delivers_arrive arrive, by simp [Arrival.bytes, Inbox.push]⟩

theorem await_spec {r : Awaited} (h : c.await l wait = (c', r)) :
    ∃ got, c.wire.Delivers c'.wire got ∧ c'.inbox = c.inbox.push got := by
  unfold await at h
  split at h
  · cases h
    exact ⟨[], .of_arrivals rfl, by simp [Inbox.push]⟩
  · have received := receive_spec h
    exact received

/-- A read that ends or waits with what was received, before it is looked at. -/
theorem Searches.of_received {got : Bytes} {r : ReadPoll} (delivers : c.wire.Delivers c'.wire got)
    (inbox : c'.inbox = c.inbox.push got) (lineless : r.IsLineless) : Searches d c c' r got where
  delivers := delivers
  bytes := by rw [lineless.given_eq_nil, inbox, Inbox.bytes_push, List.nil_append]
  line line same := absurd same (lineless line)
  free _ := ⟨[], by rw [inbox]; rfl, List.not_mem_nil⟩

/-- An offer that is made of what was received. -/
theorem Searches.of_offer {got : Bytes} {i : Inbox} {o : Inbox.Offer} {r : ReadPoll}
    (delivers : c.wire.Delivers c'.wire got) (inbox : c'.inbox = c.inbox.push got)
    (offered : c'.inbox.offer d = (i, o)) (given : r.given = o.given)
    (line : ∀ bs, r = .ready (.ok bs) ↔ o = .line bs) :
    Searches d c { c' with inbox := i } r got := by
  rw [inbox] at offered
  have kept := Inbox.given_append_bytes offered
  rw [← given, Inbox.bytes_push] at kept
  refine ⟨delivers, kept, ?_, ?_⟩
  · intro bs same
    rcases Inbox.offer_cases offered with ⟨behind, shown, isLine, -, nothing⟩ | ⟨other, -⟩
    · have found : o = .line bs := (line bs).1 same
      cases found.symm.trans shown
      exact ⟨nothing, behind, rfl, isLine⟩
    · exact absurd ((line bs).1 same) (other bs)
  · intro lineless
    rcases Inbox.offer_cases offered with ⟨behind, shown, -⟩ | ⟨-, looked, hnone⟩
    · exact absurd ((line _).2 shown) (lineless _)
    · refine ⟨(c.inbox.push got).unseen.reverse, ?_, by simpa using hnone⟩
      rw [looked]
      exact Inbox.seen_look _

/-- A poll may go on where an offer gave out nothing. -/
theorem Searches.trans {c'' : Channel} {got more : Bytes} {r r' : ReadPoll}
    (first : Searches d c c' r got) (lineless : r.IsLineless) (next : Searches d c' c'' r' more) :
    Searches d c c'' r' (got ++ more) := by
  rcases first.free lineless with ⟨besides, looked, hnone⟩
  have bytes := first.bytes
  rw [lineless.given_eq_nil, List.nil_append] at bytes
  refine ⟨first.delivers.trans next.delivers, ?_, ?_, ?_⟩
  · rw [next.bytes, bytes, List.append_assoc]
  · intro line same
    rcases next.line line same with ⟨nothing, behind, rfl, isLine⟩
    -- What the first search looked at besides stands before what the next one found.
    refine ⟨nothing, besides.reverse ++ behind, ?_, isLine.append_left (by simpa using hnone)⟩
    rw [looked, List.reverse_append, List.append_assoc]
  · intro lineless'
    rcases next.free lineless' with ⟨later, looked', hnone'⟩
    exact ⟨later ++ besides, by rw [looked', looked, List.append_assoc], by simp [hnone, hnone']⟩

/-- Every poll of a read that goes on does that. -/
theorem searches_resumeRead (l : Latch) (d : UInt8) (wait : Wait) (c : Channel) :
    ∃ got, Searches d c (c.resumeRead l d wait).1 (c.resumeRead l d wait).2 got := by
  -- By the recursion of the read, which goes on as long as pieces arrive without a line in them.
  fun_induction resumeRead l d wait c with
  | case1 wait c c' e awaited =>
      rcases await_spec awaited with ⟨got, delivers, inbox⟩
      exact ⟨got, .of_received delivers inbox (by simp [ReadPoll.IsLineless])⟩
  | case2 wait c c' wait' awaited =>
      rcases await_spec awaited with ⟨got, delivers, inbox⟩
      exact ⟨got, .of_received delivers inbox (by simp [ReadPoll.IsLineless])⟩
  | case3 wait c c' awaited i bs offered =>
      rcases await_spec awaited with ⟨got, delivers, inbox⟩
      exact ⟨got, .of_offer delivers inbox offered rfl (by simp)⟩
  | case4 wait c c' awaited i offered =>
      rcases await_spec awaited with ⟨got, delivers, inbox⟩
      exact ⟨got, .of_offer delivers inbox offered rfl (by simp)⟩
  | case5 wait c c' awaited i offered ih =>
      rcases await_spec awaited with ⟨got, delivers, inbox⟩
      have first : Searches d c { c' with inbox := i } (.pending .unpolled) got :=
        .of_offer delivers inbox offered rfl (by simp)
      rcases ih with ⟨more, next⟩
      exact ⟨got ++ more, first.trans (by simp [ReadPoll.IsLineless]) next⟩

/-- Every first poll of a read does that. -/
theorem searches_pollRead (l : Latch) (d : UInt8) (c : Channel) :
    ∃ got, Searches d c (c.pollRead l d).1 (c.pollRead l d).2 got := by
  have here : c.wire.Delivers c.wire [] := .of_arrivals rfl
  have inbox : c.inbox = c.inbox.push [] := by simp [Inbox.push]
  cases offered : c.inbox.offer d with
  | mk i o =>
      cases o with
      | line bs =>
          simp only [pollRead, offer, offered]
          exact ⟨[], .of_offer here inbox offered rfl (by simp)⟩
      | full =>
          simp only [pollRead, offer, offered]
          exact ⟨[], .of_offer here inbox offered rfl (by simp)⟩
      | more =>
          simp only [pollRead, offer, offered]
          have first : Searches d c { c with inbox := i } (.pending .unpolled) [] :=
            .of_offer here inbox offered rfl (by simp)
          rcases searches_resumeRead l d .unpolled { c with inbox := i } with ⟨more, next⟩
          exact ⟨[] ++ more, first.trans (by simp [ReadPoll.IsLineless]) next⟩

/-- Where no delimiter was looked at, what is searched is read. -/
theorem Searches.reads {got : Bytes} {r : ReadPoll} (searches : Searches d c c' r got)
    (clean : d ∉ c.inbox.seen) : Reads d c c' r got := by
  refine ⟨searches.delivers, searches.bytes, ?_, ?_⟩
  · by_cases lineless : r.IsLineless
    · rcases searches.free lineless with ⟨besides, looked, hnone⟩
      simp [looked, hnone, clean]
    · obtain ⟨line, same⟩ : ∃ line, r = .ready (.ok line) := by
        simpa [ReadPoll.IsLineless] using lineless
      simp [(searches.line line same).1]
  · intro line same
    rcases searches.line line same with ⟨-, behind, rfl, isLine⟩
    exact isLine.append_left (by simpa using clean)

/-! ## Polls of a write -/

/-- A write reads nothing. -/
theorem arrivals_writeFrom (bs : Bytes) (w : Wire) :
    (writeFrom bs w).1.arrivals = w.arrivals := by
  fun_induction writeFrom bs w with
  | case1 w =>
      have flushed := w.arrivals_flush
      unfold finishWrite
      split <;> simp_all
  | case2 w b bs w' rest taken ih =>
      have kept := w.arrivals_take (b :: bs)
      rw [taken] at kept
      exact ih.trans kept
  | case3 w b bs w' taken =>
      have kept := w.arrivals_take (b :: bs)
      rwa [taken] at kept
  | case4 w b bs w' e taken =>
      have kept := w.arrivals_take (b :: bs)
      rwa [taken] at kept

end Channel
end LineExchange
