import LineExchange.Channel.Channel

/-!
# Posting — what one poll of a write comes to

A poll of a write hands over its bytes piece by piece, as many as the stream takes at once, and
flushes behind the last of them.  This file defines:

* `Wire.withArrivals` — the same stream with another script for its reads;
* `Wire.Taken.untaken` — what a write of the stream leaves of its bytes;
* `Channel.Hands` — the writes that went on, and what they left;
* `Channel.Posts` — what the poll comes to behind these;
* `Channel.Keeps` — what that says about the bytes that are left.

Every poll does that (`posts_writeFrom`), and does the same whatever is to be read
(`writeFrom_withArrivals`); reading in turn changes nothing but what is to be read
(`wire_pollRead`, `wire_resumeRead`).
-/

namespace LineExchange

namespace Wire

/-- The same stream, with another script for its reads. -/
def withArrivals (as : List Arrival) (w : Wire) : Wire :=
  { w with arrivals := as }

theorem take_withArrivals (as : List Arrival) (w : Wire) (bs : Bytes) :
    (w.withArrivals as).take bs = ((w.take bs).1.withArrivals as, (w.take bs).2) := by
  rcases w with ⟨arrivals, uptakes, flushes, sent⟩
  cases uptakes with
  | nil => rfl
  | cons u us =>
      cases u with
      | atMost n =>
          simp only [take, takeSome, withArrivals]
          split <;> rfl
      | blocked => rfl
      | failure e => rfl

theorem flush_withArrivals (as : List Arrival) (w : Wire) :
    (w.withArrivals as).flush = (w.flush.1.withArrivals as, w.flush.2) := by
  rcases w with ⟨arrivals, uptakes, flushes, sent⟩
  cases flushes <;> rfl

def Taken.untaken (bs : Bytes) : Taken → Bytes
  | .left rest => rest
  | .blocked | .failed _ => bs

variable {w w' : Wire} {bs : Bytes} {r : Taken}

/-- A write sends the bytes that it does not leave. -/
theorem sent_append_of_take (h : w.take bs = (w', r)) : w'.sent ++ r.untaken bs = w.sent ++ bs := by
  unfold take at h
  split at h
  · cases h
    exact List.append_nil _
  · simp only [takeSome] at h
    split at h
    · cases h
      rfl
    · cases h
      rw [Taken.untaken, List.append_assoc, List.take_append_drop]
  · cases h
    rfl
  · simp only [takeFailure] at h
    split at h <;> cases h <;> rfl

/-- Nothing that was sent is taken back. -/
theorem isPrefix_sent_take (w : Wire) (bs : Bytes) : w.sent <+: (w.take bs).1.sent := by
  unfold take
  split
  · exact List.prefix_append _ _
  · unfold takeSome
    split
    · exact List.prefix_rfl
    · exact List.prefix_append _ _
  · exact List.prefix_rfl
  · exact List.prefix_rfl

theorem sent_flush (w : Wire) : w.flush.1.sent = w.sent := by
  unfold flush
  split <;> rfl

theorem uptakes_flush (w : Wire) : w.flush.1.uptakes = w.uptakes := by
  unfold flush
  split <;> rfl

theorem flushes_take (w : Wire) (bs : Bytes) : (w.take bs).1.flushes = w.flushes := by
  unfold take
  split
  · rfl
  · unfold takeSome
    split <;> rfl
  · rfl
  · rfl

/-- What a write uses up: one uptake, or nothing of an exhausted script.  If the uptake is none of
the bytes, that is a failure. -/
theorem uptakes_take (hne : bs ≠ []) (h : w.take bs = (w', r)) :
    ∃ used, w.uptakes = used ++ w'.uptakes ∧
      (.atMost 0 ∈ used → r = .failed (.bare .writeZero)) := by
  rcases w with ⟨arrivals, uptakes, flushes, sent⟩
  cases uptakes with
  | nil =>
      cases h
      exact ⟨[], rfl, by simp⟩
  | cons u us =>
      refine ⟨[u], ?_⟩
      cases u with
      | atMost n =>
          simp only [take, takeSome] at h
          cases n with
          | zero =>
              cases h
              exact ⟨rfl, fun _ => rfl⟩
          | succ n =>
              -- Some of the bytes are taken, as there are some.
              rcases List.exists_cons_of_ne_nil hne with ⟨b, rest, rfl⟩
              cases h
              exact ⟨rfl, by simp⟩
      | blocked =>
          cases h
          exact ⟨rfl, by simp⟩
      | failure e =>
          cases h
          exact ⟨rfl, by simp⟩

end Wire

namespace Channel

variable {l : Latch} {c c' : Channel}

/-! ## Writes -/

/-- Of the bytes `bs` the stream was handed some, and `rest` is left: every write took some of them,
or is tried again, and with them went the uptakes `used`. -/
structure Hands (bs : Bytes) (w w' : Wire) (used : List Uptake) (rest : Bytes) : Prop where
  grows : w.sent <+: w'.sent
  split : w'.sent ++ rest = w.sent ++ bs
  uptakes : w.uptakes = used ++ w'.uptakes
  taken : .atMost 0 ∉ used
  flushes : w'.flushes = w.flushes

/-- What a poll of a write comes to: everything is handed over and the stream is flushed, or a write
of what is left does not go on. -/
inductive Posts (bs : Bytes) (w w' : Wire) : WritePoll → Prop where
  | flushed {w₁ : Wire} {used : List Uptake} (hands : Hands bs w w₁ used [])
      (flush : w₁.flush = (w', none)) : Posts bs w w' (.ready (.ok ()))
  | unflushed {w₁ : Wire} {used : List Uptake} {e : IoError} (hands : Hands bs w w₁ used [])
      (flush : w₁.flush = (w', some e)) : Posts bs w w' (.ready (.error (.io e)))
  | blocked {w₁ : Wire} {used : List Uptake} {rest : Bytes} (hands : Hands bs w w₁ used rest)
      (hne : rest ≠ []) (taken : w₁.take rest = (w', .blocked)) : Posts bs w w' (.pending rest)
  | failed {w₁ : Wire} {used : List Uptake} {rest : Bytes} {e : IoError}
      (hands : Hands bs w w₁ used rest) (hne : rest ≠ [])
      (taken : w₁.take rest = (w', .failed e)) : Posts bs w w' (.ready (.error (.io e)))

variable {bs rest rest' : Bytes} {w w' w₁ : Wire} {used : List Uptake} {r : WritePoll}

theorem Hands.refl (bs : Bytes) (w : Wire) : Hands bs w w [] bs :=
  ⟨List.prefix_rfl, rfl, rfl, List.not_mem_nil, rfl⟩

/-- A write that goes on comes before those that do. -/
theorem Hands.cons (hne : bs ≠ []) (taken : w.take bs = (w', .left rest))
    (hands : Hands rest w' w₁ used rest') : ∃ first, Hands bs w w₁ (first ++ used) rest' := by
  rcases Wire.uptakes_take hne taken with ⟨first, uptakes, zero⟩
  refine ⟨first, ?_, ?_, ?_, ?_, ?_⟩
  · have grows := w.isPrefix_sent_take bs
    rw [taken] at grows
    exact grows.trans hands.grows
  · exact hands.split.trans (Wire.sent_append_of_take taken)
  · rw [uptakes, hands.uptakes, List.append_assoc]
  · intro mem
    rcases List.mem_append.1 mem with here | later
    · cases zero here
    · exact hands.taken later
  · have kept := w.flushes_take bs
    rw [taken] at kept
    exact hands.flushes.trans kept

theorem Posts.cons (hne : bs ≠ []) (taken : w.take bs = (w', .left rest))
    (posts : Posts rest w' w₁ r) : Posts bs w w₁ r := by
  cases posts with
  | flushed hands flush =>
      rcases hands.cons hne taken with ⟨first, hands'⟩
      exact .flushed hands' flush
  | unflushed hands flush =>
      rcases hands.cons hne taken with ⟨first, hands'⟩
      exact .unflushed hands' flush
  | blocked hands left stops =>
      rcases hands.cons hne taken with ⟨first, hands'⟩
      exact .blocked hands' left stops
  | failed hands left stops =>
      rcases hands.cons hne taken with ⟨first, hands'⟩
      exact .failed hands' left stops

theorem posts_writeFrom (bs : Bytes) (w : Wire) :
    Posts bs w (writeFrom bs w).1 (writeFrom bs w).2 := by
  fun_induction writeFrom bs w with
  | case1 w =>
      unfold finishWrite
      split
      · rename_i w' flush
        exact .flushed (.refl [] w) flush
      · rename_i w' e flush
        exact .unflushed (.refl [] w) flush
  | case2 w b bs w' rest taken ih => exact ih.cons (List.cons_ne_nil b bs) taken
  | case3 w b bs w' taken => exact .blocked (.refl _ w) (List.cons_ne_nil b bs) taken
  | case4 w b bs w' e taken => exact .failed (.refl _ w) (List.cons_ne_nil b bs) taken

/-- What is still to be written behind a poll of a write of `bs`, as far as it is known from what
the poll came to. -/
def Keeps (rest : Bytes) : WritePoll → Prop
  | .ready (.ok ()) => rest = []
  | .ready (.error _) => True
  | .pending rest' => rest = rest'

/-- What was sent makes up the bytes with what is kept. -/
theorem Posts.sends (posts : Posts bs w w' r) :
    ∃ more rest, w'.sent = w.sent ++ more ∧ more ++ rest = bs ∧ Keeps rest r := by
  -- The writes that went on sent a part, and the one that ended the poll may have added to it.
  have parts {w₁ : Wire} {went : List Uptake} {rest rest' : Bytes} (hands : Hands bs w w₁ went rest)
      (grows : w₁.sent <+: w'.sent) (split : w'.sent ++ rest' = w₁.sent ++ rest) :
      ∃ more, w'.sent = w.sent ++ more ∧ more ++ rest' = bs := by
    rcases hands.grows.trans grows with ⟨more, sent⟩
    refine ⟨more, sent.symm, ?_⟩
    apply List.append_cancel_left
    rw [← List.append_assoc, sent, split, hands.split]
  cases posts with
  | @flushed w₁ went hands flush =>
      have kept := w₁.sent_flush
      rw [flush] at kept
      rcases parts hands (kept ▸ List.prefix_rfl) (by rw [kept]) with ⟨more, sent, whole⟩
      exact ⟨more, [], sent, whole, rfl⟩
  | @unflushed w₁ went e hands flush =>
      have kept := w₁.sent_flush
      rw [flush] at kept
      rcases parts hands (kept ▸ List.prefix_rfl) (by rw [kept]) with ⟨more, sent, whole⟩
      exact ⟨more, [], sent, whole, trivial⟩
  | @blocked w₁ went rest hands hne taken =>
      have grows := w₁.isPrefix_sent_take rest
      rw [taken] at grows
      rcases parts hands grows (Wire.sent_append_of_take taken) with ⟨more, sent, whole⟩
      exact ⟨more, rest, sent, whole, rfl⟩
  | @failed w₁ went rest e hands hne taken =>
      have grows := w₁.isPrefix_sent_take rest
      rw [taken] at grows
      rcases parts hands grows (Wire.sent_append_of_take taken) with ⟨more, sent, whole⟩
      exact ⟨more, rest, sent, whole, trivial⟩

/-- A write that comes to its end flushed the stream behind its last byte. -/
theorem Posts.flush (posts : Posts bs w w' (.ready (.ok ()))) :
    ∃ w₁ : Wire, w₁.sent = w.sent ++ bs ∧ w₁.flushes = w.flushes ∧ w₁.flush = (w', none) := by
  cases posts with
  | @flushed w₁ used hands flush =>
      have all : w₁.sent ++ [] = w.sent ++ bs := hands.split
      exact ⟨w₁, by rwa [List.append_nil] at all, hands.flushes, flush⟩

/-- A write of which the stream takes nothing at all fails, and for that reason. -/
theorem Posts.eq_writeZero (posts : Posts bs w w' r) (uptakes : w.uptakes = used ++ w'.uptakes)
    (zero : .atMost 0 ∈ used) : r = .ready (.error (.io (.bare .writeZero))) := by
  -- The uptakes behind those of the writes that went on.
  have behind {w₁ : Wire} {went last : List Uptake} {rest : Bytes} (hands : Hands bs w w₁ went rest)
      (uptakes' : w₁.uptakes = last ++ w'.uptakes) : .atMost 0 ∈ last := by
    have parts : used ++ w'.uptakes = (went ++ last) ++ w'.uptakes := by
      rw [← uptakes, hands.uptakes, uptakes', List.append_assoc]
    rw [List.append_cancel_right parts] at zero
    exact (List.mem_append.1 zero).resolve_left hands.taken
  cases posts with
  | @flushed w₁ went hands flush =>
      have kept := w₁.uptakes_flush
      rw [flush] at kept
      have hnone : .atMost 0 ∈ ([] : List Uptake) := behind hands kept.symm
      cases hnone
  | @unflushed w₁ went e hands flush =>
      have kept := w₁.uptakes_flush
      rw [flush] at kept
      have hnone : .atMost 0 ∈ ([] : List Uptake) := behind hands kept.symm
      cases hnone
  | blocked hands hne taken =>
      rcases Wire.uptakes_take hne taken with ⟨last, uptakes', refused⟩
      cases refused (behind hands uptakes')
  | failed hands hne taken =>
      rcases Wire.uptakes_take hne taken with ⟨last, uptakes', refused⟩
      cases refused (behind hands uptakes')
      rfl

/-! ## The same write with other reads -/

theorem writeFrom_of_take {b : UInt8} {t : Wire.Taken} (taken : w.take (b :: bs) = (w', t)) :
    writeFrom (b :: bs) w =
      match t with
      | .left rest => writeFrom rest w'
      | .blocked => (w', .pending (b :: bs))
      | .failed e => (w', .ready (.error (.io e))) := by
  rw [writeFrom]
  split <;> rename_i taken' <;> cases taken.symm.trans taken' <;> rfl

/-- What is to be read makes no difference to a write, nor the write to that. -/
theorem writeFrom_withArrivals (as : List Arrival) (bs : Bytes) (w : Wire) :
    writeFrom bs (w.withArrivals as) =
      ((writeFrom bs w).1.withArrivals as, (writeFrom bs w).2) := by
  fun_induction writeFrom bs w with
  | case1 w =>
      rw [writeFrom, finishWrite, Wire.flush_withArrivals, finishWrite]
      cases w.flush with
      | mk w' e => cases e <;> rfl
  | case2 w b bs w' rest taken ih =>
      have taken' := Wire.take_withArrivals as w (b :: bs)
      rw [taken] at taken'
      exact (writeFrom_of_take taken').trans ih
  | case3 w b bs w' taken =>
      have taken' := Wire.take_withArrivals as w (b :: bs)
      rw [taken] at taken'
      exact writeFrom_of_take taken'
  | case4 w b bs w' e taken =>
      have taken' := Wire.take_withArrivals as w (b :: bs)
      rw [taken] at taken'
      exact writeFrom_of_take taken'

/-! ## Reads -/

/-- Reading takes pieces off the script of the stream, and changes nothing else about it. -/
theorem wire_await {l : Latch} {wait : Wait} {c c' : Channel} {r : Awaited}
    (awaited : c.await l wait = (c', r)) :
    c'.wire = c.wire.withArrivals c'.wire.arrivals := by
  have received (c₀ : Channel) (wait : Wait) :
      (c₀.receive wait).1.wire = c₀.wire.withArrivals (c₀.receive wait).1.wire.arrivals := by
    rcases c₀ with ⟨⟨arrivals, uptakes, flushes, sent⟩, inbox, signal⟩
    cases arrivals with
    | nil => rfl
    | cons a rest =>
        cases a with
        | piece bs => cases bs <;> rfl
        | close => rfl
        | failure e => rfl
  have same : c' = (c.await l wait).1 := (congrArg Prod.fst awaited).symm
  subst same
  unfold await
  split
  · rfl
  · exact received _ _

/-- Reading sends nothing. -/
theorem sent_await (l : Latch) (wait : Wait) (c : Channel) :
    (c.await l wait).1.wire.sent = c.wire.sent := by
  have awaited : c.await l wait = ((c.await l wait).1, (c.await l wait).2) := rfl
  rw [wire_await awaited]
  rfl

theorem wire_resumeRead (l : Latch) (d : UInt8) (wait : Wait) (c : Channel) :
    (c.resumeRead l d wait).1.wire =
      c.wire.withArrivals (c.resumeRead l d wait).1.wire.arrivals := by
  fun_induction resumeRead l d wait c with
  | case1 wait c c' e awaited => exact wire_await awaited
  | case2 wait c c' w awaited => exact wire_await awaited
  | case3 wait c c' awaited i line offered =>
      have kept := wire_await awaited
      exact kept
  | case4 wait c c' awaited i offered =>
      have kept := wire_await awaited
      exact kept
  | case5 wait c c' awaited i offered ih =>
      rw [ih, wire_await awaited]
      rfl

theorem wire_pollRead (l : Latch) (d : UInt8) (c : Channel) :
    (c.pollRead l d).1.wire = c.wire.withArrivals (c.pollRead l d).1.wire.arrivals := by
  unfold pollRead
  have kept : (c.offer d).1.wire = c.wire := rfl
  split
  · rename_i offered
    rw [offered] at kept
    simp only [← kept]
    rfl
  · rename_i offered
    rw [offered] at kept
    simp only [← kept]
    rfl
  · rename_i offered
    rw [offered] at kept
    rw [← kept]
    exact wire_resumeRead _ _ _ _

end Channel
end LineExchange
