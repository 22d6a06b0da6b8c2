import LineExchange.Proofs.Server.Timing

/-!
# Isolation — no exchange sees what is not its own

What an exchange sends is the answer to the first line of its own input, as far as its own stream
takes it.  Neither what happens to the other exchanges nor what arrives behind that line has a part
in it.  This file defines:

* `Exchange.Act.trim` — the acts without what arrives behind the first delimiter;
* `Arrival.Trims` and `Channel.Trims` — a script, or a channel, without what is behind the first
  delimiter, beside the whole one;
* `Exchange.Alike` — an exchange beside the one to which nothing came behind the first delimiter;
* `Exchanges.own` — all that happened to one exchange and its connection.

Acts keep two exchanges alike (`Alike.act`, `Alike.arrive`), so a run and the run with its acts
trimmed end at the same stage, with the same bytes sent (`alike_of_run`).
-/

namespace LineExchange

open Line (delimiter)

/-! ## What comes behind the first delimiter -/

/-- The arrivals of the second list are those of the first up to the first delimiter, if there is
one: then the flag is set. -/
inductive Arrival.Trims : Bool → List Arrival → List Arrival → Prop where
  | nil : Trims false [] []
  | keep {found : Bool} {a : Arrival} {as bs : List Arrival} (free : delimiter ∉ a.bytes)
      (rest : Trims found as bs) : Trims found (a :: as) (a :: bs)
  | line {head behind : Bytes} {as : List Arrival} (isLine : Line.IsLine delimiter head) :
      Trims true (.piece (head ++ behind) :: as) [.piece head]

namespace Arrival.Trims

variable {found : Bool} {as bs : List Arrival} {a : Arrival}

theorem late (h : Trims true as bs) (a : Arrival) : Trims true (as ++ [a]) bs := by
  generalize came : true = found at h
  induction h with
  | nil => cases came
  | keep free rest ih => exact .keep free (ih came)
  | line isLine => exact .line isLine

theorem next (h : Trims false as bs) (free : delimiter ∉ a.bytes) :
    Trims false (as ++ [a]) (bs ++ [a]) := by
  generalize came : false = found at h
  induction h with
  | nil => exact .keep free .nil
  | keep free rest ih => exact .keep free (ih came)
  | line => cases came

theorem ended {head behind : Bytes} (h : Trims false as bs) (isLine : Line.IsLine delimiter head) :
    Trims true (as ++ [.piece (head ++ behind)]) (bs ++ [.piece head]) := by
  generalize came : false = found at h
  induction h with
  | nil => exact .line isLine
  | keep free rest ih => exact .keep free (ih came)
  | line => cases came

/-- Where a piece stands first, it is kept or it has the first delimiter. -/
theorem cases_piece {piece piece' : Bytes} (h : Trims found (.piece piece :: as) (.piece piece' :: bs)) :
    piece' = piece ∧ delimiter ∉ piece ∧ Trims found as bs ∨
      found = true ∧ bs = [] ∧ Line.IsLine delimiter piece' ∧ ∃ behind, piece = piece' ++ behind := by
  cases h with
  | keep free rest => exact .inl ⟨rfl, free, rest⟩
  | line isLine => exact .inr ⟨rfl, rfl, isLine, _, rfl⟩

end Arrival.Trims

/-! ## Channels -/

namespace Channel

/-- The second channel is the first without what is behind the first delimiter that was not seen. -/
structure Trims (found : Bool) (c c' : Channel) : Prop where
  signal : c'.signal = c.signal
  seen : c'.inbox.seen = c.inbox.seen
  script : Arrival.Trims found (.piece c.inbox.unseen :: c.wire.arrivals)
    (.piece c'.inbox.unseen :: c'.wire.arrivals)

variable {found : Bool} {c c' c₁ : Channel}

/-- A search finds the same in both. -/
theorem Trims.offer {o : Inbox.Offer} (h : Trims found c c') (offered : c.offer delimiter = (c₁, o)) :
    ∃ c₁', c'.offer delimiter = (c₁', o) ∧ c₁.wire = c.wire ∧ c₁'.wire = c'.wire ∧
      (o = .more → Trims found c₁ c₁' ∧ delimiter ∉ c₁.inbox.unseen) := by
  rcases c with ⟨wire, ⟨seen, scanned, unseen, length⟩, signal⟩
  rcases c' with ⟨wire', ⟨seen', scanned', unseen', length'⟩, signal'⟩
  obtain rfl : signal' = signal := h.signal
  obtain rfl : seen' = seen := h.seen
  obtain rfl : scanned' = scanned := length'.symm.trans length
  have script : Arrival.Trims found (.piece unseen :: wire.arrivals)
    (.piece unseen' :: wire'.arrivals) := h.script
  rcases script.cases_piece with ⟨rfl, free, rest⟩ | ⟨-, -, isLine, behind, rfl⟩
  · -- Nothing is found, and in both everything was looked at.
    have hnone := Line.cut?_eq_none_iff.2 free
    simp only [Channel.offer, Inbox.offer, hnone] at offered ⊢
    cases offered
    refine ⟨_, rfl, rfl, rfl, fun _ => ⟨⟨rfl, rfl, ?_⟩, List.not_mem_nil⟩⟩
    exact .keep List.not_mem_nil rest
  · -- Both find the same line, whatever is behind it.
    have cut := Line.cut?_of_isLine isLine behind
    have cut' := Line.cut?_of_isLine isLine []
    rw [List.append_nil] at cut'
    simp only [Channel.offer, Inbox.offer, cut] at offered
    cases offered
    simp only [Channel.offer, Inbox.offer, cut']
    exact ⟨_, rfl, by simp⟩

/-- A read takes the same piece in both, but for what is behind the first delimiter. -/
theorem Trims.receive {wait : Wait} {r : Awaited} (h : Trims found c c')
    (free : delimiter ∉ c.inbox.unseen) (received : c.receive wait = (c₁, r)) :
    ∃ c₁', c'.receive wait = (c₁', r) ∧ ((∃ e, r = .failed e) ∨ Trims found c₁ c₁' ∧
      (r ≠ .arrived → delimiter ∉ c₁.inbox.unseen)) := by
  rcases c with ⟨⟨arrivals, uptakes, flushes, sent⟩, ⟨seen, scanned, unseen, length⟩, signal⟩
  rcases c' with ⟨⟨arrivals', uptakes', flushes', sent'⟩, ⟨seen', scanned', unseen', length'⟩, signal'⟩
  obtain rfl : signal' = signal := h.signal
  obtain rfl : seen' = seen := h.seen
  obtain rfl : scanned' = scanned := length'.symm.trans length
  -- What was received but not searched counts as one more piece, in front of the script.
  have script : Arrival.Trims found (.piece unseen :: arrivals) (.piece unseen' :: arrivals') :=
    h.script
  have free : delimiter ∉ unseen := free
  clear h
  rcases script.cases_piece with ⟨rfl, -, rest⟩ | ⟨-, -, ⟨body, rfl, -⟩, behind, rfl⟩
  · cases rest with
    | nil =>
        cases received
        exact ⟨_, rfl, .inr ⟨⟨rfl, rfl, .keep free .nil⟩, fun _ => free⟩⟩
    | @keep _ a as as' unended rest =>
        cases a with
        | piece bs =>
            cases bs with
            | nil =>
                cases received
                exact ⟨_, rfl, .inl ⟨_, rfl⟩⟩
            | cons b bs =>
                cases received
                refine ⟨_, rfl, .inr ⟨⟨rfl, rfl, .keep ?_ rest⟩, by simp⟩⟩
                exact fun mem => (List.mem_append.1 mem).elim free unended
        | close =>
            cases received
            exact ⟨_, rfl, .inl ⟨_, rfl⟩⟩
        | failure e =>
            cases received
            exact ⟨_, rfl, .inl ⟨_, rfl⟩⟩
    | @line head behind as isLine =>
        -- The piece in which the line ends; the other side gets nothing of what comes behind it.
        obtain ⟨b, bs, rfl⟩ := List.exists_cons_of_length_pos isLine.length_pos
        have trims : Arrival.Trims true (.piece (unseen' ++ (b :: bs) ++ behind) :: as)
            [.piece (unseen' ++ (b :: bs))] := .line (isLine.append_left free)
        rw [List.append_assoc] at trims
        cases received
        exact ⟨_, rfl, .inr ⟨⟨rfl, rfl, trims⟩, by simp⟩⟩
  · simp at free

theorem Trims.await {l : Latch} {wait : Wait} {r : Awaited} (h : Trims found c c')
    (free : delimiter ∉ c.inbox.unseen) (awaited : c.await l wait = (c₁, r)) :
    ∃ c₁', c'.await l wait = (c₁', r) ∧ ((∃ e, r = .failed e) ∨ Trims found c₁ c₁' ∧
      (r ≠ .arrived → delimiter ∉ c₁.inbox.unseen)) := by
  unfold Channel.await at awaited ⊢
  rw [h.signal]
  split at awaited
  · cases awaited
    exact ⟨_, rfl, .inl ⟨_, rfl⟩⟩
  · rename_i s wait polled
    have trims : Trims found { c with signal := s } { c' with signal := s } :=
      ⟨rfl, h.seen, h.script⟩
    exact trims.receive free awaited

end Channel

namespace Exchange

/-! ## Exchanges -/

/-- What an exchange that is still to read has before it, beside one to which nothing came behind
the first delimiter. -/
def Stage.Trims (found : Bool) (c c' : Channel) : Stage → Prop
  | .searching => c.Trims found c'
  | .awaiting _ => c.Trims found c' ∧ delimiter ∉ c.inbox.unseen
  | _ => True

/-- Two exchanges that stand at the same stage, on streams that differ only in what is behind the
first delimiter. -/
structure Alike (found : Bool) (x y : Exchange) : Prop where
  stage : y.stage = x.stage
  wire : y.channel.wire = x.channel.wire.withArrivals y.channel.wire.arrivals
  reading : x.stage.Trims found x.channel y.channel

variable {p : Responder} {found : Bool} {x x' y : Exchange} {a : Act} {as : List Act}

theorem alike_searchStep {c c' : Channel} (t : Traffic)
    (wire : c'.wire = c.wire.withArrivals c'.wire.arrivals) (trims : c.Trims found c') :
    Alike found (searchStep ⟨c, .searching⟩ t).1 (searchStep ⟨c', .searching⟩ t).1 := by
  cases offered : c.offer delimiter with
  | mk c₁ o =>
      rcases trims.offer offered with ⟨c₁', offered', same, same', more⟩
      simp only [searchStep, offered, offered']
      rw [← same, ← same'] at wire
      cases o with
      | line line => exact ⟨rfl, wire, trivial⟩
      | full => exact ⟨rfl, wire, trivial⟩
      | more => exact ⟨rfl, wire, more rfl⟩

theorem alike_awaitStep {c c' : Channel} {stage : Stage} (wait : Wait)
    (wire : c'.wire = c.wire.withArrivals c'.wire.arrivals) (trims : c.Trims found c')
    (free : delimiter ∉ c.inbox.unseen) :
    Alike found (awaitStep ⟨c, stage⟩ wait) (awaitStep ⟨c', stage⟩ wait) := by
  cases awaited : c.await .never wait with
  | mk c₁ r =>
      rcases trims.await free awaited with ⟨c₁', awaited', still⟩
      have kept := Channel.wire_await awaited
      have kept' := Channel.wire_await awaited'
      have wire' : c₁'.wire = c₁.wire.withArrivals c₁'.wire.arrivals := by
        rw [kept', wire, kept]
        rfl
      simp only [awaitStep, awaited, awaited']
      rcases still with ⟨e, rfl⟩ | ⟨trims', free'⟩
      · exact ⟨rfl, wire', trivial⟩
      · cases r with
        | arrived => exact ⟨rfl, wire', trims'⟩
        | pending wait => exact ⟨rfl, wire', trims', free' (by simp)⟩
        | failed e => exact ⟨rfl, wire', trivial⟩

theorem alike_writeStep {c c' : Channel} {stage : Stage} (response rest : Bytes) (t : Traffic)
    (wire : c'.wire = c.wire.withArrivals c'.wire.arrivals) :
    Alike found (writeStep ⟨c, stage⟩ response rest t).1 (writeStep ⟨c', stage⟩ response rest t).1 := by
  rcases c' with ⟨wire', inbox', signal'⟩
  replace wire : wire' = c.wire.withArrivals wire'.arrivals := wire
  generalize wire'.arrivals = as at wire
  subst wire
  cases rest with
  | nil =>
      simp only [writeStep, Wire.flush_withArrivals]
      cases flushed : c.wire.flush with
      | mk w e => cases e <;> exact ⟨rfl, rfl, trivial⟩
  | cons b bs =>
      simp only [writeStep, Wire.take_withArrivals]
      cases took : c.wire.take (b :: bs) with
      | mk w r => cases r <;> exact ⟨rfl, rfl, trivial⟩

namespace Alike

theorem sent (h : Alike found x y) : y.sent = x.sent := by
  rw [Exchange.sent, h.wire]
  rfl

/-- The scripts of both streams grow. -/
theorem onWire {found' : Bool} {f g : Wire → Wire} (h : Alike found x y)
    (wire : g y.channel.wire =
      (f x.channel.wire).withArrivals (g y.channel.wire).arrivals)
    (script : ∀ piece piece',
      Arrival.Trims found (piece :: x.channel.wire.arrivals) (piece' :: y.channel.wire.arrivals) →
        Arrival.Trims found' (piece :: (f x.channel.wire).arrivals)
          (piece' :: (g y.channel.wire).arrivals)) :
    Alike found' (x.onWire f) (y.onWire g) := by
  have trims (h : x.channel.Trims found y.channel) :
      (x.onWire f).channel.Trims found' (y.onWire g).channel :=
    ⟨h.signal, h.seen, script _ _ h.script⟩
  refine ⟨h.stage, wire, ?_⟩
  rcases h with ⟨-, -, reading⟩
  rcases x with ⟨c, stage⟩
  cases stage with
  | searching => exact trims reading
  | awaiting wait => exact ⟨trims reading.1, reading.2⟩
  | answering => trivial
  | writing => trivial
  | ending => trivial
  | finished => trivial

/-- What is no arrival keeps two exchanges alike. -/
theorem act (h : Alike found x y) (moved : x.act? p a = some x') (quiet : a.arrival? = none) :
    ∃ y', y.act? p a = some y' ∧ Alike found x' y' := by
  rcases x with ⟨c, stage⟩
  rcases y with ⟨c', stage'⟩
  obtain rfl : stage' = stage := h.stage
  have wire : c'.wire = c.wire.withArrivals c'.wire.arrivals := h.wire
  have reading : stage'.Trims found c c' := h.reading
  cases a with
  | arrive a => cases quiet
  | allow u =>
      cases moved
      refine ⟨_, rfl, h.onWire ?_ fun _ _ script => script⟩
      rw [wire]
      rfl
  | failFlush e =>
      cases moved
      refine ⟨_, rfl, h.onWire ?_ fun _ _ script => script⟩
      rw [wire]
      rfl
  | step =>
      cases stage' with
      | searching =>
          cases moved
          exact ⟨_, rfl, alike_searchStep .zero wire reading⟩
      | awaiting wait =>
          cases moved
          exact ⟨_, rfl, alike_awaitStep wait wire reading.1 reading.2⟩
      | answering line =>
          cases moved
          exact ⟨_, rfl, rfl, wire, trivial⟩
      | writing response rest =>
          cases moved
          exact ⟨_, rfl, alike_writeStep response rest .zero wire⟩
      | ending r =>
          cases moved
          exact ⟨_, rfl, rfl, wire, trivial⟩
      | finished r => cases moved
  | crash =>
      cases stage' <;> cases moved
      exact ⟨_, rfl, rfl, wire, trivial⟩
  | drop => cases stage' <;> cases moved <;> exact ⟨_, rfl, rfl, wire, trivial⟩

/-- An arrival without a delimiter, before the first, comes to both. -/
theorem arrive (h : Alike false x y) {b : Arrival} (free : delimiter ∉ b.bytes) :
    Alike false (x.onWire (.expect b)) (y.onWire (.expect b)) := by
  refine h.onWire ?_ fun _ _ script => script.next free
  rw [h.wire]
  rfl

/-- The arrival with the first delimiter comes to one without what is behind it. -/
theorem arriveLine (h : Alike false x y) {line behind : Bytes}
    (isLine : Line.IsLine delimiter line) :
    Alike true (x.onWire (.expect (.piece (line ++ behind)))) (y.onWire (.expect (.piece line))) := by
  refine h.onWire ?_ fun _ _ script => script.ended isLine
  rw [h.wire]
  rfl

/-- What comes later comes to one of them only. -/
theorem arriveLate (h : Alike true x y) (b : Arrival) : Alike true (x.onWire (.expect b)) y :=
  h.onWire (g := id) h.wire fun _ _ script => script.late b

end Alike

/-! ## Runs -/

/-- The acts without what arrives behind the first delimiter; a delimiter has come already if
`found`. -/
def Act.trim : Bool → List Act → List Act
  | _, [] => []
  | true, .arrive _ :: as => trim true as
  | false, .arrive (.piece bs) :: as =>
      match Line.cut? delimiter bs with
      | some (line, _) => .arrive (.piece line) :: trim true as
      | none => .arrive (.piece bs) :: trim false as
  | found, a :: as => a :: trim found as

/-- A run with its acts trimmed ends alike. -/
theorem alike_of_run {v w : Wire} (h : Alike found x y)
    (run : (machine p v).run? x as = some x') :
    ∃ y' found', (machine p w).run? y (Act.trim found as) = some y' ∧ Alike found' x' y' := by
  fun_induction Act.trim found as generalizing x y with
  | case1 found =>
      cases run
      exact ⟨y, found, rfl, h⟩
  | case2 b as ih => exact ih (h.arriveLate b) run
  | case3 bs as line behind cut ih =>
      have isLine := Line.isLine_of_cut? cut
      obtain rfl : line ++ behind = bs := Line.append_of_cut? cut
      exact ih (h.arriveLine isLine) run
  | case4 bs as hnone ih => exact ih (h.arrive (Line.cut?_eq_none_iff.1 hnone)) run
  | case5 found a as notLate notPiece ih =>
      rw [Machine.run?_cons, Option.bind_eq_some_iff] at run
      rcases run with ⟨x₁, moved, rest⟩
      suffices next : ∃ y₁, y.act? p a = some y₁ ∧ Alike found x₁ y₁ by
        rcases next with ⟨y₁, moved', still⟩
        rcases ih still rest with ⟨y', found', run', alike⟩
        refine ⟨y', found', ?_, alike⟩
        rw [Machine.run?_cons]
        exact (congrArg (Option.bind · _) moved').trans run'
      cases a with
      | arrive b =>
          -- The end of the stream or a failure, before the first delimiter.
          cases found with
          | true => exact (notLate b rfl rfl).elim
          | false =>
              cases moved
              cases b with
              | piece bs => exact (notPiece bs rfl rfl).elim
              | close => exact ⟨_, rfl, h.arrive List.not_mem_nil⟩
              | failure e => exact ⟨_, rfl, h.arrive List.not_mem_nil⟩
      | allow => exact h.act moved rfl
      | failFlush => exact h.act moved rfl
      | step => exact h.act moved rfl
      | crash => exact h.act moved rfl
      | drop => exact h.act moved rfl

theorem run?_arrives (p : Responder) (w : Wire) (as bs : List Arrival) :
    (machine p w).run? (start (w.withArrivals as)) (bs.map .arrive) =
      some (start (w.withArrivals (as ++ bs))) := by
  induction bs generalizing as with
  | nil => simp
  | cons b bs ih =>
      have arrived := ih (as ++ [b])
      rw [List.append_assoc, List.singleton_append] at arrived
      exact arrived

/-- Pieces that are there at the accept might as well arrive then. -/
theorem run?_own {w : Wire} (run : (machine p w).run? (start w) as = some x) :
    (machine p w).run? (start (w.withArrivals [])) (w.arrivals.map .arrive ++ as) = some x := by
  rw [Machine.run?_append, run?_arrives]
  exact run

/-- At the start nothing came. -/
theorem alike_start (w : Wire) : Alike false (start (w.withArrivals [])) (start (w.withArrivals [])) where
  stage := rfl
  wire := rfl
  reading := ⟨rfl, rfl, .keep List.not_mem_nil .nil⟩

/-- Two exchanges on which the same acts are, up to what arrives behind the first delimiter, stand
at the same stage and have sent the same. -/
theorem same_of_trim {v w : Wire} {as bs : List Act} (trimmed : Act.trim false as = Act.trim false bs)
    (run : (machine p w).run? (start (w.withArrivals [])) as = some x)
    (other : (machine p v).run? (start (w.withArrivals [])) bs = some y) :
    y.stage = x.stage ∧ y.sent = x.sent := by
  rcases alike_of_run (w := w) (alike_start w) run with ⟨z, _, run', alike⟩
  rcases alike_of_run (w := w) (alike_start w) other with ⟨z', _, other', alike'⟩
  rw [trimmed, other'] at run'
  cases run'
  exact ⟨alike'.stage.symm.trans alike.stage, alike'.sent.symm.trans alike.sent⟩

end Exchange

namespace Exchanges

open Exchange (Act)

variable {p : Responder} {es : List Event} {xs : Exchanges}

/-- All that happened to exchange `i` on the connection `w`, the pieces that were there at the
accept first. -/
def own (i : Nat) (w : Wire) (es : List Event) : List Act :=
  w.arrivals.map .arrive ++ acts i es

/-- A connection that was accepted has its exchange, which is where its own acts bring it. -/
theorem exists_exchange (run : (machine p).run? .fresh es = some xs) {i : Nat} {w : Wire}
    (accepted : (wires es)[i]? = some w) :
    ∃ x, xs.all[i]? = some x ∧ (Exchange.machine p w).run? (.start w) (acts i es) = some x := by
  have apart := apart_of_run run
  have here : i < xs.all.length := by
    rw [apart.length]
    exact (List.getElem?_eq_some_iff.1 accepted).1
  have hget : xs.all[i]? = some xs.all[i] := List.getElem?_eq_getElem here
  exact ⟨xs.all[i], hget, (apart.own i w accepted).trans hget⟩

/-- For every responder, in every run of the exchanges of a server, on every connection `w`:

* either nothing was sent and the responder was not called; or it was called once, on the first line
  of the connection's own input, and what was sent are the first bytes of its answer, as many as
  the stream took;
* an exchange that succeeded has sent the whole answer;
* an exchange whose read failed has sent nothing, and the responder was not called;
* in any other run, on any connection with the same first line, whose stream took as many bytes in
  each write, the same was sent;
* in any other run, on any connection to which the same happened, but for what arrived behind the
  first line, the exchange is at the same stage and the same was sent;
* in any other run, on any connection with the same script, when the pieces arrived and when the
  exchange went on makes no difference: exchanges that came to a result without being dropped came
  to the same, and the same was sent. -/
theorem keeps_to_own_connection {p : Responder} {es fs : List Event} {xs ys : Exchanges}
    (run : (machine p).run? .fresh es = some xs) (other : (machine p).run? .fresh fs = some ys)
    {i j : Nat} {v w : Wire} (accepted : (wires es)[i]? = some w)
    (accepted' : (wires fs)[j]? = some v) :
    let first := Line.first? delimiter (Exchange.input w (acts i es))
    let calls := logOf p Exchange.call? i es
    let taken := logOf p Exchange.taken? i es
    ∃ x y, xs.all[i]? = some x ∧ ys.all[j]? = some y ∧
      (x.sent = w.sent ∧ calls = [] ∨
        ∃ line, first = some line ∧ calls = [line] ∧
          x.sent = w.sent ++ (p line).take taken.sum) ∧
      (x.result? = some .success → ∃ line, first = some line ∧ x.sent = w.sent ++ p line) ∧
      (∀ e, x.result? = some (.failure (.read e)) → x.sent = w.sent ∧ calls = []) ∧
      (v.sent = w.sent → Line.first? delimiter (Exchange.input v (acts j fs)) = first →
        logOf p Exchange.taken? j fs = taken → y.sent = x.sent) ∧
      (v = w.withArrivals v.arrivals → Act.trim false (own j v fs) = Act.trim false (own i w es) →
        y.stage = x.stage ∧ y.sent = x.sent) ∧
      (v = w.withArrivals v.arrivals →
        Exchange.script v (acts j fs) = Exchange.script w (acts i es) →
        (∀ a ∈ acts i es, a.isPlain = true) → (∀ b ∈ acts j fs, b.isPlain = true) →
        ∀ r r', x.result? = some r → y.result? = some r' → r' = r ∧ y.sent = x.sent) := by
  intro first calls taken
  rcases exists_exchange run accepted with ⟨x, hget, alone⟩
  rcases exists_exchange other accepted' with ⟨y, hget', alone'⟩
  -- Each of the two exchanges, alone with its own acts, answers its own first line.
  have accords : x.Accords p w (Exchange.script w (acts i es)) calls taken := by
    simp only [calls, taken, logOf_of_run _ run accepted]
    exact Exchange.accords_of_run alone
  have accords' : y.Accords p v (Exchange.script v (acts j fs)) (logOf p Exchange.call? j fs)
      (logOf p Exchange.taken? j fs) := by
    rw [logOf_of_run _ other accepted', logOf_of_run _ other accepted']
    exact Exchange.accords_of_run alone'
  refine ⟨x, y, hget, hget', ?_, ?_, ?_, ?_, ?_, ?_⟩
  · rcases accords.unsent_or_answered with unsent | ⟨line, answered⟩
    · exact .inl ⟨unsent.sent, unsent.calls⟩
    · exact .inr ⟨line, answered.first, answered.calls, answered.sent⟩
  · intro success
    rcases accords.of_result success with ⟨line, answered, whole⟩
    refine ⟨line, answered.first, ?_⟩
    rw [answered.sent, List.take_of_length_le whole]
  · intro e failed
    have unsent : x.Unsent w calls taken := accords.of_result failed
    exact ⟨unsent.sent, unsent.calls⟩
  · intro sent line bytes
    rw [bytes] at accords'
    exact accords.sent_eq accords' sent line
  · intro wire trimmed
    have whole := Exchange.run?_own alone
    have whole' := Exchange.run?_own alone'
    rw [wire] at whole'
    exact Exchange.same_of_trim trimmed.symm whole whole'
  · intro wire script plain plain' r r' known known'
    exact Exchange.same_of_script alone plain alone' plain' wire script known known'

/-- Two connections.  On the second a line comes in two pieces, with more behind it; the responder
fails on the line of the first. -/
def crossedRun : List Event :=
  [.accept .blank, .accept .blank, .arrive 1 (.piece [97]), .arrive 0 (.piece [98, 10]), .step 1,
    .step 0, .step 1, .step 0, .step 1, .arrive 1 (.piece [10, 99, 10]), .step 0, .step 1, .crash 0,
    .step 1, .step 1, .arrive 1 .close, .step 1, .step 0, .step 1]

/-- One connection, on which the same line comes in the same pieces, and nothing behind it. -/
def loneRun : List Event :=
  [.accept .blank, .arrive 0 (.piece [97]), .step 0, .step 0, .step 0, .arrive 0 (.piece [10]),
    .step 0, .step 0, .step 0, .step 0, .step 0]

theorem sent_of_crossedRun :
    ∃ xs ys, (machine id).run? .fresh crossedRun = some xs ∧
      (machine id).run? .fresh loneRun = some ys ∧
      ∃ x y, xs.all[1]? = some x ∧ ys.all[0]? = some y ∧ x.sent = [97, 10] ∧ y.sent = x.sent := by
  obtain ⟨xs, run⟩ : ∃ xs, (machine id).run? .fresh crossedRun = some xs := ⟨_, rfl⟩
  obtain ⟨ys, other⟩ : ∃ ys, (machine id).run? .fresh loneRun = some ys := ⟨_, rfl⟩
  rcases keeps_to_own_connection run other (i := 1) (j := 0) rfl rfl with
    ⟨x, y, hget, hget', -, success, -, -, alike, -⟩
  have finished : x.result? = some .success := by
    cases run
    cases hget
    rfl
  rcases success finished with ⟨line, first, sent⟩
  have same : line = [97, 10] := (Option.some.inj first).symm
  exact ⟨xs, ys, run, other, x, y, hget, hget', by rw [sent, same]; rfl, (alike rfl rfl).2⟩

end Exchanges
end LineExchange
