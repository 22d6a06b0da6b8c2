import LineExchange.Proofs.Server.Accounts

/-!
# Separation — what is one exchange's own in a run of all

The exchanges of a server go on in any order.  They share nothing but the counters, and none of
them reads a counter.  This file defines:

* `Exchange.Act` and `Exchange.act?` — what happens to one exchange, and what comes of it;
* `Exchange.machine` — one exchange on its connection, with nothing beside it;
* `Exchanges.wires` and `Exchanges.acts` — in a run of all: the connections that were accepted, and
  the acts that are one exchange's own;
* `Exchanges.logOf` — what one exchange has to tell in a run of all.

Every exchange of a run is where its own acts bring it (`apart_of_run`), and it tells what it would
tell alone (`logOf_of_run`).
-/

namespace LineExchange

namespace Exchange

inductive Act where
  | arrive (arrival : Arrival)
  | allow (uptake : Uptake)
  | failFlush (error : IoError)
  | step
  | crash
  | drop
  deriving DecidableEq, Repr

def onWire (f : Wire → Wire) (x : Exchange) : Exchange :=
  { x with channel := { x.channel with wire := f x.channel.wire } }

/-- What comes of an act.  The counters move beside it, so any will do. -/
def act? (p : Responder) (x : Exchange) : Act → Option Exchange
  | .arrive a => some (x.onWire (.expect a))
  | .allow u => some (x.onWire (.allow u))
  | .failFlush e => some (x.onWire (.failFlush e))
  | .step => (x.step p .zero).map Prod.fst
  | .crash => x.crash
  | .drop => (x.drop .zero).map Prod.fst

def machine (p : Responder) (w : Wire) : Machine Exchange Act :=
  ⟨.start w, act? p⟩

variable {p : Responder} {x x' : Exchange} {t t' : Traffic}

/-- What becomes of an exchange in a step does not depend on the counters. -/
theorem act?_of_step (h : x.step p t = some (x', t')) : x.act? p .step = some x' := by
  suffices same : (x.step p .zero).map Prod.fst = (x.step p t).map Prod.fst by
    rw [act?, same, h]
    rfl
  rcases x with ⟨channel, stage⟩
  cases stage with
  | searching =>
      simp only [step, searchStep, Option.map_some]
      split <;> rfl
  | awaiting wait => rfl
  | answering line => rfl
  | writing response rest =>
      simp only [step, writeStep, Option.map_some]
      split <;> split <;> rfl
  | ending r => rfl
  | finished r => rfl

theorem act?_of_drop (h : x.drop t = some (x', t')) : x.act? p .drop = some x' := by
  rcases x with ⟨channel, stage⟩
  cases stage <;> cases h <;> rfl

end Exchange

namespace Exchanges

open Exchange (Act)

variable {p : Responder} {xs xs' : Exchanges} {e : Event} {es : List Event} {α : Type}

def Event.own? : Event → Option (Nat × Act)
  | .accept _ | .acceptFailed => none
  | .arrive i a => some (i, .arrive a)
  | .allow i u => some (i, .allow u)
  | .failFlush i err => some (i, .failFlush err)
  | .step i => some (i, .step)
  | .crash i => some (i, .crash)
  | .drop i => some (i, .drop)

def Event.actOn? (i : Nat) (e : Event) : Option Act :=
  e.own?.bind fun (k, a) => if k = i then some a else none

def wires (es : List Event) : List Wire :=
  es.filterMap Event.wire?

def acts (i : Nat) (es : List Event) : List Act :=
  es.filterMap (Event.actOn? i)

/-! ## Every event -/

/-- An event begins an exchange or is about one; the others it leaves as they are. -/
theorem step?_spec (h : step? p xs e = some xs') :
    e.own? = none ∧ xs'.all = xs.all ++ e.wire?.toList.map .start ∨
      ∃ k a x x', e.own? = some (k, a) ∧ e.wire? = none ∧ xs.all[k]? = some x ∧
        x.act? p a = some x' ∧ xs'.all = xs.all.set k x' := by
  cases e with
  | accept w =>
      cases h
      exact .inl ⟨rfl, rfl⟩
  | acceptFailed =>
      cases h
      exact .inl ⟨rfl, (List.append_nil _).symm⟩
  | arrive k a =>
      rcases Option.map_eq_some_iff.1 h with ⟨x, hget, rfl⟩
      exact .inr ⟨k, .arrive a, x, _, rfl, rfl, hget, rfl, rfl⟩
  | allow k u =>
      rcases Option.map_eq_some_iff.1 h with ⟨x, hget, rfl⟩
      exact .inr ⟨k, .allow u, x, _, rfl, rfl, hget, rfl, rfl⟩
  | failFlush k err =>
      rcases Option.map_eq_some_iff.1 h with ⟨x, hget, rfl⟩
      exact .inr ⟨k, .failFlush err, x, _, rfl, rfl, hget, rfl, rfl⟩
  | step k =>
      cases Move.of_step? h with
      | scripted of => cases of
      | stepped hget step =>
          exact .inr ⟨k, .step, _, _, rfl, rfl, hget, Exchange.act?_of_step step, rfl⟩
  | crash k =>
      cases Move.of_step? h with
      | scripted of => cases of
      | crashed hget crash => exact .inr ⟨k, .crash, _, _, rfl, rfl, hget, crash, rfl⟩
  | drop k =>
      cases Move.of_step? h with
      | scripted of => cases of
      | dropped hget drop =>
          exact .inr ⟨k, .drop, _, _, rfl, rfl, hget, Exchange.act?_of_drop drop, rfl⟩

/-- An event that is about exchange `i` leaves it where its act brings it. -/
theorem step?_of_actOn? {i : Nat} {a : Act} (h : step? p xs e = some xs')
    (moved : e.actOn? i = some a) :
    ∃ x x', e.wire? = none ∧ xs.all[i]? = some x ∧ x.act? p a = some x' ∧
      xs'.all = xs.all.set i x' := by
  rcases step?_spec h with ⟨hnone, -⟩ | ⟨k, b, x, x', own, noWire, hget, act, all⟩
  · simp [Event.actOn?, hnone] at moved
  · simp only [Event.actOn?, own, Option.bind_some, Option.ite_none_right_eq_some] at moved
    rcases moved with ⟨rfl, same⟩
    cases same
    exact ⟨x, x', noWire, hget, act, all⟩

/-- An event that is not about exchange `i` leaves it, or begins it. -/
theorem getElem?_of_step? {i : Nat} (h : step? p xs e = some xs') (unmoved : e.actOn? i = none) :
    xs'.all[i]? = (xs.all ++ e.wire?.toList.map .start)[i]? := by
  rcases step?_spec h with ⟨-, all⟩ | ⟨k, b, x, x', own, noWire, -, -, all⟩
  · rw [all]
  · have other : k ≠ i := by
      rintro rfl
      simp [Event.actOn?, own] at unmoved
    rw [all, List.getElem?_set_ne other, noWire, Option.toList_none, List.map_nil, List.append_nil]

theorem length_of_step? (h : step? p xs e = some xs') :
    xs'.all.length = xs.all.length + e.wire?.toList.length := by
  rcases step?_spec h with ⟨-, all⟩ | ⟨k, b, x, x', -, noWire, -, -, all⟩
  · simp [all]
  · simp [all, noWire]

theorem wires_concat (es : List Event) (e : Event) :
    wires (es ++ [e]) = wires es ++ e.wire?.toList := by
  cases brought : e.wire? <;> simp [wires, brought]

theorem acts_concat (i : Nat) (es : List Event) (e : Event) :
    acts i (es ++ [e]) = acts i es ++ (e.actOn? i).toList := by
  cases own : e.actOn? i <;> simp [acts, own]

/-! ## Runs -/

/-- Each exchange is where its own acts bring it; and before its accept nothing can happen to it. -/
structure Apart (p : Responder) (es : List Event) (xs : Exchanges) : Prop where
  length : xs.all.length = (wires es).length
  own : ∀ i w, (wires es)[i]? = some w →
    (Exchange.machine p w).run? (.start w) (acts i es) = xs.all[i]?
  later : ∀ i, xs.all.length ≤ i → acts i es = []

theorem Apart.next (h : Apart p es xs) (last : step? p xs e = some xs') :
    Apart p (es ++ [e]) xs' := by
  have grows := length_of_step? last
  refine ⟨by simp [grows, wires_concat, h.length], ?_, ?_⟩
  · intro i w accepted
    rw [acts_concat]
    rw [wires_concat] at accepted
    cases moved : e.actOn? i with
    | none =>
        rw [getElem?_of_step? last moved, Option.toList_none, List.append_nil]
        by_cases old : i < xs.all.length
        · rw [List.getElem?_append_left (h.length ▸ old)] at accepted
          rw [List.getElem?_append_left old]
          exact h.own i w accepted
        · -- The exchange that begins: nothing happened to it yet.
          have ge : xs.all.length ≤ i := Nat.le_of_not_lt old
          rw [List.getElem?_append_right (h.length ▸ ge), ← h.length] at accepted
          rw [h.later i ge, List.getElem?_append_right ge, List.getElem?_map, accepted]
          rfl
    | some a =>
        -- The exchange that acts: its run alone goes on by the same act.
        rcases step?_of_actOn? last moved with ⟨x, x', noWire, hget, act, all⟩
        have here := (List.getElem?_eq_some_iff.1 hget).1
        rw [noWire, Option.toList_none, List.append_nil] at accepted
        have before := h.own i w accepted
        rw [hget] at before
        rw [Option.toList_some, Machine.run?_concat, before, all, List.getElem?_set_self here]
        exact act
  · intro i ge
    have unmoved : e.actOn? i = none := by
      cases moved : e.actOn? i with
      | none => rfl
      | some a =>
          rcases step?_of_actOn? last moved with ⟨x, x', -, hget, -, -⟩
          have here := (List.getElem?_eq_some_iff.1 hget).1
          omega
    rw [acts_concat, unmoved, h.later i (by omega)]
    rfl

theorem apart_of_run (run : (machine p).run? .fresh es = some xs) : Apart p es xs := by
  refine Machine.run?_induction (motive := fun es xs => Apart p es xs) ?_ ?_ run
  · exact ⟨rfl, by simp [wires], by simp [acts]⟩
  · intro es xs xs' e _ last ih
    exact ih.next last

def tells (f : Exchange → Act → Option α) (i : Nat) (xs : Exchanges) (e : Event) : Option α :=
  (e.actOn? i).bind fun a => xs.all[i]?.bind fun x => f x a

def logOf (p : Responder) (f : Exchange → Act → Option α) (i : Nat) (es : List Event) : List α :=
  (machine p).log (tells f i) .fresh es

/-- An exchange tells in a run of all what it tells alone. -/
theorem logOf_of_run (f : Exchange → Act → Option α)
    (run : (machine p).run? .fresh es = some xs) {i : Nat} {w : Wire}
    (accepted : (wires es)[i]? = some w) :
    logOf p f i es = (Exchange.machine p w).log f (.start w) (acts i es) := by
  -- Before its accept an exchange tells nothing, so that is carried along with the claim.
  suffices told : ∀ i, (xs.all.length ≤ i → logOf p f i es = []) ∧
      ∀ w, (wires es)[i]? = some w →
        logOf p f i es = (Exchange.machine p w).log f (.start w) (acts i es) from
    (told i).2 w accepted
  clear accepted
  refine Machine.run?_induction (motive := fun es xs => ∀ i,
    (xs.all.length ≤ i → logOf p f i es = []) ∧ ∀ w, (wires es)[i]? = some w →
      logOf p f i es = (Exchange.machine p w).log f (.start w) (acts i es)) ?_ ?_ run
  · intro i
    exact ⟨fun _ => rfl, fun w accepted => by simp [wires] at accepted⟩
  · intro es xs xs' e run last ih i
    have apart := apart_of_run run
    have told : logOf p f i (es ++ [e]) = logOf p f i es ++ (tells f i xs e).toList :=
      Machine.log_concat (tells f i) run last
    have grows := length_of_step? last
    rw [told, acts_concat]
    cases moved : e.actOn? i with
    | none =>
        simp only [tells, moved, Option.bind_none, Option.toList_none, List.append_nil]
        refine ⟨fun ge => (ih i).1 (by omega), ?_⟩
        intro w accepted
        by_cases old : i < xs.all.length
        · rw [wires_concat, List.getElem?_append_left (apart.length ▸ old)] at accepted
          exact (ih i).2 w accepted
        · have ge : xs.all.length ≤ i := Nat.le_of_not_lt old
          rw [(ih i).1 ge, apart.later i ge]
          rfl
    | some a =>
        rcases step?_of_actOn? last moved with ⟨x, x', noWire, hget, act, -⟩
        have here := (List.getElem?_eq_some_iff.1 hget).1
        refine ⟨fun ge => by omega, ?_⟩
        intro w accepted
        rw [wires_concat, noWire, Option.toList_none, List.append_nil] at accepted
        have before := apart.own i w accepted
        rw [hget] at before
        rw [(ih i).2 w accepted]
        simp only [tells, moved, hget, Option.bind_some, Option.toList_some]
        exact (Machine.log_concat f before act).symm

end Exchanges
end LineExchange
