/-!
# Machine — states that are reached by events

Concurrent parts of the library are given by a start state and a function that says what an event
does in a state, or that it cannot happen there.  Events of different actors may come in any
order.  This file defines:

* `Machine` — a start state with such a function;
* `Machine.run?` — the state after a list of events, if each could happen;
* `Machine.advance` — the same, leaving out the events that could not;
* `Machine.Reaches` — the states that some events lead to.
-/

namespace LineExchange

/-- A start state, and what events do. -/
structure Machine (σ ε : Type) where
  start : σ
  /-- The state after an event, unless it cannot happen. -/
  step? : σ → ε → Option σ

namespace Machine

variable {σ ε : Type} (m : Machine σ ε)

/-- The state after the events `es` in order, if each of them can happen. -/
def run? (s : σ) (es : List ε) : Option σ :=
  es.foldlM m.step? s

/-- The state after those of the events `es`, in order, that can happen. -/
def advance (s : σ) (es : List ε) : σ :=
  es.foldl (fun s e => (m.step? s e).getD s) s

/-- Some events lead from one state to another. -/
inductive Reaches : σ → σ → Prop where
  | here (s : σ) : Reaches s s
  | step {s t u : σ} {e : ε} (path : Reaches s t) (next : m.step? t e = some u) : Reaches s u

/-- Some events lead from the start to a state. -/
def Reachable (s : σ) : Prop :=
  m.Reaches m.start s

@[simp] theorem run?_nil (s : σ) : m.run? s [] = some s := rfl

@[simp] theorem run?_cons (s : σ) (e : ε) (es : List ε) :
    m.run? s (e :: es) = (m.step? s e).bind fun t => m.run? t es := rfl

end Machine
end LineExchange
