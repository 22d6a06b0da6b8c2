import Mathlib.Data.List.Induction
import LineExchange.Machine

/-!
# History — what happened in the run of a machine

A state does not tell everything about the events that led to it.  This file defines, for a run
given by its start and its events:

* `Machine.Happens` — that an event of some kind came, in a state of some kind;
* `Machine.log` — what the events had to tell, in their order.

Both are described by how they grow with the last event of the run (`happens_concat`,
`log_concat`; `happens_cons` is for the first), and `run?_induction` proves facts about runs the
same way: what holds at the start, and is kept by every event that can happen, holds after every
run.  `add_countP_le_of_run` bounds how often events of one kind come, when each of them uses
something up.
-/

namespace LineExchange
namespace Machine

variable {σ ε α : Type} (m : Machine σ ε)

/-! ## Runs, last event first -/

theorem run?_append (s : σ) (es fs : List ε) :
    m.run? s (es ++ fs) = (m.run? s es).bind fun t => m.run? t fs := by
  simp only [run?, List.foldlM_append]
  rfl

theorem run?_concat (s : σ) (es : List ε) (e : ε) :
    m.run? s (es ++ [e]) = (m.run? s es).bind fun t => m.step? t e := by
  rw [run?_append]
  cases h : m.run? s es with
  | none => rfl
  | some t => cases k : m.step? t e <;> simp [k]

/-- A run that went one event further went as far as before. -/
theorem run?_concat_eq_some {s u : σ} {es : List ε} {e : ε} :
    m.run? s (es ++ [e]) = some u ↔ ∃ t, m.run? s es = some t ∧ m.step? t e = some u := by
  rw [run?_concat, Option.bind_eq_some_iff]

variable {m}

/-- What holds at the start, and is kept by every event, holds after every run. -/
theorem run?_induction {s : σ} {motive : List ε → σ → Prop} (start : motive [] s)
    (next : ∀ {es : List ε} {t u : σ} {e : ε}, m.run? s es = some t → m.step? t e = some u →
      motive es t → motive (es ++ [e]) u)
    {es : List ε} {t : σ} (run : m.run? s es = some t) : motive es t := by
  induction es using List.reverseRecOn generalizing t with
  | nil =>
      cases run
      exact start
  | append_singleton es e ih =>
      rcases (m.run?_concat_eq_some).1 run with ⟨u, before, last⟩
      exact next before last (ih before)

/-- The states that events lead to are those at the ends of runs. -/
theorem reaches_iff_run? {s t : σ} : m.Reaches s t ↔ ∃ es, m.run? s es = some t := by
  constructor
  · intro path
    induction path with
    | here => exact ⟨[], rfl⟩
    | @step t u e _ next ih =>
        rcases ih with ⟨es, run⟩
        exact ⟨es ++ [e], (m.run?_concat_eq_some).2 ⟨t, run, next⟩⟩
  · rintro ⟨es, run⟩
    exact run?_induction (motive := fun _ t => m.Reaches s t) (.here s)
      (fun _ last path => .step path last) run

/-- What every event that counts takes off a store, and no other event adds to, happens at most as
often as the store has room. -/
theorem add_countP_le_of_run (store : σ → Nat) (counts : ε → Bool) (inv : σ → Prop)
    (keeps : ∀ {t u : σ} {e : ε}, inv t → m.step? t e = some u → inv u)
    (pays : ∀ {t u : σ} {e : ε}, inv t → m.step? t e = some u →
      store u + (counts e).toNat ≤ store t)
    {s t : σ} {es : List ε} (holds : inv s) (run : m.run? s es = some t) :
    inv t ∧ store t + es.countP counts ≤ store s := by
  refine run?_induction (motive := fun es t => inv t ∧ store t + es.countP counts ≤ store s)
    ⟨holds, Nat.le_refl _⟩ ?_ run
  intro es t u e _ last ih
  rcases ih with ⟨before, le⟩
  have paid := pays before last
  have counted : (es ++ [e]).countP counts = es.countP counts + (counts e).toNat := by
    cases h : counts e <;> simp [h]
  exact ⟨keeps before last, by omega⟩

variable (m)

/-! ## Events that happened -/

/-- In the run of `es` from `s` there came an event, in a state so that `P` holds of the two. -/
def Happens (P : σ → ε → Prop) (s : σ) (es : List ε) : Prop :=
  ∃ (before : List ε) (e : ε) (after : List ε) (t : σ),
    es = before ++ e :: after ∧ m.run? s before = some t ∧ P t e

@[simp] theorem not_happens_nil (P : σ → ε → Prop) (s : σ) : ¬m.Happens P s [] := by
  rintro ⟨before, e, after, t, split, -⟩
  simp at split

/-- What happens in a run happens with its first event, or behind it. -/
theorem happens_cons {P : σ → ε → Prop} {s : σ} {e : ε} {es : List ε} :
    m.Happens P s (e :: es) ↔ P s e ∨ ∃ t, m.step? s e = some t ∧ m.Happens P t es := by
  constructor
  · rintro ⟨before, f, after, u, split, path, holds⟩
    cases before with
    | nil =>
        obtain ⟨rfl, -⟩ : e = f ∧ es = after := by simpa using split
        cases path
        exact .inl holds
    | cons e' before =>
        obtain ⟨rfl, rest⟩ : e = e' ∧ es = before ++ f :: after := by simpa using split
        rw [run?_cons, Option.bind_eq_some_iff] at path
        rcases path with ⟨t, first, path⟩
        exact .inr ⟨t, first, before, f, after, u, rest, path, holds⟩
  · rintro (holds | ⟨t, first, before, f, after, u, rfl, path, holds⟩)
    · exact ⟨[], e, es, s, rfl, rfl, holds⟩
    · refine ⟨e :: before, f, after, u, rfl, ?_, holds⟩
      rw [run?_cons, first]
      exact path

variable {m}

/-- What happened in a run happened before its last event, or with it. -/
theorem happens_concat {P : σ → ε → Prop} {s t : σ} {es : List ε} {e : ε}
    (run : m.run? s es = some t) :
    m.Happens P s (es ++ [e]) ↔ m.Happens P s es ∨ P t e := by
  constructor
  · rintro ⟨before, f, after, u, split, path, holds⟩
    -- What came behind the event is either nothing, or it has the last event at its end.
    cases after using List.reverseRecOn with
    | nil =>
        obtain ⟨rfl, rfl⟩ : es = before ∧ e = f := by simpa using split
        cases run.symm.trans path
        exact .inr holds
    | append_singleton after g =>
        rw [← List.cons_append, ← List.append_assoc] at split
        exact .inl ⟨before, f, after, u, (List.append_singleton_inj.1 split).1, path, holds⟩
  · rintro (⟨before, f, after, u, rfl, path, holds⟩ | holds)
    · exact ⟨before, f, after ++ [e], u, by simp, path, holds⟩
    · exact ⟨es, e, [], t, rfl, run, holds⟩

variable (m)

/-! ## What the events told -/

/-- What the events of the run of `es` from `s` had to tell by `f`, in their order. -/
def log (f : σ → ε → Option α) (s : σ) : List ε → List α
  | [] => []
  | e :: es =>
      match m.step? s e with
      | some t => (f s e).toList ++ log f t es
      | none => []

@[simp] theorem log_nil (f : σ → ε → Option α) (s : σ) : m.log f s [] = [] := rfl

variable {m}

/-- The last event of a run tells what comes last. -/
theorem log_concat (f : σ → ε → Option α) {s t u : σ} {es : List ε} {e : ε}
    (run : m.run? s es = some t) (last : m.step? t e = some u) :
    m.log f s (es ++ [e]) = m.log f s es ++ (f t e).toList := by
  induction es generalizing s with
  | nil =>
      cases run
      simp [log, last]
  | cons d es ih =>
      rw [run?_cons, Option.bind_eq_some_iff] at run
      rcases run with ⟨v, first, rest⟩
      simp [log, first, ih rest]

end Machine
end LineExchange
