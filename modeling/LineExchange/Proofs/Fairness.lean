import LineExchange.Proofs.History

/-!
# Fairness — what comes about in the end

A machine may be driven by a schedule that never ends and whose events may or may not be able to
happen when their turn comes.  This file defines:

* `Machine.follow` — the state after the first events of a schedule;
* `Machine.IsFair` — a schedule on which every kind of event comes again and again;
* `Machine.Ranking` — a number that no event raises, and that some kind of event lowers as long as
  the goal is not reached.

A machine with a ranking reaches its goal on every fair schedule (`Ranking.eventually`).
-/

namespace LineExchange
namespace Machine

variable {σ ε κ : Type}

/-- The state after the first `n` events of a schedule, leaving out those that cannot happen. -/
def follow (m : Machine σ ε) (s : σ) (schedule : Nat → ε) (n : Nat) : σ :=
  m.advance s ((List.range n).map schedule)

/-- Every kind of event comes again and again. -/
def IsFair (kind : ε → Option κ) (schedule : Nat → ε) : Prop :=
  ∀ (k : κ) (n : Nat), ∃ i, n ≤ i ∧ kind (schedule i) = some k

/-- As long as the goal is not reached there is a kind of event that lowers `left`; an event that
does not lower it changes nothing. -/
structure Ranking (m : Machine σ ε) (kind : ε → Option κ) (inv goal : σ → Prop) (left : σ → Nat) :
    Prop where
  keeps : ∀ {s t : σ} {e : ε}, inv s → m.step? s e = some t → inv t
  falls : ∀ {s t : σ} {e : ε}, inv s → m.step? s e = some t → t = s ∨ left t < left s
  helps : ∀ {s : σ}, inv s → ¬goal s → ∃ k, ∀ e, kind e = some k →
    ∃ t, m.step? s e = some t ∧ left t < left s
  stays : ∀ {s t : σ} {e : ε}, inv s → goal s → m.step? s e = some t → goal t

variable {m : Machine σ ε} {s : σ} {schedule : Nat → ε}

@[simp] theorem follow_zero : m.follow s schedule 0 = s := rfl

theorem follow_succ (n : Nat) :
    m.follow s schedule (n + 1) =
      (m.step? (m.follow s schedule n) (schedule n)).getD (m.follow s schedule n) := by
  simp [follow, advance, List.range_succ]

/-- What events keep is kept along a schedule. -/
theorem follow_induction {motive : σ → Prop} (start : motive s)
    (next : ∀ {t u : σ} {e : ε}, motive t → m.step? t e = some u → motive u) (n : Nat) :
    motive (m.follow s schedule n) := by
  induction n with
  | zero => exact start
  | succ n ih =>
      rw [follow_succ]
      cases h : m.step? (m.follow s schedule n) (schedule n) with
      | none => exact ih
      | some t => exact next ih h

namespace Ranking

variable {kind : ε → Option κ} {inv goal : σ → Prop} {left : σ → Nat}

/-- Between two points of a schedule nothing changes, or the number falls. -/
theorem eq_or_lt (r : m.Ranking kind inv goal left) (start : inv s) (schedule : Nat → ε)
    {n i : Nat} (le : n ≤ i) :
    m.follow s schedule i = m.follow s schedule n ∨
      left (m.follow s schedule i) < left (m.follow s schedule n) := by
  induction le with
  | refl => exact .inl rfl
  | @step i _ ih =>
      have here : inv (m.follow s schedule i) := follow_induction start r.keeps i
      rw [follow_succ]
      cases h : m.step? (m.follow s schedule i) (schedule i) with
      | none => exact ih
      | some t =>
          rw [Option.getD_some]
          rcases r.falls here h with same | less
          · rwa [same]
          · right
            rcases ih with same | lower
            · exact same ▸ less
            · exact Nat.lt_trans less lower

/-- From every point of a fair schedule on, the goal is reached. -/
theorem exists_goal (r : m.Ranking kind inv goal left) (start : inv s)
    (fair : IsFair kind schedule) (n : Nat) : ∃ i, n ≤ i ∧ goal (m.follow s schedule i) := by
  -- By induction on what is left at that point: some event of the kind that helps comes later.
  induction h : left (m.follow s schedule n) using Nat.strongRecOn generalizing n with
  | _ l ih =>
      by_cases reached : goal (m.follow s schedule n)
      · exact ⟨n, Nat.le_refl n, reached⟩
      have here : inv (m.follow s schedule n) := follow_induction start r.keeps n
      rcases r.helps here reached with ⟨k, help⟩
      rcases fair k n with ⟨i, le, isKind⟩
      have lower : left (m.follow s schedule (i + 1)) < l := by
        rw [← h]
        rcases r.eq_or_lt start schedule le with same | less
        · rcases help (schedule i) isKind with ⟨t, step, falls⟩
          rw [follow_succ, same, step]
          exact falls
        · rcases r.eq_or_lt start schedule (Nat.le_succ i) with still | falls
          · rwa [still]
          · exact Nat.lt_trans falls less
      rcases ih _ lower (i + 1) rfl with ⟨j, le', done⟩
      exact ⟨j, by omega, done⟩

/-- On every fair schedule the goal is reached, and kept. -/
theorem eventually (r : m.Ranking kind inv goal left) (start : inv s)
    (fair : IsFair kind schedule) : ∃ n, ∀ i, n ≤ i → goal (m.follow s schedule i) := by
  rcases r.exists_goal start fair 0 with ⟨n, -, reached⟩
  refine ⟨n, ?_⟩
  intro i le
  induction le with
  | refl => exact reached
  | @step i _ ih =>
      have here : inv (m.follow s schedule i) := follow_induction start r.keeps i
      rw [follow_succ]
      cases h : m.step? (m.follow s schedule i) (schedule i) with
      | none => exact ih
      | some t => exact r.stays here ih h

end Ranking
end Machine
end LineExchange
