import LineExchange.Proofs.History
import LineExchange.Proofs.Work.Balance

/-!
# Waking — no thread sleeps while there is nothing to wait for

A thread that waits for the count to be zero looks, parks, is woken and looks again, and the count
may rise and fall in between.  This file defines:

* `Count.Turn` — what an event does with one waiter;
* `Count.Waits` — a waiter is parked, or was woken and has not looked again.

Every event is a turn of each waiter (`turn_of_step?`), or lets a new one arrive.  From its cases
follow that nobody is parked while the count is zero (`not_parked_of_run`), that a waiter has
returned if and only if it looked while the count was zero (`returned_iff_of_run`), and that a
waiter stays as long as the count does not fall to zero (`waits_of_run`), also one that was woken
and looked too late (`parks_again`).
-/

namespace LineExchange
namespace Count

variable {c c' d : Count} {e : Event} {es fs : List Event} {i : Nat} {w w' : Waiter}

/-! ## Turns -/

inductive Turn (c : Count) (i : Nat) : Event → Waiter → Waiter → Prop where
  /-- The count falls to zero. -/
  | roused (falls : c.outstanding ≤ 1) : Turn c i .release .parked .woken
  | stirred : Turn c i (.wake i) .parked .woken
  | parks {w : Waiter} (awake : w.isAwake = true) (busy : c.outstanding ≠ 0) :
      Turn c i (.look i) w .parked
  | returns {w : Waiter} (awake : w.isAwake = true) (idle : c.outstanding = 0) :
      Turn c i (.look i) w .returned
  /-- The waiter does not look, and it sleeps on if it sleeps. -/
  | keeps {e : Event} {w : Waiter} (unlooked : e ≠ .look i)
      (asleep : w = .parked → e ≠ .wake i ∧ (e = .release → 1 < c.outstanding)) : Turn c i e w w

theorem turn_release (c : Count) (i : Nat) (w : Waiter) :
    Turn c i .release w (if c.outstanding - 1 = 0 then w.wake else w) := by
  split
  · rename_i zero
    cases w with
    | parked => exact .roused (by omega)
    | arriving | woken | returned => exact .keeps (by simp) (by simp)
  · rename_i hne
    exact .keeps (by simp) (fun _ => ⟨by simp, fun _ => by omega⟩)

theorem turn_look (awake : w.isAwake = true) : Turn c i (.look i) w (w.look c.isBusy) := by
  cases busy : c.isBusy with
  | false =>
      have idle : c.outstanding = 0 := by simpa [isBusy] using busy
      cases w with
      | arriving | woken => exact .returns rfl idle
      | parked | returned => cases awake
  | true =>
      have hne : c.outstanding ≠ 0 := Nat.ne_of_gt (by simpa [isBusy] using busy)
      cases w with
      | arriving | woken => exact .parks rfl hne
      | parked | returned => cases awake

/-- Every event is a turn of each waiter. -/
theorem turn_of_step? (step : c.step? e = some c') (hget : c.waiters[i]? = some w) :
    ∃ w', c'.waiters[i]? = some w' ∧ Turn c i e w w' := by
  have inside : i < c.waiters.length := (List.getElem?_eq_some_iff.1 hget).1
  cases e with
  | acquire =>
      cases step
      exact ⟨w, hget, .keeps (by simp) (by simp)⟩
  | release =>
      cases step
      refine ⟨_, ?_, turn_release c i w⟩
      simp only [release]
      split <;> simp [hget]
  | enter =>
      cases step
      exact ⟨w, (List.getElem?_append_left inside).trans hget, .keeps (by simp) (by simp)⟩
  | look j =>
      simp only [step?] at step
      split at step
      · rename_i v there
        split at step <;> cases step
        rename_i awake
        by_cases here : j = i
        · subst here
          obtain rfl : v = w := Option.some.inj (there.symm.trans hget)
          exact ⟨_, List.getElem?_set_self inside, turn_look awake⟩
        · -- Another thread looked.
          refine ⟨w, (List.getElem?_set_ne here).trans hget, .keeps ?_ (by simp)⟩
          exact fun same => here (Event.look.inj same)
      · cases step
  | wake j =>
      simp only [step?] at step
      split at step <;> cases step
      rename_i there
      by_cases here : j = i
      · subst here
        obtain rfl : Waiter.parked = w := Option.some.inj (there.symm.trans hget)
        exact ⟨_, List.getElem?_set_self inside, .stirred⟩
      · refine ⟨w, (List.getElem?_set_ne here).trans hget, .keeps (by simp) ?_⟩
        exact fun _ => ⟨fun same => here (Event.wake.inj same), by simp⟩

/-- Whoever waits behind an event waited before, or has just arrived. -/
theorem turn_or_arrives (step : c.step? e = some c') (hget : c'.waiters[i]? = some w') :
    (∃ w, c.waiters[i]? = some w ∧ Turn c i e w w') ∨ w' = .arriving := by
  cases before : c.waiters[i]? with
  | some w =>
      rcases turn_of_step? step before with ⟨v, there, turn⟩
      cases Option.some.inj (there.symm.trans hget)
      exact .inl ⟨w, rfl, turn⟩
  | none =>
      have outside : c.waiters.length ≤ i := List.getElem?_eq_none_iff.1 before
      right
      -- Nobody comes to wait but with `enter`.
      cases e with
      | acquire =>
          cases step
          simp [acquire, before] at hget
      | release =>
          cases step
          simp only [release] at hget
          split at hget <;> simp [before] at hget
      | enter =>
          cases step
          simp only [enter, List.getElem?_append_right outside, List.getElem?_singleton] at hget
          split at hget <;> cases hget
          rfl
      | look j =>
          rcases step?_look step with ⟨v, -, waiters, -⟩
          rw [waiters, List.getElem?_eq_none (by simpa using outside)] at hget
          cases hget
      | wake j =>
          rw [(step?_wake step).1, List.getElem?_eq_none (by simpa using outside)] at hget
          cases hget

/-- The count is zero behind an event only if it was zero, or falls to zero with a release. -/
theorem zero_or_falls (step : c.step? e = some c') (zero : c'.outstanding = 0) :
    c.outstanding = 0 ∨ e = .release ∧ c.outstanding ≤ 1 := by
  cases e with
  | acquire =>
      cases step
      simp [acquire] at zero
  | release =>
      cases step
      simp only [outstanding_release] at zero
      exact .inr ⟨rfl, by omega⟩
  | enter =>
      cases step
      exact .inl zero
  | look j =>
      rcases step?_look step with ⟨-, -, -, same⟩
      exact .inl (same ▸ zero)
  | wake j => exact .inl ((step?_wake step).2 ▸ zero)

/-! ## Runs -/

/-- While the count is zero, nobody is parked. -/
theorem not_parked_of_run (run : machine.run? .zero es = some c) (zero : c.outstanding = 0) :
    c.waiters[i]? ≠ some .parked := by
  refine Machine.run?_induction (motive := fun _ c =>
    c.outstanding = 0 → c.waiters[i]? ≠ some .parked) (by simp [Count.zero]) ?_ run zero
  intro _ c c' e _ last ih zero parked
  rcases turn_or_arrives last parked with ⟨w, hget, turn⟩ | arrived
  · cases turn with
    | parks awake busy =>
        have same : c'.outstanding = c.outstanding := by
          rcases step?_look last with ⟨-, -, -, same⟩
          exact same
        exact busy (same ▸ zero)
    | keeps unlooked asleep =>
        -- The count was zero before, or the waiter would have been woken.
        rcases zero_or_falls last zero with before | ⟨release, falls⟩
        · exact ih before hget
        · exact absurd ((asleep rfl).2 release) (by omega)
  · cases arrived

/-- A waiter returns with a look at the count while it is zero, and with nothing else. -/
theorem returned_iff_of_step? (step : c.step? e = some c') :
    c'.waiters[i]? = some .returned ↔
      c.waiters[i]? = some .returned ∨ e = .look i ∧ c.outstanding = 0 := by
  constructor
  · intro hget
    rcases turn_or_arrives step hget with ⟨w, before, turn⟩ | arrived
    · cases turn with
      | returns awake idle => exact .inr ⟨rfl, idle⟩
      | keeps => exact .inl before
    · cases arrived
  · rintro (before | ⟨rfl, idle⟩)
    · rcases turn_of_step? step before with ⟨w', hget, turn⟩
      cases turn with
      | keeps => exact hget
      | parks awake | returns awake => cases awake
    · rcases step?_look step with ⟨w, before, -⟩
      rcases turn_of_step? step before with ⟨w', hget, turn⟩
      cases turn with
      | returns => exact hget
      | parks awake busy => exact absurd idle busy
      | keeps unlooked => exact absurd rfl unlooked

/-- A waiter has returned if and only if it has looked while the count was zero. -/
theorem returned_iff_of_run (run : machine.run? .zero es = some c) :
    c.waiters[i]? = some .returned ↔
      machine.Happens (fun t e => e = .look i ∧ t.outstanding = 0) .zero es := by
  refine Machine.run?_induction (motive := fun es c => c.waiters[i]? = some .returned ↔
    machine.Happens (fun t e => e = .look i ∧ t.outstanding = 0) .zero es)
    (by simp [Count.zero]) ?_ run
  intro es c c' e before last ih
  rw [returned_iff_of_step? last, Machine.happens_concat before, ih]

/-! ## Waiting on -/

/-- Waiter `i` is parked, or was woken and has not looked again. -/
def Waits (c : Count) (i : Nat) : Prop :=
  c.waiters[i]? = some .parked ∨ c.waiters[i]? = some .woken

/-- There is work in front of each of the events `fs`. -/
def StaysBusy (c : Count) (fs : List Event) : Prop :=
  ¬machine.Happens (fun t _ => t.outstanding = 0) c fs

/-- Whoever does not sleep may look at the count. -/
theorem look_of_awake (hget : c.waiters[i]? = some w) (awake : w.isAwake = true) :
    ∃ c', c.step? (.look i) = some c' ∧ c'.waiters[i]? = some (w.look c.isBusy) ∧
      c'.outstanding = c.outstanding := by
  have inside : i < c.waiters.length := (List.getElem?_eq_some_iff.1 hget).1
  refine ⟨{ c with waiters := c.waiters.set i (w.look c.isBusy) }, ?_, ?_, rfl⟩
  · simp only [step?, hget, awake, if_true]
  · exact List.getElem?_set_self inside

theorem parked_of_step? (step : c.step? e = some c') (parked : c.waiters[i]? = some .parked)
    (unstirred : e ≠ .wake i) (busy : c'.outstanding ≠ 0) : c'.waiters[i]? = some .parked := by
  rcases turn_of_step? step parked with ⟨w', hget, turn⟩
  cases turn with
  | roused falls =>
      cases step
      simp only [outstanding_release] at busy
      omega
  | stirred => exact absurd rfl unstirred
  | parks | keeps => exact hget
  | returns awake => cases awake

theorem waits_of_step? (step : c.step? e = some c') (waits : c.Waits i)
    (busy : c.outstanding ≠ 0) : c'.Waits i := by
  rcases waits with parked | woken
  · rcases turn_of_step? step parked with ⟨w', hget, turn⟩
    cases turn with
    | roused | stirred => exact .inr hget
    | parks | keeps => exact .inl hget
    | returns awake => cases awake
  · rcases turn_of_step? step woken with ⟨w', hget, turn⟩
    cases turn with
    | parks => exact .inl hget
    | keeps => exact .inr hget
    | returns awake idle => exact absurd idle busy

/-- A waiter that parked waits as long as the count does not fall to zero, and sleeps in the
meantime if nothing stirs it. -/
theorem waits_of_run (parked : c.waiters[i]? = some .parked) (run : machine.run? c fs = some d)
    (busy : c.StaysBusy fs) :
    d.Waits i ∧ (.wake i ∉ fs → d.outstanding ≠ 0 → d.waiters[i]? = some .parked) := by
  revert busy
  refine Machine.run?_induction (motive := fun fs d => c.StaysBusy fs →
    d.Waits i ∧ (.wake i ∉ fs → d.outstanding ≠ 0 → d.waiters[i]? = some .parked)) ?_ ?_ run
  · exact fun _ => ⟨.inl parked, fun _ _ => parked⟩
  · intro fs d d' e before last ih busy
    simp only [StaysBusy, Machine.happens_concat before, not_or] at busy
    rcases busy with ⟨busyBefore, busyNow⟩
    rcases ih busyBefore with ⟨waits, sleeps⟩
    -- Nobody returns with this event, as there is work in front of it; and if there is work behind
    -- it, nobody is woken by it either.
    refine ⟨waits_of_step? last waits busyNow, ?_⟩
    intro unstirred stillBusy
    have unstirredBefore : Event.wake i ∉ fs := fun mem => unstirred (List.mem_append_left _ mem)
    have other : e ≠ .wake i := by
      rintro rfl
      exact unstirred (by simp)
    exact parked_of_step? last (sleeps unstirredBefore busyNow) other stillBusy

/-- The release with which the count falls to zero wakes whoever waits. -/
theorem woken_of_falls (waits : c.Waits i) (falls : c.outstanding ≤ 1) :
    c.release.waiters[i]? = some .woken := by
  have step : c.step? .release = some c.release := rfl
  rcases waits with parked | woken
  · rcases turn_of_step? step parked with ⟨w', hget, turn⟩
    cases turn with
    | roused => exact hget
    | keeps unlooked asleep => exact absurd ((asleep rfl).2 rfl) (by omega)
  · rcases turn_of_step? step woken with ⟨w', hget, turn⟩
    cases turn with
    | keeps => exact hget

/-- While the count is zero, whoever has not returned may look, and returns. -/
theorem returns_of_zero (run : machine.run? .zero es = some c) (zero : c.outstanding = 0)
    (hget : c.waiters[i]? = some w) :
    w ≠ .parked ∧ (w ≠ .returned →
      ∃ c', c.step? (.look i) = some c' ∧ c'.waiters[i]? = some .returned) := by
  have unparked : w ≠ .parked := by
    rintro rfl
    exact not_parked_of_run run zero hget
  refine ⟨unparked, ?_⟩
  intro unreturned
  have idle : c.isBusy = false := by simp [isBusy, zero]
  cases w with
  | parked => exact absurd rfl unparked
  | returned => exact absurd rfl unreturned
  | arriving | woken =>
      rcases look_of_awake hget rfl with ⟨c', look, there, -⟩
      rw [idle] at there
      exact ⟨c', look, there⟩

/-- A waiter that was woken too late parks again, until the count falls to zero the next time. -/
theorem parks_again (woken : c.waiters[i]? = some .woken) (hne : c.outstanding ≠ 0) :
    ∃ c', c.step? (.look i) = some c' ∧ c'.waiters[i]? = some .parked ∧
      c'.outstanding = c.outstanding ∧
      ∀ fs d, machine.run? c' fs = some d → c'.StaysBusy fs → d.outstanding = 1 →
        (.wake i ∉ fs → d.waiters[i]? = some .parked) ∧
          ∃ d', d.step? .release = some d' ∧ d'.outstanding = 0 ∧
            d'.waiters[i]? = some .woken := by
  have busy : c.isBusy = true := by simpa [isBusy] using Nat.pos_of_ne_zero hne
  rcases look_of_awake woken rfl with ⟨c', look, parked, same⟩
  rw [busy] at parked
  refine ⟨c', look, parked, same, ?_⟩
  intro fs d run busy' one
  rcases waits_of_run parked run busy' with ⟨waits, sleeps⟩
  refine ⟨fun unstirred => sleeps unstirred (by omega), d.release, rfl, ?_, ?_⟩
  · simp [one]
  · exact woken_of_falls waits (by omega)

end Count
end LineExchange
