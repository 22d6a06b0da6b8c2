import LineExchange.Cancel.Latch

/-!
# Attention — a wait does not miss that its latch was raised

A wait looks at its latch again only when the version is not the one that its signal saw last, and
gives up for ever when nobody holds the latch.  This file defines `Signal.Attends`, what a signal
has to know of the latch between two polls of a wait, so that nothing is missed.

A poll that leaves a wait leaves one that attends (`attends_of_poll`), and it goes on to attend
whatever is done to the latch (`Attends.raise`, `Attends.release`).  So the next poll ends it once
the latch is raised, whether or not the latch is still held (`Attends.poll_of_raised`).
-/

namespace LineExchange
namespace Signal

/-- Between two polls a wait misses nothing: a raised latch is of a version that was not seen, and
a wait that gave up is for a latch that was not raised and cannot be any more. -/
def Attends (l : Latch) (s : Signal) : Wait → Prop
  | .unpolled => True
  | .watching => s.seen ≤ l.version ∧ (l.raised = true → s.seen ≠ l.version)
  | .stranded => l.held = false ∧ l.raised = false

variable {l : Latch} {s s' : Signal} {w w' : Wait}

/-- A look that does not end a wait found the latch as it was not raised. -/
theorem attends_of_look (h : look l = (s', some w')) : s'.Attends l w' := by
  cases raised : l.raised with
  | true => simp [look, raised] at h
  | false =>
      cases held : l.held with
      | true =>
          simp only [look, raised, held, Bool.false_eq_true, if_false, if_true] at h
          cases h
          exact ⟨Nat.le_refl _, by simp [raised]⟩
      | false =>
          simp only [look, raised, held, Bool.false_eq_true, if_false] at h
          cases h
          exact ⟨held, raised⟩

/-- A poll that does not end a wait leaves one that attends. -/
theorem attends_of_poll (attends : s.Attends l w) (h : s.poll l w = (s', some w')) :
    s'.Attends l w' := by
  cases w with
  | unpolled => exact attends_of_look h
  | watching =>
      simp only [poll] at h
      split at h
      · exact attends_of_look h
      · rename_i seen
        rw [Decidable.not_not] at seen
        split at h
        · cases h
          exact attends
        · rename_i unheld
          cases h
          -- A version that was seen is one in which the latch was not raised.
          have unraised : l.raised = false := by
            rw [← Bool.not_eq_true]
            exact fun raised => attends.2 raised seen
          exact ⟨by simpa using unheld, unraised⟩
  | stranded =>
      cases h
      exact attends

/-- Raising a latch is seen by every wait: a holder could still do so. -/
theorem Attends.raise (attends : s.Attends l w) (held : l.held = true) :
    s.Attends l.raise w := by
  cases w with
  | unpolled => trivial
  | watching =>
      have older : s.seen ≤ l.version := attends.1
      exact ⟨Nat.le_succ_of_le older, fun _ => Nat.ne_of_lt (Nat.lt_succ_of_le older)⟩
  | stranded => cases held.symm.trans attends.1

theorem Attends.release (attends : s.Attends l w) : s.Attends l.release w := by
  cases w with
  | unpolled => trivial
  | watching => exact attends
  | stranded => exact ⟨rfl, attends.2⟩

/-- A poll of a wait that attends ends it once the latch is raised. -/
theorem Attends.poll_of_raised (attends : s.Attends l w) (raised : l.raised = true) :
    s.poll l w = (⟨l.version⟩, none) := by
  have found : look l = (⟨l.version⟩, none) := by simp [look, raised]
  cases w with
  | unpolled => exact found
  | watching =>
      have unseen : s.seen ≠ l.version := attends.2 raised
      simp only [poll, if_pos unseen, found]
  | stranded => cases raised.symm.trans attends.2

end Signal
end LineExchange
