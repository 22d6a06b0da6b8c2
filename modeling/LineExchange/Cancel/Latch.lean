/-!
# Latch — cancellation that stays

A latch is raised at most once in effect and is never lowered.  Its holder raises it; any number
of signals watch it.  Every write moves the latch to a new version, and each signal remembers the
version that it saw last.  This file defines:

* `Latch` — the shared state, with `raise` and `release` for its holder;
* `Signal` — one watcher's memory;
* `Wait` — how far a watcher's wait has come, and `Signal.poll`, which looks once.

A version that was not seen is reported before the holder's absence is, so a latch that was raised
and then released still ends every wait on it.
-/

namespace LineExchange

/-- The state that a holder and its signals share. -/
structure Latch where
  raised : Bool
  /-- How often the latch was written. -/
  version : Nat
  /-- Whether there is still a holder that could write. -/
  held : Bool
  deriving DecidableEq, Repr

namespace Latch

def fresh : Latch :=
  ⟨false, 0, true⟩

def never : Latch :=
  ⟨false, 0, false⟩

def raise (l : Latch) : Latch :=
  { l with raised := true, version := l.version + 1 }

def release (l : Latch) : Latch :=
  { l with held := false }

@[simp] theorem raised_raise (l : Latch) : l.raise.raised = true := rfl

@[simp] theorem raised_release (l : Latch) : l.release.raised = l.raised := rfl

end Latch

/-- A watcher's memory: the version that it saw last. -/
structure Signal where
  seen : Nat
  deriving DecidableEq, Repr

inductive Wait where
  | unpolled
  /-- It waits for a version that it has not seen. -/
  | watching
  /-- It found that the latch is not raised and has no holder, and waits for ever. -/
  | stranded
  deriving DecidableEq, Repr

namespace Signal

def first : Signal :=
  ⟨0⟩

/-- Sees the present version: the wait is over if the latch is raised. -/
def look (l : Latch) : Signal × Option Wait :=
  let s : Signal := ⟨l.version⟩
  if l.raised then (s, none)
  else if l.held then (s, some .watching)
  else (s, some .stranded)

/-- Polls a wait once.  No wait is left when it is over. -/
def poll (l : Latch) (s : Signal) : Wait → Signal × Option Wait
  | .unpolled => look l
  | .watching =>
      -- A version that was seen before tells nothing new, whatever the latch says.
      if s.seen ≠ l.version then look l
      else if l.held then (s, some .watching)
      else (s, some .stranded)
  | .stranded => (s, some .stranded)

/-- A look that ends a wait found the latch raised. -/
theorem raised_of_look_eq_none {l : Latch} (h : (look l).2 = none) : l.raised = true := by
  cases hr : l.raised with
  | true => rfl
  | false => cases hh : l.held <;> simp [look, hr, hh] at h

/-- A poll that ends a wait found the latch raised. -/
theorem raised_of_poll_eq_none {l : Latch} {s : Signal} {w : Wait} (h : (s.poll l w).2 = none) :
    l.raised = true := by
  cases w with
  | unpolled => exact raised_of_look_eq_none h
  | watching =>
      simp only [poll] at h
      split at h
      · exact raised_of_look_eq_none h
      · split at h <;> simp at h
  | stranded => simp [poll] at h

end Signal
end LineExchange
