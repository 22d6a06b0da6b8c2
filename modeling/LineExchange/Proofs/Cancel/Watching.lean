import Mathlib.Data.List.Induction
import LineExchange.Cancel.Run
import LineExchange.Proofs.Cancel.Attention

/-!
# Watching — what the watchers of a latch see of it

Watchers may be copied, begin to wait and go on waiting in any order with what the holder of the
latch does.  This file defines:

* `Cancel.State.after` — the state behind the steps of a run;
* `Cancel.IsRaisedBy` — of the steps of a run alone, whether the holder raised the latch;
* `Cancel.Descends` — a watcher is the first one of the run, or a copy of one that descends;
* `Cancel.State.Tells` — the latch is as the steps say, and every wait attends to it.

Every step keeps `Tells` (`Move.tells`), so it holds after every run (`tells_of_run`).  A watcher
watches the run's latch if and only if it descends (`ours_iff_descends`).
-/

namespace LineExchange
namespace Cancel

def State.after (as : List Step) : State :=
  as.foldl (fun s a => (step s a).1) .start

/-- The latch was raised in the run of `as`, before its holder was gone. -/
def IsRaisedBy (as : List Step) : Prop :=
  ∃ before after, as = before ++ .raise :: after ∧ .release ∉ before

/-- In the run of `as`, watcher `i` is the first, or comes from it by copies. -/
inductive Descends : List Step → Nat → Prop where
  | first : Descends [] 0
  | stays {as : List Step} {i : Nat} (a : Step) (descends : Descends as i) :
      Descends (as ++ [a]) i
  | copied {as : List Step} {i j : Nat} (descends : Descends as i)
      (added : (step (State.after as) (.copy i)).2 = .added j) :
      Descends (as ++ [.copy i]) j

variable {s s' : State} {a : Step} {as : List Step} {i j : Nat} {v w : Watcher}

/-! ## Runs -/

theorem State.after_concat (as : List Step) (a : Step) :
    State.after (as ++ [a]) = (step (State.after as) a).1 := by
  simp only [after, List.foldl_append, List.foldl_cons, List.foldl_nil]

theorem run_concat (s : State) (as : List Step) (a : Step) :
    run s (as ++ [a]) = run s as ++ [step (as.foldl (fun s a => (step s a).1) s) a] := by
  induction as generalizing s with
  | nil => rfl
  | cons b as ih => exact congrArg (step s b :: ·) (ih (step s b).1)

/-- The last answer of a run is that of the state behind the steps before. -/
theorem getLast?_run (as : List Step) (a : Step) :
    (run .start (as ++ [a])).getLast? = some (step (State.after as) a) := by
  rw [run_concat, List.getLast?_concat]
  rfl

/-- A raise counts unless the holder is gone. -/
theorem isRaisedBy_concat :
    IsRaisedBy (as ++ [a]) ↔ IsRaisedBy as ∨ a = .raise ∧ .release ∉ as := by
  constructor
  · rintro ⟨before, after, split, held⟩
    -- What came behind the raise is either nothing, or it has the last step at its end.
    cases after using List.reverseRecOn with
    | nil =>
        obtain ⟨rfl, rfl⟩ : as = before ∧ a = .raise := by simpa using split
        exact .inr ⟨rfl, held⟩
    | append_singleton after b =>
        rw [← List.cons_append, ← List.append_assoc] at split
        exact .inl ⟨before, after, (List.append_singleton_inj.1 split).1, held⟩
  · rintro (⟨before, after, rfl, held⟩ | ⟨rfl, held⟩)
    · exact ⟨before, after ++ [a], by simp, held⟩
    · exact ⟨as, [], rfl, held⟩

/-- Nothing takes a raise back. -/
theorem IsRaisedBy.append (raised : IsRaisedBy as) (bs : List Step) : IsRaisedBy (as ++ bs) := by
  rcases raised with ⟨before, after, rfl, held⟩
  exact ⟨before, after ++ bs, by simp, held⟩

theorem Descends.append (descends : Descends as i) (bs : List Step) : Descends (as ++ bs) i := by
  induction bs using List.reverseRecOn with
  | nil => simpa using descends
  | append_singleton bs b ih =>
      rw [← List.append_assoc]
      exact .stays b ih

/-! ## Moves -/

inductive Move (s : State) : Step → State → Reply → Prop where
  | raised (held : s.latch.held = true) : Move s .raise { s with latch := s.latch.raise } .raised
  | unheld (gone : s.latch.held = false) : Move s .raise s .noHolder
  | released :
      Move s .release { s with latch := s.latch.release } (.released s.latch.held)
  | appeared :
      Move s .never { s with watchers := s.watchers ++ [⟨false, .first, none⟩] }
        (.added s.watchers.length)
  | copied {i : Nat} {w : Watcher} (hget : s.watchers[i]? = some w) (idle : w.wait = none) :
      Move s (.copy i) { s with watchers := s.watchers ++ [w] } (.added s.watchers.length)
  | refused {i : Nat} : Move s (.copy i) s .busy
  | uncopied {i : Nat} (hnone : s.watchers[i]? = none) : Move s (.copy i) s .unknown
  | polled {i : Nat} {w : Watcher} {signal : Signal} {left : Option Wait}
      (hget : s.watchers[i]? = some w)
      (polled : w.signal.poll (s.latchOf w) (w.wait.getD .unpolled) = (signal, left)) :
      Move s (.wait i)
        { s with watchers := s.watchers.set i { w with signal := signal, wait := left } }
        (if left.isNone then .ended else .pending)
  | unpolled {i : Nat} (hnone : s.watchers[i]? = none) : Move s (.wait i) s .unknown

/-- A step does nothing but what `Move` says. -/
theorem move_step (s : State) (a : Step) : Move s a (step s a).1 (step s a).2 := by
  cases a with
  | raise =>
      simp only [step]
      split
      · exact .raised ‹_›
      · exact .unheld (Bool.not_eq_true _ ▸ ‹_›)
  | release => exact .released
  | never => exact .appeared
  | copy i =>
      simp only [step]
      split
      · exact .uncopied ‹_›
      · rename_i w hget
        split
        · exact .refused
        · rename_i idle
          exact .copied hget (by simpa using idle)
  | wait i =>
      simp only [step]
      split
      · exact .unpolled ‹_›
      · exact .polled ‹_› rfl

/-! ## Who watches what -/

theorem old_or_newest {l : List Watcher} (hget : (l ++ [v])[i]? = some w) :
    l[i]? = some w ∨ i = l.length ∧ w = v := by
  rw [List.getElem?_append] at hget
  split at hget
  · exact .inl hget
  · rename_i outside
    rw [List.getElem?_singleton] at hget
    split at hget <;> cases hget
    exact .inr ⟨by omega, rfl⟩

/-- A watcher goes on to watch what it watched. -/
theorem Move.keeps {r : Reply} (move : Move s a s' r) (hget : s.watchers[i]? = some w) :
    ∃ w', s'.watchers[i]? = some w' ∧ w'.ours = w.ours := by
  have inside : i < s.watchers.length := (List.getElem?_eq_some_iff.1 hget).1
  cases move with
  | appeared | copied => exact ⟨w, (List.getElem?_append_left inside).trans hget, rfl⟩
  | @polled k v _ _ there _ =>
      by_cases here : k = i
      · subst here
        obtain rfl : v = w := Option.some.inj (there.symm.trans hget)
        exact ⟨_, List.getElem?_set_self inside, rfl⟩
      · exact ⟨w, (List.getElem?_set_ne here).trans hget, rfl⟩
  | raised | unheld | released | refused | uncopied | unpolled => exact ⟨w, hget, rfl⟩

/-- No watcher is lost. -/
theorem exists_watcher_append (hget : (State.after as).watchers[i]? = some w)
    (more : List Step) : ∃ v, (State.after (as ++ more)).watchers[i]? = some v := by
  induction more using List.reverseRecOn with
  | nil => exact ⟨w, by simpa using hget⟩
  | append_singleton more b ih =>
      rcases ih with ⟨v, before⟩
      rcases (move_step _ b).keeps before with ⟨v', there, -⟩
      rw [← List.append_assoc, State.after_concat]
      exact ⟨v', there⟩

/-- A watcher behind a step watches what one before it watched, or nothing that can be raised, or
is a copy. -/
theorem Move.watcher_cases {r : Reply} (move : Move s a s' r) (hget : s'.watchers[i]? = some w) :
    (∃ v, s.watchers[i]? = some v ∧ w.ours = v.ours) ∨ w.ours = false ∨
      ∃ k, a = .copy k ∧ s.watchers[k]? = some w ∧ r = .added i := by
  cases move with
  | appeared =>
      rcases old_or_newest hget with before | ⟨-, rfl⟩
      · exact .inl ⟨w, before, rfl⟩
      · exact .inr (.inl rfl)
  | @copied k v there idle =>
      rcases old_or_newest hget with before | ⟨rfl, rfl⟩
      · exact .inl ⟨w, before, rfl⟩
      · exact .inr (.inr ⟨k, rfl, there, rfl⟩)
  | @polled k v _ _ there _ =>
      by_cases here : k = i
      · subst here
        have inside : k < s.watchers.length := (List.getElem?_eq_some_iff.1 there).1
        rw [List.getElem?_set_self inside] at hget
        cases hget
        exact .inl ⟨v, there, rfl⟩
      · exact .inl ⟨w, (List.getElem?_set_ne here).symm.trans hget, rfl⟩
  | raised | unheld | released | refused | uncopied | unpolled => exact .inl ⟨w, hget, rfl⟩

theorem Move.copy_added (move : Move s (.copy i) s' (.added j)) :
    ∃ w, s.watchers[i]? = some w ∧ s'.watchers[j]? = some w := by
  cases move with
  | copied hget => exact ⟨_, hget, List.getElem?_concat_length⟩

theorem Descends.ours (descends : Descends as i) :
    ∃ w, (State.after as).watchers[i]? = some w ∧ w.ours = true := by
  induction descends with
  | first => exact ⟨_, rfl, rfl⟩
  | @stays as i a _ ih =>
      rcases ih with ⟨w, hget, ours⟩
      rcases (move_step _ a).keeps hget with ⟨w', there, same⟩
      rw [State.after_concat]
      exact ⟨w', there, same.trans ours⟩
  | @copied as i j _ added ih =>
      rcases ih with ⟨w, hget, ours⟩
      rcases (added ▸ move_step (State.after as) (.copy i)).copy_added with
        ⟨v, before, there⟩
      cases Option.some.inj (before.symm.trans hget)
      rw [State.after_concat]
      exact ⟨w, there, ours⟩

/-- A watcher watches the latch of the run if and only if it comes from the first one. -/
theorem ours_iff_descends (hget : (State.after as).watchers[i]? = some w) :
    w.ours = true ↔ Descends as i := by
  constructor
  · intro ours
    induction as using List.reverseRecOn generalizing i w with
    | nil =>
        obtain ⟨rfl, rfl⟩ : i = 0 ∧ w = ⟨true, .first, none⟩ := by
          rcases i with _ | i
          · exact ⟨rfl, (Option.some.inj hget).symm⟩
          · cases hget
        exact .first
    | append_singleton as a ih =>
        rw [State.after_concat] at hget
        rcases (move_step _ a).watcher_cases hget with
          ⟨v, before, same⟩ | strange | ⟨k, rfl, before, added⟩
        · exact .stays a (ih before (same ▸ ours))
        · cases strange.symm.trans ours
        · exact .copied (ih before ours) added
  · intro descends
    rcases descends.ours with ⟨v, there, ours⟩
    cases Option.some.inj (there.symm.trans hget)
    exact ours

/-! ## What the watchers know -/

/-- Behind the steps `as` the latch is as they say, and no wait misses that it was raised. -/
structure State.Tells (as : List Step) (s : State) : Prop where
  raised : s.latch.raised = true ↔ IsRaisedBy as
  held : s.latch.held = true ↔ .release ∉ as
  attends : ∀ w ∈ s.watchers, w.signal.Attends (s.latchOf w) (w.wait.getD .unpolled)

theorem tells_start : State.start.Tells [] where
  raised := by simp [State.start, Latch.fresh, IsRaisedBy]
  held := by simp [State.start, Latch.fresh]
  attends := by
    intro w mem
    obtain rfl : w = ⟨true, .first, none⟩ := by simpa [State.start] using mem
    trivial

variable {r : Reply}

/-- What is done to the watchers alone tells nothing of the latch. -/
theorem State.Tells.watch {ws : List Watcher} (tells : s.Tells as) (noRaise : a ≠ .raise)
    (noRelease : a ≠ .release)
    (attends : ∀ w ∈ ws, w.signal.Attends (s.latchOf w) (w.wait.getD .unpolled)) :
    State.Tells (as ++ [a]) { s with watchers := ws } where
  raised := by simpa [isRaisedBy_concat, noRaise] using tells.raised
  held := by simpa [noRelease.symm] using tells.held
  attends := attends

/-- What is done to the latch concerns none but those who watch it. -/
theorem State.Tells.turn {l : Latch} (tells : s.Tells as)
    (change : ∀ (signal : Signal) (wait : Wait), signal.Attends s.latch wait →
      signal.Attends l wait) :
    ∀ w ∈ s.watchers,
      w.signal.Attends (State.latchOf { s with latch := l } w) (w.wait.getD .unpolled) := by
  intro w mem
  have attends := tells.attends w mem
  cases ours : w.ours with
  | true =>
      simp only [State.latchOf, ours, if_true] at attends ⊢
      exact change _ _ attends
  | false => simpa [State.latchOf, ours] using attends

/-- Every step keeps to it. -/
theorem Move.tells (move : Move s a s' r) (tells : s.Tells as) : s'.Tells (as ++ [a]) := by
  cases move with
  | raised held =>
      refine ⟨?_, ?_, tells.turn fun _ _ attends => attends.raise held⟩
      · simpa [isRaisedBy_concat] using .inr (tells.held.1 held)
      · simpa [Latch.raise] using tells.held
  | unheld gone =>
      have released : .release ∈ as := by
        by_contra still
        exact absurd (tells.held.2 still) (by simp [gone])
      refine ⟨?_, ?_, tells.attends⟩
      · simpa [isRaisedBy_concat, released] using tells.raised
      · simpa using tells.held
  | released =>
      refine ⟨?_, ?_, tells.turn fun _ _ attends => attends.release⟩
      · simpa [isRaisedBy_concat] using tells.raised
      · simp [Latch.release]
  | appeared =>
      refine tells.watch (by simp) (by simp) ?_
      intro w mem
      rcases List.mem_append.1 mem with before | new
      · exact tells.attends w before
      · cases List.mem_singleton.1 new
        trivial
  | copied hget idle =>
      refine tells.watch (by simp) (by simp) ?_
      intro w mem
      rcases List.mem_append.1 mem with before | new
      · exact tells.attends w before
      · -- A copy has seen what the watcher saw that it is made from.
        cases List.mem_singleton.1 new
        exact tells.attends _ (List.mem_of_getElem? hget)
  | @polled _ _ _ left hget polled =>
      refine tells.watch (by simp) (by simp) ?_
      intro w mem
      rcases List.mem_or_eq_of_mem_set mem with before | rfl
      · exact tells.attends w before
      · have attends := tells.attends _ (List.mem_of_getElem? hget)
        cases left with
        | none =>
            -- The next poll begins a new wait.
            trivial
        | some wait => exact Signal.attends_of_poll attends polled
  | refused | uncopied | unpolled => exact tells.watch (by simp) (by simp) tells.attends

/-- After every run the latch is as the steps say, and no wait has missed anything. -/
theorem tells_of_run (as : List Step) : (State.after as).Tells as := by
  induction as using List.reverseRecOn with
  | nil => exact tells_start
  | append_singleton as a ih =>
      rw [State.after_concat]
      exact (move_step _ a).tells ih

/-- The latch of a watcher is raised if and only if it is that of the run, and was raised. -/
theorem raised_latchOf_iff (hget : (State.after as).watchers[i]? = some w) :
    ((State.after as).latchOf w).raised = true ↔ Descends as i ∧ IsRaisedBy as := by
  rw [← ours_iff_descends hget, ← (tells_of_run as).raised, State.latchOf]
  cases w.ours <;> simp [Latch.never]

/-- A poll ends a wait if and only if the latch is raised. -/
theorem reply_wait (hget : (State.after as).watchers[i]? = some w) :
    (step (State.after as) (.wait i)).2 =
      if ((State.after as).latchOf w).raised then .ended else .pending := by
  have attends := (tells_of_run as).attends w (List.mem_of_getElem? hget)
  simp only [step, hget, pollWatcher]
  cases raised : ((State.after as).latchOf w).raised with
  | true => simp [attends.poll_of_raised raised]
  | false =>
      split
      · rename_i ended
        have found := Signal.raised_of_poll_eq_none (Option.isNone_iff_eq_none.1 ended)
        cases found.symm.trans raised
      · rfl

theorem raised?_of_idle (idle : w.wait = none) : s.raised? w = some (s.latchOf w).raised := by
  simp only [State.raised?, idle]

/-- Watchers see exactly whether the latch was raised.  In every run, a poll ends the wait of a
watcher if and only if the watcher comes by copies from the first one, whose latch the holder raised
earlier, and otherwise the wait goes on; it does not matter when the wait began, when the copies
were made, and whether the holder is gone.  A watcher that does not wait shows the same, so all
copies of one show the same, and what was shown once as raised is shown so after any more steps. -/
theorem watchers_see_exactly_raises (as : List Step) (i : Nat) (w : Watcher)
    (hget : (State.after as).watchers[i]? = some w) :
    (∃ s reply, (run .start (as ++ [.wait i])).getLast? = some (s, reply) ∧
      (reply = .ended ∨ reply = .pending) ∧
      (reply = .ended ↔ Descends as i ∧ IsRaisedBy as)) ∧
    (w.wait = none → ∃ shown, (State.after as).raised? w = some shown ∧
      (shown = true ↔ Descends as i ∧ IsRaisedBy as)) ∧
    (∀ j v, (State.after as).watchers[j]? = some v → (Descends as j ↔ Descends as i) →
      v.wait = none → w.wait = none →
      (State.after as).raised? v = (State.after as).raised? w) ∧
    ∀ more, ∃ v, (State.after (as ++ more)).watchers[i]? = some v ∧
      (v.wait = none → (State.after as).raised? w = some true →
        (State.after (as ++ more)).raised? v = some true) := by
  refine ⟨?_, ?_, ?_, ?_⟩
  · refine ⟨(step (State.after as) (.wait i)).1, (step (State.after as) (.wait i)).2,
      getLast?_run as (.wait i), ?_⟩
    rw [reply_wait hget, ← raised_latchOf_iff hget]
    cases ((State.after as).latchOf w).raised with
    | true => exact ⟨.inl rfl, by simp⟩
    | false => exact ⟨.inr rfl, by simp⟩
  · intro idle
    exact ⟨_, raised?_of_idle idle, raised_latchOf_iff hget⟩
  · intro j v there kin idle idle'
    have same : ((State.after as).latchOf v).raised =
        ((State.after as).latchOf w).raised := by
      rw [Bool.eq_iff_iff, raised_latchOf_iff there, raised_latchOf_iff hget, kin]
    rw [raised?_of_idle idle, raised?_of_idle idle', same]
  · intro more
    rcases exists_watcher_append hget more with ⟨v, there⟩
    refine ⟨v, there, ?_⟩
    intro idle shown
    have raised : ((State.after as).latchOf w).raised = true := by
      simp only [State.raised?] at shown
      split at shown
      · exact Option.some.inj shown
      · cases shown
    rcases (raised_latchOf_iff hget).1 raised with ⟨descends, raisedBy⟩
    -- Neither the descent nor the raise is undone by what comes later.
    have still := (raised_latchOf_iff there).2 ⟨descends.append more, raisedBy.append more⟩
    rw [raised?_of_idle idle, still]

/-- The first watcher waits, and its copy too, before the latch is raised; then it is released. -/
def raisedAndGone : List Step :=
  [.copy 0, .wait 0, .wait 1, .never, .raise, .wait 1, .copy 1, .release]

/-- With the holder gone, the wait that began before the latch was raised ends, and the copy of a
copy that was made behind that shows the latch raised; the watcher of a latch that is never raised
waits on. -/
theorem sees_of_raisedAndGone :
    (∃ s, (run .start (raisedAndGone ++ [.wait 0])).getLast? = some (s, .ended)) ∧
      (∃ s, (run .start (raisedAndGone ++ [.wait 2])).getLast? = some (s, .pending)) ∧
      (State.after raisedAndGone).raised? ⟨true, ⟨1⟩, none⟩ = some true := by
  have raised : IsRaisedBy raisedAndGone :=
    ⟨[.copy 0, .wait 0, .wait 1, .never], [.wait 1, .copy 1, .release], rfl, by decide⟩
  have first : (State.after raisedAndGone).watchers[0]? =
      some ⟨true, ⟨0⟩, some .watching⟩ := by decide
  have strange : (State.after raisedAndGone).watchers[2]? = some ⟨false, .first, none⟩ := by
    decide
  have copy : (State.after raisedAndGone).watchers[3]? = some ⟨true, ⟨1⟩, none⟩ := by
    decide
  refine ⟨?_, ?_, ?_⟩
  · rcases (watchers_see_exactly_raises _ 0 _ first).1 with ⟨s, reply, last, -, ends⟩
    have ended := ends.2 ⟨(ours_iff_descends first).1 rfl, raised⟩
    exact ⟨s, ended ▸ last⟩
  · rcases (watchers_see_exactly_raises _ 2 _ strange).1 with ⟨s, reply, last, answers, ends⟩
    have unended : reply ≠ .ended := by
      intro ended
      cases (ours_iff_descends strange).2 (ends.1 ended).1
    exact ⟨s, answers.resolve_left unended ▸ last⟩
  · rcases (watchers_see_exactly_raises _ 3 _ copy).2.1 rfl with ⟨shown, shows, seen⟩
    rw [shows, seen.2 ⟨(ours_iff_descends copy).1 rfl, raised⟩]

end Cancel
end LineExchange
