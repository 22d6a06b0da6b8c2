import Mathlib.Data.Finmap
import LineExchange.Client.Desk
import LineExchange.Proofs.History

/-!
# Occupancy — the active tickets are a finite map, and only they are cancelled by name

Any number of tickets may have one name, be active by turns, and be cancelled by name or directly.
This file defines:

* `Roster.table` — the occupants of the names as a finite map;
* `Desk.Registry` — the names of the tickets and the table, with `Desk.Registry.step` and
  `Desk.Registry.run`, which say by finite maps what a desk does and replies;
* `Desk.Registry.IsFiled` — every occupant is a ticket of the name that it occupies;
* `Desk.struck` — the tickets that a step cancels;
* `Desk.machine` and `Desk.WasStruck` — the desks of all runs, and that a ticket was cancelled in
  one.

A desk does and replies what its registry does (`step_registry`, `run_registry`), and a ticket is
marked exactly when it was struck, in its flag as well as in its latch (`Marked.step`).
-/

namespace LineExchange

namespace Roster

def table (r : Roster) : Finmap fun _ : UInt32 => Nat :=
  AList.toFinmap
    { entries := r.entries.map fun e => ⟨e.1, e.2⟩
      nodupKeys := by
        rw [List.NodupKeys, List.keys, List.map_map]
        exact r.nodup }

variable {r s : Roster} {id : UInt32} {k : Nat}

@[simp] theorem lookup_table (r : Roster) (id : UInt32) : r.table.lookup id = r.get? id := by
  have same (es : List (UInt32 × Nat)) :
      (es.map fun e => (⟨e.1, e.2⟩ : Sigma fun _ : UInt32 => Nat)).dlookup id = es.lookup id := by
    induction es with
    | nil => rfl
    | cons e es ih =>
        rcases e with ⟨name, occupant⟩
        by_cases here : id = name
        · subst here
          simp
        · rw [lookup_cons_of_ne here, ← ih, List.map_cons, List.dlookup_cons_ne _ _ here]
  exact same r.entries

theorem mem_table_iff : id ∈ r.table ↔ (r.get? id).isSome := by
  rw [← Finmap.lookup_isSome, lookup_table]

/-- As many names are in use as there are entries. -/
theorem card_keys_table (r : Roster) : r.table.keys.card = r.size := by
  have keys : r.table.keys.card = (r.entries.map fun e =>
      (⟨e.1, e.2⟩ : Sigma fun _ : UInt32 => Nat)).keys.length := rfl
  rw [keys, List.keys, List.length_map, List.length_map]
  rfl

theorem table_of_insert? (h : r.insert? id k = some s) : s.table = r.table.insert id k := by
  apply Finmap.ext_lookup
  intro other
  by_cases here : other = id
  · subst here
    rw [lookup_table, get?_of_insert? h, if_pos rfl, Finmap.lookup_insert]
  · rw [lookup_table, get?_of_insert? h, if_neg here, Finmap.lookup_insert_of_ne _ here,
      lookup_table]

theorem table_erase (r : Roster) (id : UInt32) : (r.erase id).table = r.table.erase id := by
  apply Finmap.ext_lookup
  intro other
  by_cases here : other = id
  · subst here
    rw [lookup_table, get?_erase, if_pos rfl, Finmap.lookup_erase]
  · rw [lookup_table, get?_erase, if_neg here, Finmap.lookup_erase_ne here, lookup_table]

end Roster

namespace Desk

/-! ## The registry of a desk -/

/-- The names of the tickets, by the order of their issue, and the active ones by their names. -/
structure Registry where
  names : List UInt32
  table : Finmap fun _ : UInt32 => Nat

def registry (d : Desk) : Registry :=
  ⟨d.tickets.map Ticket.id, d.active.table⟩

namespace Registry

def step (g : Registry) : Step → Registry × Reply
  | .issue id endpoint payload =>
      ({ g with names := g.names ++ [id] }, .issued (.issue id endpoint payload))
  | .activate k =>
      match g.names[k]? with
      | none => (g, .flag false)
      | some id =>
          if id ∈ g.table then (g, .flag false)
          else ({ g with table := g.table.insert id k }, .flag true)
  | .retire id => ({ g with table := g.table.erase id }, .retired (g.table.lookup id))
  | .cancel id => (g, .flag (decide (id ∈ g.table)))
  | .cancelTicket _ => (g, .nothing)
  | .cancelAll => (g, .count g.table.keys.card)
  | .contains id => (g, .flag (decide (id ∈ g.table)))

def run (g : Registry) : List Step → List (Registry × Reply)
  | [] => []
  | a :: as =>
      let r := g.step a
      r :: run r.1 as

def IsFiled (g : Registry) : Prop :=
  ∀ id k, g.table.lookup id = some k → g.names[k]? = some id

end Registry

variable {d d' : Desk} {a : Step} {as : List Step} {k : Nat} {t t' : Ticket}

theorem registry_of_tickets (h : d'.tickets.map Ticket.id = d.tickets.map Ticket.id)
    (active : d'.active = d.active) : d'.registry = d.registry := by
  rw [registry, h, active, registry]

/-- Cancelling changes no name. -/
theorem registry_cancelTicket (k : Nat) (d : Desk) : (d.cancelTicket k).registry = d.registry := by
  refine registry_of_tickets (List.ext_getElem? fun i => ?_) rfl
  rw [List.getElem?_map, List.getElem?_map, getElem?_cancelTicket]
  split
  · cases d.tickets[i]? <;> rfl
  · rfl

theorem registry_foldl_cancelTicket (ks : List Nat) (d : Desk) :
    (ks.foldl (fun d k => d.cancelTicket k) d).registry = d.registry := by
  induction ks generalizing d with
  | nil => rfl
  | cons k ks ih => exact (ih (d.cancelTicket k)).trans (registry_cancelTicket k d)

theorem registry_cancel (id : UInt32) (d : Desk) : (d.cancel id).1.registry = d.registry := by
  rw [cancel_eq_foldl]
  exact registry_foldl_cancelTicket _ d

theorem registry_cancelAll (d : Desk) : d.cancelAll.registry = d.registry :=
  registry_foldl_cancelTicket d.active.occupants d

theorem mem_registry_iff {id : UInt32} :
    id ∈ d.registry.table ↔ ∃ k, d.active.get? id = some k := by
  rw [← Option.isSome_iff_exists]
  exact Roster.mem_table_iff

/-- A ticket whose name is in use does not become active, and nothing at all is done. -/
theorem activate_of_used (hget : d.tickets[k]? = some t) (used : t.id ∈ d.registry.table) :
    d.activate k = (d, false) := by
  have taken : d.active.insert? t.id k = none := by
    rw [← Option.not_isSome_iff_eq_none, Roster.insert?_isSome_iff]
    rcases mem_registry_iff.1 used with ⟨j, found⟩
    simp [found]
  simp only [activate, hget, taken]

theorem activate_of_free (hget : d.tickets[k]? = some t) (free : t.id ∉ d.registry.table) :
    ∃ r, d.active.insert? t.id k = some r ∧ d.activate k = ({ d with active := r }, true) := by
  have unused : d.active.get? t.id = none := by
    rw [mem_registry_iff, ← Option.isSome_iff_exists] at free
    simpa using free
  rcases Option.isSome_iff_exists.1 (Roster.insert?_isSome_iff.2 unused) with ⟨r, inserted⟩
  exact ⟨r, inserted, by simp only [activate, hget, inserted]⟩

/-- A desk does and replies what its registry does. -/
theorem step_registry (d : Desk) (a : Step) :
    ((step d a).1.registry, (step d a).2) = d.registry.step a := by
  cases a with
  | issue id endpoint payload => simp [step, issue, registry, Registry.step, Ticket.issue]
  | activate k =>
      have name : d.registry.names[k]? = d.tickets[k]?.map Ticket.id := List.getElem?_map
      cases hget : d.tickets[k]? with
      | none => simp only [step, activate, Registry.step, name, hget, Option.map_none]
      | some t =>
          simp only [step, Registry.step, name, hget, Option.map_some]
          by_cases used : t.id ∈ d.registry.table
          · rw [if_pos used, activate_of_used hget used]
          · rcases activate_of_free hget used with ⟨r, inserted, activated⟩
            rw [if_neg used, activated, registry, registry, Roster.table_of_insert? inserted]
  | retire id => simp [step, retire, registry, Registry.step, Roster.table_erase]
  | cancel id =>
      have found : (d.cancel id).2 = decide (id ∈ d.registry.table) := by
        rw [Bool.eq_iff_iff, decide_eq_true_iff, mem_registry_iff]
        exact cancel_found_iff
      show ((d.cancel id).1.registry, Reply.flag (d.cancel id).2) = _
      rw [registry_cancel, found]
      rfl
  | cancelTicket k => simp [step, Registry.step, registry_cancelTicket]
  | cancelAll =>
      show (d.cancelAll.registry, Reply.count d.active.size) = _
      rw [registry_cancelAll, ← Roster.card_keys_table]
      rfl
  | contains id =>
      have inUse : d.active.contains id = decide (id ∈ d.registry.table) := by
        rw [Bool.eq_iff_iff, decide_eq_true_iff]
        exact Roster.mem_table_iff.symm
      simp only [step, Registry.step, inUse]

theorem run_registry (d : Desk) (as : List Step) :
    (run d as).map (fun r => (r.1.registry, r.2)) = d.registry.run as := by
  induction as generalizing d with
  | nil => rfl
  | cons a as ih =>
      have first := step_registry d a
      rw [run, List.map_cons, Registry.run, ← first, ih]

/-- Occupants stay tickets of the names that they occupy. -/
theorem Registry.IsFiled.step {g : Registry} (filed : g.IsFiled) (a : Step) :
    (g.step a).1.IsFiled := by
  intro id k found
  cases a with
  | issue name endpoint payload =>
      have before := filed id k found
      exact (List.getElem?_append_left (List.getElem?_eq_some_iff.1 before).1).trans before
  | activate j =>
      simp only [Registry.step] at found ⊢
      cases named : g.names[j]? with
      | none =>
          simp only [named] at found
          exact filed id k found
      | some name =>
          simp only [named] at found ⊢
          split at found
          · rename_i used
            rw [if_pos used]
            exact filed id k found
          · rename_i free
            rw [if_neg free]
            -- The new entry goes under the name that its ticket was issued for.
            by_cases own : id = name
            · subst own
              rw [Finmap.lookup_insert] at found
              cases found
              exact named
            · rw [Finmap.lookup_insert_of_ne _ own] at found
              exact filed id k found
  | retire name =>
      have kept : (g.table.erase name).lookup id = some k := found
      by_cases own : id = name
      · subst own
        rw [Finmap.lookup_erase] at kept
        cases kept
      · rw [Finmap.lookup_erase_ne own] at kept
        exact filed id k kept
  | _ => exact filed id k found

/-! ## Strikes -/

def struck (d : Desk) : Step → List Nat
  | .cancelTicket k => [k]
  | .cancel id => (d.active.get? id).toList
  | .cancelAll => d.active.occupants
  | .issue .. | .activate _ | .retire _ | .contains _ => []

def machine : Machine Desk Step where
  start := .empty
  step? d a := some (step d a).1

/-- Ticket `k` was cancelled in a run, once it was issued. -/
def WasStruck (as : List Step) (k : Nat) : Prop :=
  machine.Happens (fun d a => k < d.tickets.length ∧ k ∈ d.struck a) .empty as

/-- The tickets are marked that were struck, in both of their records. -/
structure Marked (hit : Nat → Prop) (d : Desk) : Prop where
  issued : ∀ k, hit k → k < d.tickets.length
  tickets : ∀ k t, d.tickets[k]? = some t → t.IsSound ∧ (t.cancelled = true ↔ hit k)

variable {hit : Nat → Prop}

/-- Nothing else is done to the tickets that there are. -/
theorem tickets_step (other : ∀ id endpoint payload, a ≠ .issue id endpoint payload) :
    (step d a).1.tickets = ((d.struck a).foldl (fun d k => d.cancelTicket k) d).tickets := by
  cases a with
  | issue id endpoint payload => exact absurd rfl (other id endpoint payload)
  | activate k =>
      simp only [step, activate, struck, List.foldl_nil]
      split
      · rfl
      · split <;> rfl
  | cancel id => exact congrArg Desk.tickets (cancel_eq_foldl id d)
  | _ => rfl

theorem length_tickets_foldl_cancelTicket (ks : List Nat) (d : Desk) :
    (ks.foldl (fun d k => d.cancelTicket k) d).tickets.length = d.tickets.length := by
  have names := congrArg (fun g => g.names.length) (registry_foldl_cancelTicket ks d)
  simpa [registry] using names

/-- Every step marks the tickets that it strikes. -/
theorem Marked.step (marked : Marked hit d) (a : Step) :
    Marked (fun k => hit k ∨ k < d.tickets.length ∧ k ∈ d.struck a) (Desk.step d a).1 := by
  -- Only an issue makes tickets; any other step strikes some of those that are there.
  by_cases issues : ∃ id endpoint payload, a = .issue id endpoint payload
  · rcases issues with ⟨id, endpoint, payload, rfl⟩
    have tickets : (Desk.step d (.issue id endpoint payload)).1.tickets =
        d.tickets ++ [.issue id endpoint payload] := rfl
    simp only [struck, List.not_mem_nil, and_false, or_false]
    refine ⟨?_, ?_⟩
    · intro k struck
      rw [tickets, List.length_append]
      exact Nat.lt_add_right _ (marked.issued k struck)
    · intro k t hget
      rw [tickets] at hget
      rcases Nat.lt_or_ge k d.tickets.length with old | new
      · rw [List.getElem?_append_left old] at hget
        exact marked.tickets k t hget
      · -- What was not issued was not struck.
        have spared : ¬hit k := fun struck => Nat.not_lt.2 new (marked.issued k struck)
        rw [List.getElem?_append_right new] at hget
        have fresh : t = .issue id endpoint payload := by
          rw [List.getElem?_singleton] at hget
          split at hget <;> cases hget
          rfl
        subst fresh
        exact ⟨Ticket.isSound_issue _ _ _, by simp [Ticket.issue, spared]⟩
  · have tickets := tickets_step (d := d) fun id endpoint payload here =>
      issues ⟨id, endpoint, payload, here⟩
    refine ⟨?_, ?_⟩
    · intro k struck
      rw [tickets, length_tickets_foldl_cancelTicket]
      rcases struck with before | now
      · exact marked.issued k before
      · exact now.1
    · intro k t hget
      rw [tickets] at hget
      rcases getElem?_foldl_cancelTicket hget with ⟨t₀, before, flag, sound⟩
      rcases marked.tickets k t₀ before with ⟨was, hits⟩
      have issued : k < d.tickets.length := (List.getElem?_eq_some_iff.1 before).1
      exact ⟨sound was, by rw [flag, hits]; simp [issued]⟩

/-! ## Runs -/

/-- All steps can be taken. -/
theorem run?_eq (d : Desk) (as : List Step) :
    machine.run? d as = some (machine.advance d as) := by
  induction as generalizing d with
  | nil => rfl
  | cons a as ih => exact ih (step d a).1

theorem marked_of_run (as : List Step) : Marked (WasStruck as) (machine.advance .empty as) := by
  refine Machine.run?_induction (motive := fun as d => Marked (WasStruck as) d) ?_ ?_
    (run?_eq .empty as)
  · refine ⟨?_, ?_⟩
    · intro k struck
      exact absurd struck (Machine.not_happens_nil _ _ _)
    · intro k t hget
      cases hget
  · intro es d e a run last marked
    cases last
    have strikes : WasStruck (es ++ [a]) =
        fun k => WasStruck es k ∨ k < d.tickets.length ∧ k ∈ d.struck a :=
      funext fun k => propext (Machine.happens_concat run)
    rw [strikes]
    exact marked.step a

theorem filed_of_run (as : List Step) : (machine.advance .empty as).registry.IsFiled := by
  refine Machine.run?_induction (motive := fun _ d => d.registry.IsFiled) ?_ ?_ (run?_eq .empty as)
  · intro id k found
    cases found
  · intro es d e a run last filed
    cases last
    have stepped : (step d a).1.registry = (d.registry.step a).1 :=
      congrArg Prod.fst (step_registry d a)
    rw [stepped]
    exact filed.step a

theorem WasStruck.append {as : List Step} (struck : WasStruck as k) (more : List Step) :
    WasStruck (as ++ more) k := by
  rcases struck with ⟨before, a, behind, d, split, path, hit⟩
  exact ⟨before, a, behind ++ more, d, by simp [split], path, hit⟩

/-- No mark is ever taken back. -/
theorem stays_cancelled {as : List Step} (hget : (machine.advance .empty as).tickets[k]? = some t)
    (cancelled : t.cancelled = true) (more : List Step) :
    ∃ t', (machine.advance (machine.advance .empty as) more).tickets[k]? = some t' ∧
      t'.cancelled = true := by
  have later : machine.advance (machine.advance .empty as) more =
      machine.advance .empty (as ++ more) := List.foldl_append.symm
  have struck := (((marked_of_run as).tickets k t hget).2.1 cancelled).append more
  have marked := marked_of_run (as ++ more)
  have hget' := List.getElem?_eq_getElem (marked.issued k struck)
  rw [later]
  exact ⟨_, hget', (marked.tickets k _ hget').2.2 struck⟩

/-- In every run of a desk.  First, desk and replies are step by step those of a finite map from
names to tickets: a ticket becomes active exactly when its name is not in the map, and is put into
it; a name is found, and retired, exactly when it is in the map; as many tickets are cancelled all
at once, and are active, as the map has names.  Each name has a ticket of that name.  Second, a
ticket that does not become active leaves all as it was.  Third, a ticket is marked as cancelled
exactly when it was cancelled itself, or was active when its name or everything was; its latch is
raised exactly when it is marked, and it stays so. -/
theorem desk_refines_map (steps : List Step) :
    let d := machine.advance .empty steps
    ((run .empty steps).map (fun r => (r.1.registry, r.2)) = Registry.run ⟨[], ∅⟩ steps ∧
      d.active.size = d.registry.table.keys.card ∧
      ∀ id k, d.registry.table.lookup id = some k → ∃ t, d.tickets[k]? = some t ∧ t.id = id) ∧
    (∀ k t, d.tickets[k]? = some t →
      if t.id ∈ d.registry.table then step d (.activate k) = (d, .flag false)
      else (step d (.activate k)).2 = .flag true ∧
        (step d (.activate k)).1.tickets = d.tickets) ∧
    ∀ k t, d.tickets[k]? = some t →
      (t.cancelled = true ↔ WasStruck steps k) ∧ t.latch.raised = t.cancelled ∧
        (t.cancelled = true → ∀ more, ∃ t',
          (machine.advance d more).tickets[k]? = some t' ∧ t'.cancelled = true) := by
  intro d
  have marked := marked_of_run steps
  refine ⟨⟨?_, (Roster.card_keys_table _).symm, ?_⟩, ?_, ?_⟩
  · have fresh : Desk.empty.registry = ⟨[], ∅⟩ := rfl
    rw [run_registry, fresh]
  · intro id k found
    have name := filed_of_run steps id k found
    exact Option.map_eq_some_iff.1 (List.getElem?_map.symm.trans name)
  · intro k t hget
    split
    · rename_i used
      simp only [step, activate_of_used hget used]
    · rename_i free
      rcases activate_of_free hget free with ⟨r, -, activated⟩
      simp only [step, activated, and_self]
  · intro k t hget
    rcases marked.tickets k t hget with ⟨sound, flag⟩
    exact ⟨flag, sound, stays_cancelled hget⟩

/-- Two tickets of one name that are active by turns; the name is cancelled while the first is, and
again while none is. -/
def sharedName : List Step :=
  [.issue 7 (.v4 ⟨127, 0, 0, 1⟩ 7000) [], .issue 7 (.v4 ⟨127, 0, 0, 1⟩ 7000) [], .activate 0,
    .activate 1, .cancel 7, .retire 7, .cancel 7, .activate 1]

/-- The second ticket was turned away when the name was cancelled, so it is not marked before the
cancellation of everything. -/
theorem desk_of_sharedName :
    ¬WasStruck sharedName 1 ∧ WasStruck (sharedName ++ [.cancelAll]) 1 ∧
      (run .empty sharedName).map (fun r => (r.1.registry, r.2)) =
        Registry.run ⟨[], ∅⟩ sharedName := by
  rcases desk_refines_map sharedName with ⟨⟨refines, -, -⟩, -, marks⟩
  rcases desk_refines_map (sharedName ++ [.cancelAll]) with ⟨-, -, marks'⟩
  have spared := (marks 1 _ rfl).1
  have struck := (marks' 1 _ rfl).1
  exact ⟨fun was => absurd (spared.2 was) (by decide), struck.1 rfl, refines⟩

end Desk
end LineExchange
