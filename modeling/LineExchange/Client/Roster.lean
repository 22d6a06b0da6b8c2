/-!
# Roster — the names that are in use, and who uses them

A roster gives each name that is in use its occupant.  This file defines:

* `Roster` — names with their occupants, no name twice;
* `Roster.get?`, `Roster.insert?`, `Roster.erase` — looking up, taking and freeing a name, each
  with its effect on every look-up.
-/

namespace LineExchange

/-- Names in use with their occupants. -/
structure Roster where
  entries : List (UInt32 × Nat)
  nodup : (entries.map Prod.fst).Nodup
  deriving DecidableEq, Repr

namespace Roster

def empty : Roster :=
  ⟨[], .nil⟩

/-- The occupant of a name. -/
def get? (r : Roster) (id : UInt32) : Option Nat :=
  r.entries.lookup id

def contains (r : Roster) (id : UInt32) : Bool :=
  (r.get? id).isSome

def size (r : Roster) : Nat :=
  r.entries.length

def occupants (r : Roster) : List Nat :=
  r.entries.map Prod.snd

theorem lookup_cons_of_ne {es : List (UInt32 × Nat)} {k id : UInt32} {v : Nat} (h : id ≠ k) :
    ((k, v) :: es).lookup id = es.lookup id := by
  rw [List.lookup_cons, beq_false_of_ne h]

/-- A name without an occupant stands in no entry. -/
theorem lookup_eq_none_iff {es : List (UInt32 × Nat)} {id : UInt32} :
    es.lookup id = none ↔ id ∉ es.map Prod.fst := by
  induction es with
  | nil => simp
  | cons e es ih =>
      rcases e with ⟨k, v⟩
      by_cases h : id = k
      · simp [h]
      · rw [lookup_cons_of_ne h, ih]
        simp [h]

/-- A name is taken; nothing if it is in use. -/
def insert? (r : Roster) (id : UInt32) (occupant : Nat) : Option Roster :=
  if h : r.get? id = none then
    some
      { entries := (id, occupant) :: r.entries
        nodup := by
          rw [List.map_cons, List.nodup_cons]
          exact ⟨lookup_eq_none_iff.1 h, r.nodup⟩ }
  else none

/-- A name is freed. -/
def erase (r : Roster) (id : UInt32) : Roster where
  entries := r.entries.filter (·.1 != id)
  nodup := r.nodup.sublist ((List.filter_sublist (p := fun e => e.1 != id)).map Prod.fst)

@[simp] theorem get?_empty (id : UInt32) : empty.get? id = none := rfl

/-- Leaving out the entries of one name changes no other look-up. -/
theorem lookup_filter {es : List (UInt32 × Nat)} {id other : UInt32} :
    (es.filter (·.1 != id)).lookup other = if other = id then none else es.lookup other := by
  induction es with
  | nil => simp
  | cons e es ih =>
      rcases e with ⟨k, v⟩
      by_cases hk : k = id
      · subst hk
        rw [List.filter_cons_of_neg (by simp), ih]
        by_cases ho : other = k
        · simp [ho]
        · rw [lookup_cons_of_ne ho]
      · rw [List.filter_cons_of_pos (by simpa using hk)]
        by_cases ho : other = k
        · subst ho
          simp [hk]
        · rw [lookup_cons_of_ne ho, lookup_cons_of_ne ho, ih]

/-- Freeing a name ends its occupation and no other. -/
@[simp] theorem get?_erase (r : Roster) (id other : UInt32) :
    (r.erase id).get? other = if other = id then none else r.get? other :=
  lookup_filter

/-- Taking a name gives it its occupant and changes no other. -/
theorem get?_of_insert? {r s : Roster} {id : UInt32} {k : Nat} (h : r.insert? id k = some s)
    (other : UInt32) : s.get? other = if other = id then some k else r.get? other := by
  unfold insert? at h
  split at h
  · cases h
    by_cases ho : other = id
    · simp [get?, ho]
    · simp only [get?, if_neg ho]
      exact lookup_cons_of_ne ho
  · cases h

/-- A name can be taken exactly when it is not in use. -/
theorem insert?_isSome_iff {r : Roster} {id : UInt32} {k : Nat} :
    (r.insert? id k).isSome ↔ r.get? id = none := by
  unfold insert?
  split <;> simp_all

theorem lookup_eq_some_iff {es : List (UInt32 × Nat)} (nodup : (es.map Prod.fst).Nodup)
    {id : UInt32} {k : Nat} : es.lookup id = some k ↔ (id, k) ∈ es := by
  induction es with
  | nil => simp
  | cons e es ih =>
      rcases e with ⟨name, v⟩
      rcases List.nodup_cons.1 nodup with ⟨new, rest⟩
      by_cases h : id = name
      · subst h
        have other : (id, k) ∉ es := fun mem => new (List.mem_map.2 ⟨_, mem, rfl⟩)
        simp [other, eq_comm]
      · rw [lookup_cons_of_ne h, ih rest]
        simp [h]

/-- What a look-up finds is what the entries say. -/
theorem get?_eq_some_iff {r : Roster} {id : UInt32} {k : Nat} :
    r.get? id = some k ↔ (id, k) ∈ r.entries :=
  lookup_eq_some_iff r.nodup

theorem mem_occupants_iff {r : Roster} {k : Nat} :
    k ∈ r.occupants ↔ ∃ id, r.get? id = some k := by
  simp [occupants, get?_eq_some_iff]

end Roster
end LineExchange
