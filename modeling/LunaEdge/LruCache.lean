import LunaEdge.GoMap

/-!
# Least recently used

A bounded cache as the table of its entries, most recently used first.
The bound is a field. A lookup brings its entry to the front, an addition
to a full cache drops the last entry.

What a lookup answers is read through `get?`; a lookup does not change it,
and an addition only removes answers besides the one it makes
(`get?_add`).
-/

namespace LunaEdge

namespace GoMap

variable {κ ν : Type} [DecidableEq κ]

/-- The entry of a key, set and in front of all others. -/
def toFront (m : GoMap κ ν) (k : κ) (v : ν) : GoMap κ ν where
  rows := (k, v) :: (m.delete k).rows
  nodup := by
    refine List.nodup_cons.mpr ⟨fun hmem => ?_, (m.delete k).nodup⟩
    obtain ⟨r, hr, hkey⟩ := List.mem_map.mp hmem
    exact of_decide_eq_true (List.mem_filter.mp hr).2 hkey

def dropLast (m : GoMap κ ν) : GoMap κ ν :=
  ⟨m.rows.dropLast, m.nodup.sublist (m.rows.dropLast_sublist.map _)⟩

variable {m : GoMap κ ν} {k k' : κ} {v : ν}

theorem get?_toFront : (m.toFront k v).get? k' = if k = k' then some v else m.get? k' := by
  by_cases hk : k = k'
  · subst hk
    rw [if_pos rfl, get?, Table.find?]
    simp [toFront, Keyed.key]
  · have hdelete := m.get?_delete k k'
    rw [if_neg hk] at hdelete ⊢
    rw [← hdelete, get?, get?, Table.find?, Table.find?]
    simp [toFront, Keyed.key, hk]

theorem get?_of_dropLast (h : m.dropLast.get? k = some v) : m.get? k = some v := by
  rw [get?_eq_some_iff] at h ⊢
  exact (List.dropLast_sublist _).subset h

theorem length_delete_le (m : GoMap κ ν) (k : κ) : (m.delete k).rows.length ≤ m.rows.length :=
  List.length_filter_le _ _

theorem length_delete_lt (h : (m.get? k).isSome = true) :
    (m.delete k).rows.length < m.rows.length := by
  obtain ⟨v, hv⟩ := Option.isSome_iff_exists.mp h
  refine List.length_filter_lt_length_iff_exists.mpr ⟨(k, v), get?_eq_some_iff.mp hv, ?_⟩
  simp [Keyed.key]

end GoMap

/-- At most `capacity` entries, most recently used first. -/
structure Lru (κ ν : Type) where
  capacity : Nat
  entries : GoMap κ ν
  bounded : entries.rows.length ≤ capacity

namespace Lru

variable {κ ν : Type} [DecidableEq κ]

def new (capacity : Nat) : Lru κ ν := ⟨capacity, .empty, Nat.zero_le _⟩

def get? (c : Lru κ ν) (k : κ) : Option ν := c.entries.get? k

def get (c : Lru κ ν) (k : κ) : Option ν × Lru κ ν :=
  match h : c.get? k with
  | none => (none, c)
  | some v =>
    (some v,
      { c with
        entries := c.entries.toFront k v
        bounded := by
          have hlt := GoMap.length_delete_lt (m := c.entries) (k := k) (by rw [← get?, h]; rfl)
          exact Nat.le_trans hlt c.bounded })

/-- The entry of a key is replaced, or comes in addition to the others,
of which the last is dropped if they are too many. -/
def add (c : Lru κ ν) (k : κ) (v : ν) : Lru κ ν :=
  if h : (c.get? k).isSome then
    { c with
      entries := c.entries.toFront k v
      bounded := Nat.le_trans (GoMap.length_delete_lt h) c.bounded }
  else if h' : c.capacity < (c.entries.toFront k v).rows.length then
    { c with
      entries := (c.entries.toFront k v).dropLast
      bounded := by
        have hle := c.entries.length_delete_le k
        have hbounded := c.bounded
        rw [GoMap.dropLast, List.length_dropLast]
        show (c.entries.delete k).rows.length + 1 - 1 ≤ c.capacity
        omega }
  else { c with entries := c.entries.toFront k v, bounded := Nat.le_of_not_lt h' }

def delete (c : Lru κ ν) (k : κ) : Lru κ ν :=
  { c with
    entries := c.entries.delete k
    bounded := Nat.le_trans (c.entries.length_delete_le k) c.bounded }

variable {c : Lru κ ν} {k k' : κ} {v v' : ν}

theorem fst_get : (c.get k).1 = c.get? k := by
  unfold get
  split <;> rename_i h <;> exact h.symm

theorem get?_get : (c.get k).2.get? k' = c.get? k' := by
  unfold get
  split
  · rfl
  · rename_i v h
    show (c.entries.toFront k v).get? k' = _
    rw [GoMap.get?_toFront]
    split
    · rename_i hk
      rw [← h, hk]
    · rfl

/-- What is there after an addition is the new entry, or an old one of
another key. -/
theorem get?_add (h : (c.add k v).get? k' = some v') :
    (k = k' ∧ v' = v) ∨ (k ≠ k' ∧ c.get? k' = some v') := by
  have hfront : (c.entries.toFront k v).get? k' = some v' →
      (k = k' ∧ v' = v) ∨ (k ≠ k' ∧ c.get? k' = some v') := by
    intro h
    rw [GoMap.get?_toFront] at h
    split at h
    · rename_i hk
      exact Or.inl ⟨hk, (Option.some.inj h).symm⟩
    · rename_i hk
      exact Or.inr ⟨hk, h⟩
  unfold add at h
  split at h
  · exact hfront h
  · split at h
    · exact hfront (GoMap.get?_of_dropLast h)
    · exact hfront h

theorem get?_delete : (c.delete k).get? k' = if k = k' then none else c.get? k' :=
  c.entries.get?_delete k k'

end Lru

end LunaEdge
