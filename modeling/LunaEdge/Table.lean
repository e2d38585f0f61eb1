import Mathlib.Data.List.Induction
import Mathlib.Data.List.Nodup
import Mathlib.Data.List.Sigma

/-!
# Keyed tables

A table is a list of rows in which no two rows share a primary key; the
uniqueness is a field, so a table that breaks it cannot be built. The
operations are the ones an SQL store offers by primary key: `upsert` is
`INSERT ... ON CONFLICT DO UPDATE` (the row keeps its place), `update` is
`UPDATE ... WHERE` with a change that leaves the key alone, `erase` is
`DELETE` by key.

Everything later is proved about `find?`: each operation has one lemma
saying what a lookup sees after it (`find?_upsert`, `find?_update`,
`find?_erase`), and two tables are the same table when every lookup
agrees (`Same`): the order of the rows carries no meaning.
-/

namespace LunaEdge

open List

class Keyed (ρ : Type) (κ : outParam Type) where
  key : ρ → κ

/-- Rows with pairwise distinct primary keys. -/
structure Table (ρ : Type) {κ : Type} [Keyed ρ κ] where
  rows : List ρ
  nodup : (rows.map Keyed.key).Nodup

namespace Table

open Keyed

variable {ρ κ : Type} [Keyed ρ κ] [DecidableEq κ]

def empty : Table ρ := ⟨[], nodup_nil⟩

def find? (t : Table ρ) (k : κ) : Option ρ := t.rows.find? fun r => decide (key r = k)

/-- The rows a `SELECT ... WHERE p` returns. -/
def select (t : Table ρ) (p : ρ → Bool) : List ρ := t.rows.filter p

/-! ## Lookups and membership -/

variable {r x : ρ} {k : κ} {t : Table ρ} {l : List ρ}

theorem find?_eq_some_iff : t.find? k = some r ↔ r ∈ t.rows ∧ key r = k := by
  constructor
  · intro h
    exact ⟨mem_of_find?_eq_some h, by simpa using List.find?_some h⟩
  · rintro ⟨hmem, rfl⟩
    cases hf : t.find? (key r) with
    | none =>
      have := List.find?_eq_none.mp hf r hmem
      simp at this
    | some r' =>
      have hmem' : r' ∈ t.rows := mem_of_find?_eq_some hf
      have hkey : key r' = key r := by simpa using List.find?_some hf
      rw [inj_on_of_nodup_map t.nodup hmem' hmem hkey]

theorem find?_eq_none_iff : t.find? k = none ↔ ∀ r ∈ t.rows, key r ≠ k := by
  simp [find?, List.find?_eq_none]

theorem key_of_find? (h : t.find? k = some r) : key r = k := (find?_eq_some_iff.mp h).2

theorem mem_of_find? (h : t.find? k = some r) : r ∈ t.rows := (find?_eq_some_iff.mp h).1

theorem find?_of_mem (h : r ∈ t.rows) : t.find? (key r) = some r := find?_eq_some_iff.mpr ⟨h, rfl⟩

/-! ## Upsert -/

/-- Replace the row with `x`'s key, or append `x`. -/
def upsertRows (x : ρ) : List ρ → List ρ
  | [] => [x]
  | y :: ys => if key y = key x then x :: ys else y :: upsertRows x ys

theorem mem_keys_upsertRows : k ∈ (upsertRows x l).map key ↔ k = key x ∨ k ∈ l.map key := by
  induction l with
  | nil => simp [upsertRows]
  | cons y ys ih =>
    by_cases hy : key y = key x
    · rw [upsertRows, if_pos hy]
      simp only [map_cons, mem_cons, hy]
      tauto
    · rw [upsertRows, if_neg hy]
      simp only [map_cons, mem_cons, ih]
      tauto

theorem nodup_upsertRows (h : (l.map key).Nodup) : ((upsertRows x l).map key).Nodup := by
  induction l with
  | nil => simp [upsertRows]
  | cons y ys ih =>
    rw [map_cons, nodup_cons] at h
    by_cases hy : key y = key x
    · rw [upsertRows, if_pos hy, map_cons, nodup_cons, ← hy]
      exact h
    · rw [upsertRows, if_neg hy, map_cons, nodup_cons]
      refine ⟨fun hmem => ?_, ih h.2⟩
      rcases mem_keys_upsertRows.mp hmem with heq | hin
      · exact hy heq
      · exact h.1 hin

def upsert (t : Table ρ) (x : ρ) : Table ρ := ⟨upsertRows x t.rows, nodup_upsertRows t.nodup⟩

theorem find?_upsert (t : Table ρ) (x : ρ) (k : κ) :
    (t.upsert x).find? k = if key x = k then some x else t.find? k := by
  obtain ⟨l, hl⟩ := t
  simp only [upsert, find?]
  clear hl
  induction l with
  | nil => by_cases hk : key x = k <;> simp [upsertRows, hk]
  | cons y ys ih =>
    by_cases hy : key y = key x
    · rw [upsertRows, if_pos hy]
      by_cases hk : key x = k
      · simp [hk]
      · simp [hk, hy]
    · rw [upsertRows, if_neg hy]
      by_cases hk : key y = k
      · have hx : key x ≠ k := fun h => hy (hk.trans h.symm)
        simp [hk, hx]
      · simpa [List.find?_cons, hk] using ih

@[simp] theorem find?_upsert_self (t : Table ρ) (x : ρ) : (t.upsert x).find? (key x) = some x := by
  rw [find?_upsert, if_pos rfl]

theorem upsertRows_of_new (h : key x ∉ l.map key) : upsertRows x l = l ++ [x] := by
  induction l with
  | nil => rfl
  | cons y ys ih =>
    rw [map_cons, mem_cons, not_or] at h
    rw [upsertRows, if_neg (Ne.symm h.1), ih h.2, cons_append]

theorem rows_foldl_upsert {σ : Type} {f : σ → ρ} {l : List σ}
    (h : (l.map fun x => key (f x)).Nodup) :
    (l.foldl (fun (t : Table ρ) x => t.upsert (f x)) empty).rows = l.map f := by
  induction l using List.reverseRecOn with
  | nil => rfl
  | append_singleton l x ih =>
    rw [map_append, nodup_append] at h
    obtain ⟨hl, -, hnew⟩ := h
    have hnot : key (f x) ∉ (l.map f).map key := by
      intro hmem
      rw [map_map] at hmem
      exact hnew (key (f x)) hmem (key (f x)) (mem_singleton_self _) rfl
    rw [foldl_append, map_append, ← ih hl]
    rw [← ih hl] at hnot
    exact upsertRows_of_new hnot

/-- With unique keys an upsert replaces exactly the row with the same key. -/
theorem mem_upsert : r ∈ (t.upsert x).rows ↔ r = x ∨ (r ∈ t.rows ∧ key r ≠ key x) := by
  have hr : r ∈ (t.upsert x).rows ↔ (t.upsert x).find? (key r) = some r := by
    simp [find?_eq_some_iff]
  rw [hr, find?_upsert]
  by_cases hk : key x = key r
  · rw [if_pos hk]
    constructor
    · intro h; exact Or.inl (Option.some.inj h).symm
    · rintro (rfl | ⟨-, hne⟩)
      · rfl
      · exact absurd hk.symm hne
  · rw [if_neg hk, find?_eq_some_iff]
    constructor
    · rintro ⟨hmem, -⟩; exact Or.inr ⟨hmem, fun h => hk h.symm⟩
    · rintro (rfl | ⟨hmem, -⟩)
      · exact absurd rfl hk
      · exact ⟨hmem, rfl⟩

theorem filter_upsertRows_of_not {p : ρ → Bool} (hp : ∀ r, key r = key x → p r = false) :
    (upsertRows x l).filter p = l.filter p := by
  induction l with
  | nil => simp [upsertRows, hp x rfl]
  | cons y ys ih =>
    by_cases hy : key y = key x
    · rw [upsertRows, if_pos hy, filter_cons, filter_cons, hp x rfl, hp y hy]
      simp
    · rw [upsertRows, if_neg hy, filter_cons, filter_cons, ih]

theorem select_upsert_of_not {p : ρ → Bool} (hp : ∀ r, key r = key x → p r = false) :
    (t.upsert x).select p = t.select p :=
  filter_upsertRows_of_not hp

theorem upsertRows_upsertRows {y : ρ} (h : key x = key y) (l : List ρ) :
    upsertRows y (upsertRows x l) = upsertRows y l := by
  induction l with
  | nil => simp [upsertRows, h]
  | cons z zs ih =>
    by_cases hz : key z = key x
    · simp [upsertRows, hz, h]
    · have hz' : key z ≠ key y := fun he => hz (he.trans h.symm)
      simp [upsertRows, hz, hz', ih]

theorem upsert_upsert {y : ρ} (h : key x = key y) : (t.upsert x).upsert y = t.upsert y := by
  simp only [upsert, upsertRows_upsertRows h]

/-! ## Update in place -/

/-- `UPDATE ... SET f WHERE p`, for an `f` that keeps primary keys. -/
def update (t : Table ρ) (p : ρ → Bool) (f : ρ → ρ) (hf : ∀ r, key (f r) = key r) : Table ρ :=
  ⟨t.rows.map fun r => if p r then f r else r, by
    have hkeys : (t.rows.map fun r => if p r then f r else r).map key
        = t.rows.map key := by
      rw [map_map]
      refine map_congr_left fun r _ => ?_
      by_cases hp : p r = true <;> simp [hp, hf]
    rw [hkeys]
    exact t.nodup⟩

theorem find?_update (t : Table ρ) (p : ρ → Bool) (f : ρ → ρ)
    (hf : ∀ r, key (f r) = key r) (k : κ) :
    (t.update p f hf).find? k = (t.find? k).map fun r => if p r then f r else r := by
  simp only [update, find?, List.find?_map]
  congr 2
  funext r
  by_cases hp : p r = true <;> simp [hp, hf]

/-! ## Erase -/

/-- `DELETE ... WHERE key = k`. -/
def erase (t : Table ρ) (k : κ) : Table ρ :=
  ⟨t.rows.filter fun r => decide (key r ≠ k), (filter_sublist.map key).nodup t.nodup⟩

theorem find?_erase (t : Table ρ) (k k' : κ) :
    (t.erase k).find? k' = if k = k' then none else t.find? k' := by
  by_cases hk : k = k'
  · rw [if_pos hk, find?_eq_none_iff]
    intro r hr
    simp only [erase, mem_filter, decide_eq_true_eq] at hr
    exact hk ▸ hr.2
  · rw [if_neg hk]
    ext r
    simp only [find?_eq_some_iff, erase, mem_filter, decide_eq_true_eq]
    constructor
    · rintro ⟨⟨hmem, -⟩, hkey⟩; exact ⟨hmem, hkey⟩
    · rintro ⟨hmem, hkey⟩
      exact ⟨⟨hmem, fun h => hk (h.symm.trans hkey)⟩, hkey⟩

/-- The rows are the one with key `k`, if there is one, and the others. -/
theorem rows_perm (t : Table ρ) (k : κ) : t.rows.Perm ((t.find? k).toList ++ (t.erase k).rows) := by
  obtain ⟨l, hl⟩ := t
  simp only [find?, erase]
  induction l with
  | nil => simp
  | cons r rs ih =>
    rw [map_cons, nodup_cons] at hl
    by_cases hk : key r = k
    · have hrs : rs.filter (fun r => decide (key r ≠ k)) = rs := by
        refine filter_eq_self.mpr fun r' hr' => decide_eq_true fun h => hl.1 ?_
        exact hk.trans h.symm ▸ mem_map_of_mem hr'
      rw [List.find?_cons_of_pos (by simpa using hk), filter_cons_of_neg (by simpa using hk), hrs]
      exact List.Perm.refl _
    · rw [List.find?_cons_of_neg (by simpa using hk), filter_cons_of_pos (by simpa using hk)]
      exact ((ih hl.2).cons r).trans perm_middle.symm

theorem erase_upsert (t : Table ρ) (x : ρ) : (t.upsert x).erase (key x) = t.erase (key x) := by
  simp only [erase, upsert]
  congr 1
  exact filter_upsertRows_of_not fun r hr => by simp [hr]

theorem rows_upsert_perm (t : Table ρ) (x : ρ) :
    (t.upsert x).rows.Perm (x :: (t.erase (key x)).rows) := by
  have h := rows_perm (t.upsert x) (key x)
  rwa [find?_upsert_self, erase_upsert] at h

/-! ## Equality of tables -/

/-- The same rows, in whatever order. -/
def Same (t u : Table ρ) : Prop := ∀ k, t.find? k = u.find? k

end Table

end LunaEdge
