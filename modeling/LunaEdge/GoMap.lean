import LunaEdge.Table

/-!
# Maps

A Go map as a keyed table of pairs. Ranging over a map visits its
entries in an order Go leaves open; the model ranges in the order in
which the keys were first set.
-/

namespace LunaEdge

open List

instance {κ ν : Type} : Keyed (κ × ν) κ := ⟨Prod.fst⟩

abbrev GoMap (κ ν : Type) := Table (κ × ν)

namespace GoMap

variable {κ ν : Type} [DecidableEq κ]

def get? (m : GoMap κ ν) (k : κ) : Option ν := (m.find? k).map Prod.snd

def set (m : GoMap κ ν) (k : κ) (v : ν) : GoMap κ ν := m.upsert (k, v)

def delete (m : GoMap κ ν) (k : κ) : GoMap κ ν := m.erase k

def keys (m : GoMap κ ν) : List κ := m.rows.map Prod.fst

def values (m : GoMap κ ν) : List ν := m.rows.map Prod.snd

def mapValues (m : GoMap κ ν) (f : ν → ν) : GoMap κ ν :=
  m.update (fun _ => true) (fun e => (e.1, f e.2)) fun _ => rfl

@[simp] theorem get?_empty (k : κ) : get? (Table.empty : GoMap κ ν) k = none := rfl

theorem get?_set (m : GoMap κ ν) (k k' : κ) (v : ν) :
    (m.set k v).get? k' = if k = k' then some v else m.get? k' := by
  have hkey : Keyed.key (k, v) = k := rfl
  rw [get?, set, Table.find?_upsert, hkey]
  by_cases hk : k = k'
  · rw [if_pos hk, if_pos hk]; rfl
  · rw [if_neg hk, if_neg hk]; rfl

theorem get?_delete (m : GoMap κ ν) (k k' : κ) :
    (m.delete k).get? k' = if k = k' then none else m.get? k' := by
  rw [get?, delete, Table.find?_erase]
  by_cases hk : k = k'
  · rw [if_pos hk, if_pos hk]; rfl
  · rw [if_neg hk, if_neg hk]; rfl

theorem get?_mapValues (m : GoMap κ ν) (f : ν → ν) (k : κ) :
    (m.mapValues f).get? k = (m.get? k).map f := by
  rw [get?, mapValues, Table.find?_update, get?, Option.map_map, Option.map_map]
  rfl

variable {m : GoMap κ ν}

theorem get?_eq_none_of_rows (h : m.rows = []) (k : κ) : m.get? k = none := by
  rw [get?, Table.find?, h]
  rfl

/-- A loop that changes entries one by one, seen from one key. -/
theorem get?_foldl {β : Type} {step : GoMap κ ν → β → GoMap κ ν} {k : κ}
    (entry : Option ν → β → Option ν) (h : ∀ m b, (step m b).get? k = entry (m.get? k) b)
    (l : List β) (m : GoMap κ ν) : (l.foldl step m).get? k = l.foldl entry (m.get? k) := by
  induction l generalizing m with
  | nil => rfl
  | cons b l ih => rw [foldl_cons, foldl_cons, ih, h]

theorem values_foldl_set {f : ν → κ} {l : List ν} (h : (l.map f).Nodup) :
    values (l.foldl (fun (m : GoMap κ ν) v => m.set (f v) v) Table.empty) = l := by
  have hrows := Table.rows_foldl_upsert (f := fun v => (f v, v)) h
  show (l.foldl (fun (m : GoMap κ ν) v => m.upsert (f v, v)) Table.empty).rows.map Prod.snd = l
  rw [hrows, map_map]
  exact map_id l

/-- Of several values with one key the last one stays. -/
theorem get?_foldl_set {f : ν → κ} (l : List ν) (k : κ) :
    (l.foldl (fun (m : GoMap κ ν) v => m.set (f v) v) Table.empty).get? k
      = (l.filter fun v => f v = k).getLast? := by
  induction l using List.reverseRecOn with
  | nil => rfl
  | append_singleton l v ih =>
    rw [foldl_append, filter_append, foldl_cons, foldl_nil, get?_set]
    by_cases hv : f v = k
    · simp [hv]
    · rw [if_neg hv, ih]
      simp [hv]

theorem values_perm (m : GoMap κ ν) (k : κ) :
    m.values.Perm ((m.get? k).toList ++ (m.delete k).values) := by
  have h := (Table.rows_perm m k).map Prod.snd
  rw [map_append] at h
  have hget : (m.get? k).toList = (m.find? k).toList.map Prod.snd := by
    rw [get?]
    cases m.find? k <;> rfl
  rw [hget]
  exact h

theorem values_set_perm (m : GoMap κ ν) (k : κ) (v : ν) :
    (m.set k v).values.Perm (v :: (m.delete k).values) :=
  (Table.rows_upsert_perm m (k, v)).map Prod.snd

theorem get?_eq_some_iff {k : κ} {v : ν} : m.get? k = some v ↔ (k, v) ∈ m.rows := by
  rw [get?, Option.map_eq_some_iff]
  constructor
  · rintro ⟨e, he, rfl⟩
    obtain ⟨hmem, rfl⟩ := Table.find?_eq_some_iff.mp he
    exact hmem
  · intro hmem
    exact ⟨(k, v), Table.find?_of_mem hmem, rfl⟩

theorem mem_values_iff {v : ν} : v ∈ m.values ↔ ∃ k, m.get? k = some v := by
  simp only [values, mem_map, get?_eq_some_iff]
  constructor
  · rintro ⟨⟨k, v'⟩, hmem, rfl⟩
    exact ⟨k, hmem⟩
  · rintro ⟨k, hmem⟩
    exact ⟨(k, v), hmem, rfl⟩

theorem nodup_values (h : ∀ k k' v, m.get? k = some v → m.get? k' = some v → k = k') :
    m.values.Nodup := by
  refine (nodup_map_iff_inj_on m.nodup.of_map).mpr ?_
  rintro ⟨k, v⟩ hk ⟨k', v'⟩ hk' rfl
  rw [h k k' v (get?_eq_some_iff.mpr hk) (get?_eq_some_iff.mpr hk')]

/-! ## Ranging -/

section Ranging

variable {α β : Type}

/-- A list in which one element alone has something to give comes out the
same in every order. -/
theorem flatMap_eq_of_perm {g : α → List β} {l l' : List α} (hperm : l.Perm l')
    (hone : ∀ a ∈ l, ∀ b ∈ l, g a ≠ [] → g b ≠ [] → a = b) : l.flatMap g = l'.flatMap g := by
  induction hperm with
  | nil => rfl
  | cons a _ ih =>
    rw [flatMap_cons, flatMap_cons, ih fun b hb c hc =>
      hone b (mem_cons_of_mem a hb) c (mem_cons_of_mem a hc)]
  | swap a b l =>
    rw [flatMap_cons, flatMap_cons, flatMap_cons, flatMap_cons, ← append_assoc, ← append_assoc]
    by_cases ha : g a = []
    · rw [ha, append_nil, nil_append]
    · by_cases hb : g b = []
      · rw [hb, append_nil, nil_append]
      · rw [hone a (by simp) b (by simp) ha hb]
  | trans h₁ _ ih₁ ih₂ =>
    rw [ih₁ hone, ih₂ fun a ha b hb =>
      hone a (h₁.mem_iff.mpr ha) b (h₁.mem_iff.mpr hb)]

/-- An order in which a loop may visit the values of a map. -/
structure RangeOrder (α : Type) where
  visit : List α → List α
  perm : ∀ l, (visit l).Perm l

namespace RangeOrder

def stored : RangeOrder α := ⟨fun l => l, fun _ => .rfl⟩

@[simp] theorem visit_stored (l : List α) : stored.visit l = l := rfl

@[simp] theorem mem_visit {order : RangeOrder α} {l : List α} {a : α} :
    a ∈ order.visit l ↔ a ∈ l := (order.perm l).mem_iff

end RangeOrder

end Ranging

/-! ## Maps of maps -/

section Nested

variable {ι : Type} {m : GoMap κ (GoMap ι ν)}

/-- A missing map reads as an empty one. -/
def inner (m : GoMap κ (GoMap ι ν)) (k : κ) : GoMap ι ν := (m.get? k).getD .empty

theorem inner_set (k k' : κ) (v : GoMap ι ν) :
    (m.set k v).inner k' = if k = k' then v else m.inner k' := by
  rw [inner, get?_set]
  by_cases hk : k = k'
  · rw [if_pos hk, if_pos hk]; rfl
  · rw [if_neg hk, if_neg hk]; rfl

theorem inner_delete (k k' : κ) :
    (m.delete k).inner k' = if k = k' then .empty else m.inner k' := by
  rw [inner, get?_delete]
  by_cases hk : k = k'
  · rw [if_pos hk, if_pos hk]; rfl
  · rw [if_neg hk, if_neg hk]; rfl

theorem inner_of_get? {k : κ} {v : GoMap ι ν} (h : m.get? k = some v) : m.inner k = v := by
  rw [inner, h]
  rfl

variable [DecidableEq ι]

/-- Remove one entry, and its map when no other entry is left. -/
def deleteIn (m : GoMap κ (GoMap ι ν)) (k : κ) (i : ι) : GoMap κ (GoMap ι ν) :=
  let rest := (m.inner k).delete i
  if rest.rows.length = 0 then m.delete k else m.set k rest

theorem get?_inner_set (k k' : κ) (i i' : ι) (v : ν) :
    ((m.set k ((m.inner k).set i v)).inner k').get? i'
      = if k = k' ∧ i = i' then some v else (m.inner k').get? i' := by
  rw [inner_set]
  by_cases hk : k = k'
  · subst hk
    rw [if_pos rfl, get?_set]
    simp only [true_and]
  · rw [if_neg hk, if_neg fun h => hk h.1]

theorem get?_inner_deleteIn (k k' : κ) (i i' : ι) :
    ((m.deleteIn k i).inner k').get? i'
      = if k = k' ∧ i = i' then none else (m.inner k').get? i' := by
  have hrest : ((m.deleteIn k i).inner k').get? i'
      = if k = k' then ((m.inner k).delete i).get? i' else (m.inner k').get? i' := by
    rw [deleteIn]
    split
    · rename_i hempty
      rw [inner_delete, get?_eq_none_of_rows (length_eq_zero_iff.mp hempty)]
      split <;> rfl
    · rw [inner_set]
      split <;> rfl
  rw [hrest]
  by_cases hk : k = k'
  · subst hk
    rw [if_pos rfl, get?_delete]
    simp only [true_and]
  · rw [if_neg hk, if_neg fun h => hk h.1]

theorem mem_flatMap_values {v : ν} :
    v ∈ m.values.flatMap values ↔ ∃ k i, (m.inner k).get? i = some v := by
  simp only [mem_flatMap, mem_values_iff]
  constructor
  · rintro ⟨r, ⟨k, hk⟩, i, hi⟩
    exact ⟨k, i, by rwa [inner_of_get? hk]⟩
  · rintro ⟨k, i, hi⟩
    cases hk : m.get? k with
    | none =>
      rw [inner, hk] at hi
      cases hi
    | some r =>
      rw [inner_of_get? hk] at hi
      exact ⟨r, ⟨k, hk⟩, i, hi⟩

theorem nodup_flatMap_values
    (h : ∀ k i k' i' v, (m.inner k).get? i = some v → (m.inner k').get? i' = some v →
      k = k' ∧ i = i') : (m.values.flatMap values).Nodup := by
  have hinner : ∀ e ∈ m.rows, m.inner e.1 = e.2 := fun e he =>
    inner_of_get? (get?_eq_some_iff.mpr he)
  rw [values, flatMap_map, nodup_flatMap]
  constructor
  · intro e he
    refine nodup_values fun i i' v hi hi' => ?_
    rw [← hinner e he] at hi hi'
    exact (h _ _ _ _ v hi hi').2
  · have hkeys : m.rows.Pairwise fun e e' => e.1 ≠ e'.1 := pairwise_map.mp m.nodup
    refine hkeys.imp_of_mem fun {e e'} he he' hne v hv hv' => ?_
    obtain ⟨i, hi⟩ := mem_values_iff.mp hv
    obtain ⟨i', hi'⟩ := mem_values_iff.mp hv'
    rw [← hinner e he] at hi
    rw [← hinner e' he'] at hi'
    exact hne (h _ _ _ _ v hi hi').1

/-- Every map that is kept has an entry. -/
def NoEmpty (m : GoMap κ (GoMap ι ν)) : Prop := ∀ k v, m.get? k = some v → v.rows ≠ []

theorem NoEmpty.set (h : m.NoEmpty) (k : κ) (i : ι) (v : ν) :
    NoEmpty (m.set k ((m.inner k).set i v)) := by
  intro k' r hget hrows
  rw [get?_set] at hget
  split at hget
  · obtain rfl := Option.some.inj hget
    have hnone := get?_eq_none_of_rows hrows i
    rw [get?_set, if_pos rfl] at hnone
    cases hnone
  · exact h k' r hget hrows

theorem NoEmpty.deleteIn (h : m.NoEmpty) (k : κ) (i : ι) : NoEmpty (m.deleteIn k i) := by
  intro k' r hget
  rw [GoMap.deleteIn] at hget
  split at hget
  · rw [get?_delete] at hget
    split at hget
    · cases hget
    · exact h k' r hget
  · rename_i hne
    rw [get?_set] at hget
    split at hget
    · exact Option.some.inj hget ▸ fun hrows => hne (congrArg List.length hrows)
    · exact h k' r hget

end Nested

end GoMap

end LunaEdge
