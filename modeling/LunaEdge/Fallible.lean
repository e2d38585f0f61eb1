import Mathlib.Data.List.Forall2

/-!
# Computations that can fail

What it takes for a computation in `Except` to return a value: a sequence
returns if its parts do, a check if its condition holds, and `mapM` if the
function returns on every element, in which case the results correspond to
the elements one by one.
-/

namespace LunaEdge

variable {ε α β : Type}

variable {x : Except ε α} {f : α → Except ε β} {err : ε} {l : List α}

theorem exists_of_bind_eq_ok {b : β} (h : x >>= f = .ok b) : ∃ a, x = .ok a ∧ f a = .ok b := by
  cases x with
  | error e => cases h
  | ok a => exact ⟨a, rfl, h⟩

theorem exists_of_map_eq_ok {f : α → β} {b : β} (h : x.map f = .ok b) :
    ∃ a, x = .ok a ∧ f a = b := by
  cases x with
  | error e => cases h
  | ok a => exact ⟨a, rfl, Except.ok.inj h⟩

/-- A sequence fails with `err` only if one of its parts does. -/
theorem bind_ne_error (hx : x ≠ .error err) (hf : ∀ a, x = .ok a → f a ≠ .error err) :
    x >>= f ≠ .error err := by
  cases x with
  | error e => exact fun h => hx (congrArg Except.error (Except.error.inj h))
  | ok a => exact hf a rfl

/-- A check that ends the computation with `err` if it fails. -/
def require (p : Prop) [Decidable p] (err : ε) : Except ε Unit :=
  if p then .ok () else .error err

theorem require_of {p : Prop} [Decidable p] (h : p) : require p err = .ok () := if_pos h

theorem of_require {p : Prop} [Decidable p] {u : Unit} (h : require p err = .ok u) : p := by
  by_contra hp
  rw [require, if_neg hp] at h
  cases h

/-- After a check for `p`, which has an error of its own. -/
theorem require_bind_ne_error {p : Prop} [Decidable p] {err' : ε} {f : Unit → Except ε β}
    (h : err ≠ err') (hf : p → f () ≠ .error err') : require p err >>= f ≠ .error err' := by
  refine bind_ne_error ?_ fun _ hp => hf (of_require hp)
  rw [require]
  split
  · exact fun h => nomatch h
  · exact fun herr => h (Except.error.inj herr)

theorem forall₂_of_mapM_eq_ok {bs : List β} (h : l.mapM f = .ok bs) :
    List.Forall₂ (fun a b => f a = .ok b) l bs := by
  induction l generalizing bs with
  | nil =>
    obtain rfl := (Except.ok.inj h).symm
    exact .nil
  | cons a l ih =>
    rw [List.mapM_cons] at h
    obtain ⟨b, hb, h⟩ := exists_of_bind_eq_ok h
    obtain ⟨rest, hrest, h⟩ := exists_of_bind_eq_ok h
    obtain rfl := Except.ok.inj h
    exact .cons hb (ih hrest)

theorem exists_mapM_eq_ok (h : ∀ a ∈ l, ∃ b, f a = .ok b) :
    ∃ bs, l.mapM f = .ok bs ∧ List.Forall₂ (fun a b => f a = .ok b) l bs := by
  induction l with
  | nil => exact ⟨[], rfl, .nil⟩
  | cons a l ih =>
    rw [List.forall_mem_cons] at h
    obtain ⟨b, hb⟩ := h.1
    obtain ⟨bs, hbs, hall⟩ := ih h.2
    refine ⟨b :: bs, ?_, .cons hb hall⟩
    rw [List.mapM_cons, hb, hbs]
    rfl

theorem map_ok_of_forall₂ {bs : List β} (h : List.Forall₂ (fun a b => f a = .ok b) l bs) :
    l.map f = bs.map Except.ok := by
  induction h with
  | nil => rfl
  | cons h _ ih => rw [List.map_cons, List.map_cons, h, ih]

theorem exists_of_mem_forall₂ {r : α → β → Prop} {l' : List β} (h : List.Forall₂ r l l') {a : α}
    (ha : a ∈ l) : ∃ b ∈ l', r a b := by
  obtain ⟨i, hi, rfl⟩ := List.mem_iff_getElem.mp ha
  exact ⟨_, List.getElem_mem (h.length_eq ▸ hi), h.get hi _⟩

theorem exists_mem_of_forall₂ {r : α → β → Prop} {l' : List β} (h : List.Forall₂ r l l') {b : β}
    (hb : b ∈ l') : ∃ a ∈ l, r a b := by
  obtain ⟨i, hi, rfl⟩ := List.mem_iff_getElem.mp hb
  exact ⟨_, List.getElem_mem (h.length_eq ▸ hi), h.get _ hi⟩

end LunaEdge
