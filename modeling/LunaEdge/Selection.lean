import Mathlib.Data.List.Find
import Mathlib.Data.List.Induction
import Mathlib.Data.List.Sort
import Mathlib.Order.Lattice

/-!
# Loops that keep the best

A loop over candidates that skips those that do not match and keeps the
first one that is not beaten by a later one. Which candidate that is does
not depend on how the loop compares them, only on a key in a linear order
that the comparison agrees with where it is made: between a candidate
and one before it in the list (`foldl_keepBetter_eq_some_iff`). In a
sorted list the comparison may therefore leave to the order of the list
what the key still tells apart.

Two loops over images of the same candidates agree exactly where no
candidate matches for either, or the best for the one and the best for
the other lead to the same (`map_eq_map_iff`).

Where a list is sorted and its head taken, the choice falls on the first
candidate with the least key (`head?_insertionSort`).
-/

namespace LunaEdge

open List

namespace Selection

variable {α κ : Type} [LinearOrder κ] {m : α → Bool} {better : α → α → Bool} {key : α → κ}

def keepBetter (m : α → Bool) (better : α → α → Bool) (selected : Option α) (x : α) : Option α :=
  if !m x then selected
  else if selected.all fun s => better x s then some x
  else selected

/-- The candidate with the greatest key among those that match. -/
structure IsBest (m : α → Bool) (key : α → κ) (l : List α) (w : α) : Prop where
  mem : w ∈ l
  matched : m w = true
  greatest : ∀ x ∈ l, m x = true → key x ≤ key w

variable {l : List α}

theorem IsBest.unique {w w' : α}
    (hinj : ∀ x ∈ l, ∀ y ∈ l, m x = true → m y = true → key x = key y → x = y)
    (hw : IsBest m key l w) (hw' : IsBest m key l w') : w = w' :=
  hinj w hw.mem w' hw'.mem hw.matched hw'.matched
    (le_antisymm (hw'.greatest w hw.mem hw.matched) (hw.greatest w' hw'.mem hw'.matched))

/-- The loop finds the best candidate, if one matches. -/
theorem foldl_keepBetter_spec
    (hbetter : l.Pairwise fun s x => m s = true → m x = true → (better x s = true ↔ key s < key x)) :
    (l.foldl (keepBetter m better) none = none ∧ ∀ x ∈ l, m x = false)
      ∨ ∃ w, l.foldl (keepBetter m better) none = some w ∧ IsBest m key l w := by
  induction l using List.reverseRecOn with
  | nil => exact Or.inl ⟨rfl, fun _ hx => absurd hx not_mem_nil⟩
  | append_singleton l x ih =>
    obtain ⟨hl, -, hlast⟩ := pairwise_append.mp hbetter
    rw [foldl_append, foldl_cons, foldl_nil, keepBetter]
    cases hx : m x with
    | false =>
      rcases ih hl with ⟨hnone, hno⟩ | ⟨w, hsome, hw⟩
      · refine Or.inl ⟨hnone, fun y hy => ?_⟩
        rcases mem_append.mp hy with hy | hy
        · exact hno y hy
        · rw [mem_singleton.mp hy, hx]
      · refine Or.inr ⟨w, hsome, mem_append_left _ hw.mem, hw.matched, fun y hy hmy => ?_⟩
        rcases mem_append.mp hy with hy | hy
        · exact hw.greatest y hy hmy
        · rw [mem_singleton.mp hy, hx] at hmy
          cases hmy
    | true =>
      have hmem : x ∈ l ++ [x] := mem_append_right _ (mem_singleton_self x)
      rcases ih hl with ⟨hnone, hno⟩ | ⟨w, hsome, hw⟩
      · refine Or.inr ⟨x, by simp [hnone], hmem, hx, fun y hy hmy => ?_⟩
        rcases mem_append.mp hy with hy | hy
        · rw [hno y hy] at hmy
          cases hmy
        · rw [mem_singleton.mp hy]
      · have hcomp := hlast w hw.mem x (mem_singleton_self x) hw.matched hx
        by_cases hlt : key w < key x
        · refine Or.inr ⟨x, by simp [hsome, hcomp.mpr hlt], hmem, hx, fun y hy hmy => ?_⟩
          rcases mem_append.mp hy with hy | hy
          · exact (hw.greatest y hy hmy).trans hlt.le
          · rw [mem_singleton.mp hy]
        · have hnot : better x w = false := Bool.eq_false_iff.mpr fun h => hlt (hcomp.mp h)
          refine Or.inr ⟨w, by simp [hsome, hnot], mem_append_left _ hw.mem, hw.matched,
            fun y hy hmy => ?_⟩
          rcases mem_append.mp hy with hy | hy
          · exact hw.greatest y hy hmy
          · rw [mem_singleton.mp hy]
            exact not_lt.mp hlt

theorem foldl_keepBetter_eq_some_iff {w : α}
    (hbetter : l.Pairwise fun s x => m s = true → m x = true → (better x s = true ↔ key s < key x))
    (hinj : ∀ x ∈ l, ∀ y ∈ l, m x = true → m y = true → key x = key y → x = y) :
    l.foldl (keepBetter m better) none = some w ↔ IsBest m key l w := by
  rcases foldl_keepBetter_spec hbetter with ⟨hnone, hno⟩ | ⟨w', hsome, hw'⟩
  · rw [hnone]
    constructor
    · intro h
      cases h
    · intro hw
      have hmatched := hw.matched
      rw [hno w hw.mem] at hmatched
      cases hmatched
  · rw [hsome, Option.some_inj]
    exact ⟨fun h => h ▸ hw', fun hw => hw'.unique hinj hw⟩

theorem isBest_congr {m' : α → Bool} (hm : ∀ x ∈ l, m x = m' x) (w : α) :
    IsBest m key l w ↔ IsBest m' key l w := by
  constructor
  · intro hw
    exact ⟨hw.mem, hm w hw.mem ▸ hw.matched, fun x hx hmx =>
      hw.greatest x hx ((hm x hx).trans hmx)⟩
  · intro hw
    exact ⟨hw.mem, (hm w hw.mem).trans hw.matched, fun x hx hmx =>
      hw.greatest x hx ((hm x hx).symm.trans hmx)⟩

/-! ## Images -/

theorem isBest_image {β : Type} {f : β → α} {candidates : List β} {x : α}
    (hl : ∀ x, x ∈ l ↔ ∃ s ∈ candidates, f s = x) :
    IsBest m key l x
      ↔ ∃ s, IsBest (fun s => m (f s)) (fun s => key (f s)) candidates s ∧ f s = x := by
  constructor
  · intro hx
    obtain ⟨s, hs, rfl⟩ := (hl x).mp hx.mem
    exact ⟨s, ⟨hs, hx.matched, fun s' hs' => hx.greatest _ ((hl _).mpr ⟨s', hs', rfl⟩)⟩, rfl⟩
  · rintro ⟨s, hs, rfl⟩
    refine ⟨(hl _).mpr ⟨s, hs.mem, rfl⟩, hs.matched, fun x hx hmx => ?_⟩
    obtain ⟨s', hs', rfl⟩ := (hl x).mp hx
    exact hs.greatest s' hs' hmx

theorem exists_isBest (key : α → κ) {x : α} (hx : x ∈ l) (hmx : m x = true) :
    ∃ w, IsBest m key l w := by
  have hloop : l.Pairwise fun s x => m s = true → m x = true →
      (decide (key s < key x) = true ↔ key s < key x) :=
    pairwise_of_forall fun _ _ _ _ => decide_eq_true_iff
  rcases foldl_keepBetter_spec hloop with ⟨-, hno⟩ | ⟨w, -, hw⟩
  · rw [hno x hx] at hmx
    cases hmx
  · exact ⟨w, hw⟩

/-! ## The first of the best -/

def best (m : α → Bool) (key : α → κ) (l : List α) (w : α) : Bool :=
  m w && decide (∀ x ∈ l, m x = true → key x ≤ key w)

theorem best_eq_true_iff {w : α} :
    best m key l w = true ↔ m w = true ∧ ∀ x ∈ l, m x = true → key x ≤ key w := by
  rw [best, Bool.and_eq_true, decide_eq_true_eq]

theorem best_congr {l' : List α} (hmem : ∀ x, x ∈ l ↔ x ∈ l') : best m key l = best m key l' := by
  funext w
  rw [Bool.eq_iff_iff, best_eq_true_iff, best_eq_true_iff]
  simp only [hmem]

theorem best_concat_iff {x w : α} :
    best m key (l ++ [x]) w = true ↔ best m key l w = true ∧ (m x = true → key x ≤ key w) := by
  rw [best_eq_true_iff, best_eq_true_iff, and_assoc]
  simp only [forall_mem_append, forall_mem_singleton]

theorem best_concat_self {x : α} : best m key (l ++ [x]) x = true ↔ best m key l x = true := by
  rw [best_concat_iff]
  exact and_iff_left fun _ => le_refl _

theorem not_matched_of_find?_eq_none (h : l.find? (best m key l) = none) :
    ∀ y ∈ l, m y = false := by
  intro y hy
  by_contra hmy
  obtain ⟨w, hw⟩ := exists_isBest key hy (by simpa using hmy)
  exact List.find?_eq_none.mp h w hw.mem (best_eq_true_iff.mpr ⟨hw.matched, hw.greatest⟩)

/-- Where candidates are compared by their keys the first of the best stays. -/
theorem foldl_keepBetter_eq_find? (hbetter : ∀ s x, better x s = true ↔ key s < key x)
    (l : List α) : l.foldl (keepBetter m better) none = l.find? (best m key l) := by
  induction l using List.reverseRecOn with
  | nil => rfl
  | append_singleton l x ih =>
    rw [foldl_append, foldl_cons, foldl_nil, keepBetter, ih, List.find?_append]
    cases hmx : m x with
    | false =>
      have hsame : best m key (l ++ [x]) = best m key l := by
        funext w
        rw [Bool.eq_iff_iff, best_concat_iff, hmx]
        simp
      have hnot : best m key l x = false := by simp [best, hmx]
      simp [hsame, hnot]
    | true =>
      cases hfind : l.find? (best m key l) with
      | none =>
        -- no candidate before matches, so the new one is the best
        have hno := not_matched_of_find?_eq_none hfind
        have hnone : l.find? (best m key (l ++ [x])) = none :=
          List.find?_eq_none.mpr fun w hw => by simp [best, hno w hw]
        have hnew : best m key (l ++ [x]) x = true :=
          best_concat_self.mpr (best_eq_true_iff.mpr
            ⟨hmx, fun y hy hmy => by rw [hno y hy] at hmy; cases hmy⟩)
        simp [hnone, hnew]
      | some w =>
        have hw : w ∈ l := mem_of_find?_eq_some hfind
        obtain ⟨hmw, hgreatest⟩ := best_eq_true_iff.mp (List.find?_some hfind)
        by_cases hlt : key w < key x
        · have hnone : l.find? (best m key (l ++ [x])) = none := by
            refine List.find?_eq_none.mpr fun v hv hb => ?_
            obtain ⟨hb, hle⟩ := best_concat_iff.mp hb
            have hvw := hgreatest v hv (best_eq_true_iff.mp hb).1
            exact absurd (hle hmx) (not_le.mpr (hvw.trans_lt hlt))
          have hnew : best m key (l ++ [x]) x = true :=
            best_concat_self.mpr (best_eq_true_iff.mpr
              ⟨hmx, fun y hy hmy => (hgreatest y hy hmy).trans hlt.le⟩)
          simp [hnone, hnew, (hbetter w x).mpr hlt]
        · have hsame : l.find? (best m key (l ++ [x])) = l.find? (best m key l) := by
            refine List.find?_congr fun v hv => ?_
            rw [Bool.eq_iff_iff, best_concat_iff]
            refine ⟨fun h => h.1, fun hb => ⟨hb, fun _ => ?_⟩⟩
            exact (not_lt.mp hlt).trans ((best_eq_true_iff.mp hb).2 w hw hmw)
          have hnot : better x w = false := Bool.eq_false_iff.mpr fun h => hlt ((hbetter w x).mp h)
          simp [hsame, hfind, hnot]

theorem find?_eq_of_mem_iff {p : α → Bool} {l' : List α} (hmem : ∀ x, x ∈ l ↔ x ∈ l')
    (hone : ∀ x ∈ l, ∀ y ∈ l, p x = true → p y = true → x = y) : l.find? p = l'.find? p := by
  cases h : l.find? p with
  | none =>
    refine (List.find?_eq_none.mpr fun x hx => ?_).symm
    exact List.find?_eq_none.mp h x ((hmem x).mpr hx)
  | some x =>
    have hx := mem_of_find?_eq_some h
    cases h' : l'.find? p with
    | none => exact absurd (List.find?_some h) (List.find?_eq_none.mp h' x ((hmem x).mp hx))
    | some y =>
      rw [hone x hx y ((hmem y).mpr (mem_of_find?_eq_some h')) (List.find?_some h)
        (List.find?_some h')]

section Agreement

variable {β β' γ κ' : Type} [LinearOrder κ'] {m' : α → Bool} {key' : α → κ'} {l : List α}
  {selected : Option β} {selected' : Option β'} {f : α → β} {f' : α → β'} {target : β → γ}
  {target' : β' → γ}

/-- The best candidates of two choices, if there are any, have the same
target. -/
def SameChoice (m m' : α → Bool) (key : α → κ) (key' : α → κ') (l : List α) (target target' : α → γ) :
    Prop :=
  (∀ x ∈ l, m x = false ∧ m' x = false)
    ∨ ∃ w w', IsBest m key l w ∧ IsBest m' key' l w' ∧ target w = target' w'

theorem map_eq_map_iff (h : ∀ y, selected = some y ↔ ∃ w, IsBest m key l w ∧ f w = y)
    (h' : ∀ y, selected' = some y ↔ ∃ w, IsBest m' key' l w ∧ f' w = y) :
    selected.map target = selected'.map target'
      ↔ SameChoice m m' key key' l (fun w => target (f w)) fun w => target' (f' w) := by
  constructor
  · intro heq
    cases hs : selected with
    | some y =>
      rw [hs, Option.map_some] at heq
      obtain ⟨y', hs', htarget⟩ := Option.map_eq_some_iff.mp heq.symm
      obtain ⟨w, hw, rfl⟩ := (h y).mp hs
      obtain ⟨w', hw', rfl⟩ := (h' y').mp hs'
      exact Or.inr ⟨w, w', hw, hw', htarget.symm⟩
    | none =>
      rw [hs, Option.map_none] at heq
      have hs' := Option.map_eq_none_iff.mp heq.symm
      refine Or.inl fun x hx => ⟨Bool.eq_false_iff.mpr fun hmx => ?_,
        Bool.eq_false_iff.mpr fun hmx => ?_⟩
      · obtain ⟨w, hw⟩ := exists_isBest key hx hmx
        rw [(h (f w)).mpr ⟨w, hw, rfl⟩] at hs
        cases hs
      · obtain ⟨w, hw⟩ := exists_isBest key' hx hmx
        rw [(h' (f' w)).mpr ⟨w, hw, rfl⟩] at hs'
        cases hs'
  · rintro (hno | ⟨w, w', hw, hw', htarget⟩)
    · have hnone : selected = none := by
        by_contra hne
        obtain ⟨y, hy⟩ := Option.ne_none_iff_exists'.mp hne
        obtain ⟨w, hw, -⟩ := (h y).mp hy
        have hmatched := hw.matched
        rw [(hno w hw.mem).1] at hmatched
        cases hmatched
      have hnone' : selected' = none := by
        by_contra hne
        obtain ⟨y, hy⟩ := Option.ne_none_iff_exists'.mp hne
        obtain ⟨w, hw, -⟩ := (h' y).mp hy
        have hmatched := hw.matched
        rw [(hno w hw.mem).2] at hmatched
        cases hmatched
      rw [hnone, hnone']
      rfl
    · rw [(h (f w)).mpr ⟨w, hw, rfl⟩, (h' (f' w')).mpr ⟨w', hw', rfl⟩, Option.map_some,
        Option.map_some]
      exact congrArg some htarget

end Agreement

/-! ## The head of a sorted list -/

section Sorted

variable {α κ : Type} [LinearOrder κ] {r : α → α → Prop} [DecidableRel r] {key : α → κ}

variable {l : List α}

theorem head?_insertionSort (hr : ∀ a ∈ l, ∀ b ∈ l, r a b ↔ key a ≤ key b) :
    (l.insertionSort r).head? = l.find? fun a => decide (∀ b ∈ l, key a ≤ key b) := by
  induction l with
  | nil => rfl
  | cons a l ih =>
    have ih := ih fun x hx y hy => hr x (mem_cons_of_mem a hx) y (mem_cons_of_mem a hy)
    rw [insertionSort_cons]
    cases hsorted : l.insertionSort r with
    | nil =>
      obtain rfl : l = [] := perm_nil.mp (hsorted ▸ (perm_insertionSort r l).symm)
      simp
    | cons m t =>
      rw [hsorted, List.head?_cons] at ih
      have hmem : m ∈ l := mem_of_find?_eq_some ih.symm
      have hleast : ∀ b ∈ l, key m ≤ key b := by simpa using List.find?_some ih.symm
      have hrel := hr a mem_cons_self m (mem_cons_of_mem a hmem)
      rw [orderedInsert_cons]
      by_cases hle : key a ≤ key m
      · have hfirst : ∀ b ∈ a :: l, key a ≤ key b := by
          intro b hb
          rcases mem_cons.mp hb with rfl | hb
          · exact le_refl _
          · exact hle.trans (hleast b hb)
        rw [if_pos (hrel.mpr hle), List.find?_cons_of_pos (by simpa using hfirst), List.head?_cons]
      · -- the new candidate is behind the head, so it decides nothing
        have hnot : ¬ ∀ b ∈ a :: l, key a ≤ key b := fun h =>
          hle (h m (mem_cons_of_mem a hmem))
        rw [if_neg fun h => hle (hrel.mp h), List.head?_cons, ih,
          List.find?_cons_of_neg (by simpa using hnot)]
        refine List.find?_congr fun x hx => decide_eq_decide.mpr ?_
        rw [forall_mem_cons]
        constructor
        · exact fun h => ⟨(h m hmem).trans (le_of_not_ge hle), h⟩
        · exact fun h => h.2

theorem least_of_head?_insertionSort {a : α} (hr : ∀ a ∈ l, ∀ b ∈ l, r a b ↔ key a ≤ key b)
    (ha : (l.insertionSort r).head? = some a) : a ∈ l ∧ ∀ b ∈ l, key a ≤ key b := by
  rw [head?_insertionSort hr] at ha
  exact ⟨mem_of_find?_eq_some ha, by simpa using List.find?_some ha⟩

/-- The head is taken from the front part if no one behind it is better. -/
theorem head?_insertionSort_append {l' : List α}
    (hr : ∀ a ∈ l ++ l', ∀ b ∈ l ++ l', r a b ↔ key a ≤ key b) (hne : l ≠ [])
    (hfront : ∀ b ∈ l', ∃ a ∈ l, key a ≤ key b) :
    ∃ a ∈ l, ((l ++ l').insertionSort r).head? = some a := by
  obtain ⟨a, ha, hleast⟩ : ∃ a ∈ l, ∀ b ∈ l ++ l', key a ≤ key b := by
    obtain ⟨x, hx⟩ := exists_mem_of_ne_nil l hne
    obtain ⟨a, ha⟩ := exists_isBest (m := fun _ => true) (fun y => OrderDual.toDual (key y)) hx rfl
    refine ⟨a, ha.mem, fun b hb => ?_⟩
    rcases mem_append.mp hb with hb | hb
    · exact ha.greatest b hb rfl
    · obtain ⟨c, hc, hle⟩ := hfront b hb
      exact le_trans (ha.greatest c hc rfl) hle
  rw [head?_insertionSort hr, List.find?_append]
  obtain ⟨c, hc⟩ := Option.isSome_iff_exists.mp (List.find?_isSome.mpr ⟨a, ha,
    decide_eq_true hleast⟩ : (l.find? fun a => decide (∀ b ∈ l ++ l', key a ≤ key b)).isSome = true)
  exact ⟨c, mem_of_find?_eq_some hc, by rw [hc]; rfl⟩

end Sorted

end Selection

end LunaEdge
