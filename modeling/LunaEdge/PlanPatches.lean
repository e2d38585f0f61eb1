import LunaEdge.LnctlBuilder

/-!
# Differences as patches

The comparisons of the plan builder fill two maps, range over both and sort
the changes by the ids of their rows. What comes out is a patch of the map
of the current rows: applied to it, it gives the map of the wanted ones, it
has one change at most for an id and none where the maps agree
(`patches_diffRows`).

Go ranges over a map in any order, and `sort.Slice` may put equal elements
in any order. No two changes have one id, so the result is the same.
-/

namespace LunaEdge

open List

namespace Lnctl

variable {ρ : Type} [Keyed ρ String]

def applyChange (m : GoMap String ρ) (change : PlanChange ρ) : GoMap String ρ :=
  match change.action with
  | .create | .update => change.desired.elim m fun row => m.set (Keyed.key row) row
  | .delete => change.current.elim m fun row => m.delete (Keyed.key row)
  | .other _ _ => m

variable [DecidableEq ρ]

/-- The changes before they are sorted, if the loops range over the maps in
the orders `wanted` and `held`. -/
def rangedChanges (current desired wanted held : List ρ) : List (PlanChange ρ) :=
  wanted.filterMap (wantedChange (byID current))
    ++ (held.filter fun item => ((byID desired).get? (Keyed.key item)).isNone).map
      fun item => { action := .delete, current := some item }

/-- The changes lead from the map of the current rows to the map of the
wanted ones. -/
structure Patches (current desired : List ρ) (changes : List (PlanChange ρ)) : Prop where
  applied : ∀ id, (changes.foldl applyChange (byID current)).get? id = (byID desired).get? id
  sorted : changes.Pairwise fun x y => changeID x < changeID y
  differs : ∀ change ∈ changes,
    (byID current).get? (changeID change) ≠ (byID desired).get? (changeID change)
  determined : ∀ wanted held out, wanted.Perm (byID desired).values →
    held.Perm (byID current).values → out.Perm (rangedChanges current desired wanted held) →
    out.Pairwise (fun x y => changeID x ≤ changeID y) → out = changes

variable {current desired wanted held rows : List ρ} {m : GoMap String ρ} {item : ρ}
  {change : PlanChange ρ} {changes : List (PlanChange ρ)} {id : String}

/-! ## One change -/

theorem of_wantedChange (h : wantedChange m item = some change) :
    changeID change = Keyed.key item ∧ change.desired = some item
      ∧ ∀ m', applyChange m' change = m'.set (Keyed.key item) item := by
  unfold wantedChange at h
  split at h
  · obtain rfl := Option.some.inj h
    exact ⟨rfl, rfl, fun _ => rfl⟩
  · split at h
    · cases h
    · obtain rfl := Option.some.inj h
      exact ⟨rfl, rfl, fun _ => rfl⟩

/-- A change writes the wanted row of its id, or removes it if there is none;
the current row is another one. -/
theorem of_mem_diffRows (h : change ∈ diffRows current desired) :
    change.desired = (byID desired).get? (changeID change)
      ∧ (byID current).get? (changeID change) ≠ (byID desired).get? (changeID change)
      ∧ ∀ id m, (applyChange m change).get? id
        = if changeID change = id then change.desired else m.get? id := by
  rcases mem_diffRows.mp h with ⟨item, hitem, hwanted⟩ | ⟨item, hitem, hgone, rfl⟩
  · obtain ⟨hid, hdesired, happly⟩ := of_wantedChange hwanted
    rw [hid, hdesired, hitem]
    refine ⟨rfl, fun heq => ?_, fun id m => by rw [happly, GoMap.get?_set]⟩
    rw [wantedChange_eq_none_iff.mpr heq] at hwanted
    cases hwanted
  · refine ⟨hgone.symm, ?_, fun _ m => GoMap.get?_delete m _ _⟩
    show (byID current).get? (Keyed.key item) ≠ (byID desired).get? (Keyed.key item)
    rw [hitem, hgone]
    exact Option.some_ne_none item

theorem exists_change (h : (byID current).get? id ≠ (byID desired).get? id) :
    ∃ change ∈ diffRows current desired, changeID change = id := by
  cases hitem : (byID desired).get? id with
  | some item =>
    obtain ⟨-, rfl⟩ := key_of_get?_byID hitem
    obtain ⟨change, hwanted⟩ := wantedChange_isSome (hitem ▸ h)
    exact ⟨change, mem_diffRows.mpr (Or.inl ⟨item, hitem, hwanted⟩), (of_wantedChange hwanted).1⟩
  | none =>
    obtain ⟨item, hcurrent⟩ := Option.ne_none_iff_exists'.mp (hitem ▸ h)
    obtain ⟨-, rfl⟩ := key_of_get?_byID hcurrent
    exact ⟨_, mem_diffRows.mpr (Or.inr ⟨item, hcurrent, hitem, rfl⟩), rfl⟩

/-! ## The ids of the changes -/

omit [DecidableEq ρ] in
theorem nodup_keys_values (rows : List ρ) : ((byID rows).values.map Keyed.key).Nodup := by
  have hkeys : (byID rows).values.map Keyed.key = (byID rows).rows.map Prod.fst := by
    rw [GoMap.values, map_map]
    exact map_congr_left fun r hr => (key_of_get?_byID (GoMap.get?_eq_some_iff.mpr hr)).2
  rw [hkeys]
  exact (byID rows).nodup

theorem changeIDs_sublist (m : GoMap String ρ) (rows : List ρ) :
    ((rows.filterMap (wantedChange m)).map changeID).Sublist (rows.map Keyed.key) := by
  induction rows with
  | nil => exact .slnil
  | cons item rows ih =>
    rw [map_cons, filterMap_cons]
    cases hchange : wantedChange m item with
    | none => exact ih.cons _
    | some change =>
      rw [map_cons, (of_wantedChange hchange).1]
      exact ih.cons_cons _

theorem nodup_changeIDs (hwanted : wanted.Perm (byID desired).values)
    (hheld : held.Perm (byID current).values) :
    ((rangedChanges current desired wanted held).map changeID).Nodup := by
  have hkeys := (hwanted.map Keyed.key).nodup_iff.mpr (nodup_keys_values desired)
  have hheldKeys := (hheld.map Keyed.key).nodup_iff.mpr (nodup_keys_values current)
  rw [rangedChanges, map_append, map_map, nodup_append]
  refine ⟨hkeys.sublist (changeIDs_sublist _ _), hheldKeys.sublist (filter_sublist.map _), ?_⟩
  -- an id is wanted or removed
  rintro id hid _ hgone rfl
  obtain ⟨item, hitem, rfl⟩ := mem_map.mp ((changeIDs_sublist _ _).subset hid)
  obtain ⟨other, hother, heq⟩ := mem_map.mp hgone
  have hnone := (mem_filter.mp hother).2
  rw [show Keyed.key other = Keyed.key item from heq,
    mem_values_byID.mp (hwanted.mem_iff.mp hitem)] at hnone
  cases hnone

theorem pairwise_lt (hwanted : wanted.Perm (byID desired).values)
    (hheld : held.Perm (byID current).values)
    (hperm : changes.Perm (rangedChanges current desired wanted held))
    (hsorted : changes.Pairwise fun x y => changeID x ≤ changeID y) :
    changes.Pairwise fun x y => changeID x < changeID y := by
  have hnodup := (hperm.map changeID).nodup_iff.mpr (nodup_changeIDs hwanted hheld)
  exact (hsorted.and (pairwise_map.mp hnodup)).imp fun h => Std.lt_of_le_of_ne h.1 h.2

theorem pairwise_diffRows (current desired : List ρ) :
    (diffRows current desired).Pairwise fun x y => changeID x < changeID y :=
  pairwise_lt (.refl _) (.refl _) (perm_insertionSort _ _)
    (pairwise_insertionSort (Order.Preimage changeID (· ≤ ·)) _)

/-! ## The patch -/

omit [DecidableEq ρ] in
theorem get?_applyChanges {row : Option ρ}
    (happly : ∀ change ∈ changes, ∀ m, (applyChange m change).get? id
      = if changeID change = id then row else m.get? id)
    (hnone : (∀ change ∈ changes, changeID change ≠ id) → m.get? id = row) :
    (changes.foldl applyChange m).get? id = row := by
  induction changes generalizing m with
  | nil => exact hnone fun _ h => absurd h not_mem_nil
  | cons change changes ih =>
    refine ih (fun c hc => happly c (mem_cons_of_mem _ hc)) fun hrest => ?_
    rw [happly change mem_cons_self]
    split
    · rfl
    · rename_i hne
      exact hnone (forall_mem_cons.mpr ⟨hne, hrest⟩)

theorem patches_diffRows (current desired : List ρ) :
    Patches current desired (diffRows current desired) where
  applied id := by
    refine get?_applyChanges (fun change hchange m => ?_) fun hnone => ?_
    · obtain ⟨hdesired, -, happly⟩ := of_mem_diffRows hchange
      rw [happly]
      refine ite_congr rfl (fun hid => ?_) fun _ => rfl
      rw [hdesired, hid]
    · by_contra hne
      obtain ⟨change, hchange, hid⟩ := exists_change hne
      exact hnone change hchange hid
  sorted := pairwise_diffRows current desired
  differs _ hchange := (of_mem_diffRows hchange).2.1
  determined wanted held out hwanted hheld hout hsorted := by
    have hperm : out.Perm (diffRows current desired) := by
      refine hout.trans (.trans ?_ (perm_insertionSort _ _).symm)
      exact (hwanted.filterMap _).append ((hheld.filter _).map _)
    exact hperm.eq_of_pairwise (fun _ _ _ _ hxy hyx => absurd hyx (String.lt_asymm hxy))
      (pairwise_lt hwanted hheld hout hsorted) (pairwise_diffRows current desired)

/-- The three comparisons give patches. So does a comparison of other rows,
such as those with the times that `reflect.DeepEqual` compares too. -/
theorem diffs_patch :
    (∀ current desired, Patches current desired (diffHTTPRoutes current desired))
      ∧ (∀ current desired, Patches current desired (diffServiceBackendRefs current desired))
      ∧ (∀ current desired, Patches current desired (diffDNSRecords current desired))
      ∧ ∀ (ρ : Type) [Keyed ρ String] [DecidableEq ρ] (current desired : List ρ),
        Patches current desired (diffRows current desired) :=
  ⟨patches_diffRows, patches_diffRows, patches_diffRows, fun _ => patches_diffRows⟩

end Lnctl

end LunaEdge
