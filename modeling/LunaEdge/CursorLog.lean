import Mathlib.Logic.Function.Basic
import Mathlib.Data.List.Induction

/-!
# Following a log of keys

A source holds a current value for each key and announces changes by
appending the key to a log; a replica holds rows and a cursor `c`, the
number of log entries it has taken in. A value that it is told may be
older or newer than the entry it comes with. What survives every delay
and every repetition is this:

> If `k` has no entry after the cursor, then the row of `k` holds the
> current value of `k`.

It says nothing about a key with an entry still to come, which will
overwrite the row, nor about one the source is in the middle of changing
(`settled` is false there), whose entry is still to be appended.
`UpToDate` is this property; it survives a change at the source (`write`),
an append (`append`) and the replica taking in its next entry (`next`),
and at the end of the log it is convergence (`complete`).

Entries are numbered from 1, so the entry with number `c + 1` is at
position `c` and the entries after a cursor `c` are `log.drop c`.
-/

namespace LunaEdge

open List

namespace CursorLog

variable {κ ν : Type}

/-! ## The property -/

/-- Every settled key of the log without an entry after `c` has its
current value in its row. -/
def UpToDate (log : List κ) (settled : κ → Prop) (current rows : κ → ν) (c : Nat) :
    Prop :=
  ∀ k ∈ log, settled k → k ∉ log.drop c → rows k = current k

/-- A message that entry number `n` says `k` has value `v`: the entry is
there, and the value is the current one unless a later entry corrects it. -/
def Announces (log : List κ) (settled : κ → Prop) (current : κ → ν)
    (n : Nat) (k : κ) (v : ν) : Prop :=
  0 < n ∧ log[n - 1]? = some k ∧ (settled k → k ∉ log.drop n → v = current k)

section Steps

variable {log : List κ} {settled settled' : κ → Prop} {current current' : κ → ν}
variable {rows rows' : κ → ν} {c n : Nat} {k : κ} {v : ν}

theorem UpToDate.nil : UpToDate ([] : List κ) settled current rows c := by
  intro k hk
  cases hk

theorem mem_drop_iff_of_ne {k' : κ} (h : log[c]? = some k) (hne : k' ≠ k) :
    k' ∈ log.drop c ↔ k' ∈ log.drop (c + 1) := by
  have hlt : c < log.length := (List.getElem?_eq_some_iff.mp h).1
  have hget : log[c] = k := (List.getElem?_eq_some_iff.mp h).2
  rw [drop_eq_getElem_cons hlt, mem_cons, hget]
  simp [hne]

section

variable (h : UpToDate log settled current rows c)

include h

theorem UpToDate.next (hk : log[c]? = some k)
    (hv : settled k → k ∉ log.drop (c + 1) → rows' k = current k)
    (hframe : ∀ k' ≠ k, rows' k' = rows k') : UpToDate log settled current rows' (c + 1) := by
  intro k' hmem hset hdrop
  by_cases hkk : k' = k
  · subst hkk
    exact hv hset hdrop
  · rw [hframe k' hkk]
    exact h k' hmem hset fun hin => hdrop ((mem_drop_iff_of_ne hk hkk).mp hin)

/-- An entry for `k` is appended; `k` may settle with it. -/
theorem UpToDate.append (hc : c ≤ log.length) (hset : ∀ k' ≠ k, settled' k' → settled k') :
    UpToDate (log ++ [k]) settled' current rows c := by
  intro k' hmem hs hdrop
  rw [drop_append_of_le_length hc, mem_append, not_or] at hdrop
  have hne : k' ≠ k := fun heq => hdrop.2 (by simp [heq])
  have hmem' : k' ∈ log := by simpa [hne] using hmem
  exact h k' hmem' (hset k' hne hs) hdrop.1

/-- The source changes keys that are not settled afterwards. -/
theorem UpToDate.write (hw : ∀ k ∈ log, settled' k → settled k ∧ current' k = current k) :
    UpToDate log settled' current' rows c := by
  intro k hmem hs hdrop
  obtain ⟨hs', hcur⟩ := hw k hmem hs
  rw [hcur]
  exact h k hmem hs' hdrop

theorem UpToDate.complete (hc : log.length ≤ c) (hk : k ∈ log) (hs : settled k) :
    rows k = current k :=
  h k hk hs (by simp [drop_eq_nil_of_le hc])

end

theorem Announces.le_length (h : Announces log settled current n k v) : n ≤ log.length := by
  obtain ⟨hpos, hget, -⟩ := h
  have := (List.getElem?_eq_some_iff.mp hget).1
  omega

theorem Announces.append {k' : κ} (h : Announces log settled current n k v)
    (hset : ∀ j ≠ k', settled' j → settled j) :
    Announces (log ++ [k']) settled' current n k v := by
  have hn := h.le_length
  obtain ⟨hpos, hget, hv⟩ := h
  refine ⟨hpos, ?_, fun hs hdrop => ?_⟩
  · rw [List.getElem?_append_left (by omega), hget]
  · rw [drop_append_of_le_length hn, mem_append, not_or] at hdrop
    have hne : k ≠ k' := fun heq => hdrop.2 (by simp [heq])
    exact hv (hset k hne hs) hdrop.1

theorem Announces.write (h : Announces log settled current n k v)
    (hw : ∀ k ∈ log, settled' k → settled k ∧ current' k = current k) :
    Announces log settled' current' n k v := by
  obtain ⟨hpos, hget, hv⟩ := h
  refine ⟨hpos, hget, fun hs hdrop => ?_⟩
  obtain ⟨hs', hcur⟩ := hw k (mem_of_getElem? hget) hs
  rw [hcur]
  exact hv hs' hdrop

theorem Announces.last (hv : settled k → v = current k) :
    Announces (log ++ [k]) settled current (log.length + 1) k v :=
  ⟨by omega, by simp, fun hs _ => hv hs⟩

theorem UpToDate.announced (h : UpToDate log settled current rows c)
    (ha : Announces log settled current (c + 1) k v)
    (hself : rows' k = v) (hframe : ∀ k' ≠ k, rows' k' = rows k') :
    UpToDate log settled current rows' (c + 1) := by
  obtain ⟨-, hget, hv⟩ := ha
  exact h.next hget (fun hs hdrop => hself.trans (hv hs hdrop)) hframe

end Steps

/-! ## Batches

A replica may also ask for everything after its cursor at once. The
source then walks the entries, looks up the value each key has by then
and packs the values into batches; a batch is a list of cells and the
number of the last entry walked. -/

section Batches

variable [DecidableEq κ]

def overlay (rows : κ → ν) (cells : List (κ × ν)) : κ → ν :=
  cells.foldl (fun rows cell => Function.update rows cell.1 cell.2) rows

@[simp] theorem overlay_nil (rows : κ → ν) : overlay rows [] = rows := rfl

theorem overlay_append (rows : κ → ν) (xs ys : List (κ × ν)) :
    overlay rows (xs ++ ys) = overlay (overlay rows xs) ys := by
  simp [overlay, foldl_append]

theorem overlay_concat (rows : κ → ν) (xs : List (κ × ν)) (cell : κ × ν) :
    overlay rows (xs ++ [cell]) = Function.update (overlay rows xs) cell.1 cell.2 := by
  simp [overlay]

theorem overlay_filter (rows : κ → ν) (cells : List (κ × ν)) (k : κ) :
    overlay rows cells k = overlay rows (cells.filter fun cell => cell.1 = k) k := by
  induction cells using List.reverseRecOn with
  | nil => rfl
  | append_singleton xs cell ih =>
    rw [overlay_concat, filter_append]
    by_cases hk : cell.1 = k
    · simp [hk, overlay_concat]
    · simp [hk, Function.update_of_ne (Ne.symm hk), ih]

variable {k : κ} {rows : κ → ν} {cells : List (κ × ν)} {b : Nat}
  {batches : List (List (κ × ν) × Nat)}

theorem overlay_congr {xs ys : List (κ × ν)}
    (h : xs.filter (fun cell => cell.1 = k) = ys.filter fun cell => cell.1 = k) :
    overlay rows xs k = overlay rows ys k := by
  rw [overlay_filter, h, ← overlay_filter]

theorem overlay_of_not_mem (h : k ∉ cells.map Prod.fst) : overlay rows cells k = rows k := by
  rw [overlay_filter, filter_eq_nil_iff.mpr, overlay_nil]
  intro cell hcell
  simp only [decide_eq_true_eq]
  exact fun hk => h (hk ▸ mem_map_of_mem hcell)

theorem overlay_of_mem {rows' : κ → ν} (h : k ∈ cells.map Prod.fst) :
    overlay rows cells k = overlay rows' cells k := by
  induction cells using List.reverseRecOn with
  | nil => cases h
  | append_singleton xs cell ih =>
    rw [overlay_concat, overlay_concat]
    by_cases hk : k = cell.1
    · rw [hk, Function.update_self, Function.update_self]
    · rw [Function.update_of_ne hk, Function.update_of_ne hk]
      refine ih ?_
      rw [map_append, mem_append] at h
      exact h.resolve_right fun hc => hk (by simpa using hc)

theorem overlay_map {μ : Type} (f : ν → μ) (rows : κ → ν) (cells : List (κ × ν)) (k : κ) :
    overlay (fun j => f (rows j)) (cells.map fun cell => (cell.1, f cell.2)) k
      = f (overlay rows cells k) := by
  induction cells using List.reverseRecOn with
  | nil => rfl
  | append_singleton xs cell ih =>
    rw [map_append, map_singleton, overlay_concat, overlay_concat]
    by_cases hk : k = cell.1
    · rw [hk, Function.update_self, Function.update_self]
    · rw [Function.update_of_ne hk, Function.update_of_ne hk, ih]

variable {log : List κ} {settled settled' : κ → Prop} {current current' : κ → ν}

/-- The batches under way to a replica with these rows and a cursor of
at least `b`, and last the batch still being packed: taken in one after
the other, each leaves the replica up to date at its number. -/
def Pipeline (log : List κ) (settled : κ → Prop) (current : κ → ν) :
    Nat → (κ → ν) → List (List (κ × ν) × Nat) → List (κ × ν) × Nat → Prop
  | b, rows, [], last =>
    b ≤ last.2 ∧ last.2 ≤ log.length ∧ UpToDate log settled current (overlay rows last.1) last.2
  | b, rows, batch :: batches, last =>
    b ≤ batch.2 ∧ batch.2 ≤ log.length ∧ UpToDate log settled current (overlay rows batch.1) batch.2
      ∧ Pipeline log settled current batch.2 (overlay rows batch.1) batches last

theorem Pipeline.append {last : List (κ × ν) × Nat}
    (h : Pipeline log settled current b rows batches last) (hset : ∀ j ≠ k, settled' j → settled j) :
    Pipeline (log ++ [k]) settled' current b rows batches last := by
  induction batches generalizing b rows with
  | nil =>
    obtain ⟨hb, hlen, hup⟩ := h
    exact ⟨hb, by simp; omega, hup.append hlen hset⟩
  | cons batch batches ih =>
    obtain ⟨hb, hlen, hup, hrest⟩ := h
    exact ⟨hb, by simp; omega, hup.append hlen hset, ih hrest⟩

theorem Pipeline.write {last : List (κ × ν) × Nat}
    (h : Pipeline log settled current b rows batches last)
    (hw : ∀ k ∈ log, settled' k → settled k ∧ current' k = current k) :
    Pipeline log settled' current' b rows batches last := by
  induction batches generalizing b rows with
  | nil => exact ⟨h.1, h.2.1, h.2.2.write hw⟩
  | cons batch batches ih => exact ⟨h.1, h.2.1, h.2.2.1.write hw, ih h.2.2.2⟩

theorem Pipeline.mono {b' : Nat} {last : List (κ × ν) × Nat}
    (h : Pipeline log settled current b rows batches last) (hb : b' ≤ b) :
    Pipeline log settled current b' rows batches last := by
  cases batches with
  | nil => exact ⟨Nat.le_trans hb h.1, h.2⟩
  | cons batch batches => exact ⟨Nat.le_trans hb h.1, h.2⟩

/-- The source looks up the next entry's key and packs what it finds. -/
theorem Pipeline.look {cells' : List (κ × ν)} {n : Nat}
    (h : Pipeline log settled current b rows batches (cells, n)) (hk : log[n]? = some k)
    (hself : settled k → ∀ rows, overlay rows cells' k = current k)
    (hframe : ∀ rows, ∀ j ≠ k, overlay rows cells' j = overlay rows cells j) :
    Pipeline log settled current b rows batches (cells', n + 1) := by
  induction batches generalizing b rows with
  | nil =>
    obtain ⟨hb, -, hup⟩ := h
    have hlt : n < log.length := (List.getElem?_eq_some_iff.mp hk).1
    have hup' : UpToDate log settled current (overlay rows cells') (n + 1) :=
      hup.next hk (fun hs _ => hself hs rows) (hframe rows)
    exact ⟨by simp only at hb ⊢; omega, hlt, hup'⟩
  | cons batch batches ih =>
    exact ⟨h.1, h.2.1, h.2.2.1, ih h.2.2.2⟩

theorem Pipeline.send {last : List (κ × ν) × Nat}
    (h : Pipeline log settled current b rows batches last) :
    Pipeline log settled current b rows (batches ++ [last]) ([], last.2) := by
  induction batches generalizing b rows with
  | nil =>
    obtain ⟨hb, hlen, hup⟩ := h
    exact ⟨hb, hlen, hup, Nat.le_refl _, hlen, hup⟩
  | cons batch batches ih =>
    exact ⟨h.1, h.2.1, h.2.2.1, ih h.2.2.2⟩

end Batches

end CursorLog

end LunaEdge
