import Mathlib.Data.List.TakeWhile

/-!
# Buffered reading

A reader with a buffer of fixed capacity in front of a connection whose
bytes arrive in segments, each at its time, after `bufio.Reader`. A read of
the connection delivers as much of the next segment as there is room for;
with a deadline set it does not wait for a segment that comes later.

`pending` is everything that can still be read, buffered or not, and
`available` what of it can be read before the deadline. Peeking moves bytes
from the connection into the buffer and changes neither (`kept_peek`); it
succeeds on what is available and fits the buffer, however the bytes are
cut (`peek_eq`). Without a deadline reads of any sizes deliver `pending` in
order (`reads_eq_pending`).
-/

namespace LunaEdge

open List

namespace BufReader

variable {α : Type}

/-! ## The connection -/

/-- Bytes that can be read together, from a time on. -/
structure Segment (α : Type) where
  time : Nat
  data : List α

inductive ReadError where
  | eof
  /-- `i/o timeout` -/
  | timeout
deriving Repr, DecidableEq

def Segment.inTime (deadline : Option Nat) (segment : Segment α) : Bool :=
  deadline.all (segment.time < ·)

def contents (segments : List (Segment α)) : List α := segments.flatMap Segment.data

/-- One read of the connection. Behind the last segment the connection is
closed; a peer that is silent is one whose next segment is late. -/
def receive (deadline : Option Nat) (room : Nat) :
    List (Segment α) → Except ReadError (List α × List (Segment α))
  | [] => .error .eof
  | segment :: segments =>
    if segment.inTime deadline then
      .ok (segment.data.take room,
        if segment.data.length ≤ room then segments
        else { segment with data := segment.data.drop room } :: segments)
    else .error .timeout

/-- What can be read before the deadline, -/
def timely (deadline : Option Nat) (segments : List (Segment α)) : List α :=
  contents (segments.takeWhile (Segment.inTime deadline))

/-- and what is left then. -/
def overdue (deadline : Option Nat) (segments : List (Segment α)) : List (Segment α) :=
  segments.dropWhile (Segment.inTime deadline)

def ending : List (Segment α) → ReadError
  | [] => .eof
  | _ :: _ => .timeout

theorem contents_eq (deadline : Option Nat) (segments : List (Segment α)) :
    contents segments = timely deadline segments ++ contents (overdue deadline segments) := by
  rw [timely, overdue, contents, contents, contents, ← flatMap_append, takeWhile_append_dropWhile]

theorem timely_none (segments : List (Segment α)) : timely none segments = contents segments := by
  have hall : segments.takeWhile (Segment.inTime none) = segments :=
    takeWhile_eq_self_iff.mpr fun _ _ => rfl
  rw [timely, hall]

section Receive

variable {deadline : Option Nat} {room : Nat} {segments segments' : List (Segment α)}
  {data : List α}

theorem receive_eq_error {err : ReadError} (h : receive deadline room segments = .error err) :
    timely deadline segments = [] ∧ err = ending (overdue deadline segments) := by
  cases segments with
  | nil =>
    cases h
    exact ⟨rfl, rfl⟩
  | cons segment segments =>
    rw [receive] at h
    split at h
    · cases h
    · rename_i hlate
      cases h
      rw [timely, overdue, takeWhile_cons_of_neg hlate, dropWhile_cons_of_neg hlate]
      exact ⟨rfl, rfl⟩

section

variable (h : receive deadline room segments = .ok (data, segments'))

include h

theorem receive_eq_ok :
    ∃ segment rest, segments = segment :: rest ∧ segment.inTime deadline
      ∧ data = segment.data.take room
      ∧ segments' = if segment.data.length ≤ room then rest
        else { segment with data := segment.data.drop room } :: rest := by
  cases segments with
  | nil => cases h
  | cons segment rest =>
    rw [receive] at h
    split at h
    · cases h
      exact ⟨segment, rest, rfl, ‹_›, rfl, rfl⟩
    · cases h

theorem receive_kept :
    data ++ timely deadline segments' = timely deadline segments
      ∧ overdue deadline segments' = overdue deadline segments := by
  obtain ⟨segment, rest, rfl, htime, rfl, rfl⟩ := receive_eq_ok h
  rw [timely, timely, overdue, overdue, takeWhile_cons_of_pos htime, dropWhile_cons_of_pos htime]
  by_cases hroom : segment.data.length ≤ room
  · rw [if_pos hroom, take_of_length_le hroom]
    exact ⟨rfl, rfl⟩
  · have htime' : Segment.inTime deadline { segment with data := segment.data.drop room } := htime
    rw [if_neg hroom, takeWhile_cons_of_pos htime', dropWhile_cons_of_pos htime']
    refine ⟨?_, rfl⟩
    rw [contents, contents, flatMap_cons, flatMap_cons, ← append_assoc, take_append_drop]

theorem receive_length : data.length ≤ room := by
  obtain ⟨segment, rest, rfl, -, rfl, -⟩ := receive_eq_ok h
  exact length_take_le room segment.data

theorem receive_segments (hne : ∀ s ∈ segments, s.data ≠ []) : ∀ s ∈ segments', s.data ≠ [] := by
  obtain ⟨segment, rest, rfl, -, -, rfl⟩ := receive_eq_ok h
  rw [forall_mem_cons] at hne
  split
  · exact hne.2
  · rename_i hroom
    rw [forall_mem_cons]
    exact ⟨fun hnil => hroom (drop_eq_nil_iff.mp hnil), hne.2⟩

theorem receive_ne_nil (hne : ∀ s ∈ segments, s.data ≠ []) (hroom : 0 < room) : data ≠ [] := by
  obtain ⟨segment, rest, rfl, -, rfl, -⟩ := receive_eq_ok h
  intro hnil
  rcases take_eq_nil_iff.mp hnil with hzero | hempty
  · omega
  · exact hne segment mem_cons_self hempty

end

end Receive

/-! ## The reader -/

/-- No segment is empty: a read of the connection delivers something. -/
structure Reader (α : Type) where
  capacity : Nat
  buffered : List α
  segments : List (Segment α)
  deadline : Option Nat := none
  /-- an error of the connection that no call has returned yet -/
  err : Option ReadError := none
  fits : buffered.length ≤ capacity
  segments_ne : ∀ s ∈ segments, s.data ≠ []

inductive PeekError where
  /-- `bufio: buffer full` -/
  | bufferFull
  | connection (err : ReadError)
deriving Repr, DecidableEq

namespace Reader

variable {r r' : Reader α}

def pending (r : Reader α) : List α := r.buffered ++ contents r.segments

def available (r : Reader α) : List α := r.buffered ++ timely r.deadline r.segments

def late (r : Reader α) : List (Segment α) := overdue r.deadline r.segments

theorem pending_eq (r : Reader α) : r.pending = r.available ++ contents r.late := by
  rw [pending, available, late, append_assoc, ← contents_eq]

theorem fits_receive (r : Reader α) {data : List α} {segments : List (Segment α)}
    (h : receive r.deadline (r.capacity - r.buffered.length) r.segments = .ok (data, segments)) :
    (r.buffered ++ data).length ≤ r.capacity := by
  have hdata := receive_length h
  have hfits := r.fits
  rw [length_append]
  omega

def fill (r : Reader α) : Except ReadError (Reader α) :=
  match h : receive r.deadline (r.capacity - r.buffered.length) r.segments with
  | .error err => .error err
  | .ok (data, segments) => .ok
    { r with
      buffered := r.buffered ++ data
      segments := segments
      fits := r.fits_receive h
      segments_ne := receive_segments h r.segments_ne }

theorem fill_eq_ok (h : r.fill = .ok r') :
    ∃ data, receive r.deadline (r.capacity - r.buffered.length) r.segments
        = .ok (data, r'.segments)
      ∧ r'.buffered = r.buffered ++ data ∧ r'.capacity = r.capacity
      ∧ r'.deadline = r.deadline ∧ r'.err = r.err := by
  unfold fill at h
  split at h
  · cases h
  · rename_i data segments hreceive
    cases h
    exact ⟨data, hreceive, rfl, rfl, rfl, rfl⟩

theorem fill_eq_error {err : ReadError} (h : r.fill = .error err) :
    r.available = r.buffered ∧ err = ending r.late := by
  unfold fill at h
  split at h
  · rename_i hreceive
    cases h
    obtain ⟨htimely, herr⟩ := receive_eq_error hreceive
    rw [available, htimely, append_nil]
    exact ⟨rfl, herr⟩
  · cases h

theorem fill_shorter (h : r.fill = .ok r') (hroom : r.buffered.length < r.capacity) :
    (timely r'.deadline r'.segments).length < (timely r.deadline r.segments).length := by
  obtain ⟨data, hreceive, -, -, hdeadline, -⟩ := fill_eq_ok h
  have hdata := receive_ne_nil hreceive r.segments_ne (by omega)
  have hpos := length_pos_iff.mpr hdata
  rw [hdeadline, ← (receive_kept hreceive).1, length_append]
  omega

/-- The same bytes are to come, as early and through a buffer of the same
size. -/
structure Kept (r r' : Reader α) : Prop where
  available : r'.available = r.available
  late : r'.late = r.late
  capacity : r'.capacity = r.capacity

theorem Kept.pending (h : Kept r r') : r'.pending = r.pending := by
  rw [pending_eq, pending_eq, h.available, h.late]

theorem Kept.trans {r'' : Reader α} (h : Kept r r') (h' : Kept r' r'') : Kept r r'' :=
  ⟨h'.available.trans h.available, h'.late.trans h.late, h'.capacity.trans h.capacity⟩

theorem kept_fill (h : r.fill = .ok r') : Kept r r' := by
  obtain ⟨data, hreceive, hbuffered, hcapacity, hdeadline, -⟩ := fill_eq_ok h
  obtain ⟨htimely, hlate⟩ := receive_kept hreceive
  refine ⟨?_, ?_, hcapacity⟩
  · rw [Reader.available, hbuffered, hdeadline, append_assoc, htimely, Reader.available]
  · rw [Reader.late, hdeadline, hlate, Reader.late]

/-! ## Peeking -/

/-- The loop of `Peek`: read until `n` bytes are buffered, the buffer is
full, or a read fails. -/
def fillTo (n : Nat) (r : Reader α) : Reader α :=
  if _hroom : r.buffered.length < n ∧ r.buffered.length < r.capacity ∧ r.err = none then
    match _h : r.fill with
    | .error err => { r with err := some err }
    | .ok r' => fillTo n r'
  else r
termination_by (timely r.deadline r.segments).length
decreasing_by exact fill_shorter _h _hroom.2.1

/-- A peek beyond the buffer leaves the error of a failed read behind. -/
def peek (r : Reader α) (n : Nat) : Reader α × Except PeekError (List α) :=
  let r := r.fillTo n
  if r.capacity < n then (r, .error .bufferFull)
  else if r.buffered.length < n then
    ({ r with err := none }, .error (r.err.elim .bufferFull .connection))
  else (r, .ok (r.buffered.take n))

theorem kept_fillTo (n : Nat) (r : Reader α) : Kept r (r.fillTo n) := by
  fun_induction fillTo n r with
  | case1 r hroom err h => exact ⟨rfl, rfl, rfl⟩
  | case2 r hroom r' h ih => exact (kept_fill h).trans ih
  | case3 r hroom => exact ⟨rfl, rfl, rfl⟩

/-- The loop ends with enough bytes or a full buffer, or with the error that
stands behind everything available. -/
theorem fillTo_done (n : Nat) (r : Reader α) : r.err = none →
    (r.fillTo n).err = none
        ∧ (n ≤ (r.fillTo n).buffered.length ∨ r.capacity ≤ (r.fillTo n).buffered.length)
      ∨ (r.fillTo n).err = some (ending r.late) ∧ (r.fillTo n).buffered = r.available
        ∧ r.available.length < n := by
  fun_induction fillTo n r with
  | case1 r hroom err h =>
    intro _
    obtain ⟨havailable, rfl⟩ := fill_eq_error h
    exact Or.inr ⟨rfl, havailable.symm, havailable ▸ hroom.1⟩
  | case2 r hroom r' h ih =>
    intro herr
    obtain ⟨_, -, -, hcapacity, -, herr'⟩ := fill_eq_ok h
    have hkept := kept_fill h
    rw [← hkept.late, ← hkept.available, ← hcapacity]
    exact ih (herr'.trans herr)
  | case3 r hroom =>
    intro herr
    simp only [herr, and_true, not_and, Nat.not_lt] at hroom
    exact Or.inl ⟨herr, Nat.lt_or_ge _ n |>.elim (fun h => Or.inr (hroom h)) Or.inl⟩

theorem kept_peek (r : Reader α) (n : Nat) : Kept r (r.peek n).1 := by
  have hkept := kept_fillTo n r
  rw [peek]
  split_ifs
  · exact hkept
  · exact ⟨hkept.available, hkept.late, hkept.capacity⟩
  · exact hkept

theorem err_peek {n : Nat} (herr : r.err = none) (hn : n ≤ r.capacity) :
    (r.peek n).1.err = none := by
  have hfull : ¬ (r.fillTo n).capacity < n := by
    rw [(kept_fillTo n r).capacity]
    omega
  rw [peek, if_neg hfull]
  split
  · rfl
  · rename_i hlen
    rcases fillTo_done n r herr with h | ⟨-, hbuffered, hshort⟩
    · exact h.1
    · rw [hbuffered] at hlen
      exact absurd hshort hlen

/-- What is available and fits the buffer can be peeked at, nothing else. -/
theorem peek_eq (herr : r.err = none) (n : Nat) :
    (r.peek n).2 = if r.capacity < n then .error .bufferFull
      else if r.available.length < n then .error (.connection (ending r.late))
      else .ok (r.available.take n) := by
  have hkept := kept_fillTo n r
  by_cases hfull : r.capacity < n
  · rw [if_pos hfull, peek, if_pos (by rwa [hkept.capacity])]
  · rw [if_neg hfull, peek, if_neg (by rwa [hkept.capacity])]
    rcases fillTo_done n r herr with ⟨-, hdone⟩ | ⟨herr', hbuffered, hshort⟩
    · have hlen : n ≤ (r.fillTo n).buffered.length := by omega
      have havailable : n ≤ r.available.length := by
        rw [← hkept.available, Reader.available, length_append]
        omega
      rw [if_neg (by omega), if_neg (by omega), ← hkept.available, Reader.available,
        take_append_of_le_length hlen]
    · rw [if_pos (by rwa [hbuffered]), if_pos hshort, herr']
      rfl

/-! ## Reading -/

theorem fits_drop (r : Reader α) (n : Nat) : (r.buffered.drop n).length ≤ r.capacity := by
  have hfits := r.fits
  rw [length_drop]
  omega

def consume (r : Reader α) (n : Nat) : List α × Reader α :=
  (r.buffered.take n, { r with buffered := r.buffered.drop n, fits := r.fits_drop n })

/-- `Read` past the buffer, for a request that is not smaller than it. -/
def readDirect (r : Reader α) (n : Nat) : List α × Reader α :=
  match h : receive r.deadline n r.segments with
  | .error _ => ([], r)
  | .ok (data, segments) =>
    (data, { r with segments := segments, segments_ne := receive_segments h r.segments_ne })

/-- `Read` of at most `n` bytes; nothing is delivered with an error. -/
def read (r : Reader α) (n : Nat) : List α × Reader α :=
  if r.buffered ≠ [] then r.consume n
  else if r.err ≠ none then ([], { r with err := none })
  else if r.capacity ≤ n then r.readDirect n
  else
    match r.fill with
    | .error _ => ([], r)
    | .ok r' => r'.consume n

theorem consume_append (r : Reader α) (n : Nat) :
    (r.consume n).1 ++ (r.consume n).2.pending = r.pending := by
  simp only [consume, pending]
  rw [← append_assoc, take_append_drop]

theorem readDirect_append (r : Reader α) (n : Nat) (h : r.buffered = []) :
    (r.readDirect n).1 ++ (r.readDirect n).2.pending = r.pending := by
  unfold readDirect
  split
  · rfl
  · rename_i data segments hreceive
    obtain ⟨htimely, hlate⟩ := receive_kept hreceive
    simp only [pending, h, nil_append]
    rw [contents_eq r.deadline, ← append_assoc, htimely, hlate, ← contents_eq]

theorem read_append (r : Reader α) (n : Nat) :
    (r.read n).1 ++ (r.read n).2.pending = r.pending := by
  rw [read]
  split
  · exact consume_append r n
  · rename_i hempty
    split
    · rfl
    · split
      · exact readDirect_append r n (not_not.mp hempty)
      · split
        · rfl
        · rename_i r' h
          rw [consume_append]
          exact (kept_fill h).pending

/-- Nothing stands in the way of reading: no deadline and no error to
return. -/
structure Ready (r : Reader α) : Prop where
  capacity : 0 < r.capacity
  deadline : r.deadline = none
  err : r.err = none

theorem ready_read (h : r.Ready) (n : Nat) : (r.read n).2.Ready := by
  rw [read]
  split
  · exact ⟨h.capacity, h.deadline, h.err⟩
  · rw [if_neg (not_not.mpr h.err)]
    split
    · unfold readDirect
      split
      · exact h
      · exact ⟨h.capacity, h.deadline, h.err⟩
    · split
      · exact h
      · rename_i r' hfill
        obtain ⟨_, -, -, hcapacity, hdeadline, herr⟩ := fill_eq_ok hfill
        exact ⟨hcapacity ▸ h.capacity, hdeadline.trans h.deadline, herr.trans h.err⟩

theorem read_ne_nil {n : Nat} (hn : 0 < n) (hready : r.Ready) (h : r.pending ≠ []) :
    (r.read n).1 ≠ [] := by
  have htake : ∀ l : List α, l ≠ [] → l.take n ≠ [] := by
    intro l hl hnil
    rcases take_eq_nil_iff.mp hnil with hzero | hempty
    · omega
    · exact hl hempty
  rw [read]
  split
  · rename_i hbuffered
    exact htake _ hbuffered
  · rename_i hempty
    rw [not_not] at hempty
    -- without a deadline everything is in time
    have htimely : timely r.deadline r.segments ≠ [] := by
      rwa [pending, hempty, nil_append, ← timely_none, ← hready.deadline] at h
    rw [if_neg (not_not.mpr hready.err)]
    split
    · unfold readDirect
      split
      · rename_i hreceive
        exact absurd (receive_eq_error hreceive).1 htimely
      · rename_i data segments hreceive
        exact receive_ne_nil hreceive r.segments_ne hn
    · split
      · rename_i hfill
        have havailable := (fill_eq_error hfill).1
        rw [available, hempty, nil_append] at havailable
        exact absurd havailable htimely
      · rename_i r' hfill
        obtain ⟨data, hreceive, hbuffered, -⟩ := fill_eq_ok hfill
        rw [hempty, nil_append] at hbuffered
        refine htake _ (hbuffered ▸ receive_ne_nil hreceive r.segments_ne ?_)
        rw [hempty]
        exact hready.capacity

def reads (r : Reader α) : List Nat → List (List α) × Reader α
  | [] => ([], r)
  | n :: sizes =>
    let (data, r) := r.read n
    let (rest, r) := reads r sizes
    (data :: rest, r)

/-- As many reads as there are bytes deliver all of them. -/
theorem reads_eq_pending (hready : r.Ready) {sizes : List Nat}
    (hsizes : ∀ n ∈ sizes, 0 < n) (hlength : r.pending.length ≤ sizes.length) :
    (r.reads sizes).1.flatten = r.pending := by
  induction sizes generalizing r with
  | nil => exact (length_eq_zero_iff.mp (Nat.le_zero.mp hlength)).symm
  | cons n sizes ih =>
    rw [forall_mem_cons] at hsizes
    have happend := read_append r n
    have hshort : (r.read n).2.pending.length ≤ sizes.length := by
      rw [← happend, length_append, length_cons] at hlength
      by_cases hnil : r.pending = []
      · rw [hnil, append_eq_nil_iff] at happend
        rw [happend.2]
        exact Nat.zero_le _
      · have hpos := length_pos_iff.mpr (read_ne_nil hsizes.1 hready hnil)
        omega
    rw [reads, flatten_cons, ih (ready_read hready n) hsizes.2 hshort, happend]

end Reader

end BufReader

end LunaEdge
