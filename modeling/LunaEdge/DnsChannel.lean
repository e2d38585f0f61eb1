import LunaEdge.DnsStore
import LunaEdge.LocalStore
import LunaEdge.Runs

/-!
# The channel between replication and DNS

Applying a change sends every upserted record on `dnsChan`, inside the
open transaction. The channel has 100 places, and a send on a full channel
waits until `DNSRestoreLoop` takes something off. `Start` starts that loop
only where the slave listens for DNS queries, but a slave that does not
applies the same records.

The apply path is never blocked in a run exactly if the slave has a DNS
engine or the run sends at most 100 records (`unblocked_iff`). Otherwise
the next send waits for ever (`blocked_without_dns`).
-/

namespace LunaEdge

open Runs

/-! ## Channels -/

structure Chan (capacity : Nat) (α : Type) where
  items : List α
  bounded : items.length ≤ capacity

namespace Chan

variable {capacity : Nat} {α : Type}

def make : Chan capacity α := ⟨[], Nat.zero_le _⟩

/-- `none` where the sender has to wait. -/
def send (c : Chan capacity α) (a : α) : Option (Chan capacity α) :=
  if h : c.items.length < capacity then
    some ⟨c.items ++ [a], by rw [List.length_append]; exact h⟩
  else none

/-- `none` where the receiver has to wait. -/
def receive (c : Chan capacity α) : Option (α × Chan capacity α) :=
  match c with
  | ⟨[], _⟩ => none
  | ⟨a :: rest, h⟩ => some (a, ⟨rest, Nat.le_of_succ_le h⟩)

theorem length_of_send {c c' : Chan capacity α} {a : α} (h : c.send a = some c') :
    c'.items.length = c.items.length + 1 := by
  unfold send at h
  split at h
  · cases h
    simp
  · cases h

theorem send_eq_none_iff {c : Chan capacity α} {a : α} :
    c.send a = none ↔ c.items.length = capacity := by
  have hbounded := c.bounded
  unfold send
  split
  · simp
    omega
  · simp
    omega

theorem length_of_receive {c c' : Chan capacity α} {a : α} (h : c.receive = some (a, c')) :
    c.items.length = c'.items.length + 1 := by
  rcases c with ⟨_ | ⟨b, rest⟩, hbounded⟩
  · cases h
  · cases h
    rfl

end Chan

/-! ## The engine -/

/-- A call of the database, with the faults of its statements. -/
inductive EngineCall where
  | snapshot (chunk : Snapshot) (faults : List Bool)
  | changelog (notice : ChangeNotification) (faults : List Bool)

def EngineCall.run (db : LocalDB) : EngineCall → Applied
  | .snapshot chunk faults => db.applySnapshot chunk faults
  | .changelog notice faults => db.applyChangelog notice faults

/-- A call in its transaction: what it still has to send, and its result. -/
structure Applying where
  sends : List DNSRecord
  result : Applied

/-- `DNSRestoreLoop`, if `Start` has started it. -/
inductive RestoreLoop where
  | absent
  | waiting
  | restoring (items : List DNSRecord)
deriving DecidableEq

structure SlaveEngine where
  db : LocalDB
  dnsChan : Chan 100 (List DNSRecord) := .make
  dns : DNS.Engine := .new
  loop : RestoreLoop
  applying : Option Applying := none

/-- `Subscribe` makes one call after another. A step of a call is its next
send, or its commit. -/
inductive EngineEvent where
  | apply (call : EngineCall)
  | proceed
  | restoreLoop

namespace SlaveEngine

/-- `New` and `Start`, up to the subscription. -/
def start (dnsListenAddr : String) (db : LocalDB) : SlaveEngine where
  db := db
  loop := if dnsListenAddr = "" then .absent else .waiting

/-- A send on a full channel does not get through. -/
def proceed (s : SlaveEngine) : SlaveEngine :=
  match s.applying with
  | none => s
  | some ⟨[], result⟩ => { s with db := result.db, applying := none }
  | some ⟨record :: rest, result⟩ =>
    match s.dnsChan.send [record] with
    | none => s
    | some dnsChan => { s with dnsChan := dnsChan, applying := some ⟨rest, result⟩ }

def restoreLoop (types : TypeNames) (s : SlaveEngine) : SlaveEngine :=
  match s.loop with
  | .absent => s
  | .waiting =>
    match s.dnsChan.receive with
    | none => s
    | some (items, dnsChan) => { s with dnsChan := dnsChan, loop := .restoring items }
  | .restoring items =>
    { s with dns := s.dns.restoreRecords types items, loop := .waiting }

def step (types : TypeNames) (s : SlaveEngine) : EngineEvent → SlaveEngine
  | .apply call =>
    if s.applying.isSome then s
    else { s with applying := some ⟨(call.run s.db).dnsChan, call.run s.db⟩ }
  | .proceed => s.proceed
  | .restoreLoop => s.restoreLoop types

def deals (s : SlaveEngine) : EngineEvent → Nat
  | .apply call => if s.applying.isSome then 0 else (call.run s.db).dnsChan.length
  | .proceed | .restoreLoop => 0

def dealt (types : TypeNames) : SlaveEngine → List EngineEvent → Nat
  | _, [] => 0
  | s, e :: events => s.deals e + dealt types (s.step types e) events

/-- A send that is due has a free place or a loop that makes one, and gets
through after some turns of the loop. -/
def Unblocked (types : TypeNames) (s : SlaveEngine) : Prop :=
  ∀ record rest result, s.applying = some ⟨record :: rest, result⟩ →
    (s.dnsChan.items.length < 100 ∨ s.loop ≠ .absent)
      ∧ ∃ n, ((List.replicate n EngineEvent.restoreLoop).foldl (step types) s).proceed.applying
          = some ⟨rest, result⟩

variable {types : TypeNames} {s : SlaveEngine}

/-! ## With a loop -/

theorem loop_step (e : EngineEvent) : (s.step types e).loop = .absent ↔ s.loop = .absent := by
  cases e with
  | apply call =>
    rw [step]
    split <;> rfl
  | proceed =>
    rw [step]
    unfold proceed
    split
    · rfl
    · rfl
    · split <;> rfl
  | restoreLoop =>
    rw [step]
    unfold restoreLoop
    split
    · rfl
    · split <;> simp [*]
    · simp [*]

theorem proceed_of_room {record : DNSRecord} {rest : List DNSRecord} {result : Applied}
    (h : s.applying = some ⟨record :: rest, result⟩) (hfree : s.dnsChan.items.length < 100) :
    s.proceed.applying = some ⟨rest, result⟩
      ∧ s.proceed.dnsChan.items.length = s.dnsChan.items.length + 1 := by
  unfold proceed
  rw [h]
  dsimp only
  cases hsend : s.dnsChan.send [record] with
  | none =>
    have hfull := Chan.send_eq_none_iff.mp hsend
    omega
  | some dnsChan => exact ⟨rfl, Chan.length_of_send hsend⟩

theorem applying_restoreLoop : (s.restoreLoop types).applying = s.applying := by
  unfold restoreLoop
  split
  · rfl
  · split <;> rfl
  · rfl

theorem room_of_waiting (hloop : s.loop = .waiting) :
    (s.restoreLoop types).dnsChan.items.length < 100 := by
  have hbounded := s.dnsChan.bounded
  unfold restoreLoop
  rw [hloop]
  dsimp only
  cases hreceive : s.dnsChan.receive with
  | none =>
    rcases hchan : s.dnsChan with ⟨_ | ⟨items, rest⟩, h⟩
    · simp
    · rw [hchan] at hreceive
      cases hreceive
  | some received =>
    have hlength := Chan.length_of_receive hreceive
    dsimp only
    omega

/-- The channel has room after at most two turns of the loop. -/
theorem exists_room (h : s.dnsChan.items.length < 100 ∨ s.loop ≠ .absent) :
    ∃ n, ((List.replicate n EngineEvent.restoreLoop).foldl (step types) s).dnsChan.items.length
        < 100
      ∧ ((List.replicate n EngineEvent.restoreLoop).foldl (step types) s).applying
        = s.applying := by
  rcases h with hfree | hloop
  · exact ⟨0, hfree, rfl⟩
  · cases hstate : s.loop with
    | absent => exact absurd hstate hloop
    | waiting => exact ⟨1, room_of_waiting hstate, applying_restoreLoop⟩
    | restoring items =>
      have hwaits : (s.restoreLoop types).loop = .waiting := by
        unfold restoreLoop
        rw [hstate]
      exact ⟨2, room_of_waiting hwaits, applying_restoreLoop.trans applying_restoreLoop⟩

theorem unblocked_iff_room :
    Unblocked types s ↔ ∀ record rest result, s.applying = some ⟨record :: rest, result⟩ →
      s.dnsChan.items.length < 100 ∨ s.loop ≠ .absent := by
  constructor
  · exact fun h record rest result hsend => (h record rest result hsend).1
  · intro h record rest result hsend
    have hroom := h record rest result hsend
    obtain ⟨n, hfree, hsame⟩ := exists_room hroom
    exact ⟨hroom, n, (proceed_of_room (hsame.trans hsend) hfree).1⟩

/-! ## Without a loop -/

def underway (s : SlaveEngine) : Nat := s.dnsChan.items.length + s.applying.elim 0 (·.sends.length)

/-- Without a loop nothing is taken off the channel. -/
theorem underway_step (hloop : s.loop = .absent) (e : EngineEvent) :
    (s.step types e).underway = s.underway + s.deals e := by
  cases e with
  | apply call =>
    rw [step, deals]
    cases happlying : s.applying with
    | none => simp [underway, happlying]
    | some applying => simp
  | proceed =>
    rw [step, deals, Nat.add_zero]
    unfold proceed
    split
    · rfl
    · rename_i result h
      simp [underway, h]
    · rename_i record rest result h
      cases hsend : s.dnsChan.send [record] with
      | none => rfl
      | some dnsChan =>
        have hlength := Chan.length_of_send hsend
        simp only [underway, h, Option.elim_some, List.length_cons]
        omega
  | restoreLoop =>
    rw [step, deals, restoreLoop, hloop]
    rfl

theorem underway_run (types : TypeNames) (hloop : s.loop = .absent) (events : List EngineEvent) :
    (events.foldl (step types) s).underway = s.underway + dealt types s events := by
  induction events generalizing s with
  | nil => rfl
  | cons e events ih =>
    rw [List.foldl_cons, ih ((loop_step e).mpr hloop), underway_step hloop, dealt]
    omega

theorem loop_run (types : TypeNames) (events : List EngineEvent) :
    (events.foldl (step types) s).loop = .absent ↔ s.loop = .absent := by
  induction events generalizing s with
  | nil => exact Iff.rfl
  | cons e events ih => exact ih.trans (loop_step e)

theorem dealt_append (types : TypeNames) (s : SlaveEngine) (events events' : List EngineEvent) :
    dealt types s (events ++ events')
      = dealt types s events + dealt types (events.foldl (step types) s) events' := by
  induction events generalizing s with
  | nil => simp [dealt]
  | cons e events ih =>
    rw [List.cons_append, dealt, dealt, ih, List.foldl_cons]
    omega

theorem dealt_proceed (n : Nat) : dealt types s (List.replicate n EngineEvent.proceed) = 0 := by
  induction n generalizing s with
  | zero => rfl
  | succ n ih => rw [List.replicate_succ, dealt, ih, deals]

theorem sending_of_many (hmany : 100 < s.underway) :
    ∃ record rest result, s.applying = some ⟨record :: rest, result⟩ := by
  have hbounded := s.dnsChan.bounded
  rw [underway] at hmany
  rcases happlying : s.applying with _ | ⟨_ | ⟨record, rest⟩, result⟩
  · rw [happlying, Option.elim_none] at hmany
    omega
  · rw [happlying, Option.elim_some, List.length_nil] at hmany
    omega
  · exact ⟨record, rest, result, rfl⟩

/-- More records than places: the apply path comes to a send on the full
channel. Induction on the free places. -/
theorem exists_full (hloop : s.loop = .absent) (hmany : 100 < s.underway) :
    ∃ n, 100 < ((List.replicate n EngineEvent.proceed).foldl (step types) s).underway
      ∧ ((List.replicate n EngineEvent.proceed).foldl (step types) s).dnsChan.items.length
        = 100 := by
  have hbounded := s.dnsChan.bounded
  induction hfree : 100 - s.dnsChan.items.length generalizing s with
  | zero => exact ⟨0, hmany, show s.dnsChan.items.length = 100 by omega⟩
  | succ k ih =>
    obtain ⟨record, rest, result, hsend⟩ := sending_of_many hmany
    have hlength := (proceed_of_room hsend (by omega)).2
    have hmore : 100 < (s.step types .proceed).underway := by
      rw [underway_step hloop]
      exact hmany
    obtain ⟨n, h⟩ := ih ((loop_step .proceed).mpr hloop) hmore (s.proceed.dnsChan.bounded)
      (show 100 - s.proceed.dnsChan.items.length = k by omega)
    exact ⟨n + 1, h⟩

/-! ## Runs -/

theorem unblocked_of_loop (hloop : s.loop ≠ .absent) : Unblocked types s :=
  unblocked_iff_room.mpr fun _ _ _ _ => Or.inr hloop

theorem unblocked_of_few (hfew : s.underway ≤ 100) : Unblocked types s := by
  refine unblocked_iff_room.mpr fun record rest result hsend => Or.inl ?_
  rw [underway, hsend, Option.elim_some, List.length_cons] at hfew
  omega

theorem blocked_of_full (hloop : s.loop = .absent) (hmany : 100 < s.underway)
    (hfull : s.dnsChan.items.length = 100) : ¬ Unblocked types s := by
  intro h
  obtain ⟨record, rest, result, hsend⟩ := sending_of_many hmany
  rcases unblocked_iff_room.mp h record rest result hsend with hfree | hrunning
  · omega
  · exact hrunning hloop

theorem blocked_of_many (hloop : s.loop = .absent) {events : List EngineEvent}
    (hmany : 100 < dealt types s events) :
    ∃ n, ¬ Throughout (step types) (Unblocked types) s
      (events ++ List.replicate n EngineEvent.proceed) := by
  have hmore : 100 < (events.foldl (step types) s).underway := by
    rw [underway_run types hloop]
    omega
  obtain ⟨n, hstill, hfull⟩ := exists_full ((loop_run types events).mpr hloop) hmore
  refine ⟨n, fun h => ?_⟩
  have hlast := h _ List.prefix_rfl
  rw [List.foldl_append] at hlast
  refine blocked_of_full ?_ hstill hfull hlast
  rw [loop_run, loop_run]
  exact hloop

/-- The run goes on until its last call is through. -/
theorem unblocked_iff (types : TypeNames) (dnsListenAddr : String) (db : LocalDB)
    (events : List EngineEvent) :
    (∀ n, Throughout (step types) (Unblocked types) (start dnsListenAddr db)
        (events ++ List.replicate n EngineEvent.proceed))
      ↔ dnsListenAddr ≠ "" ∨ dealt types (start dnsListenAddr db) events ≤ 100 := by
  by_cases haddr : dnsListenAddr = ""
  · have hloop : (start dnsListenAddr db).loop = .absent := if_pos haddr
    constructor
    · intro h
      by_contra hmany
      rw [not_or, not_le] at hmany
      obtain ⟨n, hblocked⟩ := blocked_of_many hloop hmany.2
      exact hblocked (h n)
    · intro h n before hbefore
      have hfew := h.resolve_left fun hne => hne haddr
      obtain ⟨later, hlater⟩ := hbefore
      have hdealt : dealt types (start dnsListenAddr db) before
          ≤ dealt types (start dnsListenAddr db) events := by
        have hwhole := dealt_append types (start dnsListenAddr db) events
          (List.replicate n EngineEvent.proceed)
        rw [← hlater, dealt_append, dealt_proceed] at hwhole
        omega
      refine unblocked_of_few ?_
      rw [underway_run types hloop]
      exact Nat.le_trans (Nat.le_of_eq (Nat.zero_add _)) (Nat.le_trans hdealt hfew)
  · have hloop : (start dnsListenAddr db).loop ≠ .absent := by
      rw [start, if_neg haddr]
      exact RestoreLoop.noConfusion
    refine iff_of_true (fun n before _ => unblocked_of_loop ?_) (Or.inl haddr)
    rw [ne_eq, loop_run]
    exact hloop

def exampleSnapshot : Snapshot :=
  { snapshotRecordID := 1
    dnsRecords := (List.range 101).map fun i =>
      { id := toString i, fqdn := "a.example", recordType := "A" }
    last := true }

theorem blocked_without_dns :
    ∃ n, ¬ Throughout (step commonTypes) (Unblocked commonTypes) (start "" .empty)
      ([.apply (.snapshot exampleSnapshot [])] ++ List.replicate n EngineEvent.proceed) := by
  have hlength : (LocalDB.empty.applySnapshot exampleSnapshot []).dnsChan.length = 101 := by
    decide +kernel
  refine blocked_of_many rfl ?_
  rw [dealt, dealt, deals, EngineCall.run, start]
  simp [hlength]

end SlaveEngine

end LunaEdge
