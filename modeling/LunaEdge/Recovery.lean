import LunaEdge.GetSnapshot
import LunaEdge.Manage

/-!
# Live and recovered slaves

A slave that applies every notice, and one that stops after the first `c`
and catches up from there against the final database. The master runs
plans that announce what they change: the announced payloads, laid over
the objects before the plan, give the objects after it
(`Announced`).

The live slave ends with the last announced payload of every key. The
catch-up passes over an object that is no longer there, so the recovered
slave keeps the row of an object that was upserted before the cut and
deleted after it (`recovered_eq_live_iff`).
-/

namespace LunaEdge

open CursorLog Session List

/-! ## Histories of plans -/

/-- What the plan announces is what it changes. -/
def Announced (range : List String → List String) (plan : Plan) (repo : Repo) : Prop :=
  (plan.write repo).current = overlay repo.current (Payload.cells (plan.payloads range repo))

/-- The masters reached by plans from one with an empty log. -/
inductive Planned (range : List String → List String) : Master → Prop
  | start (repo : Repo) (certs : Option (List String)) :
      Planned range ⟨repo, .empty, [], certs⟩
  | plan {m m' : Master} (plan : Plan) (h : Planned range m)
      (hann : Announced range plan m.repo)
      (hrun : Done (MasterM.applyPlan range plan) m () m') : Planned range m'

/-- What the log says last of each key, within its first `c` rows. -/
def SnapshotLog.lastAction (log : SnapshotLog) (c : Nat) : SyncKey → Option SnapshotAction :=
  overlay (fun _ => none) ((log.records.take c).map fun r => (r.syncKey, some r.action))

structure History (m : Master) (ps : List Payload) : Prop where
  boardcasts : m.boardcasts = Master.notices 0 ps
  records : m.log.records.map (fun r => (r.syncKey, r.action))
    = ps.map fun p => (p.syncKey, p.snapshotAction)
  current : ∃ start, m.repo.current = overlay start (Payload.cells ps)

variable {m : Master} {ps : List Payload}

theorem Planned.history {range : List String → List String} (h : Planned range m) :
    ∃ ps, History m ps := by
  induction h with
  | start repo certs => exact ⟨[], rfl, rfl, repo.current, rfl⟩
  | @plan m m' p h hann hrun ih =>
    obtain ⟨ps, hb, hrec, start, hcur⟩ := ih
    obtain ⟨certs, hdone⟩ := MasterM.applyPlan_done range p m
    obtain ⟨-, rfl⟩ := hdone.unique hrun
    have hlast : m.log.lastID = ps.length := by
      have hlen := congrArg List.length hrec
      rwa [length_map, length_map] at hlen
    refine ⟨ps ++ p.payloads range m.repo, ?_, ?_, start, ?_⟩
    · refine (Master.boardcasts_announceAll _ _).trans ?_
      rw [Master.notices_append, Nat.zero_add, ← hb, ← hlast]
    · refine (Master.records_announceAll _ _).trans ?_
      rw [map_append, ← hrec]
    · refine (congrArg Repo.current (Master.announceAll_repo _ _)).trans ?_
      rw [hann, hcur, ← overlay_append, Payload.cells, Payload.cells, Payload.cells, map_append]

/-! ## The two slaves -/

def applyNotices (notices : List ChangeNotification) (db : LocalDB) : LocalDB :=
  notices.foldl (fun db c => (db.applyChangelog c.viaProto []).db) db

theorem applyNotices_notices {n : Nat} {db : LocalDB} (hdb : db.getSnapshotRecordID = n)
    (ps : List Payload) :
    (applyNotices (Master.notices n ps) db).row = overlay db.row (wireCells ps) := by
  induction ps generalizing n db with
  | nil => rfl
  | cons p ps ih =>
    have hrest := ih (LocalDB.getSnapshotRecordID_applyPayload_succ hdb p.viaProto)
    rw [LocalDB.row_applyPayload] at hrest
    rw [Master.notices, applyNotices, foldl_cons, Payload.notice_viaProto,
      LocalDB.applyChangelog_notice hdb]
    exact hrest

theorem cells_fst (ps : List Payload) :
    (Payload.cells ps).map Prod.fst = ps.map Payload.syncKey := by
  simp [Payload.cells, Function.comp_def]

theorem overlay_wireCells (start : SyncKey → Option Payload) (ps : List Payload) (k : SyncKey) :
    overlay (fun j => (start j).map Payload.viaProto) (wireCells ps) k
      = (overlay start (Payload.cells ps) k).map Payload.viaProto := by
  rw [← overlay_map (Option.map Payload.viaProto) start]
  have hcells : wireCells ps
      = (Payload.cells ps).map fun cell => (cell.1, cell.2.map Payload.viaProto) := by
    simp only [wireCells, Payload.cells, map_map]
    refine map_congr_left fun p _ => ?_
    cases hd : p.deleted <;> simp [Payload.cell, hd]
  rw [hcells]

/-- The rows after the first `c` notices are those last upserted. -/
theorem overlay_ne_none_iff (h : History m ps) (c : Nat) (k : SyncKey) :
    overlay (fun _ => none) (wireCells (ps.take c)) k ≠ none
      ↔ m.log.lastAction c k = some .upsert := by
  have hrecords : (m.log.records.take c).map (fun r => (r.syncKey, some r.action))
      = (ps.take c).map fun p => (p.syncKey, some p.snapshotAction) := by
    have htake := congrArg (fun l => (l.take c).map fun x => (x.1, some x.2)) h.records
    simpa only [← map_take, map_map, Function.comp_def] using htake
  -- both sides are the flag of the last payload
  have hrow := overlay_map Option.isSome (fun _ => none) (wireCells (ps.take c)) k
  have hlast := overlay_map (fun a => decide (a = some SnapshotAction.upsert)) (fun _ => none)
    ((ps.take c).map fun p => (p.syncKey, some p.snapshotAction)) k
  have hcells : (wireCells (ps.take c)).map (fun cell => (cell.1, cell.2.isSome))
      = ((ps.take c).map fun p => (p.syncKey, some p.snapshotAction)).map
          fun cell => (cell.1, decide (cell.2 = some SnapshotAction.upsert)) := by
    simp only [wireCells, Payload.cells, map_map]
    refine map_congr_left fun p _ => ?_
    cases hd : p.deleted <;> simp [Payload.cell, Payload.snapshotAction, hd]
  rw [hcells] at hrow
  have hflag := hrow.symm.trans hlast
  rw [SnapshotLog.lastAction, hrecords, ← Option.isSome_iff_ne_none, hflag, decide_eq_true_iff]

theorem History.drop_keys (h : History m ps) (c : Nat) :
    m.log.keys.drop c = (ps.drop c).map Payload.syncKey := by
  have hkeys := congrArg (List.map Prod.fst) h.records
  rw [map_map, map_map] at hkeys
  rw [map_drop]
  exact congrArg (List.drop c) hkeys

/-- The live slave has what the master has, for keys announced after `c`,
and for the others what it had then. -/
theorem History.live_row (h : History m ps) (c : Nat) (k : SyncKey) :
    overlay (fun _ => none) (wireCells ps) k
      = if k ∈ m.log.keys.drop c then (m.repo.current k).map Payload.viaProto
        else overlay (fun _ => none) (wireCells (ps.take c)) k := by
  have hsplit : wireCells ps = wireCells (ps.take c) ++ wireCells (ps.drop c) := by
    rw [← wireCells_append, take_append_drop]
  have hfst : ∀ qs : List Payload, (wireCells qs).map Prod.fst = qs.map Payload.syncKey :=
    fun qs => by
      rw [wireCells, cells_fst, map_map]
      exact map_congr_left fun p _ => Payload.syncKey_viaProto p
  rw [h.drop_keys]
  split
  · rename_i hk
    obtain ⟨start, hcur⟩ := h.current
    have hmem : k ∈ (wireCells ps).map Prod.fst := by
      rw [hsplit, map_append, hfst (ps.drop c)]
      exact mem_append_right _ hk
    rw [hcur, ← overlay_wireCells, overlay_of_mem hmem]
  · rename_i hk
    rw [hsplit, overlay_append, overlay_of_not_mem (by rwa [hfst])]

/-- The recovered slave has the tables of the live one exactly when every
object that the first `c` notices leave upserted, and that is announced
again later, is still there in the end. -/
theorem recovered_eq_live_iff {range : List String → List String} {m : Master}
    (h : Planned range m) (c : Nat) :
    ∃ db, catchUpSnapshots m.repo m.log c (applyNotices (m.boardcasts.take c) .empty) = some db
      ∧ (db.dnsRecordsCache.Same (applyNotices m.boardcasts .empty).dnsRecordsCache
          ∧ db.domainEntriesCache.Same (applyNotices m.boardcasts .empty).domainEntriesCache
        ↔ ∀ k ∈ m.log.keys.drop c, m.log.lastAction c k = some .upsert →
            m.repo.current k ≠ none) := by
  obtain ⟨ps, hist⟩ := h.history
  have hcut : (applyNotices (m.boardcasts.take c) .empty).row
      = overlay (fun _ => none) (wireCells (ps.take c)) := by
    rw [hist.boardcasts, Master.notices_take,
      applyNotices_notices LocalDB.getSnapshotRecordID_empty, LocalDB.row_empty]
  have hlive : (applyNotices m.boardcasts .empty).row = overlay (fun _ => none) (wireCells ps) := by
    rw [hist.boardcasts, applyNotices_notices LocalDB.getSnapshotRecordID_empty, LocalDB.row_empty]
  obtain ⟨db, hdb, hrow⟩ := catchUpSnapshots_row m.repo m.log c
    (applyNotices (m.boardcasts.take c) .empty)
  refine ⟨db, hdb, ?_⟩
  rw [← LocalDB.row_eq_iff_same]
  simp only [hrow, hlive, hcut, hist.live_row c, ← overlay_ne_none_iff hist]
  constructor
  · intro heq k hk hne hnone
    have hk' := heq k
    rw [if_pos hk, if_pos hk, hnone] at hk'
    exact hne hk'
  · intro hkept k
    split
    · rename_i hk
      cases hcur : m.repo.current k with
      | some p => rfl
      | none =>
        by_contra hne
        exact hkept k hk hne hcur
    · rfl

/-! ## Plans of one DNS record -/

def Plan.upsertDNSRecord (r : DNSRecord) : Plan :=
  { dnsRecords := [{ action := .create, desired := some r }] }

def Plan.deleteDNSRecord (r : DNSRecord) : Plan :=
  { dnsRecords := [{ action := .delete, current := some r }] }

section DNSRecordPlans

variable {range : List String → List String} (hrange : ∀ l, (range l).Perm l)
include hrange

theorem announced_upsertDNSRecord {r : DNSRecord} (hdel : r.deleted = false)
    (hid : Go.trimSpace r.id = r.id) (hne : r.id ≠ "") (repo : Repo) :
    Announced range (.upsertDNSRecord r) repo := by
  have hwrite : (Plan.upsertDNSRecord r).write repo = repo.upsertResource r := rfl
  have hself := Repo.current_upsertResource_dnsRecord repo r hdel
  have hbroadcasts : (Plan.upsertDNSRecord r).broadcasts repo = { dnsRecordIDs := [r.id] } := by
    have hids : addTrimmed [] r.id = [r.id] := by simp [addTrimmed, hid, hne]
    rw [← hids]
    rfl
  have hpayloads : (Plan.upsertDNSRecord r).payloads range repo = [.dnsRecord r.withDefaults] := by
    have hnil : range [] = [] := perm_nil.mp (hrange [])
    have hone : range [r.id] = [r.id] := perm_singleton.mp (hrange [r.id])
    simp [Plan.payloads, hbroadcasts, hwrite, hnil, hone, hself]
  rw [Announced, hpayloads, hwrite]
  funext k
  have hcell : Payload.cells [.dnsRecord r.withDefaults]
      = [(⟨.dnsRecord, r.id⟩, some (.dnsRecord r.withDefaults))] := by
    have hdel' : r.withDefaults.deleted = false := hdel
    simp [Payload.cells, Payload.cell, Payload.deleted, Payload.syncKey, hdel']
    rfl
  rw [hcell]
  by_cases hk : k = ⟨.dnsRecord, r.id⟩
  · subst hk
    simp [overlay, hself]
  · simp [overlay, hk, Repo.current_upsertResource_dnsRecord_of_ne repo r hk]

theorem announced_deleteDNSRecord (r : DNSRecord) (repo : Repo) :
    Announced range (.deleteDNSRecord r) repo := by
  have hbroadcasts : (Plan.deleteDNSRecord r).broadcasts repo = { deletedDNSRecords := [r] } := rfl
  have hpayloads : (Plan.deleteDNSRecord r).payloads range repo
      = [.dnsRecord { r with deleted := true }] := by
    have hnil : range [] = [] := perm_nil.mp (hrange [])
    simp [Plan.payloads, hbroadcasts, hnil]
  rw [Announced, hpayloads]
  funext k
  obtain ⟨t, id⟩ := k
  cases t with
  | domainEntryProjection => rfl
  | dnsRecord =>
    have hlive : ((Plan.deleteDNSRecord r).write repo).dnsRecords.live? id
        = if r.id = id then none else repo.dnsRecords.live? id :=
      Table.live?_retire repo.dnsRecords r.id id
    rw [Repo.current_dnsRecord, hlive]
    by_cases hid : r.id = id
    · simp [Payload.cells, Payload.cell, Payload.deleted, Payload.syncKey, overlay, hid]
    · simp [Payload.cells, Payload.cell, Payload.deleted, Payload.syncKey, overlay, hid,
        Ne.symm hid, Repo.current_dnsRecord]

end DNSRecordPlans

/-- Two records are created; a slave that stops after the first catches up. -/
theorem recovered_eq_live_two :
    ∃ m, Planned id m ∧ m.log.lastID = 2
      ∧ ∃ db, catchUpSnapshots m.repo m.log 1 (applyNotices (m.boardcasts.take 1) .empty) = some db
        ∧ db.dnsRecordsCache.Same (applyNotices m.boardcasts .empty).dnsRecordsCache
        ∧ db.domainEntriesCache.Same (applyNotices m.boardcasts .empty).domainEntriesCache := by
  have h₁ : Planned id _ := .plan (.upsertDNSRecord { id := "r1" }) (.start .empty none)
    (announced_upsertDNSRecord List.Perm.refl rfl (by decide) (by decide) _) rfl
  have h₂ : Planned id _ := .plan (.upsertDNSRecord { id := "r2" }) h₁
    (announced_upsertDNSRecord List.Perm.refl rfl (by decide) (by decide) _) rfl
  obtain ⟨db, hdb, hiff⟩ := recovered_eq_live_iff h₂ 1
  exact ⟨_, h₂, rfl, db, hdb, hiff.mpr (by decide)⟩

/-- A record is created and deleted. The live slave has dropped it; the one
that stopped in between still has it after its catch-up. -/
theorem recovered_keeps_deleted :
    ∃ m, Planned id m ∧ m.log.lastID = 2
      ∧ ∃ db, catchUpSnapshots m.repo m.log 1 (applyNotices (m.boardcasts.take 1) .empty) = some db
        ∧ ¬ db.dnsRecordsCache.Same (applyNotices m.boardcasts .empty).dnsRecordsCache := by
  have h₁ : Planned id _ := .plan (.upsertDNSRecord { id := "r1" }) (.start .empty none)
    (announced_upsertDNSRecord List.Perm.refl rfl (by decide) (by decide) _) rfl
  have h₂ : Planned id _ := .plan (.deleteDNSRecord { id := "r1" }) h₁
    (announced_deleteDNSRecord List.Perm.refl _ _) rfl
  exact ⟨_, h₂, rfl, _, rfl, fun hsame => absurd (hsame "r1") (by decide)⟩

end LunaEdge
