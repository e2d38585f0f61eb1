import LunaEdge.LocalStore

/-!
# Catching up

`handleGetSnapshot` walks the log rows after a cursor, looks up the object
each row names as it is at that moment, and packs what it finds into
chunks of a thousand; an object that is not found, or whose read fails,
is passed over. `CatchUpSnapshots` applies the chunks until the one
marked `Last`.

The chunk being filled is `SnapshotJob`, and the loop body takes the
outcome of the lookup as an argument, so that the same body serves the
whole call against a fixed database (`handleGetSnapshot`) and a call
whose lookups are interleaved with a writer. A chunk keeps DNS records
and domain entries apart; since they have different keys, that reordering
cannot be seen in the rows (`overlay_add`).
-/

namespace LunaEdge

open CursorLog List

/-! ## The master's loop -/

structure SnapshotJob where
  dnsRecords : List DNSRecord := []
  domainEntries : List DomainEntryProjection := []
  count : Nat := 0
  lastSeen : Nat
deriving Repr, DecidableEq

namespace SnapshotJob

def add (job : SnapshotJob) : Except RepoError Payload → SnapshotJob
  | .ok (.dnsRecord item) =>
    { job with dnsRecords := job.dnsRecords ++ [item], count := job.count + 1 }
  | .ok (.domainEntry item) =>
    { job with domainEntries := job.domainEntries ++ [item], count := job.count + 1 }
  | .error _ => job

def chunk (job : SnapshotJob) (last : Bool) : Snapshot :=
  ⟨job.lastSeen, job.dnsRecords, job.domainEntries, last⟩

/-- An empty chunk is only sent as the last one. -/
def sendChunk (job : SnapshotJob) (last : Bool) : SnapshotJob × Option Snapshot :=
  if job.dnsRecords = [] ∧ job.domainEntries = [] ∧ last = false then (job, none)
  else ({ lastSeen := job.lastSeen }, some (job.chunk last))

/-- The loop body for one log row, given what its lookup answered. -/
def visit (job : SnapshotJob) (record : SnapshotRecord)
    (found : Except RepoError Payload) : SnapshotJob × Option Snapshot :=
  let job := { job with lastSeen := record.id }.add found
  if 1000 ≤ job.count then job.sendChunk false else (job, none)

def run (lookup : SnapshotRecord → Except RepoError Payload) :
    List SnapshotRecord → SnapshotJob → List Snapshot
  | [], job => (job.sendChunk true).2.toList
  | record :: records, job =>
    (job.visit record (lookup record)).2.toList
      ++ run lookup records (job.visit record (lookup record)).1

def payloads (job : SnapshotJob) : List Payload :=
  job.dnsRecords.map .dnsRecord ++ job.domainEntries.map .domainEntry

end SnapshotJob

def handleGetSnapshot (repo : Repo) (log : SnapshotLog) (snapshotRecordID : Nat) :
    List Snapshot :=
  SnapshotJob.run (fun record => repo.lookup record.syncKey)
    (log.after snapshotRecordID) { lastSeen := snapshotRecordID }

/-! ## The slave's loop -/

/-- Apply chunks until the last one; `none` when the stream ends before it. -/
def applyChunks : List Snapshot → LocalDB → Option LocalDB
  | [], _ => none
  | s :: rest, db =>
    let db := (db.applySnapshot s.viaProto []).db
    if s.last then some db else applyChunks rest db

def catchUpSnapshots (repo : Repo) (log : SnapshotLog) (snapshotRecordID : Nat)
    (db : LocalDB) : Option LocalDB :=
  applyChunks (handleGetSnapshot repo log snapshotRecordID) db

/-! ## Cells on the wire -/

def wireCells (ps : List Payload) : List (SyncKey × Option Payload) :=
  Payload.cells (ps.map Payload.viaProto)

theorem wireCells_append (ps qs : List Payload) :
    wireCells (ps ++ qs) = wireCells ps ++ wireCells qs := by
  simp [wireCells, Payload.cells]

theorem cells_viaProto (s : Snapshot) :
    Payload.cells s.viaProto.payloads = wireCells s.payloads := by
  rw [wireCells, Snapshot.payloads_viaProto]

theorem filter_wireCells_dnsRecords (rs : List DNSRecord) (id : String) :
    (wireCells (rs.map .dnsRecord)).filter
      (fun cell => cell.1 = ⟨.domainEntryProjection, id⟩) = [] := by
  simp [wireCells, Payload.cells, filter_eq_nil_iff, Payload.viaProto, Payload.syncKey]

theorem filter_wireCells_domainEntries (es : List DomainEntryProjection) (id : String) :
    (wireCells (es.map .domainEntry)).filter
      (fun cell => cell.1 = ⟨.dnsRecord, id⟩) = [] := by
  simp [wireCells, Payload.cells, filter_eq_nil_iff, Payload.viaProto, Payload.syncKey]

namespace SnapshotJob

theorem overlay_add (rows : SyncKey → Option Payload) (job : SnapshotJob) (p : Payload) :
    overlay rows (wireCells (job.add (.ok p)).payloads)
      = Function.update (overlay rows (wireCells job.payloads))
          p.syncKey p.viaProto.cell := by
  have hconcat : Function.update (overlay rows (wireCells job.payloads))
      p.syncKey p.viaProto.cell = overlay rows (wireCells (job.payloads ++ [p])) := by
    rw [wireCells_append, ← Payload.syncKey_viaProto]
    exact (overlay_concat rows _ (p.viaProto.syncKey, p.viaProto.cell)).symm
  rw [hconcat]
  funext ⟨t, id⟩
  refine overlay_congr ?_
  cases p with
  | domainEntry e =>
    simp only [add, payloads, map_append, map_cons, map_nil, append_assoc]
  | dnsRecord r =>
    -- the record moves in front of the domain entries
    simp only [add, payloads, map_append, map_cons, map_nil,
      append_assoc, wireCells_append, filter_append]
    cases t with
    | dnsRecord => simp only [filter_wireCells_domainEntries, append_nil, nil_append]
    | domainEntryProjection =>
      have hr := filter_wireCells_dnsRecords [r] id
      simp only [map_cons, map_nil] at hr
      simp only [hr, nil_append, append_nil]

theorem add_lastSeen (job : SnapshotJob) (found : Except RepoError Payload) :
    (job.add found).lastSeen = job.lastSeen := by
  rcases found with e | (r | p) <;> rfl

@[simp] theorem payloads_chunk (job : SnapshotJob) (last : Bool) :
    (job.chunk last).payloads = job.payloads := rfl

theorem sendChunk_cases (job : SnapshotJob) (last : Bool) :
    (job.sendChunk last = (job, none) ∧ job.payloads = [] ∧ last = false)
      ∨ job.sendChunk last = ({ lastSeen := job.lastSeen }, some (job.chunk last)) := by
  rw [sendChunk]
  split
  · rename_i h
    exact Or.inl ⟨rfl, by simp [payloads, h.1, h.2.1], h.2.2⟩
  · exact Or.inr rfl

/-- One row visited: a chunk is kept or sent, and its id is that row's. -/
theorem visit_cases (job : SnapshotJob) (record : SnapshotRecord)
    (found : Except RepoError Payload) :
    ∃ job', job' = { job with lastSeen := record.id }.add found ∧
      (job.visit record found = (job', none)
        ∨ job.visit record found = ({ lastSeen := record.id }, some (job'.chunk false))) := by
  refine ⟨_, rfl, ?_⟩
  simp only [visit]
  split
  · rcases sendChunk_cases ({ job with lastSeen := record.id }.add found) false with
      ⟨h, -, -⟩ | h
    · exact Or.inl h
    · rw [add_lastSeen] at h
      exact Or.inr h
  · exact Or.inl rfl

theorem visit_lastSeen (job : SnapshotJob) (record : SnapshotRecord)
    (found : Except RepoError Payload) : (job.visit record found).1.lastSeen = record.id := by
  obtain ⟨job', rfl, hkeep | hsend⟩ := visit_cases job record found
  · rw [hkeep, add_lastSeen]
  · rw [hsend]

/-! ## A whole call against a fixed database -/

def visitRow (lookup : SnapshotRecord → Except RepoError Payload)
    (rows : SyncKey → Option Payload) (record : SnapshotRecord) :
    SyncKey → Option Payload :=
  match lookup record with
  | .ok p => Function.update rows p.syncKey p.viaProto.cell
  | .error _ => rows

theorem overlay_add_eq_visitRow (lookup : SnapshotRecord → Except RepoError Payload)
    (rows : SyncKey → Option Payload) (job : SnapshotJob) (record : SnapshotRecord)
    (n : Nat) :
    overlay rows (wireCells ({ job with lastSeen := n }.add (lookup record)).payloads)
      = visitRow lookup (overlay rows (wireCells job.payloads)) record := by
  rw [visitRow]
  cases lookup record with
  | ok p => exact overlay_add rows { job with lastSeen := n } p
  | error e => rfl

theorem applySnapshot_chunk_row (job : SnapshotJob) (last : Bool) (db : LocalDB) :
    (db.applySnapshot (job.chunk last).viaProto []).db.row
      = overlay db.row (wireCells job.payloads) := by
  rw [LocalDB.applySnapshot_nil, ← payloads_chunk job last, ← cells_viaProto]
  exact LocalDB.row_foldl_applyPayload ..

/-- The chunks of a call end with the one marked last, and applied in order
they visit the listed rows one by one. -/
theorem applyChunks_run (lookup : SnapshotRecord → Except RepoError Payload)
    (records : List SnapshotRecord) (job : SnapshotJob) (db : LocalDB) :
    ∃ db', applyChunks (run lookup records job) db = some db'
      ∧ db'.row = records.foldl (visitRow lookup) (overlay db.row (wireCells job.payloads)) := by
  induction records generalizing job db with
  | nil =>
    rcases sendChunk_cases job true with ⟨-, -, hfalse⟩ | hsend
    · cases hfalse
    · refine ⟨_, by rw [run, hsend]; rfl, ?_⟩
      exact applySnapshot_chunk_row job true db
  | cons record records ih =>
    obtain ⟨job', rfl, hkeep | hsend⟩ := visit_cases job record (lookup record)
    · obtain ⟨db', happ, hrow⟩ := ih ({ job with lastSeen := record.id }.add (lookup record)) db
      refine ⟨db', by rw [run, hkeep]; exact happ, ?_⟩
      rw [hrow, overlay_add_eq_visitRow]
      rfl
    · obtain ⟨db', happ, hrow⟩ := ih { lastSeen := record.id }
        (db.applySnapshot (({ job with lastSeen := record.id }.add
          (lookup record)).chunk false).viaProto []).db
      refine ⟨db', by rw [run, hsend]; exact happ, ?_⟩
      rw [hrow, applySnapshot_chunk_row, overlay_add_eq_visitRow]
      rfl

end SnapshotJob

theorem foldl_visitRow (repo : Repo) (records : List SnapshotRecord)
    (rows : SyncKey → Option Payload) (k : SyncKey) :
    records.foldl (SnapshotJob.visitRow fun r => repo.lookup r.syncKey) rows k
      = if k ∈ records.map (·.syncKey) then
          ((repo.current k).map Payload.viaProto).or (rows k)
        else rows k := by
  induction records using List.reverseRecOn with
  | nil => rfl
  | append_singleton records r ih =>
    rw [foldl_append, map_append, foldl_cons, foldl_nil, SnapshotJob.visitRow, Repo.lookup_eq]
    cases hcur : repo.current r.syncKey with
    | none =>
      by_cases hk : k = r.syncKey
      · subst hk
        simp [orNotFound, ih, hcur]
      · simp [orNotFound, ih, hk]
    | some p =>
      obtain ⟨hkey, hdel⟩ := Repo.current_spec hcur
      by_cases hk : k = r.syncKey
      · subst hk
        simp [orNotFound, hkey, hcur, Payload.cell, hdel]
      · simp [orNotFound, hkey, ih, hk]

/-- A catch-up against a fixed database refreshes the rows of the keys
logged after the cursor whose objects are still there, and nothing else. -/
theorem catchUpSnapshots_row (repo : Repo) (log : SnapshotLog) (c : Nat) (db : LocalDB) :
    ∃ db', catchUpSnapshots repo log c db = some db'
      ∧ ∀ k, db'.row k =
          if k ∈ log.keys.drop c then
            ((repo.current k).map Payload.viaProto).or (db.row k)
          else db.row k := by
  obtain ⟨db', happ, hrow⟩ := SnapshotJob.applyChunks_run
    (fun r => repo.lookup r.syncKey) (log.after c) { lastSeen := c } db
  refine ⟨db', happ, fun k => ?_⟩
  have hkeys : (log.after c).map (·.syncKey) = log.keys.drop c := by
    rw [SnapshotLog.after_eq_drop, SnapshotLog.keys, map_drop]
  have hrow0 : overlay db.row (wireCells ({ lastSeen := c } : SnapshotJob).payloads) = db.row := rfl
  rw [hrow, hrow0, foldl_visitRow, hkeys]

end LunaEdge
