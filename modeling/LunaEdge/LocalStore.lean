import LunaEdge.CursorLog
import LunaEdge.Proto

/-!
# The slave's local store

The metadata cache of a slave: two tables of replicated objects and the
table `sync_state`, whose greatest id is the persisted cursor. Chunks and
notices are applied in a transaction each. A statement that fails has no
effect, its error is logged and the transaction goes on, so the model runs
every transaction against a list of faults. What is put on `dnsChan` is
put there before the commit and stays there if the commit fails.

A cached row keeps a few columns beside the JSON text of the whole
object; the row types carry that the columns repeat the object. With no
faults `ApplySnapshot` and `ApplyChangelog` are overlays of these objects
(`applySnapshot_nil`, `applyChangelog_notice`).
-/

namespace LunaEdge

/-! ## Tables -/

structure DnsRecordCacheRow where
  id : String
  fqdn : String
  recordType : String
  detailJSON : DNSRecord
  hid : id = detailJSON.id
  hfqdn : fqdn = detailJSON.fqdn
  htype : recordType = detailJSON.recordType
deriving Repr, DecidableEq

structure DomainEntryCacheRow where
  hostname : String
  certHostname : String
  certRevision : Nat
  detailJSON : DomainEntryProjection
  hhost : hostname = detailJSON.hostname
  hcert : certHostname = if detailJSON.cert.isSome then detailJSON.hostname else ""
  hrev : certRevision = (detailJSON.cert.map (·.revision)).getD 0
deriving Repr, DecidableEq

inductive AffectedTable where
  | dnsRecords
  | domainEntries
deriving Repr, DecidableEq

structure SyncStateRow where
  snapshotRecordID : Nat
  affectedTable : AffectedTable
  affectedTableID : String
deriving Repr, DecidableEq

instance : Keyed DnsRecordCacheRow String := ⟨(·.id)⟩

instance : Keyed DomainEntryCacheRow String := ⟨(·.hostname)⟩

instance : Keyed SyncStateRow (Nat × AffectedTable) :=
  ⟨fun r => (r.snapshotRecordID, r.affectedTable)⟩

structure LocalDB where
  dnsRecordsCache : Table DnsRecordCacheRow
  domainEntriesCache : Table DomainEntryCacheRow
  syncState : Table SyncStateRow

def DNSRecord.cacheRow (r : DNSRecord) : DnsRecordCacheRow :=
  ⟨r.id, r.fqdn, r.recordType, r, rfl, rfl, rfl⟩

def DomainEntryProjection.cacheRow (p : DomainEntryProjection) : DomainEntryCacheRow where
  hostname := p.hostname
  certHostname := if p.cert.isSome then p.hostname else ""
  certRevision := (p.cert.map (·.revision)).getD 0
  detailJSON := p
  hhost := rfl
  hcert := rfl
  hrev := rfl

theorem DnsRecordCacheRow.eq_cacheRow (r : DnsRecordCacheRow) : r = r.detailJSON.cacheRow := by
  obtain ⟨_, _, _, d, rfl, rfl, rfl⟩ := r
  rfl

theorem DomainEntryCacheRow.eq_cacheRow (r : DomainEntryCacheRow) : r = r.detailJSON.cacheRow := by
  obtain ⟨_, _, _, d, rfl, rfl, rfl⟩ := r
  rfl

namespace LocalDB

def empty : LocalDB := ⟨.empty, .empty, .empty⟩

/-- The greatest `snapshot_record_id`, 0 when there is none. -/
def getSnapshotRecordID (db : LocalDB) : Nat :=
  (db.syncState.rows.map (·.snapshotRecordID)).foldr max 0

def getDomainEntryByHostname (db : LocalDB) (hostname : String) :
    Except RepoError DomainEntryProjection :=
  orNotFound ((db.domainEntriesCache.find? hostname).map (·.detailJSON))

/-! ## Statements -/

def deleteDNSRecord (db : LocalDB) (id : String) : LocalDB :=
  { db with dnsRecordsCache := db.dnsRecordsCache.erase id }

def upsertDNSRecord (db : LocalDB) (r : DNSRecord) : LocalDB :=
  { db with dnsRecordsCache := db.dnsRecordsCache.upsert r.cacheRow }

def deleteDomainEntry (db : LocalDB) (hostname : String) : LocalDB :=
  { db with domainEntriesCache := db.domainEntriesCache.erase hostname }

def upsertDomainEntry (db : LocalDB) (p : DomainEntryProjection) : LocalDB :=
  { db with domainEntriesCache := db.domainEntriesCache.upsert p.cacheRow }

def upsertSyncState (db : LocalDB) (row : SyncStateRow) : LocalDB :=
  { db with syncState := db.syncState.upsert row }

end LocalDB

/-! ## Transactions -/

/-- An open transaction: what its statements see, what it has sent on
`dnsChan`, and which of its coming statements fail. -/
structure Tx where
  db : LocalDB
  dnsChan : List DNSRecord
  faults : List Bool

namespace Tx

def exec (tx : Tx) (statement : LocalDB → LocalDB) : Bool × Tx :=
  match tx.faults with
  | [] => (true, { tx with db := statement tx.db })
  | false :: faults => (true, { tx with db := statement tx.db, faults })
  | true :: faults => (false, { tx with faults })

def dealDNSRecords (tx : Tx) (input : DNSRecord) : Tx :=
  if input.deleted then (tx.exec (·.deleteDNSRecord input.id)).2
  else
    match tx.exec (·.upsertDNSRecord input) with
    | (false, tx) => tx
    | (true, tx) => { tx with dnsChan := tx.dnsChan ++ [input] }

def dealDomainEntries (tx : Tx) (input : DomainEntryProjection) : Tx :=
  if input.deleted then (tx.exec (·.deleteDomainEntry input.hostname)).2
  else (tx.exec (·.upsertDomainEntry input)).2

def updateSnapshotRecordID (tx : Tx) (snapshotRecordID : Nat) (table : AffectedTable)
    (tableID : String) : Tx :=
  (tx.exec (·.upsertSyncState ⟨snapshotRecordID, table, tableID⟩)).2

def applyDNSRecord (snapshotRecordID : Nat) (tx : Tx) (record : DNSRecord) : Tx :=
  (tx.dealDNSRecords record).updateSnapshotRecordID snapshotRecordID .dnsRecords record.id

def applyDomainEntry (snapshotRecordID : Nat) (tx : Tx) (entry : DomainEntryProjection) :
    Tx :=
  (tx.dealDomainEntries entry).updateSnapshotRecordID snapshotRecordID .domainEntries
    entry.hostname

end Tx

inductive ApplyError where
  | snapshotOutOfOrder
  | sql
deriving Repr, DecidableEq

/-- What a call leaves behind: the database, what was sent on `dnsChan`,
and its error. -/
structure Applied where
  db : LocalDB
  dnsChan : List DNSRecord
  err : Option ApplyError

namespace LocalDB

/-- `BEGIN`, the body, `COMMIT`; a failed commit rolls back. -/
def transaction (db : LocalDB) (faults : List Bool) (body : Tx → Tx) : Applied :=
  match (Tx.mk db [] faults).exec id with
  | (false, _) => ⟨db, [], some .sql⟩
  | (true, tx) =>
    match (body tx).exec id with
    | (false, tx) => ⟨db, tx.dnsChan, some .sql⟩
    | (true, tx) => ⟨tx.db, tx.dnsChan, none⟩

def applySnapshot (db : LocalDB) (snapshot : Snapshot) (faults : List Bool) : Applied :=
  db.transaction faults fun tx =>
    snapshot.domainEntries.foldl (Tx.applyDomainEntry snapshot.snapshotRecordID)
      (snapshot.dnsRecords.foldl (Tx.applyDNSRecord snapshot.snapshotRecordID) tx)

/-- The error of the cursor read is overwritten before it is looked at;
the cursor is 0 then. -/
def applyChangelog (db : LocalDB) (changelog : ChangeNotification) (faults : List Bool) : Applied :=
  let (ok, tx) := (Tx.mk db [] faults).exec id
  let cursor := if ok then db.getSnapshotRecordID else 0
  if changelog.snapshotRecordID ≤ cursor then ⟨db, [], none⟩
  else if cursor + 1 < changelog.snapshotRecordID then
    ⟨db, [], some .snapshotOutOfOrder⟩
  else
    db.transaction tx.faults fun tx =>
      changelog.domainEntry.toList.foldl (Tx.applyDomainEntry changelog.snapshotRecordID)
        (changelog.dnsRecord.toList.foldl (Tx.applyDNSRecord changelog.snapshotRecordID) tx)

/-! ## Rows -/

def row (db : LocalDB) (k : SyncKey) : Option Payload :=
  match k.syncType with
  | .dnsRecord => (db.dnsRecordsCache.find? k.syncID).map fun r => .dnsRecord r.detailJSON
  | .domainEntryProjection =>
    (db.domainEntriesCache.find? k.syncID).map fun r => .domainEntry r.detailJSON

end LocalDB

variable {db : LocalDB} {p : DomainEntryProjection}

theorem LocalDB.find?_of_row_dnsRecord {id : String} {r : DNSRecord}
    (h : db.row ⟨.dnsRecord, id⟩ = some (.dnsRecord r)) :
    db.dnsRecordsCache.find? id = some r.cacheRow := by
  obtain ⟨row, hrow, hr⟩ := Option.map_eq_some_iff.mp h
  rw [hrow, row.eq_cacheRow, Payload.dnsRecord.inj hr]

theorem LocalDB.find?_of_row_domainEntry {h : String}
    (hp : db.row ⟨.domainEntryProjection, h⟩ = some (.domainEntry p)) :
    db.domainEntriesCache.find? h = some p.cacheRow := by
  obtain ⟨row, hrow, hr⟩ := Option.map_eq_some_iff.mp hp
  rw [hrow, row.eq_cacheRow, Payload.domainEntry.inj hr]

theorem LocalDB.getDomainEntryByHostname_eq_ok_iff {h : String} :
    db.getDomainEntryByHostname h = .ok p
      ↔ db.row ⟨.domainEntryProjection, h⟩ = some (.domainEntry p) := by
  simp only [LocalDB.getDomainEntryByHostname, LocalDB.row]
  cases db.domainEntriesCache.find? h with
  | none => simp [orNotFound]
  | some row => simp [orNotFound]

theorem LocalDB.hostname_of_getDomainEntryByHostname {h : String}
    (hp : db.getDomainEntryByHostname h = .ok p) : p.hostname = h :=
  Table.key_of_find?
    (LocalDB.find?_of_row_domainEntry (LocalDB.getDomainEntryByHostname_eq_ok_iff.mp hp))

theorem LocalDB.row_eq_iff_same {db' : LocalDB} :
    (∀ k, db.row k = db'.row k) ↔
      db.dnsRecordsCache.Same db'.dnsRecordsCache
        ∧ db.domainEntriesCache.Same db'.domainEntriesCache := by
  have hdns : Function.Injective fun r : DnsRecordCacheRow =>
      Payload.dnsRecord r.detailJSON := fun r r' h => by
    rw [r.eq_cacheRow, r'.eq_cacheRow, Payload.dnsRecord.inj h]
  have hdomain : Function.Injective fun r : DomainEntryCacheRow =>
      Payload.domainEntry r.detailJSON := fun r r' h => by
    rw [r.eq_cacheRow, r'.eq_cacheRow, Payload.domainEntry.inj h]
  constructor
  · intro h
    exact ⟨fun id => Option.map_injective hdns (h ⟨.dnsRecord, id⟩),
      fun host => Option.map_injective hdomain (h ⟨.domainEntryProjection, host⟩)⟩
  · rintro ⟨hd, he⟩ ⟨t, id⟩
    cases t with
    | dnsRecord => exact congrArg (Option.map _) (hd id)
    | domainEntryProjection => exact congrArg (Option.map _) (he id)

/-- What applying a payload leaves in the row of its key. -/
def Payload.cell (p : Payload) : Option Payload := if p.deleted then none else some p

def Payload.cells (ps : List Payload) : List (SyncKey × Option Payload) :=
  ps.map fun p => (p.syncKey, p.cell)

namespace LocalDB

/-- `dealDNSRecords` or `dealDomainEntries` without its error path. -/
def put (db : LocalDB) : Payload → LocalDB
  | .dnsRecord r => if r.deleted then db.deleteDNSRecord r.id else db.upsertDNSRecord r
  | .domainEntry p =>
    if p.deleted then db.deleteDomainEntry p.hostname else db.upsertDomainEntry p

variable {db : LocalDB}

theorem row_with_dnsRecordsCache {t : Table DnsRecordCacheRow} {id : String}
    {v : Option DnsRecordCacheRow}
    (h : ∀ i, t.find? i = if id = i then v else db.dnsRecordsCache.find? i) :
    ({ db with dnsRecordsCache := t } : LocalDB).row
      = Function.update db.row ⟨.dnsRecord, id⟩ (v.map fun r => .dnsRecord r.detailJSON) := by
  funext k
  obtain ⟨type, i⟩ := k
  rw [Function.update_apply]
  cases type with
  | domainEntryProjection => rfl
  | dnsRecord =>
    by_cases hi : id = i
    · rw [if_pos (by rw [hi]), row, h, if_pos hi]
    · rw [if_neg (by simpa [eq_comm] using hi), row, row, h, if_neg hi]

theorem row_with_domainEntriesCache {t : Table DomainEntryCacheRow} {hostname : String}
    {v : Option DomainEntryCacheRow}
    (h : ∀ i, t.find? i = if hostname = i then v else db.domainEntriesCache.find? i) :
    ({ db with domainEntriesCache := t } : LocalDB).row
      = Function.update db.row ⟨.domainEntryProjection, hostname⟩
          (v.map fun r => .domainEntry r.detailJSON) := by
  funext k
  obtain ⟨type, i⟩ := k
  rw [Function.update_apply]
  cases type with
  | dnsRecord => rfl
  | domainEntryProjection =>
    by_cases hi : hostname = i
    · rw [if_pos (by rw [hi]), row, h, if_pos hi]
    · rw [if_neg (by simpa [eq_comm] using hi), row, row, h, if_neg hi]

theorem row_put (db : LocalDB) (p : Payload) :
    (db.put p).row = Function.update db.row p.syncKey p.cell := by
  cases p with
  | dnsRecord r =>
    rw [put, Payload.cell, Payload.deleted]
    split
    · exact row_with_dnsRecordsCache (Table.find?_erase db.dnsRecordsCache r.id)
    · exact row_with_dnsRecordsCache (Table.find?_upsert db.dnsRecordsCache r.cacheRow)
  | domainEntry p =>
    rw [put, Payload.cell, Payload.deleted]
    split
    · exact row_with_domainEntriesCache (Table.find?_erase db.domainEntriesCache p.hostname)
    · exact row_with_domainEntriesCache (Table.find?_upsert db.domainEntriesCache p.cacheRow)

@[simp] theorem row_upsertSyncState (db : LocalDB) (s : SyncStateRow) :
    (db.upsertSyncState s).row = db.row := rfl

/-! ## The cursor -/

theorem foldr_max_le_iff {l : List Nat} {b : Nat} : l.foldr max 0 ≤ b ↔ ∀ n ∈ l, n ≤ b := by
  induction l with
  | nil => simp
  | cons n ns ih => simp [ih]

theorem getSnapshotRecordID_le_iff {b : Nat} :
    db.getSnapshotRecordID ≤ b ↔ ∀ r ∈ db.syncState.rows, r.snapshotRecordID ≤ b := by
  simp [getSnapshotRecordID, foldr_max_le_iff]

theorem getSnapshotRecordID_upsertSyncState (db : LocalDB) (s : SyncStateRow) :
    (db.upsertSyncState s).getSnapshotRecordID = max db.getSnapshotRecordID s.snapshotRecordID := by
  refine eq_of_forall_ge_iff fun b => ?_
  simp only [getSnapshotRecordID_le_iff, Nat.max_le, upsertSyncState, Table.mem_upsert]
  constructor
  · intro h
    refine ⟨fun r hr => ?_, h s (Or.inl rfl)⟩
    -- a row the upsert replaced had the same id
    by_cases hk : Keyed.key r = Keyed.key s
    · have hid : r.snapshotRecordID = s.snapshotRecordID := congrArg Prod.fst hk
      rw [hid]
      exact h s (Or.inl rfl)
    · exact h r (Or.inr ⟨hr, hk⟩)
  · rintro ⟨hold, hnew⟩ r (rfl | ⟨hr, -⟩)
    · exact hnew
    · exact hold r hr

@[simp] theorem getSnapshotRecordID_put (db : LocalDB) (p : Payload) :
    (db.put p).getSnapshotRecordID = db.getSnapshotRecordID := by
  cases p <;> simp only [put] <;> split <;> rfl

@[simp] theorem getSnapshotRecordID_empty : empty.getSnapshotRecordID = 0 := rfl

@[simp] theorem row_empty : empty.row = fun _ => none := by
  funext ⟨t, i⟩
  cases t <;> rfl

end LocalDB

/-! ## Applying without faults -/

/-- The row of `sync_state` written along with a payload. -/
def Payload.syncState (p : Payload) (snapshotRecordID : Nat) : SyncStateRow :=
  match p with
  | .dnsRecord r => ⟨snapshotRecordID, .dnsRecords, r.id⟩
  | .domainEntry e => ⟨snapshotRecordID, .domainEntries, e.hostname⟩

/-- What applying a payload sends on `dnsChan`: upserted records only. -/
def Payload.pushed : Payload → List DNSRecord
  | .dnsRecord r => if r.deleted then [] else [r]
  | .domainEntry _ => []

namespace LocalDB

def applyPayload (snapshotRecordID : Nat) (db : LocalDB) (p : Payload) : LocalDB :=
  (db.put p).upsertSyncState (p.syncState snapshotRecordID)

theorem applyDNSRecord_nil (n : Nat) (db : LocalDB) (ch : List DNSRecord) (r : DNSRecord) :
    Tx.applyDNSRecord n ⟨db, ch, []⟩ r
      = ⟨applyPayload n db (.dnsRecord r), ch ++ (Payload.dnsRecord r).pushed, []⟩ := by
  by_cases hd : r.deleted = true <;>
    simp [Tx.applyDNSRecord, Tx.dealDNSRecords, Tx.updateSnapshotRecordID, Tx.exec,
      applyPayload, put, Payload.syncState, Payload.pushed, hd]

theorem applyDomainEntry_nil (n : Nat) (db : LocalDB) (ch : List DNSRecord)
    (e : DomainEntryProjection) :
    Tx.applyDomainEntry n ⟨db, ch, []⟩ e = ⟨applyPayload n db (.domainEntry e), ch, []⟩ := by
  by_cases hd : e.deleted = true <;>
    simp [Tx.applyDomainEntry, Tx.dealDomainEntries, Tx.updateSnapshotRecordID, Tx.exec,
      applyPayload, put, Payload.syncState, hd]

theorem foldl_applyDNSRecord_nil (n : Nat) (rs : List DNSRecord) (db : LocalDB)
    (ch : List DNSRecord) :
    rs.foldl (Tx.applyDNSRecord n) ⟨db, ch, []⟩
      = ⟨(rs.map Payload.dnsRecord).foldl (applyPayload n) db,
          ch ++ (rs.map Payload.dnsRecord).flatMap Payload.pushed, []⟩ := by
  induction rs generalizing db ch with
  | nil => simp
  | cons r rs ih => simp [applyDNSRecord_nil, ih]

theorem foldl_applyDomainEntry_nil (n : Nat) (es : List DomainEntryProjection)
    (db : LocalDB) (ch : List DNSRecord) :
    es.foldl (Tx.applyDomainEntry n) ⟨db, ch, []⟩
      = ⟨(es.map Payload.domainEntry).foldl (applyPayload n) db, ch, []⟩ := by
  induction es generalizing db with
  | nil => rfl
  | cons e es ih => simp [applyDomainEntry_nil, ih]

theorem pushed_domainEntries (es : List DomainEntryProjection) :
    (es.map Payload.domainEntry).flatMap Payload.pushed = [] := by
  simp [List.flatMap_map, Payload.pushed]

theorem transaction_nil (db : LocalDB) (n : Nat) (rs : List DNSRecord)
    (es : List DomainEntryProjection) :
    db.transaction [] (fun tx =>
        es.foldl (Tx.applyDomainEntry n) (rs.foldl (Tx.applyDNSRecord n) tx))
      = ⟨(rs.map Payload.dnsRecord ++ es.map Payload.domainEntry).foldl (applyPayload n) db,
          (rs.map Payload.dnsRecord ++ es.map Payload.domainEntry).flatMap
            Payload.pushed, none⟩ := by
  simp only [transaction, Tx.exec, id, foldl_applyDNSRecord_nil,
    foldl_applyDomainEntry_nil, List.foldl_append, List.flatMap_append,
    pushed_domainEntries, List.append_nil, List.nil_append]

theorem applySnapshot_nil (db : LocalDB) (s : Snapshot) :
    db.applySnapshot s []
      = ⟨s.payloads.foldl (applyPayload s.snapshotRecordID) db,
          s.payloads.flatMap Payload.pushed, none⟩ :=
  transaction_nil db s.snapshotRecordID s.dnsRecords s.domainEntries

theorem payloads_toList (c : ChangeNotification) :
    c.payloads = c.dnsRecord.toList.map Payload.dnsRecord
      ++ c.domainEntry.toList.map Payload.domainEntry := by
  cases hr : c.dnsRecord <;> cases he : c.domainEntry <;>
    simp [ChangeNotification.payloads, hr, he]

/-- Without faults a notice is skipped, refused or applied, by its id alone. -/
theorem applyChangelog_nil (db : LocalDB) (c : ChangeNotification) :
    db.applyChangelog c [] =
      if c.snapshotRecordID ≤ db.getSnapshotRecordID then ⟨db, [], none⟩
      else if db.getSnapshotRecordID + 1 < c.snapshotRecordID then
        ⟨db, [], some .snapshotOutOfOrder⟩
      else
        ⟨c.payloads.foldl (applyPayload c.snapshotRecordID) db,
          c.payloads.flatMap Payload.pushed, none⟩ := by
  simp only [applyChangelog, Tx.exec, if_true, payloads_toList, transaction_nil]

variable {db : LocalDB}

theorem applyChangelog_of_ne {c : ChangeNotification}
    (h : c.snapshotRecordID ≠ db.getSnapshotRecordID + 1) :
    ∃ err, db.applyChangelog c [] = ⟨db, [], err⟩ := by
  rw [applyChangelog_nil]
  split_ifs
  · exact ⟨_, rfl⟩
  · exact ⟨_, rfl⟩
  · omega

theorem applyChangelog_of_eq {c : ChangeNotification}
    (h : c.snapshotRecordID = db.getSnapshotRecordID + 1) :
    db.applyChangelog c []
      = ⟨c.payloads.foldl (applyPayload c.snapshotRecordID) db,
          c.payloads.flatMap Payload.pushed, none⟩ := by
  rw [applyChangelog_nil, if_neg (by omega), if_neg (by omega)]

theorem applyChangelog_notice {n : Nat} (hdb : db.getSnapshotRecordID = n) (p : Payload) :
    db.applyChangelog (p.notice (n + 1)) [] = ⟨db.applyPayload (n + 1) p, p.pushed, none⟩ := by
  have hid : (p.notice (n + 1)).snapshotRecordID = db.getSnapshotRecordID + 1 := by
    rw [Payload.notice_snapshotRecordID, hdb]
  rw [applyChangelog_of_eq hid]
  simp

/-! ## What applying does to rows and cursor -/

theorem row_applyPayload (n : Nat) (db : LocalDB) (p : Payload) :
    (applyPayload n db p).row = Function.update db.row p.syncKey p.cell := by
  rw [applyPayload, row_upsertSyncState, row_put]

theorem getSnapshotRecordID_applyPayload (n : Nat) (db : LocalDB) (p : Payload) :
    (applyPayload n db p).getSnapshotRecordID = max db.getSnapshotRecordID n := by
  rw [applyPayload, getSnapshotRecordID_upsertSyncState, getSnapshotRecordID_put]
  cases p <;> rfl

theorem getSnapshotRecordID_applyPayload_succ {n : Nat} (hdb : db.getSnapshotRecordID = n)
    (p : Payload) : (db.applyPayload (n + 1) p).getSnapshotRecordID = n + 1 := by
  rw [getSnapshotRecordID_applyPayload, hdb]
  omega

theorem row_foldl_applyPayload (n : Nat) (ps : List Payload) (db : LocalDB) :
    (ps.foldl (applyPayload n) db).row = CursorLog.overlay db.row (Payload.cells ps) := by
  induction ps generalizing db with
  | nil => rfl
  | cons p ps ih =>
    rw [List.foldl_cons, ih, row_applyPayload]
    rfl

theorem getSnapshotRecordID_foldl_applyPayload (n : Nat) (ps : List Payload) (db : LocalDB) :
    (ps.foldl (applyPayload n) db).getSnapshotRecordID
      = if ps = [] then db.getSnapshotRecordID else max db.getSnapshotRecordID n := by
  induction ps generalizing db with
  | nil => rfl
  | cons p ps ih =>
    rw [List.foldl_cons, ih, getSnapshotRecordID_applyPayload]
    rw [if_neg (List.cons_ne_nil p ps)]
    split <;> omega

end LocalDB

/-! ## Applying with faults -/

namespace LocalDB

/-- Each row is what it was, or what one of the payloads left in it. -/
def Touched (ps : List Payload) (db db' : LocalDB) : Prop :=
  ∀ k, db'.row k = db.row k ∨ ∃ p ∈ ps, p.syncKey = k ∧ db'.row k = p.cell

theorem Touched.refl (ps : List Payload) (db : LocalDB) : Touched ps db db := fun _ => Or.inl rfl

variable {ps : List Payload} {db : LocalDB} {tx : Tx}

theorem Touched.put {db' : LocalDB} (h : Touched ps db db') {p : Payload} (hp : p ∈ ps) :
    Touched ps db (db'.put p) := by
  intro k
  rw [row_put, Function.update_apply]
  by_cases hk : k = p.syncKey
  · rw [if_pos hk]
    exact Or.inr ⟨p, hp, hk.symm, rfl⟩
  · rw [if_neg hk]
    exact h k

theorem exec_db (tx : Tx) (statement : LocalDB → LocalDB) :
    (tx.exec statement).2.db = statement tx.db ∨ (tx.exec statement).2.db = tx.db := by
  rw [Tx.exec]
  split
  · exact Or.inl rfl
  · exact Or.inl rfl
  · exact Or.inr rfl

theorem Touched.exec (h : Touched ps db tx.db) {statement : LocalDB → LocalDB}
    (hstatement : Touched ps db (statement tx.db)) : Touched ps db (tx.exec statement).2.db := by
  rcases exec_db tx statement with heq | heq
  · rw [heq]; exact hstatement
  · rw [heq]; exact h

theorem dealDNSRecords_db (tx : Tx) (r : DNSRecord) :
    (tx.dealDNSRecords r).db = (tx.exec (·.put (.dnsRecord r))).2.db := by
  rw [Tx.dealDNSRecords]
  cases hd : r.deleted with
  | true => simp [put, hd]
  | false =>
    simp only [put, hd, Bool.false_eq_true, if_false]
    split <;> rename_i heq <;> rw [heq]

theorem dealDomainEntries_db (tx : Tx) (e : DomainEntryProjection) :
    (tx.dealDomainEntries e).db = (tx.exec (·.put (.domainEntry e))).2.db := by
  rw [Tx.dealDomainEntries]
  cases hd : e.deleted with
  | true => simp [put, hd]
  | false => simp [put, hd]

theorem Touched.applyDNSRecord (n : Nat) {r : DNSRecord} (h : Touched ps db tx.db)
    (hr : .dnsRecord r ∈ ps) : Touched ps db (tx.applyDNSRecord n r).db := by
  have hdeal : Touched ps db (tx.dealDNSRecords r).db := dealDNSRecords_db tx r ▸ h.exec (h.put hr)
  exact hdeal.exec hdeal

theorem Touched.applyDomainEntry (n : Nat) {e : DomainEntryProjection} (h : Touched ps db tx.db)
    (he : .domainEntry e ∈ ps) : Touched ps db (tx.applyDomainEntry n e).db := by
  have hdeal : Touched ps db (tx.dealDomainEntries e).db :=
    dealDomainEntries_db tx e ▸ h.exec (h.put he)
  exact hdeal.exec hdeal

/-- A transaction, whichever of its statements fail. -/
theorem Touched.transaction {body : Tx → Tx}
    (hbody : ∀ tx, Touched ps db tx.db → Touched ps db (body tx).db) (faults : List Bool) :
    Touched ps db (db.transaction faults body).db := by
  rw [LocalDB.transaction]
  split
  · exact Touched.refl ps db
  · rename_i tx hbegin
    have hstart : Touched ps db tx.db := by
      have hexec : Touched ps db ((Tx.mk db [] faults).exec id).2.db :=
        (Touched.refl ps db).exec (Touched.refl ps db)
      rwa [hbegin] at hexec
    split
    · exact Touched.refl ps db
    · rename_i tx' hcommit
      have hexec : Touched ps db ((body tx).exec id).2.db :=
        (hbody tx hstart).exec (hbody tx hstart)
      rwa [hcommit] at hexec

/-- The body of both calls, whichever of its statements fail. -/
theorem Touched.body (db : LocalDB) (n : Nat) (rs : List DNSRecord)
    (es : List DomainEntryProjection)
    (h : Touched (rs.map Payload.dnsRecord ++ es.map Payload.domainEntry) db tx.db) :
    Touched (rs.map Payload.dnsRecord ++ es.map Payload.domainEntry) db
      (es.foldl (Tx.applyDomainEntry n) (rs.foldl (Tx.applyDNSRecord n) tx)).db := by
  have hdns := List.foldlRecOn (motive := fun tx : Tx => Touched
      (rs.map Payload.dnsRecord ++ es.map Payload.domainEntry) db tx.db) rs
    (Tx.applyDNSRecord n) h fun tx h r hr =>
      h.applyDNSRecord n (List.mem_append_left _ (List.mem_map_of_mem hr))
  exact List.foldlRecOn (motive := fun tx : Tx => Touched
      (rs.map Payload.dnsRecord ++ es.map Payload.domainEntry) db tx.db) es
    (Tx.applyDomainEntry n) hdns fun tx h e he =>
      h.applyDomainEntry n (List.mem_append_right _ (List.mem_map_of_mem he))

theorem touched_applySnapshot (db : LocalDB) (s : Snapshot) (faults : List Bool) :
    Touched s.payloads db (db.applySnapshot s faults).db :=
  Touched.transaction (fun _ => Touched.body db s.snapshotRecordID s.dnsRecords s.domainEntries)
    faults

theorem touched_applyChangelog (db : LocalDB) (c : ChangeNotification) (faults : List Bool) :
    Touched c.payloads db (db.applyChangelog c faults).db := by
  rw [applyChangelog]
  dsimp only
  generalize (if ((Tx.mk db [] faults).exec id).1 = true then db.getSnapshotRecordID
    else 0) = cursor
  split_ifs
  · exact Touched.refl _ db
  · exact Touched.refl _ db
  · exact payloads_toList c ▸ Touched.transaction
      (fun _ => Touched.body db c.snapshotRecordID c.dnsRecord.toList c.domainEntry.toList) _

end LocalDB

end LunaEdge
