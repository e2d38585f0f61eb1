import LunaEdge.Projection

/-!
# The change log

Master and slaves agree on a log: every announced change of a DNS record
or of a domain's projection is one row of `snapshot_records`, and what
travels to the slaves is the object a row names, either as a notice with
the id of its row (`ChangeNotification`) or packed into a chunk with the
id of the last row it covers (`Snapshot`). The two kinds of object are
treated alike through `SyncKey` and `Payload`.

The ids are issued by the database, one after another from 1, which is a
field of `SnapshotLog`; the row with id `i + 1` is the row at position
`i`, and the rows after a cursor are what is left after dropping that
many (`SnapshotLog.after_eq_drop`).

A message also carries the node's id and a time stamp, which no receiver
reads; they are left out.
-/

namespace LunaEdge

/-! ## Objects and their keys -/

structure SyncKey where
  syncType : SnapshotSyncType
  syncID : String
deriving Repr, DecidableEq

def SnapshotRecord.syncKey (r : SnapshotRecord) : SyncKey := ⟨r.syncType, r.syncID⟩

inductive Payload where
  | dnsRecord (record : DNSRecord)
  | domainEntry (entry : DomainEntryProjection)
deriving Repr, DecidableEq

namespace Payload

def syncKey : Payload → SyncKey
  | .dnsRecord record => ⟨.dnsRecord, record.id⟩
  | .domainEntry entry => ⟨.domainEntryProjection, entry.hostname⟩

def deleted : Payload → Bool
  | .dnsRecord record => record.deleted
  | .domainEntry entry => entry.deleted

/-- The action a broadcast of this payload is logged under. -/
def snapshotAction (p : Payload) : SnapshotAction :=
  if p.deleted then .delete else .upsert

end Payload

namespace Repo

/-- The read behind a log entry: `GetResourceByField` on the id of a DNS
record, `GetDomainEntryProjectionByDomain` on a host name. -/
def lookup (repo : Repo) (k : SyncKey) : Except RepoError Payload :=
  match k.syncType with
  | .dnsRecord => (repo.getResourceByField DNSRecord "id" k.syncID).map .dnsRecord
  | .domainEntryProjection =>
    (repo.getDomainEntryProjectionByDomain k.syncID).map .domainEntry

def current (repo : Repo) (k : SyncKey) : Option Payload := (repo.lookup k).toOption

theorem getResourceByField_dnsRecord (repo : Repo) (id : String) :
    repo.getResourceByField DNSRecord "id" id = orNotFound (repo.dnsRecords.live? id) :=
  Table.getResourceByField_primary repo.dnsRecords id

/-- A lookup fails only when there is nothing to find. -/
theorem lookup_eq (repo : Repo) (k : SyncKey) : repo.lookup k = orNotFound (repo.current k) := by
  obtain ⟨t, id⟩ := k
  cases t with
  | dnsRecord =>
    simp only [current, lookup, getResourceByField_dnsRecord]
    cases repo.dnsRecords.live? id <;> rfl
  | domainEntryProjection =>
    simp only [current, lookup]
    cases hp : repo.getDomainEntryProjectionByDomain id with
    | ok p => rfl
    | error e =>
      rw [(getDomainEntryProjectionByDomain_eq_notFound.mp hp).1]
      rfl

theorem current_dnsRecord (repo : Repo) (id : String) :
    repo.current ⟨.dnsRecord, id⟩ = (repo.dnsRecords.live? id).map .dnsRecord := by
  simp only [current, lookup, getResourceByField_dnsRecord]
  cases repo.dnsRecords.live? id <;> rfl

theorem current_domainEntry (repo : Repo) (h : String) :
    repo.current ⟨.domainEntryProjection, h⟩ =
      (repo.getDomainEntryProjectionByDomain h).toOption.map .domainEntry := by
  simp only [current, lookup]
  cases repo.getDomainEntryProjectionByDomain h <;> rfl

theorem current_domainEntry_eq_none_iff {repo : Repo} {h : String} :
    repo.current ⟨.domainEntryProjection, h⟩ = none ↔
      repo.domainEndpoints.live? h = none := by
  rw [current_domainEntry]
  cases hp : repo.getDomainEntryProjectionByDomain h with
  | ok p =>
    have hne : repo.domainEndpoints.live? h ≠ none := fun hnone => by
      rw [getDomainEntryProjectionByDomain_eq_notFound.mpr ⟨rfl, hnone⟩] at hp
      cases hp
    simp [Except.toOption, hne]
  | error e =>
    simp [Except.toOption, (getDomainEntryProjectionByDomain_eq_notFound.mp hp).2]

variable {k : SyncKey}

/-- What a lookup finds has the key asked for and is not marked deleted. -/
theorem current_spec {repo : Repo} {p : Payload} (h : repo.current k = some p) :
    p.syncKey = k ∧ p.deleted = false := by
  obtain ⟨t, id⟩ := k
  cases t with
  | dnsRecord =>
    rw [current_dnsRecord, Option.map_eq_some_iff] at h
    obtain ⟨r, hr, rfl⟩ := h
    obtain ⟨hfind, hdel⟩ := Table.live?_eq_some_iff.mp hr
    have hid : r.id = id := Table.key_of_find? hfind
    exact ⟨by rw [Payload.syncKey, hid], hdel⟩
  | domainEntryProjection =>
    rw [current_domainEntry, Option.map_eq_some_iff] at h
    obtain ⟨q, hq, rfl⟩ := h
    cases hp : repo.getDomainEntryProjectionByDomain id with
    | error e => rw [hp] at hq; cases hq
    | ok p =>
      rw [hp] at hq
      cases hq
      obtain ⟨hhost, hdel⟩ := getDomainEntryProjectionByDomain_ok hp
      exact ⟨by rw [Payload.syncKey, hhost], hdel⟩

/-! ## Upserts and the objects they change -/

theorem current_upsertResource_dnsRecord (repo : Repo) (r : DNSRecord) (hdel : r.deleted = false) :
    (repo.upsertResource r).current ⟨.dnsRecord, r.id⟩ = some (.dnsRecord r.withDefaults) := by
  rw [current_dnsRecord]
  exact congrArg (Option.map Payload.dnsRecord)
    (Table.live?_upsertResource_self repo.dnsRecords hdel)

theorem current_upsertResource_dnsRecord_of_ne (repo : Repo) (r : DNSRecord)
    (hk : k ≠ ⟨.dnsRecord, r.id⟩) : (repo.upsertResource r).current k = repo.current k := by
  obtain ⟨t, id⟩ := k
  cases t with
  | domainEntryProjection => rfl
  | dnsRecord =>
    have hid : r.id ≠ id := fun h => hk (by rw [h])
    rw [current_dnsRecord, current_dnsRecord]
    exact congrArg (Option.map Payload.dnsRecord)
      (Table.live?_upsertResource_of_ne repo.dnsRecords hid)

theorem live?_upsertResource_domainEndpoint (repo : Repo) (e : DomainEndpoint)
    (hdel : e.deleted = false) :
    (repo.upsertResource e).domainEndpoints.live? e.hostname = some e :=
  Table.live?_upsertResource_self repo.domainEndpoints hdel

/-- An endpoint shows in the projection of its own host name only. -/
theorem current_upsertResource_domainEndpoint_of_ne (repo : Repo) (e : DomainEndpoint)
    (hk : k ≠ ⟨.domainEntryProjection, e.hostname⟩) :
    (repo.upsertResource e).current k = repo.current k := by
  obtain ⟨t, h⟩ := k
  cases t with
  | dnsRecord => rfl
  | domainEntryProjection =>
    have hne : e.hostname ≠ h := fun heq => hk (by rw [heq])
    have hrows : (repo.upsertResource e).projectionRows h = repo.projectionRows h := by
      have hsel : (repo.domainEndpoints.upsert e).select
            (fun de => !de.deleted && de.hostname == h)
          = repo.domainEndpoints.select fun de => !de.deleted && de.hostname == h := by
        refine Table.select_upsert_of_not fun r hr => ?_
        have hr' : r.hostname = e.hostname := hr
        simp [hr', hne]
      exact congrArg
        (fun l => (l.flatMap repo.joinDomain).insertionSort
          fun a b => rowOrder a b = true) hsel
    rw [current_domainEntry, current_domainEntry, getDomainEntryProjectionByDomain,
      hrows, getDomainEntryProjectionByDomain]

end Repo

/-! ## The log -/

structure SnapshotLog where
  records : List SnapshotRecord
  ids : records.map (·.id) = List.range' 1 records.length

namespace SnapshotLog

def empty : SnapshotLog := ⟨[], rfl⟩

/-- The id of the newest row, 0 when there is none. -/
def lastID (log : SnapshotLog) : Nat := log.records.length

/-- `AppendSnapshotRecord`: the row gets the next id. -/
def append (log : SnapshotLog) (k : SyncKey) (action : SnapshotAction) : SnapshotLog where
  records := log.records ++ [⟨log.lastID + 1, k.syncType, k.syncID, action⟩]
  ids := by
    simp only [List.map_append, log.ids, List.map_cons, List.map_nil,
      List.length_append, List.length_cons, List.length_nil, lastID]
    rw [List.range'_1_concat, Nat.add_comm 1]

/-- `ListSnapshotRecordsAfter`: the rows with a greater id, ascending. -/
def after (log : SnapshotLog) (afterID : Nat) : List SnapshotRecord :=
  log.records.filter fun r => afterID < r.id

def keys (log : SnapshotLog) : List SyncKey := log.records.map (·.syncKey)

@[simp] theorem lastID_append (log : SnapshotLog) (k : SyncKey) (a : SnapshotAction) :
    (log.append k a).lastID = log.lastID + 1 := by
  simp [lastID, append]

@[simp] theorem keys_append (log : SnapshotLog) (k : SyncKey) (a : SnapshotAction) :
    (log.append k a).keys = log.keys ++ [k] := by
  simp [keys, append, SnapshotRecord.syncKey]

@[simp] theorem length_keys (log : SnapshotLog) : log.keys.length = log.lastID := by
  simp [keys, lastID]

theorem filter_lt_of_range' {l : List SnapshotRecord} {s a : Nat}
    (h : l.map (·.id) = List.range' s l.length) :
    l.filter (fun r => a < r.id) = l.drop (a + 1 - s) := by
  induction l generalizing s with
  | nil => simp
  | cons r rs ih =>
    simp only [List.map_cons, List.length_cons, List.range'_succ, List.cons.injEq] at h
    obtain ⟨hid, hrest⟩ := h
    rw [List.filter_cons, ih hrest, hid]
    by_cases hs : a < s
    · have h1 : a + 1 - s = 0 := by omega
      have h2 : a + 1 - (s + 1) = 0 := by omega
      simp [hs, h1, h2]
    · obtain ⟨d, hd⟩ : ∃ d, a + 1 - s = d + 1 := ⟨a - s, by omega⟩
      have h2 : a + 1 - (s + 1) = d := by omega
      simp [hs, hd, h2]

theorem after_eq_drop (log : SnapshotLog) (a : Nat) : log.after a = log.records.drop a := by
  rw [after, filter_lt_of_range' log.ids, Nat.add_sub_cancel]

theorem id_of_getElem? {log : SnapshotLog} {i : Nat} {r : SnapshotRecord}
    (h : log.records[i]? = some r) : r.id = i + 1 := by
  have hmap : (log.records.map (·.id))[i]? = some r.id := by simp [h]
  have hlt : i < log.records.length := (List.getElem?_eq_some_iff.mp h).1
  rw [log.ids, List.getElem?_range' hlt] at hmap
  have := Option.some.inj hmap
  omega

end SnapshotLog

/-! ## Messages -/

structure ChangeNotification where
  snapshotRecordID : Nat
  dnsRecord : Option DNSRecord := none
  domainEntry : Option DomainEntryProjection := none
deriving Repr, DecidableEq

structure Snapshot where
  snapshotRecordID : Nat
  dnsRecords : List DNSRecord := []
  domainEntries : List DomainEntryProjection := []
  last : Bool
deriving Repr, DecidableEq

structure CertificateBundle where
  hostname : String
  revision : Nat
  tlsCrt : String
  tlsKey : String
  metadataJSON : String
deriving Repr, DecidableEq

def Payload.notice (p : Payload) (snapshotRecordID : Nat) : ChangeNotification :=
  match p with
  | .dnsRecord record => { snapshotRecordID, dnsRecord := some record }
  | .domainEntry entry => { snapshotRecordID, domainEntry := some entry }

def ChangeNotification.payloads (c : ChangeNotification) : List Payload :=
  (c.dnsRecord.map Payload.dnsRecord).toList
    ++ (c.domainEntry.map Payload.domainEntry).toList

def Snapshot.payloads (s : Snapshot) : List Payload :=
  s.dnsRecords.map .dnsRecord ++ s.domainEntries.map .domainEntry

@[simp] theorem Payload.notice_snapshotRecordID (p : Payload) (n : Nat) :
    (p.notice n).snapshotRecordID = n := by
  cases p <;> rfl

@[simp] theorem Payload.payloads_notice (p : Payload) (n : Nat) : (p.notice n).payloads = [p] := by
  cases p <;> rfl

end LunaEdge
