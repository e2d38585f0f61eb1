import LunaEdge.GetSnapshot

/-!
# The chunks of a snapshot

`handleGetSnapshot` on a log whose ids increase, with gaps or without.
`Sends` describes its loop: the rows are taken one by one into an open
chunk, which is sent when the thousandth object is in it, and what is left
is sent as the last chunk.

- The chunks hold the live objects of the rows after the cursor, in the
  order of the log, and a call that starts at the id of a chunk sends the
  chunks after it (`chunks_complete_resumable`).
- A slave writes its cursor along with objects only, so it reaches the
  end of the log only if the last chunk has one, or the chunk before it
  ended with the last row (`caughtUp_iff`).
- A read that fails is taken for an object that is not there, so a call
  is complete exactly if none of its reads fails (`noEntrySkipped_iff`).
-/

namespace LunaEdge

open List

/-! ## Calls -/

/-- The table `snapshot_records` in the order of its ids, with the gaps
that deleted rows and failed inserts leave. -/
structure SnapshotRecords where
  rows : List SnapshotRecord
  increasing : rows.Pairwise (·.id < ·.id)

namespace SnapshotRecords

/-- `ListSnapshotRecordsAfter`. -/
def after (log : SnapshotRecords) (afterID : Nat) : List SnapshotRecord :=
  log.rows.filter fun r => afterID < r.id

def lastID (log : SnapshotRecords) : Nat := (log.rows.getLast?.map (·.id)).getD 0

end SnapshotRecords

def snapshotChunks (lookup : SnapshotRecord → Except RepoError Payload)
    (log : SnapshotRecords) (snapshotRecordID : Nat) : List Snapshot :=
  SnapshotJob.run lookup (log.after snapshotRecordID) { lastSeen := snapshotRecordID }

def Repo.lookupRecord (repo : Repo) (record : SnapshotRecord) : Except RepoError Payload :=
  repo.lookup record.syncKey

namespace SnapshotJob

/-! ## What the loop sends -/

theorem getLast?_cons_getD (record : SnapshotRecord) (records : List SnapshotRecord) (n : Nat) :
    ((record :: records).getLast?.map (·.id)).getD n
      = (records.getLast?.map (·.id)).getD record.id := by
  rw [List.getLast?_cons]
  cases records.getLast? <;> rfl

def see (job : SnapshotJob) (record : SnapshotRecord) (found : Except RepoError Payload) :
    SnapshotJob :=
  { job with lastSeen := record.id }.add found

/-- The count is right and the chunk not full. -/
structure Open (job : SnapshotJob) : Prop where
  count : job.count = job.dnsRecords.length + job.domainEntries.length
  lt : job.count < 1000

theorem open_empty (n : Nat) : Open { lastSeen := n } := ⟨rfl, Nat.zero_lt_succ _⟩

variable {job : SnapshotJob}

theorem Open.payloads_eq_nil_iff (h : job.Open) : job.payloads = [] ↔ job.count = 0 := by
  have hcount := h.count
  rw [payloads, append_eq_nil_iff, map_eq_nil_iff, map_eq_nil_iff,
    ← length_eq_zero_iff, ← length_eq_zero_iff]
  omega

theorem see_lastSeen (job : SnapshotJob) (record : SnapshotRecord)
    (found : Except RepoError Payload) : (job.see record found).lastSeen = record.id :=
  add_lastSeen _ _

theorem see_count (job : SnapshotJob) (record : SnapshotRecord) (found : Except RepoError Payload) :
    (job.see record found).count = job.count + if found.isOk then 1 else 0 := by
  rcases found with e | (r | p) <;> rfl

theorem Open.see_length (h : job.Open) (record : SnapshotRecord) (found : Except RepoError Payload) :
    (job.see record found).count = (job.see record found).dnsRecords.length
      + (job.see record found).domainEntries.length := by
  have hcount := h.count
  rcases found with e | (r | p) <;> simp [see, add] <;> omega

theorem mem_payloads_see {record : SnapshotRecord} {found : Except RepoError Payload} {p : Payload} :
    p ∈ (job.see record found).payloads ↔ p ∈ job.payloads ∨ found = .ok p := by
  rcases found with e | (r | q) <;> simp [see, add, payloads] <;> grind

/-- The chunks sent for rows, given the open chunk. -/
inductive Sends (lookup : SnapshotRecord → Except RepoError Payload) :
    List SnapshotRecord → SnapshotJob → List Snapshot → Prop
  | last {job : SnapshotJob} : job.Open → Sends lookup [] job [job.chunk true]
  | keep {record : SnapshotRecord} {records : List SnapshotRecord} {job : SnapshotJob}
      {chunks : List Snapshot} : job.Open → (job.see record (lookup record)).count < 1000 →
      Sends lookup records (job.see record (lookup record)) chunks →
      Sends lookup (record :: records) job chunks
  | send {record : SnapshotRecord} {records : List SnapshotRecord} {job : SnapshotJob}
      {chunks : List Snapshot} : job.Open → (job.see record (lookup record)).count = 1000 →
      Sends lookup records { lastSeen := record.id } chunks →
      Sends lookup (record :: records) job
        ((job.see record (lookup record)).chunk false :: chunks)

theorem sends_run (lookup : SnapshotRecord → Except RepoError Payload)
    (records : List SnapshotRecord) (hopen : job.Open) :
    Sends lookup records job (run lookup records job) := by
  induction records generalizing job with
  | nil =>
    rcases sendChunk_cases job true with ⟨-, -, hfalse⟩ | hsend
    · cases hfalse
    · rw [run, hsend]
      exact .last hopen
  | cons record records ih =>
    have hlength := hopen.see_length record (lookup record)
    have hcount := see_count job record (lookup record)
    have hlt := hopen.lt
    by_cases hfull : 1000 ≤ (job.see record (lookup record)).count
    · have hone : (job.see record (lookup record)).count = 1000 := by
        split at hcount <;> omega
      have hvisit : job.visit record (lookup record)
          = ({ lastSeen := record.id }, some ((job.see record (lookup record)).chunk false)) := by
        rw [visit]
        refine (if_pos hfull).trans ?_
        rcases sendChunk_cases (job.see record (lookup record)) false with ⟨-, hnil, -⟩ | hsend
        · rw [payloads, append_eq_nil_iff, map_eq_nil_iff, map_eq_nil_iff] at hnil
          rw [hnil.1, hnil.2, length_nil, length_nil] at hlength
          omega
        · rw [see_lastSeen] at hsend
          exact hsend
      rw [run, hvisit]
      exact .send hopen hone (ih (open_empty record.id))
    · have hvisit : job.visit record (lookup record) = (job.see record (lookup record), none) := by
        rw [visit]
        exact if_neg hfull
      rw [run, hvisit]
      exact .keep hopen (by omega) (ih ⟨hlength, by omega⟩)

def foundDNSRecord : Except RepoError Payload → Option DNSRecord
  | .ok (.dnsRecord item) => some item
  | _ => none

def foundDomainEntry : Except RepoError Payload → Option DomainEntryProjection
  | .ok (.domainEntry item) => some item
  | _ => none

theorem see_dnsRecords (job : SnapshotJob) (record : SnapshotRecord)
    (found : Except RepoError Payload) :
    (job.see record found).dnsRecords = job.dnsRecords ++ (foundDNSRecord found).toList := by
  rcases found with e | (r | p) <;> simp [see, add, foundDNSRecord]

theorem see_domainEntries (job : SnapshotJob) (record : SnapshotRecord)
    (found : Except RepoError Payload) :
    (job.see record found).domainEntries
      = job.domainEntries ++ (foundDomainEntry found).toList := by
  rcases found with e | (r | p) <;> simp [see, add, foundDomainEntry]

namespace Sends

variable {lookup : SnapshotRecord → Except RepoError Payload} {records : List SnapshotRecord}
  {job : SnapshotJob} {chunks : List Snapshot}

section

variable (h : Sends lookup records job chunks)

include h

theorem isOpen : job.Open := by
  cases h <;> assumption

theorem unique {chunks' : List Snapshot} (h' : Sends lookup records job chunks') :
    chunks = chunks' := by
  induction h generalizing chunks' with
  | last _ =>
    cases h' with
    | last _ => rfl
  | keep _ hlt _ ih =>
    cases h' with
    | keep _ _ hrest => exact ih hrest
    | send _ hfull _ => omega
  | send _ hfull _ ih =>
    cases h' with
    | keep _ hlt _ => omega
    | send _ _ hrest => rw [ih hrest]

theorem eq_run : chunks = run lookup records job := h.unique (sends_run lookup records h.isOpen)

theorem dnsRecords :
    chunks.flatMap (·.dnsRecords)
      = job.dnsRecords ++ records.filterMap fun r => foundDNSRecord (lookup r) := by
  induction h with
  | last _ => simp [chunk]
  | @keep record _ job _ _ _ _ ih =>
    rw [ih, see_dnsRecords, append_assoc, filterMap_cons]
    cases foundDNSRecord (lookup record) <;> rfl
  | @send record _ job _ _ _ _ ih =>
    rw [flatMap_cons, ih, chunk, see_dnsRecords, append_assoc, filterMap_cons]
    cases foundDNSRecord (lookup record) <;> rfl

theorem domainEntries :
    chunks.flatMap (·.domainEntries)
      = job.domainEntries ++ records.filterMap fun r => foundDomainEntry (lookup r) := by
  induction h with
  | last _ => simp [chunk]
  | @keep record _ job _ _ _ _ ih =>
    rw [ih, see_domainEntries, append_assoc, filterMap_cons]
    cases foundDomainEntry (lookup record) <;> rfl
  | @send record _ job _ _ _ _ ih =>
    rw [flatMap_cons, ih, chunk, see_domainEntries, append_assoc, filterMap_cons]
    cases foundDomainEntry (lookup record) <;> rfl

theorem length_le : ∀ c ∈ chunks, c.dnsRecords.length + c.domainEntries.length ≤ 1000 := by
  induction h with
  | last hopen =>
    intro c hc
    rw [mem_singleton.mp hc]
    have hlt := hopen.lt
    rw [hopen.count] at hlt
    exact Nat.le_of_lt hlt
  | keep _ _ _ ih => exact ih
  | @send record _ job _ hopen hfull _ ih =>
    intro c hc
    rcases mem_cons.mp hc with rfl | hc
    · rw [hopen.see_length] at hfull
      exact hfull.le
    · exact ih c hc

/-- Only the chunk at the end is marked, and it carries the last id seen. -/
theorem last_chunk :
    ∃ init last, chunks = init ++ [last] ∧ (∀ c ∈ init, c.last = false) ∧ last.last = true
      ∧ last.snapshotRecordID = (records.getLast?.map (·.id)).getD job.lastSeen := by
  induction h with
  | @last job _ => exact ⟨[], job.chunk true, rfl, by simp, rfl, rfl⟩
  | @keep record records job _ _ _ _ ih =>
    obtain ⟨init, last, rfl, hinit, hlast, hid⟩ := ih
    refine ⟨init, last, rfl, hinit, hlast, ?_⟩
    rw [hid, see_lastSeen, getLast?_cons_getD]
  | @send record records job _ _ _ _ ih =>
    obtain ⟨init, last, rfl, hinit, hlast, hid⟩ := ih
    refine ⟨(job.see record (lookup record)).chunk false :: init, last, rfl, ?_, hlast, ?_⟩
    · intro c hc
      rcases mem_cons.mp hc with rfl | hc
      · rfl
      · exact hinit c hc
    · rw [hid, getLast?_cons_getD]

/-- Every chunk carries the id the job started with or that of a row. -/
theorem le_snapshotRecordID (hrecords : records.Pairwise (·.id < ·.id))
    (hjob : ∀ r ∈ records, job.lastSeen < r.id) :
    ∀ c ∈ chunks, job.lastSeen ≤ c.snapshotRecordID := by
  induction h with
  | @last job _ =>
    intro c hc
    rw [mem_singleton.mp hc]
    exact le_rfl
  | @keep record records job _ _ _ _ ih =>
    have hhead := pairwise_cons.mp hrecords
    intro c hc
    have hlt := hjob record mem_cons_self
    have hle := ih hhead.2 (by rw [see_lastSeen]; exact hhead.1) c hc
    rw [see_lastSeen] at hle
    omega
  | @send record records job _ _ _ _ ih =>
    have hhead := pairwise_cons.mp hrecords
    have hlt := hjob record mem_cons_self
    intro c hc
    rcases mem_cons.mp hc with rfl | hc
    · rw [chunk, see_lastSeen]
      exact hlt.le
    · exact hlt.le.trans (ih hhead.2 hhead.1 c hc)

theorem pairwise_snapshotRecordID (hrecords : records.Pairwise (·.id < ·.id)) :
    chunks.Pairwise (·.snapshotRecordID ≤ ·.snapshotRecordID) := by
  induction h with
  | last _ => exact pairwise_singleton _ _
  | keep _ _ _ ih => exact ih (pairwise_cons.mp hrecords).2
  | @send record records job _ _ _ hrest ih =>
    have hhead := pairwise_cons.mp hrecords
    refine pairwise_cons.mpr ⟨fun c hc => ?_, ih hhead.2⟩
    rw [chunk, see_lastSeen]
    exact hrest.le_snapshotRecordID hhead.2 hhead.1 c hc

/-- A chunk that is not the last ends with some row, and what follows it
is what the rows after that one are sent as. -/
theorem resume {init rest : List Snapshot} {c : Snapshot} (hchunks : chunks = init ++ c :: rest)
    (hc : c.last = false) :
    ∃ front record back, records = front ++ record :: back ∧ c.snapshotRecordID = record.id
      ∧ Sends lookup back { lastSeen := record.id } rest := by
  induction h generalizing init with
  | @last job _ =>
    rcases init with _ | ⟨d, init⟩
    · obtain ⟨rfl, -⟩ := List.cons.inj hchunks
      cases hc
    · simp at hchunks
  | @keep record records job _ _ _ _ ih =>
    obtain ⟨front, r, back, rfl, hid, hrest⟩ := ih hchunks
    exact ⟨record :: front, r, back, rfl, hid, hrest⟩
  | @send record records job _ _ _ hrest ih =>
    rcases init with _ | ⟨d, init⟩
    · obtain ⟨rfl, rfl⟩ := List.cons.inj hchunks
      exact ⟨[], record, records, rfl, see_lastSeen _ _ _, hrest⟩
    · obtain ⟨front, r, back, rfl, hid, hback⟩ := ih (List.cons.inj hchunks).2
      exact ⟨record :: front, r, back, rfl, hid, hback⟩

end

end Sends

end SnapshotJob

/-! ## Completeness -/

namespace SnapshotRecords

theorem pairwise_after (log : SnapshotRecords) (a : Nat) : (log.after a).Pairwise (·.id < ·.id) :=
  log.increasing.filter _

theorem lt_of_mem_after {log : SnapshotRecords} {a : Nat} {r : SnapshotRecord}
    (hr : r ∈ log.after a) : a < r.id := by
  simpa using (mem_filter.mp hr).2

theorem after_of_split {log : SnapshotRecords} {a : Nat} {front back : List SnapshotRecord}
    {r : SnapshotRecord} (h : log.after a = front ++ r :: back) : log.after r.id = back := by
  have hr : r ∈ log.after a := by simp [h]
  have htwice : (log.after a).filter (fun s => r.id < s.id) = log.after r.id := by
    rw [after, after, filter_filter]
    refine filter_congr fun s _ => ?_
    have hlt := lt_of_mem_after hr
    grind
  obtain ⟨-, hback, hfront⟩ := pairwise_append.mp (h ▸ log.pairwise_after a)
  have hfront' : front.filter (fun s => r.id < s.id) = [] :=
    filter_eq_nil_iff.mpr fun s hs => by
      have hlt := hfront s hs r mem_cons_self
      simpa using hlt.le
  have hback' : back.filter (fun s => r.id < s.id) = back :=
    filter_eq_self.mpr fun s hs => by
      simpa using (pairwise_cons.mp hback).1 s hs
  rw [← htwice, h, filter_append, hfront', nil_append, filter_cons_of_neg (by simp), hback']

theorem lastID_after (log : SnapshotRecords) (a : Nat) :
    ((log.after a).getLast?.map (·.id)).getD a = max a log.lastID := by
  rw [lastID, after]
  rcases eq_nil_or_concat log.rows with hnil | ⟨init, r, hrows⟩
  · simp [hnil]
  have hinit : ∀ s ∈ init, s.id < r.id := by
    have hincreasing := log.increasing
    rw [hrows, concat_eq_append, pairwise_append] at hincreasing
    exact fun s hs => hincreasing.2.2 s hs r (mem_singleton_self r)
  rw [hrows, concat_eq_append, filter_append, List.getLast?_concat]
  by_cases hr : a < r.id
  · rw [filter_cons_of_pos (by simpa using hr), filter_nil, List.getLast?_concat]
    exact (max_eq_right hr.le).symm
  · have hnone : init.filter (fun s => a < s.id) = [] :=
      filter_eq_nil_iff.mpr fun s hs => by
        have hlt := hinit s hs
        grind
    rw [hnone, filter_cons_of_neg (by simpa using hr)]
    exact (max_eq_left (not_lt.mp hr)).symm

end SnapshotRecords

theorem sends_snapshotChunks (lookup : SnapshotRecord → Except RepoError Payload)
    (log : SnapshotRecords) (a : Nat) :
    SnapshotJob.Sends lookup (log.after a) { lastSeen := a } (snapshotChunks lookup log a) :=
  SnapshotJob.sends_run lookup _ (SnapshotJob.open_empty a)

def Repo.liveDNSRecord (repo : Repo) (record : SnapshotRecord) : Option DNSRecord :=
  match record.syncType with
  | .dnsRecord => repo.dnsRecords.live? record.syncID
  | .domainEntryProjection => none

def Repo.liveDomainEntry (repo : Repo) (record : SnapshotRecord) :
    Option DomainEntryProjection :=
  match record.syncType with
  | .dnsRecord => none
  | .domainEntryProjection => (repo.getDomainEntryProjectionByDomain record.syncID).toOption

theorem foundDNSRecord_lookupRecord (repo : Repo) (r : SnapshotRecord) :
    SnapshotJob.foundDNSRecord (repo.lookupRecord r) = repo.liveDNSRecord r := by
  obtain ⟨id, type, syncID, action⟩ := r
  cases type with
  | dnsRecord =>
    simp only [Repo.lookupRecord, Repo.lookup, SnapshotRecord.syncKey, Repo.liveDNSRecord,
      Repo.getResourceByField_dnsRecord]
    cases repo.dnsRecords.live? syncID <;> rfl
  | domainEntryProjection =>
    simp only [Repo.lookupRecord, Repo.lookup, SnapshotRecord.syncKey, Repo.liveDNSRecord]
    cases repo.getDomainEntryProjectionByDomain syncID <;> rfl

theorem foundDomainEntry_lookupRecord (repo : Repo) (r : SnapshotRecord) :
    SnapshotJob.foundDomainEntry (repo.lookupRecord r) = repo.liveDomainEntry r := by
  obtain ⟨id, type, syncID, action⟩ := r
  cases type with
  | dnsRecord =>
    simp only [Repo.lookupRecord, Repo.lookup, SnapshotRecord.syncKey, Repo.liveDomainEntry]
    cases repo.getResourceByField DNSRecord "id" syncID <;> rfl
  | domainEntryProjection =>
    simp only [Repo.lookupRecord, Repo.lookup, SnapshotRecord.syncKey, Repo.liveDomainEntry]
    cases repo.getDomainEntryProjectionByDomain syncID <;> rfl

/-- The chunks of a call hold the live objects of the rows after the
cursor in the order of the log, a thousand at most in each; only the one
at the end is marked last, with the greatest id; and a call that starts
at the id of another chunk sends what follows it. -/
theorem chunks_complete_resumable (repo : Repo) (log : SnapshotRecords) (a : Nat) :
    (snapshotChunks repo.lookupRecord log a).flatMap (·.dnsRecords)
        = (log.after a).filterMap repo.liveDNSRecord
      ∧ (snapshotChunks repo.lookupRecord log a).flatMap (·.domainEntries)
        = (log.after a).filterMap repo.liveDomainEntry
      ∧ (∀ c ∈ snapshotChunks repo.lookupRecord log a,
          c.dnsRecords.length + c.domainEntries.length ≤ 1000)
      ∧ (snapshotChunks repo.lookupRecord log a).Pairwise
          (·.snapshotRecordID ≤ ·.snapshotRecordID)
      ∧ (∃ init last, snapshotChunks repo.lookupRecord log a = init ++ [last]
          ∧ (∀ c ∈ init, c.last = false) ∧ last.last = true
          ∧ last.snapshotRecordID = max a log.lastID)
      ∧ ∀ init c rest, snapshotChunks repo.lookupRecord log a = init ++ c :: rest →
          c.last = false → snapshotChunks repo.lookupRecord log c.snapshotRecordID = rest := by
  have hsends := sends_snapshotChunks repo.lookupRecord log a
  refine ⟨?_, ?_, hsends.length_le, hsends.pairwise_snapshotRecordID (log.pairwise_after a), ?_, ?_⟩
  · rw [hsends.dnsRecords]
    simp only [foundDNSRecord_lookupRecord, nil_append]
  · rw [hsends.domainEntries]
    simp only [foundDomainEntry_lookupRecord, nil_append]
  · obtain ⟨init, last, hchunks, hinit, hlast, hid⟩ := hsends.last_chunk
    exact ⟨init, last, hchunks, hinit, hlast, hid.trans (log.lastID_after a)⟩
  · intro init c rest hchunks hc
    obtain ⟨front, r, back, hafter, hid, hrest⟩ := hsends.resume hchunks hc
    rw [snapshotChunks, hid, SnapshotRecords.after_of_split hafter]
    exact hrest.eq_run.symm

/-! ## The cursor after a catch-up -/

/-- A chunk moves the cursor if there is an object in it. -/
theorem getSnapshotRecordID_applySnapshot_viaProto (db : LocalDB) (s : Snapshot) :
    (db.applySnapshot s.viaProto []).db.getSnapshotRecordID
      = if s.payloads = [] then db.getSnapshotRecordID
        else max db.getSnapshotRecordID s.snapshotRecordID := by
  rw [LocalDB.applySnapshot_nil, LocalDB.getSnapshotRecordID_foldl_applyPayload,
    Snapshot.payloads_viaProto]
  simp only [map_eq_nil_iff]
  rfl

namespace SnapshotJob

def foundCount (lookup : SnapshotRecord → Except RepoError Payload)
    (records : List SnapshotRecord) : Nat :=
  records.countP fun r => (lookup r).isOk

/-- The newest row names an object that is found. -/
def LastFound (lookup : SnapshotRecord → Except RepoError Payload)
    (records : List SnapshotRecord) : Prop :=
  ∃ r, records.getLast? = some r ∧ (lookup r).isOk = true

theorem foundCount_cons (lookup : SnapshotRecord → Except RepoError Payload)
    (job : SnapshotJob) (record : SnapshotRecord) (records : List SnapshotRecord) :
    job.count + foundCount lookup (record :: records)
      = (job.see record (lookup record)).count + foundCount lookup records := by
  rw [foundCount, countP_cons, see_count, Nat.add_comm (List.countP _ _), ← Nat.add_assoc]
  rfl

variable {record : SnapshotRecord} {lookup : SnapshotRecord → Except RepoError Payload}
  {job : SnapshotJob}

theorem lastFound_cons {records : List SnapshotRecord} (h : records ≠ []) :
    LastFound lookup (record :: records) ↔ LastFound lookup records := by
  rw [LastFound, LastFound, List.getLast?_cons_of_ne_nil h]

theorem lastFound_singleton : LastFound lookup [record] ↔ (lookup record).isOk = true := by
  simp [LastFound]

theorem Open.exists_of_full (h : job.Open) {found : Except RepoError Payload}
    (hfull : (job.see record found).count = 1000) : ∃ p, found = .ok p := by
  have hlt := h.lt
  rw [see_count] at hfull
  cases found with
  | ok p => exact ⟨p, rfl⟩
  | error e =>
    have hsame : job.count + 0 = 1000 := hfull
    omega

/-- A full chunk takes the cursor to the id of its last row. -/
theorem Open.cursor_of_full (h : job.Open) {found : Except RepoError Payload}
    (hfull : (job.see record found).count = 1000) {db : LocalDB}
    (hdb : db.getSnapshotRecordID ≤ record.id) :
    (db.applySnapshot ((job.see record found).chunk false).viaProto []).db.getSnapshotRecordID
      = record.id := by
  obtain ⟨p, hp⟩ := h.exists_of_full hfull
  have hpayloads : (job.see record found).payloads ≠ [] :=
    ne_nil_of_mem (mem_payloads_see.mpr (Or.inr hp))
  rw [getSnapshotRecordID_applySnapshot_viaProto, payloads_chunk, if_neg hpayloads, chunk,
    see_lastSeen]
  exact max_eq_right hdb

/-- The cursor of a slave that has applied the chunks is the last id seen,
if something was in the last chunk, or the one before ended with the last
row, or there was nothing to see. -/
theorem Sends.cursor {records : List SnapshotRecord} {chunks : List Snapshot}
    (h : Sends lookup records job chunks) (hrecords : records.Pairwise (·.id < ·.id))
    (hjob : ∀ r ∈ records, job.lastSeen < r.id) {db : LocalDB}
    (hdb : db.getSnapshotRecordID ≤ job.lastSeen) :
    ∃ db', applyChunks chunks db = some db'
      ∧ (db'.getSnapshotRecordID = (records.getLast?.map (·.id)).getD job.lastSeen
        ↔ ¬ 1000 ∣ job.count + foundCount lookup records ∨ LastFound lookup records
          ∨ (records = [] ∧ db.getSnapshotRecordID = job.lastSeen)) := by
  induction h generalizing db with
  | @last job hopen =>
    refine ⟨_, rfl, ?_⟩
    have hempty := hopen.payloads_eq_nil_iff
    have hlt := hopen.lt
    rw [getSnapshotRecordID_applySnapshot_viaProto, payloads_chunk]
    by_cases hzero : job.count = 0
    · rw [if_pos (hempty.mpr hzero)]
      simp [hzero, foundCount, LastFound]
    · rw [if_neg (fun hnil => hzero (hempty.mp hnil)), chunk, max_eq_right hdb]
      have hdvd : ¬ 1000 ∣ job.count := by omega
      simp [foundCount, hdvd]
  | @keep record records job _ hopen hlt _ ih =>
    have hhead := pairwise_cons.mp hrecords
    have hid := hjob record mem_cons_self
    have hcursor : db.getSnapshotRecordID ≤ (job.see record (lookup record)).lastSeen := by
      rw [see_lastSeen]
      omega
    obtain ⟨db', happ, hiff⟩ := ih hhead.2 (by rw [see_lastSeen]; exact hhead.1) hcursor
    refine ⟨db', happ, ?_⟩
    rw [see_lastSeen] at hiff
    rw [getLast?_cons_getD, hiff, foundCount_cons]
    have hne : db.getSnapshotRecordID ≠ record.id := by omega
    rcases eq_or_ne records [] with rfl | hcons
    · -- an object in an open chunk, so their number is no multiple of 1000
      have hcount := see_count job record (lookup record)
      rw [lastFound_singleton]
      simp only [hne, and_false, or_false, LastFound, List.getLast?_nil, reduceCtorEq,
        false_and, exists_false, foundCount, countP_nil, Nat.add_zero]
      grind
    · simp [lastFound_cons hcons, hcons]
  | @send record records job _ hopen hfull _ ih =>
    have hhead := pairwise_cons.mp hrecords
    have hid := hjob record mem_cons_self
    obtain ⟨p, hp⟩ := hopen.exists_of_full hfull
    have hfound : (lookup record).isOk = true := by rw [hp]; rfl
    have hchunk := hopen.cursor_of_full hfull (hdb.trans hid.le)
    obtain ⟨db', happ, hiff⟩ := ih hhead.2 hhead.1 hchunk.le
    refine ⟨db', happ, ?_⟩
    rw [getLast?_cons_getD, hiff, foundCount_cons, hfull]
    rcases eq_or_ne records [] with rfl | hcons
    · simp [hchunk, lastFound_singleton, hfound]
    · simp [lastFound_cons hcons, hcons]

end SnapshotJob

/-- What a slave has that applied the whole log up to `lastID`. -/
structure CaughtUp (log : SnapshotRecords) (lastID : Nat) (db : LocalDB) : Prop where
  cursor : db.getSnapshotRecordID = lastID
  /-- the notice with the next id is applied -/
  next : ∀ p : Payload, db.applyChangelog (p.notice (lastID + 1)) []
    = ⟨db.applyPayload (lastID + 1) p, p.pushed, none⟩
  /-- no row is listed again -/
  covered : log.after db.getSnapshotRecordID = []

theorem SnapshotRecords.after_of_le {log : SnapshotRecords} {a : Nat} (h : log.lastID ≤ a) :
    log.after a = [] := by
  have hlast := log.lastID_after a
  rw [max_eq_left h] at hlast
  by_contra hne
  obtain ⟨r, hr⟩ := Option.ne_none_iff_exists'.mp (mt List.getLast?_eq_none_iff.mp hne)
  have hlt := lt_of_mem_after (mem_of_getLast? hr)
  rw [hr] at hlast
  exact hlt.ne' hlast

theorem caughtUp_iff_cursor {log : SnapshotRecords} {lastID : Nat} {db : LocalDB}
    (h : log.lastID ≤ lastID) : CaughtUp log lastID db ↔ db.getSnapshotRecordID = lastID := by
  constructor
  · exact CaughtUp.cursor
  · intro hcursor
    exact ⟨hcursor, LocalDB.applyChangelog_notice hcursor,
      SnapshotRecords.after_of_le (hcursor ▸ h)⟩

def Repo.liveRecord (repo : Repo) (record : SnapshotRecord) : Bool :=
  (repo.current record.syncKey).isSome

theorem isOk_lookupRecord (repo : Repo) (r : SnapshotRecord) :
    (repo.lookupRecord r).isOk = repo.liveRecord r := by
  rw [Repo.lookupRecord, Repo.lookup_eq, Repo.liveRecord]
  cases repo.current r.syncKey <;> rfl

/-- A catch-up takes the slave to the id of the last chunk exactly if
there are no rows after its cursor, or the newest of them names a live
object, or the number of those that do is no multiple of a thousand. In
every other case the last chunk is empty and its id is not written. -/
theorem caughtUp_iff (repo : Repo) (log : SnapshotRecords) (db : LocalDB) :
    ∃ init last db',
      snapshotChunks repo.lookupRecord log db.getSnapshotRecordID = init ++ [last]
        ∧ last.last = true
        ∧ applyChunks (snapshotChunks repo.lookupRecord log db.getSnapshotRecordID) db = some db'
        ∧ (CaughtUp log last.snapshotRecordID db'
          ↔ log.after db.getSnapshotRecordID = []
            ∨ (∃ r, (log.after db.getSnapshotRecordID).getLast? = some r ∧ repo.liveRecord r = true)
            ∨ ¬ 1000 ∣ (log.after db.getSnapshotRecordID).countP repo.liveRecord) := by
  have hsends := sends_snapshotChunks repo.lookupRecord log db.getSnapshotRecordID
  obtain ⟨init, last, hchunks, -, hlast, hid⟩ := hsends.last_chunk
  obtain ⟨db', happ, hiff⟩ := hsends.cursor (log.pairwise_after _)
    (fun _ => SnapshotRecords.lt_of_mem_after) (le_refl db.getSnapshotRecordID)
  refine ⟨init, last, db', hchunks, hlast, happ, ?_⟩
  have hmax := log.lastID_after db.getSnapshotRecordID
  rw [caughtUp_iff_cursor (by rw [hid]; exact hmax ▸ le_max_right _ _), hid, hiff]
  simp only [SnapshotJob.foundCount, SnapshotJob.LastFound, isOk_lookupRecord, and_true,
    Nat.zero_add]
  exact or_rotate.trans or_left_comm

def deletedRecordLog : SnapshotRecords where
  rows := [⟨1, .dnsRecord, "www", .upsert⟩, ⟨2, .dnsRecord, "www", .delete⟩]
  increasing := by decide

/-- The last chunk says 2, the cursor stays at 0, and the notice 3 is refused. -/
theorem deleted_row_not_passed :
    ∃ db', applyChunks (snapshotChunks Repo.empty.lookupRecord deletedRecordLog 0) LocalDB.empty
        = some db'
      ∧ snapshotChunks Repo.empty.lookupRecord deletedRecordLog 0 = [⟨2, [], [], true⟩]
      ∧ db'.getSnapshotRecordID = 0
      ∧ (db'.applyChangelog { snapshotRecordID := 3, dnsRecord := some { id := "mail" } } []).err
        = some .snapshotOutOfOrder
      ∧ deletedRecordLog.after db'.getSnapshotRecordID = deletedRecordLog.rows :=
  ⟨_, rfl, by decide +kernel, by decide +kernel, by decide +kernel, by decide +kernel⟩

/-! ## Reads that fail -/

/-- An object of the job or of a row is in the chunk once the first row
is taken, or it is of a later row. -/
theorem SnapshotJob.seen_or_later {lookup : SnapshotRecord → Except RepoError Payload}
    {record : SnapshotRecord} {records : List SnapshotRecord} {job : SnapshotJob} {n : Nat}
    {p : Payload} (hp : p ∈ job.payloads ∨ ∃ r ∈ record :: records, r.id ≤ n ∧ lookup r = .ok p) :
    p ∈ (job.see record (lookup record)).payloads ∨ ∃ r ∈ records, r.id ≤ n ∧ lookup r = .ok p := by
  rcases hp with hp | ⟨r, hr, hle, hfound⟩
  · exact Or.inl (mem_payloads_see.mpr (Or.inl hp))
  · rcases mem_cons.mp hr with rfl | hr
    · exact Or.inl (mem_payloads_see.mpr (Or.inr hfound))
    · exact Or.inr ⟨r, hr, hle, hfound⟩

/-- What has been found by the id of a chunk is in it or in an earlier one. -/
theorem SnapshotJob.Sends.contained {lookup : SnapshotRecord → Except RepoError Payload}
    {records : List SnapshotRecord} {job : SnapshotJob} {chunks : List Snapshot}
    (h : Sends lookup records job chunks) (hrecords : records.Pairwise (·.id < ·.id))
    {init rest : List Snapshot} {c : Snapshot} (hchunks : chunks = init ++ c :: rest)
    {p : Payload} (hp : p ∈ job.payloads
      ∨ ∃ r ∈ records, r.id ≤ c.snapshotRecordID ∧ lookup r = .ok p) :
    p ∈ (init ++ [c]).flatMap (·.payloads) := by
  induction h generalizing init with
  | @last job _ =>
    rcases init with _ | ⟨d, init⟩
    · obtain ⟨rfl, -⟩ := List.cons.inj hchunks
      rcases hp with hp | ⟨r, hr, -⟩
      · simpa using hp
      · cases hr
    · simp at hchunks
  | @keep record records job _ _ _ _ ih =>
    exact ih (pairwise_cons.mp hrecords).2 hchunks (seen_or_later hp)
  | @send record records job _ _ _ _ ih =>
    have hhead := pairwise_cons.mp hrecords
    have hsent := seen_or_later hp
    rcases init with _ | ⟨d, init⟩
    · obtain ⟨rfl, -⟩ := List.cons.inj hchunks
      rcases hsent with hp | ⟨r, hr, hle, -⟩
      · simpa using hp
      · rw [chunk, see_lastSeen] at hle
        exact absurd (hhead.1 r hr) (not_lt.mpr hle)
    · obtain ⟨rfl, hrest⟩ := List.cons.inj hchunks
      rcases hsent with hp | hlater
      · exact mem_flatMap.mpr ⟨_, mem_cons_self, hp⟩
      · obtain ⟨e, he, hmem⟩ := mem_flatMap.mp (ih hhead.2 hrest (Or.inr hlater))
        exact mem_flatMap.mpr ⟨e, mem_cons_of_mem _ he, hmem⟩

/-- The reads of a call that fail for another reason than that nothing is
there: the listing, and the lookups by the id of their row. -/
structure ReadFailures where
  list : Option String := none
  lookup : Nat → Option String := fun _ => none

def Repo.lookupFailing (repo : Repo) (failures : ReadFailures) (record : SnapshotRecord) :
    Except RepoError Payload :=
  match failures.lookup record.id with
  | some message => .error (.database message)
  | none => repo.lookupRecord record

structure SnapshotReply where
  sent : List Snapshot
  err : Option RepoError
deriving DecidableEq

/-- `handleGetSnapshot` on a repository whose reads may fail. -/
def handleGetSnapshotFailing (repo : Repo) (log : SnapshotRecords) (snapshotRecordID : Nat)
    (failures : ReadFailures) : SnapshotReply :=
  match failures.list with
  | some message => ⟨[], some (.database message)⟩
  | none => ⟨snapshotChunks (repo.lookupFailing failures) log snapshotRecordID, none⟩

/-- No row is passed whose object is live and was not sent. -/
structure NoEntrySkipped (repo : Repo) (log : SnapshotRecords) (a : Nat)
    (failures : ReadFailures) (call : SnapshotReply) : Prop where
  contained : ∀ init c rest, call.sent = init ++ c :: rest →
    ∀ r ∈ log.rows, a < r.id → r.id ≤ c.snapshotRecordID →
      ∀ p, repo.current r.syncKey = some p → p ∈ (init ++ [c]).flatMap (·.payloads)
  /-- a failing read ends the call before its row is passed -/
  ended : ∀ r ∈ log.rows, a < r.id → (failures.lookup r.id).isSome = true →
    call.err.isSome = true ∧ ∀ c ∈ call.sent, c.snapshotRecordID < r.id

/-- A call skips nothing exactly if its listing fails, or no lookup of a
row after the cursor does: the error of a lookup is taken for an object
that is not there. -/
theorem noEntrySkipped_iff (repo : Repo) (log : SnapshotRecords) (a : Nat)
    (failures : ReadFailures) :
    NoEntrySkipped repo log a failures (handleGetSnapshotFailing repo log a failures)
      ↔ failures.list.isSome = true ∨ ∀ r ∈ log.rows, a < r.id → failures.lookup r.id = none := by
  cases hlist : failures.list with
  | some message =>
    refine ⟨fun _ => Or.inl rfl, fun _ => ⟨?_, ?_⟩⟩
    · intro init c rest hsent
      simp [handleGetSnapshotFailing, hlist] at hsent
    · simp [handleGetSnapshotFailing, hlist]
  | none =>
    have hcall : handleGetSnapshotFailing repo log a failures
        = ⟨snapshotChunks (repo.lookupFailing failures) log a, none⟩ := by
      rw [handleGetSnapshotFailing, hlist]
    rw [hcall]
    constructor
    · intro h
      refine Or.inr fun r hr ha => ?_
      by_contra hfails
      cases (h.ended r hr ha (Option.isSome_iff_ne_none.mpr hfails)).1
    · rintro (hfalse | hreads)
      · cases hfalse
      refine ⟨?_, fun r hr ha hfails => by simp [hreads r hr ha] at hfails⟩
      intro init c rest hsent r hr ha hle p hp
      have hfound : repo.lookupFailing failures r = .ok p := by
        rw [Repo.lookupFailing, hreads r hr ha, Repo.lookupRecord, Repo.lookup_eq, hp]
        rfl
      have hafter : r ∈ log.after a := mem_filter.mpr ⟨hr, by simpa using ha⟩
      exact (sends_snapshotChunks _ log a).contained (log.pairwise_after a) hsent
        (Or.inr ⟨r, hafter, hle, hfound⟩)

def oneRecordRepo : Repo := Repo.empty.upsertResource ({ id := "www" } : DNSRecord)

def oneRecordLog : SnapshotRecords where
  rows := [⟨1, .dnsRecord, "www", .upsert⟩]
  increasing := by decide

/-- The read of the one live record fails: the call returns no error, and
sends a last chunk with the id of its row and nothing in it. -/
theorem failed_read_skips_record :
    handleGetSnapshotFailing oneRecordRepo oneRecordLog 0
        { lookup := fun _ => some "connection reset" } = ⟨[⟨1, [], [], true⟩], none⟩
      ∧ oneRecordRepo.liveRecord ⟨1, .dnsRecord, "www", .upsert⟩ = true
      ∧ ¬ NoEntrySkipped oneRecordRepo oneRecordLog 0
          { lookup := fun _ => some "connection reset" }
          (handleGetSnapshotFailing oneRecordRepo oneRecordLog 0
            { lookup := fun _ => some "connection reset" }) := by
  have hcall : handleGetSnapshotFailing oneRecordRepo oneRecordLog 0
      { lookup := fun _ => some "connection reset" } = ⟨[⟨1, [], [], true⟩], none⟩ := by
    decide +kernel
  refine ⟨hcall, by decide +kernel, fun h => ?_⟩
  have hlive : oneRecordRepo.current ⟨.dnsRecord, "www"⟩
      = some (.dnsRecord ({ id := "www" } : DNSRecord).withDefaults) := by decide +kernel
  rw [hcall] at h
  have hmem := h.contained [] ⟨1, [], [], true⟩ [] rfl ⟨1, .dnsRecord, "www", .upsert⟩
    mem_cons_self (by decide) (by decide) _ hlive
  simp [Snapshot.payloads] at hmem

end LunaEdge
