import LunaEdge.Replication

/-!
# The replication invariant

The property of `CursorLog` for the replication system: the rows of the
slave are up to date at its persisted cursor, every notice under way
announces its log entry, and the chunks under way leave the rows up to
date one after the other. A key is settled when the writer is not between
the first write of it and the append of its log entry.

The part about values only holds for a writer that never deletes, since a
lookup for an object that is gone finds nothing to send. The part about
ids holds for every writer. Both are carried by one invariant with a
parameter: without `strict` no key counts as settled, and only the ids
remain.
-/

namespace LunaEdge

open CursorLog List

/-! ## What the parts of a state must satisfy -/

/-- The key whose change is not yet in the log. -/
def Writer.busy : Writer → SyncKey → Prop
  | .writing k, j => j = k
  | .read p, j => j = p.syncKey
  | .idle, _ => False
  | .appended _, _ => False

def Writer.settled (strict : Prop) (w : Writer) (k : SyncKey) : Prop := strict ∧ ¬ w.busy k

/-- The object of `k` as a slave would receive it. -/
def Repo.wire (repo : Repo) (k : SyncKey) : Option Payload := (repo.current k).map Payload.viaProto

section Parts

variable (log : SnapshotLog) (settled : SyncKey → Prop)
variable (current : SyncKey → Option Payload)

/-- A notice at the slave's end of the wire. -/
def NoticeOK (c : ChangeNotification) : Prop :=
  ∃ n p, c = Payload.notice p n ∧ Announces log.keys settled current n p.syncKey p.cell

def chunkBatch (c : Snapshot) : List (SyncKey × Option Payload) × Nat :=
  (Payload.cells c.payloads, c.snapshotRecordID)

def jobBatch (job : SnapshotJob) : List (SyncKey × Option Payload) × Nat :=
  (wireCells job.payloads, job.lastSeen)

structure CallOK (db : LocalDB) (call : SnapshotCall) : Prop where
  pipeline : Pipeline log.keys settled current db.getSnapshotRecordID db.row
    (call.chunks.map chunkBatch) (jobBatch call.job)
  segment : call.pending <+: log.records.drop call.job.lastSeen
  lastChunk : ∀ c ∈ call.chunks, c.last = true →
    call.pending = [] ∧ c.snapshotRecordID = call.job.lastSeen
  notDone : call.done = false → ∀ c ∈ call.chunks, c.last = false

def PhaseOK (db : LocalDB) : Phase → Prop
  | .requesting after => after = db.getSnapshotRecordID
  | .catchingUp call => CallOK log settled current db call
  | .waiting cursor => cursor = db.getSnapshotRecordID

def SlaveOK (db : LocalDB) : Slave → Prop
  | .stopped => True
  | .running stream phase =>
    (∀ c ∈ stream.inflight, NoticeOK log settled current c) ∧ PhaseOK log settled current db phase

def HubOK (node : String) (hub : Hub) : Prop :=
  ∀ id ch, hub.chan? node id = some ch →
    ∀ c ∈ ch.buffer, NoticeOK log settled current c.viaProto

/-- The payload or the notice in the writer's hand. -/
def WriterOK (repo : Repo) (strict : Prop) : Writer → Prop
  | .read p => strict → repo.current p.syncKey = some p
  | .appended c =>
    NoticeOK log settled current c.viaProto ∧ c.snapshotRecordID = log.lastID
  | .idle => True
  | .writing _ => True

end Parts

structure Inv (node : String) (strict : Prop) (s : Sys) : Prop where
  live : strict → ∀ k ∈ s.log.keys, (s.repo.current k).isSome
  writer : WriterOK s.log (s.writer.settled strict) s.repo.wire s.repo strict s.writer
  hub : HubOK s.log (s.writer.settled strict) s.repo.wire node s.hub
  cursor : s.db.getSnapshotRecordID ≤ s.log.lastID
  rows : UpToDate s.log.keys (s.writer.settled strict) s.repo.wire s.db.row
    s.db.getSnapshotRecordID
  slave : SlaveOK s.log (s.writer.settled strict) s.repo.wire s.db s.slave

/-! ## The source changes -/

section Source

variable {log : SnapshotLog} {settled settled' : SyncKey → Prop}
variable {current current' : SyncKey → Option Payload}

theorem NoticeOK.write {c : ChangeNotification} (h : NoticeOK log settled current c)
    (hw : ∀ k ∈ log.keys, settled' k → settled k ∧ current' k = current k) :
    NoticeOK log settled' current' c := by
  obtain ⟨n, p, rfl, ha⟩ := h
  exact ⟨n, p, rfl, ha.write hw⟩

variable {k : SyncKey} {a : SnapshotAction} {db : LocalDB}

theorem NoticeOK.append {c : ChangeNotification} (h : NoticeOK log settled current c)
    (hset : ∀ j ≠ k, settled' j → settled j) : NoticeOK (log.append k a) settled' current c := by
  obtain ⟨n, p, rfl, ha⟩ := h
  refine ⟨n, p, rfl, ?_⟩
  rw [SnapshotLog.keys_append]
  exact ha.append hset

theorem SlaveOK.write {slave : Slave} (h : SlaveOK log settled current db slave)
    (hw : ∀ k ∈ log.keys, settled' k → settled k ∧ current' k = current k) :
    SlaveOK log settled' current' db slave := by
  match slave with
  | .stopped => trivial
  | .running stream phase =>
    obtain ⟨hin, hph⟩ := h
    refine ⟨fun c hc => (hin c hc).write hw, ?_⟩
    match phase with
    | .requesting after => exact hph
    | .waiting cursor => exact hph
    | .catchingUp call => exact { hph with pipeline := hph.pipeline.write hw }

theorem CallOK.append {call : SnapshotCall} (h : CallOK log settled current db call)
    (hset : ∀ j ≠ k, settled' j → settled j) :
    CallOK (log.append k a) settled' current db call where
  pipeline := by
    rw [SnapshotLog.keys_append]
    exact h.pipeline.append hset
  segment := by
    rw [SnapshotLog.append, drop_append]
    exact h.segment.trans (prefix_append _ _)
  lastChunk := h.lastChunk
  notDone := h.notDone

theorem SlaveOK.append {slave : Slave} (h : SlaveOK log settled current db slave)
    (hset : ∀ j ≠ k, settled' j → settled j) :
    SlaveOK (log.append k a) settled' current db slave := by
  match slave with
  | .stopped => trivial
  | .running stream phase =>
    obtain ⟨hin, hph⟩ := h
    refine ⟨fun c hc => (hin c hc).append hset, ?_⟩
    match phase with
    | .requesting after => exact hph
    | .waiting cursor => exact hph
    | .catchingUp call => exact CallOK.append hph hset

end Source

/-! ## The writer's steps -/

/-- A writer that only upserts: it changes the object it will announce and
no other, and no object that was found before is lost. -/
def Discipline.upsertsOnly : Discipline where
  write k repo repo' :=
    (∀ j ≠ k, repo'.current j = repo.current j)
      ∧ ((repo.current k).isSome → (repo'.current k).isSome)
  deletes := False

section Steps

variable {node : String} {strict : Prop} {s : Sys}

variable {repo : Repo} {k : SyncKey} {p : Payload} {c : ChangeNotification} {job : SnapshotJob}
  {current : SyncKey → Option Payload} {log : SnapshotLog} {record : SnapshotRecord}
  {call : SnapshotCall} {db : LocalDB}

/-- The writer moves on, or writes, without touching the log. -/
theorem Inv.change {w : Writer} (h : Inv node strict s)
    (hw : ∀ k ∈ s.log.keys, w.settled strict k → s.writer.settled strict k ∧ repo.wire k = s.repo.wire k)
    (hlive : strict → ∀ k ∈ s.log.keys, (repo.current k).isSome)
    (hwriter : WriterOK s.log (w.settled strict) repo.wire repo strict w) :
    Inv node strict { s with repo := repo, writer := w } where
  live := hlive
  writer := hwriter
  hub := fun id ch hch c hc => (h.hub id ch hch c hc).write hw
  cursor := h.cursor
  rows := h.rows.write hw
  slave := h.slave.write hw

theorem Inv.beginWrite (k : SyncKey) (h : Inv node strict s) (hw : s.writer = .idle) :
    Inv node strict { s with writer := .writing k } := by
  refine h.change (fun j _ hj => ⟨⟨hj.1, ?_⟩, rfl⟩) h.live trivial
  rw [hw]
  exact id

section

variable (h : Inv node strict s)

include h

theorem Inv.write (hw : s.writer = .writing k)
    (hd : strict → Discipline.upsertsOnly.write k s.repo repo) :
    Inv node strict { s with repo := repo } := by
  have hcur : ∀ j, s.writer.settled strict j → repo.current j = s.repo.current j := by
    intro j hj
    have hne : j ≠ k := fun heq => hj.2 (by rw [hw]; exact heq)
    exact (hd hj.1).1 j hne
  refine h.change (fun j _ hj => ⟨hj, by rw [Repo.wire, hcur j hj, Repo.wire]⟩)
    (fun hs j hj => ?_) (by rw [hw]; trivial)
  have hold := h.live hs j hj
  by_cases hjk : j = k
  · subst hjk
    exact (hd hs).2 hold
  · rw [(hd hs).1 j hjk]
    exact hold

theorem Inv.readNone (hw : s.writer = .writing k) (hk : s.repo.current k = none) :
    Inv node strict { s with writer := .idle } := by
  refine h.change (fun j hj hs => ⟨⟨hs.1, ?_⟩, rfl⟩) h.live trivial
  rw [hw]
  rintro rfl
  -- the key is in the log, so it cannot have gone missing
  have hsome := h.live hs.1 j hj
  rw [hk] at hsome
  cases hsome

theorem Inv.readSome (hw : s.writer = .writing k) (hk : s.repo.current k = some p) :
    Inv node strict { s with writer := .read p } := by
  obtain ⟨hkey, -⟩ := Repo.current_spec hk
  refine h.change (fun j _ hs => ⟨⟨hs.1, ?_⟩, rfl⟩) h.live (fun _ => hkey ▸ hk)
  rw [hw]
  intro hj
  exact hs.2 (hj.trans hkey.symm)

theorem Inv.readDeleted (hd : ¬ strict) : Inv node strict { s with writer := .read p } :=
  h.change (fun _ _ hs => absurd hs.1 hd) h.live fun hs => absurd hs hd

theorem Inv.append (hw : s.writer = .read p) :
    Inv node strict
      { s with
        log := s.log.append p.syncKey p.snapshotAction
        writer := .appended (p.notice (s.log.lastID + 1)) } := by
  have hread : strict → s.repo.current p.syncKey = some p := by
    have hwr := h.writer
    rw [hw] at hwr
    exact hwr
  have hset : ∀ j ≠ p.syncKey,
      (Writer.appended (p.notice (s.log.lastID + 1))).settled strict j →
        s.writer.settled strict j := by
    intro j hne hj
    exact ⟨hj.1, by rw [hw]; exact hne⟩
  refine
    { live := fun hs k hk => ?_
      writer := ⟨⟨s.log.lastID + 1, p.viaProto, p.notice_viaProto _, ?_⟩, by simp⟩
      hub := fun id ch hch c hc => (h.hub id ch hch c hc).append hset
      cursor := ?_
      rows := ?_
      slave := h.slave.append hset }
  · rw [SnapshotLog.keys_append, mem_append, mem_singleton] at hk
    rcases hk with hk | rfl
    · exact h.live hs k hk
    · rw [hread hs]; rfl
  · rw [SnapshotLog.keys_append, Payload.syncKey_viaProto, ← SnapshotLog.length_keys]
    refine Announces.last fun hs => ?_
    have hdel := (Repo.current_spec (hread hs.1)).2
    rw [Repo.wire, hread hs.1, Payload.cell, Payload.deleted_viaProto, hdel]
    rfl
  · simp only [SnapshotLog.lastID_append]
    exact Nat.le_succ_of_le h.cursor
  · simp only [SnapshotLog.keys_append]
    exact h.rows.append (by rw [SnapshotLog.length_keys]; exact h.cursor) hset

theorem Inv.boardcast (hw : s.writer = .appended c) :
    Inv node strict { s with hub := s.hub.boardcast c, writer := .idle } := by
  have hidle : Inv node strict { s with writer := .idle } :=
    h.change (fun j _ hj => ⟨⟨hj.1, by rw [hw]; exact id⟩, rfl⟩) h.live trivial
  have hc : NoticeOK s.log (Writer.idle.settled strict) s.repo.wire c.viaProto := by
    have hwr := h.writer
    rw [hw] at hwr
    exact hwr.1.write fun j _ hj => ⟨⟨hj.1, id⟩, rfl⟩
  refine { hidle with hub := fun id ch hch c' hc' => ?_ }
  rw [Hub.chan?_boardcast, Option.map_eq_some_iff] at hch
  obtain ⟨ch', hch', rfl⟩ := hch
  rcases NoticeChan.mem_trySend hc' with hold | rfl
  · exact hidle.hub id ch' hch' c' hold
  · exact hc

/-! ## The steps of the stream and of the slave -/

theorem Inv.register {inflight : List ChangeNotification} {phase : Phase}
    (hs : s.slave = .running ⟨none, inflight⟩ phase) :
    Inv node strict
      { s with
        hub := (s.hub.subscribe node 128).2
        slave := .running ⟨some (s.hub.subscribe node 128).1, inflight⟩ phase } := by
  have hsl := h.slave
  rw [hs] at hsl
  refine { h with hub := fun id ch hch c hc => ?_, slave := ⟨hsl.1, hsl.2⟩ }
  rw [Hub.chan?_subscribe] at hch
  split at hch
  · cases hch
    cases hc
  · exact h.hub id ch hch c hc

theorem Inv.forward {id : Nat} {inflight : List ChangeNotification} {phase : Phase}
    {ch : NoticeChan} {rest : List ChangeNotification}
    (hs : s.slave = .running ⟨some id, inflight⟩ phase) (hch : s.hub.chan? node id = some ch)
    (hbuf : ch.buffer = c :: rest) :
    Inv node strict
      { s with
        hub := s.hub.receive node id
        slave := .running ⟨some id, inflight ++ [c.viaProto]⟩ phase } := by
  have hsl := h.slave
  rw [hs] at hsl
  refine { h with hub := fun i ch' hch' c' hc' => ?_, slave := ⟨fun c' hc' => ?_, hsl.2⟩ }
  · rw [Hub.chan?_receive] at hch'
    split at hch'
    · obtain ⟨ch₀, hch₀, rfl⟩ := Option.map_eq_some_iff.mp hch'
      exact h.hub i ch₀ hch₀ c' (mem_of_mem_tail hc')
    · exact h.hub i ch' hch' c' hc'
  · rcases mem_append.mp hc' with hold | hnew
    · exact hsl.1 c' hold
    · rw [mem_singleton.mp hnew]
      exact h.hub id ch hch c (by rw [hbuf]; exact mem_cons_self)

theorem Inv.reap {id : Nat} : Inv node strict { s with hub := s.hub.unsubscribe node id } := by
  refine { h with hub := fun i ch hch c hc => ?_ }
  rw [Hub.chan?_unsubscribe] at hch
  split at hch
  · cases hch
  · exact h.hub i ch hch c hc

theorem Inv.openStream :
    Inv node strict
      { s with
        slave := .running ⟨none, []⟩ (.requesting s.db.getSnapshotRecordID) } :=
  { h with slave := ⟨fun _ hc => absurd hc not_mem_nil, rfl⟩ }

theorem Inv.list {stream : Stream} {after : Nat}
    (hs : s.slave = .running stream (.requesting after)) :
    Inv node strict
      { s with
        slave := .running stream
          (.catchingUp ⟨s.log.after after, { lastSeen := after }, false, []⟩) } := by
  have hsl := h.slave
  rw [hs] at hsl
  obtain ⟨hin, hafter⟩ := hsl
  subst hafter
  refine { h with slave := ⟨hin, ?_⟩ }
  exact
    { pipeline := ⟨Nat.le_refl _, by rw [SnapshotLog.length_keys]; exact h.cursor, h.rows⟩
      segment := by simp only [SnapshotLog.after_eq_drop, prefix_refl]
      lastChunk := fun c hc => by cases hc
      notDone := fun _ c hc => by cases hc }

end

theorem chunkBatch_viaProto (job : SnapshotJob) (last : Bool) :
    chunkBatch (job.chunk last).viaProto = jobBatch job := by
  rw [chunkBatch, cells_viaProto, SnapshotJob.payloads_chunk]
  rfl

theorem pipeline_send {log : List SyncKey} {settled : SyncKey → Prop}
    {rows : SyncKey → Option Payload} {b : Nat}
    {batches : List (List (SyncKey × Option Payload) × Nat)}
    (h : Pipeline log settled current b rows batches (jobBatch job)) (last : Bool) :
    Pipeline log settled current b rows
      (batches ++ [chunkBatch (job.chunk last).viaProto])
      (jobBatch { lastSeen := job.lastSeen }) := by
  rw [chunkBatch_viaProto]
  exact h.send

theorem pipeline_visit {settled : SyncKey → Prop} {b : Nat} {rows : SyncKey → Option Payload}
    {batches : List (List (SyncKey × Option Payload) × Nat)}
    (h : Pipeline log.keys settled repo.wire b rows batches (jobBatch job))
    (hrec : log.records[job.lastSeen]? = some record)
    (hlive : settled record.syncKey → (repo.current record.syncKey).isSome) :
    Pipeline log.keys settled repo.wire b rows batches
      (jobBatch ({ job with lastSeen := record.id }.add (repo.lookup record.syncKey))) := by
  have hkey : log.keys[job.lastSeen]? = some record.syncKey := by
    simp [SnapshotLog.keys, hrec]
  have hid : record.id = job.lastSeen + 1 := SnapshotLog.id_of_getElem? hrec
  rw [jobBatch, SnapshotJob.add_lastSeen, hid]
  rw [Repo.lookup_eq]
  cases hcur : repo.current record.syncKey with
  | none =>
    refine h.look hkey (fun hs => ?_) fun _ _ _ => rfl
    have hsome := hlive hs
    rw [hcur] at hsome
    cases hsome
  | some p =>
    obtain ⟨hpk, hdel⟩ := Repo.current_spec hcur
    refine h.look hkey (fun _ rows => ?_) fun rows j hj => ?_
    · rw [orNotFound, SnapshotJob.overlay_add, hpk, Function.update_self, Repo.wire, hcur,
        Payload.cell, Payload.deleted_viaProto, hdel]
      rfl
    · rw [orNotFound, SnapshotJob.overlay_add, hpk, Function.update_of_ne hj]
      rfl

theorem CallOK.nextRecord {settled : SyncKey → Prop} {rest : List SnapshotRecord}
    (h : CallOK log settled current db call) (hp : call.pending = record :: rest) :
    log.records[call.job.lastSeen]? = some record
      ∧ record.id = call.job.lastSeen + 1 ∧ rest <+: log.records.drop record.id := by
  obtain ⟨tl, htl⟩ := h.segment
  rw [hp] at htl
  have hrec : log.records[call.job.lastSeen]? = some record := by
    have h0 : (log.records.drop call.job.lastSeen)[0]? = some record := by
      rw [← htl]; rfl
    simpa using h0
  have hid : record.id = call.job.lastSeen + 1 := SnapshotLog.id_of_getElem? hrec
  refine ⟨hrec, hid, tl, ?_⟩
  rw [hid, ← tail_drop, ← htl]
  rfl

theorem CallOK.lookup {settled : SyncKey → Prop} {rest : List SnapshotRecord}
    {sent : Option Snapshot} (h : CallOK log settled repo.wire db call)
    (hlive : ∀ k ∈ log.keys, settled k → (repo.current k).isSome)
    (hp : call.pending = record :: rest)
    (hv : call.job.visit record (repo.lookup record.syncKey) = (job, sent)) :
    CallOK log settled repo.wire db
      ⟨rest, job, call.done, call.chunks ++ sent.toList.map Snapshot.viaProto⟩ := by
  obtain ⟨hrec, -, hseg⟩ := h.nextRecord hp
  have hmem : record.syncKey ∈ log.keys := mem_map_of_mem (mem_of_getElem? hrec)
  have hnone : ∀ c ∈ call.chunks, c.last = false := by
    intro c hc
    cases hl : c.last with
    | false => rfl
    | true =>
      have := (h.lastChunk c hc hl).1
      rw [hp] at this
      cases this
  have hpipe := pipeline_visit h.pipeline hrec (hlive _ hmem)
  obtain ⟨job', rfl, hkeep | hsend⟩ :=
    SnapshotJob.visit_cases call.job record (repo.lookup record.syncKey)
  · rw [hkeep] at hv
    cases hv
    simp only [Option.toList_none, map_nil, append_nil]
    refine ⟨hpipe, ?_, fun c hc hl => ?_, fun _ => hnone⟩
    · rw [SnapshotJob.add_lastSeen]
      exact hseg
    · rw [hnone c hc] at hl
      cases hl
  · rw [hsend] at hv
    cases hv
    have hall : ∀ c ∈ call.chunks ++
        [(({ call.job with lastSeen := record.id }.add
            (repo.lookup record.syncKey)).chunk false).viaProto], c.last = false := by
      intro c hc
      rcases mem_append.mp hc with hold | hnew
      · exact hnone c hold
      · rw [mem_singleton.mp hnew]; rfl
    refine ⟨?_, hseg, fun c hc hl => ?_, fun _ => hall⟩
    · have hsent := pipeline_send hpipe false
      rw [SnapshotJob.add_lastSeen] at hsent
      rw [map_append]
      exact hsent
    · rw [hall c hc] at hl
      cases hl

theorem CallOK.finish {settled : SyncKey → Prop} (h : CallOK log settled current db call)
    (hdone : call.done = false) :
    CallOK log settled current db
      ⟨[], (call.job.sendChunk true).1, true,
        call.chunks ++ (call.job.sendChunk true).2.toList.map Snapshot.viaProto⟩ := by
  rcases SnapshotJob.sendChunk_cases call.job true with ⟨-, -, hfalse⟩ | hsend
  · cases hfalse
  · rw [hsend]
    refine ⟨?_, nil_prefix, fun c hc hl => ⟨rfl, ?_⟩, fun hf => by cases hf⟩
    · rw [map_append]
      exact pipeline_send h.pipeline true
    · rcases mem_append.mp hc with hold | hnew
      · rw [h.notDone hdone c hold] at hl
        cases hl
      · rw [mem_singleton.mp hnew]; rfl

theorem CallOK.applyChunk {settled : SyncKey → Prop} {db' : LocalDB} {chunk : Snapshot}
    {rest : List Snapshot} (h : CallOK log settled current db call)
    (hc : call.chunks = chunk :: rest) (hcursor : db.getSnapshotRecordID ≤ log.lastID)
    (hrows : UpToDate log.keys settled current db.row db.getSnapshotRecordID)
    (hdb : (db.applySnapshot chunk []).db = db') :
    db'.getSnapshotRecordID ≤ log.lastID
      ∧ UpToDate log.keys settled current db'.row db'.getSnapshotRecordID
      ∧ CallOK log settled current db' { call with chunks := rest } := by
  have hpipe := h.pipeline
  rw [hc] at hpipe
  obtain ⟨hb, hlen, hup, hrest⟩ := hpipe
  rw [LocalDB.applySnapshot_nil] at hdb
  subst hdb
  have hrow : (chunk.payloads.foldl (LocalDB.applyPayload chunk.snapshotRecordID) db).row
      = overlay db.row (chunkBatch chunk).1 :=
    LocalDB.row_foldl_applyPayload _ _ _
  have hcur := LocalDB.getSnapshotRecordID_foldl_applyPayload
    chunk.snapshotRecordID chunk.payloads db
  have hlast : ∀ c ∈ rest, c.last = true →
      call.pending = [] ∧ c.snapshotRecordID = call.job.lastSeen := fun c hcr =>
    h.lastChunk c (by rw [hc]; exact mem_cons_of_mem _ hcr)
  have hdone : call.done = false → ∀ c ∈ rest, c.last = false := fun hf c hcr =>
    h.notDone hf c (by rw [hc]; exact mem_cons_of_mem _ hcr)
  have hlen' : chunk.snapshotRecordID ≤ log.lastID := by
    rw [← SnapshotLog.length_keys]; exact hlen
  have hb' : db.getSnapshotRecordID ≤ chunk.snapshotRecordID := hb
  by_cases hnil : chunk.payloads = []
  · -- nothing in the chunk: rows and cursor stay where they were
    rw [if_pos hnil] at hcur
    rw [hcur, hrow]
    have hcells : (chunkBatch chunk).1 = [] := by simp [chunkBatch, Payload.cells, hnil]
    rw [hcells] at hrest ⊢
    refine ⟨hcursor, hrows, ?_, h.segment, hlast, hdone⟩
    rw [hcur, hrow, hcells]
    exact hrest.mono hb
  · rw [if_neg hnil, Nat.max_eq_right hb'] at hcur
    rw [hcur, hrow]
    refine ⟨hlen', hup, ?_, h.segment, hlast, hdone⟩
    rw [hcur, hrow]
    exact hrest

theorem Inv.applyChunk {stream : Stream} {chunk : Snapshot} {rest : List Snapshot}
    (h : Inv node strict s) (hs : s.slave = .running stream (.catchingUp call))
    (hc : call.chunks = chunk :: rest) (hdb : (s.db.applySnapshot chunk []).db = db) :
    Inv node strict
      { s with
        db := db
        slave := .running stream
          (if chunk.last then .waiting db.getSnapshotRecordID
           else .catchingUp { call with chunks := rest }) } := by
  have hsl := h.slave
  rw [hs] at hsl
  obtain ⟨hin, hcall⟩ := hsl
  obtain ⟨hcur, hrows, hcall'⟩ := CallOK.applyChunk hcall hc h.cursor h.rows hdb
  refine { h with cursor := hcur, rows := hrows, slave := ⟨hin, ?_⟩ }
  split
  · exact rfl
  · exact hcall'

theorem Inv.recvNext {sub : Option Nat} {cursor : Nat} {rest : List ChangeNotification}
    (h : Inv node strict s) (hs : s.slave = .running ⟨sub, c :: rest⟩ (.waiting cursor))
    (hid : c.snapshotRecordID = cursor + 1) (hdb : (s.db.applyChangelog c []).db = db) :
    Inv node strict
      { s with
        db := db
        slave := .running ⟨sub, rest⟩ (.waiting c.snapshotRecordID) } := by
  have hsl := h.slave
  rw [hs] at hsl
  obtain ⟨hin, hcursor⟩ := hsl
  have hcursor : cursor = s.db.getSnapshotRecordID := hcursor
  subst hcursor
  obtain ⟨n, p, rfl, ha⟩ := hin c mem_cons_self
  rw [Payload.notice_snapshotRecordID] at hid
  subst hid
  rw [LocalDB.applyChangelog_notice rfl] at hdb
  subst hdb
  have hcur := LocalDB.getSnapshotRecordID_applyPayload_succ (Eq.refl s.db.getSnapshotRecordID) p
  refine
    { h with
      cursor := ?_
      rows := ?_
      slave := ⟨fun c' hc' => hin c' (mem_cons_of_mem _ hc'), ?_⟩ }
  · simp only [hcur]
    have := ha.le_length
    rwa [SnapshotLog.length_keys] at this
  · simp only [hcur, LocalDB.row_applyPayload]
    exact h.rows.announced ha (Function.update_self ..)
      fun k' hk' => Function.update_of_ne hk' ..
  · rw [PhaseOK, hcur, Payload.notice_snapshotRecordID]

/-! ## Every step -/

theorem Inv.init (repo : Repo) : Inv node strict (Sys.init repo) where
  live := fun _ k hk => by cases hk
  writer := trivial
  hub := fun id ch hch => by cases hch
  cursor := Nat.le_refl _
  rows := UpToDate.nil
  slave := trivial

theorem Inv.step {d : Discipline} (hd : strict → d = .upsertsOnly) {a : Action} {t : Sys}
    (hst : Step node d s a t) (h : Inv node strict s) : Inv node strict t := by
  cases hst with
  | beginWrite k hw => exact h.beginWrite k hw
  | write repo hw hwr => exact h.write hw fun hs => by rw [← hd hs]; exact hwr
  | readNone hw hk => exact h.readNone hw hk
  | readSome hw hk => exact h.readSome hw hk
  | readDeleted hw hdel _ _ =>
    exact h.readDeleted fun hs => by rw [hd hs] at hdel; exact hdel
  | append hw => exact h.append hw
  | boardcast hw => exact h.boardcast hw
  | register hs => exact h.register hs
  | forward hs hch hbuf => exact h.forward hs hch hbuf
  | reap id _ => exact h.reap
  | openStream _ => exact h.openStream
  | list hs => exact h.list hs
  | lookup hs hp hv =>
    have hsl := h.slave
    rw [hs] at hsl
    have hlive : ∀ k ∈ s.log.keys, s.writer.settled strict k →
        (s.repo.current k).isSome := fun k hk hset => h.live hset.1 k hk
    exact { h with slave := ⟨hsl.1, CallOK.lookup hsl.2 hlive hp hv⟩ }
  | finish hs _ hdone =>
    have hsl := h.slave
    rw [hs] at hsl
    exact { h with slave := ⟨hsl.1, CallOK.finish hsl.2 hdone⟩ }
  | applyChunk hs hc hdb => exact h.applyChunk hs hc hdb
  | recvOld hs _ =>
    have hsl := h.slave
    rw [hs] at hsl
    exact { h with slave := ⟨fun c hc => hsl.1 c (mem_cons_of_mem _ hc), hsl.2⟩ }
  | recvGap hs _ =>
    have hsl := h.slave
    rw [hs] at hsl
    exact { h with slave := ⟨fun c hc => hsl.1 c (mem_cons_of_mem _ hc), hsl.2⟩ }
  | recvNext hs hid _ hdb => exact h.recvNext hs hid hdb
  | stop => exact { h with slave := trivial }

theorem Inv.reachable {d : Discipline} (hd : strict → d = .upsertsOnly)
    (h : Reachable node d s) : Inv node strict s :=
  h.induction Inv.init fun _ _ _ hst hi => hi.step hd hst

end Steps

end LunaEdge
