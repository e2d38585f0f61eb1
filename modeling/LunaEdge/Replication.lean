import Mathlib.Logic.Relation
import LunaEdge.GetSnapshot
import LunaEdge.Hub

/-!
# The replication system

One master with a sequential writer, the hub, the wire, and one slave,
as a labelled step relation. Each step is one atomic action of the
source: a statement of the writer, the read, the append and the hub
broadcast of a `Boardcast...` call, the registration and the forwarding
of a stream's handler, one lookup of a `GetSnapshot` call, one committed
chunk or one received notice at the slave.

The wire delivers in order or breaks. Breaking a stream, failing a call
and restarting the slave are one action, `stop`: the slave keeps its
database and nothing else. The subscription of a broken stream stays in
the hub until its handler notices (`reap`). The slave's own SQL statements
do not fail here: a chunk or a notice is applied whole.

What the writer may write between two broadcasts is a parameter, the
`Discipline`; the step relation itself only fixes the order of its
actions.
-/

namespace LunaEdge

/-! ## States -/

inductive Writer where
  | idle
  /-- between the first statement of a change of `k` and its broadcast -/
  | writing (k : SyncKey)
  /-- inside a broadcast that has its payload -/
  | read (p : Payload)
  /-- the row is appended, the notice not yet handed to the hub -/
  | appended (notice : ChangeNotification)

/-- A `GetSnapshot` call that has listed the log. -/
structure SnapshotCall where
  pending : List SnapshotRecord
  job : SnapshotJob
  /-- the last chunk is sent -/
  done : Bool
  /-- chunks sent and not yet applied -/
  chunks : List Snapshot

/-- A `Subscribe` stream: its subscription in the hub, once its handler has
registered, and the notices sent and not yet received. -/
structure Stream where
  subID : Option Nat
  inflight : List ChangeNotification

inductive Phase where
  | requesting (after : Nat)
  | catchingUp (call : SnapshotCall)
  | waiting (cursor : Nat)

inductive Slave where
  | stopped
  | running (stream : Stream) (phase : Phase)

structure Sys where
  repo : Repo
  log : SnapshotLog
  hub : Hub
  writer : Writer
  slave : Slave
  db : LocalDB

/-- Any content of the master's tables; nothing has been announced yet. -/
def Sys.init (repo : Repo) : Sys where
  repo := repo
  log := .empty
  hub := .new
  writer := .idle
  slave := .stopped
  db := .empty

/-! ## Steps -/

inductive Action where
  | beginWrite
  | write
  | read
  | readDeleted
  | append
  | boardcast
  | register
  | forward
  | reap
  | openStream
  | list
  | lookup
  | finish
  | applyChunk
  | recv
  | stop
deriving Repr, DecidableEq

/-- What the writer may do to the repository while it changes `k`, and
whether it announces deletions. -/
structure Discipline where
  write : SyncKey → Repo → Repo → Prop
  deletes : Prop

inductive Step (node : String) (d : Discipline) : Sys → Action → Sys → Prop
  | beginWrite {s : Sys} (k : SyncKey) (hw : s.writer = .idle) :
      Step node d s .beginWrite { s with writer := .writing k }
  | write {s : Sys} {k : SyncKey} (repo : Repo) (hw : s.writer = .writing k)
      (hd : d.write k s.repo repo) :
      Step node d s .write { s with repo := repo }
  /-- the lookup of a broadcast: nothing found, nothing announced -/
  | readNone {s : Sys} {k : SyncKey} (hw : s.writer = .writing k)
      (hk : s.repo.current k = none) :
      Step node d s .read { s with writer := .idle }
  | readSome {s : Sys} {k : SyncKey} {p : Payload} (hw : s.writer = .writing k)
      (hk : s.repo.current k = some p) :
      Step node d s .read { s with writer := .read p }
  /-- a deletion is announced with a payload the writer kept -/
  | readDeleted {s : Sys} {k : SyncKey} {p : Payload} (hw : s.writer = .writing k)
      (hd : d.deletes) (hk : p.syncKey = k) (hdel : p.deleted = true) :
      Step node d s .readDeleted { s with writer := .read p }
  | append {s : Sys} {p : Payload} (hw : s.writer = .read p) :
      Step node d s .append
        { s with
          log := s.log.append p.syncKey p.snapshotAction
          writer := .appended (p.notice (s.log.lastID + 1)) }
  | boardcast {s : Sys} {notice : ChangeNotification} (hw : s.writer = .appended notice) :
      Step node d s .boardcast
        { s with hub := s.hub.boardcast notice, writer := .idle }
  | register {s : Sys} {inflight : List ChangeNotification} {phase : Phase}
      (hs : s.slave = .running ⟨none, inflight⟩ phase) :
      Step node d s .register
        { s with
          hub := (s.hub.subscribe node 128).2
          slave := .running ⟨some (s.hub.subscribe node 128).1, inflight⟩ phase }
  | forward {s : Sys} {id : Nat} {inflight : List ChangeNotification} {phase : Phase}
      {ch : NoticeChan} {notice : ChangeNotification} {rest : List ChangeNotification}
      (hs : s.slave = .running ⟨some id, inflight⟩ phase)
      (hch : s.hub.chan? node id = some ch) (hbuf : ch.buffer = notice :: rest) :
      Step node d s .forward
        { s with
          hub := s.hub.receive node id
          slave := .running ⟨some id, inflight ++ [notice.viaProto]⟩ phase }
  | reap {s : Sys} (id : Nat)
      (hs : ∀ stream phase, s.slave = .running stream phase → stream.subID ≠ some id) :
      Step node d s .reap { s with hub := s.hub.unsubscribe node id }
  | openStream {s : Sys} (hs : s.slave = .stopped) :
      Step node d s .openStream
        { s with slave := .running ⟨none, []⟩ (.requesting s.db.getSnapshotRecordID) }
  | list {s : Sys} {stream : Stream} {after : Nat}
      (hs : s.slave = .running stream (.requesting after)) :
      Step node d s .list
        { s with
          slave := .running stream
            (.catchingUp ⟨s.log.after after, { lastSeen := after }, false, []⟩) }
  | lookup {s : Sys} {stream : Stream} {call : SnapshotCall} {record : SnapshotRecord}
      {rest : List SnapshotRecord} {job : SnapshotJob} {sent : Option Snapshot}
      (hs : s.slave = .running stream (.catchingUp call))
      (hp : call.pending = record :: rest)
      (hv : call.job.visit record (s.repo.lookup record.syncKey) = (job, sent)) :
      Step node d s .lookup
        { s with
          slave := .running stream (.catchingUp ⟨rest, job, call.done,
              call.chunks ++ sent.toList.map Snapshot.viaProto⟩) }
  | finish {s : Sys} {stream : Stream} {call : SnapshotCall}
      (hs : s.slave = .running stream (.catchingUp call))
      (hp : call.pending = []) (hdone : call.done = false) :
      Step node d s .finish
        { s with
          slave := .running stream (.catchingUp ⟨[], (call.job.sendChunk true).1, true,
              call.chunks ++ (call.job.sendChunk true).2.toList.map Snapshot.viaProto⟩) }
  | applyChunk {s : Sys} {stream : Stream} {call : SnapshotCall} {chunk : Snapshot}
      {rest : List Snapshot} {db : LocalDB}
      (hs : s.slave = .running stream (.catchingUp call))
      (hc : call.chunks = chunk :: rest) (hdb : (s.db.applySnapshot chunk []).db = db) :
      Step node d s .applyChunk
        { s with
          db := db
          slave := .running stream
            (if chunk.last then .waiting db.getSnapshotRecordID
             else .catchingUp { call with chunks := rest }) }
  | recvOld {s : Sys} {sub : Option Nat} {cursor : Nat} {notice : ChangeNotification}
      {rest : List ChangeNotification}
      (hs : s.slave = .running ⟨sub, notice :: rest⟩ (.waiting cursor))
      (hid : notice.snapshotRecordID ≤ cursor) :
      Step node d s .recv { s with slave := .running ⟨sub, rest⟩ (.waiting cursor) }
  /-- a gap: the notice is dropped and the slave catches up -/
  | recvGap {s : Sys} {sub : Option Nat} {cursor : Nat} {notice : ChangeNotification}
      {rest : List ChangeNotification}
      (hs : s.slave = .running ⟨sub, notice :: rest⟩ (.waiting cursor))
      (hid : cursor + 1 < notice.snapshotRecordID) :
      Step node d s .recv { s with slave := .running ⟨sub, rest⟩ (.requesting cursor) }
  | recvNext {s : Sys} {sub : Option Nat} {cursor : Nat} {notice : ChangeNotification}
      {rest : List ChangeNotification} {db : LocalDB}
      (hs : s.slave = .running ⟨sub, notice :: rest⟩ (.waiting cursor))
      (hid : notice.snapshotRecordID = cursor + 1)
      (herr : (s.db.applyChangelog notice []).err = none)
      (hdb : (s.db.applyChangelog notice []).db = db) :
      Step node d s .recv
        { s with
          db := db
          slave := .running ⟨sub, rest⟩ (.waiting notice.snapshotRecordID) }
  | stop {s : Sys} : Step node d s .stop { s with slave := .stopped }

def Steps (node : String) (d : Discipline) : Sys → Sys → Prop :=
  Relation.ReflTransGen fun s t => ∃ a, Step node d s a t

/-- Reachable from a start with some content of the master's tables. -/
def Reachable (node : String) (d : Discipline) (s : Sys) : Prop :=
  ∃ repo, Steps node d (Sys.init repo) s

/-- What holds at the start and survives every step holds in every
reachable state. -/
theorem Reachable.induction {node : String} {d : Discipline} {P : Sys → Prop}
    (hinit : ∀ repo, P (Sys.init repo))
    (hstep : ∀ s a t, Step node d s a t → P s → P t) {s : Sys}
    (h : Reachable node d s) : P s := by
  obtain ⟨repo, hs⟩ := h
  induction hs with
  | refl => exact hinit repo
  | tail _ hst ih =>
    obtain ⟨a, hst⟩ := hst
    exact hstep _ a _ hst ih

/-- An undisturbed change: write, look up, append, broadcast. -/
theorem Steps.announce {node : String} {d : Discipline} {s : Sys} {k : SyncKey}
    {repo : Repo} {p : Payload} (hidle : s.writer = .idle)
    (hd : d.write k s.repo repo) (hk : repo.current k = some p) :
    Steps node d s
      { s with
        repo := repo
        log := s.log.append p.syncKey p.snapshotAction
        hub := s.hub.boardcast (p.notice (s.log.lastID + 1))
        writer := .idle } :=
  .head ⟨_, .beginWrite k hidle⟩ <|
  .head ⟨_, .write repo rfl hd⟩ <|
  .head ⟨_, .readSome rfl hk⟩ <|
  .head ⟨_, .append rfl⟩ <|
  .single ⟨_, .boardcast rfl⟩

/-! ## An undisturbed catch-up

When nothing else moves, the steps of a catch-up are the call
`catchUpSnapshots`. -/

section CatchUp

variable (node : String) (d : Discipline) {stream : Stream}

theorem Steps.lookups (records : List SnapshotRecord) {s : Sys} {job : SnapshotJob}
    {chunks : List Snapshot}
    (hs : s.slave = .running stream (.catchingUp ⟨records, job, false, chunks⟩)) :
    ∃ job', Steps node d s
      { s with
        slave := .running stream (.catchingUp ⟨[], job', true,
            chunks ++ (SnapshotJob.run (fun r => s.repo.lookup r.syncKey) records job).map
              Snapshot.viaProto⟩) } := by
  induction records generalizing s job chunks with
  | nil => exact ⟨_, .single ⟨_, .finish hs rfl rfl⟩⟩
  | cons r rs ih =>
    obtain ⟨job', hsteps⟩ := ih (s := { s with
      slave := .running stream (.catchingUp ⟨rs, (job.visit r (s.repo.lookup r.syncKey)).1, false,
        chunks ++ (job.visit r (s.repo.lookup r.syncKey)).2.toList.map Snapshot.viaProto⟩) }) rfl
    rw [List.append_assoc, ← List.map_append] at hsteps
    exact ⟨job', .head ⟨_, .lookup hs rfl rfl⟩ hsteps⟩

theorem Steps.applyChunks (chunks : List Snapshot) {s : Sys} {call : SnapshotCall}
    {db : LocalDB} (hs : s.slave = .running stream (.catchingUp call))
    (hc : call.chunks = chunks.map Snapshot.viaProto)
    (hdb : applyChunks chunks s.db = some db) :
    Steps node d s
      { s with db := db, slave := .running stream (.waiting db.getSnapshotRecordID) } := by
  induction chunks generalizing s call with
  | nil => cases hdb
  | cons c cs ih =>
    have hstep : Step node d s .applyChunk _ := .applyChunk hs hc rfl
    have hlast : c.viaProto.last = c.last := rfl
    rw [LunaEdge.applyChunks] at hdb
    rw [hlast] at hstep
    cases hl : c.last with
    | true =>
      simp only [hl, if_true] at hdb hstep
      cases hdb
      exact .single ⟨_, hstep⟩
    | false =>
      simp only [hl] at hdb hstep
      exact .head ⟨_, hstep⟩ (ih rfl rfl hdb)

theorem Steps.catchUp {s : Sys} {after : Nat} {db : LocalDB}
    (hs : s.slave = .running stream (.requesting after))
    (hdb : catchUpSnapshots s.repo s.log after s.db = some db) :
    Steps node d s
      { s with db := db, slave := .running stream (.waiting db.getSnapshotRecordID) } := by
  obtain ⟨job', hlook⟩ := Steps.lookups node d (s.log.after after)
    (s := { s with
      slave := .running stream
        (.catchingUp ⟨s.log.after after, { lastSeen := after }, false, []⟩) }) rfl
  exact .head ⟨_, .list hs⟩ (hlook.trans (Steps.applyChunks node d _ rfl rfl hdb))

end CatchUp

end LunaEdge
