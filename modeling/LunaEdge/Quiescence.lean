import LunaEdge.ReplicationInvariant

/-!
# Quiescent slaves

When the writer is idle, the slave waits in `Recv` and nothing is queued
or under way, is the slave at the end of the log? Not always, for the
slave finds a gap only when a later notice arrives, and the notice of the
newest row can be lost in two ways: the hub drops it rather than wait for
a full channel, or it is broadcast after a catch-up has listed the log
and before the stream's channel is registered. Besides, a catch-up whose
last chunk is empty leaves `sync_state` where it was (`quiescent_behind`).

In the runs that avoid these three (`Delivered`) a quiescent slave is up
to date. The argument follows the newest row of the log: from the time a
catch-up lists the log, that row is at or below the position the slave is
moving to, or its notice is still under way (`Follows`).
-/

namespace LunaEdge

open CursorLog List

/-! ## Runs that lose no notice -/

def Sys.streamChan (node : String) (s : Sys) : Option NoticeChan :=
  match s.slave with
  | .stopped => none
  | .running stream _ => stream.subID.bind fun id => s.hub.chan? node id

/-- The slave has yet to ask for the log. -/
def Sys.beforeListing (s : Sys) : Bool :=
  match s.slave with
  | .stopped | .running _ (.requesting _) => true
  | _ => false

/-- The next chunk of the catch-up is its last one, has no payloads and is
numbered beyond the slave's cursor. -/
def Sys.shortChunk (s : Sys) : Bool :=
  match s.slave with
  | .running _ (.catchingUp ⟨_, _, _, chunk :: _⟩) =>
    chunk.last && chunk.payloads.isEmpty
      && decide (s.db.getSnapshotRecordID < chunk.snapshotRecordID)
  | _ => false

/-- A broadcast finds room in the channel of the stream, unless the slave
has yet to list the log; no catch-up ends with a short chunk. -/
def Delivers (node : String) (s : Sys) (a : Action) : Prop :=
  match a with
  | .boardcast =>
    s.beforeListing = true ∨ ∃ ch, s.streamChan node = some ch ∧ ch.buffer.length < ch.cap
  | .applyChunk => s.shortChunk = false
  | _ => True

/-- The states of the runs whose steps all meet `Delivers`. -/
inductive Delivered (node : String) (d : Discipline) : Sys → Prop
  | init (repo : Repo) : Delivered node d (Sys.init repo)
  | step {s t : Sys} {a : Action} (h : Delivered node d s) (hst : Step node d s a t)
      (hd : Delivers node s a) : Delivered node d t

variable {node : String} {d : Discipline} {s : Sys}

theorem Delivered.reachable (h : Delivered node d s) : Reachable node d s := by
  induction h with
  | init repo => exact ⟨repo, .refl⟩
  | step _ hst _ ih =>
    obtain ⟨repo, hsteps⟩ := ih
    exact ⟨repo, hsteps.tail ⟨_, hst⟩⟩

/-! ## Following the newest row -/

/-- The notice of the newest row is in the writer's hand, in the stream's
channel or on the wire. -/
def UnderWay (node : String) (s : Sys) : Prop :=
  (∃ c, s.writer = .appended c ∧ c.snapshotRecordID = s.log.lastID)
    ∨ (∃ ch, s.streamChan node = some ch ∧ ∃ c ∈ ch.buffer, c.snapshotRecordID = s.log.lastID)
    ∨ (∃ stream phase, s.slave = .running stream phase
        ∧ ∃ c ∈ stream.inflight, c.snapshotRecordID = s.log.lastID)

def Follows (node : String) (s : Sys) : Prop :=
  match s.slave with
  | .stopped => True
  | .running _ (.requesting _) => True
  | .running _ (.catchingUp call) =>
    call.job.lastSeen + call.pending.length = s.log.lastID ∨ UnderWay node s
  | .running _ (.waiting cursor) => cursor = s.log.lastID ∨ UnderWay node s

section Steps

variable {node : String} {s : Sys}

variable {t : Sys} {stream : Stream} {c : ChangeNotification} {rest : List ChangeNotification}
  {db : LocalDB} {sub : Option Nat} {call : SnapshotCall}

/-- Steps of the master that leave the newest row and its notice alone. -/
theorem Follows.frame (h : Follows node s) (hslave : t.slave = s.slave)
    (hlast : t.log.lastID = s.log.lastID) (hway : UnderWay node s → UnderWay node t) :
    Follows node t := by
  simp only [Follows, hslave, hlast] at h ⊢
  match s.slave, h with
  | .stopped, _ => trivial
  | .running _ (.requesting _), _ => trivial
  | .running _ (.catchingUp _), h => exact Or.imp_right hway h
  | .running _ (.waiting _), h => exact Or.imp_right hway h

theorem Follows.samePhase {stream' : Stream} {phase : Phase} (h : Follows node s)
    (hs : s.slave = .running stream phase) (ht : t.slave = .running stream' phase)
    (hlast : t.log.lastID = s.log.lastID) (hway : UnderWay node s → UnderWay node t) :
    Follows node t := by
  simp only [Follows, hs, ht, hlast] at h ⊢
  match phase, h with
  | .requesting _, _ => trivial
  | .catchingUp _, h => exact Or.imp_right hway h
  | .waiting _, h => exact Or.imp_right hway h

theorem Follows.of_underWay (h : UnderWay node s) : Follows node s := by
  simp only [Follows]
  match s.slave with
  | .stopped => trivial
  | .running _ (.requesting _) => trivial
  | .running _ (.catchingUp _) => exact Or.inr h
  | .running _ (.waiting _) => exact Or.inr h

theorem Follows.of_beforeListing (h : s.beforeListing = true) : Follows node s := by
  simp only [Follows]
  simp only [Sys.beforeListing] at h
  match s.slave, h with
  | .stopped, _ => trivial
  | .running _ (.requesting _), _ => trivial

theorem Follows.writerStep (h : Follows node s) (hw : ∀ c, s.writer ≠ .appended c)
    (hslave : t.slave = s.slave) (hhub : t.hub = s.hub) (hlog : t.log = s.log) :
    Follows node t := by
  refine h.frame hslave (by rw [hlog]) ?_
  simp only [UnderWay, Sys.streamChan, hslave, hhub, hlog]
  rintro (⟨c, hc, -⟩ | hch | hin)
  · exact absurd hc (hw c)
  · exact Or.inr (Or.inl hch)
  · exact Or.inr (Or.inr hin)

theorem underWay_boardcast {ch : NoticeChan} (hid : c.snapshotRecordID = s.log.lastID)
    (hch : s.streamChan node = some ch) (hroom : ch.buffer.length < ch.cap) :
    UnderWay node { s with hub := s.hub.boardcast c, writer := .idle } := by
  have hchan : Sys.streamChan node { s with hub := s.hub.boardcast c, writer := .idle }
      = (s.streamChan node).map fun ch => ch.trySend c := by
    simp only [Sys.streamChan]
    match s.slave with
    | .stopped => rfl
    | .running ⟨none, _⟩ _ => rfl
    | .running ⟨some id, _⟩ _ => exact Hub.chan?_boardcast ..
  refine Or.inr (Or.inl ⟨ch.trySend c, ?_, c, ?_, hid⟩)
  · rw [hchan, hch]; rfl
  · rw [NoticeChan.trySend_buffer_of_lt hroom]
    simp

theorem Follows.boardcast (hid : c.snapshotRecordID = s.log.lastID)
    (hd : Delivers node s .boardcast) :
    Follows node { s with hub := s.hub.boardcast c, writer := .idle } := by
  rcases hd with hbefore | ⟨ch, hch, hroom⟩
  · exact Follows.of_beforeListing hbefore
  · exact Follows.of_underWay (underWay_boardcast hid hch hroom)

theorem Follows.register {inflight : List ChangeNotification} {phase : Phase}
    (h : Follows node s) (hs : s.slave = .running ⟨none, inflight⟩ phase) :
    Follows node
      { s with
        hub := (s.hub.subscribe node 128).2
        slave := .running ⟨some (s.hub.subscribe node 128).1, inflight⟩ phase } := by
  refine h.samePhase hs rfl rfl ?_
  rintro (hwr | ⟨ch, hch, -⟩ | ⟨stream, ph, hsl, hin⟩)
  · exact Or.inl hwr
  · rw [Sys.streamChan, hs] at hch
    cases hch
  · rw [hs] at hsl
    cases hsl
    exact Or.inr (Or.inr ⟨_, _, rfl, hin⟩)

theorem Follows.forward {id : Nat} {inflight : List ChangeNotification} {phase : Phase}
    {ch : NoticeChan} (h : Follows node s) (hs : s.slave = .running ⟨some id, inflight⟩ phase)
    (hch : s.hub.chan? node id = some ch) (hbuf : ch.buffer = c :: rest) :
    Follows node
      { s with
        hub := s.hub.receive node id
        slave := .running ⟨some id, inflight ++ [c.viaProto]⟩ phase } := by
  refine h.samePhase hs rfl rfl ?_
  rintro (hwr | ⟨ch', hch', c', hc', hid⟩ | ⟨stream, ph, hsl, c', hc', hid⟩)
  · exact Or.inl hwr
  · -- the notice was in the channel: the first one moves on to the wire
    have hsame : ch' = ch := by
      rw [Sys.streamChan, hs] at hch'
      exact Option.some.inj (hch'.symm.trans hch)
    subst hsame
    rw [hbuf] at hc'
    rcases mem_cons.mp hc' with rfl | hrest
    · refine Or.inr (Or.inr ⟨_, _, rfl, c'.viaProto, ?_, hid⟩)
      simp
    · refine Or.inr (Or.inl ⟨ch'.rest, ?_, c', ?_, hid⟩)
      · simp only [Sys.streamChan, Option.bind_some, Hub.chan?_receive, hch]
        simp
      · simp [NoticeChan.rest, hbuf, hrest]
  · rw [hs] at hsl
    cases hsl
    exact Or.inr (Or.inr ⟨_, _, rfl, c', mem_append_left _ hc', hid⟩)

theorem Follows.reap {id : Nat} (h : Follows node s)
    (hs : ∀ stream phase, s.slave = .running stream phase → stream.subID ≠ some id) :
    Follows node { s with hub := s.hub.unsubscribe node id } := by
  have hchan : Sys.streamChan node { s with hub := s.hub.unsubscribe node id }
      = s.streamChan node := by
    simp only [Sys.streamChan]
    match hsl : s.slave with
    | .stopped => rfl
    | .running ⟨none, _⟩ _ => rfl
    | .running ⟨some i, _⟩ _ =>
      have hne : id ≠ i := fun heq => hs _ _ hsl (by rw [heq])
      simp [Hub.chan?_unsubscribe, hne]
  refine h.frame rfl rfl ?_
  simp only [UnderWay, hchan]
  exact fun hway => hway

/-- Only the phase and the cache change: the notice stays under way. -/
theorem UnderWay.phase {phase phase' : Phase} (h : UnderWay node s)
    (hs : s.slave = .running stream phase) :
    UnderWay node { s with db := db, slave := .running stream phase' } := by
  rcases h with hwr | ⟨ch, hch, hc⟩ | ⟨stream', ph, hsl, hin⟩
  · exact Or.inl hwr
  · rw [Sys.streamChan, hs] at hch
    exact Or.inr (Or.inl ⟨ch, hch, hc⟩)
  · rw [hs] at hsl
    cases hsl
    exact Or.inr (Or.inr ⟨_, _, rfl, hin⟩)

/-- The slave takes a notice off the wire: it was the newest one, or that
one is still under way. -/
theorem UnderWay.recv {phase phase' : Phase} (h : UnderWay node s)
    (hs : s.slave = .running ⟨sub, c :: rest⟩ phase) :
    c.snapshotRecordID = s.log.lastID
      ∨ UnderWay node { s with db := db, slave := .running ⟨sub, rest⟩ phase' } := by
  rcases h with hwr | ⟨ch, hch, hc⟩ | ⟨stream', ph, hsl, c', hc', hid⟩
  · exact Or.inr (Or.inl hwr)
  · rw [Sys.streamChan, hs] at hch
    exact Or.inr (Or.inr (Or.inl ⟨ch, hch, hc⟩))
  · rw [hs] at hsl
    cases hsl
    rcases mem_cons.mp hc' with rfl | hrest
    · exact Or.inl hid
    · exact Or.inr (Or.inr (Or.inr ⟨_, _, rfl, c', hrest, hid⟩))

/-! ## The slave's steps -/

section

variable (hinv : Inv node False s)

include hinv

theorem Follows.list {after : Nat} (hs : s.slave = .running stream (.requesting after)) :
    Follows node
      { s with
        slave := .running stream
          (.catchingUp ⟨s.log.after after, { lastSeen := after }, false, []⟩) } := by
  have hsl := hinv.slave
  rw [hs] at hsl
  have hafter : after = s.db.getSnapshotRecordID := hsl.2
  have hle : after ≤ s.log.records.length := hafter ▸ hinv.cursor
  refine Or.inl ?_
  simp only [SnapshotLog.after_eq_drop, length_drop, SnapshotLog.lastID]
  omega

theorem Follows.lookup {record : SnapshotRecord} {rest : List SnapshotRecord} {job : SnapshotJob}
    {sent : Option Snapshot} {chunks : List Snapshot} (h : Follows node s)
    (hs : s.slave = .running stream (.catchingUp call)) (hp : call.pending = record :: rest)
    (hv : call.job.visit record (s.repo.lookup record.syncKey) = (job, sent)) :
    Follows node
      { s with slave := .running stream (.catchingUp ⟨rest, job, call.done, chunks⟩) } := by
  have hsl := hinv.slave
  rw [hs] at hsl
  have hcall : CallOK _ _ _ _ call := hsl.2
  have hseen : job.lastSeen = call.job.lastSeen + 1 := by
    have hjob := SnapshotJob.visit_lastSeen call.job record (s.repo.lookup record.syncKey)
    rw [hv] at hjob
    exact hjob.trans (hcall.nextRecord hp).2.1
  simp only [Follows, hs] at h ⊢
  refine h.imp (fun heq => ?_) fun hway => hway.phase hs
  rw [hp, length_cons] at heq
  rw [hseen]
  omega

theorem cursor_of_last_chunk {chunk : Snapshot} {rest : List Snapshot}
    (hs : s.slave = .running stream (.catchingUp call)) (hc : call.chunks = chunk :: rest)
    (hl : chunk.last = true) (hshort : s.shortChunk = false) :
    (s.db.applySnapshot chunk []).db.getSnapshotRecordID = chunk.snapshotRecordID := by
  have hsl := hinv.slave
  rw [hs] at hsl
  have hcall : CallOK _ _ _ _ call := hsl.2
  obtain ⟨pending, job, done, chunks⟩ := call
  simp only at hc
  subst hc
  have hle : s.db.getSnapshotRecordID ≤ chunk.snapshotRecordID := hcall.pipeline.1
  rw [LocalDB.applySnapshot_nil, LocalDB.getSnapshotRecordID_foldl_applyPayload]
  cases hp : chunk.payloads with
  | cons p ps => exact (if_neg (by simp)).trans (max_eq_right hle)
  | nil =>
    simp only [Sys.shortChunk, hs, hl, hp, isEmpty_nil, Bool.and_self,
      Bool.true_and, decide_eq_false_iff_not] at hshort
    rw [if_pos rfl]
    omega

theorem Follows.applyChunk {chunk : Snapshot} {rest : List Snapshot} (h : Follows node s)
    (hs : s.slave = .running stream (.catchingUp call)) (hc : call.chunks = chunk :: rest)
    (hdb : (s.db.applySnapshot chunk []).db = db) (hd : Delivers node s .applyChunk) :
    Follows node
      { s with
        db := db
        slave := .running stream
          (if chunk.last then .waiting db.getSnapshotRecordID
           else .catchingUp { call with chunks := rest }) } := by
  simp only [Follows, hs] at h
  cases hl : chunk.last with
  | false => exact h.imp_right fun hway => hway.phase hs
  | true =>
    have hsl := hinv.slave
    rw [hs] at hsl
    have hcall : CallOK _ _ _ _ call := hsl.2
    obtain ⟨hpend, hid⟩ := hcall.lastChunk chunk (hc ▸ mem_cons_self) hl
    have hend : db.getSnapshotRecordID = call.job.lastSeen := by
      rw [← hdb, cursor_of_last_chunk hinv hs hc hl hd, hid]
    simp only [Follows, if_true]
    refine h.imp (fun heq => ?_) fun hway => hway.phase hs
    rw [hpend, length_nil, Nat.add_zero] at heq
    rw [hend, heq]

theorem notice_le_lastID {phase : Phase} (hs : s.slave = .running stream phase)
    (hc : c ∈ stream.inflight) : c.snapshotRecordID ≤ s.log.lastID := by
  have hsl := hinv.slave
  rw [hs] at hsl
  obtain ⟨n, p, rfl, ha⟩ := hsl.1 c hc
  have := ha.le_length
  rwa [SnapshotLog.length_keys, ← Payload.notice_snapshotRecordID p n] at this

theorem Follows.recvOld {cursor : Nat} (h : Follows node s)
    (hs : s.slave = .running ⟨sub, c :: rest⟩ (.waiting cursor)) (hid : c.snapshotRecordID ≤ cursor) :
    Follows node { s with slave := .running ⟨sub, rest⟩ (.waiting cursor) } := by
  have hsl := hinv.slave
  rw [hs] at hsl
  have hcursor : cursor = s.db.getSnapshotRecordID := hsl.2
  have hle : cursor ≤ s.log.lastID := hcursor ▸ hinv.cursor
  simp only [Follows, hs] at h ⊢
  rcases h with heq | hway
  · exact Or.inl heq
  · exact (hway.recv hs).imp_left fun hn => by omega

theorem Follows.recvNext {cursor : Nat} (h : Follows node s)
    (hs : s.slave = .running ⟨sub, c :: rest⟩ (.waiting cursor))
    (hid : c.snapshotRecordID = cursor + 1) :
    Follows node
      { s with
        db := db
        slave := .running ⟨sub, rest⟩ (.waiting c.snapshotRecordID) } := by
  have hle := notice_le_lastID hinv hs mem_cons_self
  simp only [Follows, hs] at h ⊢
  rcases h with heq | hway
  · omega
  · exact hway.recv hs

end

/-! ## Every step -/

theorem Follows.step {d : Discipline} {a : Action} (hst : Step node d s a t)
    (hd : Delivers node s a) (hinv : Inv node False s) (h : Follows node s) : Follows node t := by
  cases hst with
  | beginWrite k hw => exact h.writerStep (by simp [hw]) rfl rfl rfl
  | write repo hw _ => exact h.writerStep (by simp [hw]) rfl rfl rfl
  | readNone hw _ => exact h.writerStep (by simp [hw]) rfl rfl rfl
  | readSome hw _ => exact h.writerStep (by simp [hw]) rfl rfl rfl
  | readDeleted hw _ _ _ => exact h.writerStep (by simp [hw]) rfl rfl rfl
  | append hw => exact Follows.of_underWay (Or.inl ⟨_, rfl, by simp⟩)
  | boardcast hw =>
    have hwr := hinv.writer
    rw [hw] at hwr
    exact Follows.boardcast hwr.2 hd
  | register hs => exact h.register hs
  | forward hs hch hbuf => exact h.forward hs hch hbuf
  | reap id hs => exact h.reap hs
  | openStream _ => trivial
  | list hs => exact Follows.list hinv hs
  | lookup hs hp hv => exact h.lookup hinv hs hp hv
  | finish hs hp _ =>
    simp only [Follows, hs] at h
    refine Or.imp ?_ (fun hway => UnderWay.phase hway hs) h
    rcases SnapshotJob.sendChunk_cases _ true with ⟨-, -, hfalse⟩ | hsend
    · cases hfalse
    · rw [hsend, hp]
      exact id
  | applyChunk hs hc hdb => exact h.applyChunk hinv hs hc hdb hd
  | recvOld hs hid => exact h.recvOld hinv hs hid
  | recvGap _ _ => trivial
  | recvNext hs hid _ _ => exact h.recvNext hinv hs hid
  | stop => trivial

end Steps

theorem Delivered.follows (h : Delivered node d s) : Follows node s := by
  induction h with
  | init repo => trivial
  | step hs hst hd ih =>
    exact ih.step hst hd (Inv.reachable (fun hf => hf.elim) hs.reachable)

/-! ## Quiescent states -/

def Discipline.free : Discipline := ⟨fun _ _ _ => True, True⟩

/-- The writer is idle, the slave's stream is registered, the slave waits
in `Recv` with this cursor, and no notice is queued or on the wire. -/
structure Quiescent (node : String) (s : Sys) (cursor : Nat) : Prop where
  idle : s.writer = .idle
  waiting : ∃ id, s.slave = .running ⟨some id, []⟩ (.waiting cursor)
  drained : ∃ ch, s.streamChan node = some ch ∧ ch.buffer = []

theorem Quiescent.not_underWay {cursor : Nat} (hq : Quiescent node s cursor) :
    ¬ UnderWay node s := by
  obtain ⟨id, hsl⟩ := hq.waiting
  obtain ⟨ch, hch, hnil⟩ := hq.drained
  rintro (⟨c, hc, -⟩ | ⟨ch', hch', c, hc, -⟩ | ⟨stream, phase, hst, c, hc, -⟩)
  · rw [hq.idle] at hc
    cases hc
  · rw [hch] at hch'
    cases hch'
    rw [hnil] at hc
    cases hc
  · rw [hsl] at hst
    cases hst
    cases hc

/-- In the runs that lose no notice, and fail no statement of the slave, a
quiescent slave is at the end of the log, and so is its `sync_state`. -/
theorem quiescent_upToDate {node : String} {d : Discipline} {s : Sys} {cursor : Nat}
    (h : Delivered node d s) (hq : Quiescent node s cursor) :
    cursor = s.log.lastID ∧ s.db.getSnapshotRecordID = s.log.lastID := by
  obtain ⟨id, hsl⟩ := hq.waiting
  have hinv : Inv node False s := Inv.reachable (fun hf => hf.elim) h.reachable
  have hpers : cursor = s.db.getSnapshotRecordID := by
    have hslave := hinv.slave
    rw [hsl] at hslave
    exact hslave.2
  have hf := h.follows
  simp only [Follows, hsl] at hf
  have heq : cursor = s.log.lastID := hf.resolve_right hq.not_underWay
  exact ⟨heq, hpers ▸ heq⟩

def recordR1 : DNSRecord := { id := "r1", fqdn := "a.example", recordType := "A" }

theorem current_recordR1 :
    (Repo.empty.upsertResource recordR1).current ⟨.dnsRecord, "r1"⟩
      = some (.dnsRecord recordR1.withDefaults) :=
  Repo.current_upsertResource_dnsRecord Repo.empty recordR1 rfl

/-- A change made while the slave is away, caught up on, and one more,
forwarded and taken in. -/
theorem quiescent_upToDate_run :
    ∃ s, Delivered "edge-1" .free s ∧ Quiescent "edge-1" s 2
      ∧ 2 = s.log.lastID ∧ s.db.getSnapshotRecordID = s.log.lastID := by
  have hstart : Delivered "edge-1" .free (Sys.init Repo.empty) := .init Repo.empty
  have haway := hstart
    |>.step (.beginWrite ⟨.dnsRecord, "r1"⟩ rfl) trivial
    |>.step (.write (Repo.empty.upsertResource recordR1) rfl trivial) trivial
    |>.step (.readSome rfl current_recordR1) trivial
    |>.step (.append rfl) trivial
    |>.step (.boardcast rfl) (Or.inl rfl)
  have hopen := haway
    |>.step (.openStream rfl) trivial
    |>.step (.list rfl) trivial
    |>.step (.lookup rfl rfl rfl) trivial
    |>.step (.finish rfl rfl rfl) trivial
    |>.step (.register rfl) trivial
    |>.step (.applyChunk rfl rfl rfl) rfl
  have hrun := hopen
    |>.step (.beginWrite ⟨.dnsRecord, "r1"⟩ rfl) trivial
    |>.step (.write (Repo.empty.upsertResource recordR1) rfl trivial) trivial
    |>.step (.readSome rfl current_recordR1) trivial
    |>.step (.append rfl) trivial
    |>.step (.boardcast rfl) (Or.inr ⟨_, rfl, by decide⟩)
    |>.step (.forward rfl rfl rfl) trivial
    |>.step (.recvNext rfl rfl rfl rfl) trivial
  obtain ⟨s, hs, hq⟩ : ∃ s, Delivered "edge-1" .free s ∧ Quiescent "edge-1" s 2 :=
    ⟨_, hrun, ⟨rfl, ⟨_, rfl⟩, ⟨_, rfl, rfl⟩⟩⟩
  exact ⟨s, hs, hq, quiescent_upToDate hs hq⟩

/-! ## Falling behind -/

/-- While the slave does not read, `n` broadcasts leave in the channel of
its stream the first notices that fit. -/
theorem burst {id : Nat} {ch : NoticeChan} {repo : Repo} {k : SyncKey} {p : Payload}
    (hidle : s.writer = .idle) (hch : s.hub.chan? node id = some ch) (hk : repo.current k = some p)
    (n : Nat) :
    ∃ t ch', Steps node .free s t ∧ t.writer = .idle ∧ t.slave = s.slave ∧ t.db = s.db
      ∧ t.log.lastID = s.log.lastID + n ∧ t.hub.chan? node id = some ch'
      ∧ ch'.cap = ch.cap
      ∧ ch'.buffer = (ch.buffer
          ++ (List.range' (s.log.lastID + 1) n).map p.notice).take ch.cap := by
  induction n with
  | zero =>
    refine ⟨s, ch, .refl, hidle, rfl, rfl, rfl, hch, rfl, ?_⟩
    rw [List.range'_zero, map_nil, append_nil, take_of_length_le ch.hcap]
  | succ n ih =>
    obtain ⟨t, ch', hsteps, hw, hsl, hdb, hlast, hch', hcap, hbuf⟩ := ih
    rw [← hcap] at hbuf
    have hsend := NoticeChan.trySend_take (p.notice (t.log.lastID + 1)) hbuf
    refine ⟨_, ch'.trySend (p.notice (t.log.lastID + 1)),
      hsteps.trans (Steps.announce hw trivial hk), rfl, hsl, hdb, ?_, ?_,
      hsend.1.trans hcap, ?_⟩
    · simp only [SnapshotLog.lastID_append, hlast]
      omega
    · simp only [Hub.chan?_boardcast, hch', Option.map_some]
    · rw [hsend.2, hcap, hlast, List.range'_1_concat, map_append, append_assoc, Nat.add_right_comm]
      rfl

theorem drain {id : Nat} {p : Payload} (n : Nat) {ch : NoticeChan} {cursor : Nat}
    (hs : s.slave = .running ⟨some id, []⟩ (.waiting cursor))
    (hcur : s.db.getSnapshotRecordID = cursor) (hch : s.hub.chan? node id = some ch)
    (hbuf : ch.buffer = (List.range' (cursor + 1) n).map p.notice) :
    ∃ t ch', Steps node d s t ∧ t.writer = s.writer ∧ t.log = s.log
      ∧ t.slave = .running ⟨some id, []⟩ (.waiting (cursor + n))
      ∧ t.hub.chan? node id = some ch' ∧ ch'.buffer = [] := by
  induction n generalizing s ch cursor with
  | zero => exact ⟨s, ch, .refl, rfl, rfl, hs, hch, hbuf⟩
  | succ n ih =>
    rw [List.range'_succ, map_cons] at hbuf
    have happly := LocalDB.applyChangelog_notice hcur p.viaProto
    have hforward : Step node d s .forward _ := .forward hs hch hbuf
    have hrecv : Step node d _ .recv _ :=
      .recvNext (s := { s with
          hub := s.hub.receive node id
          slave := .running ⟨some id, [(p.notice (cursor + 1)).viaProto]⟩ (.waiting cursor) })
        rfl (by simp) (by rw [Payload.notice_viaProto, happly]) rfl
    rw [Payload.notice_viaProto] at hforward
    rw [Payload.notice_viaProto, Payload.notice_snapshotRecordID, happly] at hrecv
    have hcur' := LocalDB.getSnapshotRecordID_applyPayload_succ hcur p.viaProto
    have hch' : (s.hub.receive node id).chan? node id = some ch.rest := by
      rw [Hub.chan?_receive, hch]
      simp
    have hbuf' : ch.rest.buffer = (List.range' (cursor + 1 + 1) n).map p.notice := by
      simp [NoticeChan.rest, hbuf]
    obtain ⟨t, ch', hsteps, hw, hlog, hsl, hch', hnil⟩ := ih
      (s := { s with
        hub := s.hub.receive node id
        db := LocalDB.applyPayload (cursor + 1) s.db p.viaProto
        slave := .running ⟨some id, []⟩ (.waiting (cursor + 1)) })
      rfl hcur' hch' hbuf'
    refine ⟨t, ch', .head ⟨_, hforward⟩ (.head ⟨_, hrecv⟩ hsteps), hw, hlog, ?_, hch', hnil⟩
    rw [hsl]
    congr 2
    omega

/-- The slave catches up on an empty log and is slow to commit; a burst of
129 changes of one record fills its channel and loses the last notice. -/
theorem behind_after_burst :
    ∃ s, Reachable "edge-1" .free s ∧ Quiescent "edge-1" s 128 ∧ s.log.lastID = 129 := by
  let s₀ : Sys :=
    { Sys.init Repo.empty with
      hub := (Hub.new.subscribe "edge-1" 128).2
      slave := .running ⟨some 1, []⟩ (.catchingUp ⟨[], { lastSeen := 0 }, true,
        [{ snapshotRecordID := 0, last := true }]⟩) }
  have hlisted : Steps "edge-1" .free (Sys.init Repo.empty) _ :=
    Relation.ReflTransGen.refl
      |>.tail ⟨_, .openStream rfl⟩
      |>.tail ⟨_, .register rfl⟩
      |>.tail ⟨_, .list rfl⟩
      |>.tail ⟨_, .finish rfl rfl rfl⟩
  have hstart : Steps "edge-1" .free (Sys.init Repo.empty) s₀ := hlisted
  have hch₀ : s₀.hub.chan? "edge-1" 1 = some (.make 128) := rfl
  obtain ⟨t, ch, hburst, hidle, hslave, hdb, hlast, hch, hcap, hbuf⟩ :=
    burst (s := s₀) rfl hch₀ current_recordR1 129
  have happly := (hstart.trans hburst).tail ⟨_, .applyChunk hslave rfl rfl⟩
  have hcur : (t.db.applySnapshot { snapshotRecordID := 0, last := true }
      []).db.getSnapshotRecordID = 0 := by
    rw [hdb]
    rfl
  simp only [if_true, hcur] at happly
  obtain ⟨t', ch', hdrain, hw', hlog', hslave', hch', hnil⟩ :=
    drain 128 (s := { t with
      db := (t.db.applySnapshot { snapshotRecordID := 0, last := true } []).db
      slave := .running ⟨some 1, []⟩ (.waiting _) }) rfl hcur hch hbuf
  refine ⟨t', ⟨Repo.empty, happly.trans hdrain⟩, ⟨hw'.trans hidle, ⟨_, hslave'⟩, ch', ?_, hnil⟩, ?_⟩
  · rw [Sys.streamChan, hslave']
    exact hch'
  · rw [hlog', hlast]
    rfl

/-- The first change is broadcast after the catch-up has listed the log
and before the handler of the stream has subscribed to the hub. -/
theorem behind_after_late_register :
    ∃ s, Reachable "edge-1" .free s ∧ Quiescent "edge-1" s 0 ∧ s.log.lastID = 1 := by
  have hlisted : Steps "edge-1" .free (Sys.init Repo.empty) _ :=
    Relation.ReflTransGen.refl
      |>.tail ⟨_, .openStream rfl⟩
      |>.tail ⟨_, .list rfl⟩
  have hrun := hlisted.trans (Steps.announce rfl trivial current_recordR1)
    |>.tail ⟨_, .register rfl⟩
    |>.tail ⟨_, .finish rfl rfl rfl⟩
    |>.tail ⟨_, .applyChunk rfl rfl rfl⟩
  exact ⟨_, ⟨Repo.empty, hrun⟩, ⟨rfl, ⟨_, rfl⟩, ⟨_, rfl, rfl⟩⟩, rfl⟩

/-- A record is created and deleted while the slave is away: the catch-up
finds neither log row's object and its only chunk is empty. -/
theorem behind_after_short_chunk :
    ∃ s, Reachable "edge-1" .free s ∧ Quiescent "edge-1" s 0 ∧ s.log.lastID = 2 := by
  let gone : Repo :=
    { Repo.empty.upsertResource recordR1 with
      dnsRecords := (Repo.empty.upsertResource recordR1).dnsRecords.retire Keyed.key "r1" }
  have hcreated : Steps "edge-1" .free (Sys.init Repo.empty) _ :=
    Steps.announce rfl trivial current_recordR1
  have hdeleted := hcreated
    |>.tail ⟨_, .beginWrite ⟨.dnsRecord, "r1"⟩ rfl⟩
    |>.tail ⟨_, .write gone rfl trivial⟩
    |>.tail ⟨_, .readDeleted (p := .dnsRecord { recordR1 with deleted := true })
      rfl trivial rfl rfl⟩
    |>.tail ⟨_, .append rfl⟩
    |>.tail ⟨_, .boardcast rfl⟩
    |>.tail ⟨_, .openStream rfl⟩
    |>.tail ⟨_, .register rfl⟩
  have hrun := hdeleted.trans (Steps.catchUp _ _ rfl rfl)
  exact ⟨_, ⟨Repo.empty, hrun⟩, ⟨rfl, ⟨_, rfl⟩, ⟨_, rfl, rfl⟩⟩, rfl⟩

/-- Three ways to be quiescent and behind: a full channel, a channel
registered too late, a catch-up that finds nothing. -/
theorem quiescent_behind :
    (∃ s, Reachable "edge-1" .free s ∧ Quiescent "edge-1" s 128 ∧ s.log.lastID = 129)
      ∧ (∃ s, Reachable "edge-1" .free s ∧ Quiescent "edge-1" s 0 ∧ s.log.lastID = 1)
      ∧ (∃ s, Reachable "edge-1" .free s ∧ Quiescent "edge-1" s 0 ∧ s.log.lastID = 2) :=
  ⟨behind_after_burst, behind_after_late_register, behind_after_short_chunk⟩

end LunaEdge
