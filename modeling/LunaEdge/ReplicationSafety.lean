import LunaEdge.ExactlyOnce
import LunaEdge.Recovery
import LunaEdge.ReplicationInvariant
import LunaEdge.SnapshotChunks

/-!
# Replication at every moment

With a writer that only upserts, a slave whose cursor has reached the end of
the log holds the master's current objects as the wire encodes them, whatever
the wire, the hub and the slave did on the way (`upsert_convergence`).

The rest is not only about states that have come to rest. Whatever the writer
does, the log only grows, and the persisted cursor of the slave only moves
forward and stays within the log (`cursor_within_log`). With a writer that only
upserts, an announced object all of whose log entries are behind the cursor is
at the slave as the wire encodes it, also while later entries are still under
way (`passed_row_current`); and there is no state with an idle writer from
which the slave could not catch up (`can_catch_up`). With plans that announce
their deletions too, the order in which the notices arrive and their
repetitions do not show at the end of the log (`delivered_rows_current`).
-/

namespace LunaEdge

open List CursorLog

/-! ## Upserts keep the discipline -/

theorem upsertsOnly_dnsRecord (repo : Repo) {r : DNSRecord} (hdel : r.deleted = false) :
    Discipline.upsertsOnly.write ⟨.dnsRecord, r.id⟩ repo (repo.upsertResource r) := by
  refine ⟨fun j hj => Repo.current_upsertResource_dnsRecord_of_ne repo r hj, fun _ => ?_⟩
  rw [Repo.current_upsertResource_dnsRecord repo r hdel]
  rfl

theorem upsertsOnly_domainEndpoint (repo : Repo) {e : DomainEndpoint} (hdel : e.deleted = false) :
    Discipline.upsertsOnly.write ⟨.domainEntryProjection, e.hostname⟩ repo
      (repo.upsertResource e) := by
  refine ⟨fun j hj => Repo.current_upsertResource_domainEndpoint_of_ne repo e hj,
    fun _ => ?_⟩
  rw [Option.isSome_iff_ne_none, ne_eq, Repo.current_domainEntry_eq_none_iff,
    Repo.live?_upsertResource_domainEndpoint repo e hdel]
  simp

/-! ## Convergence -/

theorem row_eq_wire {node : String} {s : Sys} (hr : Reachable node .upsertsOnly s)
    (hidle : s.writer = .idle) (hcur : s.db.getSnapshotRecordID = s.log.lastID)
    {k : SyncKey} (hk : k ∈ s.log.keys) :
    ∃ p, s.repo.current k = some p ∧ s.db.row k = some p.viaProto := by
  have hinv : Inv node True s := Inv.reachable (fun _ => rfl) hr
  obtain ⟨p, hp⟩ := Option.isSome_iff_exists.mp (hinv.live trivial k hk)
  refine ⟨p, hp, ?_⟩
  have hset : s.writer.settled True k := ⟨trivial, by rw [hidle]; exact id⟩
  have hrow := hinv.rows.complete (by rw [SnapshotLog.length_keys, hcur]) hk hset
  rw [hrow, Repo.wire, hp]
  rfl

/-- In every reachable state where the writer is idle and the persisted
cursor is the last id of the log, each announced object is in the cache
as the wire encodes it. It does not matter whether a catch-up is running. -/
theorem upsert_convergence {node : String} {s : Sys}
    (hr : Reachable node .upsertsOnly s) (hidle : s.writer = .idle)
    (hcur : s.db.getSnapshotRecordID = s.log.lastID) :
    (∀ id, ⟨.dnsRecord, id⟩ ∈ s.log.keys →
      ∃ r, s.repo.dnsRecords.live? id = some r
        ∧ s.db.dnsRecordsCache.find? id = some r.viaProto.cacheRow)
    ∧ (∀ h, ⟨.domainEntryProjection, h⟩ ∈ s.log.keys →
      ∃ p, s.repo.getDomainEntryProjectionByDomain h = .ok p
        ∧ s.db.domainEntriesCache.find? h = some p.viaProto.cacheRow) := by
  refine ⟨fun id hid => ?_, fun h hh => ?_⟩
  · obtain ⟨p, hp, hrow⟩ := row_eq_wire hr hidle hcur hid
    rw [Repo.current_dnsRecord] at hp
    obtain ⟨r, hlive, rfl⟩ := Option.map_eq_some_iff.mp hp
    exact ⟨r, hlive, LocalDB.find?_of_row_dnsRecord hrow⟩
  · obtain ⟨p, hp, hrow⟩ := row_eq_wire hr hidle hcur hh
    rw [Repo.current_domainEntry] at hp
    obtain ⟨q, hq, rfl⟩ := Option.map_eq_some_iff.mp hp
    refine ⟨q, ?_, LocalDB.find?_of_row_domainEntry hrow⟩
    cases hok : s.repo.getDomainEntryProjectionByDomain h with
    | error e => rw [hok] at hq; cases hq
    | ok q' => rw [hok] at hq; cases hq; rfl

/-- A record and an endpoint are announced before the slave opens its
stream; it catches up on both in one chunk. -/
theorem upsert_convergence_run :
    ∃ s, Reachable "edge-1" .upsertsOnly s ∧ s.log.lastID = 2 ∧ s.db.getSnapshotRecordID = 2
      ∧ (∃ r, s.repo.dnsRecords.live? "r1" = some r
          ∧ s.db.dnsRecordsCache.find? "r1" = some r.viaProto.cacheRow)
      ∧ (∃ p, s.repo.getDomainEntryProjectionByDomain "a.example" = .ok p
          ∧ s.db.domainEntriesCache.find? "a.example" = some p.viaProto.cacheRow) := by
  let r : DNSRecord := { id := "r1", fqdn := "a.example", recordType := "A" }
  let e : DomainEndpoint := { hostname := "a.example", backendType := .l7HTTP }
  let repo := (Repo.empty.upsertResource r).upsertResource e
  let p : DomainEntryProjection := { hostname := "a.example", backendType := .l7HTTP }
  have hr : (Repo.empty.upsertResource r).current ⟨.dnsRecord, "r1"⟩
      = some (.dnsRecord r.withDefaults) :=
    Repo.current_upsertResource_dnsRecord Repo.empty r rfl
  have he : repo.current ⟨.domainEntryProjection, "a.example"⟩ = some (.domainEntry p) := by
    decide
  have hr1 : Steps "edge-1" .upsertsOnly (Sys.init Repo.empty) _ :=
    Steps.announce rfl (upsertsOnly_dnsRecord Repo.empty (r := r) rfl) hr
  have hr2 := hr1.trans
    (Steps.announce rfl (upsertsOnly_domainEndpoint _ (e := e) rfl) he)
  have hcatch := (hr2.tail ⟨_, .openStream rfl⟩).trans (Steps.catchUp _ _ rfl rfl)
  obtain ⟨s, hs, hidle, hlast, hcur, hmem, hmem'⟩ :
      ∃ s, Steps "edge-1" .upsertsOnly (Sys.init Repo.empty) s ∧ s.writer = .idle
        ∧ s.log.lastID = 2 ∧ s.db.getSnapshotRecordID = 2
        ∧ ⟨.dnsRecord, "r1"⟩ ∈ s.log.keys
        ∧ ⟨.domainEntryProjection, "a.example"⟩ ∈ s.log.keys :=
    ⟨_, hcatch, rfl, rfl, by decide, by decide, by decide⟩
  obtain ⟨hdns, hdomain⟩ := upsert_convergence ⟨Repo.empty, hs⟩ hidle (hcur.trans hlast.symm)
  exact ⟨s, ⟨Repo.empty, hs⟩, hlast, hcur, hdns "r1" hmem, hdomain "a.example" hmem'⟩

variable {node : String} {d : Discipline} {s t : Sys}

/-! ## The cursor and the log -/

structure Onward (s t : Sys) : Prop where
  cursor : s.db.getSnapshotRecordID ≤ t.db.getSnapshotRecordID
  log : s.log.records <+: t.log.records

theorem le_cursor_applySnapshot (db : LocalDB) (chunk : Snapshot) :
    db.getSnapshotRecordID ≤ (db.applySnapshot chunk []).db.getSnapshotRecordID := by
  rw [LocalDB.applySnapshot_nil, LocalDB.getSnapshotRecordID_foldl_applyPayload]
  split
  · exact le_refl _
  · exact le_max_left _ _

theorem Step.onward {a : Action} (h : Inv node False s) (hst : Step node d s a t) :
    Onward s t := by
  have hstay : ∀ t : Sys, t.db = s.db → t.log = s.log → Onward s t := fun t hdb hlog =>
    ⟨le_of_eq (by rw [hdb]), hlog ▸ prefix_refl _⟩
  cases hst with
  | append hw => exact ⟨le_refl _, prefix_append _ _⟩
  | applyChunk hs hc hdb => exact ⟨hdb ▸ le_cursor_applySnapshot _ _, prefix_refl _⟩
  | recvNext hs hid herr hdb =>
    have hsl := h.slave
    rw [hs] at hsl
    obtain ⟨hin, hcursor⟩ := hsl
    obtain ⟨n, p, rfl, -⟩ := hin _ mem_cons_self
    rw [Payload.notice_snapshotRecordID, show _ = _ from hcursor] at hid
    rw [hid, LocalDB.applyChangelog_notice rfl] at hdb
    refine ⟨?_, prefix_refl _⟩
    rw [← hdb, LocalDB.getSnapshotRecordID_applyPayload_succ rfl]
    exact Nat.le_succ _
  | _ => exact hstay _ rfl rfl

/-- Whatever the writer does and however the steps interleave, the log is
only appended to, and the persisted cursor moves forward within it. -/
theorem cursor_within_log (hr : Reachable node d s) (h : Steps node d s t) :
    s.db.getSnapshotRecordID ≤ t.db.getSnapshotRecordID
      ∧ t.db.getSnapshotRecordID ≤ t.log.lastID ∧ s.log.records <+: t.log.records := by
  have hinv : ∀ {u}, Steps node d s u → Inv node False u := fun hu =>
    Inv.reachable nofun (hr.imp fun _ hs => hs.trans hu)
  have honward : Onward s t := by
    induction h with
    | refl => exact ⟨le_refl _, prefix_refl _⟩
    | tail hu hst ih =>
      obtain ⟨a, hst⟩ := hst
      have hnext := hst.onward (hinv hu)
      exact ⟨ih.cursor.trans hnext.cursor, ih.log.trans hnext.log⟩
  exact ⟨honward.cursor, (hinv h).cursor, honward.log⟩

/-- A record is announced, and then the slave catches up. -/
theorem announced_then_caught_up :
    ∃ s t, Reachable "edge-1" .upsertsOnly s ∧ Steps "edge-1" .upsertsOnly s t
      ∧ s.writer = .idle ∧ s.db.getSnapshotRecordID = 0 ∧ ⟨.dnsRecord, "r1"⟩ ∈ s.log.keys
      ∧ t.writer = .idle ∧ t.db.getSnapshotRecordID = 1 ∧ t.log.keys = [⟨.dnsRecord, "r1"⟩] := by
  let record : DNSRecord := { id := "r1", fqdn := "a.example", recordType := "A" }
  have hs : Steps "edge-1" .upsertsOnly (Sys.init Repo.empty) _ :=
    Steps.announce rfl (upsertsOnly_dnsRecord Repo.empty (r := record) rfl)
      (Repo.current_upsertResource_dnsRecord Repo.empty record rfl)
  exact ⟨_, _, ⟨_, hs⟩, .head ⟨_, .openStream rfl⟩ (Steps.catchUp _ _ rfl rfl), rfl, rfl,
    by decide, rfl, by decide, by decide⟩

theorem cursor_within_log_caught_up :
    ∃ s t, Steps "edge-1" .upsertsOnly s t ∧ s.db.getSnapshotRecordID = 0
      ∧ t.db.getSnapshotRecordID = 1 ∧ 1 ≤ t.log.lastID := by
  obtain ⟨s, t, hs, ht, -, hzero, -, -, hone, -⟩ := announced_then_caught_up
  exact ⟨s, t, ht, hzero, hone, hone ▸ (cursor_within_log hs ht).2.1⟩

/-! ## Objects that the cursor has passed -/

/-- With a writer that only upserts: in every reachable state an announced
object that is not being changed and has no log entry after the cursor is at
the slave as the wire encodes it. -/
theorem passed_row_current (hr : Reachable node .upsertsOnly s) {k : SyncKey}
    (hk : k ∈ s.log.keys) (hpassed : k ∉ s.log.keys.drop s.db.getSnapshotRecordID)
    (hbusy : ¬ s.writer.busy k) :
    ∃ p, s.repo.current k = some p ∧ s.db.row k = some p.viaProto := by
  have hinv : Inv node True s := Inv.reachable (fun _ => rfl) hr
  obtain ⟨p, hp⟩ := Option.isSome_iff_exists.mp (hinv.live trivial k hk)
  refine ⟨p, hp, ?_⟩
  rw [hinv.rows k hk ⟨trivial, hbusy⟩ hpassed, Repo.wire, hp]
  rfl

theorem passed_row_current_caught_up :
    ∃ (t : Sys) (p : Payload), t.repo.current ⟨.dnsRecord, "r1"⟩ = some p
      ∧ t.db.row ⟨.dnsRecord, "r1"⟩ = some p.viaProto := by
  obtain ⟨s, t, hs, ht, -, -, -, hidle, hone, hkeys⟩ := announced_then_caught_up
  have hreach := hs.imp fun _ h => h.trans ht
  refine ⟨t, passed_row_current hreach (hkeys ▸ mem_cons_self) ?_ ?_⟩
  · rw [hkeys, hone]
    exact not_mem_nil
  · rw [hidle]
    exact id

/-! ## Catching up -/

theorem LocalDB.row_foldl_put (ps : List Payload) (db : LocalDB) :
    (ps.foldl put db).row = overlay db.row (Payload.cells ps) := by
  induction ps generalizing db with
  | nil => rfl
  | cons p ps ih => rw [foldl_cons, ih, row_put]; rfl

/-- Whatever plans a master has run, a slave that is handed its notices in
any order, some of them again and again, has exactly the announced objects that
are still there, as the wire encodes them, once its cursor is at the end of the
log. -/
theorem delivered_rows_current {range : List String → List String} {m : Master}
    (h : Planned range m) {deliveries : List ChangeNotification}
    (hfrom : ∀ c ∈ deliveries, c ∈ m.boardcasts)
    (hend : (applyNotices deliveries .empty).getSnapshotRecordID = m.log.lastID) (k : SyncKey) :
    (applyNotices deliveries .empty).row k
      = if k ∈ m.log.keys then (m.repo.current k).map Payload.viaProto else none := by
  obtain ⟨ps, hist⟩ := h.history
  have hlen : m.log.lastID = (ps.map Payload.viaProto).length := by
    have hrecords := congrArg length hist.records
    rwa [length_map, length_map, ← length_map (f := Payload.viaProto)] at hrecords
  have hreplayed : LocalStore.Replayed (ps.map Payload.viaProto)
      (applyNotices deliveries .empty) := by
    clear hend
    induction deliveries using List.reverseRecOn with
    | nil => exact ⟨Nat.zero_le _, rfl, rfl⟩
    | append_singleton cs c ih =>
      have hc := hfrom c (by simp)
      rw [hist.boardcasts] at hc
      obtain ⟨i, p, hp, rfl⟩ := Master.mem_notices.mp hc
      have hp' : (ps.map Payload.viaProto)[i]? = some p.viaProto := by rw [getElem?_map, hp]; rfl
      rw [applyNotices, foldl_append, foldl_cons, foldl_nil, Payload.notice_viaProto, Nat.zero_add]
      exact (ih fun c hc => hfrom c (mem_append_left _ hc)).applyChangelog hp'
  have hrow : ∀ {db db' : LocalDB}, LocalStore.SameObjects db db' → db.row k = db'.row k :=
    fun hsame => by rw [LocalDB.row, LocalDB.row, hsame.1, hsame.2]
  rw [hrow hreplayed.2, hend, hlen, LocalStore.replay, take_length, LocalDB.row_foldl_put,
    LocalDB.row_empty]
  exact hist.live_row 0 k

/-- A record is created and deleted, and the notices arrive twice, the later
one first. -/
theorem delivered_rows_current_reordered :
    ∃ m, Planned id m ∧ (applyNotices (m.boardcasts.reverse ++ m.boardcasts ++ m.boardcasts)
      .empty).row ⟨.dnsRecord, "r1"⟩ = none := by
  have h₁ : Planned id _ := .plan (.upsertDNSRecord { id := "r1" }) (.start .empty none)
    (announced_upsertDNSRecord List.Perm.refl rfl (by decide) (by decide) _) rfl
  have h₂ : Planned id _ := .plan (.deleteDNSRecord { id := "r1" }) h₁
    (announced_deleteDNSRecord List.Perm.refl _ _) rfl
  have hsub : ∀ (cs : List ChangeNotification) c, c ∈ cs.reverse ++ cs ++ cs → c ∈ cs :=
    fun cs c hc => by simpa using hc
  exact ⟨_, h₂, (delivered_rows_current h₂ (hsub _) (by decide) _).trans (by decide)⟩

end LunaEdge
