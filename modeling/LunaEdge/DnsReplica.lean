import LunaEdge.SlaveNode

/-!
# The DNS engine and the replicated records

What a slave answers to DNS questions against what its local store holds.
Restoring the engine replaces all of its records, and every upsert feeds
it that one record; a deletion feeds it nothing, and neither does a new
process. The engine therefore follows the local store in the runs in
which the store never has an enabled record beside the one upserted
last, no enabled record is deleted, no enabled record is there at a
restart, and no statement fails: in these (`SoleEvent`), once
`dnsChan` is drained, every question is answered with the enabled rows
of its name and type.
-/

namespace LunaEdge

open Runs List

/-! ## The rows of a question -/

/-- A record that should answer a question: enabled, of its name and type. -/
def DNS.Question.asks (types : TypeNames) (q : DNS.Question) (r : DNSRecord) : Bool :=
  r.enabled && decide (DNS.normalizeFQDN r.fqdn = DNS.normalizeFQDN q.fqdn)
    && decide (DNS.normalizeRecordType types r.recordType
      = DNS.normalizeRecordType types q.recordType)

variable {types : TypeNames} {db : LocalDB} {base : List DNSRecord}

theorem DNS.Question.asks_iff {q : DNS.Question} {r : DNSRecord} :
    q.asks types r = true
      ↔ r.enabled = true ∧ DNS.normalizeFQDN r.fqdn = DNS.normalizeFQDN q.fqdn
        ∧ DNS.normalizeRecordType types r.recordType
          = DNS.normalizeRecordType types q.recordType := by
  simp only [asks, Bool.and_eq_true, decide_eq_true_eq, and_assoc]

namespace LocalDB

def dnsRecords (db : LocalDB) : List DNSRecord := db.dnsRecordsCache.rows.map (·.detailJSON)

/-- The enabled rows of `dns_records_cache` for a question, as the DNS
store spells them. -/
def answers (types : TypeNames) (db : LocalDB) (q : DNS.Question) : List DNSRecord :=
  (db.dnsRecords.filter (q.asks types)).map DNS.stored

theorem mem_dnsRecords {db : LocalDB} {r : DNSRecord} :
    r ∈ db.dnsRecords ↔ db.row ⟨.dnsRecord, r.id⟩ = some (.dnsRecord r) := by
  constructor
  · intro h
    obtain ⟨row, hrow, rfl⟩ := mem_map.mp h
    rw [← row.hid]
    exact congrArg (Option.map _) (Table.find?_of_mem hrow)
  · intro h
    exact mem_map.mpr ⟨_, Table.mem_of_find? (find?_of_row_dnsRecord h), rfl⟩

theorem nodup_dnsRecords (db : LocalDB) : db.dnsRecords.Nodup := by
  have hids : db.dnsRecords.map (·.id) = db.dnsRecordsCache.rows.map Keyed.key := by
    rw [dnsRecords, map_map]
    exact map_congr_left fun row _ => row.hid.symm
  exact List.Nodup.of_map _ (hids ▸ db.dnsRecordsCache.nodup)

theorem mem_dnsRecords_applyPayload {n : Nat} {db : LocalDB} {p : Payload} {r : DNSRecord} :
    r ∈ (db.applyPayload n p).dnsRecords
      ↔ r ∈ p.pushed ∨ (r ∈ db.dnsRecords ∧ p.syncKey ≠ ⟨.dnsRecord, r.id⟩) := by
  have hcell : r ∈ p.pushed ↔ p.syncKey = ⟨.dnsRecord, r.id⟩ ∧ p.cell = some (.dnsRecord r) := by
    cases p with
    | domainEntry e => simp [Payload.pushed, Payload.syncKey]
    | dnsRecord x =>
      cases hd : x.deleted with
      | true => simp [Payload.pushed, Payload.cell, Payload.deleted, hd]
      | false =>
        simp only [Payload.pushed, Payload.cell, Payload.deleted, hd, Payload.syncKey]
        constructor
        · intro h
          obtain rfl : r = x := by simpa using h
          exact ⟨rfl, rfl⟩
        · rintro ⟨-, h⟩
          simpa using (Payload.dnsRecord.inj (Option.some.inj h)).symm
  rw [mem_dnsRecords, row_applyPayload, Function.update_apply, hcell, mem_dnsRecords]
  by_cases hk : (⟨.dnsRecord, r.id⟩ : SyncKey) = p.syncKey
  · rw [if_pos hk]
    simp [hk]
  · rw [if_neg hk]
    have hk' : p.syncKey ≠ ⟨.dnsRecord, r.id⟩ := Ne.symm hk
    simp [hk']

end LocalDB

/-! ## Steps the engine follows -/

/-- The records a payload may change: an upsert finds no other enabled
record, a deletion finds its record disabled or absent. An upserted
record that is enabled spells its type in normal form. -/
def SoleRecord (types : TypeNames) (db : LocalDB) : Payload → Prop
  | .dnsRecord r =>
    if r.deleted then ∀ old ∈ db.dnsRecords, old.enabled = true → old.id ≠ r.id
    else
      (∀ old ∈ db.dnsRecords, old.enabled = true → old.id = r.id)
        ∧ (r.enabled = true → DNS.normalizeRecordType types r.recordType = r.recordType)
  | .domainEntry _ => True

instance (types : TypeNames) (db : LocalDB) : DecidablePred (SoleRecord types db)
  | .dnsRecord _ => by unfold SoleRecord; infer_instance
  | .domainEntry _ => isTrue trivial

def SoleRecords (types : TypeNames) (db : LocalDB) (n : Nat) (ps : List Payload) : Prop :=
  Along (LocalDB.applyPayload n) (SoleRecord types) db ps

instance (types : TypeNames) (db : LocalDB) (n : Nat) :
    DecidablePred (SoleRecords types db n) :=
  fun ps => inferInstanceAs (Decidable (Along _ _ db ps))

def SoleEvent (types : TypeNames) (node : SlaveNode) : SlaveEvent → Prop
  | .applySnapshot s faults =>
    faults = [] ∧ SoleRecords types node.db s.snapshotRecordID s.payloads
  | .applyChangelog c faults =>
    faults = [] ∧ (c.snapshotRecordID = node.db.getSnapshotRecordID + 1 →
      SoleRecords types node.db c.snapshotRecordID c.payloads)
  | .restart => ∀ r ∈ node.db.dnsRecords, r.enabled = false
  | _ => True

instance (types : TypeNames) (node : SlaveNode) : DecidablePred (SoleEvent types node)
  | .applySnapshot _ _ => by unfold SoleEvent; infer_instance
  | .applyChangelog _ _ => by unfold SoleEvent; infer_instance
  | .restoreLoop => isTrue trivial
  | .request _ => isTrue trivial
  | .tlsConn _ => isTrue trivial
  | .restart => by unfold SoleEvent; infer_instance

/-! ## The record the engine ends up with -/

/-- The records of the local store that are enabled are those of `base`,
which is what the engine is restored with last. -/
structure Mirrors (types : TypeNames) (db : LocalDB) (base : List DNSRecord) : Prop where
  single : base.length ≤ 1
  rows : ∀ r, r.enabled = true → (r ∈ db.dnsRecords ↔ r ∈ base)
  normal : ∀ r ∈ base, r.enabled = true →
    DNS.normalizeRecordType types r.recordType = r.recordType

/-- The base records once a call that sends `sent` is drained. -/
def nextBase (base sent : List DNSRecord) : List DNSRecord :=
  (sent.getLast?.map fun r => [r]).getD base

theorem Mirrors.payload (h : Mirrors types db base) (n : Nat) {p : Payload}
    (hp : SoleRecord types db p) :
    Mirrors types (db.applyPayload n p) (nextBase base p.pushed) := by
  cases p with
  | domainEntry e =>
    refine ⟨h.single, fun r hr => ?_, h.normal⟩
    rw [LocalDB.mem_dnsRecords_applyPayload, h.rows r hr]
    simp [Payload.pushed, Payload.syncKey, nextBase]
  | dnsRecord x =>
    cases hd : x.deleted with
    | true =>
      have hpushed : (Payload.dnsRecord x).pushed = [] := by simp [Payload.pushed, hd]
      have hold : ∀ old ∈ db.dnsRecords, old.enabled = true → old.id ≠ x.id := by
        simpa [SoleRecord, hd] using hp
      rw [hpushed]
      refine ⟨h.single, fun r hr => ?_, h.normal⟩
      rw [LocalDB.mem_dnsRecords_applyPayload, hpushed]
      constructor
      · rintro (hin | ⟨hin, -⟩)
        · exact absurd hin not_mem_nil
        · exact (h.rows r hr).mp hin
      · intro hin
        have hmem := (h.rows r hr).mpr hin
        refine Or.inr ⟨hmem, fun hkey => hold r hmem hr ?_⟩
        exact (congrArg SyncKey.syncID hkey).symm
    | false =>
      have hpushed : (Payload.dnsRecord x).pushed = [x] := by simp [Payload.pushed, hd]
      obtain ⟨hold, hnormal⟩ : (∀ old ∈ db.dnsRecords, old.enabled = true → old.id = x.id)
          ∧ (x.enabled = true → DNS.normalizeRecordType types x.recordType = x.recordType) := by
        simpa [SoleRecord, hd] using hp
      rw [hpushed]
      refine ⟨Nat.le_refl 1, fun r hr => ?_, fun r hr => ?_⟩
      · rw [LocalDB.mem_dnsRecords_applyPayload, hpushed]
        constructor
        · rintro (hin | ⟨hin, hkey⟩)
          · exact hin
          · exact absurd (congrArg (SyncKey.mk .dnsRecord) (hold r hin hr).symm) hkey
        · exact Or.inl
      · rw [mem_singleton.mp hr]
        exact hnormal

theorem Mirrors.payloads (h : Mirrors types db base) {n : Nat} {ps : List Payload}
    (hps : SoleRecords types db n ps) :
    Mirrors types (ps.foldl (LocalDB.applyPayload n) db)
      (nextBase base (ps.flatMap Payload.pushed)) := by
  induction ps generalizing db base with
  | nil => exact h
  | cons p ps ih =>
    have hnext := ih (h.payload n hps.1) hps.2
    have hbase : nextBase base ((p :: ps).flatMap Payload.pushed)
        = nextBase (nextBase base p.pushed) (ps.flatMap Payload.pushed) := by
      rw [flatMap_cons, nextBase, List.getLast?_append, nextBase]
      cases (ps.flatMap Payload.pushed).getLast? <;> rfl
    rw [hbase]
    exact hnext

/-! ## Runs -/

/-- The base records of the engine once `dnsChan` is drained. -/
def SlaveNode.drainedBase (node : SlaveNode) : List DNSRecord :=
  node.dnsChan.getLast?.getD node.dns.baseDNS

structure Fed (types : TypeNames) (node : SlaveNode) : Prop where
  k8s : node.dns.k8sDNS = []
  store : node.dns.store = .restore types node.dns.baseDNS
  rows : Mirrors types node.db node.drainedBase

theorem fed_start (hdb : ∀ r ∈ db.dnsRecords, r.enabled = false) : Fed types (.start db) where
  k8s := rfl
  store := rfl
  rows :=
    { single := Nat.zero_le 1
      rows := fun r hr =>
        ⟨fun hmem => absurd (hdb r hmem) (by simp [hr]), fun hmem => absurd hmem not_mem_nil⟩
      normal := fun r hmem => absurd hmem not_mem_nil }

theorem Fed.applied {node : SlaveNode} (h : Fed types node) {a : Applied} {n : Nat}
    {ps : List Payload} (hdb : a.db = ps.foldl (LocalDB.applyPayload n) node.db)
    (hchan : a.dnsChan = ps.flatMap Payload.pushed) (hps : SoleRecords types node.db n ps) :
    Fed types (node.applied a) where
  k8s := h.k8s
  store := h.store
  rows := by
    have hbase : (node.applied a).drainedBase
        = nextBase node.drainedBase (ps.flatMap Payload.pushed) := by
      rw [SlaveNode.drainedBase, SlaveNode.applied, hchan, List.getLast?_append,
        List.getLast?_map, nextBase, SlaveNode.drainedBase]
      cases (ps.flatMap Payload.pushed).getLast? <;> rfl
    rw [hbase, SlaveNode.applied, hdb]
    exact h.rows.payloads hps

theorem Fed.withMemory {node : SlaveNode} (h : Fed types node) (memory : Ingress.MemoryStore) :
    Fed types (node.withMemory memory) :=
  ⟨h.k8s, h.store, h.rows⟩

theorem Fed.step (node : SlaveNode) (e : SlaveEvent) (h : Fed types node)
    (he : SoleEvent types node e) : Fed types (node.step types e) := by
  cases e with
  | applySnapshot s faults =>
    obtain ⟨rfl, hps⟩ := he
    rw [SlaveNode.step, LocalDB.applySnapshot_nil]
    exact h.applied rfl rfl hps
  | applyChangelog c faults =>
    obtain ⟨rfl, hps⟩ := he
    rw [SlaveNode.step]
    by_cases hc : c.snapshotRecordID = node.db.getSnapshotRecordID + 1
    · rw [LocalDB.applyChangelog_of_eq hc]
      exact h.applied rfl rfl (hps hc)
    · obtain ⟨err, heq⟩ := LocalDB.applyChangelog_of_ne hc
      have hnone : SoleRecords types node.db 0 [] := trivial
      rw [heq]
      exact h.applied rfl rfl hnone
  | restoreLoop =>
    rw [SlaveNode.step, SlaveNode.restoreLoop]
    cases hchan : node.dnsChan with
    | nil => exact h
    | cons items rest =>
      refine ⟨h.k8s, ?_, ?_⟩
      · simp only [DNS.Engine.restoreRecords, h.k8s, append_nil]
      · have hbase : node.drainedBase = rest.getLast?.getD items := by
          rw [SlaveNode.drainedBase, hchan, List.getLast?_cons]
          rfl
        have hrows := h.rows
        rw [hbase] at hrows
        exact hrows
  | request req => exact h.withMemory _
  | tlsConn serverName => exact h
  | restart => exact fed_start he

theorem fed_run {events : List SlaveEvent}
    (h : Along (SlaveNode.step types) (SoleEvent types) (.start .empty) events) :
    Fed types (SlaveNode.run types events) :=
  h.invariant Fed.step (fed_start fun _ hr => absurd hr not_mem_nil)

/-! ## Answers -/

/-- The store compares the type as spelled, which makes no difference for a
type in normal form. -/
theorem answeredBy_stored {r : DNSRecord}
    (hnormal : r.enabled = true → DNS.normalizeRecordType types r.recordType = r.recordType)
    (q : DNS.Question) :
    (DNS.normalizeQuestion types q).answeredBy (DNS.stored r) = q.asks types r := by
  rw [Bool.eq_iff_iff, DNS.Question.answeredBy_iff, DNS.Question.asks_iff]
  simp only [DNS.stored, DNS.normalizeQuestion, DNS.normalizeFQDN_idem]
  refine and_congr_right fun hr => ?_
  rw [hnormal hr]

theorem Mirrors.nodup (h : Mirrors types db base) : base.Nodup := by
  match base, h.single with
  | [], _ => exact nodup_nil
  | [r], _ => exact nodup_singleton r

theorem Mirrors.answers_perm (h : Mirrors types db base) (q : DNS.Question) :
    ((base.map DNS.stored).filter (DNS.normalizeQuestion types q).answeredBy).Perm
      (db.answers types q) := by
  have hasked : base.filter ((DNS.normalizeQuestion types q).answeredBy ∘ DNS.stored)
      = base.filter (q.asks types) := by
    refine filter_congr fun r hr => ?_
    rw [Function.comp_apply, answeredBy_stored (h.normal r hr) q]
  rw [filter_map, hasked, LocalDB.answers]
  refine List.Perm.map _ ?_
  rw [perm_ext_iff_of_nodup (h.nodup.filter _) (db.nodup_dnsRecords.filter _)]
  intro r
  rw [mem_filter, mem_filter]
  exact and_congr_left fun hasks => (h.rows r (DNS.Question.asks_iff.mp hasks).1).symm

/-- In a run whose events all meet the condition, whenever `dnsChan` is
drained, the store of the DNS engine answers every question with exactly
the enabled rows of the local store for its name and type. -/
theorem drained_lookup_perm {types : TypeNames} {events : List SlaveEvent}
    (h : Along (SlaveNode.step types) (SoleEvent types) (.start .empty) events)
    (hdrained : (SlaveNode.run types events).dnsChan = []) (q : DNS.Question) :
    ((SlaveNode.run types events).dns.store.lookup types q).1.records.Perm
      ((SlaveNode.run types events).db.answers types q) := by
  obtain ⟨-, hstore, hrows⟩ := fed_run h
  rw [SlaveNode.drainedBase, hdrained] at hrows
  rw [hstore]
  exact (DNS.MemoryStore.lookup_restore hrows.single q).trans (hrows.answers_perm q)

def addressRecord (id fqdn value : String) : DNSRecord where
  id := id
  fqdn := fqdn
  recordType := "A"
  ttlSeconds := 60
  valuesJSON := value
  enabled := true

def recordEvents (n : Nat) (r : DNSRecord) : List SlaveEvent :=
  [.applyChangelog ((Payload.dnsRecord r).notice n) [], .restoreLoop]

theorem drained_lookup_perm_updated :
    let r := addressRecord "1" "www.example." "10.0.0.1"
    let r' := addressRecord "1" "www.example." "10.0.0.2"
    let node := SlaveNode.run commonTypes (recordEvents 1 r ++ recordEvents 2 r')
    (node.dns.store.lookup commonTypes ⟨"WWW.example", "a"⟩).1.records.Perm
        (node.db.answers commonTypes ⟨"WWW.example", "a"⟩)
      ∧ node.db.answers commonTypes ⟨"WWW.example", "a"⟩ = [r'] :=
  ⟨drained_lookup_perm (by decide +kernel) (by decide +kernel) _, by decide +kernel⟩

/-- Three drained states in which the DNS engine has left the local store:
after a second record it has lost the first, after a deletion it still
answers with the deleted record, and after a restart it has nothing. -/
theorem lookup_leaves_rows :
    let a := addressRecord "1" "a.example." "10.0.0.1"
    let b := addressRecord "2" "b.example." "10.0.0.2"
    let q : DNS.Question := ⟨"a.example.", "A"⟩
    let second := SlaveNode.run commonTypes (recordEvents 1 a ++ recordEvents 2 b)
    let deleted := SlaveNode.run commonTypes
      (recordEvents 1 a ++ recordEvents 2 { a with deleted := true })
    let restarted := SlaveNode.run commonTypes (recordEvents 1 a ++ [.restart])
    (second.dnsChan = [] ∧ second.db.answers commonTypes q = [a]
        ∧ (second.dns.store.lookup commonTypes q).1.records = [])
      ∧ (deleted.dnsChan = [] ∧ deleted.db.answers commonTypes q = []
        ∧ (deleted.dns.store.lookup commonTypes q).1.records = [a])
      ∧ (restarted.dnsChan = [] ∧ restarted.db.answers commonTypes q = [a]
        ∧ (restarted.dns.store.lookup commonTypes q).1.records = []) := by
  decide +kernel

end LunaEdge
