import LunaEdge.BridgeSync
import LunaEdge.Manage

/-!
# The DNS bridge of the master

The bridge keeps the records of every `DnsDomainRecord` object. On every
event it rebuilds the whole list, upserts it, deletes the rows of its own
that are no longer in it, and then broadcasts the list: not the rows that
changed, and never the deleted ones.

`PublishesChanges` says what a subscriber expects of an event: the log
rows appended name exactly the rows of the bridge that the event created,
changed or deleted. It holds exactly if the event changes every record of
the list and deletes none (`publishesChanges_iff`). A re-delivered object
and a deleted one show the two failures (`redelivery_publishes`).
-/

namespace LunaEdge

open Session List

namespace DNSBridge

/-! ## Objects -/

/-- One element of `spec.records`; absent texts are empty. -/
structure RecordItem where
  type : String := ""
  values : List String := []
  name : String := ""
  ttl : Option Int := none

/-- A `DnsDomainRecord`; an element of `spec.records` that is no object
is `none`. -/
structure DnsDomainRecord where
  ns : String
  name : String
  domain : String := ""
  records : List (Option RecordItem) := []

def normalizeRecordType (recordType : String) : String :=
  let recordType := Go.toUpper (Go.trimSpace recordType)
  if ["A", "AAAA", "CNAME", "TXT", "MX", "NS", "SRV", "CAA"].contains recordType then recordType
  else ""

def compactStrings (values : List String) : List String :=
  (values.map Go.trimSpace).filter fun v => v ≠ ""

def joinDNSLabel (label domain : String) : String :=
  let label := Go.trimSpace label
  let domain := Go.trim (Go.trimSpace domain) "."
  if label = "" ∨ label = "@" then domain else Go.trim label "." ++ "." ++ domain

/-- Ids of records the bridge owns. -/
def managedRecord (id : String) : Bool := Go.hasPrefix id "k8s:"

/-- The records of an object are records of the bridge. -/
structure DnsDomainRecordState where
  key : String
  records : List DNSRecord
  hmanaged : ∀ r ∈ records, managedRecord r.id = true
  hlive : ∀ r ∈ records, r.deleted = false

def parseRecord (marshal : List String → String) (domainID domain : String)
    (raw : Option RecordItem × Nat) : Option DNSRecord :=
  raw.1.bind fun item =>
    let recordType := normalizeRecordType item.type
    let values := compactStrings item.values
    if recordType = "" ∨ values = [] then none
    else
      let ttl := match item.ttl with
        | some ttl => if 0 ≤ ttl then ttl.toNat % 4294967296 else 60
        | none => 60
      some
        { id := domainID ++ ":" ++ toString raw.2
          fqdn := joinDNSLabel item.name domain
          recordType := recordType
          routingClass := "first"
          ttlSeconds := ttl
          valuesJSON := marshal values
          enabled := true }

theorem parseRecord_eq_some {marshal : List String → String} {domainID domain : String}
    {raw : Option RecordItem × Nat} {r : DNSRecord}
    (h : parseRecord marshal domainID domain raw = some r) :
    r.id = domainID ++ ":" ++ toString raw.2 ∧ r.deleted = false := by
  rw [parseRecord, Option.bind_eq_some_iff] at h
  obtain ⟨item, -, h⟩ := h
  simp only at h
  split at h
  · cases h
  · rw [Option.some.injEq] at h
    subst h
    exact ⟨rfl, rfl⟩

theorem managedRecord_append (s : String) : managedRecord ("k8s:" ++ s) = true :=
  Go.hasPrefix_append "k8s:" s

def parseDNSDomainRecordState (marshal : List String → String) (obj : DnsDomainRecord) :
    Option DnsDomainRecordState :=
  let domain := Go.trimSpace obj.domain
  let domainID := "k8s:" ++ obj.ns ++ ":" ++ obj.name
  if obj.ns = "" ∨ obj.name = "" ∨ domain = "" then none
  else some
    { key := obj.ns ++ "/" ++ obj.name
      records := obj.records.zipIdx.filterMap (parseRecord marshal domainID domain)
      hmanaged := by
        intro r hr
        obtain ⟨raw, -, hraw⟩ := mem_filterMap.mp hr
        rw [(parseRecord_eq_some hraw).1]
        simp only [domainID, String.append_assoc]
        exact managedRecord_append _
      hlive := by
        intro r hr
        obtain ⟨raw, -, hraw⟩ := mem_filterMap.mp hr
        exact (parseRecord_eq_some hraw).2 }

/-! ## The bridge -/

inductive Event where
  | store (obj : DnsDomainRecord)
  /-- also from a tombstone that carries the object -/
  | delete (ns name : String)

end DNSBridge

structure DNSBridge where
  records : GoMap String DNSBridge.DnsDomainRecordState

namespace DNSBridge

def flattenRecordsLocked (b : DNSBridge) : List DNSRecord :=
  (b.records.keys.insertionSort (· ≤ ·)).flatMap fun key =>
    (b.records.get? key).elim [] (·.records)

/-- The bridge after an event; `none` if the event is passed over. -/
def handle (marshal : List String → String) (b : DNSBridge) : Event → Option DNSBridge
  | .store obj =>
    (parseDNSDomainRecordState marshal obj).map fun state => ⟨b.records.set state.key state⟩
  | .delete ns name => some ⟨b.records.delete (ns ++ "/" ++ name)⟩

end DNSBridge

namespace MasterM

open DNSBridge

/-- The map of the existing rows is ranged over in the order `range`
gives. -/
def syncDNSRecords (range : List String → List String) (records : List DNSRecord) :
    MasterM PUnit := do
  let existing ← query fun m => .ok m.repo.dnsRecords.listResource
  let existingIDs := (existing.map (·.id)).filter managedRecord
  records.forM fun r => upsertResource r
  (range (existingIDs.filter fun id => id ∉ records.map (·.id))).forM
    (deleteResourceByField DNSRecord "id")

/-- `OnUpdate` broadcasts each record of the list. -/
def syncRecords (range : List String → List String) (records : List DNSRecord) :
    MasterM PUnit := do
  syncDNSRecords range records
  (records.map (·.id)).forM boardcastDNSRecord

def handleDNSEvent (marshal : List String → String) (range : List String → List String)
    (b : DNSBridge) (e : Event) : MasterM PUnit :=
  match b.handle marshal e with
  | none => pure ()
  | some b => syncRecords range b.flattenRecordsLocked

end MasterM

namespace DNSBridge

/-! ## What is published -/

/-- The columns a change is seen in. -/
def published (r : DNSRecord) : String × String × Nat × String :=
  (r.fqdn, r.recordType, r.ttlSeconds, r.valuesJSON)

/-- The live row of a record of the bridge was created, changed or
deleted. -/
def RowChanged (m m' : Master) (id : String) : Prop :=
  managedRecord id = true
    ∧ (m.repo.dnsRecords.live? id).map published ≠ (m'.repo.dnsRecords.live? id).map published

/-- The log rows appended name exactly the rows that changed. -/
def PublishesChanges (m m' : Master) : Prop :=
  ∃ appended, m'.log.keys = m.log.keys ++ appended
    ∧ ∀ k, k ∈ appended ↔ k.syncType = .dnsRecord ∧ RowChanged m m' k.syncID

/-- Every record of the list is new or differs from its row, and every
row of the bridge is in the list. Of two records with one id the last
counts. -/
def OnlyChanges (m : Master) (records : List DNSRecord) : Prop :=
  (∀ id r, K8sBridge.lastByID (·.id) records id = some r →
      (m.repo.dnsRecords.live? id).map published ≠ some (published r.withDefaults))
    ∧ ∀ id, managedRecord id = true → (m.repo.dnsRecords.live? id).isSome →
        ∃ r ∈ records, r.id = id

/-! ## One event -/

def dropped (m : Master) (records : List DNSRecord) : List String :=
  ((m.repo.dnsRecords.listResource.map (·.id)).filter managedRecord).filter
    fun id => id ∉ records.map (·.id)

def synced (range : List String → List String) (m : Master) (records : List DNSRecord) : Repo :=
  (range (dropped m records)).foldl (fun repo id => repo.retire DNSRecord id)
    (records.foldl (fun repo r => repo.upsertResource r) m.repo)

theorem syncDNSRecords_done (range : List String → List String) (m : Master)
    (records : List DNSRecord) :
    Done (MasterM.syncDNSRecords range records) m () { m with repo := synced range m records } := by
  have hupsert := MasterM.forM_repo_done
    (fun (r : DNSRecord) m => MasterM.upsertResource_done m r) records m
  have hdelete := MasterM.forM_repo_done
    (fun id m => MasterM.deleteResourceByField_done DNSRecord m rfl id)
    (range (dropped m records))
    { m with repo := records.foldl (fun repo r => repo.upsertResource r) m.repo }
  unfold MasterM.syncDNSRecords
  exact (Done.query (f := fun m : Master => .ok m.repo.dnsRecords.listResource) rfl).bind
    (hupsert.bind hdelete)

/-- A synchronisation that returns has done the same, whatever may fail. -/
theorem syncDNSRecords_returns {E : RepoError → Prop} (range : List String → List String)
    (m : Master) (records : List DNSRecord) :
    Returns E (MasterM.syncDNSRecords range records) m fun _ t =>
      t = { m with repo := synced range m records } := by
  unfold MasterM.syncDNSRecords
  have hlist : Done (query fun m => .ok m.repo.dnsRecords.listResource : MasterM _) m
      m.repo.dnsRecords.listResource m := Done.query rfl
  refine hlist.returns_statement.bind ?_
  rintro _ _ ⟨rfl, rfl⟩
  refine (MasterM.forM_repo_returns (fun r m => MasterM.upsertResource_returns r m) records _).bind
    fun _ _ h => ?_
  subst h
  exact MasterM.forM_repo_returns
    (fun id m => MasterM.deleteResourceByField_returns DNSRecord m rfl id) _ _

theorem syncRecords_done (range : List String → List String) (m : Master)
    (records : List DNSRecord) :
    Done (MasterM.syncRecords range records) m ()
      (({ m with repo := synced range m records } : Master).announceAll
        (records.filterMap fun r => (synced range m records).current ⟨.dnsRecord, r.id⟩)) := by
  have hsync := syncDNSRecords_done range m records
  have hbroadcast := MasterM.dnsRecordIDs_done (records.map (·.id))
    { m with repo := synced range m records }
  rw [filterMap_map] at hbroadcast
  exact hsync.bind hbroadcast

variable {records : List DNSRecord} {range : List String → List String} {r : DNSRecord}

theorem mem_dropped {m : Master} {id : String} :
    id ∈ dropped m records ↔ managedRecord id = true
      ∧ (m.repo.dnsRecords.live? id).isSome ∧ ∀ r ∈ records, r.id ≠ id := by
  unfold dropped
  simp only [mem_filter, mem_map, decide_eq_true_eq, not_exists, not_and]
  constructor
  · rintro ⟨⟨⟨r, hr, rfl⟩, hmanaged⟩, hnot⟩
    exact ⟨hmanaged, Option.isSome_iff_exists.mpr ⟨r, Table.mem_listResource.mp hr⟩, hnot⟩
  · rintro ⟨hmanaged, hlive, hnot⟩
    obtain ⟨r, hr⟩ := Option.isSome_iff_exists.mp hlive
    have hid : r.id = id := Table.key_of_live? hr
    subst hid
    exact ⟨⟨⟨r, Table.mem_listResource.mpr hr, rfl⟩, hmanaged⟩, hnot⟩

theorem synced_eq (range : List String → List String) (m : Master) (records : List DNSRecord) :
    synced range m records
      = { m.repo with
          dnsRecords := (range (dropped m records)).foldl (fun t k => t.retire Keyed.key k)
            (records.foldl Table.upsertResource m.repo.dnsRecords) } := by
  have hupsert : ∀ (l : List DNSRecord) (repo : Repo),
      l.foldl (fun repo r => repo.upsertResource r) repo
        = { repo with dnsRecords := l.foldl Table.upsertResource repo.dnsRecords } := by
    intro l repo
    induction l generalizing repo with
    | nil => rfl
    | cons r l ih => exact ih _
  have hretire : ∀ (l : List String) (repo : Repo),
      l.foldl (fun repo id => repo.retire DNSRecord id) repo
        = { repo with
            dnsRecords := l.foldl (fun t k => t.retire Keyed.key k) repo.dnsRecords } := by
    intro l repo
    induction l generalizing repo with
    | nil => rfl
    | cons r l ih => exact ih _
  rw [synced, hretire, hupsert]

section

variable (hrange : ∀ l, (range l).Perm l)

include hrange

theorem live?_synced (m : Master) (hlive : ∀ r ∈ records, r.deleted = false) (id : String) :
    (synced range m records).dnsRecords.live? id
      = if id ∈ dropped m records then none
        else ((K8sBridge.lastByID (·.id) records id).map DNSRecord.withDefaults).or
          (m.repo.dnsRecords.live? id) := by
  rw [synced_eq]
  dsimp only
  rw [Table.live?_foldl_retire, Table.live?_foldl_upsertResource m.repo.dnsRecords hlive]
  simp only [(hrange _).mem_iff]
  rfl

/-- The row of a record of the list is its last mention there. -/
theorem live?_synced_of_last (m : Master) (hlive : ∀ r ∈ records, r.deleted = false) {id : String}
    (hr : K8sBridge.lastByID (·.id) records id = some r) :
    (synced range m records).dnsRecords.live? id = some r.withDefaults := by
  obtain ⟨hmem, hid⟩ := K8sBridge.mem_of_lastByID hr
  rw [live?_synced hrange m hlive, if_neg (fun h => (mem_dropped.mp h).2.2 r hmem hid), hr]
  rfl

theorem keys_published (m : Master) (hlive : ∀ r ∈ records, r.deleted = false) :
    (({ m with repo := synced range m records } : Master).announceAll
        (records.filterMap fun r =>
          (synced range m records).current ⟨.dnsRecord, r.id⟩)).log.keys
      = m.log.keys ++ records.map fun r => ⟨.dnsRecord, r.id⟩ := by
  rw [Master.keys_announceAll]
  have hcurrent : ∀ r ∈ records, ∃ p,
      (synced range m records).current ⟨.dnsRecord, r.id⟩ = some p
        ∧ p.syncKey = ⟨.dnsRecord, r.id⟩ := by
    intro r hr
    obtain ⟨last, hlast⟩ := K8sBridge.exists_lastByID hr
    refine ⟨.dnsRecord last.withDefaults, ?_, ?_⟩
    · rw [Repo.current_dnsRecord, live?_synced_of_last hrange m hlive hlast]
      rfl
    · exact congrArg (SyncKey.mk .dnsRecord) (K8sBridge.mem_of_lastByID hlast).2
  congr 1
  rw [map_filterMap]
  clear hlive hrange
  generalize (synced range m records).current = current at hcurrent ⊢
  induction records with
  | nil => rfl
  | cons r records ih =>
    obtain ⟨p, hp, hkey⟩ := hcurrent r mem_cons_self
    rw [filterMap_cons, hp, map_cons]
    simp only [Option.map_some, hkey]
    rw [ih fun r hr => hcurrent r (mem_cons_of_mem _ hr)]

theorem publishesChanges_synced_iff (m : Master) (hlive : ∀ r ∈ records, r.deleted = false)
    (hmanaged : ∀ r ∈ records, managedRecord r.id = true) :
    PublishesChanges m (({ m with repo := synced range m records } : Master).announceAll
        (records.filterMap fun r => (synced range m records).current ⟨.dnsRecord, r.id⟩))
      ↔ OnlyChanges m records := by
  have hkeys := keys_published hrange m hlive
  have hrow := live?_synced hrange m hlive
  have hrepo := Master.announceAll_repo ({ m with repo := synced range m records } : Master)
    (records.filterMap fun r => (synced range m records).current ⟨.dnsRecord, r.id⟩)
  constructor
  · rintro ⟨appended, happended, hexact⟩
    obtain rfl := append_cancel_left (hkeys.symm.trans happended)
    simp only [RowChanged, hrepo] at hexact
    constructor
    · intro id r hr hsame
      obtain ⟨hmem, hid⟩ := K8sBridge.mem_of_lastByID hr
      have hchanged := ((hexact ⟨.dnsRecord, id⟩).mp (mem_map.mpr ⟨r, hmem, by rw [hid]⟩)).2.2
      rw [live?_synced_of_last hrange m hlive hr] at hchanged
      exact hchanged hsame
    · intro id hid hsome
      by_contra hnone
      have hdropped : id ∈ dropped m records :=
        mem_dropped.mpr ⟨hid, hsome, fun r hr hrid => hnone ⟨r, hr, hrid⟩⟩
      have hchanged : (m.repo.dnsRecords.live? id).map published
          ≠ ((synced range m records).dnsRecords.live? id).map published := by
        obtain ⟨r, hr⟩ := Option.isSome_iff_exists.mp hsome
        rw [hrow id, if_pos hdropped, hr]
        simp
      obtain ⟨r, hr, hrid⟩ := mem_map.mp ((hexact ⟨.dnsRecord, id⟩).mpr ⟨rfl, hid, hchanged⟩)
      exact hnone ⟨r, hr, congrArg SyncKey.syncID hrid⟩
  · rintro ⟨hnew, hkept⟩
    refine ⟨_, hkeys, ?_⟩
    rintro ⟨type, id⟩
    simp only [RowChanged, hrepo, mem_map]
    constructor
    · rintro ⟨r, hr, hkey⟩
      cases hkey
      obtain ⟨last, hlast⟩ := K8sBridge.exists_lastByID hr
      refine ⟨rfl, hmanaged r hr, ?_⟩
      rw [live?_synced_of_last hrange m hlive hlast]
      exact hnew r.id last hlast
    · rintro ⟨rfl, hid, hchanged⟩
      by_contra hnone
      -- a row outside the list would have been kept, so there was none
      have hnotin : ∀ r ∈ records, r.id ≠ id := fun r hr hrid => hnone ⟨r, hr, by rw [hrid]⟩
      have hgone : m.repo.dnsRecords.live? id = none := by
        by_contra hsome
        obtain ⟨r, hr, hrid⟩ := hkept id hid (Option.isSome_iff_ne_none.mpr hsome)
        exact hnotin r hr hrid
      rw [hrow id, hgone, K8sBridge.lastByID_eq_none hnotin] at hchanged
      simp at hchanged

end

/-! ## What a synchronisation leaves -/

/-- The columns a record is answered from. -/
def answered (r : DNSRecord) : String × String × String := (r.fqdn, r.recordType, r.valuesJSON)

/-- The live rows of the bridge are the given records, and every other row
of the database is as it was. -/
structure SyncedExactly (m m' : Master) (records : List DNSRecord) : Prop where
  managed : ∀ id, managedRecord id = true → ∀ columns,
    (m'.repo.dnsRecords.live? id).map answered = some columns
      ↔ ∃ r ∈ records, r.id = id ∧ answered r = columns
  foreign : ∀ id, managedRecord id = false →
    m'.repo.dnsRecords.find? id = m.repo.dnsRecords.find? id
  tables : m' = { m with repo := { m.repo with dnsRecords := m'.repo.dnsRecords } }

theorem find?_foldl_upsertResource_of_ne (records : List DNSRecord) (t : Table DNSRecord)
    {id : String} (h : ∀ r ∈ records, r.id ≠ id) :
    (records.foldl Table.upsertResource t).find? id = t.find? id := by
  induction records generalizing t with
  | nil => rfl
  | cons r records ih =>
    rw [forall_mem_cons] at h
    rw [foldl_cons, ih _ h.2, Table.find?_upsertResource_of_ne t h.1]

theorem find?_foldl_retire_of_ne (ids : List String) (t : Table DNSRecord) {id : String}
    (h : id ∉ ids) :
    (ids.foldl (fun t k => t.retire Keyed.key k) t).find? id = t.find? id := by
  induction ids generalizing t with
  | nil => rfl
  | cons k ids ih =>
    rw [mem_cons, not_or] at h
    rw [foldl_cons, ih _ h.2, Table.find?_retire_of_ne t (Ne.symm h.1)]

theorem lastByID_of_nodup (hnodup : (records.map (·.id)).Nodup) (hr : r ∈ records) :
    K8sBridge.lastByID (·.id) records r.id = some r := by
  obtain ⟨last, hlast⟩ : ∃ last, K8sBridge.lastByID (·.id) records r.id = some last :=
    K8sBridge.exists_lastByID hr
  obtain ⟨hmem, hid⟩ := K8sBridge.mem_of_lastByID hlast
  rw [hlast, inj_on_of_nodup_map hnodup hmem hr hid]

theorem syncedExactly_synced (hrange : ∀ l, (range l).Perm l) (m : Master)
    (hlive : ∀ r ∈ records, r.deleted = false) (hmanaged : ∀ r ∈ records, managedRecord r.id = true)
    (hnodup : (records.map (·.id)).Nodup) :
    SyncedExactly m { m with repo := synced range m records } records := by
  refine ⟨fun id hid columns => ?_, fun id hid => ?_, ?_⟩
  · show ((synced range m records).dnsRecords.live? id).map answered = _ ↔ _
    by_cases hgiven : ∃ r ∈ records, r.id = id
    · obtain ⟨r, hr, rfl⟩ := hgiven
      rw [live?_synced_of_last hrange m hlive (lastByID_of_nodup hnodup hr)]
      constructor
      · intro h
        exact ⟨r, hr, rfl, Option.some.inj h⟩
      · rintro ⟨s, hs, hsid, rfl⟩
        rw [inj_on_of_nodup_map hnodup hs hr hsid]
        rfl
    · -- a row that is not given was live before and dropped, or not live
      have hnone : ∀ r ∈ records, r.id ≠ id := fun r hr h => hgiven ⟨r, hr, h⟩
      have hgone : (synced range m records).dnsRecords.live? id = none := by
        rw [live?_synced hrange m hlive]
        split
        · rfl
        · rename_i hdropped
          rw [K8sBridge.lastByID_eq_none hnone, Option.map_none, Option.none_or]
          by_contra hsome
          exact hdropped
            (mem_dropped.mpr ⟨hid, Option.isSome_iff_ne_none.mpr hsome, hnone⟩)
      rw [hgone]
      constructor
      · intro h
        cases h
      · rintro ⟨r, hr, hrid, -⟩
        exact absurd hrid (hnone r hr)
  · show (synced range m records).dnsRecords.find? id = _
    have hnone : ∀ r ∈ records, r.id ≠ id := by
      rintro r hr rfl
      rw [hmanaged r hr] at hid
      cases hid
    have hkept : id ∉ range (dropped m records) := by
      rw [(hrange _).mem_iff, mem_dropped, hid]
      simp
    rw [synced_eq]
    exact (find?_foldl_retire_of_ne _ _ hkept).trans
      (find?_foldl_upsertResource_of_ne records _ hnone)
  · rw [synced_eq]

/-- After a successful synchronisation the rows of the bridge are the
given records. -/
theorem syncDNSRecords_exact (range : List String → List String) (hrange : ∀ l, (range l).Perm l)
    (m m' : Master) (faults rest : List (Option RepoError)) (records : List DNSRecord)
    (hlive : ∀ r ∈ records, r.deleted = false)
    (hmanaged : ∀ r ∈ records, managedRecord r.id = true)
    (hnodup : (records.map (·.id)).Nodup)
    (hrun : MasterM.syncDNSRecords range records ⟨m, faults⟩ = (.ok (), ⟨m', rest⟩)) :
    SyncedExactly m m' records := by
  have hreturns := syncDNSRecords_returns (E := fun _ => True) range m records
  obtain rfl := (hreturns faults (fun _ _ => trivial) () _ hrun).1
  exact syncedExactly_synced hrange m hlive hmanaged hnodup

/-- Three rows: one of the bridge that stays, deleted, one that goes, and
one of somebody else. -/
def exampleRows : Master :=
  ⟨{ Repo.empty with
      dnsRecords :=
        [{ id := "k8s:default:zone:0", deleted := true }, { id := "k8s:default:zone:1" },
          { id := "manual", fqdn := "example.test" }].foldl Table.upsertResource .empty },
    .empty, [], none⟩

def exampleRecords : List DNSRecord :=
  [{ id := "k8s:default:zone:0", fqdn := "www.example.test", recordType := "A" }]

theorem syncDNSRecords_exact_revived :
    ∃ m', Done (MasterM.syncDNSRecords id exampleRecords) exampleRows () m'
      ∧ SyncedExactly exampleRows m' exampleRecords :=
  ⟨_, syncDNSRecords_done id exampleRows exampleRecords,
    syncDNSRecords_exact id (fun l => List.Perm.refl l) _ _ [] [] _ (by decide) (by decide +kernel)
      (by decide) (syncDNSRecords_done id exampleRows exampleRecords)⟩

/-! ## Whole events -/

theorem mem_flattenRecordsLocked {b : DNSBridge} (hr : r ∈ b.flattenRecordsLocked) :
    managedRecord r.id = true ∧ r.deleted = false := by
  unfold flattenRecordsLocked at hr
  obtain ⟨key, -, hr⟩ := mem_flatMap.mp hr
  cases hstate : b.records.get? key with
  | none =>
    rw [hstate] at hr
    cases hr
  | some state =>
    rw [hstate] at hr
    exact ⟨state.hmanaged r hr, state.hlive r hr⟩

/-- An event publishes exactly its changes if and only if it changes all
records of the list and removes none. -/
theorem publishesChanges_iff (marshal : List String → String)
    (range : List String → List String) (hrange : ∀ l, (range l).Perm l) (b : DNSBridge)
    (e : Event) (m : Master) :
    ∃ m', Done (MasterM.handleDNSEvent marshal range b e) m () m'
      ∧ (PublishesChanges m m'
          ↔ ∀ b', b.handle marshal e = some b' → OnlyChanges m b'.flattenRecordsLocked) := by
  unfold MasterM.handleDNSEvent
  cases hb : b.handle marshal e with
  | none =>
    refine ⟨m, Done.pure () m, ?_⟩
    constructor
    · intro _ b' hb'
      cases hb'
    · intro _
      refine ⟨[], (append_nil _).symm, fun k => ?_⟩
      simp [RowChanged]
  | some b' =>
    refine ⟨_, syncRecords_done range m b'.flattenRecordsLocked, ?_⟩
    rw [publishesChanges_synced_iff hrange m
      (fun r hr => (mem_flattenRecordsLocked hr).2)
      (fun r hr => (mem_flattenRecordsLocked hr).1)]
    constructor
    · intro h b'' hb''
      cases hb''
      exact h
    · intro h
      exact h b' rfl

def exampleMarshal : List String → String := String.intercalate ","

def exampleZone : DnsDomainRecord :=
  { ns := "default", name := "zone", domain := "example.test"
    records := [some { type := "A", values := ["192.0.2.1"], name := "www" }] }

def exampleStart : Master := ⟨.empty, .empty, [], none⟩

/-- A new object on empty tables is published as it should be. -/
theorem publishesChanges_iff_created :
    ∃ m', Done (MasterM.handleDNSEvent exampleMarshal id ⟨.empty⟩ (.store exampleZone))
        exampleStart () m' ∧ PublishesChanges exampleStart m' := by
  obtain ⟨m', hdone, hiff⟩ := publishesChanges_iff exampleMarshal id (fun l => List.Perm.refl l)
    ⟨.empty⟩ (.store exampleZone) exampleStart
  refine ⟨m', hdone, hiff.mpr ?_⟩
  intro b' _
  refine ⟨fun id r _ hsame => ?_, fun id _ hsome => ?_⟩
  · cases hsame
  · cases hsome

def exampleBridge : DNSBridge :=
  ((⟨.empty⟩ : DNSBridge).handle exampleMarshal (.store exampleZone)).getD ⟨.empty⟩

def exampleStored : Master :=
  (MasterM.handleDNSEvent exampleMarshal id ⟨.empty⟩ (.store exampleZone)
    ⟨exampleStart, []⟩).2.state

def exampleThen (e : Event) : Master :=
  (MasterM.handleDNSEvent exampleMarshal id exampleBridge e ⟨exampleStored, []⟩).2.state

/-- The same object again is announced again, and its deletion is not
announced. -/
theorem redelivery_publishes :
    ¬ PublishesChanges exampleStored (exampleThen (.store exampleZone))
      ∧ ¬ PublishesChanges exampleStored (exampleThen (.delete "default" "zone")) := by
  have hstored : exampleStored.log.keys = [⟨.dnsRecord, "k8s:default:zone:0"⟩] := by
    decide +kernel
  constructor
  · rintro ⟨appended, happended, hexact⟩
    have hkeys : (exampleThen (.store exampleZone)).log.keys
        = [⟨.dnsRecord, "k8s:default:zone:0"⟩, ⟨.dnsRecord, "k8s:default:zone:0"⟩] := by
      decide +kernel
    rw [hkeys, hstored, singleton_append, List.cons.injEq] at happended
    have hchanged := ((hexact ⟨.dnsRecord, "k8s:default:zone:0"⟩).mp
      (by rw [← happended.2]; exact mem_singleton.mpr rfl)).2.2
    exact hchanged (by decide +kernel)
  · rintro ⟨appended, happended, hexact⟩
    have hkeys : (exampleThen (.delete "default" "zone")).log.keys
        = [⟨.dnsRecord, "k8s:default:zone:0"⟩] := by
      decide +kernel
    rw [hkeys, hstored, singleton_append, List.cons.injEq] at happended
    have happ := (hexact ⟨.dnsRecord, "k8s:default:zone:0"⟩).mpr
      ⟨rfl, by decide +kernel, by decide +kernel⟩
    rw [← happended.2] at happ
    cases happ

end DNSBridge

end LunaEdge
