import LunaEdge.Manage

/-!
# Change capture of the manage API

A write of the manage API is captured when every host whose projection it
changes, and every DNS record id whose live row it changes, has a new row
in the log. A PUT or a DELETE appends no row at all. A plan appends rows
for the hosts and ids it names and finds live afterwards, and for those it
deletes; it can change the projection of other hosts too, through a shared
backend or a route that moves to or from another host.

`ManageWrite.Covered` says this by what the write names;
`captures_iff_covered` shows that the two agree.
-/

namespace LunaEdge

open Session List

/-! ## Writes -/

inductive ManageWrite where
  | plan (plan : Plan)
  | put (id : String) (item : ManageItem)
  | delete (id : String) (resource : ManageResource)

def ManageWrite.run (range : List String → List String) : ManageWrite → MasterM PUnit
  | .plan p => MasterM.applyPlan range p
  | .put id item => MasterM.handlePutResource id item
  | .delete id resource => MasterM.handleDeleteResource id resource

/-- Every changed projection and every changed DNS record has a log row
among those appended between `m` and `m'`. -/
def Captures (m m' : Master) : Prop :=
  (∀ h, m.repo.getDomainEntryProjectionByDomain h ≠ m'.repo.getDomainEntryProjectionByDomain h →
    ∃ r ∈ m'.log.after m.log.lastID, r.syncType = .domainEntryProjection ∧ r.syncID = h)
  ∧ ∀ id, m.repo.dnsRecords.live? id ≠ m'.repo.dnsRecords.live? id →
    ∃ r ∈ m'.log.after m.log.lastID, r.syncType = .dnsRecord ∧ r.syncID = id

/-! ## What a write names -/

namespace PlanChange

variable {ρ : Type}

def upserted (change : PlanChange ρ) : Option ρ :=
  match change.action with
  | .create | .update => change.desired
  | .delete | .other _ _ => none

def deleted (change : PlanChange ρ) : Option ρ :=
  match change.action with
  | .delete => change.current
  | .create | .update | .other _ _ => none

end PlanChange

namespace Plan

def trimmed (names : List String) : List String := (names.map Go.trimSpace).filter (· ≠ "")

/-- The hosts a plan names: its own and those of the endpoints it upserts. -/
def hosts (plan : Plan) : List String :=
  trimmed ((plan.domainEndpoints.filterMap PlanChange.upserted).map (·.hostname) ++ [plan.hostname])

def recordIDs (plan : Plan) : List String :=
  trimmed ((plan.dnsRecords.filterMap PlanChange.upserted).map (·.id))

/-- The endpoint of `h` is deleted at a point where it is live. -/
def DeletesLive (h : String) : List (PlanChange DomainEndpoint) → Repo → Prop
  | [], _ => False
  | change :: changes, repo =>
    (change.deleted.map (·.hostname) = some h ∧ repo.domainEndpoints.live? h ≠ none)
      ∨ DeletesLive h changes (change.write repo)

end Plan

def ManageItem.write (id : String) (repo : Repo) : ManageItem → Repo
  | .domainEndpoint item => repo.upsertResource { item with hostname := id }
  | .serviceBackendRef item => repo.upsertResource { item with id }
  | .httpRoute item => repo.upsertResource { item with id }
  | .dnsRecord item => repo.upsertResource { item with id }

def ManageResource.retire (id : String) (repo : Repo) : ManageResource → Repo
  | .domainEndpoints => repo
  | .serviceBackendRefs => repo.retire ServiceBackendRef id
  | .httpRoutes => repo.retire HTTPRoute id
  | .dnsRecords => repo.retire DNSRecord id

/-- No projection and no live DNS record differs. -/
def Repo.SameObjects (repo repo' : Repo) : Prop :=
  (∀ h, repo.getDomainEntryProjectionByDomain h = repo'.getDomainEntryProjectionByDomain h)
  ∧ ∀ id, repo.dnsRecords.live? id = repo'.dnsRecords.live? id

/-- The write names every object it changes: a single row changes no
object; a plan names the host or id and leaves it live, or deletes it. -/
def ManageWrite.Covered (repo : Repo) : ManageWrite → Prop
  | .put id item => repo.SameObjects (item.write id repo)
  | .delete id resource => repo.SameObjects (resource.retire id repo)
  | .plan p =>
    (∀ h, repo.getDomainEntryProjectionByDomain h
        ≠ (p.write repo).getDomainEntryProjectionByDomain h →
      (h ∈ p.hosts ∧ (p.write repo).domainEndpoints.live? h ≠ none)
        ∨ Plan.DeletesLive h p.domainEndpoints (p.writeRows repo))
    ∧ ∀ id, repo.dnsRecords.live? id ≠ (p.write repo).dnsRecords.live? id →
      (id ∈ p.recordIDs ∧ (p.write repo).dnsRecords.live? id ≠ none)
        ∨ ∃ r ∈ p.dnsRecords.filterMap PlanChange.deleted, r.id = id

/-! ## What a plan notes -/

theorem mem_addTrimmed {set : List String} {key x : String} :
    x ∈ addTrimmed set key ↔ x ∈ set ∨ (x = Go.trimSpace key ∧ x ≠ "") := by
  simp only [addTrimmed]
  split
  · rename_i h
    constructor
    · exact Or.inl
    · rintro (hx | ⟨rfl, hne⟩)
      · exact hx
      · exact h.resolve_left hne
  · rename_i h
    rw [mem_append, mem_singleton]
    refine or_congr_right ⟨fun hx => ⟨hx, fun hnil => h (Or.inl (hx ▸ hnil))⟩, fun hx => hx.1⟩

namespace Plan

theorem noteDomainEndpoint_eq (b : PlanBroadcasts) (repo : Repo)
    (change : PlanChange DomainEndpoint) :
    b.noteDomainEndpoint repo change =
      { b with
        domainHosts := change.upserted.elim b.domainHosts
          fun e => addTrimmed b.domainHosts e.hostname
        deletedDomainEntries := b.deletedDomainEntries
          ++ (change.deleted.bind fun e =>
              (repo.getDomainEntryProjectionByDomain e.hostname).toOption).toList } := by
  obtain ⟨action, current, desired⟩ := change
  cases action <;> cases current <;> cases desired <;>
    simp [PlanBroadcasts.noteDomainEndpoint, PlanChange.upserted, PlanChange.deleted]

theorem noteDNSRecord_eq (b : PlanBroadcasts) (change : PlanChange DNSRecord) :
    b.noteDNSRecord change =
      { b with
        dnsRecordIDs := change.upserted.elim b.dnsRecordIDs
          fun r => addTrimmed b.dnsRecordIDs r.id
        deletedDNSRecords := b.deletedDNSRecords ++ change.deleted.toList } := by
  obtain ⟨action, current, desired⟩ := change
  cases action <;> cases current <;> cases desired <;>
    simp [PlanBroadcasts.noteDNSRecord, PlanChange.upserted, PlanChange.deleted]

variable {repo : Repo}

theorem mem_domainHosts_note {changes : List (PlanChange DomainEndpoint)} {b : PlanBroadcasts}
    {x : String} :
    x ∈ (noteDomainEndpoints changes b repo).domainHosts ↔
      x ∈ b.domainHosts
        ∨ ∃ e ∈ changes.filterMap PlanChange.upserted, x = Go.trimSpace e.hostname ∧ x ≠ "" := by
  induction changes generalizing b repo with
  | nil => simp [noteDomainEndpoints]
  | cons change changes ih =>
    rw [noteDomainEndpoints, ih, noteDomainEndpoint_eq]
    cases hup : change.upserted with
    | none => simp [hup]
    | some e => simp [hup, mem_addTrimmed, or_assoc]

theorem exists_entry_iff {g h : String} :
    (∃ entry, (repo.getDomainEntryProjectionByDomain g).toOption = some entry ∧ entry.hostname = h)
      ↔ g = h ∧ repo.domainEndpoints.live? h ≠ none := by
  cases hp : repo.getDomainEntryProjectionByDomain g with
  | error e =>
    obtain ⟨-, hdead⟩ := Repo.getDomainEntryProjectionByDomain_eq_notFound.mp hp
    constructor
    · rintro ⟨entry, hentry, -⟩
      cases hentry
    · rintro ⟨rfl, hlive⟩
      exact absurd hdead hlive
  | ok entry =>
    have hhost := (Repo.getDomainEntryProjectionByDomain_ok hp).1
    have hlive : repo.domainEndpoints.live? g ≠ none := fun hdead => by
      rw [Repo.getDomainEntryProjectionByDomain_eq_notFound.mpr ⟨rfl, hdead⟩] at hp
      cases hp
    constructor
    · rintro ⟨entry', hentry, rfl⟩
      cases hentry
      exact ⟨hhost.symm, hhost ▸ hlive⟩
    · rintro ⟨rfl, -⟩
      exact ⟨entry, rfl, hhost⟩

theorem exists_deleted_note {changes : List (PlanChange DomainEndpoint)} {b : PlanBroadcasts}
    {h : String} :
    (∃ entry ∈ (noteDomainEndpoints changes b repo).deletedDomainEntries, entry.hostname = h)
      ↔ (∃ entry ∈ b.deletedDomainEntries, entry.hostname = h) ∨ DeletesLive h changes repo := by
  induction changes generalizing b repo with
  | nil => simp [noteDomainEndpoints, DeletesLive]
  | cons change changes ih =>
    rw [noteDomainEndpoints, ih, noteDomainEndpoint_eq, DeletesLive, ← or_assoc]
    refine or_congr_left ?_
    cases hdel : change.deleted with
    | none => simp
    | some e =>
      simp only [Option.bind_some, mem_append, Option.mem_toList, or_and_right,
        exists_or, exists_entry_iff, Option.map_some, Option.some.injEq]

theorem noteDomainEndpoints_dns (changes : List (PlanChange DomainEndpoint))
    (b : PlanBroadcasts) (repo : Repo) :
    (noteDomainEndpoints changes b repo).dnsRecordIDs = b.dnsRecordIDs
      ∧ (noteDomainEndpoints changes b repo).deletedDNSRecords = b.deletedDNSRecords := by
  induction changes generalizing b repo with
  | nil => exact ⟨rfl, rfl⟩
  | cons change changes ih =>
    rw [noteDomainEndpoints, noteDomainEndpoint_eq]
    exact ih _ _

theorem foldl_noteDNSRecord (changes : List (PlanChange DNSRecord)) (b : PlanBroadcasts) :
    let b' := changes.foldl PlanBroadcasts.noteDNSRecord b
    b'.domainHosts = b.domainHosts ∧ b'.deletedDomainEntries = b.deletedDomainEntries
      ∧ b'.deletedDNSRecords = b.deletedDNSRecords ++ changes.filterMap PlanChange.deleted
      ∧ ∀ x, x ∈ b'.dnsRecordIDs ↔ x ∈ b.dnsRecordIDs
          ∨ ∃ r ∈ changes.filterMap PlanChange.upserted, x = Go.trimSpace r.id ∧ x ≠ "" := by
  induction changes generalizing b with
  | nil => simp
  | cons change changes ih =>
    obtain ⟨hhosts, hentries, hdel, hids⟩ := ih (b.noteDNSRecord change)
    rw [noteDNSRecord_eq] at hhosts hentries hdel hids
    refine ⟨?_, ?_, ?_, fun x => ?_⟩
    · rw [foldl_cons, noteDNSRecord_eq, hhosts]
    · rw [foldl_cons, noteDNSRecord_eq, hentries]
    · rw [foldl_cons, noteDNSRecord_eq, hdel]
      cases hd : change.deleted <;> simp [hd]
    · rw [foldl_cons, noteDNSRecord_eq, hids]
      cases hup : change.upserted with
      | none => simp [hup]
      | some r => simp [hup, mem_addTrimmed, or_assoc]

section Payloads

variable {range : List String → List String} (hrange : ∀ l, (range l).Perm l) (plan : Plan)
  (repo : Repo)

theorem mem_trimmed {names : List String} {x : String} :
    x ∈ trimmed names ↔ ∃ y ∈ names, x = Go.trimSpace y ∧ x ≠ "" := by
  simp only [trimmed, mem_filter, mem_map, decide_eq_true_eq]
  constructor
  · rintro ⟨⟨y, hy, rfl⟩, hne⟩
    exact ⟨y, hy, rfl, hne⟩
  · rintro ⟨y, hy, rfl, hne⟩
    exact ⟨⟨y, hy, rfl⟩, hne⟩

theorem mem_domainHosts_iff {x : String} :
    x ∈ (plan.broadcasts repo).domainHosts ↔ x ∈ plan.hosts := by
  obtain ⟨hhosts, -⟩ := foldl_noteDNSRecord plan.dnsRecords
    (noteDomainEndpoints plan.domainEndpoints {} (plan.writeRows repo))
  simp only [broadcasts, mem_addTrimmed, hhosts, mem_domainHosts_note, hosts, mem_trimmed]
  simp [or_and_right, exists_or]

theorem mem_dnsRecordIDs_iff {x : String} :
    x ∈ (plan.broadcasts repo).dnsRecordIDs ↔ x ∈ plan.recordIDs := by
  obtain ⟨-, -, -, hids⟩ := foldl_noteDNSRecord plan.dnsRecords
    (noteDomainEndpoints plan.domainEndpoints {} (plan.writeRows repo))
  simp only [broadcasts, hids, (noteDomainEndpoints_dns _ _ _).1, recordIDs, mem_trimmed]
  simp

theorem mem_filterMap_current {names : List String} {t : SnapshotSyncType} {k : SyncKey}
    {repo : Repo} :
    k ∈ (names.filterMap fun x => repo.current ⟨t, x⟩).map Payload.syncKey ↔
      k.syncType = t ∧ k.syncID ∈ names ∧ repo.current k ≠ none := by
  simp only [mem_map, mem_filterMap]
  constructor
  · rintro ⟨p, ⟨x, hx, hp⟩, rfl⟩
    have hkey := (Repo.current_spec hp).1
    rw [hkey]
    exact ⟨rfl, hx, by rw [hp]; simp⟩
  · rintro ⟨rfl, hx, hne⟩
    obtain ⟨p, hp⟩ := Option.ne_none_iff_exists'.mp hne
    exact ⟨p, ⟨k.syncID, hx, hp⟩, (Repo.current_spec hp).1⟩

include hrange in
theorem announces_host_iff {h : String} :
    ⟨.domainEntryProjection, h⟩ ∈ (plan.payloads range repo).map Payload.syncKey ↔
      (h ∈ plan.hosts ∧ (plan.write repo).domainEndpoints.live? h ≠ none)
        ∨ DeletesLive h plan.domainEndpoints (plan.writeRows repo) := by
  obtain ⟨-, hentries, -⟩ := foldl_noteDNSRecord plan.dnsRecords
    (noteDomainEndpoints plan.domainEndpoints {} (plan.writeRows repo))
  have hdeleted : ⟨.domainEntryProjection, h⟩ ∈
      ((plan.broadcasts repo).deletedDomainEntries.map fun entry =>
        Payload.domainEntry { entry with deleted := true }).map Payload.syncKey
      ↔ DeletesLive h plan.domainEndpoints (plan.writeRows repo) := by
    have hnote : (∃ entry ∈ (noteDomainEndpoints plan.domainEndpoints {}
          (plan.writeRows repo)).deletedDomainEntries, entry.hostname = h)
        ↔ _ := exists_deleted_note
    simp only [broadcasts, hentries]
    simpa [Payload.syncKey] using hnote
  simp only [payloads, map_append, mem_append, mem_filterMap_current,
    (hrange _).mem_iff, mem_domainHosts_iff, hdeleted]
  simp [Payload.syncKey, Repo.current_domainEntry_eq_none_iff, or_comm]

include hrange in
theorem announces_record_iff {id : String} :
    ⟨.dnsRecord, id⟩ ∈ (plan.payloads range repo).map Payload.syncKey ↔
      (id ∈ plan.recordIDs ∧ (plan.write repo).dnsRecords.live? id ≠ none)
        ∨ ∃ r ∈ plan.dnsRecords.filterMap PlanChange.deleted, r.id = id := by
  obtain ⟨-, -, hdel, -⟩ := foldl_noteDNSRecord plan.dnsRecords
    (noteDomainEndpoints plan.domainEndpoints {} (plan.writeRows repo))
  have hdeleted : ⟨.dnsRecord, id⟩ ∈
      ((plan.broadcasts repo).deletedDNSRecords.map fun record =>
        Payload.dnsRecord { record with deleted := true }).map Payload.syncKey
      ↔ ∃ r ∈ plan.dnsRecords.filterMap PlanChange.deleted, r.id = id := by
    simp only [broadcasts, hdel, (noteDomainEndpoints_dns _ _ _).2]
    simp [Payload.syncKey]
  simp only [payloads, map_append, mem_append, mem_filterMap_current,
    (hrange _).mem_iff, mem_dnsRecordIDs_iff, hdeleted]
  simp [Payload.syncKey, Repo.current_dnsRecord, or_comm]

end Payloads

end Plan

/-! ## Capture -/

variable {m' : Master}

theorem exists_record_iff {m : Master} {ks : List SyncKey} (hkeys : m'.log.keys = m.log.keys ++ ks)
    {t : SnapshotSyncType} {x : String} :
    (∃ r ∈ m'.log.after m.log.lastID, r.syncType = t ∧ r.syncID = x) ↔ ⟨t, x⟩ ∈ ks := by
  have hks : ks = (m'.log.after m.log.lastID).map (·.syncKey) := by
    rw [SnapshotLog.after_eq_drop, map_drop, ← SnapshotLog.keys, hkeys,
      drop_left' (SnapshotLog.length_keys m.log)]
  rw [hks, mem_map]
  simp only [SnapshotRecord.syncKey, SyncKey.mk.injEq]

/-- A write that appends nothing is captured when it changes no object. -/
theorem captures_iff_of_silent {m : Master} (hlog : m'.log = m.log) :
    Captures m m' ↔ m.repo.SameObjects m'.repo := by
  have hkeys : m'.log.keys = m.log.keys ++ [] := by rw [hlog, append_nil]
  simp only [Captures, exists_record_iff hkeys, not_mem_nil, imp_false, not_not, Repo.SameObjects]

theorem MasterM.handlePutResource_done (id : String) (item : ManageItem) (m : Master) :
    Done (handlePutResource id item) m () { m with repo := item.write id m.repo } := by
  cases item <;> exact upsertResource_done m _

theorem MasterM.handleDeleteResource_done {id : String} {resource : ManageResource} {m : Master}
    (h : Done (handleDeleteResource id resource) m () m') :
    m' = { m with repo := resource.retire id m.repo } := by
  have hrun : ∀ {t : Master}, Done (handleDeleteResource id resource) m () t → m' = t :=
    fun ht => (ht.unique h).2
  cases resource with
  | domainEndpoints => cases h  -- the table has no column `id`
  | serviceBackendRefs => exact hrun (deleteResourceByField_done ServiceBackendRef m rfl id)
  | httpRoutes => exact hrun (deleteResourceByField_done HTTPRoute m rfl id)
  | dnsRecords => exact hrun (deleteResourceByField_done DNSRecord m rfl id)

/-- A write of the manage API that completes is captured exactly when it
names every object it changes. -/
theorem captures_iff_covered {range : List String → List String}
    (hrange : ∀ l, (range l).Perm l) (w : ManageWrite) {m m' : Master}
    (hrun : Done (w.run range) m () m') : Captures m m' ↔ w.Covered m.repo := by
  cases w with
  | put id item =>
    obtain ⟨-, rfl⟩ := (MasterM.handlePutResource_done id item m).unique hrun
    exact captures_iff_of_silent rfl
  | delete id resource =>
    obtain rfl := MasterM.handleDeleteResource_done hrun
    exact captures_iff_of_silent rfl
  | plan p =>
    obtain ⟨certs, hdone⟩ := MasterM.applyPlan_done range p m
    have hm := (hdone.unique hrun).2
    have hrepo : m'.repo = p.write m.repo := by
      rw [hm]
      exact Master.announceAll_repo _ _
    have hkeys : m'.log.keys = m.log.keys ++ (p.payloads range m.repo).map Payload.syncKey := by
      rw [hm]
      exact Master.keys_announceAll _ _
    simp only [Captures, exists_record_iff hkeys, Plan.announces_host_iff hrange,
      Plan.announces_record_iff hrange, hrepo, ManageWrite.Covered]

/-- A plan that creates one DNS record announces it. -/
theorem captures_iff_covered_dnsPlan :
    ∃ m', Done ((ManageWrite.plan
        { dnsRecords := [{ action := .create, desired := some { id := "r1" } }] }).run id)
        ⟨.empty, .empty, [], none⟩ () m'
      ∧ Captures ⟨.empty, .empty, [], none⟩ m' := by
  have hdone : Done ((ManageWrite.plan
      { dnsRecords := [{ action := .create, desired := some { id := "r1" } }] }).run id)
      ⟨.empty, .empty, [], none⟩ () _ := rfl
  refine ⟨_, hdone, (captures_iff_covered List.Perm.refl _ hdone).mpr
    ⟨fun h hne => absurd rfl hne, fun id hne => ?_⟩⟩
  by_cases hid : "r1" = id
  · subst hid
    exact Or.inl (by decide)
  · exact absurd (Table.live?_upsertResource_of_ne _ hid).symm hne

def sharedBackend : Repo :=
  ((((Repo.empty.upsertResource
    ({ hostname := "a.example", backendType := .l7HTTP } : DomainEndpoint)).upsertResource
    ({ hostname := "b.example", backendType := .l7HTTP } : DomainEndpoint)).upsertResource
    ({ id := "b1", serviceName := "old" } : ServiceBackendRef)).upsertResource
    ({ id := "ra", hostname := "a.example", path := "/", backendRefID := "b1" } :
      HTTPRoute)).upsertResource
    ({ id := "rb", hostname := "b.example", path := "/", backendRefID := "b1" } : HTTPRoute)

/-- A PUT of an endpoint creates a projection and appends no row; a plan
for `a.example` that updates the shared backend appends a row for
`a.example` and none for `b.example`. -/
theorem manage_write_not_captured :
    (∃ m', Done ((ManageWrite.put "a.example" (.domainEndpoint { hostname := "" })).run id)
        ⟨.empty, .empty, [], none⟩ () m'
      ∧ ¬ Captures ⟨.empty, .empty, [], none⟩ m')
    ∧ ∃ m', Done ((ManageWrite.plan
        { hostname := "a.example"
          serviceBackendRefs :=
            [{ action := .update, desired := some { id := "b1", serviceName := "new" } }] }).run
          id) ⟨sharedBackend, .empty, [], none⟩ () m'
      ∧ ¬ Captures ⟨sharedBackend, .empty, [], none⟩ m' := by
  refine ⟨⟨_, rfl, fun h => ?_⟩, ⟨_, rfl, fun h => ?_⟩⟩
  · exact absurd (h.1 "a.example" (by decide)) (by decide)
  · exact absurd (h.1 "b.example" (by decide)) (by decide)

end LunaEdge
