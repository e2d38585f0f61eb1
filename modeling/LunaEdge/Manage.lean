import LunaEdge.GoText
import LunaEdge.Master

/-!
# The manage API

The writes of the management API: `applyPlan`, which runs a plan in one
transaction and then announces what it has noted on the way, and the PUT
and DELETE of single rows, which announce nothing.

Hosts and record ids to announce are kept in Go maps. Their keys are
listed here in the order of insertion, and the order in which Go ranges
over them is a parameter. `applyPlan` takes a pointer and returns at once
for nil; the handler never passes nil.

With no failing statements a plan does two things: it writes its rows
(`Plan.write`) and announces the payloads `Plan.payloads`
(`applyPlan_done`).
-/

namespace LunaEdge

open Session

/-! ## Plans -/

inductive PlanAction where
  | create
  | update
  | delete
  | other (value : String) (hvalue : value ∉ ["create", "update", "delete"])

structure PlanChange (ρ : Type) where
  action : PlanAction
  current : Option ρ := none
  desired : Option ρ := none

structure Plan where
  hostname : String := ""
  dnsRecords : List (PlanChange DNSRecord) := []
  domainEndpoints : List (PlanChange DomainEndpoint) := []
  serviceBackendRefs : List (PlanChange ServiceBackendRef) := []
  httpRoutes : List (PlanChange HTTPRoute) := []

structure PlanBroadcasts where
  deletedDomainEntries : List DomainEntryProjection := []
  deletedDNSRecords : List DNSRecord := []
  domainHosts : List String := []
  dnsRecordIDs : List String := []

/-- `set[key] = struct{}{}`, unless the trimmed key is empty. -/
def addTrimmed (set : List String) (key : String) : List String :=
  let key := Go.trimSpace key
  if key = "" ∨ key ∈ set then set else set ++ [key]

namespace MasterM

/-- The loop body for HTTP routes and for service backend refs. -/
def applyRowChange {ρ : Type} [Stored ρ] (id : ρ → String) (change : PlanChange ρ) :
    MasterM PUnit :=
  match change.action with
  | .create | .update =>
    match change.desired with
    | some desired => upsertResource desired
    | none => pure ()
  | .delete =>
    match change.current with
    | some current => deleteResourceByField ρ "id" (id current)
    | none => pure ()
  | .other _ _ => pure ()

def applyDomainEndpointChange (broadcasts : PlanBroadcasts)
    (change : PlanChange DomainEndpoint) : MasterM PlanBroadcasts :=
  match change.action with
  | .create | .update =>
    match change.desired with
    | some desired => do
      upsertResource desired
      pure { broadcasts with
        domainHosts := addTrimmed broadcasts.domainHosts desired.hostname }
    | none => pure broadcasts
  | .delete =>
    match change.current with
    | some current => do
      -- a failed read is treated as nothing found
      let found ← attempt (getDomainEntryProjectionByDomain current.hostname)
      deleteResourceByField DomainEndpoint "hostname" current.hostname
      pure { broadcasts with
        deletedDomainEntries := broadcasts.deletedDomainEntries ++ found.toOption.toList }
    | none => pure broadcasts
  | .other _ _ => pure broadcasts

def applyDNSRecordChange (broadcasts : PlanBroadcasts) (change : PlanChange DNSRecord) :
    MasterM PlanBroadcasts :=
  match change.action with
  | .create | .update =>
    match change.desired with
    | some desired => do
      upsertResource desired
      pure { broadcasts with
        dnsRecordIDs := addTrimmed broadcasts.dnsRecordIDs desired.id }
    | none => pure broadcasts
  | .delete =>
    match change.current with
    | some current => do
      deleteResourceByField DNSRecord "id" current.id
      pure { broadcasts with
        deletedDNSRecords := broadcasts.deletedDNSRecords ++ [current] }
    | none => pure broadcasts
  | .other _ _ => pure broadcasts

def broadcastDeletedDomainEntry (hostname : String) (entry : DomainEntryProjection) :
    MasterM PUnit := do
  let snapshotRecordID ← appendSnapshotRecord ⟨.domainEntryProjection, hostname⟩ .delete
  hubBoardcast { snapshotRecordID, domainEntry := some entry }

def broadcastDeletedDNSRecord (record : DNSRecord) : MasterM PUnit := do
  let snapshotRecordID ← appendSnapshotRecord ⟨.dnsRecord, record.id⟩ .delete
  hubBoardcast { snapshotRecordID, dnsRecord := some record }

/-- `Certs.Notify` for a host whose endpoint asks for a certificate. -/
def notifyCerts (hostname : String) : MasterM PUnit := do
  if ← peek fun m => m.certs.isSome then
    match ← attempt (getDomainEndpointByHostname hostname) with
    | .ok domain => if domain.needCert then certsNotify hostname else pure ()
    | .error .recordNotFound => pure ()
    | .error e => fail e

/-- The part of `applyPlan` inside the transaction. -/
def planTransaction (plan : Plan) : MasterM PlanBroadcasts := do
  plan.httpRoutes.forM (applyRowChange (·.id))
  plan.serviceBackendRefs.forM (applyRowChange (·.id))
  let broadcasts ← plan.domainEndpoints.foldlM applyDomainEndpointChange {}
  let broadcasts ← plan.dnsRecords.foldlM applyDNSRecordChange broadcasts
  pure { broadcasts with domainHosts := addTrimmed broadcasts.domainHosts plan.hostname }

def applyPlan (range : List String → List String) (plan : Plan) : MasterM PUnit := do
  let broadcasts ← transaction (planTransaction plan)
  broadcasts.deletedDomainEntries.forM fun entry =>
    broadcastDeletedDomainEntry entry.hostname { entry with deleted := true }
  broadcasts.deletedDNSRecords.forM fun record =>
    broadcastDeletedDNSRecord { record with deleted := true }
  (range broadcasts.domainHosts).forM fun hostname => do
    notifyCerts hostname
    boardcastDomainEndpointProjection hostname
  (range broadcasts.dnsRecordIDs).forM boardcastDNSRecord

end MasterM

/-! ## What a plan does when nothing fails -/

/-- `UPDATE ... SET deleted = true` for the row of a primary key. -/
def Repo.retire (ρ : Type) [Stored ρ] (repo : Repo) (k : String) : Repo :=
  Stored.setTable repo ((Stored.table repo : Table ρ).retire Keyed.key k)

def PlanChange.write {ρ : Type} [Stored ρ] (repo : Repo) (change : PlanChange ρ) : Repo :=
  match change.action with
  | .create | .update => change.desired.elim repo repo.upsertResource
  | .delete => change.current.elim repo fun r => repo.retire ρ (Keyed.key r)
  | .other _ _ => repo

/-- What is noted for an endpoint, by the tables before the change. -/
def PlanBroadcasts.noteDomainEndpoint (repo : Repo) (b : PlanBroadcasts)
    (change : PlanChange DomainEndpoint) : PlanBroadcasts :=
  match change.action with
  | .create | .update =>
    change.desired.elim b fun e => { b with domainHosts := addTrimmed b.domainHosts e.hostname }
  | .delete =>
    change.current.elim b fun e =>
      { b with
        deletedDomainEntries := b.deletedDomainEntries
          ++ (repo.getDomainEntryProjectionByDomain e.hostname).toOption.toList }
  | .other _ _ => b

def PlanBroadcasts.noteDNSRecord (b : PlanBroadcasts) (change : PlanChange DNSRecord) :
    PlanBroadcasts :=
  match change.action with
  | .create | .update =>
    change.desired.elim b fun r => { b with dnsRecordIDs := addTrimmed b.dnsRecordIDs r.id }
  | .delete =>
    change.current.elim b fun r => { b with deletedDNSRecords := b.deletedDNSRecords ++ [r] }
  | .other _ _ => b

theorem MasterM.upsertResource_done {ρ : Type} [Stored ρ] (m : Master) (r : ρ) :
    Done (MasterM.upsertResource r) m () { m with repo := m.repo.upsertResource r } :=
  Done.update _ m

theorem MasterM.deleteResourceByField_done (ρ : Type) [Stored ρ] (m : Master) {field : String}
    (hfield : field = Resource.primaryColumn ρ) (k : String) :
    Done (MasterM.deleteResourceByField ρ field k) m () { m with repo := m.repo.retire ρ k } := by
  refine Done.statement ?_
  rw [hfield, Repo.deleteResourceByField, Table.deleteResourceByField_primary]
  rfl

theorem MasterM.deleteResourceByField_returns {E : RepoError → Prop} (ρ : Type) [Stored ρ]
    (m : Master) {field : String} (hfield : field = Resource.primaryColumn ρ) (k : String) :
    Returns E (MasterM.deleteResourceByField ρ field k) m fun _ t =>
      t = { m with repo := m.repo.retire ρ k } :=
  (deleteResourceByField_done ρ m hfield k).returns_statement.mono fun _ _ h => h.2

theorem MasterM.applyRowChange_done {ρ : Type} [Stored ρ] {id : ρ → String}
    (hid : ∀ r, id r = Keyed.key r) (hcol : "id" = Resource.primaryColumn ρ)
    (change : PlanChange ρ) (m : Master) :
    Done (applyRowChange id change) m () { m with repo := change.write m.repo } := by
  obtain ⟨action, current, desired⟩ := change
  cases action with
  | create | update =>
    cases desired with
    | none => exact Done.pure () m
    | some r => exact upsertResource_done m r
  | delete =>
    cases current with
    | none => exact Done.pure () m
    | some r =>
      have h := deleteResourceByField_done ρ m hcol (id r)
      rw [hid r] at h
      simp only [applyRowChange, hid r]
      exact h
  | other v hv => exact Done.pure () m

theorem MasterM.applyDomainEndpointChange_done (b : PlanBroadcasts)
    (change : PlanChange DomainEndpoint) (m : Master) :
    Done (applyDomainEndpointChange b change) m (b.noteDomainEndpoint m.repo change)
      { m with repo := change.write m.repo } := by
  obtain ⟨action, current, desired⟩ := change
  cases action with
  | create | update =>
    cases desired with
    | none => exact Done.pure b m
    | some e => exact (upsertResource_done m e).bind (Done.pure _ _)
  | other v hv => exact Done.pure b m
  | delete =>
    cases current with
    | none => exact Done.pure b m
    | some e =>
      have hdel := deleteResourceByField_done DomainEndpoint m rfl e.hostname
      cases hp : m.repo.getDomainEntryProjectionByDomain e.hostname with
      | ok p =>
        simp only [PlanBroadcasts.noteDomainEndpoint, Option.elim_some, hp]
        exact (Done.query (s := m) hp).attempt.bind (hdel.bind (Done.pure _ _))
      | error err =>
        simp only [PlanBroadcasts.noteDomainEndpoint, Option.elim_some, hp]
        exact (Done.attempt_query_error (s := m) hp).bind (hdel.bind (Done.pure _ _))

theorem MasterM.applyDNSRecordChange_done (b : PlanBroadcasts)
    (change : PlanChange DNSRecord) (m : Master) :
    Done (applyDNSRecordChange b change) m (b.noteDNSRecord change)
      { m with repo := change.write m.repo } := by
  obtain ⟨action, current, desired⟩ := change
  cases action with
  | create | update =>
    cases desired with
    | none => exact Done.pure b m
    | some e => exact (upsertResource_done m e).bind (Done.pure _ _)
  | other v hv => exact Done.pure b m
  | delete =>
    cases current with
    | none => exact Done.pure b m
    | some r =>
      exact (deleteResourceByField_done DNSRecord m rfl r.id).bind (Done.pure _ _)

namespace Plan

def writeRows (plan : Plan) (repo : Repo) : Repo :=
  plan.serviceBackendRefs.foldl PlanChange.write
    (plan.httpRoutes.foldl PlanChange.write repo)

def write (plan : Plan) (repo : Repo) : Repo :=
  plan.dnsRecords.foldl PlanChange.write
    (plan.domainEndpoints.foldl PlanChange.write (plan.writeRows repo))

/-- What the endpoint changes note, each by the tables before it. -/
def noteDomainEndpoints : List (PlanChange DomainEndpoint) → PlanBroadcasts → Repo →
    PlanBroadcasts
  | [], b, _ => b
  | change :: changes, b, repo =>
    noteDomainEndpoints changes (b.noteDomainEndpoint repo change) (change.write repo)

def broadcasts (plan : Plan) (repo : Repo) : PlanBroadcasts :=
  let b := plan.dnsRecords.foldl PlanBroadcasts.noteDNSRecord
    (noteDomainEndpoints plan.domainEndpoints {} (plan.writeRows repo))
  { b with domainHosts := addTrimmed b.domainHosts plan.hostname }

def payloads (range : List String → List String) (plan : Plan) (repo : Repo) :
    List Payload :=
  let b := plan.broadcasts repo
  b.deletedDomainEntries.map (fun entry => .domainEntry { entry with deleted := true })
    ++ b.deletedDNSRecords.map (fun record => .dnsRecord { record with deleted := true })
    ++ (range b.domainHosts).filterMap
        (fun h => (plan.write repo).current ⟨.domainEntryProjection, h⟩)
    ++ (range b.dnsRecordIDs).filterMap
        (fun id => (plan.write repo).current ⟨.dnsRecord, id⟩)

end Plan

namespace MasterM

theorem rowChanges_done {ρ : Type} [Stored ρ] {id : ρ → String}
    (hid : ∀ r, id r = Keyed.key r) (hcol : "id" = Resource.primaryColumn ρ)
    (changes : List (PlanChange ρ)) (m : Master) :
    Done (changes.forM (applyRowChange id)) m ()
      { m with repo := changes.foldl PlanChange.write m.repo } :=
  forM_repo_done (fun change m => applyRowChange_done hid hcol change m) changes m

theorem domainEndpointChanges_done (changes : List (PlanChange DomainEndpoint))
    (b : PlanBroadcasts) (m : Master) :
    Done (changes.foldlM applyDomainEndpointChange b) m
      (Plan.noteDomainEndpoints changes b m.repo)
      { m with repo := changes.foldl PlanChange.write m.repo } := by
  induction changes generalizing b m with
  | nil => exact Done.pure b m
  | cons change changes ih =>
    rw [List.foldlM_cons]
    exact (applyDomainEndpointChange_done b change m).bind (ih _ _)

theorem dnsRecordChanges_done (changes : List (PlanChange DNSRecord)) (b : PlanBroadcasts)
    (m : Master) :
    Done (changes.foldlM applyDNSRecordChange b) m
      (changes.foldl PlanBroadcasts.noteDNSRecord b)
      { m with repo := changes.foldl PlanChange.write m.repo } := by
  induction changes generalizing b m with
  | nil => exact Done.pure b m
  | cons change changes ih =>
    rw [List.foldlM_cons]
    exact (applyDNSRecordChange_done b change m).bind (ih _ _)

theorem planTransaction_done (plan : Plan) (m : Master) :
    Done (planTransaction plan) m (plan.broadcasts m.repo)
      { m with repo := plan.write m.repo } := by
  refine (rowChanges_done (fun _ => rfl) rfl plan.httpRoutes m).bind ?_
  refine (rowChanges_done (fun _ => rfl) rfl plan.serviceBackendRefs _).bind ?_
  refine (domainEndpointChanges_done plan.domainEndpoints {} _).bind ?_
  refine (dnsRecordChanges_done plan.dnsRecords _ _).bind ?_
  exact Done.pure _ _

theorem broadcastDeletedDomainEntry_done (entry : DomainEntryProjection) (m : Master) :
    Done (broadcastDeletedDomainEntry entry.hostname { entry with deleted := true }) m ()
      (m.announce (.domainEntry { entry with deleted := true })) := rfl

theorem broadcastDeletedDNSRecord_done (record : DNSRecord) (m : Master) :
    Done (broadcastDeletedDNSRecord { record with deleted := true }) m ()
      (m.announce (.dnsRecord { record with deleted := true })) := rfl

theorem notifyCerts_done (hostname : String) (m : Master) :
    Done (notifyCerts hostname) m () (m.notifyCerts hostname) := by
  have hget : m.repo.getDomainEndpointByHostname hostname
      = orNotFound (m.repo.domainEndpoints.live? hostname) :=
    Table.getResourceByField_primary m.repo.domainEndpoints hostname
  have hsame : m.withCerts m.certs = m := rfl
  refine (Done.peek (fun m : Master => m.certs.isSome) m).bind ?_
  cases hc : m.certs with
  | none =>
    have hm : m.notifyCerts hostname = m := by
      rw [Master.notifyCerts, hc, Option.map_none, ← hc, hsame]
    rw [hm]
    exact Done.pure () m
  | some hosts =>
    simp only [Option.isSome_some, if_true]
    cases hl : m.repo.domainEndpoints.live? hostname with
    | none =>
      rw [hl] at hget
      rw [Master.notifyCerts, hl, Option.map_id', hsame]
      exact (Done.attempt_query_error (s := m) hget).bind (Done.pure () m)
    | some domain =>
      rw [hl] at hget
      refine (Done.query (s := m) hget).attempt.bind ?_
      simp only [Master.notifyCerts, hl]
      cases domain.needCert with
      | true =>
        simp only [if_true]
        exact Done.effect _ m
      | false =>
        simp only [Bool.false_eq_true, if_false, Option.map_id', hsame]
        exact Done.pure () m

theorem domainHosts_done (hosts : List String) (m : Master) :
    ∃ certs, Done
      (hosts.forM fun hostname => do
        notifyCerts hostname
        boardcastDomainEndpointProjection hostname) m ()
      ((m.announceAll
          (hosts.filterMap fun h => m.repo.current ⟨.domainEntryProjection, h⟩)).withCerts
        certs) := by
  have hloop := Done.forM (f := fun hostname => do
      notifyCerts hostname
      boardcastDomainEndpointProjection hostname)
    (fun h m => (notifyCerts_done h m).bind (boardcastDomainEndpointProjection_done _ h))
    hosts m
  suffices hfold : ∃ certs, hosts.foldl
      (fun m h => (Master.notifyCerts m h).boardcast ⟨.domainEntryProjection, h⟩) m
      = (m.announceAll
          (hosts.filterMap fun h => m.repo.current ⟨.domainEntryProjection, h⟩)).withCerts
        certs by
    obtain ⟨certs, hfold⟩ := hfold
    rw [hfold] at hloop
    exact ⟨certs, hloop⟩
  clear hloop
  induction hosts generalizing m with
  | nil => exact ⟨m.certs, rfl⟩
  | cons h hosts ih =>
    let f h := m.repo.current ⟨.domainEntryProjection, h⟩
    obtain ⟨certs, hcerts⟩ : ∃ certs, m.notifyCerts h = m.withCerts certs := ⟨_, rfl⟩
    rw [List.foldl_cons, hcerts, Master.boardcast]
    cases hcur : (m.withCerts certs).repo.current ⟨.domainEntryProjection, h⟩ with
    | none =>
      obtain ⟨certs', hrest⟩ := ih (m.withCerts certs)
      rw [Master.announceAll_certs] at hrest
      exact ⟨certs', by rw [List.filterMap_cons_none (f := f) hcur]; exact hrest⟩
    | some p =>
      obtain ⟨certs', hrest⟩ := ih ((m.announce p).withCerts certs)
      rw [Master.announceAll_certs] at hrest
      exact ⟨certs', by rw [List.filterMap_cons_some (f := f) hcur]; exact hrest⟩

theorem dnsRecordIDs_done (ids : List String) (m : Master) :
    Done (ids.forM boardcastDNSRecord) m ()
      (m.announceAll (ids.filterMap fun id => m.repo.current ⟨.dnsRecord, id⟩)) := by
  have hloop := Done.forM (fun id m => boardcastDNSRecord_done m id) ids m
  have hfold := Master.foldl_boardcast m (ids.map fun id => ⟨.dnsRecord, id⟩)
  rw [List.foldl_map, List.filterMap_map] at hfold
  rw [hfold] at hloop
  exact hloop

theorem applyPlan_done (range : List String → List String) (plan : Plan) (m : Master) :
    ∃ certs, Done (applyPlan range plan) m ()
      ((({ m with repo := plan.write m.repo } : Master).announceAll
          (plan.payloads range m.repo)).withCerts certs) := by
  let b := plan.broadcasts m.repo
  let m₁ : Master := { m with repo := plan.write m.repo }
  let entries := b.deletedDomainEntries.map fun entry =>
    Payload.domainEntry { entry with deleted := true }
  let records := b.deletedDNSRecords.map fun record =>
    Payload.dnsRecord { record with deleted := true }
  have hentries := Done.forM broadcastDeletedDomainEntry_done b.deletedDomainEntries m₁
  have hrecords := Done.forM broadcastDeletedDNSRecord_done b.deletedDNSRecords
    (m₁.announceAll entries)
  rw [← List.foldl_map (g := Master.announce)] at hentries hrecords
  let m₃ := (m₁.announceAll entries).announceAll records
  have hrepo : m₃.repo = plan.write m.repo := by
    simp only [m₃, Master.announceAll_repo, m₁]
  obtain ⟨certs, hhosts⟩ := domainHosts_done (range b.domainHosts) m₃
  refine ⟨certs, (planTransaction_done plan m).transaction.bind
    (hentries.bind (hrecords.bind (hhosts.bind ?_)))⟩
  let hosts := (range b.domainHosts).filterMap fun h =>
    m₃.repo.current ⟨.domainEntryProjection, h⟩
  have hids := dnsRecordIDs_done (range b.dnsRecordIDs) ((m₃.announceAll hosts).withCerts certs)
  have hrepo' : ((m₃.announceAll hosts).withCerts certs).repo = plan.write m.repo :=
    (Master.announceAll_repo m₃ hosts).trans hrepo
  rw [Master.announceAll_certs, hrepo'] at hids
  simp only [hosts, hrepo] at hids
  rw [Plan.payloads, Master.announceAll_append, Master.announceAll_append,
    Master.announceAll_append]
  simp only [hrepo]
  exact hids

theorem applyPlan_repo (range : List String → List String) (plan : Plan) (m : Master) :
    ∃ m', Done (applyPlan range plan) m () m' ∧ m'.repo = plan.write m.repo := by
  obtain ⟨certs, hdone⟩ := applyPlan_done range plan m
  exact ⟨_, hdone, Master.announceAll_repo _ _⟩

end MasterM

/-! ## Single rows -/

inductive ManageItem where
  | domainEndpoint (item : DomainEndpoint)
  | serviceBackendRef (item : ServiceBackendRef)
  | httpRoute (item : HTTPRoute)
  | dnsRecord (item : DNSRecord)

inductive ManageResource where
  | domainEndpoints
  | serviceBackendRefs
  | httpRoutes
  | dnsRecords
deriving Repr, DecidableEq

namespace MasterM

/-- The id of the path takes the place of the item's own. -/
def handlePutResource (id : String) : ManageItem → MasterM Unit
  | .domainEndpoint item => upsertResource { item with hostname := id }
  | .serviceBackendRef item => upsertResource { item with id }
  | .httpRoute item => upsertResource { item with id }
  | .dnsRecord item => upsertResource { item with id }

def handleDeleteResource (id : String) : ManageResource → MasterM Unit
  | .domainEndpoints => deleteResourceByField DomainEndpoint "id" id
  | .serviceBackendRefs => deleteResourceByField ServiceBackendRef "id" id
  | .httpRoutes => deleteResourceByField HTTPRoute "id" id
  | .dnsRecords => deleteResourceByField DNSRecord "id" id

end MasterM

end LunaEdge
