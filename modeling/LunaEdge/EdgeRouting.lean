import LunaEdge.SlaveNode

/-!
# What a slave's ingress serves

Requests to a slave while its local store changes. The store of bindings
is filled by requests and emptied by a restart only; no change of the
local store touches it. Two things follow.

A request is answered from the current projection of its host as long as
the projection only changes when the bindings already stored for the
host are bindings of the new projection too, in particular while there
are none (`KeepsBindings`).

Every binding a request stores is a plain HTTP one, also for a TLS
request, so the TLS engine never finds a backend in the store: a
replicated layer-4 domain is not served, whatever the traffic was
(`onlyHTTP_run`).
-/

namespace LunaEdge

open Runs Ingress

theorem Ingress.bindingFromProjection_request (entry : DomainEntryProjection) (req : Request) :
    bindingFromProjection entry req.path req.kind = httpBinding entry req.path .http := by
  rw [Request.kind]
  split <;> rfl

theorem Ingress.serve_memory (db : LocalDB) (memory : MemoryStore) (req : Request) :
    (serve db memory req).2 = memory
      ∨ ∃ b, (serve db memory req).2 = memory.put b ∧ b.upstreamURL ≠ ""
        ∧ (b ∈ memory.ofHost req.hostname
          ∨ ∃ entry, db.getDomainEntryByHostname req.hostname = .ok entry
            ∧ httpBinding entry req.path .http = some b) := by
  rcases routeByKind_memory db.getDomainEntryByHostname memory req.host req.path req.kind with
    h | ⟨b, hput, hurl, hb⟩
  · exact Or.inl h
  · refine Or.inr ⟨b, hput, hurl, hb.imp_right fun ⟨entry, hread, hb⟩ => ⟨entry, hread, ?_⟩⟩
    rwa [bindingFromProjection_request] at hb

/-! ## Current bindings -/

/-- The bindings stored for a host are bindings of `entry`, which is not a
deletion. -/
def BindingsOf (memory : MemoryStore) (entry : DomainEntryProjection) : Prop :=
  ∀ b ∈ memory.ofHost entry.hostname,
    entry.deleted = false ∧ ∃ path, httpBinding entry path .http = some b

/-- The condition on an event in the state before it: an announced entry
finds only bindings of its own stored for its host. A notice that is
skipped or refused announces nothing. -/
def KeepsBindings (node : SlaveNode) : SlaveEvent → Prop
  | .applySnapshot s _ => ∀ entry ∈ s.domainEntries, BindingsOf node.memory entry
  | .applyChangelog c faults =>
    faults ≠ [] ∨ c.snapshotRecordID = node.db.getSnapshotRecordID + 1 →
      ∀ entry ∈ c.domainEntry, BindingsOf node.memory entry
  | _ => True

def CurrentBindings (db : LocalDB) (memory : MemoryStore) : Prop :=
  ∀ h, ∀ b ∈ memory.ofHost h,
    ∃ entry, db.getDomainEntryByHostname h = .ok entry
      ∧ ∃ path, httpBinding entry path .http = some b

theorem currentBindings_new (db : LocalDB) : CurrentBindings db .new :=
  fun _ _ hb => absurd hb List.not_mem_nil

variable {memory : MemoryStore} {db : LocalDB}

theorem CurrentBindings.serve (h : CurrentBindings db memory) (req : Request) :
    CurrentBindings db (serve db memory req).2 := by
  rcases serve_memory db memory req with heq | ⟨b, heq, -, hb⟩
  · rw [heq]
    exact h
  · -- a repeated binding and a new one are both of the host's projection
    obtain ⟨entry, hread, path, hpath⟩ :
        ∃ entry, db.getDomainEntryByHostname req.hostname = .ok entry
          ∧ ∃ path, httpBinding entry path .http = some b := by
      rcases hb with hb | ⟨entry, hread, hb⟩
      · exact h req.hostname b hb
      · exact ⟨entry, hread, req.path, hb⟩
    have hhost : normalizeHost b.hostname = req.hostname := by
      rw [(httpBinding_spec hpath).1, LocalDB.hostname_of_getDomainEntryByHostname hread,
        Request.hostname, normalizeHost_idem]
    rw [heq]
    intro host b' hb'
    rcases MemoryStore.mem_ofHost_put hb' with hold | ⟨rfl, rfl⟩
    · exact h host b' hold
    · rw [hhost]
      exact ⟨entry, hread, path, hpath⟩

theorem CurrentBindings.touched {db' : LocalDB} {ps : List Payload} (h : CurrentBindings db memory)
    (ht : LocalDB.Touched ps db db')
    (hps : ∀ entry, .domainEntry entry ∈ ps → BindingsOf memory entry) :
    CurrentBindings db' memory := by
  intro host b hb
  obtain ⟨entry, hread, path, hpath⟩ := h host b hb
  rcases ht ⟨.domainEntryProjection, host⟩ with hrow | ⟨p, hp, hkey, hrow⟩
  · refine ⟨entry, ?_, path, hpath⟩
    rw [LocalDB.getDomainEntryByHostname_eq_ok_iff, hrow]
    exact LocalDB.getDomainEntryByHostname_eq_ok_iff.mp hread
  · cases p with
    | dnsRecord r => exact absurd (congrArg SyncKey.syncType hkey) nofun
    | domainEntry e =>
      obtain rfl : e.hostname = host := congrArg SyncKey.syncID hkey
      obtain ⟨hdel, path, hpath⟩ := hps e hp b hb
      refine ⟨e, ?_, path, hpath⟩
      rw [LocalDB.getDomainEntryByHostname_eq_ok_iff, hrow, Payload.cell, Payload.deleted, hdel]
      rfl

theorem CurrentBindings.step {types : TypeNames} (node : SlaveNode) (e : SlaveEvent)
    (h : CurrentBindings node.db node.memory) (he : KeepsBindings node e) :
    CurrentBindings (node.step types e).db (node.step types e).memory := by
  cases e with
  | applySnapshot s faults =>
    refine h.touched (LocalDB.touched_applySnapshot node.db s faults) fun entry hin => ?_
    exact he entry (by simpa [Snapshot.payloads] using hin)
  | applyChangelog c faults =>
    by_cases hc : faults ≠ [] ∨ c.snapshotRecordID = node.db.getSnapshotRecordID + 1
    · refine h.touched (LocalDB.touched_applyChangelog node.db c faults) fun entry hin => ?_
      exact he hc entry (by simpa [LocalDB.payloads_toList] using hin)
    · obtain ⟨hfaults, hne⟩ := not_or.mp hc
      obtain rfl : faults = [] := not_not.mp hfaults
      obtain ⟨err, heq⟩ := LocalDB.applyChangelog_of_ne hne
      rw [SlaveNode.step, heq]
      exact h
  | restoreLoop =>
    rw [SlaveNode.step, SlaveNode.restoreLoop]
    split <;> exact h
  | request req =>
    rw [SlaveNode.step, SlaveNode.withMemory_db, SlaveNode.withMemory_memory]
    exact h.serve req
  | tlsConn serverName => exact h
  | restart => exact currentBindings_new node.db

theorem currentBindings_run {types : TypeNames} {events : List SlaveEvent}
    (h : Along (SlaveNode.step types) KeepsBindings (.start .empty) events) :
    CurrentBindings (SlaveNode.run types events).db (SlaveNode.run types events).memory :=
  h.invariant (I := fun node => CurrentBindings node.db node.memory) CurrentBindings.step
    (currentBindings_new .empty)

theorem Ingress.serve_new {req : Request} {entry : DomainEntryProjection} {b : BackendBinding}
    (hhost : req.hostname ≠ "") (hread : db.getDomainEntryByHostname req.hostname = .ok entry)
    (hb : httpBinding entry req.path .http = some b) :
    serve db .new req = resultFromBinding .new req.hostname b := by
  rw [serve_miss hhost rfl]
  simp only [routeFromProjection, Sources.ofSlave, hread, resultFromProjection,
    bindingFromProjection_request, hb]

/-- With current bindings every answer is one that a fresh engine gives for
the host, for the path itself or for the path the binding was stored for. -/
theorem CurrentBindings.serve_fst (h : CurrentBindings db memory) (req : Request) :
    ∃ path, (Ingress.serve db memory req).1 = (Ingress.serve db .new (req.withPath path)).1 := by
  cases hget : memory.get req.hostname req.path with
  | none => exact ⟨req.path, serve_fst_of_miss db hget⟩
  | some b =>
    by_cases hhost : req.hostname = ""
    · refine ⟨req.path, ?_⟩
      have hhost' : (req.withPath req.path).hostname = "" := hhost
      rw [serve_noHost hhost, serve_noHost hhost']
    · have hmem := (MemoryStore.selectLocked_mem hget).1
      rw [Request.hostname, normalizeHost_idem] at hmem
      obtain ⟨entry, hread, path, hpath⟩ := h _ b hmem
      have hhost' : (req.withPath path).hostname ≠ "" := hhost
      refine ⟨path, ?_⟩
      rw [serve_hit hhost hget, serve_new hhost' hread hpath, resultFromBinding_fst .new]
      rfl

theorem Ingress.exists_entry_of_ok {req : Request} {r : RouteResult}
    (h : (serve db .new req).1 = .ok r) :
    ∃ entry, db.getDomainEntryByHostname req.hostname = .ok entry := by
  by_cases hhost : req.hostname = ""
  · rw [serve_noHost hhost] at h
    cases h
  · cases hread : db.getDomainEntryByHostname req.hostname with
    | ok entry => exact ⟨entry, rfl⟩
    | error err =>
      rw [serve_miss hhost rfl] at h
      simp only [routeFromProjection, Sources.ofSlave, hread] at h
      cases h

/-- In a run in which a host's entry only changes while the bindings stored
for the host are bindings of the new entry, every request is answered
from the current projection of its host: with what a fresh engine gives
for some path. In particular a host without an entry gets an error. -/
theorem serve_from_current {types : TypeNames} {events : List SlaveEvent}
    (h : Along (SlaveNode.step types) KeepsBindings (.start .empty) events) (req : Request) :
    (∃ path, (serve (SlaveNode.run types events).db (SlaveNode.run types events).memory req).1
        = (serve (SlaveNode.run types events).db .new (req.withPath path)).1)
      ∧ ∀ r, (serve (SlaveNode.run types events).db (SlaveNode.run types events).memory req).1
            = .ok r →
          ∃ entry, (SlaveNode.run types events).db.getDomainEntryByHostname req.hostname
            = .ok entry := by
  obtain ⟨path, hpath⟩ := (currentBindings_run h).serve_fst req
  refine ⟨⟨path, hpath⟩, fun r hr => ?_⟩
  have hentry := exists_entry_of_ok (hpath.symm.trans hr)
  rwa [Request.hostname_withPath] at hentry

/-- The entry of `shopEntry` with its routes pointed at one backend. -/
def movedEntry : DomainEntryProjection :=
  { shopEntry with
    httpRoutes := [
      { id := "r1", path := "/", backendRef := some
          { id := "b3", type := .svc, serviceNamespace := "web", serviceName := "next",
            port := 80 } }] }

def extendedEntry : DomainEntryProjection :=
  { shopEntry with
    httpRoutes := shopEntry.httpRoutes ++ [
      { id := "r3", path := "/help", backendRef := some
          { id := "b1", type := .svc, serviceNamespace := "web", serviceName := "front",
            port := 80 } }] }

def rootRequest : Request := { host := "shop.example", path := "/" }

def shopServed : List SlaveEvent :=
  [.applyChangelog ((Payload.domainEntry shopEntry).notice 1) [], .request rootRequest]

def shopEvents (entry : DomainEntryProjection) : List SlaveEvent :=
  shopServed ++ [.applyChangelog ((Payload.domainEntry entry).notice 2) []]

theorem bindingsOf_extended :
    BindingsOf (SlaveNode.run commonTypes shopServed).memory extendedEntry := by
  have hstored : (SlaveNode.run commonTypes shopServed).memory.ofHost extendedEntry.hostname
      = (httpBinding extendedEntry "/" .http).toList := by decide +kernel
  intro b hb
  rw [hstored, Option.mem_toList] at hb
  exact ⟨rfl, "/", hb⟩

theorem serve_from_current_extended :
    let node := SlaveNode.run commonTypes (shopEvents extendedEntry)
    node.memory.ofHost "shop.example" ≠ []
      ∧ ∃ path, (serve node.db node.memory rootRequest).1
        = (serve node.db .new (rootRequest.withPath path)).1 := by
  have hfirst : KeepsBindings (.start .empty)
      (.applyChangelog ((Payload.domainEntry shopEntry).notice 1) []) :=
    fun _ _ _ _ hb => absurd hb List.not_mem_nil
  have hsecond : KeepsBindings (SlaveNode.run commonTypes shopServed)
      (.applyChangelog ((Payload.domainEntry extendedEntry).notice 2) []) := by
    intro _ entry hentry
    rw [← Option.some.inj hentry]
    exact bindingsOf_extended
  have hrun : Along (SlaveNode.step commonTypes) KeepsBindings (.start .empty)
      (shopEvents extendedEntry) :=
    And.intro hfirst (And.intro trivial (And.intro hsecond trivial))
  exact ⟨by decide +kernel, (serve_from_current hrun rootRequest).1⟩

/-- After the backend of a host is replaced, and after the host is deleted,
the binding stored by an earlier request is still served. -/
theorem stale_binding_served :
    let moved := SlaveNode.run commonTypes (shopEvents movedEntry)
    let deleted := SlaveNode.run commonTypes (shopEvents { shopEntry with deleted := true })
    (seen (serve moved.db moved.memory rootRequest)
          = .ok (true, "http://front.web.svc.cluster.local:80", "/")
        ∧ moved.db.getDomainEntryByHostname "shop.example" = .ok movedEntry
        ∧ seen (serve moved.db .new rootRequest)
          = .ok (true, "http://next.web.svc.cluster.local:80", "/"))
      ∧ (seen (serve deleted.db deleted.memory rootRequest)
          = .ok (true, "http://front.web.svc.cluster.local:80", "/")
        ∧ deleted.db.getDomainEntryByHostname "shop.example" = .error .recordNotFound) := by
  decide +kernel

/-! ## Layer-4 domains -/

def AllStored (P : BackendBinding → Prop) (memory : MemoryStore) : Prop :=
  ∀ h, ∀ b ∈ memory.ofHost h, P b

theorem allStored_new (P : BackendBinding → Prop) : AllStored P .new :=
  fun _ _ hb => absurd hb List.not_mem_nil

section Stored

variable {P : BackendBinding → Prop}
  (hP : ∀ entry path b, httpBinding entry path .http = some b → b.upstreamURL ≠ "" → P b)
include hP

theorem AllStored.serve {db : LocalDB} {memory : MemoryStore} (h : AllStored P memory)
    (req : Request) : AllStored P (serve db memory req).2 := by
  rcases serve_memory db memory req with heq | ⟨b, heq, hurl, hb⟩
  · rw [heq]
    exact h
  · have hnew : P b := by
      rcases hb with hb | ⟨entry, -, hb⟩
      · exact h _ b hb
      · exact hP entry req.path b hb hurl
    rw [heq]
    intro host b' hb'
    rcases MemoryStore.mem_ofHost_put hb' with hold | ⟨rfl, -⟩
    · exact h host b' hold
    · exact hnew

/-- What holds of the usable bindings of every projection holds of the
stored ones, whatever a slave has received and served. -/
theorem allStored_run (types : TypeNames) (events : List SlaveEvent) :
    AllStored P (SlaveNode.run types events).memory := by
  refine Runs.invariant (I := fun node : SlaveNode => AllStored P node.memory)
    (fun node e h => ?_) events (allStored_new P)
  cases e with
  | applySnapshot s faults => exact h
  | applyChangelog c faults => exact h
  | restoreLoop =>
    rw [SlaveNode.step, SlaveNode.restoreLoop]
    split <;> exact h
  | request req =>
    rw [SlaveNode.step, SlaveNode.withMemory_memory]
    exact h.serve hP req
  | tlsConn serverName => exact h
  | restart => exact allStored_new P

end Stored

def OnlyHTTP (memory : MemoryStore) : Prop := ∀ h, ∀ b ∈ memory.ofHost h, b.protocol = .http

theorem onlyHTTP_run (types : TypeNames) (events : List SlaveEvent) :
    OnlyHTTP (SlaveNode.run types events).memory :=
  allStored_run (fun _ _ _ hb _ => (httpBinding_spec hb).2) types events

theorem resolveMemoryBackend_eq_none (h : OnlyHTTP memory) (kind : RouteKind) (hkind : kind ≠ .http)
    (serverName : String) : resolveMemoryBackend memory serverName kind = none := by
  rw [resolveMemoryBackend, Option.map_eq_none_iff]
  cases hget : memory.getByProtocol serverName "/" [kind] with
  | none => rfl
  | some b =>
    obtain ⟨hmem, hkinds⟩ := MemoryStore.selectLocked_mem hget
    have hb : b.protocol = kind := List.mem_singleton.mp (hkinds _ rfl)
    exact absurd (hb.symm.trans (h _ b hmem)) hkind

def SlaveNode.sources (node : SlaveNode) : Sources := .ofSlave node.db.getDomainEntryByHostname

/-- The lookup of the TLS engine for a layer-4 model. -/
def SlaveNode.resolveL4 (node : SlaveNode) (serverName : String) :
    BackendType → Option K8sResolvedBackend
  | .l4TLSPassthrough => resolveTLSPassthroughBackend node.sources node.memory serverName
  | .l4TLSTermination => resolveTLSRouteBackend node.sources node.memory serverName
  | _ => none

theorem resolveL4_eq_none (types : TypeNames) (events : List SlaveEvent) (serverName : String)
    (model : BackendType) : (SlaveNode.run types events).resolveL4 serverName model = none := by
  have h := onlyHTTP_run types events
  cases model with
  | l4TLSPassthrough => exact resolveMemoryBackend_eq_none h .tlsPassthrough nofun serverName
  | l4TLSTermination => exact resolveMemoryBackend_eq_none h .tlsTerminate nofun serverName
  | l7HTTPS | l7HTTP | l7HTTPBoth | other _ _ => rfl

/-- No layer-4 domain is served: whatever a slave has received and
served, the TLS engine finds no backend for a host with a layer-4 entry,
and so none with the address and the port of the entry's backend. -/
theorem l4_domain_not_served (types : TypeNames) (events : List SlaveEvent) (h : String) :
    ∀ entry ref, (SlaveNode.run types events).db.getDomainEntryByHostname h = .ok entry →
      entry.bindedBackendRef = some ref → entry.backendType.isL4 = true →
      ¬ ∃ backend ∈ (SlaveNode.run types events).resolveL4 h entry.backendType,
        backend.binding.address = backendAddress ref ∧ backend.binding.port = ref.port := by
  rintro entry ref - - - ⟨backend, hbackend, -⟩
  rw [resolveL4_eq_none] at hbackend
  exact absurd hbackend nofun

def databaseRef : ServiceBackendRef where
  id := "b9"
  type := .svc
  serviceNamespace := "data"
  serviceName := "db"
  port := 5432

def databaseEntry (model : BackendType) : DomainEntryProjection where
  hostname := "db.example"
  backendType := model
  bindedBackendRef := some databaseRef

/-- A notice of a layer-4 entry, then traffic of all three kinds. -/
def databaseEvents (model : BackendType) : List SlaveEvent :=
  [.applyChangelog ((Payload.domainEntry (databaseEntry model)).notice 1) [],
    .tlsConn "db.example", .request { host := "db.example", path := "/" },
    .request { host := "db.example", path := "/", https := true }, .tlsConn "db.example"]

theorem l4_domain_not_served_database :
    ¬ ∃ backend ∈ (SlaveNode.run commonTypes (databaseEvents .l4TLSPassthrough)).resolveL4
        "db.example" .l4TLSPassthrough,
      backend.binding.address = backendAddress databaseRef
        ∧ backend.binding.port = databaseRef.port :=
  l4_domain_not_served commonTypes (databaseEvents .l4TLSPassthrough) "db.example"
    (databaseEntry .l4TLSPassthrough) databaseRef (by decide +kernel) rfl rfl

/-- Both layer-4 models: the entry is in the local store, and the TLS engine
finds nothing. -/
theorem database_not_resolved :
    let passthrough := SlaveNode.run commonTypes (databaseEvents .l4TLSPassthrough)
    let terminated := SlaveNode.run commonTypes (databaseEvents .l4TLSTermination)
    (passthrough.db.getDomainEntryByHostname "db.example"
          = .ok (databaseEntry .l4TLSPassthrough)
        ∧ resolveTLSPassthroughBackend passthrough.sources passthrough.memory "db.example" = none)
      ∧ (terminated.db.getDomainEntryByHostname "db.example"
          = .ok (databaseEntry .l4TLSTermination)
        ∧ resolveTLSRouteBackend terminated.sources terminated.memory "db.example" = none) := by
  decide +kernel

end LunaEdge
