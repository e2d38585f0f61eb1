import LunaEdge.Acme
import LunaEdge.EdgeRouting
import LunaEdge.LnctlBuilder
import LunaEdge.ReplicationEncoding
import LunaEdge.RouteSelection

/-!
# A host name from the builder to the edge

The builder trims a host name and no more, and the plan stores it as it
is. The engine of an edge lower-cases the Host header, cuts a scheme and
a port off and looks the rest up by equality; the reconciler looks the
lower-cased name up. So a name is served only if its normal form at the
edge is the trimmed name (`hostname_routable_iff`).

The tables may hold other routes of the host, and a route wins a request
by its rank alone. `Builder.Serves` says what the plan has to leave in
them, in terms of the builder and of the tables before it; for a new host
it always does (`serves_of_new`).
-/

namespace LunaEdge

namespace Lnctl

open Ingress Selection

/-! ## Upstreams -/

/-- Only an external backend may lack an address. -/
def HasUpstream (ref : ServiceBackendRef) : Prop :=
  ref.type = .external → Go.trimSpace ref.arbitraryEndpoint ≠ ""

theorem append_ne_empty {s t : String} (h : t ≠ "") : s ++ t ≠ "" := fun heq =>
  h (String.append_eq_empty_iff.mp heq).2

theorem buildUpstreamURL_eq_empty_iff {protocol address : String} {port : Nat} :
    buildUpstreamURL protocol address port = "" ↔ Go.trimSpace address = "" := by
  unfold buildUpstreamURL
  dsimp only
  split
  · exact iff_of_true rfl (by assumption)
  · rename_i hne
    refine iff_of_false ?_ hne
    split
    · exact hne
    · split
      · exact append_ne_empty hne
      · split
        · exact fun heq => append_ne_empty (by decide) (String.append_eq_empty_iff.mp heq).1
        · exact append_ne_empty hne

variable {ref : ServiceBackendRef} {memory : MemoryStore} {hostname : String} {req : Request}
  {entry : DomainEntryProjection} {types : TypeNames} {repo : Repo}

theorem trimSpace_backendAddress_eq_empty_iff :
    Go.trimSpace (backendAddress ref) = "" ↔ ¬ HasUpstream ref := by
  unfold backendAddress HasUpstream
  split
  · rename_i htype
    rw [Go.trimSpace_idem]
    simp [htype]
  · rename_i htype
    refine iff_of_false ?_ (by simp [htype])
    have hdot : '.' ∈ (buildServiceAddress ref.serviceName ref.serviceNamespace).toList := by
      simp [buildServiceAddress]
    have hdot := Go.mem_trimSpace hdot (by decide)
    intro hempty
    rw [hempty] at hdot
    cases hdot

def projectedRef (ref : ServiceBackendRef) : ServiceBackendRef :=
  { ref with deleted := false, type := derefServiceBackendType ref.type }

theorem backendRef_eq_some_iff {ref' : ServiceBackendRef} :
    DomainEntryProjectionRow.backendRef (some ref) = some ref'
      ↔ ref.id ≠ "" ∧ projectedRef ref = ref' := by
  unfold DomainEntryProjectionRow.backendRef
  dsimp only
  split
  · rename_i hid
    simp [hid]
  · rename_i hid
    simp [hid, projectedRef]

theorem hasUpstream_projectedRef : HasUpstream (projectedRef ref) ↔ HasUpstream ref := by
  have htype : derefServiceBackendType ref.type = .external ↔ ref.type = .external := by
    unfold derefServiceBackendType
    split
    · rename_i hunset
      rw [hunset]
      exact iff_of_false (fun h => by cases h) (fun h => by cases h)
    · exact Iff.rfl
  exact imp_congr_left htype

/-! ## The route of a request -/

def rowKey (r : HTTPRoute) : Lex (Int × Lex (Nat × Stringᵒᵈ)) :=
  toLex (r.priority, toLex (Go.len r.path, .toDual r.id))

/-- Of the live routes of a host that match a path, the one of the highest
rank. A route without an id is not read. -/
structure Winner (rows : String → Option HTTPRoute) (h path : String) (r : HTTPRoute) : Prop where
  live : rows r.id = some r
  hostname : r.hostname = h
  named : r.id ≠ ""
  matched : httpRouteMatches r.path path = true
  greatest : ∀ s, rows s.id = some s → s.hostname = h → s.id ≠ "" →
    httpRouteMatches s.path path = true → rowKey s ≤ rowKey r

/-- The winner has a backend with an upstream. -/
def Answered (rows : String → Option HTTPRoute) (backends : String → Option ServiceBackendRef)
    (h path : String) : Prop :=
  ∃ r, Winner rows h path r
    ∧ ∃ ref, backends r.backendRefID = some ref ∧ ref.id ≠ "" ∧ HasUpstream ref

section Entry

variable {repo : Repo} {h path : String} {entry : DomainEntryProjection}
  (hsorted : entry.httpRoutes.Pairwise fun x y => K8sBridge.routeKey x.priority x.path x.id
    ≤ K8sBridge.routeKey y.priority y.path y.id)
  (hmem : ∀ x, x ∈ entry.httpRoutes ↔ ∃ r ∈ K8sBridge.hostRoutes repo h,
    r.id ≠ "" ∧ K8sBridge.projectedRoute repo r = x)

include hmem

/-- The message of the entry carries all that its routes have. -/
theorem httpRoutes_viaProto : entry.viaProto.httpRoutes = entry.httpRoutes := by
  rw [DomainEntryProjection.viaProto_eq]
  refine list_map_eq_self_iff.mpr fun x hx => HTTPRouteProjection.declared_eq_iff.mpr ?_
  obtain ⟨r, -, -, rfl⟩ := (hmem x).mp hx
  intro ref href
  cases hlive : repo.serviceBackendRefs.live? r.backendRefID with
  | none => simp [K8sBridge.projectedRoute, hlive, DomainEntryProjectionRow.backendRef] at href
  | some b =>
    rw [K8sBridge.projectedRoute, hlive] at href
    rw [← (backendRef_eq_some_iff.mp href).2]
    rfl

include hsorted

theorem selectHTTPRoute_entry {w : HTTPRouteProjection} :
    selectHTTPRoute entry.httpRoutes path = some w
      ↔ ∃ r, Winner repo.httpRoutes.live? h path r ∧ K8sBridge.projectedRoute repo r = w := by
  have hids : ∀ x ∈ entry.httpRoutes, ∀ y ∈ entry.httpRoutes, x.id = y.id → x = y := by
    intro x hx y hy heq
    obtain ⟨r, hr, -, rfl⟩ := (hmem x).mp hx
    obtain ⟨s, hs, -, rfl⟩ := (hmem y).mp hy
    rw [K8sBridge.projectedRoute_inj hr hs heq]
  rw [selectHTTPRoute_eq_some_iff path w hsorted hids]
  constructor
  · rintro ⟨hw, hmatched, hgreatest⟩
    obtain ⟨r, hr, hid, rfl⟩ := (hmem w).mp hw
    obtain ⟨hlive, hhost⟩ := K8sBridge.mem_hostRoutes.mp hr
    refine ⟨r, ⟨hlive, hhost, hid, hmatched, fun s hs hshost hsid hsm => ?_⟩, rfl⟩
    exact hgreatest _ ((hmem _).mpr ⟨s, K8sBridge.mem_hostRoutes.mpr ⟨hs, hshost⟩, hsid, rfl⟩) hsm
  · rintro ⟨r, hr, rfl⟩
    refine ⟨(hmem _).mpr ⟨r, K8sBridge.mem_hostRoutes.mpr ⟨hr.live, hr.hostname⟩, hr.named, rfl⟩,
      hr.matched, fun x hx hxm => ?_⟩
    obtain ⟨s, hs, hsid, rfl⟩ := (hmem x).mp hx
    obtain ⟨hslive, hshost⟩ := K8sBridge.mem_hostRoutes.mp hs
    exact hr.greatest s hslive hshost hsid hxm

/-- The entry has a usable binding for a path exactly if the tables answer it. -/
theorem exists_binding_iff :
    (∃ b, httpBinding entry path .http = some b ∧ b.upstreamURL ≠ "")
      ↔ Answered repo.httpRoutes.live? repo.serviceBackendRefs.live? h path := by
  simp only [httpBinding, Option.bind_eq_bind, Option.bind_eq_some_iff,
    selectHTTPRoute_entry hsorted hmem]
  constructor
  · rintro ⟨b, ⟨w, ⟨r, hr, rfl⟩, ref', href, hb⟩, hurl⟩
    cases hlive : repo.serviceBackendRefs.live? r.backendRefID with
    | none => simp [K8sBridge.projectedRoute, hlive, DomainEntryProjectionRow.backendRef] at href
    | some ref =>
      rw [K8sBridge.projectedRoute, hlive] at href
      obtain ⟨hid, rfl⟩ := backendRef_eq_some_iff.mp href
      refine ⟨r, hr, ref, hlive, hid, ?_⟩
      rw [← Option.some.inj hb, BackendBinding.upstreamURL, ne_eq, buildUpstreamURL_eq_empty_iff,
        trimSpace_backendAddress_eq_empty_iff, not_not] at hurl
      exact hasUpstream_projectedRef.mp hurl
  · rintro ⟨r, hr, ref, hlive, hid, hup⟩
    have href : (K8sBridge.projectedRoute repo r).backendRef = some (projectedRef ref) := by
      rw [K8sBridge.projectedRoute, hlive]
      exact backendRef_eq_some_iff.mpr ⟨hid, rfl⟩
    refine ⟨_, ⟨_, ⟨r, hr, rfl⟩, _, href, rfl⟩, ?_⟩
    rw [BackendBinding.upstreamURL, ne_eq, buildUpstreamURL_eq_empty_iff,
      trimSpace_backendAddress_eq_empty_iff, not_not]
    exact hasUpstream_projectedRef.mpr hup

end Entry

/-! ## Requests at a slave -/

def Found (routed : Routed) : Prop := ∃ result, routed.1 = .ok result ∧ result.found = true

theorem found_resultFromBinding_iff {b : BackendBinding} :
    Found (resultFromBinding memory hostname b) ↔ b.upstreamURL ≠ "" := by
  unfold resultFromBinding
  dsimp only
  split
  · rename_i hurl
    refine iff_of_false ?_ (not_not.mpr hurl)
    rintro ⟨_, hok, -⟩
    cases hok
  · rename_i hurl
    exact iff_of_true ⟨_, rfl, rfl⟩ hurl

theorem hostname_of_found {db : LocalDB} (hfound : Found (serve db memory req)) :
    req.hostname ≠ "" := by
  intro hempty
  obtain ⟨_, hok, _⟩ := hfound
  rw [serve_noHost hempty] at hok
  cases hok

/-- Past the store of bindings a request is found by the projection of its host. -/
theorem found_miss_iff {db : LocalDB} (hhost : req.hostname ≠ "")
    (hget : memory.get req.hostname req.path = none) :
    Found (serve db memory req)
      ↔ ∃ entry, db.getDomainEntryByHostname req.hostname = .ok entry
        ∧ ∃ b, httpBinding entry req.path .http = some b ∧ b.upstreamURL ≠ "" := by
  rw [serve_miss hhost hget, routeFromProjection, Sources.ofSlave]
  dsimp only
  cases hread : db.getDomainEntryByHostname req.hostname with
  | error err =>
    refine iff_of_false ?_ ?_ <;>
      · rintro ⟨_, hok, -⟩
        cases hok
  | ok entry =>
    dsimp only
    rw [resultFromProjection, bindingFromProjection_request]
    cases hb : httpBinding entry req.path .http with
    | none =>
      refine iff_of_false ?_ ?_
      · rintro ⟨result, hok, hfound⟩
        rw [← Except.ok.inj hok] at hfound
        cases hfound
      · rintro ⟨entry', hok, b, hb', -⟩
        rw [← Except.ok.inj hok, hb] at hb'
        cases hb'
    | some b =>
      rw [found_resultFromBinding_iff]
      constructor
      · exact fun hurl => ⟨entry, rfl, b, hb, hurl⟩
      · rintro ⟨entry', hok, b', hb', hurl⟩
        rw [← Except.ok.inj hok, hb] at hb'
        rwa [Option.some.inj hb']

theorem found_of_binding {events : List SlaveEvent} (hhost : req.hostname ≠ "")
    (hread : (SlaveNode.run types events).db.getDomainEntryByHostname req.hostname = .ok entry)
    (hb : ∃ b, httpBinding entry req.path .http = some b ∧ b.upstreamURL ≠ "") :
    Found (serve (SlaveNode.run types events).db (SlaveNode.run types events).memory req) := by
  cases hget : (SlaveNode.run types events).memory.get req.hostname req.path with
  | none => exact (found_miss_iff hhost hget).mpr ⟨entry, hread, hb⟩
  | some b =>
    rw [serve_hit hhost hget, found_resultFromBinding_iff]
    exact allStored_run (P := fun b => b.upstreamURL ≠ "") (fun _ _ _ _ hurl => hurl) types events
      _ b (MemoryStore.selectLocked_mem hget).1

def receive (entry : DomainEntryProjection) : List SlaveEvent :=
  [.applyChangelog ((Payload.domainEntry entry.viaProto).notice 1) []]

theorem db_receive (types : TypeNames) (entry : DomainEntryProjection) :
    (SlaveNode.run types (receive entry)).db
      = LocalDB.empty.applyPayload 1 (.domainEntry entry.viaProto) := by
  have hcursor : LocalDB.empty.getSnapshotRecordID = 0 := rfl
  have happly := LocalDB.applyChangelog_notice hcursor (.domainEntry entry.viaProto)
  show (LocalDB.empty.applyChangelog _ []).db = _
  rw [happly]

theorem read_receive {p : DomainEntryProjection} {g : String} (hdel : entry.deleted = false) :
    (SlaveNode.run types (receive entry)).db.getDomainEntryByHostname g = .ok p
      ↔ g = entry.hostname ∧ entry.viaProto = p := by
  have hcell : (Payload.domainEntry entry.viaProto).cell = some (.domainEntry entry.viaProto) := by
    rw [Payload.cell, Payload.deleted, DomainEntryProjection.viaProto_eq]
    exact if_neg (by simp [DomainEntryProjection.declared, hdel])
  have hkey : (Payload.domainEntry entry.viaProto).syncKey
      = ⟨.domainEntryProjection, entry.hostname⟩ := by
    rw [DomainEntryProjection.viaProto_eq]
    rfl
  rw [LocalDB.getDomainEntryByHostname_eq_ok_iff, db_receive, LocalDB.row_applyPayload, hcell, hkey]
  by_cases hg : g = entry.hostname
  · rw [hg, Function.update_self]
    simp
  · rw [Function.update_of_ne fun heq => hg (congrArg SyncKey.syncID heq)]
    exact iff_of_false (fun h => by cases h) fun h => hg h.1

/-! ## Requests under the routes of a builder -/

def Builder.Under (b : Builder) (path : String) : Prop :=
  ∃ spec ∈ b.desiredRoutes, httpRouteMatches spec.path path = true

/-- Every slave that holds the projection of the host finds every request
for `x` under the routes. -/
def RequestsFound (types : TypeNames) (x : String) (b : Builder) (repo : Repo) : Prop :=
  ∃ entry, repo.getDomainEntryProjectionByDomain b.hostname = .ok entry
    ∧ ∀ events, (SlaveNode.run types events).db.getDomainEntryByHostname b.hostname
        = .ok entry.viaProto →
      ∀ path, b.Under path →
        Found (serve (SlaveNode.run types events).db (SlaveNode.run types events).memory
          { host := x, path := path })

theorem httpRouteMatches_self (path : String) : httpRouteMatches path path = true := by
  unfold httpRouteMatches
  dsimp only
  split
  · rfl
  · rename_i hne
    rw [Bool.or_eq_true, decide_eq_true_eq, decide_eq_true_eq, not_or] at hne
    rw [if_neg hne.1]
    exact List.isPrefixOf_iff_prefix.mpr (List.prefix_refl _)

theorem httpRoutes_of_l4 {h : String} {e : DomainEndpoint}
    (hlive : repo.domainEndpoints.live? h = some e) (hl4 : e.backendType.isL4 = true)
    (hread : repo.getDomainEntryProjectionByDomain h = .ok entry) : entry.httpRoutes = [] := by
  rw [K8sBridge.getDomainEntryProjectionByDomain_eq, hlive] at hread
  have hentry : K8sBridge.projectionOf repo e = entry := Except.ok.inj hread
  rw [← hentry]
  exact if_pos hl4

theorem httpBinding_viaProto {path : String} {kind : RouteKind}
    (hroutes : entry.viaProto.httpRoutes = entry.httpRoutes) :
    httpBinding entry.viaProto path kind = httpBinding entry path kind := by
  have hhost : entry.viaProto.hostname = entry.hostname := by
    rw [DomainEntryProjection.viaProto_eq]
    rfl
  rw [httpBinding, httpBinding, hroutes, hhost]

/-- A new slave that took the entry finds a request only for the stored
name, and only if the entry has a usable binding. -/
theorem of_found_receive {x path : String} (hdel : entry.deleted = false)
    (hfound : Found (serve (SlaveNode.run types (receive entry)).db (SlaveNode.run types (receive entry)).memory { host := x, path := path })) :
    normalizeHost x = entry.hostname
      ∧ ∃ b, httpBinding entry.viaProto path .http = some b ∧ b.upstreamURL ≠ "" := by
  obtain ⟨entry', hread, hb⟩ := (found_miss_iff (hostname_of_found hfound) rfl).mp hfound
  obtain ⟨heq, rfl⟩ := (read_receive hdel).mp hread
  exact ⟨heq, hb⟩

theorem requestsFound_iff {x : String} {b : Builder} (hroutes : b.desiredRoutes ≠ [])
    (hne : b.hostname ≠ "") :
    RequestsFound types x b repo
      ↔ normalizeHost x = b.hostname
        ∧ (∃ e, repo.domainEndpoints.live? b.hostname = some e ∧ e.backendType.isL4 = false)
        ∧ ∀ path, b.Under path →
          Answered repo.httpRoutes.live? repo.serviceBackendRefs.live? b.hostname path := by
  constructor
  · rintro ⟨entry, hread, hall⟩
    obtain ⟨hhost, hdel⟩ := Repo.getDomainEntryProjectionByDomain_ok hread
    have hfound : ∀ path, b.Under path → normalizeHost x = entry.hostname
        ∧ ∃ bd, httpBinding entry.viaProto path .http = some bd ∧ bd.upstreamURL ≠ "" := by
      intro path hpath
      refine of_found_receive hdel (hall (receive entry) ?_ path hpath)
      exact (read_receive hdel).mpr ⟨hhost.symm, rfl⟩
    obtain ⟨spec, hspec⟩ := List.exists_mem_of_ne_nil _ hroutes
    have hself : b.Under spec.path := ⟨spec, hspec, httpRouteMatches_self _⟩
    refine ⟨(hfound _ hself).1.trans hhost, ?_⟩
    cases hlive : repo.domainEndpoints.live? b.hostname with
    | none =>
      rw [Repo.getDomainEntryProjectionByDomain_eq_notFound.mpr ⟨rfl, hlive⟩] at hread
      cases hread
    | some e =>
      cases hl4 : e.backendType.isL4 with
      | true =>
        have hnil := httpRoutes_of_l4 hlive hl4 hread
        obtain ⟨-, bd, hbd, -⟩ := hfound _ hself
        rw [httpBinding, DomainEntryProjection.viaProto_eq, DomainEntryProjection.declared,
          hnil] at hbd
        cases hbd
      | false =>
        obtain ⟨entry', hread', hsorted, hmem⟩ := K8sBridge.projection_of_live hlive hl4
        obtain rfl : entry' = entry := Except.ok.inj (hread'.symm.trans hread)
        refine ⟨⟨e, rfl, hl4⟩, fun path hpath => (exists_binding_iff hsorted hmem).mp ?_⟩
        obtain ⟨-, hbd⟩ := hfound path hpath
        rwa [httpBinding_viaProto (httpRoutes_viaProto hmem)] at hbd
  · rintro ⟨hx, ⟨e, hlive, hl4⟩, hall⟩
    obtain ⟨entry, hread, hsorted, hmem⟩ := K8sBridge.projection_of_live hlive hl4
    refine ⟨entry, hread, fun events hheld path hpath => ?_⟩
    have hhost : ({ host := x, path := path } : Request).hostname = b.hostname := hx
    refine found_of_binding (hhost ▸ hne) (hhost ▸ hheld) ?_
    rw [httpBinding_viaProto (httpRoutes_viaProto hmem)]
    exact (exists_binding_iff hsorted hmem).mpr (hall path hpath)

/-! ## The reconciler -/

/-- The reconciler takes a name off its channel under which it finds the
endpoint of the host. -/
def NotifyReaches (repo : Repo) (notifyCh : List String) (hostname : String) : Prop :=
  ∃ fqdn ∈ Acme.notify notifyCh hostname, ∃ domain,
    repo.getDomainEndpointByHostname fqdn = .ok domain ∧ domain.hostname = hostname

theorem notifyReaches_iff {notifyCh : List String} :
    NotifyReaches repo notifyCh hostname
      ↔ hostname ∈ Acme.notify notifyCh hostname
        ∧ ∃ domain, repo.domainEndpoints.live? hostname = some domain := by
  have hget : ∀ fqdn domain, repo.getDomainEndpointByHostname fqdn = .ok domain
      ↔ repo.domainEndpoints.live? fqdn = some domain := by
    intro fqdn domain
    rw [show repo.getDomainEndpointByHostname fqdn
      = orNotFound (repo.domainEndpoints.live? fqdn) from Table.getResourceByField_primary _ _]
    cases repo.domainEndpoints.live? fqdn <;> simp [orNotFound]
  constructor
  · rintro ⟨fqdn, hfqdn, domain, hdomain, rfl⟩
    rw [hget] at hdomain
    obtain rfl : domain.hostname = fqdn := Table.key_of_live? hdomain
    exact ⟨hfqdn, domain, hdomain⟩
  · rintro ⟨hmem, domain, hdomain⟩
    exact ⟨hostname, hmem, domain, (hget _ _).mpr hdomain, Table.key_of_live? hdomain⟩

/-- A name that lower-casing keeps is queued if there is room for it. -/
theorem mem_notify_iff {notifyCh : List String}
    (hkey : Go.trimSpace (Go.toLower hostname) = hostname) (hne : hostname ≠ "") :
    hostname ∈ Acme.notify notifyCh hostname ↔ hostname ∈ notifyCh ∨ notifyCh.length < 128 := by
  rw [Acme.notify, hkey, if_neg hne]
  split
  · rename_i hroom
    simp [hroom]
  · rename_i hfull
    simp [hfull]

/-! ## Host names -/

/-- What the plan has to leave in the tables: an endpoint of layer 7, and
for every path under a route a winner with an upstream. The winner need
not be a route of the plan. -/
def Builder.Serves (b : Builder) (repo : Repo) : Prop :=
  (∃ e, b.endpointAfter repo = some e ∧ e.backendType.isL4 = false)
    ∧ ∀ path, b.Under path →
      Answered (b.routeAfter repo) (b.backendAfter repo) b.hostname path

theorem build_spec {b : Builder} {plan : Plan} (hplan : b.build = .ok plan)
    (hl7 : isL7BackendType b.desiredBackendType = true) :
    b.plan = plan ∧ b.hostname ≠ "" ∧ b.desiredRoutes ≠ [] ∧ b.desiredBackendType.isL4 = false := by
  unfold Builder.build at hplan
  split_ifs at hplan with hhost htype hback hroutes
  refine ⟨Except.ok.inj hplan, hhost, fun hnil => hroutes ?_, isL4_of_isL7 hl7⟩
  rw [hl7, hnil]
  rfl

/-- The plan of a host name `x` makes the requests for `x` under its routes
found on every slave that holds the projection, and the reconciler's
notification reach the stored endpoint, exactly if the edge's normal form
of `x` is the trimmed `x`, the notification is not dropped, and the
tables get what it takes to serve the routes. -/
theorem hostname_routable_iff (types : TypeNames) (x : String) (calls : List BuilderCall)
    (plan : Plan) (range : List String → List String) (m : Master) (notifyCh : List String)
    (hplan : (builderOf x calls).build = .ok plan)
    (hl7 : isL7BackendType (builderOf x calls).desiredBackendType = true) :
    (∃ m', MasterM.applyPlan range plan ⟨m, []⟩ = (.ok (), ⟨m', []⟩)
        ∧ RequestsFound types x (builderOf x calls) m'.repo
        ∧ NotifyReaches m'.repo notifyCh plan.hostname)
      ↔ normalizeHost x = Go.trimSpace x ∧ (Go.trimSpace x ∈ notifyCh ∨ notifyCh.length < 128)
        ∧ (builderOf x calls).Serves m.repo := by
  have hhost := hostname_builderOf x calls
  generalize builderOf x calls = b at hplan hl7 hhost ⊢
  obtain ⟨rfl, hne, hroutes, hl4⟩ := build_spec hplan hl7
  obtain ⟨m₁, hdone, hrepo⟩ := MasterM.applyPlan_repo range b.plan m
  have hrows : (b.plan.write m.repo).httpRoutes.live? = b.routeAfter m.repo :=
    funext fun id => Builder.live_route m.repo hl4 id
  have hbackends : (b.plan.write m.repo).serviceBackendRefs.live? = b.backendAfter m.repo :=
    funext fun id => Builder.live_backend m.repo hl4 id
  have hserved : RequestsFound types x b (b.plan.write m.repo)
      ↔ normalizeHost x = b.hostname ∧ b.Serves m.repo := by
    rw [requestsFound_iff hroutes hne, Builder.live_endpoint, hrows, hbackends]
    rfl
  have hnotified : normalizeHost x = b.hostname → b.Serves m.repo →
      (NotifyReaches (b.plan.write m.repo) notifyCh b.hostname
        ↔ b.hostname ∈ notifyCh ∨ notifyCh.length < 128) := by
    intro hx hs
    have hkey := trimSpace_toLower_normalizeHost x
    rw [hx] at hkey
    obtain ⟨⟨e, he, -⟩, -⟩ := hs
    rw [notifyReaches_iff, Builder.live_endpoint, he, mem_notify_iff hkey hne]
    exact and_iff_left ⟨e, rfl⟩
  rw [← hhost]
  constructor
  · rintro ⟨m', happly, hfound, hreach⟩
    obtain rfl : m₁ = m' := congrArg (fun o => o.2.state) (hdone.symm.trans happly)
    rw [hrepo] at hfound hreach
    obtain ⟨hx, hs⟩ := hserved.mp hfound
    exact ⟨hx, (hnotified hx hs).mp hreach, hs⟩
  · rintro ⟨hx, hroom, hs⟩
    refine ⟨m₁, hdone, ?_⟩
    rw [hrepo]
    exact ⟨hserved.mpr ⟨hx, hs⟩, (hnotified hx hs).mpr hroom⟩

/-! ## New hosts

For a host that has no routes yet, with paths that get different ids and
targets that have addresses, the tables get what it takes: only the name
matters. -/

section New

variable {b : Builder} {repo : Repo}

theorem rowAfter_nil {ρ : Type} [Stored ρ] [DecidableEq ρ] {desired : List ρ} {t : Table ρ}
    {k : String} : rowAfter [] desired t k
      = (((byID desired).get? k).map Resource.withDefaults).or (t.live? k) := by
  unfold rowAfter
  cases (byID desired).get? k <;> rfl

theorem get?_byID_of_nodup {ρ : Type} [Keyed ρ String] {rows : List ρ} {r : ρ}
    (hnodup : (rows.map Keyed.key).Nodup) (hr : r ∈ rows) :
    (byID rows).get? (Keyed.key r) = some r := by
  rw [byID, GoMap.get?_foldl_set, K8sBridge.getLast?_filter hnodup,
    K8sBridge.find?_of_nodup hnodup hr]

theorem matches_withDefaults (r : HTTPRoute) (path : String) :
    httpRouteMatches r.withDefaults.path path = httpRouteMatches r.path path := by
  unfold HTTPRoute.withDefaults
  dsimp only
  split
  · rename_i hempty
    rw [hempty]
    rfl
  · rfl

theorem named_ne_empty (s t : String) : s ++ ":" ++ t ≠ "" := fun heq =>
  append_ne_empty (by decide) (String.append_eq_empty_iff.mp heq).1

variable (hids : (b.desiredRoutes.map fun spec => sanitizeBuilderIDPart spec.path).Nodup)
include hids

theorem nodup_named (s : String) :
    (b.desiredRoutes.map fun spec => s ++ ":" ++ sanitizeBuilderIDPart spec.path).Nodup := by
  have hmap := hids.map (f := fun part => s ++ ":" ++ part) fun _ _ =>
    (String.append_right_inj _).mp
  rwa [List.map_map] at hmap

variable (hnone : b.existingProjection = none)
include hnone

theorem routeAfter_new {spec : RouteSpec} (hspec : spec ∈ b.desiredRoutes) :
    b.routeAfter repo (b.routeID spec.path) = some (b.buildRoute spec).withDefaults := by
  have hnodup : (b.buildDesiredL7Resources.1.map Keyed.key).Nodup := by
    rw [Builder.buildDesiredL7Resources, List.map_map]
    exact nodup_named hids ("route:" ++ b.hostname)
  have hmem : b.buildRoute spec ∈ b.buildDesiredL7Resources.1 := List.mem_map.mpr ⟨spec, hspec, rfl⟩
  have hget : (byID b.buildDesiredL7Resources.1).get? (b.routeID spec.path)
      = some (b.buildRoute spec) := get?_byID_of_nodup hnodup hmem
  have hcur : b.currentHTTPRoutes = [] := by rw [Builder.currentHTTPRoutes, hnone]
  rw [Builder.routeAfter, hcur, rowAfter_nil, hget]
  rfl

theorem backendAfter_new {spec : RouteSpec} (hspec : spec ∈ b.desiredRoutes) :
    b.backendAfter repo (b.backendRefID spec.path)
      = some (b.buildBackendRef spec.path spec.backend).withDefaults := by
  have hnodup : (b.buildDesiredL7Resources.2.map Keyed.key).Nodup := by
    rw [Builder.buildDesiredL7Resources, List.map_map]
    exact nodup_named hids ("backend:" ++ b.hostname)
  have hmem : b.buildBackendRef spec.path spec.backend ∈ b.buildDesiredL7Resources.2 :=
    List.mem_map.mpr ⟨spec, hspec, rfl⟩
  have hget : (byID b.buildDesiredL7Resources.2).get? (b.backendRefID spec.path)
      = some (b.buildBackendRef spec.path spec.backend) := get?_byID_of_nodup hnodup hmem
  have hbound : b.currentL4BackendRef = none := by
    rw [Builder.currentL4BackendRef, hnone]
    rfl
  have hcur : b.currentL7BackendRefs = [] := by rw [Builder.currentL7BackendRefs, hnone]
  rw [Builder.backendAfter, hbound, hcur, rowAfter_nil, hget]
  exact if_neg Bool.false_ne_true

theorem serves_of_new (hl7 : b.desiredBackendType.isL4 = false)
    (hfree : ∀ id r, repo.httpRoutes.live? id = some r → r.hostname ≠ b.hostname)
    (hup : ∀ spec ∈ b.desiredRoutes, spec.backend.type = .external →
      Go.trimSpace spec.backend.arbitraryEndpoint ≠ "") : b.Serves repo := by
  refine ⟨⟨b.buildDesiredDomainEndpoint, ?_, hl7⟩, ?_⟩
  · rw [Builder.endpointAfter, Builder.currentDomainEndpoint, hnone]
    exact if_neg fun h => by cases h
  rintro path ⟨spec, hspec, hmatch⟩
  -- the winner is one of the routes of the plan
  let rows := b.desiredRoutes.map fun spec => (b.buildRoute spec).withDefaults
  have hspecs : ∀ r, b.routeAfter repo r.id = some r → r.hostname = b.hostname → r ∈ rows := by
    intro r hr hhost
    have hcur : b.currentHTTPRoutes = [] := by rw [Builder.currentHTTPRoutes, hnone]
    rw [Builder.routeAfter, hcur, rowAfter_nil] at hr
    rcases Option.or_eq_some_iff.mp hr with hwanted | ⟨-, hold⟩
    · obtain ⟨item, hitem, rfl⟩ := Option.map_eq_some_iff.mp hwanted
      obtain ⟨spec', hspec', rfl⟩ := List.mem_map.mp (key_of_get?_byID hitem).1
      exact List.mem_map.mpr ⟨spec', hspec', rfl⟩
    · exact absurd hhost (hfree _ r hold)
  have hmatch' : httpRouteMatches (b.buildRoute spec).withDefaults.path path = true := by
    rw [matches_withDefaults]
    exact hmatch
  obtain ⟨w, hw, hwm, hgreatest⟩ := exists_isBest
    (m := fun r => httpRouteMatches r.path path) rowKey
    (List.mem_map_of_mem (f := fun spec => (b.buildRoute spec).withDefaults) hspec) hmatch'
  obtain ⟨spec', hspec', rfl⟩ := List.mem_map.mp hw
  refine ⟨_, ⟨routeAfter_new hids hnone hspec', rfl, named_ne_empty _ _, hwm,
    fun s hs hhost _ hsm => hgreatest s (hspecs s hs hhost) hsm⟩, _,
    backendAfter_new hids hnone hspec', named_ne_empty _ _, fun htype => ?_⟩
  rw [ServiceBackendRef.withDefaults, Builder.buildBackendRef] at htype ⊢
  dsimp only at htype ⊢
  rw [Go.trimSpace_idem]
  refine hup spec' hspec' ?_
  by_cases hunset : spec'.backend.type = .unset
  · rw [if_pos hunset] at htype
    cases htype
  · rwa [if_neg hunset, if_neg hunset] at htype

end New

def exampleCalls : List BuilderCall :=
  [.asL7HTTPS, .route "/" { serviceNamespace := "web", serviceName := "front", port := 80 }]

def exampleMaster : Master := ⟨.empty, .empty, [], some []⟩

theorem hostname_routable_lower :
    ∃ m', MasterM.applyPlan id (builderOf "app.example.com" exampleCalls).plan ⟨exampleMaster, []⟩
        = (.ok (), ⟨m', []⟩)
      ∧ RequestsFound commonTypes "app.example.com" (builderOf "app.example.com" exampleCalls)
        m'.repo
      ∧ NotifyReaches m'.repo [] "app.example.com" := by
  refine (hostname_routable_iff commonTypes "app.example.com" exampleCalls _ id exampleMaster []
    rfl rfl).mpr ⟨by decide +kernel, Or.inr (by decide), ?_⟩
  refine serves_of_new (by decide +kernel) rfl rfl (fun _ _ h => by cases h) ?_
  intro spec hspec
  rw [List.mem_singleton.mp hspec]
  intro htype
  cases htype

/-- The entry of the host as it was typed. -/
def exampleEntry : DomainEntryProjection where
  hostname := "App.Example.com"
  needCert := true
  backendType := .l7HTTPS
  httpRoutes :=
    [{ id := "route:App.Example.com:root"
       path := "/"
       priority := 1
       backendRef := some
        { id := "backend:App.Example.com:root"
          type := .svc
          serviceNamespace := "web"
          serviceName := "front"
          port := 80 } }]

/-- With upper case in the name the edge looks for another host, and so
does the reconciler. -/
theorem upper_case_host_not_found :
    let b := builderOf "App.Example.com" exampleCalls
    let m := (MasterM.applyPlan id b.plan ⟨exampleMaster, []⟩).2.state
    let node := SlaveNode.run commonTypes (receive exampleEntry)
    normalizeHost "App.Example.com" = "app.example.com" ∧ b.build.isOk = true
      ∧ m.repo.getDomainEntryProjectionByDomain "App.Example.com" = .ok exampleEntry
      ∧ node.db.getDomainEntryByHostname "App.Example.com" = .ok exampleEntry.viaProto
      ∧ (serve node.db node.memory { host := "App.Example.com", path := "/" }).1
        = .error (.lookup .recordNotFound)
      ∧ m.certs = some ["App.Example.com"]
      ∧ Acme.notify [] "App.Example.com" = ["app.example.com"]
      ∧ m.repo.getDomainEndpointByHostname "app.example.com" = .error .recordNotFound := by
  decide +kernel

end Lnctl

end LunaEdge
