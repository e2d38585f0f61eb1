import LunaEdge.EdgeBridge
import LunaEdge.RouteSelection

/-!
# Resolution does not depend on the order of the maps

The routes of a host stand in the order in which a rebuild has ranged
over the maps of the bridge, and a lookup keeps the first of the best. So
the order could show where several routes are the best at once. They then
have the same id, and the id names the object a route comes from: routes
of one Ingress stand in the order of its rules in every rebuild, and the
routes of one object of a Gateway with one id are the same
(`MadeFrom.eq_of_id`), however many listeners they were made for.
-/

namespace LunaEdge

open Selection List

namespace Ingress

-- host names are compared here and never computed
attribute [local irreducible] normalizeHost

/-! ## Paths -/

/-- The request is for the path, or for one under it. -/
def PathMatches (pathKind : RoutePathKind) (routePath requestPath : String) : Prop :=
  match pathKind with
  | .exact => requestPath = routePath
  | .prefixed =>
    routePath = "/" ∨ requestPath = routePath ∨ ∃ rest, requestPath = routePath ++ "/" ++ rest

theorem normalizeIngressPath_idem (path : String) :
    normalizeIngressPath (normalizeIngressPath path) = normalizeIngressPath path := by
  by_cases h : (decide (Go.trimSpace path = "") || !Go.hasPrefix (Go.trimSpace path) "/") = true
  · rw [show normalizeIngressPath path = "/" from if_pos h]
    decide
  · rw [show normalizeIngressPath path = Go.trimSpace path from if_neg h]
    unfold normalizeIngressPath
    rw [Go.trimSpace_idem]
    exact if_neg h

theorem hasPrefix_trimPrefix_iff {s p q : String} :
    Go.hasPrefix s p = true ∧ Go.hasPrefix (Go.trimPrefix s p) q = true
      ↔ ∃ rest, s = p ++ q ++ rest := by
  constructor
  · rintro ⟨hp, hq⟩
    refine ⟨Go.trimPrefix (Go.trimPrefix s p) q, ?_⟩
    rw [String.append_assoc, Go.append_trimPrefix hq, Go.append_trimPrefix hp]
  · rintro ⟨rest, rfl⟩
    rw [String.append_assoc, Go.trimPrefix_append]
    exact ⟨Go.hasPrefix_append _ _, Go.hasPrefix_append _ _⟩

theorem k8sPathMatches_iff {pathKind : RoutePathKind} {routePath requestPath : String} :
    k8sPathMatches pathKind routePath requestPath = true
      ↔ PathMatches pathKind (normalizeIngressPath routePath)
          (normalizeIngressPath requestPath) := by
  unfold k8sPathMatches PathMatches
  cases pathKind with
  | exact => exact decide_eq_true_iff
  | prefixed =>
    rw [← hasPrefix_trimPrefix_iff]
    by_cases hroot : normalizeIngressPath routePath = "/"
    · simp only [hroot, if_true, true_or]
    · by_cases heq : normalizeIngressPath requestPath = normalizeIngressPath routePath
      · simp only [heq, if_true, true_or, or_true, ite_self]
      · simp only [hroot, heq, if_false, false_or]
        cases Go.hasPrefix (normalizeIngressPath requestPath) (normalizeIngressPath routePath) <;>
          simp

/-! ## Lookups in tables -/

namespace ResolvedRoutes

def routes (t : ResolvedRoutes) : List MaterializedRoute :=
  t.httpResolved ++ t.httpsResolved ++ t.grpcResolved ++ t.tlsResolved

/-- A materialised route that a lookup can answer with. -/
structure Candidate (t : ResolvedRoutes) (kind : RouteKind) (host requestPath : String)
    (r : MaterializedRoute) : Prop where
  mem : r ∈ t.routes
  kind : r.kind = kind
  host : r.hostname = normalizeHost host
  path : PathMatches r.pathKind (normalizeIngressPath r.path) (normalizeIngressPath requestPath)

/-- Every route has a host and is in the table of its kind. -/
structure WellPlaced (t : ResolvedRoutes) : Prop where
  table : ∀ r ∈ t.routes, r ∈ t.table r.kind
  host : ∀ r ∈ t.routes, r.hostname ≠ ""

variable {t : ResolvedRoutes} {kind : RouteKind} {host requestPath : String}

variable {r : MaterializedRoute}

theorem mem_routes_of_mem_table (h : r ∈ t.table kind) : r ∈ t.routes := by
  cases kind <;> simp_all [table, routes]

def asked (kind : RouteKind) (requestPath : String) (r : MaterializedRoute) : Bool :=
  decide (r.kind = kind) && k8sPathMatches r.pathKind r.path (normalizeIngressPath requestPath)

theorem asked_eq_true_iff :
    asked kind requestPath r = true
      ↔ r.kind = kind ∧ PathMatches r.pathKind (normalizeIngressPath r.path)
          (normalizeIngressPath requestPath) := by
  rw [asked, Bool.and_eq_true, decide_eq_true_eq, k8sPathMatches_iff, normalizeIngressPath_idem]

/-- A lookup finds the first of the best routes of the host. -/
theorem resolveHostPath_eq (hhost : normalizeHost host ≠ "") :
    t.resolveHostPath kind host requestPath
      = (((t.table kind).ofHost (normalizeHost host)).find? (best (asked kind requestPath) bridgeKey
          ((t.table kind).ofHost (normalizeHost host)))).map materializedToResolved := by
  rw [resolveHostPath, if_neg hhost, selectK8sRoute, selectNextK8sRoute_eq_keepBetter,
    foldl_keepBetter_eq_find? fun s x => by rw [decide_eq_true_eq, bridgeKey_lt_iff]]
  rfl

theorem mem_ofHost_iff (hw : t.WellPlaced) :
    r ∈ (t.table kind).ofHost (normalizeHost host) ∧ asked kind requestPath r = true
      ↔ t.Candidate kind host requestPath r := by
  rw [RouteTable.ofHost, mem_filter, decide_eq_true_eq, asked_eq_true_iff]
  constructor
  · rintro ⟨⟨hmem, hhost⟩, hkind, hpath⟩
    exact ⟨mem_routes_of_mem_table hmem, hkind, hhost, hpath⟩
  · intro hr
    exact ⟨⟨hr.kind ▸ hw.table r hr.mem, hr.host⟩, hr.kind, hr.path⟩

theorem best_of_resolveHostPath (hw : t.WellPlaced) {backend : K8sResolvedBackend}
    (h : t.resolveHostPath kind host requestPath = some backend) :
    ∃ r, t.Candidate kind host requestPath r ∧ materializedToResolved r = backend
      ∧ ∀ r', t.Candidate kind host requestPath r' → bridgeKey r' ≤ bridgeKey r := by
  have hhost : normalizeHost host ≠ "" := by
    intro hempty
    rw [resolveHostPath, if_pos hempty] at h
    cases h
  rw [resolveHostPath_eq hhost, Option.map_eq_some_iff] at h
  obtain ⟨r, hfind, rfl⟩ := h
  obtain ⟨hasked, hgreatest⟩ := best_eq_true_iff.mp (List.find?_some hfind)
  refine ⟨r, (mem_ofHost_iff hw).mp ⟨mem_of_find?_eq_some hfind, hasked⟩, rfl, ?_⟩
  intro r' hr'
  obtain ⟨hmem, hasked'⟩ := (mem_ofHost_iff hw).mpr hr'
  exact hgreatest r' hmem hasked'

theorem exists_of_candidate (hw : t.WellPlaced) (hr : t.Candidate kind host requestPath r) :
    ∃ backend, t.resolveHostPath kind host requestPath = some backend := by
  obtain ⟨hmem, hasked⟩ := (mem_ofHost_iff hw).mpr hr
  obtain ⟨w, hbest⟩ := exists_isBest bridgeKey hmem hasked
  have hfound := List.find?_isSome.mpr ⟨w, hbest.mem,
    best_eq_true_iff.mpr ⟨hbest.matched, hbest.greatest⟩⟩
  obtain ⟨found, hfound⟩ := Option.isSome_iff_exists.mp hfound
  have hhost : normalizeHost host ≠ "" := hr.host ▸ hw.host r hr.mem
  refine ⟨materializedToResolved found, ?_⟩
  rw [resolveHostPath_eq hhost, hfound, Option.map_some]

end ResolvedRoutes

/-! ## What a rebuild makes -/

namespace EdgeBridge

variable {b : EdgeBridge} {o o' : Orders} {kind : RouteKind} {r r' : MaterializedRoute}

theorem mem_attachedListeners {order : Nat → GoMap.RangeOrder EdgeListener}
    {parentRefs : List K8sBridge.GatewayParent} {listener : EdgeListener} :
    listener ∈ b.attachedListeners order parentRefs
      ↔ ∃ parentRef ∈ parentRefs, ∃ gateway, b.gateways.find? parentRef.gatewayKey = some gateway
        ∧ listener ∈ gateway.listeners.values
        ∧ ¬(parentRef.sectionName ≠ "" ∧ listener.name ≠ parentRef.sectionName) := by
  have hsection : ∀ (parentRef : K8sBridge.GatewayParent) (l : EdgeListener),
      (listener ∈ if parentRef.sectionName ≠ "" && l.name ≠ parentRef.sectionName then [] else [l])
      ↔ listener = l ∧ ¬(parentRef.sectionName ≠ "" ∧ listener.name ≠ parentRef.sectionName) := by
    intro parentRef l
    rw [mem_ite_nil_left, Bool.and_eq_true, decide_eq_true_eq, decide_eq_true_eq,
      mem_singleton, and_comm]
    exact and_congr_right fun heq => by rw [heq]
  simp only [attachedListeners, mem_flatMap]
  constructor
  · rintro ⟨⟨parentRef, idx⟩, hparent, hl⟩
    cases hgw : b.gateways.find? parentRef.gatewayKey with
    | none => simp [hgw] at hl
    | some gateway =>
      simp only [hgw, mem_flatMap, GoMap.RangeOrder.mem_visit] at hl
      obtain ⟨l, hmem, hl⟩ := hl
      obtain ⟨rfl, hname⟩ := (hsection parentRef l).mp hl
      exact ⟨parentRef, fst_mem_of_mem_zipIdx hparent, gateway, hgw, hmem, hname⟩
  · rintro ⟨parentRef, hparent, gateway, hgw, hmem, hname⟩
    obtain ⟨idx, hidx⟩ := mem_iff_getElem?.mp hparent
    refine ⟨(parentRef, idx), mk_mem_zipIdx_iff_getElem?.mpr hidx, ?_⟩
    simp only [hgw, mem_flatMap, GoMap.RangeOrder.mem_visit]
    exact ⟨listener, hmem, (hsection parentRef listener).mpr ⟨rfl, hname⟩⟩

def rulesOf (b : EdgeBridge) (kind : RouteKind) : Table EdgeHTTPRoute :=
  if kind = .grpc then b.grpcRoutes else b.httpRoutes

inductive Made (b : EdgeBridge) : MaterializedRoute → Prop
  | rule {kind : RouteKind} {route : EdgeHTTPRoute} {host : String} {rule : EdgeRule} {idx : Nat}
      (hkind : kind = .http ∨ kind = .https ∨ kind = .grpc) (hroute : route ∈ (b.rulesOf kind).rows)
      (hhost : host ≠ "") (hrule : route.rules[idx]? = some rule) :
      Made b (newMaterializedRoute kind route.namespace_ route.name host rule idx)
  | tls {route : EdgeL4Route} {listener : EdgeListener} {host : String}
      (hroute : route ∈ b.tlsRoutes.rows) (hhost : host ≠ "") :
      Made b (l4Route route listener host)

theorem kind_l4Route (route : EdgeL4Route) (listener : EdgeListener) (host : String) :
    (l4Route route listener host).kind
      = if Go.equalFold listener.tlsMode "Passthrough" then .tlsPassthrough
        else .tlsTerminate := by
  unfold l4Route
  dsimp only
  split <;> rfl

theorem binding_l4Route (route : EdgeL4Route) (listener : EdgeListener) (host : String) :
    (l4Route route listener host).binding
      = (newMaterializedRoute .tlsTerminate route.namespace_ route.name host
          { path := "/", pathKind := .prefixed, backend := route.backend } 0).binding := by
  unfold l4Route
  dsimp only
  split <;> rfl

theorem hostname_l4Route (route : EdgeL4Route) (listener : EdgeListener) (host : String) :
    (l4Route route listener host).hostname = host := by
  rw [← (l4Route route listener host).listed, binding_l4Route]
  rfl

theorem l4Route_congr {route : EdgeL4Route} {listener listener' : EdgeListener} {host : String}
    (h : (l4Route route listener host).kind = (l4Route route listener' host).kind) :
    l4Route route listener host = l4Route route listener' host := by
  have hmode : Go.equalFold listener.tlsMode "Passthrough"
      = Go.equalFold listener'.tlsMode "Passthrough" := by
    rw [kind_l4Route, kind_l4Route] at h
    split at h <;> split at h <;> simp_all
  rw [l4Route, hmode]
  rfl

theorem Made.eq_of_id (hr : Made b r) (hr' : Made b r') (hkind : r.kind = r'.kind)
    (hhost : r.hostname = r'.hostname) (hid : r.binding.id = r'.binding.id) : r = r' := by
  -- a kind of routes with rules is no kind of a TLSRoute
  have hcross : ∀ {kind : RouteKind} {route : EdgeL4Route} {listener : EdgeListener} {host : String},
      (kind = .http ∨ kind = .https ∨ kind = .grpc) →
      (l4Route route listener host).kind ≠ kind := by
    intro kind route listener host hkind heq
    rw [kind_l4Route] at heq
    split at heq <;> subst heq <;> simp at hkind
  cases hr with
  | @rule kind route host rule idx hk hroute _ hrule =>
    cases hr' with
    | @rule kind' route' host' rule' idx' hk' hroute' _ hrule' =>
      obtain rfl : kind = kind' := hkind
      obtain rfl : host = host' := hhost
      obtain ⟨hkey, rfl⟩ := newMaterializedRoute_id_inj hid
      obtain rfl := inj_on_of_nodup_map (b.rulesOf kind).nodup hroute hroute' hkey
      obtain rfl := Option.some.inj (hrule.symm.trans hrule')
      rfl
    | tls _ _ => exact absurd hkind.symm (hcross hk)
  | @tls route listener host hroute _ =>
    cases hr' with
    | rule hk' _ _ _ => exact absurd hkind (hcross hk')
    | @tls route' listener' host' hroute' _ =>
      rw [hostname_l4Route, hostname_l4Route] at hhost
      subst hhost
      rw [binding_l4Route, binding_l4Route] at hid
      obtain ⟨hkey, -⟩ := newMaterializedRoute_id_inj hid
      obtain rfl := inj_on_of_nodup_map b.tlsRoutes.nodup hroute hroute' hkey
      exact l4Route_congr hkind

theorem Made.hostname_ne (hr : Made b r) : r.hostname ≠ "" := by
  cases hr with
  | rule _ _ hhost _ => exact hhost
  | tls _ hhost =>
    rw [hostname_l4Route]
    exact hhost

/-! ### The loops -/

theorem of_mem_effectiveHosts {routeHosts : List K8s.HostName} {listenerHost : K8s.HostName}
    {host : String} (h : host ∈ effectiveHosts routeHosts listenerHost) : host ≠ "" := by
  simpa using (mem_filter.mp h).2

theorem made_of_mem_rules {route : EdgeHTTPRoute} {listenerHost : K8s.HostName}
    (hkind : kind = .http ∨ kind = .https ∨ kind = .grpc) (hroute : route ∈ (b.rulesOf kind).rows)
    (hr : r ∈ (effectiveHosts route.hostnames listenerHost).flatMap fun host =>
      route.rules.zipIdx.map fun (rule, idx) =>
        newMaterializedRoute kind route.namespace_ route.name host rule idx) :
    Made b r ∧ r.kind = kind := by
  obtain ⟨host, hhost, hr⟩ := mem_flatMap.mp hr
  obtain ⟨⟨rule, idx⟩, hrule, rfl⟩ := mem_map.mp hr
  exact ⟨.rule hkind hroute (of_mem_effectiveHosts hhost)
    (mk_mem_zipIdx_iff_getElem?.mp hrule), rfl⟩

theorem of_mem_httpFamily
    (hr : r ∈ (o.httpRoutes.visit b.httpRoutes.rows).flatMap (b.materializeHTTPFamilyIn o)) :
    Made b r := by
  obtain ⟨route, hroute, hr⟩ := mem_flatMap.mp hr
  rw [GoMap.RangeOrder.mem_visit] at hroute
  obtain ⟨listener, -, hr⟩ := mem_flatMap.mp hr
  rw [mem_ite_nil_left, Bool.and_eq_true, decide_eq_true_eq, decide_eq_true_eq] at hr
  obtain ⟨hkind, hr⟩ := hr
  have hkind : listener.routeKind = .http ∨ listener.routeKind = .https := by
    by_contra hne
    exact hkind (not_or.mp hne)
  refine (made_of_mem_rules (hkind.imp_right Or.inl) ?_ hr).1
  rcases hkind with hkind | hkind <;> rw [hkind] <;> exact hroute

theorem of_mem_grpcResolved (hr : r ∈ (b.rebuildRoutesIn o).grpcResolved) :
    Made b r ∧ r.kind = .grpc := by
  obtain ⟨route, hroute, hr⟩ := mem_flatMap.mp hr
  rw [GoMap.RangeOrder.mem_visit] at hroute
  obtain ⟨listener, -, hr⟩ := mem_flatMap.mp hr
  rw [mem_ite_nil_left] at hr
  exact made_of_mem_rules (Or.inr (Or.inr rfl)) hroute hr.2

theorem of_mem_tlsResolved (hr : r ∈ (b.rebuildRoutesIn o).tlsResolved) :
    Made b r ∧ (r.kind = .tlsTerminate ∨ r.kind = .tlsPassthrough) := by
  obtain ⟨route, hroute, hr⟩ := mem_flatMap.mp hr
  rw [GoMap.RangeOrder.mem_visit] at hroute
  obtain ⟨listener, -, hr⟩ := mem_flatMap.mp hr
  rw [mem_ite_nil_left] at hr
  obtain ⟨host, hhost, rfl⟩ := mem_map.mp hr.2
  refine ⟨.tls hroute (by simpa using (mem_filter.mp hhost).2), ?_⟩
  rw [kind_l4Route]
  split
  · exact Or.inr rfl
  · exact Or.inl rfl

theorem of_mem_ingressRoutes {ing : K8s.Ingress} (hr : r ∈ b.ingressRoutes ing) :
    r.hostname ≠ "" ∧ ∃ idx path service, r = b.pathRoute ing r.hostname idx path service := by
  obtain ⟨rule, -, hr⟩ := mem_flatMap.mp hr
  simp only [ruleRoutes, mem_ite_nil_left] at hr
  obtain ⟨hhost, hr⟩ := hr
  obtain ⟨⟨path, idx⟩, -, hsome⟩ := mem_filterMap.mp hr
  obtain ⟨service, -, rfl⟩ := Option.map_eq_some_iff.mp hsome
  exact ⟨hhost, idx, path, service, rfl⟩

/-! ### The tables -/

def ingressTable (b : EdgeBridge) (o : Orders) (kind : RouteKind) : RouteTable :=
  if kind = .http then (o.ingresses.visit b.ingresses.rows).flatMap b.ingressRoutes else []

def gatewayTable (b : EdgeBridge) (o : Orders) : RouteKind → RouteTable
  | .http => ((o.httpRoutes.visit b.httpRoutes.rows).flatMap
      (b.materializeHTTPFamilyIn o)).filter fun r => r.kind = .http
  | kind => (b.rebuildRoutesIn o).table kind

theorem table_rebuildRoutesIn (b : EdgeBridge) (o : Orders) (kind : RouteKind) :
    (b.rebuildRoutesIn o).table kind = b.ingressTable o kind ++ b.gatewayTable o kind := by
  cases kind <;> rfl

theorem mem_ingressTable (o o' : Orders) :
    r ∈ b.ingressTable o kind ↔ r ∈ b.ingressTable o' kind := by
  unfold ingressTable
  split
  · simp only [mem_flatMap, GoMap.RangeOrder.mem_visit]
  · rfl

theorem mem_gatewayTable (o o' : Orders) :
    r ∈ b.gatewayTable o kind ↔ r ∈ b.gatewayTable o' kind := by
  cases kind <;>
    simp only [gatewayTable, ResolvedRoutes.table, rebuildRoutesIn, mem_filter,
      mem_flatMap, GoMap.RangeOrder.mem_visit, materializeHTTPFamilyIn,
      materializeGRPCFamilyIn, materializeL4In, mem_attachedListeners]

theorem of_mem_ingressTable (hr : r ∈ b.ingressTable o kind) :
    kind = .http ∧ ∃ ing ∈ b.ingresses.rows, r ∈ b.ingressRoutes ing := by
  unfold ingressTable at hr
  split at hr
  · rename_i hkind
    obtain ⟨ing, hing, hr⟩ := mem_flatMap.mp hr
    exact ⟨hkind, ing, GoMap.RangeOrder.mem_visit.mp hing, hr⟩
  · cases hr

theorem of_mem_gatewayTable (hr : r ∈ b.gatewayTable o kind) :
    Made b r ∧ (b.rebuildRoutesIn o).table r.kind = (b.rebuildRoutesIn o).table kind := by
  cases kind with
  | http =>
    obtain ⟨hr, hkind⟩ := mem_filter.mp hr
    exact ⟨of_mem_httpFamily hr, by rw [of_decide_eq_true hkind]⟩
  | https =>
    obtain ⟨hr, hkind⟩ := mem_filter.mp hr
    exact ⟨of_mem_httpFamily hr, by rw [of_decide_eq_true hkind]⟩
  | grpc =>
    obtain ⟨hmade, hkind⟩ := of_mem_grpcResolved hr
    exact ⟨hmade, by rw [hkind]⟩
  | tlsTerminate =>
    obtain ⟨hmade, hkind | hkind⟩ := of_mem_tlsResolved hr
    · exact ⟨hmade, by rw [hkind]⟩
    · exact ⟨hmade, by rw [hkind]; rfl⟩
  | tlsPassthrough =>
    obtain ⟨hmade, hkind | hkind⟩ := of_mem_tlsResolved hr
    · exact ⟨hmade, by rw [hkind]; rfl⟩
    · exact ⟨hmade, by rw [hkind]⟩
  | tcp => cases hr
  | udp => cases hr

theorem wellPlaced_rebuildRoutesIn (b : EdgeBridge) (o : Orders) :
    (b.rebuildRoutesIn o).WellPlaced := by
  have hall : ∀ r ∈ (b.rebuildRoutesIn o).routes,
      r ∈ (b.rebuildRoutesIn o).table r.kind ∧ r.hostname ≠ "" := by
    intro r hr
    obtain ⟨kind, hr⟩ : ∃ kind, r ∈ (b.rebuildRoutesIn o).table kind := by
      simp only [ResolvedRoutes.routes, mem_append] at hr
      rcases hr with ((hr | hr) | hr) | hr
      · exact ⟨.http, hr⟩
      · exact ⟨.https, hr⟩
      · exact ⟨.grpc, hr⟩
      · exact ⟨.tlsTerminate, hr⟩
    rcases mem_append.mp (table_rebuildRoutesIn b o kind ▸ hr) with hpart | hpart
    · obtain ⟨rfl, ing, -, hing⟩ := of_mem_ingressTable hpart
      obtain ⟨hhost, idx, path, service, heq⟩ := of_mem_ingressRoutes hing
      refine ⟨?_, hhost⟩
      rw [heq] at hr ⊢
      exact hr
    · obtain ⟨hmade, htable⟩ := of_mem_gatewayTable hpart
      exact ⟨htable ▸ hr, hmade.hostname_ne⟩
  exact ⟨fun r hr => (hall r hr).1, fun r hr => (hall r hr).2⟩

/-! ## The same choice in every order -/

section Choice

variable {h : String} {p : MaterializedRoute → Bool}

theorem find?_ingressTable (o o' : Orders)
    (hties : ∀ x ∈ (b.ingressTable o kind).ofHost h, ∀ y ∈ (b.ingressTable o kind).ofHost h,
      p x = true → p y = true → x.binding.id = y.binding.id) :
    ((b.ingressTable o kind).ofHost h).find? p = ((b.ingressTable o' kind).ofHost h).find? p := by
  by_cases hkind : kind = .http
  · simp only [ingressTable, if_pos hkind, RouteTable.ofHost] at hties ⊢
    rw [← List.head?_filter, ← List.head?_filter, filter_flatMap, filter_flatMap,
      filter_flatMap, filter_flatMap]
    refine congrArg List.head? (GoMap.flatMap_eq_of_perm
      ((o.ingresses.perm _).trans (o'.ingresses.perm _).symm) ?_)
    intro ing hing ing' hing' hne hne'
    have hmem : ∀ ing ∈ o.ingresses.visit b.ingresses.rows,
        ((b.ingressRoutes ing).filter fun r => r.hostname = h).filter p ≠ [] →
        ∃ r, r ∈ b.ingressRoutes ing ∧ r.hostname = h ∧ p r = true
          ∧ r ∈ ((o.ingresses.visit b.ingresses.rows).flatMap b.ingressRoutes).filter
            fun r => r.hostname = h := by
      intro ing hing hne
      obtain ⟨r, hr⟩ := exists_mem_of_ne_nil _ hne
      obtain ⟨hr, hp⟩ := mem_filter.mp hr
      obtain ⟨hr, hhost⟩ := mem_filter.mp hr
      exact ⟨r, hr, of_decide_eq_true hhost, hp,
        mem_filter.mpr ⟨mem_flatMap.mpr ⟨ing, hing, hr⟩, hhost⟩⟩
    obtain ⟨x, hx, hhost, hpx, hxmem⟩ := hmem ing hing hne
    obtain ⟨y, hy, hhost', hpy, hymem⟩ := hmem ing' hing' hne'
    have hid := hties x hxmem y hymem hpx hpy
    obtain ⟨-, idx, path, service, hx⟩ := of_mem_ingressRoutes hx
    obtain ⟨-, idx', path', service', hy⟩ := of_mem_ingressRoutes hy
    rw [hx, hy, hhost, hhost'] at hid
    exact inj_on_of_nodup_map b.ingresses.nodup (GoMap.RangeOrder.mem_visit.mp hing)
      (GoMap.RangeOrder.mem_visit.mp hing') (pathRoute_id_inj hid)
  · simp only [ingressTable, if_neg hkind]

theorem find?_gatewayTable (o o' : Orders)
    (hties : ∀ x ∈ (b.gatewayTable o kind).ofHost h, ∀ y ∈ (b.gatewayTable o kind).ofHost h,
      p x = true → p y = true → x.kind = y.kind ∧ x.binding.id = y.binding.id) :
    ((b.gatewayTable o kind).ofHost h).find? p = ((b.gatewayTable o' kind).ofHost h).find? p := by
  refine find?_eq_of_mem_iff (fun x => ?_) fun x hx y hy hpx hpy => ?_
  · rw [RouteTable.ofHost, RouteTable.ofHost, mem_filter, mem_filter, mem_gatewayTable o o']
  · obtain ⟨hkind, hid⟩ := hties x hx y hy hpx hpy
    obtain ⟨hx, hhost⟩ := mem_filter.mp hx
    obtain ⟨hy, hhost'⟩ := mem_filter.mp hy
    exact (of_mem_gatewayTable hx).1.eq_of_id (of_mem_gatewayTable hy).1 hkind
      ((of_decide_eq_true hhost).trans (of_decide_eq_true hhost').symm) hid

end Choice

variable {host requestPath : String}

theorem same_of_best {routes : List MaterializedRoute} {x y : MaterializedRoute} (hx : x ∈ routes)
    (hy : y ∈ routes)
    (hbx : best (ResolvedRoutes.asked kind requestPath) bridgeKey routes x = true)
    (hby : best (ResolvedRoutes.asked kind requestPath) bridgeKey routes y = true) :
    x.kind = y.kind ∧ x.binding.id = y.binding.id := by
  obtain ⟨hax, hgx⟩ := best_eq_true_iff.mp hbx
  obtain ⟨hay, hgy⟩ := best_eq_true_iff.mp hby
  have hkx := (ResolvedRoutes.asked_eq_true_iff.mp hax).1
  have hky := (ResolvedRoutes.asked_eq_true_iff.mp hay).1
  exact ⟨hkx.trans hky.symm, id_of_bridgeKey (le_antisymm (hgy x hx hax) (hgx y hy hay))⟩

theorem resolveHostPath_in_any_order (b : EdgeBridge) (o o' : Orders) :
    (b.rebuildRoutesIn o).resolveHostPath kind host requestPath
      = (b.rebuildRoutesIn o').resolveHostPath kind host requestPath := by
  by_cases hhost : normalizeHost host = ""
  · simp only [ResolvedRoutes.resolveHostPath, if_pos hhost]
  · rw [ResolvedRoutes.resolveHostPath_eq hhost, ResolvedRoutes.resolveHostPath_eq hhost]
    have hmem : ∀ x, x ∈ ((b.rebuildRoutesIn o).table kind).ofHost (normalizeHost host)
        ↔ x ∈ ((b.rebuildRoutesIn o').table kind).ofHost (normalizeHost host) := by
      intro x
      rw [RouteTable.ofHost, RouteTable.ofHost, mem_filter, mem_filter,
        table_rebuildRoutesIn, table_rebuildRoutesIn, mem_append, mem_append,
        mem_ingressTable o o', mem_gatewayTable o o']
    rw [← best_congr hmem]
    have hparts : ∀ o, ((b.rebuildRoutesIn o).table kind).ofHost (normalizeHost host)
        = (b.ingressTable o kind).ofHost (normalizeHost host)
          ++ (b.gatewayTable o kind).ofHost (normalizeHost host) := by
      intro o
      rw [table_rebuildRoutesIn, RouteTable.ofHost, filter_append]
      rfl
    rw [hparts, hparts o', List.find?_append, List.find?_append,
      find?_ingressTable o o' fun x hx y hy hbx hby =>
        (same_of_best (mem_append_left _ hx) (mem_append_left _ hy) hbx hby).2,
      find?_gatewayTable o o' fun x hx y hy hbx hby =>
        same_of_best (mem_append_right _ hx) (mem_append_right _ hy) hbx hby]

/-- A lookup answers exactly where a route of the kind and host matches, with
the binding of the best match, and with the same one whatever the orders
are in which the tables have been rebuilt. -/
theorem resolveHostPath_best (b : EdgeBridge) (o : Orders) (kind : RouteKind)
    (host requestPath : String) :
    ((∃ backend, (b.rebuildRoutesIn o).resolveHostPath kind host requestPath = some backend)
      ↔ ∃ r, (b.rebuildRoutesIn o).Candidate kind host requestPath r)
    ∧ (∀ backend, (b.rebuildRoutesIn o).resolveHostPath kind host requestPath = some backend →
      ∃ r, (b.rebuildRoutesIn o).Candidate kind host requestPath r
        ∧ r.binding = backend.binding
        ∧ ∀ r', (b.rebuildRoutesIn o).Candidate kind host requestPath r' →
          bridgeKey r' ≤ bridgeKey r)
    ∧ ∀ o' : Orders,
      ((b.rebuildRoutesIn o').resolveHostPath kind host requestPath).map (·.binding)
        = ((b.rebuildRoutesIn o).resolveHostPath kind host requestPath).map (·.binding) := by
  have hw := b.wellPlaced_rebuildRoutesIn o
  refine ⟨⟨?_, ?_⟩, ?_, fun o' => by rw [b.resolveHostPath_in_any_order o' o]⟩
  · rintro ⟨backend, h⟩
    obtain ⟨r, hr, -⟩ := ResolvedRoutes.best_of_resolveHostPath hw h
    exact ⟨r, hr⟩
  · rintro ⟨r, hr⟩
    exact ResolvedRoutes.exists_of_candidate hw hr
  · intro backend h
    obtain ⟨r, hr, rfl, hbest⟩ := ResolvedRoutes.best_of_resolveHostPath hw h
    exact ⟨r, hr, rfl, hbest⟩

/-- An Ingress with two rules for one host, and an HTTPRoute and a TLSRoute
that reach it through several listeners. -/
def exampleBridge : EdgeBridge :=
  let backend : K8s.ServiceBackend := { name := K8s.exampleName }
  let ingress : K8s.Ingress :=
    { namespace_ := K8s.exampleNamespace
      name := K8s.exampleName
      ingressClassName := some "luna"
      rules :=
        [{ host := K8s.exampleHost, http := some [{ path := "/", service := some backend }] },
         { host := K8s.exampleHost, http := some [{ path := "/api", service := some backend }] }] }
  let gateway : K8s.Gateway :=
    { namespace_ := K8s.exampleNamespace
      name := K8s.exampleName
      listeners :=
        [{ name := "web", hostname := K8s.exampleHost },
         { name := "internal", protocol := "HTTP", hostname := K8s.exampleHost },
         { name := "tls", protocol := "TLS", hostname := K8s.exampleHost, tlsMode := "passthrough" }] }
  let http : K8s.HTTPRoute :=
    { namespace_ := K8s.exampleNamespace
      name := K8s.exampleName
      parentRefs := [{ name := "edge" }]
      rules := [{ pathMatches := [{ value := some "/api/v1" }], backendRefs := [{ name := "api" }] }] }
  let tls : K8s.TLSRoute :=
    { namespace_ := K8s.exampleNamespace
      name := K8s.exampleName
      parentRefs := [{ name := "edge" }]
      rules := [[{ name := "mail", port := 993 }]] }
  ((((storeIngress { ingressClass := "luna" } ingress).storeGateway gateway).storeHTTPRoute
    http).storeGRPCRoute http).storeTLSRoute tls

theorem resolveHostPath_best_example :
    ∃ r, (exampleBridge.rebuildRoutesIn {}).Candidate .http "a.example" "/api/v1/users" r
      ∧ r.binding.name = "api"
      ∧ ∀ r', (exampleBridge.rebuildRoutesIn {}).Candidate .http "a.example" "/api/v1/users" r' →
        bridgeKey r' ≤ bridgeKey r := by
  have hname : ((exampleBridge.rebuildRoutesIn {}).resolveHostPath .http "a.example"
      "/api/v1/users").map (·.binding.name) = some "api" := by decide +kernel
  obtain ⟨backend, hfound, hname⟩ := Option.map_eq_some_iff.mp hname
  obtain ⟨-, hbest, -⟩ := resolveHostPath_best exampleBridge {} .http "a.example" "/api/v1/users"
  obtain ⟨r, hr, hbinding, hall⟩ := hbest backend hfound
  exact ⟨r, hr, hbinding ▸ hname, hall⟩

end EdgeBridge

end Ingress

end LunaEdge
