import LunaEdge.EdgeBridge
import LunaEdge.IngressRebuild
import LunaEdge.RouteSelection

/-!
# Two ways from an Ingress to a backend

A request reaches a backend of an Ingress through the repository, as the
master's bridge materialises the Ingress and a replica chooses among the
routes of the projection; or through the bridge of the edge, which has
materialised the Ingress itself. Both choose among the same paths, those
of the rule for the host that have a service, but not in the same way: a
replica compares strings, the bridge compares path elements.

They agree exactly where no path matches in either way, or the best path
by string prefix and the best path by elements lead to the same address
and port.
-/

namespace LunaEdge

open Session Selection List

namespace Ingress

-- host names and paths are compared here and never computed
attribute [local irreducible] normalizeHost K8sBridge.normalizeHost K8sBridge.normalizePath
  normalizeIngressPath

/-! ## The paths of a host -/

structure ServedPath where
  path : K8s.IngressPath
  idx : Nat
  service : K8s.ServiceBackend

def rulePaths (rule : K8s.IngressRule) : List ServedPath :=
  (rule.http.getD []).zipIdx.filterMap fun (path, idx) =>
    path.service.map fun service => ⟨path, idx, service⟩

def servedPaths (ing : K8s.Ingress) (h : String) : List ServedPath :=
  (ing.rules.filter fun rule => rule.host.val = h).flatMap rulePaths

variable {ing : K8s.Ingress} {h : String}

variable {s : ServedPath}

theorem mem_rulePaths {rule : K8s.IngressRule} :
    s ∈ rulePaths rule
      ↔ (rule.http.getD [])[s.idx]? = some s.path ∧ s.path.service = some s.service := by
  obtain ⟨path, idx, service⟩ := s
  simp only [rulePaths, mem_filterMap, Prod.exists, mk_mem_zipIdx_iff_getElem?,
    Option.map_eq_some_iff, ServedPath.mk.injEq]
  constructor
  · rintro ⟨path', idx', hpath, service', hservice, rfl, rfl, rfl⟩
    exact ⟨hpath, hservice⟩
  · rintro ⟨hpath, hservice⟩
    exact ⟨path, idx, hpath, service, hservice, rfl, rfl, rfl⟩

theorem mem_servedPaths :
    s ∈ servedPaths ing h ↔ ∃ rule ∈ ing.rules, rule.host.val = h ∧ s ∈ rulePaths rule := by
  simp only [servedPaths, mem_flatMap, mem_filter, decide_eq_true_eq, and_assoc]

/-- With distinct rule hosts a path is known by its position. -/
theorem servedPaths_inj (hdistinct : (K8sBridge.ruleHosts ing).Nodup) (hh : h ≠ "")
    {s' : ServedPath} (hs : s ∈ servedPaths ing h) (hs' : s' ∈ servedPaths ing h)
    (hidx : s.idx = s'.idx) : s = s' := by
  have hlen := K8sBridge.IngressBridge.length_rules_le hdistinct hh
  simp only [K8s.HostName.normalizeHost_val] at hlen
  unfold servedPaths at hs hs'
  generalize (ing.rules.filter fun rule => rule.host.val = h) = rules at hlen hs hs'
  rcases rules with _ | ⟨rule, _ | ⟨rule', rules⟩⟩
  · cases hs
  · rw [flatMap_singleton, mem_rulePaths] at hs hs'
    obtain ⟨hpath, hservice⟩ := hs
    obtain ⟨hpath', hservice'⟩ := hs'
    obtain ⟨path, idx, service⟩ := s
    obtain ⟨path', idx', service'⟩ := s'
    obtain rfl : idx = idx' := hidx
    obtain rfl : path = path' := Option.some.inj (hpath.symm.trans hpath')
    obtain rfl : service = service' := Option.some.inj (hservice.symm.trans hservice')
    rfl
  · simp at hlen

/-! ## Through the repository -/

section Replica

open K8sBridge IngressBridge

variable {b : IngressBridge}

def pathRow (b : IngressBridge) (ing : K8s.Ingress) (h : String) (s : ServedPath) :
    ServiceBackendRef × HTTPRoute :=
  (b.pathBackend ing h s.idx s.service, IngressBridge.pathRoute ing h s.idx s.path)

theorem mem_hostPairs {p : ServiceBackendRef × HTTPRoute} :
    p ∈ b.hostPairs h (contributions [ing] h) ↔ ∃ s ∈ servedPaths ing h, pathRow b ing h s = p := by
  simp only [hostPairs, mem_flatMap, mem_contributions, mem_servedPaths,
    K8s.HostName.normalizeHost_val, mem_singleton, pathRows, mem_filterMap,
    Option.map_eq_some_iff, rulePaths]
  constructor
  · rintro ⟨⟨ing', rule⟩, ⟨rfl, hrule, hhost⟩, ⟨path, idx⟩, hpath, service, hservice, rfl⟩
    exact ⟨⟨path, idx, service⟩, ⟨rule, hrule, hhost, ⟨path, idx⟩, hpath, service, hservice, rfl⟩,
      rfl⟩
  · rintro ⟨s, ⟨rule, hrule, hhost, ⟨path, idx⟩, hpath, service, hservice, rfl⟩, rfl⟩
    exact ⟨⟨ing, rule⟩, ⟨rfl, hrule, hhost⟩, ⟨path, idx⟩, hpath, service, hservice, rfl⟩

/-- The master after it has stored the Ingress, with these Services. -/
def loaded (ingressClass : String) (services : Table K8s.Service) (m : Master) (order : IngressBridge.Order)
    (ing : K8s.Ingress) : IngressNode :=
  IngressNode.step ⟨{ ingressClass := ingressClass, services := services },
    { m with repo := Repo.empty }⟩ (order, .storeIngress ing)

variable {ingressClass : String} {services : Table K8s.Service} {m : Master} {order : IngressBridge.Order}

theorem rows_loaded :
    (loaded ingressClass services m order ing).bridge.ingresses.rows
      = if (loaded ingressClass services m order ing).bridge.matchesIngressClass ing then [ing]
        else [] := by
  have hclass : (loaded ingressClass services m order ing).bridge.matchesIngressClass ing
      = ({ ingressClass := ingressClass, services := services } : IngressBridge).matchesIngressClass
        ing := by
    simp only [loaded, IngressNode.step, store]
    split <;> rfl
  rw [hclass]
  simp only [loaded, IngressNode.step, store]
  split <;> rfl

theorem mirrors_loaded (ingressClass : String) (services : Table K8s.Service) (m : Master)
    (order : IngressBridge.Order) (hdistinct : (ruleHosts ing).Nodup) :
    Mirrors (loaded ingressClass services m order ing).master.repo
      ((loaded ingressClass services m order ing).bridge.rebuilt
        (loaded ingressClass services m order ing).bridge.ingresses.rows) := by
  let b : IngressBridge := { ingressClass := ingressClass, services := services }
  have hrows : ∀ i ∈ (b.store (.storeIngress ing)).ingresses.rows, i = ing := by
    intro i hi
    have hloaded : i ∈ (loaded ingressClass services m order ing).bridge.ingresses.rows := hi
    rw [rows_loaded] at hloaded
    split at hloaded
    · exact mem_singleton.mp hloaded
    · cases hloaded
  have hexclusive : b.Exclusive (.storeIngress ing) := by
    refine ⟨⟨fun i hi => ?_, fun i hi j hj h _ _ => ?_⟩, fun h hmem => ?_⟩
    · rw [hrows i hi]
      exact hdistinct
    · rw [hrows i hi, hrows j hj]
    · exact absurd (mem_diffKeys.mp hmem).1 not_mem_nil
  obtain ⟨m', hdone, hm'⟩ := handle_rebuilt (m := { m with repo := Repo.empty }) order
    (consistent_empty rfl) hexclusive (mirrors_rebuilt_nil b)
  rw [loaded, IngressNode.step, hdone.state_eq]
  exact hm'

theorem replicaBinding_loaded {binding : BackendBinding} {p : String}
    (hdistinct : (ruleHosts ing).Nodup) (hh : h ≠ "")
    (hb : (loaded ingressClass services m order ing).bridge = b)
    (hclass : b.matchesIngressClass ing = true) :
    replicaBinding (loaded ingressClass services m order ing).master.repo h p = some binding
      ↔ ∃ s, IsBest (fun s => httpRouteMatches (pathRow b ing h s).2.path p)
          (fun s => replicaKey (projectRoute (pathRow b ing h s).2 (pathRow b ing h s).1))
          (servedPaths ing h) s
        ∧ rowBinding h (pathRow b ing h s) = binding := by
  have hm : Mirrors (loaded ingressClass services m order ing).master.repo (b.rebuilt [ing]) := by
    have hmirrors := mirrors_loaded ingressClass services m order hdistinct
    rwa [rows_loaded, hb, if_pos hclass] at hmirrors
  generalize (loaded ingressClass services m order ing).master.repo = repo at hm ⊢
  cases hitem : b.hostItem h (contributions [ing] h) with
  | none =>
    have hF : b.rebuilt [ing] h = none := by rw [rebuilt, if_neg hh, hitem]; rfl
    rw [replicaBinding_of_none hm hF]
    constructor
    · intro heq
      cases heq
    · rintro ⟨s, hs, -⟩
      have hpair := (mem_hostPairs (b := b)).mpr ⟨s, hs.mem, rfl⟩
      rw [hostItem_eq_none_iff.mp hitem] at hpair
      cases hpair
  | some raw =>
    have hF : b.rebuilt [ing] h = some (dedupBackends raw) := by
      rw [rebuilt, if_neg hh, hitem]
      rfl
    obtain ⟨⟨c, hc, hdomain⟩, -, -⟩ := of_hostItem hitem
    have hcolon := noColon_of_contribution (mem_of_getLast? hc)
    have hkeys : ((contributions [ing] h).map (Keyed.key ·.1)).Nodup :=
      nodup_contributions (nodup_singleton _)
        (fun i hi => mem_singleton.mp hi ▸ hdistinct) hh
    obtain ⟨hroutes, hbackends, -⟩ :=
      rows_dedupBackends hcolon (nodup_hostPairs hcolon hkeys) hitem
    have hl7 : (dedupBackends raw).domain.backendType.isL4 = false := by
      have hd : (dedupBackends raw).domain = ruleDomain c.1 h := hdomain
      rw [hd, ruleDomain]
      dsimp only
      split <;> rfl
    refine replicaBinding_eq_some_iff (pathRow b ing h) hm hF hl7 fun backend r => ?_
    rw [(hm.managed h _ hF).mem_pairs (pairOf_hostPairs hcolon) hroutes hbackends, mem_hostPairs]

end Replica

/-! ## Through the bridge of the edge -/

section Bridge

variable {b : EdgeBridge} {host : String}

theorem mem_rebuildIngressRoutes {r : MaterializedRoute} (hrows : b.ingresses.rows = [ing])
    (hh : normalizeHost host ≠ "") :
    r ∈ b.rebuildIngressRoutes ∧ r.hostname = normalizeHost host
      ↔ ∃ s ∈ servedPaths ing (normalizeHost host),
          b.pathRoute ing (normalizeHost host) s.idx s.path s.service = r := by
  simp only [EdgeBridge.rebuildIngressRoutes, hrows, flatMap_singleton, mem_flatMap,
    EdgeBridge.ruleRoutes, mem_servedPaths, rulePaths, mem_filterMap, Option.map_eq_some_iff]
  constructor
  · rintro ⟨⟨rule, hrule, hr⟩, hhost⟩
    split at hr
    · cases hr
    rename_i hne
    obtain ⟨⟨path, idx⟩, hpath, hsome⟩ := mem_filterMap.mp hr
    obtain ⟨service, hservice, rfl⟩ := Option.map_eq_some_iff.mp hsome
    have hval : rule.host.val = normalizeHost host :=
      (rule.host.edge_normalizeHost_val hne).symm.trans hhost
    refine ⟨⟨path, idx, service⟩, ⟨rule, hrule, hval, ⟨path, idx⟩, hpath, service, hservice, rfl⟩, ?_⟩
    rw [rule.host.edge_normalizeHost_val hne, hval]
  · rintro ⟨s, ⟨rule, hrule, hval, ⟨path, idx⟩, hpath, service, hservice, rfl⟩, rfl⟩
    refine ⟨⟨rule, hrule, ?_⟩, rfl⟩
    rw [hval, normalizeHost_idem, if_neg hh]
    exact mem_filterMap.mpr ⟨⟨path, idx⟩, hpath, Option.map_eq_some_iff.mpr
      ⟨service, hservice, rfl⟩⟩

theorem idx_of_pathRoute {idx idx' : Nat} {path path' : K8s.IngressPath}
    {service service' : K8s.ServiceBackend} (hcolon : ':' ∉ h.toList)
    (heq : (b.pathRoute ing h idx path service).binding.id
      = (b.pathRoute ing h idx' path' service').binding.id) : idx = idx' := by
  have hfields : ∀ n : Nat, Go.split (Go.colons
      ["k8s", "ingress", ing.namespace_.val, ing.name.val, h, toString n]) ':'
      = ["k8s", "ingress", ing.namespace_.val, ing.name.val, h, toString n] := by
    intro n
    refine Go.split_colons (fun f hf => ?_) (cons_ne_nil _ _)
    rcases mem_cons.mp hf with rfl | hf
    · decide
    · exact (K8sBridge.IngressBridge.rowFields_rowFields ing hcolon n).noColon f hf
  have hsplit := congrArg (Go.split · ':') heq
  simp only [EdgeBridge.pathRoute, hfields, List.cons.injEq, true_and, and_true] at hsplit
  exact Go.toString_inj hsplit

/-- The edge after it has stored the Ingress, with these Services. -/
def edgeLoaded (ingressClass : String) (services : Table K8s.Service) (ing : K8s.Ingress) :
    EdgeBridge :=
  EdgeBridge.storeIngress { ingressClass := ingressClass, services := services } ing

variable {ingressClass : String} {services : Table K8s.Service}

theorem rows_edgeLoaded :
    (edgeLoaded ingressClass services ing).ingresses.rows
      = if (edgeLoaded ingressClass services ing).matchesIngressClass ing then [ing] else [] := by
  have hclass : (edgeLoaded ingressClass services ing).matchesIngressClass ing
      = ({ ingressClass := ingressClass, services := services } : EdgeBridge).matchesIngressClass
        ing := by
    unfold edgeLoaded EdgeBridge.storeIngress
    split <;> rfl
  rw [hclass]
  unfold edgeLoaded EdgeBridge.storeIngress
  split <;> rfl

theorem rebuildRoutes_edgeLoaded :
    (edgeLoaded ingressClass services ing).rebuildRoutes.httpResolved
      = (edgeLoaded ingressClass services ing).rebuildIngressRoutes := by
  have hroutes : (edgeLoaded ingressClass services ing).httpRoutes = .empty := by
    unfold edgeLoaded EdgeBridge.storeIngress
    split <;> rfl
  have hgateway : (edgeLoaded ingressClass services ing).rebuildGatewayRoutes = [] := by
    rw [EdgeBridge.rebuildGatewayRoutes, hroutes]
    rfl
  simp only [EdgeBridge.rebuildRoutes, hgateway, filter_nil, append_nil]

def servedRoute (b : EdgeBridge) (ing : K8s.Ingress) (h : String) (s : ServedPath) :
    MaterializedRoute :=
  b.pathRoute ing h s.idx s.path s.service

theorem resolveHTTP_edgeLoaded {backend : K8sResolvedBackend} {p : String}
    (hdistinct : (K8sBridge.ruleHosts ing).Nodup) (hh : h ≠ "") (hhost : normalizeHost host = h)
    (hb : edgeLoaded ingressClass services ing = b) (hclass : b.matchesIngressClass ing = true) :
    b.rebuildRoutes.resolveHTTP host p = some backend
      ↔ ∃ s, IsBest (fun s => k8sPathMatches (servedRoute b ing h s).pathKind
            (servedRoute b ing h s).path (normalizeIngressPath p))
          (fun s => bridgeKey (servedRoute b ing h s)) (servedPaths ing h) s
        ∧ ResolvedRoutes.materializedToResolved (servedRoute b ing h s) = backend := by
  subst hb hhost
  refine resolveHTTP_eq_some_iff (servedRoute _ ing _) hh (fun r => ?_) (fun s _ => rfl) ?_
  · rw [RouteTable.ofHost, mem_filter, decide_eq_true_eq, rebuildRoutes_edgeLoaded]
    exact mem_rebuildIngressRoutes (rows_edgeLoaded.trans (if_pos hclass)) hh
  · intro s hs s' hs' heq
    have hcolon : ':' ∉ (normalizeHost host).toList := by
      obtain ⟨rule, -, hval, -⟩ := mem_servedPaths.mp hs
      rw [← hval]
      exact rule.host.noColon
    rw [servedPaths_inj hdistinct hh hs hs' (idx_of_pathRoute hcolon heq)]

end Bridge

/-! ## Agreement -/

section Agreement

def ServedPath.pathKind (s : ServedPath) : RoutePathKind :=
  if s.path.pathType = some .exact then .exact else .prefixed

/-- A replica takes the rules for exact paths before the others by their
priority, then the longer path, then the smaller id. -/
def ServedPath.replicaRank (ing : K8s.Ingress) (h : String) (s : ServedPath) :
    Lex (Int × Lex (Nat × Stringᵒᵈ)) :=
  let path := K8sBridge.normalizePath s.path.path
  toLex (Go.len path + if s.path.pathType = some .exact then 100000 else 0,
    toLex (Go.len path, .toDual (K8sBridge.routeID (K8sBridge.IngressBridge.rowFields ing h s.idx))))

/-- The bridge takes exact paths first, then the longer path, then the
greater id; all its routes have the same order. -/
def ServedPath.bridgeRank (ing : K8s.Ingress) (h : String) (s : ServedPath) :
    Lex (Bool × Lex (Nat × Lex (Natᵒᵈ × String))) :=
  toLex (decide (s.pathKind = .exact), toLex (Go.len (normalizeIngressPath s.path.path),
    toLex (.toDual 0, Go.colons
      ["k8s", "ingress", ing.namespace_.val, ing.name.val, h, toString s.idx])))

/-- A replica matches an exact path like any other. -/
def ServedPath.matchesByPrefix (p : String) (s : ServedPath) : Bool :=
  httpRouteMatches (K8sBridge.normalizePath s.path.path) p

def ServedPath.matchesByElement (p : String) (s : ServedPath) : Bool :=
  k8sPathMatches s.pathKind (normalizeIngressPath s.path.path) (normalizeIngressPath p)

def ServedPath.replicaEndpoint (services : Table K8s.Service) (ing : K8s.Ingress) (s : ServedPath) :
    String × Nat :=
  let b : K8sBridge.IngressBridge := { ingressClass := "", services := services }
  (((b.resolveIngressBackendServiceAddress ing.namespace_ s.service.name).map Go.trimSpace).getD
    (buildServiceAddress s.service.name.val ing.namespace_.val),
    K8sBridge.ingressServicePort s.service)

def ServedPath.bridgeEndpoint (services : Table K8s.Service) (ing : K8s.Ingress) (s : ServedPath) :
    String × Nat :=
  let b : EdgeBridge := { ingressClass := "", services := services }
  (b.serviceAddress ing.namespace_ s.service.name, EdgeBridge.servicePort s.service)

def endpoint (binding : BackendBinding) : String × Nat := (binding.address, binding.port)

variable {ingressClass : String} {services : Table K8s.Service} {m : Master}
  {order : K8sBridge.IngressBridge.Order} {host p : String}

theorem endpoint_rowBinding {b : K8sBridge.IngressBridge} (hb : b.services = services)
    (s : ServedPath) :
    endpoint (rowBinding h (pathRow b ing h s)) = ServedPath.replicaEndpoint services ing s := by
  have hresolve : b.resolveIngressBackendServiceAddress
      = ({ ingressClass := "", services := services } :
        K8sBridge.IngressBridge).resolveIngressBackendServiceAddress := by
    funext namespace_ name
    simp only [K8sBridge.IngressBridge.resolveIngressBackendServiceAddress, hb]
  simp only [endpoint, rowBinding, pathRow, K8sBridge.IngressBridge.pathBackend, hresolve,
    ServedPath.replicaEndpoint]
  split <;> rename_i hsome <;> rw [hsome] <;> rfl

theorem endpoint_servedRoute {b : EdgeBridge} (hb : b.services = services) (s : ServedPath) :
    endpoint (servedRoute b ing h s).binding = ServedPath.bridgeEndpoint services ing s := by
  simp only [endpoint, servedRoute, EdgeBridge.pathRoute, ServedPath.bridgeEndpoint,
    EdgeBridge.serviceAddress, EdgeBridge.resolveIngressBackendServiceAddress, hb]

/-- What a replica of a master with the Ingress binds a request to. -/
def replicated (ingressClass : String) (services : Table K8s.Service) (m : Master)
    (order : K8sBridge.IngressBridge.Order) (ing : K8s.Ingress) (host p : String) :
    Option BackendBinding :=
  replicaBinding (loaded ingressClass services m order ing).master.repo (normalizeHost host) p

/-- What the bridge of an edge with the Ingress resolves a request to. -/
def resolved (ingressClass : String) (services : Table K8s.Service) (ing : K8s.Ingress)
    (host p : String) : Option K8sResolvedBackend :=
  (edgeLoaded ingressClass services ing).rebuildRoutes.resolveHTTP host p

theorem matchesIngressClass_loaded :
    (loaded ingressClass services m order ing).bridge.matchesIngressClass ing
      = (edgeLoaded ingressClass services ing).matchesIngressClass ing := by
  have hclass : (loaded ingressClass services m order ing).bridge.ingressClass
      = (edgeLoaded ingressClass services ing).ingressClass := by
    simp only [loaded, K8sBridge.IngressNode.step, K8sBridge.IngressBridge.store, edgeLoaded,
      EdgeBridge.storeIngress]
    split <;> split <;> rfl
  rw [K8sBridge.IngressBridge.matchesIngressClass, EdgeBridge.matchesIngressClass, hclass]

theorem replicated_eq_none (hdistinct : (K8sBridge.ruleHosts ing).Nodup)
    (hno : (edgeLoaded ingressClass services ing).matchesIngressClass ing = true →
      normalizeHost host = "") :
    replicated ingressClass services m order ing host p = none := by
  have hm := mirrors_loaded ingressClass services m order hdistinct
  refine replicaBinding_of_none hm ?_
  rw [rows_loaded, matchesIngressClass_loaded]
  split
  · rename_i hclass
    rw [hno hclass, K8sBridge.IngressBridge.rebuilt, if_pos rfl]
  · exact K8sBridge.IngressBridge.rebuilt_eq_none fun i hi => absurd hi not_mem_nil

theorem resolved_eq_none
    (hno : (edgeLoaded ingressClass services ing).matchesIngressClass ing = true →
      normalizeHost host = "") :
    resolved ingressClass services ing host p = none := by
  rw [resolved, ResolvedRoutes.resolveHTTP]
  simp only [ResolvedRoutes.resolveHostPath, ResolvedRoutes.table, rebuildRoutes_edgeLoaded]
  split
  · rfl
  · rename_i hh
    rw [EdgeBridge.rebuildIngressRoutes, rows_edgeLoaded, if_neg fun hclass => hh (hno hclass)]
    rfl

/-- Both ways lead to the same address and port exactly where the two
choices among the paths for the host do. -/
theorem replicated_eq_resolved_iff (hdistinct : (K8sBridge.ruleHosts ing).Nodup) :
    (replicated ingressClass services m order ing host p).map endpoint
        = (resolved ingressClass services ing host p).map (fun backend => endpoint backend.binding)
      ↔ ((edgeLoaded ingressClass services ing).matchesIngressClass ing = true →
        normalizeHost host ≠ "" →
        SameChoice (ServedPath.matchesByPrefix p) (ServedPath.matchesByElement p) (ServedPath.replicaRank ing (normalizeHost host))
          (ServedPath.bridgeRank ing (normalizeHost host)) (servedPaths ing (normalizeHost host))
          (ServedPath.replicaEndpoint services ing) (ServedPath.bridgeEndpoint services ing)) := by
  have hservices : (loaded ingressClass services m order ing).bridge.services = services := by
    simp only [loaded, K8sBridge.IngressNode.step, K8sBridge.IngressBridge.store]
    split <;> rfl
  have hservices' : (edgeLoaded ingressClass services ing).services = services := by
    unfold edgeLoaded EdgeBridge.storeIngress
    split <;> rfl
  by_cases hserved : (edgeLoaded ingressClass services ing).matchesIngressClass ing = true
      ∧ normalizeHost host ≠ ""
  · obtain ⟨hclass, hh⟩ := hserved
    have hreplica : ∀ binding, replicated ingressClass services m order ing host p = some binding
        ↔ ∃ s, IsBest (ServedPath.matchesByPrefix p) (ServedPath.replicaRank ing (normalizeHost host))
            (servedPaths ing (normalizeHost host)) s
          ∧ rowBinding (normalizeHost host) (pathRow
            (loaded ingressClass services m order ing).bridge ing (normalizeHost host) s)
            = binding := fun binding =>
      replicaBinding_loaded hdistinct hh rfl (matchesIngressClass_loaded.trans hclass)
    have hbridge : ∀ backend, resolved ingressClass services ing host p = some backend
        ↔ ∃ s, IsBest (ServedPath.matchesByElement p) (ServedPath.bridgeRank ing (normalizeHost host))
            (servedPaths ing (normalizeHost host)) s
          ∧ ResolvedRoutes.materializedToResolved (servedRoute
            (edgeLoaded ingressClass services ing) ing (normalizeHost host) s) = backend :=
      fun backend => resolveHTTP_edgeLoaded hdistinct hh rfl rfl hclass
    have htarget : ∀ s, endpoint (ResolvedRoutes.materializedToResolved
        (servedRoute (edgeLoaded ingressClass services ing) ing (normalizeHost host) s)).binding
        = ServedPath.bridgeEndpoint services ing s := fun s => endpoint_servedRoute hservices' s
    refine (map_eq_map_iff hreplica hbridge).trans ?_
    simp only [endpoint_rowBinding hservices, htarget]
    exact ⟨fun hsame _ _ => hsame, fun hsame => hsame hclass hh⟩
  · have hno : (edgeLoaded ingressClass services ing).matchesIngressClass ing = true →
        normalizeHost host = "" := fun hclass => by_contra fun hh => hserved ⟨hclass, hh⟩
    rw [replicated_eq_none hdistinct hno, resolved_eq_none hno]
    exact ⟨fun _ hclass hh => absurd ⟨hclass, hh⟩ hserved, fun _ => rfl⟩

def examplePaths : K8s.Ingress where
  namespace_ := K8s.exampleNamespace
  name := K8s.exampleName
  ingressClassName := some "luna"
  rules := [{
    host := K8s.exampleHost
    http := some [
      { path := "/api", pathType := some .prefixed
        service := some { name := K8sBridge.IngressNode.exampleBlue, portNumber := 80 } },
      { path := "/", pathType := some .prefixed
        service := some { name := K8sBridge.IngressNode.exampleGreen, portNumber := 80 } }] }]

def exampleMaster : Master := ⟨.empty, .empty, [], none⟩

theorem replicated_eq_resolved_iff_api :
    (K8sBridge.ruleHosts examplePaths).Nodup
      ∧ SameChoice (ServedPath.matchesByPrefix "/api/users") (ServedPath.matchesByElement "/api/users")
        (ServedPath.replicaRank examplePaths (normalizeHost "a.example"))
        (ServedPath.bridgeRank examplePaths (normalizeHost "a.example"))
        (servedPaths examplePaths (normalizeHost "a.example"))
        (ServedPath.replicaEndpoint .empty examplePaths) (ServedPath.bridgeEndpoint .empty examplePaths) := by
  have hdistinct : (K8sBridge.ruleHosts examplePaths).Nodup := by decide +kernel
  have heq : (replicated "luna" .empty exampleMaster K8sBridge.IngressNode.exampleOrder
      examplePaths "a.example" "/api/users").map endpoint
      = (resolved "luna" .empty examplePaths "a.example" "/api/users").map
        (fun backend => endpoint backend.binding) := by
    decide +kernel
  exact ⟨hdistinct, (replicated_eq_resolved_iff hdistinct).mp heq (by decide +kernel)
    (by decide +kernel)⟩

/-- The request path `/apiary` starts with `/api` as a string and not by
its elements. -/
theorem apiary_differs :
    (K8sBridge.ruleHosts examplePaths).Nodup
      ∧ (replicated "luna" .empty exampleMaster K8sBridge.IngressNode.exampleOrder examplePaths
          "a.example" "/apiary").map endpoint = some ("blue.web.svc.cluster.local", 80)
      ∧ (resolved "luna" .empty examplePaths "a.example" "/apiary").map
          (fun backend => endpoint backend.binding) = some ("green.web.svc.cluster.local", 80) := by
  refine ⟨?_, ?_, ?_⟩ <;> decide +kernel

end Agreement

end Ingress

end LunaEdge
