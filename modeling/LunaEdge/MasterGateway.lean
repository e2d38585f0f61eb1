import LunaEdge.MasterIngress

/-!
# The Gateway bridge of the master

The bridge keeps what it parses from Gateways, HTTPRoutes, TLSRoutes and
Services. A route reaches a host through the listeners its parents
attach it to: by its own host names, or by the listener's if it has none.
Both kinds of routes go through the same loop over parents, listeners and
hosts (`overHosts`) and differ in the listeners that serve them and in
what they add to a host.
-/

namespace LunaEdge

open Session List

namespace K8sBridge

/-! ## Parsed objects -/

structure GatewayListener where
  name : String
  protocol : String
  hostname : K8s.HostName
  passthrough : Bool
deriving DecidableEq

structure GatewayState where
  key : String
  listeners : List GatewayListener

structure GatewayParent where
  gatewayKey : String
  sectionName : String
deriving DecidableEq

structure GatewayBackend where
  namespace_ : String
  name : String
  port : Nat
deriving DecidableEq

structure GatewayRule where
  path : String
  exact : Bool
  backend : GatewayBackend
deriving DecidableEq

structure HTTPRouteState where
  namespace_ : K8s.ObjectName
  name : K8s.ObjectName
  hostnames : List K8s.HostName
  parents : List GatewayParent
  rules : List GatewayRule
deriving DecidableEq

structure TLSRouteState where
  namespace_ : K8s.ObjectName
  name : K8s.ObjectName
  hostnames : List K8s.HostName
  parents : List GatewayParent
  backend : GatewayBackend
deriving DecidableEq

instance : Keyed GatewayState String := ⟨fun gw => gw.key⟩

instance : Keyed HTTPRouteState String := ⟨fun r => K8s.objectKey r.namespace_ r.name⟩

instance : Keyed TLSRouteState String := ⟨fun r => K8s.objectKey r.namespace_ r.name⟩

/-! ## Parsing -/

def parseGatewayListener (listener : K8s.Listener) : GatewayListener where
  name := listener.name
  protocol := Go.toUpper (Go.trimSpace listener.protocol)
  hostname := listener.hostname
  passthrough := Go.equalFold (Go.trimSpace listener.tlsMode) "Passthrough"

def parseGatewayState (obj : K8s.Gateway) : GatewayState where
  key := K8s.objectKey obj.namespace_ obj.name
  listeners := obj.listeners.map parseGatewayListener

def parseParent (namespace_ : K8s.ObjectName) (parent : K8s.ParentRef) : GatewayParent where
  gatewayKey :=
    (if parent.namespace_ = "" then namespace_.val else parent.namespace_) ++ "/" ++ parent.name
  sectionName := parent.sectionName

/-- The first backend with a name; `uint32` of its port, and the default
for port 0. -/
def parseBackend (namespace_ : K8s.ObjectName) (defaultPort : Nat)
    (backendRefs : List K8s.BackendRef) : Option GatewayBackend :=
  (backendRefs.find? fun backend => backend.name ≠ "").map fun backend =>
    let port := (backend.port % 4294967296).toNat
    { namespace_ := if backend.namespace_ = "" then namespace_.val else backend.namespace_
      name := backend.name
      port := if port = 0 then defaultPort else port }

/-- The path of the first match; without one the rule is for all paths. -/
def parsePath (paths : List K8s.PathMatch) : String × Bool :=
  match paths.head? with
  | none => ("/", false)
  | some path =>
    ((path.value.filter (· ≠ "")).getD "/", path.type.any fun type => Go.equalFold type "Exact")

def parseRule (namespace_ : K8s.ObjectName) (rule : K8s.HTTPRouteRule) : Option GatewayRule :=
  let (path, exact) := parsePath rule.pathMatches
  (parseBackend namespace_ 80 rule.backendRefs).map fun backend =>
    { path := path, exact := exact, backend := backend }

def parseHTTPRouteState (obj : K8s.HTTPRoute) : HTTPRouteState where
  namespace_ := obj.namespace_
  name := obj.name
  hostnames := obj.hostnames
  parents := obj.parentRefs.map (parseParent obj.namespace_)
  rules := obj.rules.filterMap (parseRule obj.namespace_)

/-- A TLSRoute is of the first backend of any rule. -/
def parseTLSRouteState (obj : K8s.TLSRoute) : Option TLSRouteState :=
  (obj.rules.findSome? (parseBackend obj.namespace_ 443)).map fun backend =>
    { namespace_ := obj.namespace_
      name := obj.name
      hostnames := obj.hostnames
      parents := obj.parentRefs.map (parseParent obj.namespace_)
      backend := backend }

/-! ## Materialising -/

def normalizeHosts (values : List K8s.HostName) : List String :=
  targets (values.map fun host => host.val)

def gatewayHosts (state : GatewayState) : List String :=
  normalizeHosts (state.listeners.map fun listener => listener.hostname)

def diffStrings (oldValues newValues : List String) : List String :=
  oldValues.filter fun value => value ∉ newValues

/-- The first row of each id. -/
def dedupeByID {ρ : Type} [Keyed ρ String] : List String → List ρ → List ρ
  | _, [] => []
  | seen, row :: rows =>
    if Keyed.key row ∈ seen then dedupeByID seen rows
    else row :: dedupeByID (Keyed.key row :: seen) rows

theorem dedupeByID_subset {ρ : Type} [Keyed ρ String] (seen : List String) (rows : List ρ) :
    ∀ row ∈ dedupeByID seen rows, row ∈ rows ∧ Keyed.key row ∉ seen := by
  induction rows generalizing seen with
  | nil => exact fun _ hrow => absurd hrow not_mem_nil
  | cons first rows ih =>
    intro row hrow
    unfold dedupeByID at hrow
    split at hrow
    · obtain ⟨hmem, hnot⟩ := ih seen row hrow
      exact ⟨mem_cons_of_mem _ hmem, hnot⟩
    · rename_i hfirst
      rcases mem_cons.mp hrow with rfl | hrow
      · exact ⟨mem_cons_self, hfirst⟩
      · obtain ⟨hmem, hnot⟩ := ih _ row hrow
        exact ⟨mem_cons_of_mem _ hmem, fun h => hnot (mem_cons_of_mem _ h)⟩

theorem nodup_dedupeByID {ρ : Type} [Keyed ρ String] (seen : List String) (rows : List ρ) :
    ((dedupeByID seen rows).map Keyed.key).Nodup := by
  induction rows generalizing seen with
  | nil => exact nodup_nil
  | cons first rows ih =>
    unfold dedupeByID
    split
    · exact ih seen
    · rw [map_cons, nodup_cons]
      refine ⟨fun hmem => ?_, ih _⟩
      obtain ⟨row, hrow, hkey⟩ := mem_map.mp hmem
      refine (dedupeByID_subset _ _ row hrow).2 ?_
      rw [hkey]
      exact mem_cons_self

theorem mem_dedupeByID {ρ : Type} [Keyed ρ String] {rows : List ρ} {row : ρ}
    (hids : ∀ r ∈ rows, ∀ r' ∈ rows, Keyed.key r = Keyed.key r' → r = r') :
    row ∈ dedupeByID [] rows ↔ row ∈ rows := by
  refine ⟨fun hrow => (dedupeByID_subset [] rows row hrow).1, ?_⟩
  suffices hseen : ∀ seen, (∀ r ∈ rows, ∀ r' ∈ rows, Keyed.key r = Keyed.key r' → r = r') →
      row ∈ rows → Keyed.key row ∉ seen → row ∈ dedupeByID seen rows from
    fun hrow => hseen [] hids hrow not_mem_nil
  clear hids
  induction rows with
  | nil => exact fun _ _ hrow => absurd hrow not_mem_nil
  | cons first rows ih =>
    intro seen hids hrow hnot
    have hrest : ∀ r ∈ rows, ∀ r' ∈ rows, Keyed.key r = Keyed.key r' → r = r' := fun r hr r' hr' =>
      hids r (mem_cons_of_mem _ hr) r' (mem_cons_of_mem _ hr')
    unfold dedupeByID
    by_cases hfirst : row = first
    · rw [if_neg (hfirst ▸ hnot)]
      exact hfirst ▸ mem_cons_self
    · have hmem : row ∈ rows := (mem_cons.mp hrow).resolve_left hfirst
      split
      · exact ih seen hrest hmem hnot
      · refine mem_cons_of_mem _ (ih _ hrest hmem fun hseen => ?_)
        rcases mem_cons.mp hseen with hkey | hseen
        · exact hfirst (hids row hrow first mem_cons_self hkey)
        · exact hnot hseen

def dedupe (item : DomainMaterialized) : DomainMaterialized :=
  { item with backends := dedupeByID [] item.backends, routes := dedupeByID [] item.routes }

structure GatewayBridge where
  gateways : Table GatewayState := .empty
  httpRoutes : Table HTTPRouteState := .empty
  tlsRoutes : Table TLSRouteState := .empty
  services : Table K8s.Service := .empty

def servesHTTP (listener : GatewayListener) : Bool :=
  listener.protocol = "HTTP" || listener.protocol = "HTTPS"

def servesTLS (listener : GatewayListener) : Bool := listener.protocol = "TLS"

def hostsForRoute (hostnames : List K8s.HostName) (listener : GatewayListener) :
    List K8s.HostName :=
  if hostnames.length = 0 && listener.hostname.val ≠ "" then [listener.hostname] else hostnames

namespace GatewayBridge

def collectHosts (b : GatewayBridge) : List String :=
  mapKeys (b.gateways.rows.flatMap gatewayHosts
    ++ b.httpRoutes.rows.flatMap (fun route => normalizeHosts route.hostnames)
    ++ b.tlsRoutes.rows.flatMap fun route => normalizeHosts route.hostnames)

def resolveServiceBackendRef (b : GatewayBridge) (backend : ServiceBackendRef) :
    ServiceBackendRef :=
  if backend.type ≠ .svc || backend.serviceNamespace = "" || backend.serviceName = "" then backend
  else
    match b.services.find? (backend.serviceNamespace ++ "/" ++ backend.serviceName) with
    | none => backend
    | some svc =>
      if svc.type ≠ .externalName then backend
      else
        let endpoint := normalizeArbitraryEndpoint svc.externalName
        if endpoint = "" then backend
        else
          { backend with
            type := .external
            arbitraryEndpoint := endpoint
            serviceNamespace := ""
            serviceName := "" }

def backendRow (b : GatewayBridge) (id : String) (backend : GatewayBackend) : ServiceBackendRef :=
  b.resolveServiceBackendRef
    { id := id, type := .svc, serviceNamespace := backend.namespace_
      serviceName := backend.name, port := backend.port }

/-- The loop over the parents of a route, their listeners and its hosts. -/
def overHosts (b : GatewayBridge) (hostSet : List String) (parents : List GatewayParent)
    (hostnames : List K8s.HostName) (serves : GatewayListener → Bool)
    (body : GatewayListener → String → Nat → Option DomainMaterialized → DomainMaterialized)
    (out : GoMap String DomainMaterialized) : GoMap String DomainMaterialized :=
  parents.foldl (fun out parent =>
    match b.gateways.find? parent.gatewayKey with
    | none => out
    | some gw =>
      gw.listeners.foldl (fun out listener =>
        if parent.sectionName ≠ "" && parent.sectionName ≠ listener.name then out
        else if !serves listener then out
        else
          (hostsForRoute hostnames listener).zipIdx.foldl (fun out entry =>
            let host := normalizeHost entry.1.val
            if host ∉ hostSet || host = "" then out
            else out.set host (body listener host entry.2 (out.get? host))) out) out) out

/-! ## HTTP routes -/

/-- The domain of a host a listener serves. Its type is set again after it
was set, from what it is then. -/
def httpDomain (listener : GatewayListener) (host : String) : DomainEndpoint :=
  let domain : DomainEndpoint :=
    { hostname := host, needCert := listener.protocol = "HTTPS"
      backendType := if listener.protocol = "HTTPS" then .l7HTTPS else .l7HTTP }
  if listener.protocol = "HTTPS" then
    { domain with
      needCert := true
      backendType := if domain.backendType = .l7HTTP then .l7HTTPBoth else .l7HTTPS }
  else if listener.protocol = "HTTP" && domain.needCert then
    { domain with
      backendType :=
        if domain.backendType = .l7HTTPS || domain.backendType = .l7HTTPBoth then .l7HTTPBoth
        else domain.backendType }
  else domain

def ruleFields (route : HTTPRouteState) (host : String) (idx ruleIdx : Nat) : List String :=
  ["gateway", route.namespace_.val, route.name.val, host, toString idx, toString ruleIdx]

def ruleRoute (route : HTTPRouteState) (host : String) (idx ruleIdx : Nat) (rule : GatewayRule) :
    HTTPRoute where
  id := routeID (ruleFields route host idx ruleIdx)
  hostname := host
  path := normalizePath rule.path
  priority := Go.len (normalizePath rule.path) + if rule.exact then 100000 else 0
  backendRefID := backendID (ruleFields route host idx ruleIdx)

def ruleRows (b : GatewayBridge) (route : HTTPRouteState) (host : String) (idx : Nat) :
    List (ServiceBackendRef × HTTPRoute) :=
  route.rules.zipIdx.map fun (rule, ruleIdx) =>
    (b.backendRow (backendID (ruleFields route host idx ruleIdx)) rule.backend,
      ruleRoute route host idx ruleIdx rule)

def addHTTPRoute (b : GatewayBridge) (route : HTTPRouteState) (listener : GatewayListener)
    (host : String) (idx : Nat) (item : Option DomainMaterialized) : DomainMaterialized :=
  let rows := b.ruleRows route host idx
  { domain := httpDomain listener host
    backends := (item.map (·.backends)).getD [] ++ rows.map (·.1)
    routes := (item.map (·.routes)).getD [] ++ rows.map (·.2) }

/-! ## TLS routes -/

def tlsFields (route : TLSRouteState) (host : String) (idx : Nat) : List String :=
  ["gateway-tls", route.namespace_.val, route.name.val, host, toString idx]

def addTLSRoute (b : GatewayBridge) (route : TLSRouteState) (listener : GatewayListener)
    (host : String) (idx : Nat) (_ : Option DomainMaterialized) : DomainMaterialized where
  domain :=
    { hostname := host
      needCert := !listener.passthrough
      bindedServiceID := backendID (tlsFields route host idx)
      backendType := if listener.passthrough then .l4TLSPassthrough else .l4TLSTermination }
  backends := [b.backendRow (backendID (tlsFields route host idx)) route.backend]
  routes := []

/-- The orders in which an event ranges over its maps. -/
structure Order where
  httpRoutes : List HTTPRouteState → List HTTPRouteState
  tlsRoutes : List TLSRouteState → List TLSRouteState
  httpRoutes_perm : ∀ l, (httpRoutes l).Perm l
  tlsRoutes_perm : ∀ l, (tlsRoutes l).Perm l

/-- `materializeByHostLocked`. -/
def materializeByHost (order : Order) (b : GatewayBridge) (hosts : List String) :
    GoMap String DomainMaterialized :=
  let hostSet := targets hosts
  let out := (order.httpRoutes b.httpRoutes.rows).foldl (fun out route =>
    b.overHosts hostSet route.parents route.hostnames servesHTTP (b.addHTTPRoute route) out) .empty
  let out := (order.tlsRoutes b.tlsRoutes.rows).foldl (fun out route =>
    b.overHosts hostSet route.parents route.hostnames servesTLS (b.addTLSRoute route) out) out
  out.mapValues dedupe

/-! ## Events -/

inductive Event where
  | storeGateway (obj : K8s.Gateway)
  | deleteGateway (obj : K8s.Deleted K8s.Gateway)
  | storeHTTPRoute (obj : K8s.HTTPRoute)
  | deleteHTTPRoute (obj : K8s.Deleted K8s.HTTPRoute)
  | storeTLSRoute (obj : K8s.TLSRoute)
  | deleteTLSRoute (obj : K8s.Deleted K8s.TLSRoute)
  | storeService (obj : K8s.Service)
  | deleteService (obj : K8s.Deleted K8s.Service)

def store (b : GatewayBridge) : Event → GatewayBridge
  | .storeGateway obj => { b with gateways := b.gateways.upsert (parseGatewayState obj) }
  | .deleteGateway obj =>
    obj.named.elim b fun gw =>
      { b with gateways := b.gateways.erase (K8s.objectKey gw.namespace_ gw.name) }
  | .storeHTTPRoute obj => { b with httpRoutes := b.httpRoutes.upsert (parseHTTPRouteState obj) }
  | .deleteHTTPRoute obj =>
    obj.named.elim b fun route =>
      { b with httpRoutes := b.httpRoutes.erase (K8s.objectKey route.namespace_ route.name) }
  | .storeTLSRoute obj =>
    (parseTLSRouteState obj).elim b fun state =>
      { b with tlsRoutes := b.tlsRoutes.upsert state }
  | .deleteTLSRoute obj =>
    obj.named.elim b fun route =>
      { b with tlsRoutes := b.tlsRoutes.erase (K8s.objectKey route.namespace_ route.name) }
  | .storeService obj => { b with services := b.services.upsert obj }
  | .deleteService obj =>
    obj.named.elim b fun svc =>
      { b with services := b.services.erase (K8s.objectKey svc.namespace_ svc.name) }

/-- `routeHostsFromDeletedObject`: a tombstone is not the object. -/
def deletedHosts {α : Type} (hostnames : α → List K8s.HostName) : K8s.Deleted α → List String
  | .object obj => normalizeHosts (hostnames obj)
  | .tombstone _ => []

def affectedHosts (b : GatewayBridge) : Event → List String
  | .storeGateway obj => gatewayHosts (parseGatewayState obj)
  | .deleteGateway _ => []
  | .storeHTTPRoute obj => normalizeHosts (parseHTTPRouteState obj).hostnames
  | .deleteHTTPRoute obj => deletedHosts (·.hostnames) obj
  | .storeTLSRoute obj =>
    (parseTLSRouteState obj).elim [] fun state => normalizeHosts state.hostnames
  | .deleteTLSRoute obj => deletedHosts (·.hostnames) obj
  | .storeService _ | .deleteService _ => b.collectHosts

def removedHosts (b : GatewayBridge) (e : Event) : List String :=
  match e with
  | .deleteHTTPRoute _ | .deleteTLSRoute _ => []
  | .storeGateway _ | .deleteGateway _ | .storeHTTPRoute _ | .storeTLSRoute _ | .storeService _
  | .deleteService _ => diffStrings b.collectHosts (b.store e).collectHosts

def handle (b : GatewayBridge) (order : Order) (range : List HTTPRoute → List HTTPRoute)
    (e : Event) : MasterM PUnit :=
  MasterM.syncHosts .gateway range ((b.store e).materializeByHost order) (b.affectedHosts e)
    (b.removedHosts e)

end GatewayBridge

end K8sBridge

end LunaEdge
