import LunaEdge.K8sRoutes
import LunaEdge.MasterGateway

/-!
# The objects of the Kubernetes bridge of an edge

The bridge of the ingress engine watches the same objects as the bridges
of the master and rebuilds all its tables after every event. Unlike the
master it resolves the names of external services to sanitised host
names, and only for Ingresses; it tells the kind of a listener by its
name first; and the bindings of its Gateway routes have no path.

Of the routes of Gateways the ones of HTTPRoutes, GRPCRoutes and
TLSRoutes are modelled. A rebuild ranges over the maps of the bridge in
orders that Go leaves open (`Orders`); `rebuildRoutes` is the one in the
order of the model.
-/

namespace LunaEdge

namespace Ingress

/-! ## Gateways and HTTPRoutes, parsed -/

structure EdgeListener where
  name : String
  hostname : K8s.HostName
  tlsMode : String := ""
  routeKind : RouteKind

structure EdgeGateway where
  namespace_ : K8s.ObjectName
  name : K8s.ObjectName
  listeners : GoMap String EdgeListener

structure EdgeRule where
  path : String
  pathKind : RoutePathKind
  backend : K8sBridge.GatewayBackend

structure EdgeHTTPRoute where
  namespace_ : K8s.ObjectName
  name : K8s.ObjectName
  hostnames : List K8s.HostName
  parentRefs : List K8sBridge.GatewayParent
  rules : List EdgeRule

/-- `k8sL4RouteState`. -/
structure EdgeL4Route where
  namespace_ : K8s.ObjectName
  name : K8s.ObjectName
  hostnames : List K8s.HostName
  parentRefs : List K8sBridge.GatewayParent
  backend : K8sBridge.GatewayBackend

instance : Keyed EdgeGateway String := ⟨fun gw => K8s.objectKey gw.namespace_ gw.name⟩

instance : Keyed EdgeHTTPRoute String := ⟨fun r => K8s.objectKey r.namespace_ r.name⟩

instance : Keyed EdgeL4Route String := ⟨fun r => K8s.objectKey r.namespace_ r.name⟩

def routeKindFromListener (name protocol : String) : RouteKind :=
  let name := Go.toLower (Go.trimSpace name)
  let protocol := Go.toUpper (Go.trimSpace protocol)
  if name = "web" then .http
  else if name = "websecure" then .https
  else if protocol = "HTTP" then .http
  else if protocol = "HTTPS" then .https
  else if protocol = "GRPC" || protocol = "HTTPS+GRPC" then .grpc
  else if protocol = "TLS" then .tlsTerminate
  else if protocol = "TCP" then .tcp
  else if protocol = "UDP" then .udp
  else .http

/-- Listeners by name; one without a name is skipped. -/
def parseListeners (listeners : List K8s.Listener) : GoMap String EdgeListener :=
  listeners.foldl (fun out listener =>
    if listener.name = "" then out
    else
      out.set listener.name
        { name := listener.name
          hostname := listener.hostname
          tlsMode := Go.trimSpace listener.tlsMode
          routeKind := routeKindFromListener listener.name listener.protocol }) .empty

def parseGatewayState (obj : K8s.Gateway) : EdgeGateway where
  namespace_ := obj.namespace_
  name := obj.name
  listeners := parseListeners obj.listeners

def parseParentRefs (namespace_ : K8s.ObjectName) (items : List K8s.ParentRef) :
    List K8sBridge.GatewayParent :=
  (items.filter fun item => item.name ≠ "").map (K8sBridge.parseParent namespace_)

def parseFirstBackendRef (namespace_ : K8s.ObjectName) (backendRefs : List K8s.BackendRef) :
    Option K8sBridge.GatewayBackend :=
  K8sBridge.parseBackend namespace_ 80 backendRefs

def parseRule (namespace_ : K8s.ObjectName) (rule : K8s.HTTPRouteRule) : Option EdgeRule :=
  let (path, exact) := K8sBridge.parsePath rule.pathMatches
  (parseFirstBackendRef namespace_ rule.backendRefs).map fun backend =>
    { path := normalizeIngressPath path
      pathKind := if exact then .exact else .prefixed
      backend := backend }

def parseHTTPRouteState (obj : K8s.HTTPRoute) : EdgeHTTPRoute where
  namespace_ := obj.namespace_
  name := obj.name
  hostnames := obj.hostnames
  parentRefs := parseParentRefs obj.namespace_ obj.parentRefs
  rules := obj.rules.filterMap (parseRule obj.namespace_)

/-- The first backend of any rule; a route without one is not kept. -/
def parseL4RouteState (obj : K8s.TLSRoute) : Option EdgeL4Route :=
  (obj.rules.findSome? (parseFirstBackendRef obj.namespace_)).map fun backend =>
    { namespace_ := obj.namespace_
      name := obj.name
      hostnames := obj.hostnames
      parentRefs := parseParentRefs obj.namespace_ obj.parentRefs
      backend := backend }

def listenerAllowsKind (listener : EdgeListener) : RouteKind → Bool
  | .http => listener.routeKind = .http
  | .https => listener.routeKind = .https
  | .grpc => listener.routeKind = .grpc || listener.routeKind = .http
  | .tlsTerminate => listener.routeKind = .tlsTerminate
  | .tlsPassthrough => listener.routeKind = .tlsTerminate
  | .tcp => listener.routeKind = .tcp
  | .udp => listener.routeKind = .udp

def effectiveHosts (routeHosts : List K8s.HostName) (listenerHost : K8s.HostName) : List String :=
  ((if routeHosts.length > 0 then routeHosts else [listenerHost]).map fun host =>
    normalizeHost host.val).filter (· ≠ "")

/-! ## The bridge -/

/-- `K8sBridge` of the ingress engine. -/
structure EdgeBridge where
  ingressClass : String
  ingresses : Table K8s.Ingress := .empty
  services : Table K8s.Service := .empty
  gateways : Table EdgeGateway := .empty
  httpRoutes : Table EdgeHTTPRoute := .empty
  grpcRoutes : Table EdgeHTTPRoute := .empty
  tlsRoutes : Table EdgeL4Route := .empty

namespace EdgeBridge

def matchesIngressClass (b : EdgeBridge) (ing : K8s.Ingress) : Bool :=
  let expected := b.ingressClass
  if expected = "" then false
  else if ing.ingressClassName.getD "" ≠ "" then ing.ingressClassName.getD "" = expected
  else ing.annotations.any fun annotations =>
    (annotations.get? "kubernetes.io/ingress.class").getD "" = expected

def storeIngress (b : EdgeBridge) (ing : K8s.Ingress) : EdgeBridge :=
  if b.matchesIngressClass ing then { b with ingresses := b.ingresses.upsert ing }
  else { b with ingresses := b.ingresses.erase (Keyed.key ing) }

def storeGateway (b : EdgeBridge) (obj : K8s.Gateway) : EdgeBridge :=
  { b with gateways := b.gateways.upsert (parseGatewayState obj) }

def storeHTTPRoute (b : EdgeBridge) (obj : K8s.HTTPRoute) : EdgeBridge :=
  { b with httpRoutes := b.httpRoutes.upsert (parseHTTPRouteState obj) }

def storeGRPCRoute (b : EdgeBridge) (obj : K8s.HTTPRoute) : EdgeBridge :=
  { b with grpcRoutes := b.grpcRoutes.upsert (parseHTTPRouteState obj) }

def storeTLSRoute (b : EdgeBridge) (obj : K8s.TLSRoute) : EdgeBridge :=
  match parseL4RouteState obj with
  | none => b
  | some state => { b with tlsRoutes := b.tlsRoutes.upsert state }

def resolveIngressBackendServiceAddress (b : EdgeBridge) (namespace_ name : K8s.ObjectName) :
    Option String :=
  match b.services.find? (K8s.objectKey namespace_ name) with
  | none => none
  | some svc =>
    if svc.type ≠ .externalName then none
    else
      let address := normalizeHost svc.externalName
      if address = "" then none else some address

/-- Port 80 where there is no number; the second test never applies. -/
def servicePort (service : K8s.ServiceBackend) : Nat :=
  let port := if 0 < service.portNumber then service.portNumber.toNat else 80
  if service.portName ≠ "" && port = 0 then 80 else port

def serviceAddress (b : EdgeBridge) (namespace_ name : K8s.ObjectName) : String :=
  (b.resolveIngressBackendServiceAddress namespace_ name).getD
    (buildServiceAddress name.val namespace_.val)

def pathRoute (b : EdgeBridge) (ing : K8s.Ingress) (host : String) (idx : Nat)
    (path : K8s.IngressPath) (service : K8s.ServiceBackend) : MaterializedRoute where
  kind := .http
  hostname := host
  path := normalizeIngressPath path.path
  pathKind := if path.pathType = some .exact then .exact else .prefixed
  binding :=
    { id := Go.colons ["k8s", "ingress", ing.namespace_.val, ing.name.val, host, toString idx]
      hostname := host
      namespace_ := ing.namespace_.val
      name := service.name.val
      address := b.serviceAddress ing.namespace_ service.name
      port := servicePort service
      protocol := .http
      routeVersion := if ing.generation = 0 then 1 else ing.generation
      path := normalizeIngressPath path.path }
  listed := rfl

theorem pathRoute_id_inj {b : EdgeBridge} {ing ing' : K8s.Ingress} {host : String} {idx idx' : Nat}
    {path path' : K8s.IngressPath} {service service' : K8s.ServiceBackend}
    (h : (b.pathRoute ing host idx path service).binding.id
      = (b.pathRoute ing' host idx' path' service').binding.id) :
    Keyed.key ing = Keyed.key ing' := by
  have hk8s := (Go.colons_cons_inj (by simp) (by simp) (by decide) (by decide) h).2
  have hrest := (Go.colons_cons_inj (by simp) (by simp) (by decide) (by decide) hk8s).2
  obtain ⟨hns, hrest⟩ := Go.colons_cons_inj (by simp) (by simp) ing.namespace_.noColon
    ing'.namespace_.noColon hrest
  obtain ⟨hname, -⟩ := Go.colons_cons_inj (by simp) (by simp) ing.name.noColon ing'.name.noColon
    hrest
  show K8s.objectKey _ _ = K8s.objectKey _ _
  rw [K8s.objectKey, K8s.objectKey, hns, hname]

def ruleRoutes (b : EdgeBridge) (ing : K8s.Ingress) (rule : K8s.IngressRule) :
    List MaterializedRoute :=
  let host := normalizeHost rule.host.val
  if host = "" then []
  else
    (rule.http.getD []).zipIdx.filterMap fun (path, idx) =>
      path.service.map fun service => b.pathRoute ing host idx path service

def rebuildIngressRoutes (b : EdgeBridge) : RouteTable :=
  b.ingresses.rows.flatMap fun ing => ing.rules.flatMap (b.ruleRoutes ing)

/-! ## Routes of Gateways -/

def newMaterializedRoute (kind : RouteKind) (namespace_ routeName : K8s.ObjectName) (host : String)
    (rule : EdgeRule) (order : Nat) : MaterializedRoute where
  kind := kind
  hostname := host
  path := rule.path
  pathKind := rule.pathKind
  routeOrder := order
  binding :=
    { id := Go.colons
        ["k8s", kind.text, namespace_.val, routeName.val, rule.backend.name, toString order]
      hostname := host
      namespace_ := rule.backend.namespace_
      name := rule.backend.name
      address := buildServiceAddress rule.backend.name rule.backend.namespace_
      port := rule.backend.port
      protocol := if kind = .https then .http else kind
      routeVersion := 1 }
  listed := rfl

/-- The id of a route names the object it comes from and the position of
its rule, whatever the name of the backend is. -/
theorem newMaterializedRoute_id_inj {kind : RouteKind}
    {ns ns' name name' : K8s.ObjectName} {host host' : String}
    {rule rule' : EdgeRule} {idx idx' : Nat}
    (h : (newMaterializedRoute kind ns name host rule idx).binding.id
      = (newMaterializedRoute kind ns' name' host' rule' idx').binding.id) :
    K8s.objectKey ns name = K8s.objectKey ns' name' ∧ idx = idx' := by
  have hkind : ':' ∉ kind.text.toList := by cases kind <;> decide
  have hk8s := (Go.colons_cons_inj (by simp) (by simp) (by decide) (by decide) h).2
  have hrest := (Go.colons_cons_inj (by simp) (by simp) hkind hkind hk8s).2
  obtain ⟨hns, hrest⟩ := Go.colons_cons_inj (by simp) (by simp) ns.noColon
    ns'.noColon hrest
  obtain ⟨hname, hrest⟩ := Go.colons_cons_inj (by simp) (by simp) name.noColon name'.noColon hrest
  refine ⟨by rw [K8s.objectKey, K8s.objectKey, hns, hname], ?_⟩
  exact Go.toString_inj (Go.colons_pair_inj (Go.noColon_toString _) (Go.noColon_toString _) hrest)

def listenerRoutes (route : EdgeHTTPRoute) (listener : EdgeListener) : List MaterializedRoute :=
  (effectiveHosts route.hostnames listener.hostname).flatMap fun host =>
    route.rules.zipIdx.map fun (rule, idx) =>
      newMaterializedRoute listener.routeKind route.namespace_ route.name host rule idx

def materializeHTTPFamily (b : EdgeBridge) (route : EdgeHTTPRoute) : List MaterializedRoute :=
  route.parentRefs.flatMap fun parentRef =>
    match b.gateways.find? parentRef.gatewayKey with
    | none => []
    | some gateway =>
      gateway.listeners.values.flatMap fun listener =>
        if parentRef.sectionName ≠ "" && listener.name ≠ parentRef.sectionName then []
        else if listener.routeKind ≠ .http && listener.routeKind ≠ .https then []
        else listenerRoutes route listener

def rebuildGatewayRoutes (b : EdgeBridge) : List MaterializedRoute :=
  b.httpRoutes.rows.flatMap b.materializeHTTPFamily

/-! ## Rebuilding in any order -/

/-- The orders of one rebuild. The listeners of a Gateway are ranged over
anew for every parent of every route: the orders are given by the key of
the route and the position of the parent. -/
structure Orders where
  ingresses : GoMap.RangeOrder K8s.Ingress := .stored
  httpRoutes : GoMap.RangeOrder EdgeHTTPRoute := .stored
  grpcRoutes : GoMap.RangeOrder EdgeHTTPRoute := .stored
  tlsRoutes : GoMap.RangeOrder EdgeL4Route := .stored
  httpListeners : String → Nat → GoMap.RangeOrder EdgeListener := fun _ _ => .stored
  grpcListeners : String → Nat → GoMap.RangeOrder EdgeListener := fun _ _ => .stored
  tlsListeners : String → Nat → GoMap.RangeOrder EdgeListener := fun _ _ => .stored

/-- The loops over the parents of a route and the listeners of their
Gateways, with the listeners the section name leaves. -/
def attachedListeners (b : EdgeBridge) (order : Nat → GoMap.RangeOrder EdgeListener)
    (parentRefs : List K8sBridge.GatewayParent) : List EdgeListener :=
  parentRefs.zipIdx.flatMap fun (parentRef, idx) =>
    match b.gateways.find? parentRef.gatewayKey with
    | none => []
    | some gateway =>
      ((order idx).visit gateway.listeners.values).flatMap fun listener =>
        if parentRef.sectionName ≠ "" && listener.name ≠ parentRef.sectionName then []
        else [listener]

def materializeHTTPFamilyIn (b : EdgeBridge) (o : Orders) (route : EdgeHTTPRoute) :
    List MaterializedRoute :=
  (b.attachedListeners (o.httpListeners (Keyed.key route)) route.parentRefs).flatMap fun listener =>
    if listener.routeKind ≠ .http && listener.routeKind ≠ .https then []
    else listenerRoutes route listener

def materializeGRPCFamilyIn (b : EdgeBridge) (o : Orders) (route : EdgeHTTPRoute) :
    List MaterializedRoute :=
  (b.attachedListeners (o.grpcListeners (Keyed.key route)) route.parentRefs).flatMap fun listener =>
    if !listenerAllowsKind listener .grpc then []
    else
      (effectiveHosts route.hostnames listener.hostname).flatMap fun host =>
        route.rules.zipIdx.map fun (rule, idx) =>
          newMaterializedRoute .grpc route.namespace_ route.name host rule idx

/-- The route of a TLSRoute for a host: a listener in passthrough mode
changes its kind, and not the one in its binding. -/
def l4Route (route : EdgeL4Route) (listener : EdgeListener) (host : String) : MaterializedRoute :=
  let materialized := newMaterializedRoute .tlsTerminate route.namespace_ route.name host
    { path := "/", pathKind := .prefixed, backend := route.backend } 0
  if Go.equalFold listener.tlsMode "Passthrough" then
    { materialized with kind := .tlsPassthrough }
  else materialized

/-- `materializeL4Locked` for TLSRoutes. -/
def materializeL4In (b : EdgeBridge) (o : Orders) (route : EdgeL4Route) : List MaterializedRoute :=
  (b.attachedListeners (o.tlsListeners (Keyed.key route)) route.parentRefs).flatMap fun listener =>
    if !listenerAllowsKind listener .tlsTerminate then []
    else
      let hosts := effectiveHosts route.hostnames listener.hostname
      let hosts := if hosts.length = 0 then [listener.hostname.val] else hosts
      (hosts.filter (· ≠ "")).map (l4Route route listener)

def ingressRoutes (b : EdgeBridge) (ing : K8s.Ingress) : List MaterializedRoute :=
  ing.rules.flatMap (b.ruleRoutes ing)

/-- `rebuildRoutesLocked` where the loops visit the maps in these orders. -/
def rebuildRoutesIn (b : EdgeBridge) (o : Orders) : ResolvedRoutes :=
  let ingress := (o.ingresses.visit b.ingresses.rows).flatMap b.ingressRoutes
  let http := (o.httpRoutes.visit b.httpRoutes.rows).flatMap (b.materializeHTTPFamilyIn o)
  { httpResolved := ingress ++ http.filter fun r => r.kind = .http
    httpsResolved := http.filter fun r => r.kind = .https
    grpcResolved := (o.grpcRoutes.visit b.grpcRoutes.rows).flatMap (b.materializeGRPCFamilyIn o)
    tlsResolved := (o.tlsRoutes.visit b.tlsRoutes.rows).flatMap (b.materializeL4In o) }

/-- Each table has the routes of its kind in the order they were made. -/
def rebuildRoutes (b : EdgeBridge) : ResolvedRoutes where
  httpResolved := b.rebuildIngressRoutes ++ b.rebuildGatewayRoutes.filter fun r => r.kind = .http
  httpsResolved := b.rebuildGatewayRoutes.filter fun r => r.kind = .https
  grpcResolved := (b.rebuildRoutesIn {}).grpcResolved
  tlsResolved := (b.rebuildRoutesIn {}).tlsResolved

end EdgeBridge

end Ingress

end LunaEdge
