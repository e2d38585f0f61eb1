import LunaEdge.IngressEngine

/-!
# The route tables of the Kubernetes bridge of an edge

The bridge of the ingress engine keeps one table of materialised routes
for each kind of listener and answers the engines from them:
`resolveHostPath` takes the routes of a host, drops those of another kind
or whose path does not match, and keeps the best of the rest. How the
tables are rebuilt from the watched objects is not fixed here.

A route is listed under the host name its binding carries
(`MaterializedRoute.listed`), so that what a lookup for a host returns is
a binding of that host.
-/

namespace LunaEdge

namespace Ingress

inductive RoutePathKind where
  | prefixed
  | exact
deriving Repr, DecidableEq

/-- `k8sMaterializedRoute`. -/
structure MaterializedRoute where
  kind : RouteKind
  hostname : String
  path : String := "/"
  pathKind : RoutePathKind := .prefixed
  routeOrder : Nat := 0
  binding : BackendBinding
  listed : binding.hostname = hostname
deriving DecidableEq

/-! ## Paths -/

def normalizeIngressPath (path : String) : String :=
  let path := Go.trimSpace path
  if path = "" || !Go.hasPrefix path "/" then "/" else path

def k8sPathMatches (pathKind : RoutePathKind) (routePath requestPath : String) : Bool :=
  let routePath := normalizeIngressPath routePath
  let requestPath := normalizeIngressPath requestPath
  match pathKind with
  | .exact => requestPath = routePath
  | .prefixed =>
    if routePath = "/" then true
    else if requestPath = routePath then true
    else if !Go.hasPrefix requestPath routePath then false
    else Go.hasPrefix (Go.trimPrefix requestPath routePath) "/"

/-! ## Selection -/

/-- Positive where `left` is preferred. -/
def compareK8sRoutePriority (left right : MaterializedRoute) : Int :=
  if left.pathKind ≠ right.pathKind then if left.pathKind = .exact then 1 else -1
  else if Go.len left.path ≠ Go.len right.path then
    if Go.len right.path < Go.len left.path then 1 else -1
  else if left.routeOrder ≠ right.routeOrder then
    if left.routeOrder < right.routeOrder then 1 else -1
  else if left.binding.id ≠ right.binding.id then
    if right.binding.id < left.binding.id then 1 else -1
  else 0

def selectNextK8sRoute (requestPath : String) (kind : RouteKind)
    (selected : Option MaterializedRoute) (candidate : MaterializedRoute) :
    Option MaterializedRoute :=
  if candidate.kind ≠ kind then selected
  else if !k8sPathMatches candidate.pathKind candidate.path requestPath then selected
  else if selected.all fun s => 0 < compareK8sRoutePriority candidate s then some candidate
  else selected

def selectK8sRoute (routes : List MaterializedRoute) (requestPath : String)
    (kind : RouteKind) : Option MaterializedRoute :=
  routes.foldl (selectNextK8sRoute requestPath kind) none

variable {requestPath : String} {kind : RouteKind} {route : MaterializedRoute}

theorem selectNextK8sRoute_eq_some {selected : Option MaterializedRoute}
    {candidate : MaterializedRoute}
    (h : selectNextK8sRoute requestPath kind selected candidate = some route) :
    selected = some route ∨ route = candidate ∧ candidate.kind = kind
      ∧ k8sPathMatches candidate.pathKind candidate.path requestPath = true := by
  unfold selectNextK8sRoute at h
  split at h
  · exact Or.inl h
  rename_i hkind
  split at h
  · exact Or.inl h
  rename_i hpath
  split at h
  · refine Or.inr ⟨(Option.some.inj h).symm, not_not.mp hkind, ?_⟩
    simpa using hpath
  · exact Or.inl h

theorem selectK8sRoute_mem {routes : List MaterializedRoute}
    (h : selectK8sRoute routes requestPath kind = some route) :
    route ∈ routes ∧ route.kind = kind
      ∧ k8sPathMatches route.pathKind route.path requestPath = true := by
  have hfold : ∀ (rs : List MaterializedRoute) (selected : Option MaterializedRoute),
      rs.foldl (selectNextK8sRoute requestPath kind) selected = some route →
      selected = some route ∨ route ∈ rs ∧ route.kind = kind
        ∧ k8sPathMatches route.pathKind route.path requestPath = true := by
    intro rs
    induction rs with
    | nil => exact fun selected h => Or.inl h
    | cons r rs ih =>
      intro selected h
      rcases ih _ h with hsel | ⟨hmem, hr⟩
      · rcases selectNextK8sRoute_eq_some hsel with hsel | ⟨rfl, hr⟩
        · exact Or.inl hsel
        · exact Or.inr ⟨List.mem_cons_self, hr⟩
      · exact Or.inr ⟨List.mem_cons_of_mem r hmem, hr⟩
  rcases hfold _ _ h with h | h
  · cases h
  · exact h

/-! ## The tables -/

abbrev RouteTable := List MaterializedRoute

/-- The routes of a host, in the order in which they were appended. -/
def RouteTable.ofHost (table : RouteTable) (host : String) : List MaterializedRoute :=
  table.filter fun r => r.hostname = host

structure ResolvedRoutes where
  httpResolved : RouteTable := []
  httpsResolved : RouteTable := []
  grpcResolved : RouteTable := []
  tlsResolved : RouteTable := []

namespace ResolvedRoutes

/-- The table of a kind; routes of ports are not found by host. -/
def table (b : ResolvedRoutes) : RouteKind → RouteTable
  | .http => b.httpResolved
  | .https => b.httpsResolved
  | .grpc => b.grpcResolved
  | .tlsTerminate => b.tlsResolved
  | .tlsPassthrough => b.tlsResolved
  | .tcp => []
  | .udp => []

def materializedToResolved (route : MaterializedRoute) : K8sResolvedBackend :=
  { kind := route.kind, hostname := route.hostname, binding := route.binding }

def resolveHostPath (b : ResolvedRoutes) (kind : RouteKind) (host requestPath : String) :
    Option K8sResolvedBackend :=
  let host := normalizeHost host
  if host = "" then none
  else
    (selectK8sRoute ((b.table kind).ofHost host) (normalizeIngressPath requestPath) kind).map
      materializedToResolved

def resolveHTTP (b : ResolvedRoutes) (host requestPath : String) : Option K8sResolvedBackend :=
  b.resolveHostPath .http host requestPath

def resolveHTTPS (b : ResolvedRoutes) (host requestPath : String) : Option K8sResolvedBackend :=
  b.resolveHostPath .https host requestPath

def resolveTLS (b : ResolvedRoutes) (serverName : String) : Option K8sResolvedBackend :=
  b.resolveHostPath .tlsTerminate serverName "/"

def resolveTLSPassthrough (b : ResolvedRoutes) (serverName : String) :
    Option K8sResolvedBackend :=
  b.resolveHostPath .tlsPassthrough serverName "/"

def resolver (b : ResolvedRoutes) : K8sResolver where
  resolveHTTPS host requestPath := (b.resolveHTTPS host requestPath).map (·.binding)
  resolveRequest host requestPath := (b.resolveHTTP host requestPath).map (·.binding)
  resolveTLSPassthrough := b.resolveTLSPassthrough
  resolveTLS := b.resolveTLS

theorem resolver_resolve_https (b : ResolvedRoutes) (host requestPath : String) :
    b.resolver.resolve host requestPath .https
      = (b.resolveHTTPS host requestPath).map (·.binding) := by
  simp only [K8sResolver.resolve, resolver]

theorem resolver_resolve_http (b : ResolvedRoutes) (host requestPath : String) :
    b.resolver.resolve host requestPath .http
      = (b.resolveHTTP host requestPath).map (·.binding) := by
  simp only [K8sResolver.resolve, resolver]

theorem of_resolveHostPath {b : ResolvedRoutes} {host : String} {backend : K8sResolvedBackend}
    (h : b.resolveHostPath kind host requestPath = some backend) :
    ∃ r ∈ b.table kind, r.hostname = normalizeHost host ∧ backend = materializedToResolved r := by
  simp only [resolveHostPath] at h
  split at h
  · cases h
  obtain ⟨r, hr, rfl⟩ := Option.map_eq_some_iff.mp h
  obtain ⟨hmem, -, -⟩ := selectK8sRoute_mem hr
  obtain ⟨hmem, hhost⟩ := List.mem_filter.mp hmem
  exact ⟨r, hmem, of_decide_eq_true hhost, rfl⟩

theorem hostname_of_resolveHostPath {b : ResolvedRoutes} {host : String}
    {backend : K8sResolvedBackend}
    (h : b.resolveHostPath kind host requestPath = some backend) :
    backend.binding.hostname = normalizeHost host := by
  obtain ⟨r, -, hhost, rfl⟩ := of_resolveHostPath h
  exact r.listed.trans hhost

end ResolvedRoutes

end Ingress

end LunaEdge
