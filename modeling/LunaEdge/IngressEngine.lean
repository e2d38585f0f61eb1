import LunaEdge.IngressStore
import LunaEdge.Repository

/-!
# Routing at the edge

`routeByKind` of the ingress engine and the two lookups of the TLS
engine. A request is answered from the Kubernetes bridge, from the store
of bindings, or from the projection of its host, in this order; whatever
binding answers is put into the store. The TLS engine reads the bridge
and the store only.

The bridge is a parameter here, as are the two readers of projections: a
slave has the reader of its local store and no repository.
-/

namespace LunaEdge

namespace Ingress

/-! ## Results -/

/-- `Port` is never set. -/
structure ProxyTarget where
  hostname : String := ""
  upstreamURL : String := ""
  protocol : String := ""
  pathPrefix : String := ""
deriving Repr, DecidableEq

structure RouteResult where
  found : Bool
  target : ProxyTarget := {}
deriving Repr, DecidableEq

inductive RouteError where
  /-- `host is required` -/
  | hostRequired
  /-- `service binding %q has no valid upstream` -/
  | noValidUpstream (bindingID : String)
  | lookup (err : RepoError)
deriving Repr, DecidableEq

structure K8sResolvedBackend where
  kind : RouteKind
  hostname : String
  binding : BackendBinding
deriving Repr, DecidableEq

/-- What the engines ask the Kubernetes bridge. -/
structure K8sResolver where
  resolveHTTPS : String → String → Option BackendBinding
  resolveRequest : String → String → Option BackendBinding
  resolveTLSPassthrough : String → Option K8sResolvedBackend
  resolveTLS : String → Option K8sResolvedBackend

abbrev ProjectionReader := String → Except RepoError DomainEntryProjection

structure Sources where
  k8sBridge : Option K8sResolver := none
  slave : Option ProjectionReader := none
  repo : Option ProjectionReader := none

/-! ## Routes of a projection -/

def httpRouteMatches (path requestPath : String) : Bool :=
  if path = "" || path = "/" then true
  else
    let requestPath := if requestPath = "" then "/" else requestPath
    Go.hasPrefix requestPath path

/-- One turn of the loop of `selectHTTPRoute`. -/
def selectNextRoute (requestPath : String) (selected : Option HTTPRouteProjection)
    (route : HTTPRouteProjection) : Option HTTPRouteProjection :=
  if !httpRouteMatches route.path requestPath then selected
  else if selected.all fun s =>
      s.priority < route.priority
        || (route.priority = s.priority && Go.len s.path < Go.len route.path) then
    some route
  else selected

def selectHTTPRoute (routes : List HTTPRouteProjection) (requestPath : String) :
    Option HTTPRouteProjection :=
  routes.foldl (selectNextRoute requestPath) none

def normalizeProxyPathPrefix (path : String) : String :=
  let path := Go.trimSpace path
  if path = "" || !Go.hasPrefix path "/" then "/" else path

/-- The binding of a layer-7 route; plaintext and TLS requests get the same. -/
def httpBinding (entry : DomainEntryProjection) (requestPath : String)
    (upstreamProtocol : RouteKind) : Option BackendBinding := do
  let route ← selectHTTPRoute entry.httpRoutes requestPath
  let ref ← route.backendRef
  return {
    id := route.id
    hostname := entry.hostname
    namespace_ := ref.serviceNamespace
    name := ref.serviceName
    address := backendAddress ref
    port := ref.port
    protocol := upstreamProtocol
    routeVersion := 1
    path := route.path
    priority := route.priority
    backendRef := some ref }

def boundBinding (entry : DomainEntryProjection) (kind : RouteKind) : Option BackendBinding := do
  let ref ← entry.bindedBackendRef
  return {
    id := ref.id
    hostname := entry.hostname
    namespace_ := ref.serviceNamespace
    name := ref.serviceName
    address := backendAddress ref
    port := ref.port
    protocol := kind
    backendRef := some ref }

def bindingFromProjection (entry : DomainEntryProjection) (requestPath : String)
    (kind : RouteKind) : Option BackendBinding :=
  match kind with
  | .http => httpBinding entry requestPath .http
  | .https => httpBinding entry requestPath .http
  | .grpc => httpBinding entry requestPath .grpc
  | .tlsTerminate => boundBinding entry .tlsTerminate
  | .tlsPassthrough => boundBinding entry .tlsPassthrough
  | .tcp => boundBinding entry .tcp
  | .udp => boundBinding entry .udp

variable {b : BackendBinding} {entry : DomainEntryProjection}

theorem httpBinding_spec {requestPath : String} {protocol : RouteKind}
    (h : httpBinding entry requestPath protocol = some b) :
    b.hostname = entry.hostname ∧ b.protocol = protocol := by
  simp only [httpBinding, Option.bind_eq_bind, Option.bind_eq_some_iff] at h
  obtain ⟨route, -, ref, -, hb⟩ := h
  rw [← Option.some.inj hb]
  exact ⟨rfl, rfl⟩

theorem boundBinding_hostname {kind : RouteKind} (h : boundBinding entry kind = some b) :
    b.hostname = entry.hostname := by
  simp only [boundBinding, Option.bind_eq_bind, Option.bind_eq_some_iff] at h
  obtain ⟨ref, -, hb⟩ := h
  rw [← Option.some.inj hb]

theorem hostname_of_bindingFromProjection {requestPath : String} {kind : RouteKind}
    (h : bindingFromProjection entry requestPath kind = some b) : b.hostname = entry.hostname := by
  cases kind with
  | http | https | grpc => exact (httpBinding_spec h).1
  | tlsTerminate | tlsPassthrough | tcp | udp => exact boundBinding_hostname h

/-! ## Routing -/

abbrev Routed := Except RouteError RouteResult × MemoryStore

def resultFromBinding (memory : MemoryStore) (hostname : String) (binding : BackendBinding) :
    Routed :=
  let upstreamURL := binding.upstreamURL
  if upstreamURL = "" then (.error (.noValidUpstream binding.id), memory)
  else
    (.ok
      { found := true
        target :=
          { hostname := hostname
            upstreamURL := upstreamURL
            protocol := binding.protocol.text
            pathPrefix := normalizeProxyPathPrefix binding.path } },
      memory.put binding)

def resultFromProjection (memory : MemoryStore) (hostname requestPath : String)
    (kind : RouteKind) (entry : DomainEntryProjection) : Routed :=
  match bindingFromProjection entry requestPath kind with
  | none => (.ok { found := false }, memory)
  | some binding => resultFromBinding memory hostname binding

/-- The lookup in the bridge: HTTPS requests by their own table. -/
def K8sResolver.resolve (bridge : K8sResolver) (hostname requestPath : String)
    (kind : RouteKind) : Option BackendBinding :=
  match kind with
  | .https => bridge.resolveHTTPS hostname requestPath
  | _ => bridge.resolveRequest hostname requestPath

/-- The part of `routeByKind` after the bridge and the store. -/
def routeFromProjection (src : Sources) (memory : MemoryStore) (hostname requestPath : String)
    (kind : RouteKind) : Routed :=
  match src.slave, src.repo with
  | some read, _ =>
    match read hostname with
    | .ok entry => resultFromProjection memory hostname requestPath kind entry
    | .error err => (.error (.lookup err), memory)
  | none, some read =>
    match read hostname with
    | .ok entry => resultFromProjection memory hostname requestPath kind entry
    | .error _ => (.ok { found := false }, memory)
  | none, none => (.ok { found := false }, memory)

def routeByKind (src : Sources) (memory : MemoryStore) (host requestPath : String)
    (kind : RouteKind) : Routed :=
  let hostname := normalizeHost host
  if hostname = "" then (.error .hostRequired, memory)
  else
    match src.k8sBridge.bind fun bridge => bridge.resolve hostname requestPath kind with
    | some binding => resultFromBinding memory hostname binding
    | none =>
      match memory.get hostname requestPath with
      | some binding => resultFromBinding memory hostname binding
      | none => routeFromProjection src memory hostname requestPath kind

/-! ## The lookups of the TLS engine -/

def resolveMemoryBackend (memory : MemoryStore) (serverName : String) (kind : RouteKind) :
    Option K8sResolvedBackend :=
  (memory.getByProtocol serverName "/" [kind]).map fun binding =>
    { kind := kind, hostname := normalizeHost serverName, binding := binding }

def resolveTLSPassthroughBackend (src : Sources) (memory : MemoryStore) (serverName : String) :
    Option K8sResolvedBackend :=
  match src.k8sBridge.bind fun bridge => bridge.resolveTLSPassthrough serverName with
  | some backend => some backend
  | none => resolveMemoryBackend memory serverName .tlsPassthrough

def resolveTLSRouteBackend (src : Sources) (memory : MemoryStore) (serverName : String) :
    Option K8sResolvedBackend :=
  match src.k8sBridge.bind fun bridge => bridge.resolveTLS serverName with
  | some backend => some backend
  | none => resolveMemoryBackend memory serverName .tlsTerminate

/-! ## Without a bridge -/

def Sources.ofSlave (read : ProjectionReader) : Sources := { slave := some read }

variable {read : ProjectionReader} {memory : MemoryStore} {host requestPath : String}
  {kind : RouteKind}

theorem resultFromBinding_fst (memory' : MemoryStore) (hostname : String)
    (binding : BackendBinding) :
    (resultFromBinding memory hostname binding).1
      = (resultFromBinding memory' hostname binding).1 := by
  rw [resultFromBinding, resultFromBinding]
  split <;> rfl

theorem routeByKind_noHost (hhost : normalizeHost host = "") :
    routeByKind (.ofSlave read) memory host requestPath kind = (.error .hostRequired, memory) := by
  rw [routeByKind, if_pos hhost]

theorem routeByKind_hit {binding : BackendBinding} (hhost : normalizeHost host ≠ "")
    (hget : memory.get (normalizeHost host) requestPath = some binding) :
    routeByKind (.ofSlave read) memory host requestPath kind
      = resultFromBinding memory (normalizeHost host) binding := by
  rw [routeByKind, if_neg hhost]
  simp only [Sources.ofSlave, Option.bind_none, hget]

theorem routeByKind_miss (hhost : normalizeHost host ≠ "")
    (hget : memory.get (normalizeHost host) requestPath = none) :
    routeByKind (.ofSlave read) memory host requestPath kind
      = routeFromProjection (.ofSlave read) memory (normalizeHost host) requestPath kind := by
  rw [routeByKind, if_neg hhost]
  simp only [Sources.ofSlave, Option.bind_none, hget]

theorem resultFromBinding_memory (hostname : String) (binding : BackendBinding) :
    (resultFromBinding memory hostname binding).2 = memory
      ∨ (binding.upstreamURL ≠ ""
        ∧ (resultFromBinding memory hostname binding).2 = memory.put binding) := by
  unfold resultFromBinding
  dsimp only
  split
  · exact Or.inl rfl
  · exact Or.inr ⟨by assumption, rfl⟩

/-- A request puts nothing into the store, or one binding with an upstream:
one that was there already for the host, or one of the projection of the
host. -/
theorem routeByKind_memory (read : ProjectionReader) (memory : MemoryStore)
    (host requestPath : String) (kind : RouteKind) :
    (routeByKind (.ofSlave read) memory host requestPath kind).2 = memory
      ∨ ∃ binding,
        (routeByKind (.ofSlave read) memory host requestPath kind).2 = memory.put binding
        ∧ binding.upstreamURL ≠ ""
        ∧ (binding ∈ memory.ofHost (normalizeHost host)
          ∨ ∃ entry, read (normalizeHost host) = .ok entry
            ∧ bindingFromProjection entry requestPath kind = some binding) := by
  by_cases hhost : normalizeHost host = ""
  · rw [routeByKind_noHost hhost]
    exact Or.inl rfl
  cases hget : memory.get (normalizeHost host) requestPath with
  | some binding =>
    have hmem := (MemoryStore.selectLocked_mem hget).1
    rw [normalizeHost_idem] at hmem
    rw [routeByKind_hit hhost hget]
    exact (resultFromBinding_memory _ binding).imp_right fun ⟨hurl, h⟩ =>
      ⟨binding, h, hurl, Or.inl hmem⟩
  | none =>
    rw [routeByKind_miss hhost hget]
    simp only [routeFromProjection, Sources.ofSlave]
    cases hread : read (normalizeHost host) with
    | error err => exact Or.inl rfl
    | ok entry =>
      dsimp only
      rw [resultFromProjection]
      cases hb : bindingFromProjection entry requestPath kind with
      | none => exact Or.inl rfl
      | some binding =>
        exact (resultFromBinding_memory _ binding).imp_right fun ⟨hurl, h⟩ =>
          ⟨binding, h, hurl, Or.inr ⟨entry, rfl, hb⟩⟩

end Ingress

end LunaEdge
