import LunaEdge.K8sRoutes
import LunaEdge.LocalStore
import LunaEdge.Runs

/-!
# Plaintext requests and the routes of the HTTPS listener

The two listeners of the ingress engine share one handler and one store
of bindings. The handler asks the HTTPS table when the request carries
`X-Forwarded-Proto: https`, which the TLS listener sets and a plaintext
client may send as well; and the store answers a plaintext request with a
binding that a TLS request has left there, as its `Get` does not look at
the kind. So a plaintext request can reach a backend that no HTTP route
has.

It does not as long as no plaintext request takes the HTTPS table, and
every binding taken from it by a TLS request is one of an HTTP route too
(`Isolating`).
-/

namespace LunaEdge

open Runs

namespace Ingress

/-! ## Where a route comes from -/

section Routes

/-- The binding a request of the host `hostname` is answered with. -/
inductive Sources.Offers (src : Sources) (memory : MemoryStore) (hostname requestPath : String)
    (kind : RouteKind) (b : BackendBinding) : Prop where
  | bridge {bridge : K8sResolver} (hbridge : src.k8sBridge = some bridge)
      (h : bridge.resolve hostname requestPath kind = some b)
  | stored (h : b ∈ memory.ofHost hostname)
  | replica {read : ProjectionReader} {entry : DomainEntryProjection}
      (hslave : src.slave = some read) (hread : read hostname = .ok entry)
      (h : bindingFromProjection entry requestPath kind = some b)
  | repository {read : ProjectionReader} {entry : DomainEntryProjection}
      (hrepo : src.repo = some read) (hread : read hostname = .ok entry)
      (h : bindingFromProjection entry requestPath kind = some b)

inductive Sources.RoutesTo (src : Sources) (memory : MemoryStore) (hostname requestPath : String)
    (kind : RouteKind) : Routed → Prop where
  | offered {b : BackendBinding} (h : src.Offers memory hostname requestPath kind b) :
      RoutesTo src memory hostname requestPath kind (resultFromBinding memory hostname b)
  | missing : RoutesTo src memory hostname requestPath kind (.ok { found := false }, memory)
  | failed {read : ProjectionReader} {err : RepoError} (hslave : src.slave = some read)
      (hread : read hostname = .error err)
      (hbridge : (src.k8sBridge.bind fun bridge =>
        bridge.resolve hostname requestPath kind) = none) :
      RoutesTo src memory hostname requestPath kind (.error (.lookup err), memory)

variable {src : Sources} {memory : MemoryStore} {host hostname requestPath : String}
  {kind : RouteKind}

theorem routesTo_routeFromProjection
    (hbridge : (src.k8sBridge.bind fun bridge =>
      bridge.resolve hostname requestPath kind) = none) :
    src.RoutesTo memory hostname requestPath kind
      (routeFromProjection src memory hostname requestPath kind) := by
  -- a projection of the host gives a binding or none
  have hproj : ∀ entry : DomainEntryProjection,
      (∀ b, bindingFromProjection entry requestPath kind = some b →
        src.Offers memory hostname requestPath kind b) →
      src.RoutesTo memory hostname requestPath kind
        (resultFromProjection memory hostname requestPath kind entry) := by
    intro entry hoff
    unfold resultFromProjection
    cases hb : bindingFromProjection entry requestPath kind with
    | none => exact .missing
    | some b => exact .offered (hoff b hb)
  unfold routeFromProjection
  cases hslave : src.slave with
  | some read =>
    cases hread : read hostname with
    | ok entry => simpa only [hread] using hproj entry fun b hb => .replica hslave hread hb
    | error err => simpa only [hread] using .failed hslave hread hbridge
  | none =>
    cases hrepo : src.repo with
    | none => exact .missing
    | some read =>
      cases hread : read hostname with
      | ok entry =>
        simpa only [hread] using hproj entry fun b hb => .repository hrepo hread hb
      | error err => simpa only [hread] using .missing

theorem routesTo_routeByKind (hhost : normalizeHost host ≠ "") :
    src.RoutesTo memory (normalizeHost host) requestPath kind
      (routeByKind src memory host requestPath kind) := by
  simp only [routeByKind, if_neg hhost]
  cases hb : src.k8sBridge.bind
      fun bridge => bridge.resolve (normalizeHost host) requestPath kind with
  | some b =>
    obtain ⟨bridge, hbridge, hres⟩ := Option.bind_eq_some_iff.mp hb
    exact .offered (.bridge hbridge hres)
  | none =>
    cases hget : memory.get (normalizeHost host) requestPath with
    | some b =>
      obtain ⟨hmem, -⟩ := MemoryStore.selectLocked_mem hget
      rw [normalizeHost_idem] at hmem
      exact .offered (.stored hmem)
    | none => exact routesTo_routeFromProjection hb

end Routes

/-! ## The listeners -/

def acmeHTTP01Prefix : String := "/.well-known/acme-challenge/"

/-- An ingress engine with a Kubernetes bridge, between two changes of its
tables. `urlParses` says which texts `url.Parse` accepts. -/
structure Engine where
  masterHTTP01ProxyURL : String := ""
  bridge : ResolvedRoutes
  slave : Option LocalDB := none
  repo : Option Repo := none
  urlParses : String → Bool

structure HTTPRequest where
  host : String
  path : String
  rawPath : String := ""
  forwardedProto : String := ""
deriving Repr, DecidableEq

inductive Answer where
  | notFound
  /-- `http.Error` with `StatusInternalServerError`. -/
  | serverError
  /-- The master's HTTP-01 responder gets the request. -/
  | acmeProxied
  /-- The upstream gets the request with this path and raw path. -/
  | proxied (target : ProxyTarget) (path rawPath : String)
deriving Repr, DecidableEq

def HTTPRequest.hostname (req : HTTPRequest) : String := normalizeHost req.host

def HTTPRequest.kind (req : HTTPRequest) : RouteKind :=
  if Go.equalFold req.forwardedProto "https" then .https else .http

def HTTPRequest.withoutProto (req : HTTPRequest) : HTTPRequest := { req with forwardedProto := "" }

theorem HTTPRequest.kind_withoutProto (req : HTTPRequest) : req.withoutProto.kind = .http := by
  have h : Go.equalFold "" "https" = false := by decide +kernel
  simp only [kind, withoutProto, h, Bool.false_eq_true, if_false]

theorem HTTPRequest.kind_cases (req : HTTPRequest) : req.kind = .https ∨ req.kind = .http := by
  unfold HTTPRequest.kind
  split
  · exact Or.inl rfl
  · exact Or.inr rfl

theorem HTTPRequest.routeByKind_noHost {src : Sources} {memory : MemoryStore}
    (req : HTTPRequest) (h : req.hostname = "") :
    routeByKind src memory req.host req.path req.kind = (.error .hostRequired, memory) := by
  rw [HTTPRequest.hostname] at h
  rw [routeByKind, if_pos h]

theorem HTTPRequest.routesTo (req : HTTPRequest) (src : Sources) (memory : MemoryStore)
    (h : req.hostname ≠ "") :
    src.RoutesTo memory req.hostname req.path req.kind
      (routeByKind src memory req.host req.path req.kind) := by
  rw [HTTPRequest.hostname] at h ⊢
  exact routesTo_routeByKind h

def trimMatchedPrefix (pre path : String) : String :=
  if path = "" then "/"
  else if pre = "/" || pre = "" then path
  else
    let trimmed := Go.trimPrefix path pre
    if trimmed = "" then "/"
    else if !Go.hasPrefix trimmed "/" then "/" ++ trimmed
    else trimmed

def rewriteUpstreamPath (pre requestPath rawPath : String) : String × String :=
  let pre := normalizeProxyPathPrefix pre
  let requestPath := if requestPath = "" then "/" else requestPath
  (trimMatchedPrefix pre requestPath,
    if rawPath = "" then rawPath else trimMatchedPrefix pre rawPath)

namespace Engine

def sources (e : Engine) : Sources where
  k8sBridge := some e.bridge.resolver
  slave := e.slave.map fun db => db.getDomainEntryByHostname
  repo := e.repo.map fun repo => repo.getDomainEntryProjectionByDomain

/-- Requests of the ACME path go to the master if its URL is set. -/
def handsToMaster (e : Engine) (path : String) : Bool :=
  Go.hasPrefix path acmeHTTP01Prefix && Go.trimSpace e.masterHTTP01ProxyURL ≠ ""

def serveACMEHTTP01Proxy (e : Engine) : Answer :=
  if e.urlParses (Go.trimRight e.masterHTTP01ProxyURL "/") then .acmeProxied else .serverError

/-- The part of `serveHTTP` after the routing. -/
def proxy (e : Engine) (req : HTTPRequest) : Except RouteError RouteResult → Answer
  | .error _ => .serverError
  | .ok result =>
    if !result.found then .notFound
    else if !e.urlParses result.target.upstreamURL then .serverError
    else
      let (path, rawPath) := rewriteUpstreamPath result.target.pathPrefix req.path req.rawPath
      .proxied result.target path rawPath

def serveHTTP (e : Engine) (memory : MemoryStore) (req : HTTPRequest) : Answer × MemoryStore :=
  if e.handsToMaster req.path then (e.serveACMEHTTP01Proxy, memory)
  else
    let routed := routeByKind e.sources memory req.host req.path req.kind
    (e.proxy req routed.1, routed.2)

end Engine

/-- The store of bindings, and the server name of every TLS connection
that was terminated and handed to the HTTP handler. -/
structure Listeners where
  memory : MemoryStore := .new
  conns : List String := []

inductive EdgeEvent where
  | http (req : HTTPRequest)
  /-- A new TLS connection: the server name of its hello, if that can be
  parsed, and whether the handshake succeeds. -/
  | tlsConn (serverName : Option String) (handshake : Bool)
  | tlsRequest (conn : Nat) (path rawPath : String)

namespace Engine

def serveConn (e : Engine) (s : Listeners) (serverName : Option String) (handshake : Bool) :
    Listeners :=
  match serverName with
  | none => s
  | some name =>
    let serverName := normalizeHost name
    if serverName = "" then s
    else if (resolveTLSPassthroughBackend e.sources s.memory serverName).isSome then s
    else if !handshake then s
    else if (resolveTLSRouteBackend e.sources s.memory serverName).isSome then s
    else { s with conns := s.conns ++ [serverName] }

/-- The request as the handler of a terminated connection passes it on. -/
def tlsRequest (serverName path rawPath : String) : HTTPRequest :=
  { host := serverName, path := path, rawPath := rawPath, forwardedProto := "https" }

def step (e : Engine) (s : Listeners) : EdgeEvent → Listeners
  | .http req => { s with memory := (e.serveHTTP s.memory req).2 }
  | .tlsConn serverName handshake => e.serveConn s serverName handshake
  | .tlsRequest conn path rawPath =>
    match s.conns[conn]? with
    | none => s
    | some serverName =>
      { s with memory := (e.serveHTTP s.memory (tlsRequest serverName path rawPath)).2 }

def run (e : Engine) (evs : List EdgeEvent) : Listeners := evs.foldl e.step {}

variable {e : Engine} {memory : MemoryStore}

variable {req : HTTPRequest} {b : BackendBinding} {s : Listeners}

theorem serveHTTP_master (h : e.handsToMaster req.path = true) :
    e.serveHTTP memory req = (e.serveACMEHTTP01Proxy, memory) := by
  rw [serveHTTP, if_pos h]

theorem serveHTTP_routed (h : e.handsToMaster req.path = false) :
    e.serveHTTP memory req
      = (e.proxy req (routeByKind e.sources memory req.host req.path req.kind).1,
        (routeByKind e.sources memory req.host req.path req.kind).2) := by
  rw [serveHTTP, if_neg (Bool.eq_false_iff.mp h)]

/-! ## Isolation -/

/-- Neither the replica nor the repository has a projection of the host. -/
def NoProjection (e : Engine) (hostname : String) : Prop :=
  (∀ db ∈ e.slave, ∀ entry, db.getDomainEntryByHostname hostname ≠ .ok entry)
    ∧ ∀ repo ∈ e.repo, ∀ entry, repo.getDomainEntryProjectionByDomain hostname ≠ .ok entry

/-- The upstream of a route that `ResolveHTTP` returns for some path of
the host. -/
def OfHTTPRoute (e : Engine) (hostname upstreamURL : String) : Prop :=
  ∃ path backend, e.bridge.resolveHTTP hostname path = some backend
    ∧ backend.binding.upstreamURL = upstreamURL

/-- The condition on an event. A plaintext request takes the HTTPS table
only where both tables have the same binding. A request on a TLS
connection takes a binding from the HTTPS table only if its upstream is
one of an HTTP route as well; a binding without an upstream is not
stored. -/
def Isolating (e : Engine) (s : Listeners) : EdgeEvent → Prop
  | .http req =>
    e.NoProjection req.hostname → req.kind = .https →
      (e.bridge.resolveHTTPS req.hostname req.path).map (·.binding)
        = (e.bridge.resolveHTTP req.hostname req.path).map (·.binding)
  | .tlsConn _ _ => True
  | .tlsRequest conn path _ =>
    ∀ serverName ∈ s.conns[conn]?, e.NoProjection (normalizeHost serverName) →
      ∀ backend ∈ e.bridge.resolveHTTPS (normalizeHost serverName) path,
        backend.binding.upstreamURL = ""
          ∨ e.OfHTTPRoute (normalizeHost serverName) backend.binding.upstreamURL

/-- Every binding is stored under its own host, and for a host without a
projection it has the upstream of an HTTP route. -/
def Isolated (e : Engine) (memory : MemoryStore) : Prop :=
  ∀ hostname, ∀ b ∈ memory.ofHost hostname, normalizeHost b.hostname = hostname
    ∧ (e.NoProjection hostname → e.OfHTTPRoute hostname b.upstreamURL)

/-- What the bridge has for the request, if anything, has the upstream of
an HTTP route or none. -/
def Covered (e : Engine) (req : HTTPRequest) : Prop :=
  e.NoProjection req.hostname →
    ∀ b ∈ e.bridge.resolver.resolve req.hostname req.path req.kind,
      b.upstreamURL = "" ∨ e.OfHTTPRoute req.hostname b.upstreamURL

theorem isolated_new : e.Isolated .new := fun _ _ hb => absurd hb List.not_mem_nil

theorem resolve_eq_some (h : e.bridge.resolver.resolve req.hostname req.path req.kind = some b) :
    ∃ backend : K8sResolvedBackend, backend.binding = b
      ∧ (req.kind = .https ∧ e.bridge.resolveHTTPS req.hostname req.path = some backend
        ∨ req.kind = .http ∧ e.bridge.resolveHTTP req.hostname req.path = some backend) := by
  rcases req.kind_cases with hk | hk
  · rw [hk, ResolvedRoutes.resolver_resolve_https] at h
    obtain ⟨backend, hres, hb⟩ := Option.map_eq_some_iff.mp h
    exact ⟨backend, hb, Or.inl ⟨hk, hres⟩⟩
  · rw [hk, ResolvedRoutes.resolver_resolve_http] at h
    obtain ⟨backend, hres, hb⟩ := Option.map_eq_some_iff.mp h
    exact ⟨backend, hb, Or.inr ⟨hk, hres⟩⟩

theorem hostname_of_resolve (h : e.bridge.resolver.resolve req.hostname req.path req.kind = some b) :
    normalizeHost b.hostname = req.hostname := by
  have hidem : normalizeHost req.hostname = req.hostname := normalizeHost_idem req.host
  obtain ⟨backend, rfl, ⟨-, hres⟩ | ⟨-, hres⟩⟩ := resolve_eq_some h
  · rw [ResolvedRoutes.hostname_of_resolveHostPath hres, hidem, hidem]
  · rw [ResolvedRoutes.hostname_of_resolveHostPath hres, hidem, hidem]

/-- Whatever answers a request is a binding of its host; for a host
without a projection it comes from the bridge or has the upstream of an
HTTP route. -/
theorem Isolated.offers (hm : e.Isolated memory)
    (h : e.sources.Offers memory req.hostname req.path req.kind b) :
    normalizeHost b.hostname = req.hostname
      ∧ (e.NoProjection req.hostname →
        e.bridge.resolver.resolve req.hostname req.path req.kind = some b
          ∨ e.OfHTTPRoute req.hostname b.upstreamURL) := by
  cases h with
  | bridge hbridge h =>
    obtain rfl := Option.some.inj hbridge
    exact ⟨hostname_of_resolve h, fun _ => Or.inl h⟩
  | stored h =>
    obtain ⟨hhost, hroute⟩ := hm _ b h
    exact ⟨hhost, fun hno => Or.inr (hroute hno)⟩
  | replica hslave hread h =>
    obtain ⟨db, hdb, rfl⟩ := Option.map_eq_some_iff.mp hslave
    refine ⟨?_, fun hno => absurd hread (hno.1 db hdb _)⟩
    rw [hostname_of_bindingFromProjection h, LocalDB.hostname_of_getDomainEntryByHostname hread,
      HTTPRequest.hostname, normalizeHost_idem]
  | repository hrepo hread h =>
    obtain ⟨repo, hr, rfl⟩ := Option.map_eq_some_iff.mp hrepo
    refine ⟨?_, fun hno => absurd hread (hno.2 repo hr _)⟩
    rw [hostname_of_bindingFromProjection h,
      (Repo.getDomainEntryProjectionByDomain_ok hread).1, HTTPRequest.hostname,
      normalizeHost_idem]

theorem Isolated.put {hostname : String} (hm : e.Isolated memory)
    (hhost : normalizeHost b.hostname = hostname)
    (hroute : e.NoProjection hostname → e.OfHTTPRoute hostname b.upstreamURL) :
    e.Isolated (memory.put b) := by
  intro g b' hb'
  rcases MemoryStore.mem_ofHost_put hb' with hold | ⟨rfl, rfl⟩
  · exact hm g b' hold
  · rw [hhost]
    exact ⟨rfl, hroute⟩

theorem Isolated.serveHTTP (hm : e.Isolated memory) (hreq : e.Covered req) :
    e.Isolated (e.serveHTTP memory req).2 := by
  by_cases hmaster : e.handsToMaster req.path = true
  · rw [serveHTTP_master hmaster]
    exact hm
  rw [serveHTTP_routed (Bool.eq_false_iff.mpr hmaster)]
  dsimp only
  by_cases hhost : req.hostname = ""
  · rw [req.routeByKind_noHost hhost]
    exact hm
  have hroute := req.routesTo e.sources memory hhost
  generalize routeByKind e.sources memory req.host req.path req.kind = routed at hroute
  cases hroute with
  | missing => exact hm
  | failed => exact hm
  | offered h =>
    obtain ⟨hhost, hfrom⟩ := hm.offers h
    rcases resultFromBinding_memory req.hostname _ with heq | ⟨hne, heq⟩
    · rw [heq]
      exact hm
    · rw [heq]
      refine hm.put hhost fun hno => ?_
      rcases hfrom hno with hbridge | hroute
      · exact (hreq hno _ hbridge).resolve_left hne
      · exact hroute

theorem resolve_http (h : e.Isolating s (.http req)) (hno : e.NoProjection req.hostname) :
    e.bridge.resolver.resolve req.hostname req.path req.kind
      = (e.bridge.resolveHTTP req.hostname req.path).map (·.binding) := by
  rcases req.kind_cases with hk | hk
  · rw [hk, ResolvedRoutes.resolver_resolve_https]
    exact h hno hk
  · rw [hk, ResolvedRoutes.resolver_resolve_http]

theorem ofHTTPRoute_of_resolve (h : e.Isolating s (.http req)) (hno : e.NoProjection req.hostname)
    (hb : e.bridge.resolver.resolve req.hostname req.path req.kind = some b) :
    e.OfHTTPRoute req.hostname b.upstreamURL := by
  rw [resolve_http h hno] at hb
  obtain ⟨backend, hres, rfl⟩ := Option.map_eq_some_iff.mp hb
  exact ⟨req.path, backend, hres, rfl⟩

theorem covered_http (h : e.Isolating s (.http req)) : e.Covered req :=
  fun hno _ hb => Or.inr (ofHTTPRoute_of_resolve h hno hb)

theorem covered_tlsRequest {conn : Nat} {serverName path rawPath : String}
    (h : e.Isolating s (.tlsRequest conn path rawPath)) (hconn : s.conns[conn]? = some serverName) :
    e.Covered (tlsRequest serverName path rawPath) := by
  intro hno b hb
  have hhost : (tlsRequest serverName path rawPath).hostname = normalizeHost serverName := rfl
  rw [hhost] at hno ⊢
  obtain ⟨backend, rfl, ⟨-, hres⟩ | ⟨-, hres⟩⟩ := resolve_eq_some hb
  · rw [hhost] at hres
    exact h serverName hconn hno backend hres
  · rw [hhost] at hres
    exact Or.inr ⟨path, backend, hres, rfl⟩

theorem serveConn_memory (s : Listeners) (serverName : Option String) (handshake : Bool) :
    (e.serveConn s serverName handshake).memory = s.memory := by
  cases serverName with
  | none => rfl
  | some name =>
    simp only [serveConn]
    split_ifs <;> rfl

theorem Isolated.step (s : Listeners) (ev : EdgeEvent) (hs : e.Isolated s.memory)
    (h : e.Isolating s ev) : e.Isolated (e.step s ev).memory := by
  cases ev with
  | http req => exact hs.serveHTTP (covered_http h)
  | tlsConn serverName handshake =>
    show e.Isolated (e.serveConn s serverName handshake).memory
    rw [serveConn_memory]
    exact hs
  | tlsRequest conn path rawPath =>
    cases hconn : s.conns[conn]? with
    | none =>
      simp only [Engine.step, hconn]
      exact hs
    | some serverName =>
      simp only [Engine.step, hconn]
      exact hs.serveHTTP (covered_tlsRequest h hconn)

/-! ## The header -/

/-- Without a projection the kind of a request matters in the bridge only. -/
theorem routeFromProjection_congr {hostname : String} (hno : e.NoProjection hostname)
    (path : String) (kind kind' : RouteKind) :
    routeFromProjection e.sources memory hostname path kind
      = routeFromProjection e.sources memory hostname path kind' := by
  obtain ⟨hslave, hrepo⟩ := hno
  simp only [routeFromProjection, sources]
  cases hs : e.slave with
  | some db =>
    cases hread : db.getDomainEntryByHostname hostname with
    | ok entry => exact absurd hread (hslave db hs entry)
    | error err => simp only [Option.map_some, hread]
  | none =>
    cases hr : e.repo with
    | none => rfl
    | some repo =>
      cases hread : repo.getDomainEntryProjectionByDomain hostname with
      | ok entry => exact absurd hread (hrepo repo hr entry)
      | error err => simp only [Option.map_some, Option.map_none, hread]

theorem routeByKind_congr (memory : MemoryStore) {host path : String} {kind kind' : RouteKind}
    (hno : e.NoProjection (normalizeHost host))
    (hres : e.bridge.resolver.resolve (normalizeHost host) path kind
      = e.bridge.resolver.resolve (normalizeHost host) path kind') :
    routeByKind e.sources memory host path kind = routeByKind e.sources memory host path kind' := by
  have hbind : ∀ k, (e.sources.k8sBridge.bind
      fun bridge => bridge.resolve (normalizeHost host) path k)
        = e.bridge.resolver.resolve (normalizeHost host) path k := by
    intro k
    simp only [sources, Option.bind_some]
  simp only [routeByKind, hbind, hres, routeFromProjection_congr hno path kind kind']

theorem serveHTTP_withoutProto (hno : e.NoProjection req.hostname) (h : e.Isolating s (.http req)) :
    (e.serveHTTP memory req).1 = (e.serveHTTP memory req.withoutProto).1 := by
  have hres : e.bridge.resolver.resolve req.hostname req.path req.kind
      = e.bridge.resolver.resolve req.hostname req.path req.withoutProto.kind := by
    rw [resolve_http h hno, req.kind_withoutProto, ResolvedRoutes.resolver_resolve_http]
  have hroute := routeByKind_congr memory hno hres
  have hproxy : e.proxy req.withoutProto = e.proxy req := by
    funext result
    cases result with
    | error err => rfl
    | ok result => simp only [proxy, HTTPRequest.withoutProto]
  have hhost : req.withoutProto.host = req.host := rfl
  have hpath : req.withoutProto.path = req.path := rfl
  simp only [serveHTTP, hproxy, hhost, hpath, hroute]

/-! ## Plaintext requests -/

/-- Requests that are neither handed to the master nor refused: they name
a host, their path is not the master's, the replica is not asked for a
host it does not have, and the HTTP routes of the host have upstreams
that parse. -/
structure Plain (e : Engine) (req : HTTPRequest) : Prop where
  host : req.hostname ≠ ""
  path : e.handsToMaster req.path = false
  replica : e.slave = none ∨ (e.bridge.resolveHTTP req.hostname req.path).isSome = true
  upstream : ∀ url, e.OfHTTPRoute req.hostname url → url ≠ "" ∧ e.urlParses url = true

@[simp] theorem proxy_error (req : HTTPRequest) (err : RouteError) :
    e.proxy req (.error err) = .serverError := rfl

@[simp] theorem proxy_missing (req : HTTPRequest) :
    e.proxy req (.ok { found := false }) = .notFound := by
  simp only [proxy, Bool.not_false, if_true]

theorem proxy_found (req : HTTPRequest) {target : ProxyTarget}
    (h : e.urlParses target.upstreamURL = true) :
    e.proxy req (.ok { found := true, target := target })
      = .proxied target (rewriteUpstreamPath target.pathPrefix req.path req.rawPath).1
        (rewriteUpstreamPath target.pathPrefix req.path req.rawPath).2 := by
  simp only [proxy, Bool.not_true, Bool.false_eq_true, if_false, h]

theorem proxy_resultFromBinding (e : Engine) (memory : MemoryStore) (req : HTTPRequest)
    (hostname : String) (b : BackendBinding) :
    (e.proxy req (resultFromBinding memory hostname b).1 = .serverError
        ∧ (b.upstreamURL = "" ∨ e.urlParses b.upstreamURL = false))
      ∨ b.upstreamURL ≠ "" ∧ ∃ target path rawPath,
        e.proxy req (resultFromBinding memory hostname b).1 = .proxied target path rawPath
          ∧ target.upstreamURL = b.upstreamURL := by
  unfold resultFromBinding
  generalize b.upstreamURL = url
  dsimp only
  split
  · rename_i hempty
    exact Or.inl ⟨rfl, Or.inl hempty⟩
  · rename_i hne
    by_cases hparse : e.urlParses url = true
    · exact Or.inr ⟨hne, _, _, _, proxy_found req hparse, rfl⟩
    · refine Or.inl ⟨?_, Or.inr (Bool.eq_false_iff.mpr hparse)⟩
      simp [proxy, hparse]

/-- The answers an isolated store allows. -/
inductive Answers (e : Engine) (req : HTTPRequest) : Answer → Prop where
  | notFound : Answers e req .notFound
  | proxied {target : ProxyTarget} {path rawPath : String}
      (h : e.OfHTTPRoute req.hostname target.upstreamURL) :
      Answers e req (.proxied target path rawPath)
  | refused {a : Answer} (ha : a = .serverError ∨ a = .acmeProxied) (h : ¬ e.Plain req) :
      Answers e req a

theorem answers_offered (hm : e.Isolated memory) (h : e.Isolating s (.http req))
    (hno : e.NoProjection req.hostname)
    (hb : e.sources.Offers memory req.hostname req.path req.kind b) :
    e.Answers req (e.proxy req (resultFromBinding memory req.hostname b).1) := by
  have hroute : e.OfHTTPRoute req.hostname b.upstreamURL := by
    rcases (hm.offers hb).2 hno with hbridge | hroute
    · exact ofHTTPRoute_of_resolve h hno hbridge
    · exact hroute
  rcases e.proxy_resultFromBinding memory req req.hostname b with
    ⟨heq, hbad⟩ | ⟨-, target, path, rawPath, heq, htarget⟩
  · rw [heq]
    refine .refused (Or.inl rfl) fun hplain => ?_
    obtain ⟨hne, hparse⟩ := hplain.upstream _ hroute
    rcases hbad with hempty | hbad
    · exact hne hempty
    · exact Bool.eq_false_iff.mp hbad hparse
  · rw [heq]
    exact .proxied (htarget ▸ hroute)

theorem answers_serveHTTP (hm : e.Isolated memory) (h : e.Isolating s (.http req))
    (hno : e.NoProjection req.hostname) : e.Answers req (e.serveHTTP memory req).1 := by
  by_cases hmaster : e.handsToMaster req.path = true
  · rw [serveHTTP_master hmaster]
    refine .refused ?_ fun hplain => Bool.eq_false_iff.mp hplain.path hmaster
    unfold serveACMEHTTP01Proxy
    split
    · exact Or.inr rfl
    · exact Or.inl rfl
  rw [serveHTTP_routed (Bool.eq_false_iff.mpr hmaster)]
  dsimp only
  by_cases hhost : req.hostname = ""
  · rw [req.routeByKind_noHost hhost, proxy_error]
    exact .refused (Or.inl rfl) fun hplain => hplain.host hhost
  have hroute := req.routesTo e.sources memory hhost
  generalize routeByKind e.sources memory req.host req.path req.kind = routed at hroute
  cases hroute with
  | missing =>
    rw [proxy_missing]
    exact .notFound
  | offered hb => exact answers_offered hm h hno hb
  | failed hslave hread hbridge =>
    rw [proxy_error]
    refine .refused (Or.inl rfl) fun hplain => ?_
    have hnone : e.bridge.resolver.resolve req.hostname req.path req.kind = none := by
      simpa only [sources, Option.bind_some] using hbridge
    rw [resolve_http h hno, Option.map_eq_none_iff] at hnone
    rcases hplain.replica with hempty | hsome
    · simp [sources, hempty] at hslave
    · rw [hnone] at hsome
      cases hsome

/-- In a run of requests on both listeners in which every step is
isolating, a plaintext request for a host without a projection is proxied
to the upstream of an HTTP route or not at all, and answered as without
the header; and unless it is handed to the master or refused it is
proxied or not found. -/
theorem plaintext_isolated (e : Engine) (evs : List EdgeEvent) (req : HTTPRequest)
    (hrun : Along e.step e.Isolating {} (evs ++ [.http req]))
    (hno : e.NoProjection req.hostname) :
    (∀ target path rawPath,
        (e.serveHTTP (e.run evs).memory req).1 = .proxied target path rawPath →
        e.OfHTTPRoute req.hostname target.upstreamURL)
      ∧ (e.serveHTTP (e.run evs).memory req).1 = (e.serveHTTP (e.run evs).memory req.withoutProto).1
      ∧ (e.Plain req →
        (e.serveHTTP (e.run evs).memory req).1 = .notFound ∨ ∃ target path rawPath,
            (e.serveHTTP (e.run evs).memory req).1 = .proxied target path rawPath) := by
  obtain ⟨hevs, hreq, -⟩ := along_append.mp hrun
  have hm : e.Isolated (e.run evs).memory :=
    hevs.invariant (I := fun s => e.Isolated s.memory) Isolated.step isolated_new
  have hans := answers_serveHTTP hm hreq hno
  refine ⟨?_, serveHTTP_withoutProto hno hreq, ?_⟩
  · intro target path rawPath heq
    rw [heq] at hans
    cases hans with
    | proxied h => exact h
    | refused ha h =>
      rcases ha with ha | ha
      · cases ha
      · cases ha
  · intro hplain
    generalize (e.serveHTTP (e.run evs).memory req).1 = answer at hans
    cases hans with
    | notFound => exact Or.inl rfl
    | proxied h => exact Or.inr ⟨_, _, _, rfl⟩
    | refused ha h => exact absurd hplain h

def exampleRoute (kind : RouteKind) : MaterializedRoute where
  kind := kind
  hostname := "a.example"
  binding :=
    { id := "k8s:route:ns:r:svc:0", hostname := "a.example", address := "svc.ns.svc.cluster.local"
      port := 80, protocol := .http, routeVersion := 1 }
  listed := rfl

def exampleTraffic : List EdgeEvent := [.tlsConn (some "a.example") true, .tlsRequest 0 "/" ""]

/-- A host with the same backend on both listeners. -/
def exampleBoth : Engine where
  bridge := { httpResolved := [exampleRoute .http], httpsResolved := [exampleRoute .https] }
  urlParses _ := true

theorem exampleBoth_noProjection (hostname : String) : exampleBoth.NoProjection hostname := by
  constructor
  · intro db hdb
    cases hdb
  · intro repo hrepo
    cases hrepo

theorem plaintext_isolated_both :
    exampleBoth.NoProjection "a.example"
      ∧ (∀ target path rawPath,
        (exampleBoth.serveHTTP (exampleBoth.run exampleTraffic).memory
          { host := "a.example", path := "/" }).1 = .proxied target path rawPath →
        exampleBoth.OfHTTPRoute (normalizeHost "a.example") target.upstreamURL) := by
  have hroute : exampleBoth.OfHTTPRoute "a.example" (exampleRoute .https).binding.upstreamURL := by
    refine ⟨"/", ResolvedRoutes.materializedToResolved (exampleRoute .http), ?_, rfl⟩
    decide +kernel
  refine ⟨exampleBoth_noProjection _, (exampleBoth.plaintext_isolated exampleTraffic _ ?_
    (exampleBoth_noProjection _)).1⟩
  refine ⟨trivial, ?_, ?_, trivial⟩
  · intro serverName hs hno backend hres
    obtain ⟨r, hr, hhost, rfl⟩ := ResolvedRoutes.of_resolveHostPath hres
    obtain rfl := List.mem_singleton.mp hr
    rw [normalizeHost_idem] at hhost
    rw [← hhost]
    exact Or.inr hroute
  · intro hno hk
    exact absurd hk (by decide +kernel)

/-- A host that only the HTTPS listener serves. -/
def exampleSecure : Engine where
  bridge := { httpsResolved := [exampleRoute .https] }
  urlParses _ := true

def exampleTarget : ProxyTarget where
  hostname := "a.example"
  upstreamURL := "http://svc.ns.svc.cluster.local:80"
  protocol := "http"
  pathPrefix := "/"

/-- The header alone takes a plaintext request to the HTTPS route; and
after one TLS request of the host no header is needed. -/
theorem plaintext_reaches_secure_route :
    (exampleSecure.serveHTTP .new { host := "a.example", path := "/", forwardedProto := "https" }).1
      = .proxied exampleTarget "/" ""
    ∧ (exampleSecure.serveHTTP (exampleSecure.run exampleTraffic).memory
        { host := "a.example", path := "/" }).1 = .proxied exampleTarget "/" ""
    ∧ exampleSecure.NoProjection "a.example"
    ∧ ∀ path, exampleSecure.bridge.resolveHTTP "a.example" path = none := by
  refine ⟨by decide +kernel, by decide +kernel, ⟨?_, ?_⟩, ?_⟩
  · intro db hdb
    cases hdb
  · intro repo hrepo
    cases hrepo
  · intro path
    cases hres : exampleSecure.bridge.resolveHTTP "a.example" path with
    | none => rfl
    | some backend =>
      obtain ⟨r, hr, -⟩ := ResolvedRoutes.of_resolveHostPath hres
      cases hr

end Engine

end Ingress

end LunaEdge
