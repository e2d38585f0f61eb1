import LunaEdge.EdgeResolution

/-!
# Hosts of listeners

A listener with a host name admits that name, or the names below it if it
is a wildcard. The bridge of an edge does not ask it: a route with host
names of its own is put under all of them, through every listener it is
attached to, and only a route without any gets the name of the listener.

So all routes are under hosts that their listeners admit exactly if the
host names of the routes are (`hosts_admitted_iff`). For a TLSRoute whose
hosts are all refused the bridge falls back to the name of the listener,
which is then not checked either.
-/

namespace LunaEdge

open List

namespace Ingress

-- host names are compared here and never computed
attribute [local irreducible] normalizeHost

namespace EdgeBridge

/-- The host name of the listener, or a name below it. -/
def Admits (listener : EdgeListener) (h : String) : Prop :=
  h = normalizeHost listener.hostname.val
    ∨ ∃ label suffix, label ≠ "" ∧ listener.hostname.val = "*." ++ suffix
      ∧ h = label ++ "." ++ suffix

/-! ## Routes and their listeners -/

/-- The body of the loop over listeners in `materializeHTTPFamilyIn`. -/
def httpThrough (route : EdgeHTTPRoute) (listener : EdgeListener) : List MaterializedRoute :=
  if listener.routeKind ≠ .http && listener.routeKind ≠ .https then []
  else listenerRoutes route listener

def grpcThrough (route : EdgeHTTPRoute) (listener : EdgeListener) : List MaterializedRoute :=
  if !listenerAllowsKind listener .grpc then []
  else
    (effectiveHosts route.hostnames listener.hostname).flatMap fun host =>
      route.rules.zipIdx.map fun (rule, idx) =>
        newMaterializedRoute .grpc route.namespace_ route.name host rule idx

def l4Hosts (route : EdgeL4Route) (listener : EdgeListener) : List String :=
  let hosts := effectiveHosts route.hostnames listener.hostname
  if hosts.length = 0 then [listener.hostname.val] else hosts

def l4Through (route : EdgeL4Route) (listener : EdgeListener) : List MaterializedRoute :=
  if !listenerAllowsKind listener .tlsTerminate then []
  else ((l4Hosts route listener).filter (· ≠ "")).map (l4Route route listener)

/-- A stored route makes `r` through a listener it is attached to. -/
inductive Emits (b : EdgeBridge) (o : Orders) (listener : EdgeListener) (r : MaterializedRoute) :
    Prop
  | http {route : EdgeHTTPRoute} (hroute : route ∈ b.httpRoutes.rows)
      (hlistener : listener
        ∈ b.attachedListeners (o.httpListeners (Keyed.key route)) route.parentRefs)
      (hr : r ∈ httpThrough route listener)
  | grpc {route : EdgeHTTPRoute} (hroute : route ∈ b.grpcRoutes.rows)
      (hlistener : listener
        ∈ b.attachedListeners (o.grpcListeners (Keyed.key route)) route.parentRefs)
      (hr : r ∈ grpcThrough route listener)
  | tls {route : EdgeL4Route} (hroute : route ∈ b.tlsRoutes.rows)
      (hlistener : listener
        ∈ b.attachedListeners (o.tlsListeners (Keyed.key route)) route.parentRefs)
      (hr : r ∈ l4Through route listener)

variable {b : EdgeBridge} {o : Orders} {listener : EdgeListener} {r : MaterializedRoute}
  {hostnames : List K8s.HostName}

/-! ## Names -/

def NamesAdmitted (listener : EdgeListener) (hostnames : List K8s.HostName) : Prop :=
  ∀ host ∈ hostnames, normalizeHost host.val ≠ "" → Admits listener (normalizeHost host.val)

def attachedTo (b : EdgeBridge) (parentRefs : List K8sBridge.GatewayParent) : List EdgeListener :=
  b.attachedListeners (fun _ => .stored) parentRefs

/-- The host names of the routes are names that their listeners admit. -/
structure NamesWithin (b : EdgeBridge) : Prop where
  http : ∀ route ∈ b.httpRoutes.rows, ∀ listener ∈ b.attachedTo route.parentRefs,
    listener.hostname.val ≠ "" → listener.routeKind = .http ∨ listener.routeKind = .https →
      route.rules ≠ [] → NamesAdmitted listener route.hostnames
  grpc : ∀ route ∈ b.grpcRoutes.rows, ∀ listener ∈ b.attachedTo route.parentRefs,
    listener.hostname.val ≠ "" → listener.routeKind = .grpc ∨ listener.routeKind = .http →
      route.rules ≠ [] → NamesAdmitted listener route.hostnames
  tls : ∀ route ∈ b.tlsRoutes.rows, ∀ listener ∈ b.attachedTo route.parentRefs,
    listener.hostname.val ≠ "" → listener.routeKind = .tlsTerminate →
      NamesAdmitted listener route.hostnames
        ∧ (effectiveHosts route.hostnames listener.hostname = [] →
          Admits listener listener.hostname.val)

theorem mem_attachedTo {order : Nat → GoMap.RangeOrder EdgeListener}
    {parentRefs : List K8sBridge.GatewayParent} :
    listener ∈ b.attachedListeners order parentRefs ↔ listener ∈ b.attachedTo parentRefs :=
  mem_attachedListeners.trans mem_attachedListeners.symm

theorem effectiveHosts_admitted_iff :
    (∀ h ∈ effectiveHosts hostnames listener.hostname, Admits listener h)
      ↔ NamesAdmitted listener hostnames := by
  by_cases hnil : hostnames = []
  · subst hnil
    refine iff_of_true (fun h hh => ?_) (forall_mem_nil _)
    exact Or.inl (mem_singleton.mp (mem_filter.mp hh).1)
  · rw [effectiveHosts, if_pos (length_pos_iff.mpr hnil), NamesAdmitted]
    simp only [mem_filter, mem_map, decide_eq_true_eq]
    constructor
    · exact fun h host hhost hne => h _ ⟨⟨host, hhost, rfl⟩, hne⟩
    · rintro h _ ⟨⟨host, hhost, rfl⟩, hne⟩
      exact h host hhost hne

theorem forall_ruleRoutes_iff {kind : RouteKind} {route : EdgeHTTPRoute} {hosts : List String}
    {P : String → Prop} :
    (∀ r ∈ hosts.flatMap fun host => route.rules.zipIdx.map fun (rule, idx) =>
        newMaterializedRoute kind route.namespace_ route.name host rule idx, P r.hostname)
      ↔ (route.rules ≠ [] → ∀ h ∈ hosts, P h) := by
  constructor
  · intro h hrules host hhost
    obtain ⟨rule, rules, heq⟩ := exists_cons_of_ne_nil hrules
    refine h (newMaterializedRoute kind route.namespace_ route.name host rule 0)
      (mem_flatMap.mpr ⟨host, hhost, mem_map.mpr ⟨(rule, 0), ?_, rfl⟩⟩)
    rw [heq]
    exact mem_cons_self
  · intro h r hr
    obtain ⟨host, hhost, hr⟩ := mem_flatMap.mp hr
    obtain ⟨⟨rule, idx⟩, hrule, rfl⟩ := mem_map.mp hr
    refine h (fun hnil => ?_) host hhost
    rw [hnil] at hrule
    cases hrule

theorem forall_guarded_iff {c K Q : Prop} [Decidable c] {l : List MaterializedRoute}
    {P : MaterializedRoute → Prop} (hc : c ↔ ¬ K) (hl : (∀ r ∈ l, P r) ↔ Q) :
    (∀ r ∈ if c then [] else l, P r) ↔ (K → Q) := by
  by_cases hK : K
  · rw [if_neg (hc.not.mpr (not_not.mpr hK)), hl]
    exact ⟨fun h _ => h, fun h => h hK⟩
  · rw [if_pos (hc.mpr hK)]
    exact iff_of_true (forall_mem_nil _) fun h => absurd h hK

theorem httpThrough_admitted_iff {route : EdgeHTTPRoute} :
    (∀ r ∈ httpThrough route listener, Admits listener r.hostname)
      ↔ (listener.routeKind = .http ∨ listener.routeKind = .https → route.rules ≠ [] →
        NamesAdmitted listener route.hostnames) :=
  forall_guarded_iff (by simp)
    (forall_ruleRoutes_iff.trans (imp_congr_right fun _ => effectiveHosts_admitted_iff))

theorem grpcThrough_admitted_iff {route : EdgeHTTPRoute} :
    (∀ r ∈ grpcThrough route listener, Admits listener r.hostname)
      ↔ (listener.routeKind = .grpc ∨ listener.routeKind = .http → route.rules ≠ [] →
        NamesAdmitted listener route.hostnames) :=
  forall_guarded_iff (by simp [listenerAllowsKind])
    (forall_ruleRoutes_iff.trans (imp_congr_right fun _ => effectiveHosts_admitted_iff))

theorem l4Through_admitted_iff {route : EdgeL4Route} (hne : listener.hostname.val ≠ "") :
    (∀ r ∈ l4Through route listener, Admits listener r.hostname)
      ↔ (listener.routeKind = .tlsTerminate → NamesAdmitted listener route.hostnames
        ∧ (effectiveHosts route.hostnames listener.hostname = [] →
          Admits listener listener.hostname.val)) := by
  refine forall_guarded_iff (by simp [listenerAllowsKind]) ?_
  simp only [forall_mem_map, hostname_l4Route, mem_filter, decide_eq_true_eq, and_imp]
  rw [← effectiveHosts_admitted_iff, l4Hosts]
  by_cases hnil : effectiveHosts route.hostnames listener.hostname = []
  · simp [hnil, hne]
  · rw [if_neg (by simpa using hnil)]
    refine ⟨fun h => ⟨fun host hhost => ?_, fun heq => absurd heq hnil⟩, fun h host hhost _ => ?_⟩
    · exact h host hhost (of_mem_effectiveHosts hhost)
    · exact h.1 host hhost

/-- Every route made through a listener with a host name is under a host
that the listener admits exactly if the routes name such hosts only. -/
theorem hosts_admitted_iff (b : EdgeBridge) (o : Orders) :
    (∀ listener r, b.Emits o listener r → listener.hostname.val ≠ "" →
      Admits listener r.hostname) ↔ b.NamesWithin := by
  constructor
  · intro h
    refine ⟨fun route hroute listener hl hne => ?_, fun route hroute listener hl hne => ?_,
      fun route hroute listener hl hne => ?_⟩
    · exact httpThrough_admitted_iff.mp fun r hr =>
        h listener r (.http hroute (mem_attachedTo.mpr hl) hr) hne
    · exact grpcThrough_admitted_iff.mp fun r hr =>
        h listener r (.grpc hroute (mem_attachedTo.mpr hl) hr) hne
    · exact (l4Through_admitted_iff hne).mp fun r hr =>
        h listener r (.tls hroute (mem_attachedTo.mpr hl) hr) hne
  · intro h listener r hr hne
    cases hr with
    | http hroute hl hr =>
      exact httpThrough_admitted_iff.mpr (h.http _ hroute listener (mem_attachedTo.mp hl) hne) r hr
    | grpc hroute hl hr =>
      exact grpcThrough_admitted_iff.mpr (h.grpc _ hroute listener (mem_attachedTo.mp hl) hne) r hr
    | tls hroute hl hr =>
      exact (l4Through_admitted_iff hne).mpr (h.tls _ hroute listener (mem_attachedTo.mp hl) hne) r
        hr

/-- An HTTPRoute for `other.example` at a listener for `a.example`. -/
def outsideRoute : K8s.HTTPRoute where
  namespace_ := K8s.exampleNamespace
  name := K8s.exampleName
  hostnames := [.ofText "other.example" (by decide)]
  parentRefs := [{ name := "edge", sectionName := "plain" }]
  rules := [{ pathMatches := [], backendRefs := [{ name := "blue", port := 8080 }] }]

def outsideGateway : K8s.Gateway where
  namespace_ := K8s.exampleNamespace
  name := K8s.exampleName
  listeners := [{ name := "plain", protocol := "HTTP", hostname := K8s.exampleHost }]

/-- The route is under `other.example`, which the listener does not admit. -/
theorem outside_host_emitted :
    ∃ listener r, ((EdgeBridge.storeGateway { ingressClass := "" } outsideGateway).storeHTTPRoute
        outsideRoute).Emits {} listener r
      ∧ listener.hostname.val = "a.example" ∧ r.hostname = "other.example"
      ∧ ¬ Admits listener r.hostname := by
  obtain ⟨r, hr, hhost⟩ : ∃ r ∈ httpThrough (parseHTTPRouteState outsideRoute)
      ⟨"plain", K8s.exampleHost, "", .http⟩, r.hostname = "other.example" := by
    decide +kernel
  refine ⟨_, r, .http mem_cons_self (mem_attachedListeners.mpr ⟨_, mem_cons_self,
    parseGatewayState outsideGateway, rfl, mem_cons_self, ?_⟩) hr, rfl, hhost, ?_⟩
  · decide +kernel
  · rw [hhost]
    rintro (h | ⟨label, suffix, -, hval, -⟩)
    · exact absurd h (by decide +kernel)
    · have hlist := congrArg String.toList hval
      simp [K8s.exampleHost, K8s.HostName.ofText] at hlist

end EdgeBridge

end Ingress

end LunaEdge
