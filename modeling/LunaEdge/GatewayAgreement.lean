import LunaEdge.EdgeBridge
import LunaEdge.GatewayRebuild
import LunaEdge.RouteSelection

/-!
# Two ways from an HTTPRoute to a proxy target

A request reaches a backend of an HTTPRoute through the repository, as
the master's Gateway bridge materialises the route and an edge reads the
projection; or through the Kubernetes bridge of the edge. Where every
route has host names and is attached by section names to plain HTTP
listeners, both choose among the same rules, those of the routes with the
host. They differ in the choice, as for Ingresses; in the services, since
only the master resolves external names; and in the binding: the one of
the bridge has no path, so that its target keeps the whole request path.

They agree exactly where no rule matches in either way, or the best rule
by string prefix is for `/` and has the upstream of the best rule by
elements.
-/

namespace LunaEdge

open Session Selection List

namespace Ingress

-- host names and paths are compared here and never computed
attribute [local irreducible] normalizeHost K8sBridge.normalizeHost K8sBridge.normalizePath
  normalizeIngressPath

/-! ## Objects -/

structure GatewayObjects where
  gateways : Table K8s.Gateway
  httpRoutes : Table K8s.HTTPRoute
  services : Table K8s.Service

/-- The listeners the parents of a route select by their section names. -/
def selectedListeners (gateways : Table K8s.Gateway) (route : K8s.HTTPRoute) :
    List K8s.Listener :=
  route.parentRefs.flatMap fun parent =>
    ((gateways.find? (K8sBridge.parseParent route.namespace_ parent).gatewayKey).elim []
      (·.listeners)).filter fun listener => listener.name = parent.sectionName

theorem mem_selectedListeners {gateways : Table K8s.Gateway} {route : K8s.HTTPRoute}
    {listener : K8s.Listener} :
    listener ∈ selectedListeners gateways route ↔ ∃ parent ∈ route.parentRefs, ∃ gw,
      gateways.find? (K8sBridge.parseParent route.namespace_ parent).gatewayKey = some gw
        ∧ listener ∈ gw.listeners ∧ listener.name = parent.sectionName := by
  simp only [selectedListeners, mem_flatMap, mem_filter, decide_eq_true_eq]
  constructor
  · rintro ⟨parent, hparent, hlistener, hname⟩
    cases hgw : gateways.find? (K8sBridge.parseParent route.namespace_ parent).gatewayKey with
    | none => simp [hgw] at hlistener
    | some gw =>
      rw [hgw] at hlistener
      exact ⟨parent, hparent, gw, hgw, hlistener, hname⟩
  · rintro ⟨parent, hparent, gw, hgw, hlistener, hname⟩
    exact ⟨parent, hparent, by rwa [hgw], hname⟩

/-- A listener of protocol HTTP that an edge does not take for one of
HTTPS by its name. -/
structure PlainListener (listener : K8s.Listener) : Prop where
  protocol : Go.toUpper (Go.trimSpace listener.protocol) = "HTTP"
  name : Go.toLower (Go.trimSpace listener.name) ≠ "websecure"

/-- A route with host names that is attached by section names, and only to
plain listeners. -/
structure Attached (gateways : Table K8s.Gateway) (route : K8s.HTTPRoute) : Prop where
  named : route.hostnames ≠ []
  sections : ∀ parent ∈ route.parentRefs, parent.sectionName ≠ ""
  attached : selectedListeners gateways route ≠ []
  plain : ∀ listener ∈ selectedListeners gateways route, PlainListener listener

namespace GatewayObjects

/-- The master's bridge after `LoadInitial` has listed the objects. -/
def masterBridge (o : GatewayObjects) : K8sBridge.GatewayBridge where
  gateways := o.gateways.rows.foldl (fun t gw => t.upsert (K8sBridge.parseGatewayState gw)) .empty
  httpRoutes :=
    o.httpRoutes.rows.foldl (fun t route => t.upsert (K8sBridge.parseHTTPRouteState route)) .empty
  services := o.services

/-- The bridge of an edge after `LoadInitial`; it watches no Ingress. -/
def edgeBridge (o : GatewayObjects) : EdgeBridge where
  ingressClass := ""
  services := o.services
  gateways := o.gateways.rows.foldl (fun t gw => t.upsert (parseGatewayState gw)) .empty
  httpRoutes := o.httpRoutes.rows.foldl (fun t route => t.upsert (parseHTTPRouteState route)) .empty

variable (o : GatewayObjects)

theorem rows_masterBridge :
    o.masterBridge.gateways.rows = o.gateways.rows.map K8sBridge.parseGatewayState
      ∧ o.masterBridge.httpRoutes.rows = o.httpRoutes.rows.map K8sBridge.parseHTTPRouteState :=
  ⟨Table.rows_foldl_upsert o.gateways.nodup, Table.rows_foldl_upsert o.httpRoutes.nodup⟩

theorem rows_edgeBridge :
    o.edgeBridge.gateways.rows = o.gateways.rows.map parseGatewayState
      ∧ o.edgeBridge.httpRoutes.rows = o.httpRoutes.rows.map parseHTTPRouteState :=
  ⟨Table.rows_foldl_upsert o.gateways.nodup, Table.rows_foldl_upsert o.httpRoutes.nodup⟩

theorem find?_of_rows {ρ σ : Type} [Keyed ρ String] [Keyed σ String] {t : Table ρ} {t' : Table σ}
    {f : ρ → σ} (hrows : t'.rows = t.rows.map f) (hkey : ∀ r, Keyed.key (f r) = Keyed.key r)
    (k : String) : t'.find? k = (t.find? k).map f := by
  rw [Table.find?, hrows, List.find?_map, Table.find?]
  simp only [Function.comp_def, hkey]

theorem find?_masterBridge (k : String) :
    o.masterBridge.gateways.find? k = (o.gateways.find? k).map K8sBridge.parseGatewayState :=
  find?_of_rows o.rows_masterBridge.1 (fun _ => rfl) k

theorem find?_edgeBridge (k : String) :
    o.edgeBridge.gateways.find? k = (o.gateways.find? k).map parseGatewayState :=
  find?_of_rows o.rows_edgeBridge.1 (fun _ => rfl) k

end GatewayObjects

/-! ## The rules of a host -/

/-- A rule of a route with its position, and the position of the host in
the route. -/
structure ServedRule where
  route : K8sBridge.HTTPRouteState
  hostIdx : Nat
  rule : K8sBridge.GatewayRule
  idx : Nat

def servedRules (routes : List K8s.HTTPRoute) (h : String) : List ServedRule :=
  routes.flatMap fun route =>
    (route.hostnames.zipIdx.filter fun entry => entry.1.val = h).flatMap fun entry =>
      (K8sBridge.parseHTTPRouteState route).rules.zipIdx.map fun rule =>
        ⟨K8sBridge.parseHTTPRouteState route, entry.2, rule.1, rule.2⟩

theorem mem_servedRules {routes : List K8s.HTTPRoute} {h : String} {s : ServedRule} :
    s ∈ servedRules routes h ↔ ∃ route ∈ routes, K8sBridge.parseHTTPRouteState route = s.route
      ∧ (∃ host, route.hostnames[s.hostIdx]? = some host ∧ host.val = h)
      ∧ s.route.rules[s.idx]? = some s.rule := by
  obtain ⟨state, hostIdx, rule, idx⟩ := s
  simp only [servedRules, mem_flatMap, mem_filter, mem_map, Prod.exists,
    mk_mem_zipIdx_iff_getElem?, decide_eq_true_eq, ServedRule.mk.injEq]
  constructor
  · rintro ⟨route, hroute, host, hostIdx', ⟨hhost, hval⟩, rule', idx', hrule, rfl, rfl, rfl, rfl⟩
    exact ⟨route, hroute, rfl, ⟨host, hhost, hval⟩, hrule⟩
  · rintro ⟨route, hroute, rfl, ⟨host, hhost, hval⟩, hrule⟩
    exact ⟨route, hroute, host, hostIdx, ⟨hhost, hval⟩, rule, idx, hrule, rfl, rfl, rfl, rfl⟩

/-! ## Through the repository -/

section Replica

open K8sBridge GatewayBridge

variable {o : GatewayObjects} {h : String}

theorem Attached.mem_reach {route : K8s.HTTPRoute} (ha : Attached o.gateways route) {idx : Nat} :
    (∃ listener, (listener, idx) ∈ o.masterBridge.reach servesHTTP
        (K8sBridge.parseHTTPRouteState route).parents route.hostnames h)
      ↔ ∃ host, route.hostnames[idx]? = some host ∧ host.val = h := by
  have hhosts : ∀ listener, hostsForRoute route.hostnames listener = route.hostnames := by
    intro listener
    have hlen := length_pos_iff.mpr ha.named
    rw [hostsForRoute, if_neg]
    simp only [Bool.and_eq_true, decide_eq_true_eq, not_and]
    omega
  simp only [reach, mem_flatMap, hhosts, o.find?_masterBridge]
  constructor
  · rintro ⟨listener, parent, -, listener', -, hmem⟩
    split at hmem
    · obtain ⟨⟨host, idx'⟩, hentry, heq⟩ := mem_map.mp hmem
      obtain ⟨-, rfl⟩ := Prod.mk.injEq _ _ _ _ ▸ heq
      obtain ⟨hentry, hval⟩ := mem_filter.mp hentry
      rw [decide_eq_true_eq, K8s.HostName.normalizeHost_val] at hval
      exact ⟨host, mk_mem_zipIdx_iff_getElem?.mp hentry, hval⟩
    · cases hmem
  · rintro ⟨host, hhost, hval⟩
    obtain ⟨listener, hlistener⟩ := exists_mem_of_ne_nil _ ha.attached
    have hplain := ha.plain listener hlistener
    obtain ⟨parent, hparent, gw, hgw, hlistener, hname⟩ := mem_selectedListeners.mp hlistener
    refine ⟨parseGatewayListener listener, K8sBridge.parseParent route.namespace_ parent,
      mem_map_of_mem hparent, parseGatewayListener listener, ?_, ?_⟩
    · rw [hgw]
      exact mem_map_of_mem hlistener
    · have hserves : servesHTTP (parseGatewayListener listener) = true := by
        rw [servesHTTP, parseGatewayListener, hplain.protocol]
        rfl
      have hsection : (K8sBridge.parseParent route.namespace_ parent).sectionName
          = (parseGatewayListener listener).name := hname.symm
      rw [if_pos ⟨Or.inr hsection, hserves⟩]
      refine mem_map.mpr ⟨(host, idx), mem_filter.mpr
        ⟨mk_mem_zipIdx_iff_getElem?.mpr hhost, ?_⟩, rfl⟩
      rw [decide_eq_true_eq, K8s.HostName.normalizeHost_val]
      exact hval

def ruleRow (b : GatewayBridge) (h : String) (s : ServedRule) : ServiceBackendRef × HTTPRoute :=
  (b.backendRow (backendID (ruleFields s.route h s.hostIdx s.idx)) s.rule.backend,
    ruleRoute s.route h s.hostIdx s.idx s.rule)

def hostVisits (o : GatewayObjects) (https : List HTTPRouteState) (h : String) :
    List (HTTPRouteState × Reach) :=
  visits (o.masterBridge.httpAttachments https h)

variable {https : List HTTPRouteState}

theorem mem_hostVisits {v : HTTPRouteState × Reach} :
    v ∈ hostVisits o https h
      ↔ v.1 ∈ https ∧ v.2 ∈ o.masterBridge.reach servesHTTP v.1.parents v.1.hostnames h := by
  simp only [hostVisits, visits, mem_flatMap, mem_map, httpAttachments, mem_attachments]
  constructor
  · rintro ⟨a, ⟨hroute, hreach, -⟩, c, hc, rfl⟩
    exact ⟨hroute, hreach ▸ hc⟩
  · rintro ⟨hroute, hc⟩
    exact ⟨(v.1, _), ⟨hroute, rfl, ne_nil_of_mem hc⟩, v.2, hc, rfl⟩

theorem mem_gatewayPairs (ha : ∀ route ∈ o.httpRoutes.rows, Attached o.gateways route)
    (hhttps : https.Perm o.masterBridge.httpRoutes.rows) {p : ServiceBackendRef × HTTPRoute} :
    p ∈ o.masterBridge.hostPairs h (hostVisits o https h)
      ↔ ∃ s ∈ servedRules o.httpRoutes.rows h, ruleRow o.masterBridge h s = p := by
  simp only [GatewayBridge.hostPairs, mem_flatMap, mem_hostVisits, mem_ruleRows,
    hhttps.mem_iff, o.rows_masterBridge.2, mem_map, mem_servedRules]
  constructor
  · rintro ⟨⟨state, c⟩, ⟨⟨route, hroute, rfl⟩, hc⟩, idx, rule, hrule, rfl⟩
    have hhost := (ha route hroute).mem_reach.mp ⟨c.1, hc⟩
    exact ⟨⟨_, c.2, rule, idx⟩, ⟨route, hroute, rfl, hhost, hrule⟩, rfl⟩
  · rintro ⟨s, ⟨route, hroute, hstate, hhost, hrule⟩, rfl⟩
    obtain ⟨listener, hc⟩ := (ha route hroute).mem_reach.mpr hhost
    exact ⟨(s.route, listener, s.hostIdx), ⟨⟨route, hroute, hstate⟩, hstate ▸ hc⟩, s.idx, s.rule,
      hrule, rfl⟩

def loadedRepo (o : GatewayObjects) (m : Master) (order : GatewayBridge.Order)
    (range : List HTTPRoute → List HTTPRoute) : Repo :=
  (MasterM.syncHosts .gateway range (o.masterBridge.materializeByHost order)
    o.masterBridge.collectHosts [] ⟨{ m with repo := Repo.empty }, []⟩).2.state.repo

variable {m : Master} {order : GatewayBridge.Order} {range : List HTTPRoute → List HTTPRoute}

theorem mirrors_loadedRepo (hrange : ∀ l, (range l).Perm l) :
    Mirrors (loadedRepo o m order range)
      (o.masterBridge.rebuilt (order.httpRoutes o.masterBridge.httpRoutes.rows) []) := by
  have htls : order.tlsRoutes o.masterBridge.tlsRoutes.rows = [] := (order.tlsRoutes_perm _).eq_nil
  have hget := fun h => materializeByHost_collectHosts (b := o.masterBridge) order h
  rw [htls] at hget
  have hnext : ∀ h item, (o.masterBridge.materializeByHost order
      o.masterBridge.collectHosts).get? h = some item → Managed h item := by
    intro h item hitem
    rw [hget] at hitem
    refine managed_rebuilt (order.httpRoutes_perm _).subset (nil_subset _) ?_ hitem
    exact ((order.httpRoutes_perm _).map _).nodup_iff.mpr o.masterBridge.httpRoutes.nodup
  have hsync : ∃ m', Done (MasterM.syncHosts .gateway range
        (o.masterBridge.materializeByHost order) o.masterBridge.collectHosts [])
        { m with repo := Repo.empty } () m'
      ∧ Mirrors m'.repo (synced (fun _ => none) (o.masterBridge.materializeByHost order
        o.masterBridge.collectHosts) o.masterBridge.collectHosts []) :=
    MasterM.syncHosts_done hrange hnext mirrors_empty
  obtain ⟨m', hdone, hm'⟩ := hsync
  have hsynced : synced (fun _ => none) (o.masterBridge.materializeByHost order
      o.masterBridge.collectHosts) o.masterBridge.collectHosts []
      = o.masterBridge.rebuilt (order.httpRoutes o.masterBridge.httpRoutes.rows) [] := by
    funext h
    rw [← hget, synced]
    split
    · rfl
    · rename_i hnot
      rw [get?_materializeByHost, if_neg hnot]
      split <;> rfl
  rw [hsynced] at hm'
  rw [loadedRepo, hdone.state_eq]
  exact hm'

theorem rebuilt_masterBridge (hh : h ≠ "") :
    o.masterBridge.rebuilt https [] h
      = (o.masterBridge.httpItem h (hostVisits o https h)).map dedupe := by
  rw [GatewayBridge.rebuilt, if_neg hh]
  rfl

theorem isL4_httpDomain (listener : GatewayListener) (host : String) :
    (httpDomain listener host).backendType.isL4 = false := by
  unfold httpDomain
  by_cases hp : listener.protocol = "HTTPS" <;> simp [hp, BackendType.isL4]

theorem replicaBinding_loadedRepo {binding : BackendBinding} {p : String}
    (ha : ∀ route ∈ o.httpRoutes.rows, Attached o.gateways route)
    (hrange : ∀ l, (range l).Perm l) (hh : h ≠ "") :
    replicaBinding (loadedRepo o m order range) h p = some binding
      ↔ ∃ s, IsBest (fun s => httpRouteMatches (ruleRow o.masterBridge h s).2.path p)
          (fun s => replicaKey (projectRoute (ruleRow o.masterBridge h s).2
            (ruleRow o.masterBridge h s).1))
          (servedRules o.httpRoutes.rows h) s
        ∧ rowBinding h (ruleRow o.masterBridge h s) = binding := by
  have hm : Mirrors (loadedRepo o m order range) _ := mirrors_loadedRepo hrange
  have hperm := order.httpRoutes_perm o.masterBridge.httpRoutes.rows
  generalize order.httpRoutes o.masterBridge.httpRoutes.rows = https at hm hperm
  have hF : o.masterBridge.rebuilt https [] h = _ := rebuilt_masterBridge hh
  cases hitem : o.masterBridge.httpItem h (hostVisits o https h) with
  | none =>
    rw [hitem, Option.map_none] at hF
    rw [replicaBinding_of_none hm hF]
    constructor
    · intro heq
      cases heq
    · rintro ⟨s, hs, -⟩
      have hpair := (mem_gatewayPairs ha hperm).mpr ⟨s, hs.mem, rfl⟩
      rw [httpItem_eq_none_iff.mp hitem] at hpair
      cases hpair
  | some raw =>
    rw [hitem, Option.map_some] at hF
    obtain ⟨⟨v, hv, hdomain⟩, -, -⟩ := of_httpItem hitem
    have hcolon : ':' ∉ h.toList := by
      obtain ⟨-, hc⟩ := mem_hostVisits.mp (mem_of_getLast? hv)
      obtain ⟨host, rfl, -⟩ := host_of_reach hc
      exact host.noColon
    have hkeys : DistinctRoutes (hostVisits o https h) := fun v hv v' hv' =>
      inj_on_of_nodup_map ((hperm.map _).nodup_iff.mpr o.masterBridge.httpRoutes.nodup)
        (mem_hostVisits.mp hv).1 (mem_hostVisits.mp hv').1
    obtain ⟨hroutes, hbackends⟩ := rows_dedupe hcolon hkeys hitem
    have hl7 : (dedupe raw).domain.backendType.isL4 = false := by
      have hd : (dedupe raw).domain = httpDomain v.2.1 h := hdomain
      rw [hd, isL4_httpDomain]
    refine replicaBinding_eq_some_iff (ruleRow o.masterBridge h) hm hF hl7 fun backend r => ?_
    rw [(hm.managed h _ hF).mem_pairs (pairOf_hostPairs hcolon) hroutes hbackends,
      mem_gatewayPairs ha hperm]

end Replica

/-! ## Through the bridge of the edge -/

section Bridge

variable {o : GatewayObjects} {route : K8s.HTTPRoute}

def edgeRule (rule : K8sBridge.GatewayRule) : EdgeRule where
  path := normalizeIngressPath rule.path
  pathKind := if rule.exact then .exact else .prefixed
  backend := rule.backend

theorem rules_parseHTTPRouteState (route : K8s.HTTPRoute) :
    (parseHTTPRouteState route).rules
      = (K8sBridge.parseHTTPRouteState route).rules.map edgeRule := by
  have hrule : ∀ rule, parseRule route.namespace_ rule
      = (K8sBridge.parseRule route.namespace_ rule).map edgeRule := by
    intro rule
    simp only [parseRule, K8sBridge.parseRule, parseFirstBackendRef, Option.map_map]
    rfl
  simp only [parseHTTPRouteState, K8sBridge.parseHTTPRouteState, map_filterMap, hrule]

/-! ### Listeners -/

def edgeListener (listener : K8s.Listener) : EdgeListener where
  name := listener.name
  hostname := listener.hostname
  tlsMode := Go.trimSpace listener.tlsMode
  routeKind := routeKindFromListener listener.name listener.protocol

theorem parseListeners_concat (listeners : List K8s.Listener) (listener : K8s.Listener) :
    parseListeners (listeners ++ [listener])
      = if listener.name = "" then parseListeners listeners
        else (parseListeners listeners).set listener.name (edgeListener listener) := by
  rw [parseListeners, foldl_append]
  rfl

theorem of_mem_parseListeners {listeners : List K8s.Listener} {e : String × EdgeListener}
    (he : e ∈ (parseListeners listeners).rows) :
    ∃ listener ∈ listeners, e = (listener.name, edgeListener listener) := by
  induction listeners using List.reverseRecOn with
  | nil => cases he
  | append_singleton listeners x ih =>
    have hold : e ∈ (parseListeners listeners).rows →
        ∃ listener ∈ listeners ++ [x], e = (listener.name, edgeListener listener) := by
      intro he
      obtain ⟨listener, hmem, heq⟩ := ih he
      exact ⟨listener, mem_append_left _ hmem, heq⟩
    rw [parseListeners_concat] at he
    split at he
    · exact hold he
    · rcases Table.mem_upsert.mp he with rfl | ⟨he, -⟩
      · exact ⟨x, by simp, rfl⟩
      · exact hold he

theorem exists_mem_parseListeners {listeners : List K8s.Listener} {name : String}
    (hmem : ∃ listener ∈ listeners, listener.name = name) (hname : name ≠ "") :
    ∃ l, (name, l) ∈ (parseListeners listeners).rows := by
  induction listeners using List.reverseRecOn with
  | nil =>
    obtain ⟨listener, hmem, -⟩ := hmem
    cases hmem
  | append_singleton listeners x ih =>
    rw [parseListeners_concat]
    by_cases hx : x.name = name
    · rw [if_neg (hx ▸ hname)]
      exact ⟨edgeListener x, Table.mem_upsert.mpr (Or.inl (by rw [hx]))⟩
    · obtain ⟨listener, hmem, heq⟩ := hmem
      have hold : listener ∈ listeners := by
        rcases mem_append.mp hmem with hmem | hmem
        · exact hmem
        · exact absurd (mem_singleton.mp hmem ▸ heq) hx
      obtain ⟨l, hl⟩ := ih ⟨listener, hold, heq⟩
      split
      · exact ⟨l, hl⟩
      · exact ⟨l, Table.mem_upsert.mpr (Or.inr ⟨hl, fun h => hx h.symm⟩)⟩

theorem PlainListener.routeKind {listener : K8s.Listener} (hl : PlainListener listener) :
    (edgeListener listener).routeKind = .http := by
  simp only [edgeListener, routeKindFromListener, hl.name, hl.protocol, if_false, if_true]
  split <;> rfl

/-! ### Routes -/

def plainRoutes (route : K8s.HTTPRoute) : List MaterializedRoute :=
  ((route.hostnames.map fun host => normalizeHost host.val).filter (· ≠ "")).flatMap fun host =>
    (parseHTTPRouteState route).rules.zipIdx.map fun rule =>
      EdgeBridge.newMaterializedRoute .http route.namespace_ route.name host rule.1 rule.2

theorem listenerRoutes_of_plain (hnamed : route.hostnames ≠ []) {listener : EdgeListener}
    (hkind : listener.routeKind = .http) :
    EdgeBridge.listenerRoutes (parseHTTPRouteState route) listener = plainRoutes route := by
  have hlen := length_pos_iff.mpr hnamed
  rw [EdgeBridge.listenerRoutes, hkind, effectiveHosts]
  simp only [parseHTTPRouteState, gt_iff_lt, hlen, if_true]
  rfl

theorem name_of_find? {gateways : Table K8s.Gateway} {namespace_ : K8s.ObjectName}
    {parent : K8s.ParentRef} {gw : K8s.Gateway}
    (hgw : gateways.find? (K8sBridge.parseParent namespace_ parent).gatewayKey = some gw) :
    parent.name ≠ "" := by
  intro hname
  have hkey : gw.namespace_.val ++ "/" ++ gw.name.val = _ ++ "/" ++ parent.name :=
    Table.key_of_find? hgw
  rw [hname, String.append_empty] at hkey
  have hlist := congrArg (List.getLast? ∘ String.toList) hkey
  simp only [Function.comp_apply, String.toList_append] at hlist
  have hne : gw.name.val.toList ≠ [] := fun h => gw.name.nonempty (String.toList_eq_nil_iff.mp h)
  rw [List.getLast?_append_of_ne_nil _ hne, List.getLast?_append_of_ne_nil _ (by decide)] at hlist
  exact gw.name.noSlash (mem_of_getLast? hlist)

/-- An attached route has its routes through plain listeners, each of
them as often as it is attached. -/
theorem Attached.mem_materializeHTTPFamily (ha : Attached o.gateways route)
    {r : MaterializedRoute} :
    r ∈ o.edgeBridge.materializeHTTPFamily (parseHTTPRouteState route) ↔ r ∈ plainRoutes route := by
  simp only [EdgeBridge.materializeHTTPFamily, mem_flatMap, o.find?_edgeBridge]
  constructor
  · rintro ⟨parentRef, hparent, hr⟩
    obtain ⟨parent, hmem, rfl⟩ := mem_map.mp hparent
    obtain ⟨hparent, -⟩ := mem_filter.mp hmem
    cases hgw : o.gateways.find? (K8sBridge.parseParent route.namespace_ parent).gatewayKey with
    | none => simp [hgw] at hr
    | some gw =>
      simp only [hgw, Option.map_some, mem_flatMap] at hr
      obtain ⟨l, hl, hr⟩ := hr
      obtain ⟨e, he, rfl⟩ := mem_map.mp hl
      obtain ⟨listener, hlistener, rfl⟩ := of_mem_parseListeners he
      split at hr
      · cases hr
      · rename_i hsection
        have hname : listener.name = parent.sectionName := by
          by_contra hne
          refine hsection (Bool.and_eq_true_iff.mpr ⟨?_, decide_eq_true hne⟩)
          exact decide_eq_true (ha.sections parent hparent)
        have hselected : listener ∈ selectedListeners o.gateways route :=
          mem_selectedListeners.mpr ⟨parent, hparent, gw, hgw, hlistener, hname⟩
        have hkind := (ha.plain listener hselected).routeKind
        split at hr
        · cases hr
        · rwa [listenerRoutes_of_plain ha.named hkind] at hr
  · intro hr
    obtain ⟨listener, hselected⟩ := exists_mem_of_ne_nil _ ha.attached
    obtain ⟨parent, hparent, gw, hgw, hlistener, hname⟩ := mem_selectedListeners.mp hselected
    refine ⟨K8sBridge.parseParent route.namespace_ parent, mem_map_of_mem
      (mem_filter.mpr ⟨hparent, decide_eq_true (name_of_find? hgw)⟩), ?_⟩
    simp only [hgw, Option.map_some, mem_flatMap]
    -- the edge keeps the last of the listeners with the name
    obtain ⟨l, hl⟩ := exists_mem_parseListeners ⟨listener, hlistener, hname⟩
      (ha.sections parent hparent)
    obtain ⟨listener', hlistener', heq⟩ := of_mem_parseListeners hl
    obtain ⟨hname', rfl⟩ := Prod.mk.injEq _ _ _ _ ▸ heq
    have hselected' : listener' ∈ selectedListeners o.gateways route :=
      mem_selectedListeners.mpr ⟨parent, hparent, gw, hgw, hlistener', hname'.symm⟩
    have hkind := (ha.plain listener' hselected').routeKind
    refine ⟨edgeListener listener', mem_map_of_mem hl, ?_⟩
    rw [if_neg, if_neg, listenerRoutes_of_plain ha.named hkind]
    · exact hr
    · simp [hkind]
    · have hsame : (edgeListener listener').name
          = (K8sBridge.parseParent route.namespace_ parent).sectionName := hname'.symm
      simp [hsame]

def ruleMaterialized (h : String) (s : ServedRule) : MaterializedRoute :=
  EdgeBridge.newMaterializedRoute .http s.route.namespace_ s.route.name h (edgeRule s.rule) s.idx

variable {host : String}

theorem mem_httpResolved (ha : ∀ route ∈ o.httpRoutes.rows, Attached o.gateways route)
    (hh : normalizeHost host ≠ "") {r : MaterializedRoute} :
    r ∈ o.edgeBridge.rebuildRoutes.httpResolved.ofHost (normalizeHost host)
      ↔ ∃ s ∈ servedRules o.httpRoutes.rows (normalizeHost host),
          ruleMaterialized (normalizeHost host) s = r := by
  have hingress : o.edgeBridge.rebuildIngressRoutes = [] := rfl
  simp only [RouteTable.ofHost, EdgeBridge.rebuildRoutes, hingress, nil_append,
    EdgeBridge.rebuildGatewayRoutes, o.rows_edgeBridge.2, mem_filter, mem_flatMap,
    mem_map, decide_eq_true_eq, mem_servedRules]
  constructor
  · rintro ⟨⟨⟨_, ⟨route, hroute, rfl⟩, hr⟩, -⟩, hhost⟩
    rw [(ha route hroute).mem_materializeHTTPFamily] at hr
    obtain ⟨h', hh', hr⟩ := mem_flatMap.mp hr
    obtain ⟨hmem, hne⟩ := mem_filter.mp hh'
    rw [decide_eq_true_eq] at hne
    obtain ⟨hostname, hhostname, rfl⟩ := mem_map.mp hmem
    obtain ⟨⟨rule', idx⟩, hrule, rfl⟩ := mem_map.mp hr
    have hval : normalizeHost hostname.val = normalizeHost host := hhost
    rw [mk_mem_zipIdx_iff_getElem?, rules_parseHTTPRouteState, List.getElem?_map,
      Option.map_eq_some_iff] at hrule
    obtain ⟨rule, hrule, rfl⟩ := hrule
    obtain ⟨hostIdx, hget⟩ := mem_iff_getElem?.mp hhostname
    refine ⟨⟨_, hostIdx, rule, idx⟩, ⟨route, hroute, rfl, ⟨hostname, hget, ?_⟩, hrule⟩, ?_⟩
    · rw [← hval, hostname.edge_normalizeHost_val hne]
    · rw [hval]
      rfl
  · rintro ⟨s, ⟨route, hroute, hstate, ⟨hostname, hget, hval⟩, hrule⟩, rfl⟩
    refine ⟨⟨⟨_, ⟨route, hroute, rfl⟩, ?_⟩, rfl⟩, rfl⟩
    rw [(ha route hroute).mem_materializeHTTPFamily]
    refine mem_flatMap.mpr ⟨normalizeHost host, mem_filter.mpr
      ⟨mem_map.mpr ⟨hostname, mem_of_getElem? hget, ?_⟩, decide_eq_true hh⟩, ?_⟩
    · rw [hval, normalizeHost_idem]
    · refine mem_map.mpr ⟨(edgeRule s.rule, s.idx), ?_, ?_⟩
      · rw [mk_mem_zipIdx_iff_getElem?, rules_parseHTTPRouteState, List.getElem?_map, hstate, hrule]
        rfl
      · rw [ruleMaterialized, ← hstate]
        rfl

/-- The id of a route determines the HTTPRoute and the position of the
rule, whatever the name of the backend is. -/
theorem ruleMaterialized_inj {h : String} {s s' : ServedRule}
    (hs : s ∈ servedRules o.httpRoutes.rows h) (hs' : s' ∈ servedRules o.httpRoutes.rows h)
    (heq : (ruleMaterialized h s).binding.id = (ruleMaterialized h s').binding.id) :
    ruleMaterialized h s = ruleMaterialized h s' := by
  obtain ⟨hkey, hidx⟩ := EdgeBridge.newMaterializedRoute_id_inj heq
  obtain ⟨route, hroute, hstate, -, hrule⟩ := mem_servedRules.mp hs
  obtain ⟨route', hroute', hstate', -, hrule'⟩ := mem_servedRules.mp hs'
  have hkey : Keyed.key route = Keyed.key route' := by
    rw [← hstate, ← hstate'] at hkey
    exact hkey
  obtain rfl := inj_on_of_nodup_map o.httpRoutes.nodup hroute hroute' hkey
  rw [← hstate] at hrule
  rw [← hstate', ← hidx, hrule, Option.some_inj] at hrule'
  rw [ruleMaterialized, ruleMaterialized, ← hstate, ← hstate', hidx, hrule']

theorem resolveHTTP_edgeBridge {backend : K8sResolvedBackend} {h p : String}
    (ha : ∀ route ∈ o.httpRoutes.rows, Attached o.gateways route) (hh : h ≠ "")
    (hhost : normalizeHost host = h) :
    o.edgeBridge.rebuildRoutes.resolveHTTP host p = some backend
      ↔ ∃ s, IsBest (fun s => k8sPathMatches (ruleMaterialized h s).pathKind
            (ruleMaterialized h s).path (normalizeIngressPath p))
          (fun s => bridgeKey (ruleMaterialized h s)) (servedRules o.httpRoutes.rows h) s
        ∧ ResolvedRoutes.materializedToResolved (ruleMaterialized h s) = backend := by
  subst hhost
  exact resolveHTTP_eq_some_iff (ruleMaterialized _) hh (fun r => mem_httpResolved ha hh)
    (fun _ _ => rfl) fun s hs s' hs' heq => ruleMaterialized_inj hs hs' heq

end Bridge

/-! ## Targets -/

def proxied (routed : Routed) : Option ProxyTarget :=
  match routed.1 with
  | .ok result => if result.found then some result.target else none
  | .error _ => none

def bindingTarget (hostname : String) (binding : BackendBinding) : ProxyTarget where
  hostname := hostname
  upstreamURL := binding.upstreamURL
  protocol := binding.protocol.text
  pathPrefix := normalizeProxyPathPrefix binding.path

theorem proxied_resultFromBinding {hostname : String} {binding : BackendBinding}
    (hurl : binding.upstreamURL ≠ "") :
    proxied (resultFromBinding .new hostname binding) = some (bindingTarget hostname binding) := by
  simp only [resultFromBinding, if_neg hurl]
  rfl

theorem proxied_replica {repo : Repo} {host p : String} (hh : normalizeHost host ≠ "") :
    proxied (routeByKind (.ofSlave repo.getDomainEntryProjectionByDomain) .new host p .http)
      = (replicaBinding repo (normalizeHost host) p).bind fun binding =>
        proxied (resultFromBinding .new (normalizeHost host) binding) := by
  rw [routeByKind_miss hh rfl]
  simp only [routeFromProjection, Sources.ofSlave, replicaBinding]
  cases repo.getDomainEntryProjectionByDomain (normalizeHost host) with
  | error err => rfl
  | ok entry =>
    simp only [resultFromProjection]
    cases bindingFromProjection entry p .http with
    | none => simp only [Option.bind_none, proxied, Bool.false_eq_true, if_false]
    | some binding => simp only [Option.bind_some]

theorem proxied_bridge {b : ResolvedRoutes} {host p : String} (hh : normalizeHost host ≠ "") :
    proxied (routeByKind { k8sBridge := some b.resolver } .new host p .http)
      = (b.resolveHTTP (normalizeHost host) p).bind fun backend =>
        proxied (resultFromBinding .new (normalizeHost host) backend.binding) := by
  simp only [routeByKind, if_neg hh, Option.bind_some, ResolvedRoutes.resolver_resolve_http]
  cases b.resolveHTTP (normalizeHost host) p with
  | none => rfl
  | some backend => simp only [Option.map_some, Option.bind_some]

/-! ### Upstreams -/

theorem upstreamURL_ne_empty {binding : BackendBinding} {c : Char}
    (hc : c ∈ binding.address.toList) (hspace : Go.isSpace c = false) :
    binding.upstreamURL ≠ "" := by
  have hne : Go.trimSpace binding.address ≠ "" := by
    intro hempty
    have hmem := Go.mem_trimSpace hc hspace
    rw [hempty] at hmem
    simp at hmem
  have happend : ∀ a b : String, a ++ "://" ++ b ≠ "" := by
    intro a b hempty
    have hlist := congrArg String.toList hempty
    simp at hlist
  simp only [BackendBinding.upstreamURL, buildUpstreamURL, if_neg hne]
  split
  · exact hne
  · split
    · exact happend _ _
    · split
      · rw [String.append_assoc, String.append_assoc]
        exact happend _ _
      · exact happend _ _

theorem mem_buildServiceAddress (name namespace_ : String) :
    'l' ∈ (buildServiceAddress name namespace_).toList := by
  rw [buildServiceAddress, String.toList_append]
  exact mem_append_right _ (by decide)

theorem exists_nonspace_endpoint {value : String}
    (hne : K8sBridge.normalizeArbitraryEndpoint value ≠ "") :
    ∃ c ∈ (K8sBridge.normalizeArbitraryEndpoint value).toList, Go.isSpace c = false := by
  have hpre := Go.trimSuffix_prefix (Go.trimSpace value) "."
  cases hlist : (K8sBridge.normalizeArbitraryEndpoint value).toList with
  | nil => exact absurd (String.toList_eq_nil_iff.mp hlist) hne
  | cons c cs =>
    rw [show Go.trimSuffix (Go.trimSpace value) "." = _ from rfl,
      ← K8sBridge.normalizeArbitraryEndpoint, hlist] at hpre
    obtain ⟨t, ht⟩ := hpre
    exact ⟨c, mem_cons_self, Go.head_trimSpace ht.symm⟩

attribute [local irreducible] K8sBridge.normalizeArbitraryEndpoint

theorem exists_nonspace_backendRow (b : K8sBridge.GatewayBridge) (id : String)
    (backend : K8sBridge.GatewayBackend) :
    ∃ c ∈ (backendAddress (b.backendRow id backend)).toList, Go.isSpace c = false := by
  have hsvc : ∀ ref : ServiceBackendRef, ref.type = .svc →
      ∃ c ∈ (backendAddress ref).toList, Go.isSpace c = false := by
    intro ref htype
    rw [backendAddress, htype, if_neg (by decide)]
    exact ⟨'l', mem_buildServiceAddress _ _, by decide⟩
  have hexternal : ∀ ref : ServiceBackendRef, ref.type = .external →
      (∃ c ∈ ref.arbitraryEndpoint.toList, Go.isSpace c = false) →
      ∃ c ∈ (backendAddress ref).toList, Go.isSpace c = false := by
    rintro ref htype ⟨c, hc, hspace⟩
    rw [backendAddress, if_pos htype]
    exact ⟨c, Go.mem_trimSpace hc hspace, hspace⟩
  unfold K8sBridge.GatewayBridge.backendRow K8sBridge.GatewayBridge.resolveServiceBackendRef
  dsimp only
  split
  · exact hsvc _ rfl
  · split
    · exact hsvc _ rfl
    · split
      · exact hsvc _ rfl
      · split
        · exact hsvc _ rfl
        · rename_i hne
          exact hexternal _ rfl (exists_nonspace_endpoint hne)

/-! ## Agreement -/

namespace ServedRule

def pathKind (s : ServedRule) : RoutePathKind := if s.rule.exact then .exact else .prefixed

/-- A replica takes the rules for exact paths before the others by their
priority, then the longer path, then the smaller id. -/
def replicaRank (h : String) (s : ServedRule) : Lex (Int × Lex (Nat × Stringᵒᵈ)) :=
  let path := K8sBridge.normalizePath s.rule.path
  toLex (Go.len path + if s.rule.exact then 100000 else 0, toLex (Go.len path,
    .toDual (K8sBridge.routeID (K8sBridge.GatewayBridge.ruleFields s.route h s.hostIdx s.idx))))

/-- The bridge takes exact paths first, then the longer path, then the
earlier rule of its route, then the greater id. -/
def bridgeRank (s : ServedRule) : Lex (Bool × Lex (Nat × Lex (Natᵒᵈ × String))) :=
  toLex (decide (s.pathKind = .exact), toLex (Go.len (normalizeIngressPath s.rule.path),
    toLex (.toDual s.idx, Go.colons ["k8s", "http", s.route.namespace_.val, s.route.name.val,
      s.rule.backend.name, toString s.idx])))

/-- A replica matches an exact path like any other. -/
def matchesByPrefix (p : String) (s : ServedRule) : Bool :=
  httpRouteMatches (K8sBridge.normalizePath s.rule.path) p

def matchesByElement (p : String) (s : ServedRule) : Bool :=
  k8sPathMatches s.pathKind (normalizeIngressPath s.rule.path) (normalizeIngressPath p)

def replicaTarget (services : Table K8s.Service) (h : String) (s : ServedRule) : ProxyTarget :=
  let b : K8sBridge.GatewayBridge := { services := services }
  { hostname := h
    upstreamURL := buildUpstreamURL "http" (backendAddress (b.backendRow "" s.rule.backend))
      s.rule.backend.port
    protocol := "http"
    pathPrefix := normalizeProxyPathPrefix (K8sBridge.normalizePath s.rule.path) }

/-- The target of a rule in the bridge: always in the cluster, and for the
whole request path. -/
def bridgeTarget (h : String) (s : ServedRule) : ProxyTarget where
  hostname := h
  upstreamURL := buildUpstreamURL "http"
    (buildServiceAddress s.rule.backend.name s.rule.backend.namespace_) s.rule.backend.port
  protocol := "http"
  pathPrefix := "/"

end ServedRule

section Agreement

variable {o : GatewayObjects} {m : Master} {order : K8sBridge.GatewayBridge.Order}
  {range : List HTTPRoute → List HTTPRoute} {h host p : String}

theorem backendRow_endpoint (b : K8sBridge.GatewayBridge) (id : String)
    (backend : K8sBridge.GatewayBackend) :
    backendAddress (b.backendRow id backend) = backendAddress (b.backendRow "" backend)
      ∧ (b.backendRow id backend).port = backend.port := by
  unfold K8sBridge.GatewayBridge.backendRow K8sBridge.GatewayBridge.resolveServiceBackendRef
  dsimp only
  split
  · exact ⟨rfl, rfl⟩
  · cases b.services.find? (backend.namespace_ ++ "/" ++ backend.name) with
    | none => exact ⟨rfl, rfl⟩
    | some svc =>
      dsimp only
      split
      · exact ⟨rfl, rfl⟩
      · split <;> exact ⟨rfl, rfl⟩

theorem bindingTarget_rowBinding (s : ServedRule) :
    bindingTarget h (rowBinding h (ruleRow o.masterBridge h s)) = s.replicaTarget o.services h := by
  obtain ⟨haddress, hport⟩ := backendRow_endpoint o.masterBridge
    (K8sBridge.backendID (K8sBridge.GatewayBridge.ruleFields s.route h s.hostIdx s.idx))
    s.rule.backend
  have hservices : o.masterBridge.backendRow
      = ({ services := o.services } : K8sBridge.GatewayBridge).backendRow :=
    K8sBridge.GatewayBridge.backendRow_congr rfl
  simp only [bindingTarget, rowBinding, ruleRow, BackendBinding.upstreamURL,
    ServedRule.replicaTarget, haddress, hport]
  rw [hservices]
  rfl

theorem bindingTarget_ruleMaterialized (s : ServedRule) :
    bindingTarget h (ruleMaterialized h s).binding = s.bridgeTarget h := by
  have hroot : normalizeProxyPathPrefix "" = "/" := by decide
  simp only [bindingTarget, ruleMaterialized, EdgeBridge.newMaterializedRoute,
    BackendBinding.upstreamURL, ServedRule.bridgeTarget, hroot]
  rfl

/-- What a replica of a master with the objects proxies a request to. -/
def replicatedTarget (o : GatewayObjects) (m : Master) (order : K8sBridge.GatewayBridge.Order)
    (range : List HTTPRoute → List HTTPRoute) (host p : String) : Option ProxyTarget :=
  proxied (routeByKind (.ofSlave (loadedRepo o m order range).getDomainEntryProjectionByDomain)
    .new host p .http)

/-- What an edge with a bridge with the objects proxies a request to. -/
def resolvedTarget (o : GatewayObjects) (host p : String) : Option ProxyTarget :=
  proxied (routeByKind { k8sBridge := some o.edgeBridge.rebuildRoutes.resolver } .new host p .http)

theorem replicatedTarget_eq_map (ha : ∀ route ∈ o.httpRoutes.rows, Attached o.gateways route)
    (hrange : ∀ l, (range l).Perm l) (hh : normalizeHost host ≠ "") :
    replicatedTarget o m order range host p
      = (replicaBinding (loadedRepo o m order range) (normalizeHost host) p).map
        (bindingTarget (normalizeHost host)) := by
  rw [replicatedTarget, proxied_replica hh]
  cases hb : replicaBinding (loadedRepo o m order range) (normalizeHost host) p with
  | none => rfl
  | some binding =>
    obtain ⟨s, -, rfl⟩ := (replicaBinding_loadedRepo ha hrange hh).mp hb
    obtain ⟨c, hc, hspace⟩ := exists_nonspace_backendRow o.masterBridge
      (K8sBridge.backendID (K8sBridge.GatewayBridge.ruleFields s.route (normalizeHost host)
        s.hostIdx s.idx)) s.rule.backend
    have hurl : (rowBinding (normalizeHost host) (ruleRow o.masterBridge (normalizeHost host)
        s)).upstreamURL ≠ "" := upstreamURL_ne_empty (by exact hc) hspace
    rw [Option.bind_some, Option.map_some, proxied_resultFromBinding hurl]

theorem resolvedTarget_eq_map (ha : ∀ route ∈ o.httpRoutes.rows, Attached o.gateways route)
    (hh : normalizeHost host ≠ "") :
    resolvedTarget o host p
      = (o.edgeBridge.rebuildRoutes.resolveHTTP (normalizeHost host) p).map fun backend =>
        bindingTarget (normalizeHost host) backend.binding := by
  rw [resolvedTarget, proxied_bridge hh]
  cases hb : o.edgeBridge.rebuildRoutes.resolveHTTP (normalizeHost host) p with
  | none => rfl
  | some backend =>
    obtain ⟨s, -, rfl⟩ := (resolveHTTP_edgeBridge ha hh (normalizeHost_idem host)).mp hb
    have hmem : 'l' ∈ (ruleMaterialized (normalizeHost host) s).binding.address.toList :=
      mem_buildServiceAddress s.rule.backend.name s.rule.backend.namespace_
    have hurl := upstreamURL_ne_empty hmem (by decide)
    rw [Option.bind_some, Option.map_some]
    exact proxied_resultFromBinding hurl

/-- Both ways lead to the same target exactly where the two choices among
the rules for the host do. -/
theorem replicatedTarget_eq_resolvedTarget_iff
    (ha : ∀ route ∈ o.httpRoutes.rows, Attached o.gateways route)
    (hrange : ∀ l, (range l).Perm l) :
    replicatedTarget o m order range host p = resolvedTarget o host p
      ↔ (normalizeHost host ≠ "" → SameChoice (ServedRule.matchesByPrefix p)
        (ServedRule.matchesByElement p) (ServedRule.replicaRank (normalizeHost host))
        ServedRule.bridgeRank (servedRules o.httpRoutes.rows (normalizeHost host))
        (ServedRule.replicaTarget o.services (normalizeHost host))
        (ServedRule.bridgeTarget (normalizeHost host))) := by
  by_cases hh : normalizeHost host = ""
  · have hnone : ∀ src, proxied (routeByKind src .new host p .http) = none := by
      intro src
      simp only [routeByKind, if_pos hh]
      rfl
    rw [replicatedTarget, resolvedTarget, hnone, hnone]
    exact ⟨fun _ hne => absurd hh hne, fun _ => rfl⟩
  · have hreplica : ∀ binding,
        replicaBinding (loadedRepo o m order range) (normalizeHost host) p = some binding
        ↔ ∃ s, IsBest (ServedRule.matchesByPrefix p)
            (ServedRule.replicaRank (normalizeHost host))
            (servedRules o.httpRoutes.rows (normalizeHost host)) s
          ∧ rowBinding (normalizeHost host) (ruleRow o.masterBridge (normalizeHost host) s)
            = binding := fun binding => replicaBinding_loadedRepo ha hrange hh
    have hbridge : ∀ backend,
        o.edgeBridge.rebuildRoutes.resolveHTTP (normalizeHost host) p = some backend
        ↔ ∃ s, IsBest (ServedRule.matchesByElement p) ServedRule.bridgeRank
            (servedRules o.httpRoutes.rows (normalizeHost host)) s
          ∧ ResolvedRoutes.materializedToResolved (ruleMaterialized (normalizeHost host) s)
            = backend := fun backend => resolveHTTP_edgeBridge ha hh (normalizeHost_idem host)
    have htarget : ∀ s, bindingTarget (normalizeHost host) (ResolvedRoutes.materializedToResolved
        (ruleMaterialized (normalizeHost host) s)).binding = s.bridgeTarget (normalizeHost host) :=
      fun s => bindingTarget_ruleMaterialized s
    rw [replicatedTarget_eq_map ha hrange hh, resolvedTarget_eq_map ha hh]
    refine (map_eq_map_iff hreplica hbridge).trans ?_
    simp only [bindingTarget_rowBinding, htarget]
    exact ⟨fun hsame _ => hsame, fun hsame => hsame hh⟩

/-- An HTTPRoute for `a.example` with a rule for `/api` and one for `/`. -/
def exampleHTTPRoute : K8s.HTTPRoute where
  namespace_ := K8s.exampleNamespace
  name := K8s.exampleName
  hostnames := [K8s.exampleHost]
  parentRefs := [{ name := "edge", sectionName := "plain" }]
  rules := [
    { pathMatches := [{ value := some "/api" }], backendRefs := [{ name := "blue", port := 8080 }] },
    { pathMatches := [{ value := some "/" }], backendRefs := [{ name := "green", port := 8080 }] }]

def exampleObjects : GatewayObjects where
  gateways := Table.empty.upsert
    { namespace_ := K8s.exampleNamespace, name := K8s.exampleName
      listeners := [{ name := "plain", protocol := "HTTP", hostname := K8s.exampleHost }] }
  httpRoutes := Table.empty.upsert exampleHTTPRoute
  services := .empty

theorem attached_example : Attached exampleObjects.gateways exampleHTTPRoute := by
  have hselected : selectedListeners exampleObjects.gateways exampleHTTPRoute
      = [{ name := "plain", protocol := "HTTP", hostname := K8s.exampleHost }] := by
    rfl
  refine ⟨by simp [exampleHTTPRoute], by simp [exampleHTTPRoute], by simp [hselected], ?_⟩
  intro listener hlistener
  rw [hselected] at hlistener
  obtain rfl := mem_singleton.mp hlistener
  exact ⟨by decide +kernel, by decide +kernel⟩

theorem replicatedTarget_eq_resolvedTarget_iff_other :
    SameChoice (ServedRule.matchesByPrefix "/other") (ServedRule.matchesByElement "/other")
      (ServedRule.replicaRank (normalizeHost "a.example")) ServedRule.bridgeRank
      (servedRules exampleObjects.httpRoutes.rows (normalizeHost "a.example"))
      (ServedRule.replicaTarget .empty (normalizeHost "a.example"))
      (ServedRule.bridgeTarget (normalizeHost "a.example")) := by
  have ha : ∀ route ∈ exampleObjects.httpRoutes.rows, Attached exampleObjects.gateways route := by
    intro route hroute
    obtain rfl : route = exampleHTTPRoute := mem_singleton.mp hroute
    exact attached_example
  have heq : replicatedTarget exampleObjects ⟨.empty, .empty, [], none⟩
      K8sBridge.GatewayNode.inOrder id "a.example" "/other"
      = resolvedTarget exampleObjects "a.example" "/other" := by
    decide +kernel
  exact (replicatedTarget_eq_resolvedTarget_iff ha List.Perm.refl).mp heq (by decide +kernel)

/-- The bridge of the edge proxies `/api/users` to the same upstream, but
for all paths. -/
theorem api_target_differs :
    Attached exampleObjects.gateways exampleHTTPRoute
      ∧ replicatedTarget exampleObjects ⟨.empty, .empty, [], none⟩ K8sBridge.GatewayNode.inOrder id
        "a.example" "/api/users"
        = some ⟨"a.example", "http://blue.web.svc.cluster.local:8080", "http", "/api"⟩
      ∧ resolvedTarget exampleObjects "a.example" "/api/users"
        = some ⟨"a.example", "http://blue.web.svc.cluster.local:8080", "http", "/"⟩ := by
  refine ⟨attached_example, ?_, ?_⟩ <;> decide +kernel

end Agreement

end Ingress

end LunaEdge
