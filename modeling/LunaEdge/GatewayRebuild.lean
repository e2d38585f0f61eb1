import LunaEdge.MasterGateway
import LunaEdge.Runs

/-!
# Incremental synchronisation of the Gateway bridge

Each handler of the Gateway bridge has its own idea of the hosts an event
concerns: the listeners' hosts of a Gateway, the host names of a route,
the hosts no object names any more. What a host gets is decided by its
attachments, the routes that reach it with the listeners they reach it
through (`get?_materializeByHost`). A handler that misses a host with
changed attachments leaves it stale: a Gateway stored or deleted under
routes with host names of their own, a route without host names, a route
whose delete arrives as a tombstone.

Along the events that change the attachments of no host they miss, the
repository holds exactly the rows of a rebuild, whatever order Go ranges
in, as long as the attachments of a host agree on its domain.
-/

namespace LunaEdge

open Session Runs List

namespace K8sBridge

-- host names are compared here and never computed
attribute [local irreducible] normalizeHost

/-! ## Attachments -/

/-- A listener that reaches a host, and the position of the host in the
route. -/
abbrev Reach := GatewayListener × Nat

/-- The routes that reach something, with what they reach it through. -/
def attachments {R : Type} (reach : R → List Reach) (routes : List R) : List (R × List Reach) :=
  (routes.map fun route => (route, reach route)).filter fun a => a.2 ≠ []

def visits {R : Type} (as : List (R × List Reach)) : List (R × Reach) :=
  as.flatMap fun a => a.2.map fun c => (a.1, c)

section Attachments

variable {R : Type} {reach : R → List Reach} {routes : List R}

theorem mem_attachments {a : R × List Reach} :
    a ∈ attachments reach routes ↔ a.1 ∈ routes ∧ reach a.1 = a.2 ∧ a.2 ≠ [] := by
  obtain ⟨route, cs⟩ := a
  simp only [attachments, mem_filter, mem_map, Prod.mk.injEq, decide_eq_true_eq]
  constructor
  · rintro ⟨⟨route', hmem, rfl, rfl⟩, hne⟩
    exact ⟨hmem, rfl, hne⟩
  · rintro ⟨hmem, rfl, hne⟩
    exact ⟨⟨route, hmem, rfl, rfl⟩, hne⟩

theorem attachments_perm {routes' : List R} (hperm : routes.Perm routes') :
    (attachments reach routes).Perm (attachments reach routes') :=
  (hperm.map _).filter _

theorem foldl_attachments {β : Type} (f : β → R → Reach → β) (x : β) :
    routes.foldl (fun x route => (reach route).foldl (fun x c => f x route c) x) x
      = (visits (attachments reach routes)).foldl (fun x v => f x v.1 v.2) x := by
  rw [visits, foldl_flatMap, attachments, foldl_filter, foldl_map]
  congr 1
  funext x route
  by_cases hreach : reach route = []
  · simp [hreach]
  · simp [hreach, foldl_map]

theorem getLast?_visits {as : List (R × List Reach)} {v : R × Reach} (has : ∀ a ∈ as, a.2 ≠ [])
    (hlast : (visits as).getLast? = some v) : ∃ a ∈ as, a.1 = v.1 ∧ a.2.getLast? = some v.2 := by
  cases as using List.reverseRecOn with
  | nil => cases hlast
  | append_singleton as a =>
    have hne : a.2.map (fun c => (a.1, c)) ≠ [] :=
      fun h => has a (by simp) (map_eq_nil_iff.mp h)
    rw [visits, flatMap_append, flatMap_singleton, List.getLast?_append_of_ne_nil _ hne,
      List.getLast?_map] at hlast
    obtain ⟨c, hc, rfl⟩ := Option.map_eq_some_iff.mp hlast
    exact ⟨a, by simp, rfl, hc⟩

end Attachments

namespace GatewayBridge

def reach (b : GatewayBridge) (serves : GatewayListener → Bool) (parents : List GatewayParent)
    (hostnames : List K8s.HostName) (h : String) : List Reach :=
  parents.flatMap fun parent =>
    ((b.gateways.find? parent.gatewayKey).elim [] (·.listeners)).flatMap fun listener =>
      if (parent.sectionName = "" ∨ parent.sectionName = listener.name) ∧ serves listener then
        ((hostsForRoute hostnames listener).zipIdx.filter fun entry =>
          normalizeHost entry.1.val = h).map fun entry => (listener, entry.2)
      else []

variable {b : GatewayBridge} {h : String} {hostSet : List String}

theorem get?_setHost (hset : "" ∉ hostSet) (host : String)
    (f : String → Option DomainMaterialized → DomainMaterialized)
    (out : GoMap String DomainMaterialized) :
    (if host ∉ hostSet || host = "" then out else out.set host (f host (out.get? host))).get? h
      = if h ∈ hostSet ∧ host = h then some (f h (out.get? h)) else out.get? h := by
  by_cases heq : host = h
  · subst heq
    by_cases hmem : host ∈ hostSet
    · have hne : host ≠ "" := fun h => hset (h ▸ hmem)
      simp [hmem, hne, GoMap.get?_set]
    · simp [hmem]
  · rw [if_neg (c := h ∈ hostSet ∧ host = h) fun hx => heq hx.2]
    split
    · rfl
    · rw [GoMap.get?_set, if_neg heq]

section Loops

variable (b) (h) (hostSet) (serves : GatewayListener → Bool)
  (body : GatewayListener → String → Nat → Option DomainMaterialized → DomainMaterialized)
  (hostnames : List K8s.HostName)

def entryAfterHost (listener : GatewayListener) (item : Option DomainMaterialized)
    (entry : K8s.HostName × Nat) : Option DomainMaterialized :=
  if h ∈ hostSet ∧ normalizeHost entry.1.val = h then some (body listener h entry.2 item)
  else item

def entryAfterListener (parent : GatewayParent) (item : Option DomainMaterialized)
    (listener : GatewayListener) : Option DomainMaterialized :=
  if (parent.sectionName = "" ∨ parent.sectionName = listener.name) ∧ serves listener then
    (hostsForRoute hostnames listener).zipIdx.foldl (entryAfterHost h hostSet body listener) item
  else item

def entryAfterParent (item : Option DomainMaterialized) (parent : GatewayParent) :
    Option DomainMaterialized :=
  ((b.gateways.find? parent.gatewayKey).elim [] (·.listeners)).foldl
    (entryAfterListener h hostSet serves body hostnames parent) item

variable {b h hostSet}

theorem get?_overHosts_loops (hset : "" ∉ hostSet) (parents : List GatewayParent)
    (out : GoMap String DomainMaterialized) :
    (b.overHosts hostSet parents hostnames serves body out).get? h
      = parents.foldl (entryAfterParent b h hostSet serves body hostnames) (out.get? h) := by
  refine GoMap.get?_foldl _ (fun out parent => ?_) parents out
  cases hgw : b.gateways.find? parent.gatewayKey with
  | none => simp [entryAfterParent, hgw]
  | some gw =>
    simp only [entryAfterParent, hgw, Option.elim_some]
    refine GoMap.get?_foldl (entryAfterListener h hostSet serves body hostnames parent)
      (fun out listener => ?_) gw.listeners out
    simp only [entryAfterListener]
    by_cases hsection : parent.sectionName = "" ∨ parent.sectionName = listener.name
    · rw [if_neg (by rcases hsection with heq | heq <;> simp [heq])]
      cases hserves : serves listener with
      | false => simp
      | true =>
        simp only [Bool.not_true, Bool.false_eq_true, if_false, and_true, hsection, if_true]
        exact GoMap.get?_foldl (entryAfterHost h hostSet body listener) (fun out entry =>
          get?_setHost hset (normalizeHost entry.1.val)
            (fun host item => body listener host entry.2 item) out) _ out
    · obtain ⟨hne, hother⟩ := not_or.mp hsection
      rw [if_pos (by simp [hne, hother]), if_neg fun hx => hsection hx.1]

theorem foldl_entryAfterParent (hmem : h ∈ hostSet) (parents : List GatewayParent)
    (item : Option DomainMaterialized) :
    parents.foldl (entryAfterParent b h hostSet serves body hostnames) item
      = (b.reach serves parents hostnames h).foldl (fun item c => some (body c.1 h c.2 item))
          item := by
  rw [reach, foldl_flatMap]
  congr 1
  funext item parent
  simp only [entryAfterParent, foldl_flatMap]
  congr 1
  funext item listener
  simp only [entryAfterListener]
  split
  · simp only [foldl_map, foldl_filter, decide_eq_true_eq]
    congr 1
    funext item entry
    simp only [entryAfterHost, hmem, true_and]
  · rfl

theorem entryAfterParent_of_not_mem (hmem : h ∉ hostSet) (item : Option DomainMaterialized)
    (parent : GatewayParent) :
    entryAfterParent b h hostSet serves body hostnames item parent = item := by
  have hhost : ∀ listener item entry, entryAfterHost h hostSet body listener item entry = item :=
    fun _ _ _ => if_neg fun hx => hmem hx.1
  have hlistener : ∀ item listener,
      entryAfterListener h hostSet serves body hostnames parent item listener = item := by
    intro item listener
    simp only [entryAfterListener, foldl_fixed' (hhost listener item), ite_self]
  exact foldl_fixed' (hlistener item) _

end Loops

theorem get?_overHosts (hset : "" ∉ hostSet) (serves : GatewayListener → Bool)
    (body : GatewayListener → String → Nat → Option DomainMaterialized → DomainMaterialized)
    (parents : List GatewayParent) (hostnames : List K8s.HostName)
    (out : GoMap String DomainMaterialized) :
    (b.overHosts hostSet parents hostnames serves body out).get? h
      = if h ∈ hostSet then
          (b.reach serves parents hostnames h).foldl (fun item c => some (body c.1 h c.2 item))
            (out.get? h)
        else out.get? h := by
  rw [get?_overHosts_loops serves body hostnames hset]
  by_cases hmem : h ∈ hostSet
  · rw [if_pos hmem]
    exact foldl_entryAfterParent serves body hostnames hmem parents _
  · rw [if_neg hmem]
    exact foldl_fixed' (entryAfterParent_of_not_mem serves body hostnames hmem _) parents

variable {R : Type} {serves : GatewayListener → Bool} {item : DomainMaterialized}
  {b' : GatewayBridge} {https : List HTTPRouteState} {tlss : List TLSRouteState} {e : Event}
  {hosts : List String}

theorem get?_overRoutes (hset : "" ∉ hostSet) (parents : R → List GatewayParent)
    (hostnames : R → List K8s.HostName)
    (body : R → GatewayListener → String → Nat → Option DomainMaterialized → DomainMaterialized)
    (routes : List R) (out : GoMap String DomainMaterialized) :
    (routes.foldl (fun out route =>
        b.overHosts hostSet (parents route) (hostnames route) serves (body route) out) out).get? h
      = if h ∈ hostSet then
          (visits (attachments (fun route => b.reach serves (parents route) (hostnames route) h)
            routes)).foldl (fun item v => some (body v.1 v.2.1 h v.2.2 item)) (out.get? h)
        else out.get? h := by
  rw [← foldl_attachments fun item route c => some (body route c.1 h c.2 item)]
  have hroute := fun out route => get?_overHosts (b := b) (h := h) hset serves (body route)
    (parents route) (hostnames route) out
  by_cases hmem : h ∈ hostSet
  · simp only [hmem, if_true] at hroute ⊢
    exact GoMap.get?_foldl
      (fun item route => (b.reach serves (parents route) (hostnames route) h).foldl
        (fun item c => some (body route c.1 h c.2 item)) item) hroute routes out
  · simp only [hmem, if_false] at hroute ⊢
    rw [GoMap.get?_foldl (fun item _ => item) hroute, foldl_fixed]

/-! ## What a host gets -/

def httpAttachments (b : GatewayBridge) (routes : List HTTPRouteState) (h : String) :
    List (HTTPRouteState × List Reach) :=
  attachments (fun route => b.reach servesHTTP route.parents route.hostnames h) routes

def tlsAttachments (b : GatewayBridge) (routes : List TLSRouteState) (h : String) :
    List (TLSRouteState × List Reach) :=
  attachments (fun route => b.reach servesTLS route.parents route.hostnames h) routes

def httpItem (b : GatewayBridge) (h : String) (vs : List (HTTPRouteState × Reach)) :
    Option DomainMaterialized :=
  vs.foldl (fun item v => some (b.addHTTPRoute v.1 v.2.1 h v.2.2 item)) none

def hostPairs (b : GatewayBridge) (h : String) (vs : List (HTTPRouteState × Reach)) :
    List (ServiceBackendRef × HTTPRoute) :=
  vs.flatMap fun v => b.ruleRows v.1 h v.2.2

/-- The entry of a host with these attachments: the last TLS route of it,
or its HTTP routes. -/
def hostItem (b : GatewayBridge) (h : String) (has : List (HTTPRouteState × List Reach))
    (tas : List (TLSRouteState × List Reach)) : Option DomainMaterialized :=
  ((visits tas).getLast?.map fun v => b.addTLSRoute v.1 v.2.1 h v.2.2 none).or
    (b.httpItem h (visits has))

theorem foldl_addTLSRoute (vs : List (TLSRouteState × Reach)) (item : Option DomainMaterialized) :
    vs.foldl (fun item v => some (b.addTLSRoute v.1 v.2.1 h v.2.2 item)) item
      = (vs.getLast?.map fun v => b.addTLSRoute v.1 v.2.1 h v.2.2 none).or item := by
  cases vs using List.reverseRecOn with
  | nil => rfl
  | append_singleton vs v =>
    rw [foldl_append, List.getLast?_concat]
    rfl

/-- A materialised host is a function of its attachments. -/
theorem get?_materializeByHost (order : Order) (hosts : List String) (h : String) :
    (b.materializeByHost order hosts).get? h
      = if h ∈ targets hosts then
          (b.hostItem h (b.httpAttachments (order.httpRoutes b.httpRoutes.rows) h)
            (b.tlsAttachments (order.tlsRoutes b.tlsRoutes.rows) h)).map dedupe
        else none := by
  have hset : "" ∉ targets hosts := fun hmem => (mem_targets.mp hmem).1 rfl
  unfold materializeByHost
  dsimp only
  rw [GoMap.get?_mapValues, get?_overRoutes hset, get?_overRoutes hset]
  by_cases hmem : h ∈ targets hosts
  · simp only [hmem, if_true, foldl_addTLSRoute, GoMap.get?_empty]
    rfl
  · simp [hmem]

/-! ## Rows of a rule -/

theorem backendRow_spec (b : GatewayBridge) (id : String) (backend : GatewayBackend) :
    (b.backendRow id backend).id = id ∧ (b.backendRow id backend).deleted = false
      ∧ (b.backendRow id backend).type ≠ .unset := by
  have hsvc : ServiceBackendType.svc ≠ .unset := by decide
  have hexternal : ServiceBackendType.external ≠ .unset := by decide
  unfold backendRow resolveServiceBackendRef
  dsimp only
  split
  · exact ⟨rfl, rfl, hsvc⟩
  · split
    · exact ⟨rfl, rfl, hsvc⟩
    · split
      · exact ⟨rfl, rfl, hsvc⟩
      · generalize normalizeArbitraryEndpoint _ = endpoint
        split
        · exact ⟨rfl, rfl, hsvc⟩
        · exact ⟨rfl, rfl, hexternal⟩

theorem rowFields_ruleFields (route : HTTPRouteState) (hcolon : ':' ∉ h.toList)
    (idx ruleIdx : Nat) : RowFields h (ruleFields route h idx ruleIdx) := by
  refine ⟨?_, rfl⟩
  intro f hf
  simp only [ruleFields, mem_cons, not_mem_nil, or_false] at hf
  rcases hf with rfl | rfl | rfl | rfl | rfl | rfl
  · decide
  · exact route.namespace_.noColon
  · exact route.name.noColon
  · exact hcolon
  · exact Go.noColon_toString idx
  · exact Go.noColon_toString ruleIdx

theorem rowFields_tlsFields (route : TLSRouteState) (hcolon : ':' ∉ h.toList) (idx : Nat) :
    RowFields h (tlsFields route h idx) := by
  refine ⟨?_, rfl⟩
  intro f hf
  simp only [tlsFields, mem_cons, not_mem_nil, or_false] at hf
  rcases hf with rfl | rfl | rfl | rfl | rfl
  · decide
  · exact route.namespace_.noColon
  · exact route.name.noColon
  · exact hcolon
  · exact Go.noColon_toString idx

theorem mem_ruleRows {route : HTTPRouteState} {idx : Nat} {p : ServiceBackendRef × HTTPRoute} :
    p ∈ b.ruleRows route h idx ↔ ∃ ruleIdx rule, route.rules[ruleIdx]? = some rule
      ∧ p = (b.backendRow (backendID (ruleFields route h idx ruleIdx)) rule.backend,
        ruleRoute route h idx ruleIdx rule) := by
  simp only [ruleRows, mem_map, Prod.exists, mk_mem_zipIdx_iff_getElem?]
  constructor
  · rintro ⟨rule, ruleIdx, hrule, rfl⟩
    exact ⟨ruleIdx, rule, hrule, rfl⟩
  · rintro ⟨ruleIdx, rule, hrule, rfl⟩
    exact ⟨rule, ruleIdx, hrule, rfl⟩

variable {vs : List (HTTPRouteState × Reach)} {p q : ServiceBackendRef × HTTPRoute}

theorem pairOf_hostPairs (hcolon : ':' ∉ h.toList) : ∀ p ∈ b.hostPairs h vs, PairOf h p := by
  intro p hp
  obtain ⟨v, -, hp⟩ := mem_flatMap.mp hp
  obtain ⟨ruleIdx, rule, -, rfl⟩ := mem_ruleRows.mp hp
  obtain ⟨hid, hlive, htype⟩ :=
    b.backendRow_spec (backendID (ruleFields v.1 h v.2.2 ruleIdx)) rule.backend
  have hpath : (ruleRoute v.1 h v.2.2 ruleIdx rule).path ≠ "" := by
    simp only [ruleRoute]
    exact normalizePath_ne_empty rule.path
  exact ⟨⟨hlive, htype⟩, ⟨by rw [ruleRoute], by rw [ruleRoute], hpath⟩, _,
    rowFields_ruleFields v.1 hcolon v.2.2 ruleIdx, hid, by rw [ruleRoute], by rw [ruleRoute]⟩

/-- A key names one route. -/
abbrev DistinctRoutes (vs : List (HTTPRouteState × Reach)) : Prop :=
  ∀ v ∈ vs, ∀ v' ∈ vs, Keyed.key v.1 = Keyed.key v'.1 → v.1 = v'.1

theorem hostPairs_inj (hcolon : ':' ∉ h.toList) (hkeys : DistinctRoutes vs)
    (hp : p ∈ b.hostPairs h vs) (hq : q ∈ b.hostPairs h vs)
    (heq : p.1.id = q.1.id ∨ p.2.id = q.2.id) : p = q := by
  obtain ⟨v, hv, hp⟩ := mem_flatMap.mp hp
  obtain ⟨v', hv', hq⟩ := mem_flatMap.mp hq
  obtain ⟨ruleIdx, rule, hrule, rfl⟩ := mem_ruleRows.mp hp
  obtain ⟨ruleIdx', rule', hrule', rfl⟩ := mem_ruleRows.mp hq
  have hf := rowFields_ruleFields v.1 hcolon v.2.2 ruleIdx
  have hf' := rowFields_ruleFields v'.1 hcolon v'.2.2 ruleIdx'
  have hfields : ruleFields v.1 h v.2.2 ruleIdx = ruleFields v'.1 h v'.2.2 ruleIdx' := by
    rcases heq with heq | heq
    · refine hf.backendID_inj hf' ?_
      rwa [(b.backendRow_spec _ _).1, (b.backendRow_spec _ _).1] at heq
    · exact hf.routeID_inj hf' heq
  have hfields' := hfields
  simp only [ruleFields, List.cons.injEq, true_and, and_true] at hfields'
  obtain ⟨hns, hname, hidx, hruleIdx⟩ := hfields'
  have hroute : v.1 = v'.1 := by
    refine hkeys v hv v' hv' ?_
    show K8s.objectKey _ _ = K8s.objectKey _ _
    rw [K8s.objectKey, K8s.objectKey, hns, hname]
  obtain rfl := Go.toString_inj hruleIdx
  rw [hroute] at hrule
  obtain rfl := Option.some.inj (hrule.symm.trans hrule')
  rw [hfields, ruleRoute, ruleRoute, hfields]

theorem collects_addHTTPRoute (b : GatewayBridge) (h : String) :
    Collects (C := HTTPRouteState × Reach)
      (fun item v => some (b.addHTTPRoute v.1 v.2.1 h v.2.2 item)) (httpDomain ·.2.1 h)
      fun v => b.ruleRows v.1 h v.2.2 := fun _ _ => rfl

theorem of_httpItem (hitem : b.httpItem h vs = some item) :
    (∃ v, vs.getLast? = some v ∧ item.domain = httpDomain v.2.1 h)
      ∧ item.backends = (b.hostPairs h vs).map (·.1)
      ∧ item.routes = (b.hostPairs h vs).map (·.2) :=
  (b.collects_addHTTPRoute h).of_eq_some hitem

theorem httpItem_eq_none_iff : b.httpItem h vs = none ↔ vs = [] :=
  (b.collects_addHTTPRoute h).eq_none_iff

theorem httpDomain_spec (listener : GatewayListener) (host : String) :
    (httpDomain listener host).hostname = host ∧ (httpDomain listener host).deleted = false
      ∧ (httpDomain listener host).bindedServiceID = "" := by
  unfold httpDomain
  dsimp only
  split
  · exact ⟨rfl, rfl, rfl⟩
  · split <;> exact ⟨rfl, rfl, rfl⟩

theorem httpDomain_congr {listener listener' : GatewayListener}
    (heq : listener.protocol = listener'.protocol) (host : String) :
    httpDomain listener host = httpDomain listener' host := by
  simp only [httpDomain, heq]

/-! ## Domains of the attachments -/

theorem rows_dedupe (hcolon : ':' ∉ h.toList) (hkeys : DistinctRoutes vs)
    (hitem : b.httpItem h vs = some item) :
    (∀ r, r ∈ (dedupe item).routes ↔ ∃ p ∈ b.hostPairs h vs, p.2 = r)
      ∧ ∀ backend, backend ∈ (dedupe item).backends ↔ ∃ p ∈ b.hostPairs h vs, p.1 = backend := by
  obtain ⟨-, hbackends, hroutes⟩ := of_httpItem hitem
  have hrow : ∀ {ρ : Type} [Keyed ρ String] (row : ServiceBackendRef × HTTPRoute → ρ),
      (∀ p q, Keyed.key (row p) = Keyed.key (row q) → p.1.id = q.1.id ∨ p.2.id = q.2.id) →
      ∀ r, r ∈ dedupeByID [] ((b.hostPairs h vs).map row) ↔ ∃ p ∈ b.hostPairs h vs, row p = r := by
    intro ρ _ row hid r
    rw [mem_dedupeByID, mem_map]
    intro r hr r' hr' heq
    obtain ⟨p, hp, rfl⟩ := mem_map.mp hr
    obtain ⟨q, hq, rfl⟩ := mem_map.mp hr'
    rw [hostPairs_inj hcolon hkeys hp hq (hid p q heq)]
  simp only [dedupe, hbackends, hroutes]
  exact ⟨hrow (·.2) fun _ _ => Or.inr, hrow (·.1) fun _ _ => Or.inl⟩

theorem managed_httpItem (hcolon : ':' ∉ h.toList) (hkeys : DistinctRoutes vs)
    (hitem : b.httpItem h vs = some item) : Managed h (dedupe item) := by
  obtain ⟨⟨v, -, hdomain⟩, -, -⟩ := of_httpItem hitem
  obtain ⟨hroutes, hbackends⟩ := rows_dedupe hcolon hkeys hitem
  have hd : (dedupe item).domain = httpDomain v.2.1 h := hdomain
  obtain ⟨hhost, hlive, hbinded⟩ := httpDomain_spec v.2.1 h
  exact .of_pairs (hd ▸ hhost) (hd ▸ hlive) (hd ▸ hbinded) (pairOf_hostPairs hcolon) hroutes
    hbackends (nodup_dedupeByID [] item.routes) (nodup_dedupeByID [] item.backends)

theorem managed_addTLSRoute (b : GatewayBridge) (hcolon : ':' ∉ h.toList) (route : TLSRouteState)
    (c : Reach) : Managed h (dedupe (b.addTLSRoute route c.1 h c.2 none)) := by
  obtain ⟨hid, hlive, htype⟩ := b.backendRow_spec (backendID (tlsFields route h c.2)) route.backend
  have hf := rowFields_tlsFields route hcolon c.2
  refine ⟨rfl, rfl, Or.inr ?_, fun r hr => ?_, nodup_nil, fun r hr => ?_, fun row hrow => ?_,
    nodup_singleton _⟩
  · exact mem_singleton.mpr hid.symm
  · cases hr
  · cases hr
  · obtain rfl := mem_singleton.mp hrow
    exact ⟨hlive, htype, ⟨_, hf, hid⟩, Or.inl hid⟩

variable {has : List (HTTPRouteState × List Reach)} {tas : List (TLSRouteState × List Reach)}

theorem of_mem_visits {as : List (R × List Reach)} {v : R × Reach} (hv : v ∈ visits as) :
    ∃ a ∈ as, a.1 = v.1 := by
  obtain ⟨a, ha, hv⟩ := mem_flatMap.mp hv
  obtain ⟨c, -, rfl⟩ := mem_map.mp hv
  exact ⟨a, ha, rfl⟩

theorem managed_hostItem (hcolon : ':' ∉ h.toList)
    (hkeys : ∀ a ∈ has, ∀ a' ∈ has, Keyed.key a.1 = Keyed.key a'.1 → a.1 = a'.1)
    (hitem : b.hostItem h has tas = some item) : Managed h (dedupe item) := by
  unfold hostItem at hitem
  cases hlast : (visits tas).getLast? with
  | some v =>
    rw [hlast] at hitem
    obtain rfl := Option.some.inj hitem
    exact managed_addTLSRoute b hcolon v.1 v.2
  | none =>
    rw [hlast] at hitem
    refine managed_httpItem hcolon (fun v hv v' hv' hkey => ?_) hitem
    obtain ⟨a, ha, heq⟩ := of_mem_visits hv
    obtain ⟨a', ha', heq'⟩ := of_mem_visits hv'
    rw [← heq, ← heq'] at hkey ⊢
    exact hkeys a ha a' ha' hkey

/-- Attachments that agree on the domain of the host: one TLS route, or
HTTP routes that end in listeners of one protocol. -/
structure Agree (has : List (HTTPRouteState × List Reach))
    (tas : List (TLSRouteState × List Reach)) : Prop where
  tls : tas.length ≤ 1
  http : tas ≠ [] ∨ ∀ a ∈ has, ∀ a' ∈ has, ∀ c ∈ a.2.getLast?, ∀ c' ∈ a'.2.getLast?,
    c.1.protocol = c'.1.protocol

theorem backendRow_congr (hservices : b'.services = b.services) : b'.backendRow = b.backendRow := by
  funext id backend
  simp only [backendRow, resolveServiceBackendRef, hservices]

theorem visits_perm {as as' : List (R × List Reach)} (hperm : as.Perm as') :
    (visits as).Perm (visits as') :=
  hperm.flatMap_right _

theorem sameRows_httpItem {vs' : List (HTTPRouteState × Reach)}
    (hservices : b'.services = b.services) (hcolon : ':' ∉ h.toList)
    (hkeys : DistinctRoutes vs) (hperm : vs.Perm vs')
    (hagree : ∀ v ∈ vs.getLast?, ∀ v' ∈ vs'.getLast?, v.2.1.protocol = v'.2.1.protocol) :
    Option.Rel SameRows ((b.httpItem h vs).map dedupe) ((b'.httpItem h vs').map dedupe) := by
  refine (b.collects_addHTTPRoute h).sameRows (b'.collects_addHTTPRoute h) hperm
    fun item item' hitem hitem' => ?_
  have hkeys' : DistinctRoutes vs' := fun v hv v' hv' =>
    hkeys v (hperm.mem_iff.mpr hv) v' (hperm.mem_iff.mpr hv')
  have hpairs : ∀ p, p ∈ b.hostPairs h vs ↔ p ∈ b'.hostPairs h vs' := by
    intro p
    simp only [hostPairs, ruleRows, backendRow_congr hservices]
    exact (hperm.flatMap_right _).mem_iff
  obtain ⟨⟨v, hv, hdomain⟩, -, -⟩ := of_httpItem hitem
  obtain ⟨⟨v', hv', hdomain'⟩, -, -⟩ := of_httpItem hitem'
  obtain ⟨hroutes, hbackends⟩ := rows_dedupe hcolon hkeys hitem
  obtain ⟨hroutes', hbackends'⟩ := rows_dedupe hcolon hkeys' hitem'
  refine ⟨?_, fun r => ?_, fun backend => ?_⟩
  · show item.domain = item'.domain
    rw [hdomain, hdomain', httpDomain_congr (hagree v hv v' hv')]
  · simp only [hroutes, hroutes', hpairs]
  · simp only [hbackends, hbackends', hpairs]

theorem sameRows_hostItem {has' : List (HTTPRouteState × List Reach)}
    {tas' : List (TLSRouteState × List Reach)} (hservices : b'.services = b.services)
    (hcolon : ':' ∉ h.toList)
    (hkeys : ∀ a ∈ has, ∀ a' ∈ has, Keyed.key a.1 = Keyed.key a'.1 → a.1 = a'.1)
    (hhas : has.Perm has') (htas : tas.Perm tas') (hne : ∀ a ∈ has, a.2 ≠ [])
    (hne' : ∀ a ∈ tas, a.2 ≠ []) (hagree : Agree has tas) :
    Option.Rel SameRows ((b.hostItem h has tas).map dedupe)
      ((b'.hostItem h has' tas').map dedupe) := by
  have heq : tas = tas' := by
    rcases tas with _ | ⟨a, _ | ⟨a', tas⟩⟩
    · exact htas.nil_eq
    · exact htas.singleton_eq
    · have hlen := hagree.tls
      simp at hlen
  subst heq
  unfold hostItem
  cases hlast : (visits tas).getLast? with
  | some v =>
    refine .some ?_
    simp only [addTLSRoute, backendRow_congr hservices]
    exact .refl _
  | none =>
    have hnil : tas = [] := by
      refine eq_nil_iff_forall_not_mem.mpr fun a ha => ?_
      obtain ⟨c, hc⟩ := exists_mem_of_ne_nil _ (hne' a ha)
      have hmem : (a.1, c) ∈ visits tas := mem_flatMap.mpr ⟨a, ha, mem_map.mpr ⟨c, hc, rfl⟩⟩
      rw [List.getLast?_eq_none_iff.mp hlast] at hmem
      cases hmem
    refine sameRows_httpItem hservices hcolon (fun v hv v' hv' hkey => ?_) (visits_perm hhas) ?_
    · obtain ⟨a, ha, heq⟩ := of_mem_visits hv
      obtain ⟨a', ha', heq'⟩ := of_mem_visits hv'
      rw [← heq, ← heq'] at hkey ⊢
      exact hkeys a ha a' ha' hkey
    · intro v hv v' hv'
      obtain ⟨a, ha, -, hc⟩ := getLast?_visits hne hv
      obtain ⟨a', ha', -, hc'⟩ := getLast?_visits (fun a ha => hne a (hhas.mem_iff.mpr ha)) hv'
      exact hagree.http.resolve_left (not_not.mpr hnil) a ha a' (hhas.mem_iff.mpr ha') v.2 hc
        v'.2 hc'

/-! ## The rebuild -/

def rebuilt (b : GatewayBridge) (https : List HTTPRouteState) (tlss : List TLSRouteState) :
    Domains := fun h =>
  if h = "" then none
  else (b.hostItem h (b.httpAttachments https h) (b.tlsAttachments tlss h)).map dedupe

/-- The host of an attachment is one of the route or of a listener. -/
theorem host_of_reach {parents : List GatewayParent} {hostnames : List K8s.HostName} {c : Reach}
    (hc : c ∈ b.reach serves parents hostnames h) :
    ∃ host : K8s.HostName, host.val = h ∧ (host ∈ hostnames
      ∨ ∃ gw ∈ b.gateways.rows, ∃ listener ∈ gw.listeners, listener.hostname = host) := by
  obtain ⟨parent, -, hc⟩ := mem_flatMap.mp hc
  obtain ⟨listener, hlistener, hc⟩ := mem_flatMap.mp hc
  split at hc
  · obtain ⟨⟨host, idx⟩, hentry, -⟩ := mem_map.mp hc
    obtain ⟨hentry, hnorm⟩ := mem_filter.mp hentry
    rw [decide_eq_true_eq, K8s.HostName.normalizeHost_val] at hnorm
    have hmem : host ∈ hostsForRoute hostnames listener := (mem_zipIdx' hentry).2 ▸ getElem_mem _
    refine ⟨host, hnorm, ?_⟩
    unfold hostsForRoute at hmem
    split at hmem
    · rw [mem_singleton] at hmem
      cases hgw : b.gateways.find? parent.gatewayKey with
      | none => simp [hgw] at hlistener
      | some gw =>
        rw [hgw] at hlistener
        exact Or.inr ⟨gw, Table.mem_of_find? hgw, listener, hlistener, hmem.symm⟩
    · exact Or.inl hmem
  · cases hc

theorem mem_normalizeHosts {hosts : List K8s.HostName} :
    h ∈ normalizeHosts hosts ↔ h ≠ "" ∧ ∃ host ∈ hosts, host.val = h :=
  mem_targets_hostNames

theorem mem_collectHosts : h ∈ b.collectHosts ↔ (∃ gw ∈ b.gateways.rows, h ∈ gatewayHosts gw)
    ∨ (∃ route ∈ b.httpRoutes.rows, h ∈ normalizeHosts route.hostnames)
    ∨ ∃ route ∈ b.tlsRoutes.rows, h ∈ normalizeHosts route.hostnames := by
  rw [collectHosts, mem_mapKeys, mem_append, mem_append, or_assoc]
  simp only [mem_flatMap]

theorem collected_of_reach {parents : List GatewayParent} {hostnames : List K8s.HostName}
    {c : Reach} (hh : h ≠ "") (hc : c ∈ b.reach serves parents hostnames h)
    (hnames : h ∈ normalizeHosts hostnames → h ∈ b.collectHosts) : h ∈ b.collectHosts := by
  obtain ⟨host, hval, hmem | ⟨gw, hgw, listener, hlistener, heq⟩⟩ := host_of_reach hc
  · exact hnames (mem_normalizeHosts.mpr ⟨hh, host, hmem, hval⟩)
  · refine mem_collectHosts.mpr (Or.inl ⟨gw, hgw, mem_normalizeHosts.mpr ⟨hh, host, ?_, hval⟩⟩)
    exact mem_map.mpr ⟨listener, hlistener, heq⟩

theorem attachments_eq_nil {parents : R → List GatewayParent} {hostnames : R → List K8s.HostName}
    {routes : List R} (hh : h ≠ "") (hnot : h ∉ b.collectHosts)
    (hnames : ∀ r ∈ routes, h ∈ normalizeHosts (hostnames r) → h ∈ b.collectHosts) :
    attachments (fun r => b.reach serves (parents r) (hostnames r) h) routes = [] := by
  refine eq_nil_iff_forall_not_mem.mpr fun a ha => hnot ?_
  obtain ⟨hroute, hreach, hne⟩ := mem_attachments.mp ha
  obtain ⟨c, hc⟩ := exists_mem_of_ne_nil _ hne
  rw [← hreach] at hc
  exact collected_of_reach hh hc (hnames a.1 hroute)

theorem httpAttachments_eq_nil (hh : h ≠ "") (hsub : https ⊆ b.httpRoutes.rows)
    (hnot : h ∉ b.collectHosts) : b.httpAttachments https h = [] :=
  attachments_eq_nil hh hnot fun route hroute hx =>
    mem_collectHosts.mpr (Or.inr (Or.inl ⟨route, hsub hroute, hx⟩))

theorem tlsAttachments_eq_nil (hh : h ≠ "") (hsub : tlss ⊆ b.tlsRoutes.rows)
    (hnot : h ∉ b.collectHosts) : b.tlsAttachments tlss h = [] :=
  attachments_eq_nil hh hnot fun route hroute hx =>
    mem_collectHosts.mpr (Or.inr (Or.inr ⟨route, hsub hroute, hx⟩))

theorem rebuilt_eq_none (hhttps : https ⊆ b.httpRoutes.rows) (htlss : tlss ⊆ b.tlsRoutes.rows)
    (hnot : h ∉ b.collectHosts) : b.rebuilt https tlss h = none := by
  unfold rebuilt
  by_cases hh : h = ""
  · rw [if_pos hh]
  · rw [if_neg hh, httpAttachments_eq_nil hh hhttps hnot, tlsAttachments_eq_nil hh htlss hnot]
    rfl

theorem httpAttachments_keys (hkeys : (https.map Keyed.key).Nodup) :
    ∀ a ∈ b.httpAttachments https h, ∀ a' ∈ b.httpAttachments https h,
      Keyed.key a.1 = Keyed.key a'.1 → a.1 = a'.1 := fun _ ha _ ha' =>
  inj_on_of_nodup_map hkeys (mem_attachments.mp ha).1 (mem_attachments.mp ha').1

theorem noColon_of_collected (hmem : h ∈ b.collectHosts) : ':' ∉ h.toList := by
  have hhosts : ∀ hosts, h ∈ normalizeHosts hosts → ':' ∉ h.toList := by
    intro hosts hmem
    obtain ⟨-, host, -, rfl⟩ := mem_normalizeHosts.mp hmem
    exact host.noColon
  rcases mem_collectHosts.mp hmem with ⟨gw, -, hmem⟩ | ⟨route, -, hmem⟩ | ⟨route, -, hmem⟩
  · exact hhosts _ hmem
  · exact hhosts _ hmem
  · exact hhosts _ hmem

theorem managed_rebuilt (hhttps : https ⊆ b.httpRoutes.rows) (htlss : tlss ⊆ b.tlsRoutes.rows)
    (hkeys : (https.map Keyed.key).Nodup) (hitem : b.rebuilt https tlss h = some item) :
    Managed h item := by
  have hmem : h ∈ b.collectHosts := by
    by_contra hnot
    rw [rebuilt_eq_none hhttps htlss hnot] at hitem
    cases hitem
  unfold rebuilt at hitem
  split at hitem
  · cases hitem
  · obtain ⟨raw, hraw, rfl⟩ := Option.map_eq_some_iff.mp hitem
    exact managed_hostItem (noColon_of_collected hmem) (httpAttachments_keys hkeys) hraw

def Consistent (b : GatewayBridge) : Prop :=
  ∀ h ∈ b.collectHosts,
    Agree (b.httpAttachments b.httpRoutes.rows h) (b.tlsAttachments b.tlsRoutes.rows h)

theorem sameRows_rebuilt (hb : b.Consistent) (hmem : h ∈ b.collectHosts)
    (hservices : b'.services = b.services)
    (hhas : (b.httpAttachments b.httpRoutes.rows h).Perm (b'.httpAttachments https h))
    (htas : (b.tlsAttachments b.tlsRoutes.rows h).Perm (b'.tlsAttachments tlss h)) :
    Option.Rel SameRows (b.rebuilt b.httpRoutes.rows b.tlsRoutes.rows h)
      (b'.rebuilt https tlss h) := by
  unfold rebuilt
  split
  · exact .none
  · exact sameRows_hostItem hservices (noColon_of_collected hmem)
      (httpAttachments_keys b.httpRoutes.nodup) hhas htas
      (fun a ha => (mem_attachments.mp ha).2.2) (fun a ha => (mem_attachments.mp ha).2.2) (hb h hmem)

/-! ## One event -/

/-- The condition on the objects before an event: it leaves them
consistent, and a host it neither materialises nor removes keeps its
attachments. -/
structure Covered (b : GatewayBridge) (e : Event) : Prop where
  consistent : (b.store e).Consistent
  untouched : ∀ h ∈ b.collectHosts ++ (b.store e).collectHosts,
    h ∉ b.affectedHosts e → h ∉ b.removedHosts e →
    (b.httpAttachments b.httpRoutes.rows h).Perm
        ((b.store e).httpAttachments (b.store e).httpRoutes.rows h)
      ∧ (b.tlsAttachments b.tlsRoutes.rows h).Perm
        ((b.store e).tlsAttachments (b.store e).tlsRoutes.rows h)

instance (has : List (HTTPRouteState × List Reach)) (tas : List (TLSRouteState × List Reach)) :
    Decidable (Agree has tas) :=
  decidable_of_iff (tas.length ≤ 1 ∧ (tas ≠ [] ∨ ∀ a ∈ has, ∀ a' ∈ has, ∀ c ∈ a.2.getLast?,
      ∀ c' ∈ a'.2.getLast?, c.1.protocol = c'.1.protocol))
    ⟨fun h => ⟨h.1, h.2⟩, fun h => ⟨h.1, h.2⟩⟩

instance (b : GatewayBridge) : Decidable b.Consistent :=
  inferInstanceAs (Decidable (∀ h ∈ b.collectHosts,
    Agree (b.httpAttachments b.httpRoutes.rows h) (b.tlsAttachments b.tlsRoutes.rows h)))

instance (b : GatewayBridge) (e : Event) : Decidable (b.Covered e) :=
  decidable_of_iff ((b.store e).Consistent ∧ ∀ h ∈ b.collectHosts ++ (b.store e).collectHosts,
      h ∈ b.affectedHosts e ∨ h ∈ b.removedHosts e
        ∨ (b.httpAttachments b.httpRoutes.rows h).Perm
            ((b.store e).httpAttachments (b.store e).httpRoutes.rows h)
          ∧ (b.tlsAttachments b.tlsRoutes.rows h).Perm
            ((b.store e).tlsAttachments (b.store e).tlsRoutes.rows h))
    ⟨fun h => ⟨h.1, fun host hmem haff hrem => ((h.2 host hmem).resolve_left haff).resolve_left hrem⟩,
      fun h => ⟨h.1, fun host hmem => or_iff_not_imp_left.mpr fun haff =>
        or_iff_not_imp_left.mpr fun hrem => h.2 host hmem haff hrem⟩⟩

theorem host_of_normalizeHosts {hosts : List K8s.HostName} (hmem : h ∈ normalizeHosts hosts) :
    h ≠ "" ∧ normalizeHost h = h := by
  obtain ⟨hne, host, -, rfl⟩ := mem_normalizeHosts.mp hmem
  exact ⟨hne, host.normalizeHost_val⟩

theorem host_of_collected (hmem : h ∈ b.collectHosts) : h ≠ "" ∧ normalizeHost h = h := by
  rcases mem_collectHosts.mp hmem with ⟨gw, -, hmem⟩ | ⟨route, -, hmem⟩ | ⟨route, -, hmem⟩
  · exact host_of_normalizeHosts hmem
  · exact host_of_normalizeHosts hmem
  · exact host_of_normalizeHosts hmem

theorem host_of_affected (hmem : h ∈ b.affectedHosts e) : h ≠ "" ∧ normalizeHost h = h := by
  have hdeleted : ∀ {α : Type} (hostnames : α → List K8s.HostName) (obj : K8s.Deleted α),
      h ∈ deletedHosts hostnames obj → h ≠ "" ∧ normalizeHost h = h := by
    intro α hostnames obj hmem
    cases obj with
    | object obj => exact host_of_normalizeHosts hmem
    | tombstone obj => cases hmem
  cases e with
  | storeGateway obj => exact host_of_normalizeHosts hmem
  | deleteGateway obj => cases hmem
  | storeHTTPRoute obj => exact host_of_normalizeHosts hmem
  | deleteHTTPRoute obj => exact hdeleted _ obj hmem
  | storeTLSRoute obj =>
    simp only [affectedHosts] at hmem
    cases hstate : parseTLSRouteState obj with
    | none => simp [hstate] at hmem
    | some state =>
      rw [hstate] at hmem
      exact host_of_normalizeHosts hmem
  | deleteTLSRoute obj => exact hdeleted _ obj hmem
  | storeService obj => exact host_of_collected hmem
  | deleteService obj => exact host_of_collected hmem

/-- A removed host is named by no object after the event. -/
theorem of_removed (hmem : h ∈ b.removedHosts e) :
    h ∈ b.collectHosts ∧ h ∉ (b.store e).collectHosts := by
  have hdiff : h ∈ diffStrings b.collectHosts (b.store e).collectHosts := by
    cases e with
    | deleteHTTPRoute obj | deleteTLSRoute obj => cases hmem
    | storeGateway obj | deleteGateway obj | storeHTTPRoute obj | storeTLSRoute obj
    | storeService obj | deleteService obj => exact hmem
  rwa [diffStrings, mem_filter, decide_eq_true_eq] at hdiff

theorem services_store (hnot : h ∉ b.affectedHosts e)
    (hmem : h ∈ b.collectHosts ∨ h ∈ (b.store e).collectHosts) :
    (b.store e).services = b.services := by
  cases e with
  | storeGateway obj => rfl
  | deleteGateway obj => cases hobj : obj.named <;> simp [store, hobj]
  | storeHTTPRoute obj => rfl
  | deleteHTTPRoute obj => cases hobj : obj.named <;> simp [store, hobj]
  | storeTLSRoute obj => cases hobj : parseTLSRouteState obj <;> simp [store, hobj]
  | deleteTLSRoute obj => cases hobj : obj.named <;> simp [store, hobj]
  | storeService obj => exact absurd (hmem.elim id id) hnot
  | deleteService obj =>
    refine absurd ?_ hnot
    rcases hmem with hmem | hmem
    · exact hmem
    · simp only [store] at hmem
      cases hobj : obj.named with
      | none => rwa [hobj] at hmem
      | some svc =>
        rw [hobj] at hmem
        exact hmem

theorem materializeByHost_rebuilt (order : Order) (hmem : h ∈ targets hosts) :
    (b.materializeByHost order hosts).get? h
      = b.rebuilt (order.httpRoutes b.httpRoutes.rows) (order.tlsRoutes b.tlsRoutes.rows) h := by
  rw [get?_materializeByHost, if_pos hmem, rebuilt, if_neg (mem_targets.mp hmem).1]

theorem sameRows_order (hb : b.Consistent) (order : Order) (h : String) :
    Option.Rel SameRows (b.rebuilt b.httpRoutes.rows b.tlsRoutes.rows h)
      (b.rebuilt (order.httpRoutes b.httpRoutes.rows) (order.tlsRoutes b.tlsRoutes.rows) h) := by
  by_cases hmem : h ∈ b.collectHosts
  · exact sameRows_rebuilt hb hmem rfl (attachments_perm (order.httpRoutes_perm _).symm)
      (attachments_perm (order.tlsRoutes_perm _).symm)
  · rw [rebuilt_eq_none (List.Subset.refl _) (List.Subset.refl _) hmem,
      rebuilt_eq_none (order.httpRoutes_perm _).subset (order.tlsRoutes_perm _).subset hmem]
    exact .none

theorem sameRows_synced (hb : b.Consistent) (he : b.Covered e) (order : Order) (h : String) :
    Option.Rel SameRows
      (synced (b.rebuilt b.httpRoutes.rows b.tlsRoutes.rows)
        ((b.store e).materializeByHost order (b.affectedHosts e)) (b.affectedHosts e)
        (b.removedHosts e) h)
      ((b.store e).rebuilt (b.store e).httpRoutes.rows (b.store e).tlsRoutes.rows h) := by
  have haff : h ∈ targets (b.affectedHosts e) ↔ h ∈ b.affectedHosts e :=
    mem_targets_of_hosts fun h' hmem => host_of_affected hmem
  have hrem : h ∈ targets (b.removedHosts e) ↔ h ∈ b.removedHosts e :=
    mem_targets_of_hosts fun h' hmem => host_of_collected (of_removed hmem).1
  unfold synced
  split
  · -- materialised again, in the order of the event
    rename_i hmem
    rw [materializeByHost_rebuilt order hmem]
    exact sameRows_symm (sameRows_order he.consistent order h)
  · rename_i hnot
    rw [haff] at hnot
    split
    · -- removed, and no object names it
      rename_i hmem
      rw [rebuilt_eq_none (List.Subset.refl _) (List.Subset.refl _) (of_removed (hrem.mp hmem)).2]
      exact .none
    · rename_i hnot'
      rw [hrem] at hnot'
      by_cases hmem : h ∈ b.collectHosts
      · obtain ⟨hhas, htas⟩ :=
          he.untouched h (mem_append_left _ hmem) hnot hnot'
        exact sameRows_rebuilt hb hmem (services_store hnot (Or.inl hmem)) hhas htas
      · rw [rebuilt_eq_none (List.Subset.refl _) (List.Subset.refl _) hmem]
        by_cases hmem' : h ∈ (b.store e).collectHosts
        · -- new, and it has the attachments it had: none
          obtain ⟨hhas, htas⟩ := he.untouched h (mem_append_right _ hmem') hnot hnot'
          have hne := (host_of_collected hmem').1
          rw [httpAttachments_eq_nil hne (List.Subset.refl _) hmem] at hhas
          rw [tlsAttachments_eq_nil hne (List.Subset.refl _) hmem] at htas
          rw [rebuilt, if_neg hne, hhas.nil_eq.symm, htas.nil_eq.symm]
          exact .none
        · rw [rebuilt_eq_none (List.Subset.refl _) (List.Subset.refl _) hmem']
          exact .none

theorem of_get?_materializeByHost {order : Order}
    (hitem : (b.materializeByHost order hosts).get? h = some item) :
    h ∈ targets hosts
      ∧ ∃ raw, b.hostItem h (b.httpAttachments (order.httpRoutes b.httpRoutes.rows) h)
          (b.tlsAttachments (order.tlsRoutes b.tlsRoutes.rows) h) = some raw
        ∧ dedupe raw = item := by
  rw [get?_materializeByHost] at hitem
  split at hitem
  · exact ⟨by assumption, Option.map_eq_some_iff.mp hitem⟩
  · cases hitem

/-- Whatever the bridge materialises for a host is `Managed`. -/
theorem managed_materialized {order : Order}
    (hitem : (b.materializeByHost order hosts).get? h = some item) : Managed h item := by
  rw [materializeByHost_rebuilt order (of_get?_materializeByHost hitem).1] at hitem
  refine managed_rebuilt (order.httpRoutes_perm _).subset (order.tlsRoutes_perm _).subset ?_ hitem
  exact ((order.httpRoutes_perm _).map _).nodup_iff.mpr b.httpRoutes.nodup

theorem handle_rebuilt {m : Master} (order : Order) {range : List HTTPRoute → List HTTPRoute}
    (hrange : ∀ l, (range l).Perm l) (hb : b.Consistent) (he : b.Covered e)
    (hm : Mirrors m.repo (b.rebuilt b.httpRoutes.rows b.tlsRoutes.rows)) :
    ∃ m', Done (b.handle order range e) m () m' ∧ Mirrors m'.repo
      ((b.store e).rebuilt (b.store e).httpRoutes.rows (b.store e).tlsRoutes.rows) := by
  have hnext : ∀ h item, ((b.store e).materializeByHost order (b.affectedHosts e)).get? h
      = some item → Managed h item := fun _ _ hitem => managed_materialized hitem
  obtain ⟨m', hdone, hm'⟩ := MasterM.syncHosts_done hrange hnext hm
  refine ⟨m', hdone, hm'.of_sameRows (sameRows_synced hb he order) fun h item hitem => ?_⟩
  exact managed_rebuilt (List.Subset.refl _) (List.Subset.refl _) (b.store e).httpRoutes.nodup hitem

theorem materializeByHost_collectHosts (order : Order) (h : String) :
    (b.materializeByHost order b.collectHosts).get? h
      = b.rebuilt (order.httpRoutes b.httpRoutes.rows) (order.tlsRoutes b.tlsRoutes.rows) h := by
  have hmem : h ∈ targets b.collectHosts ↔ h ∈ b.collectHosts :=
    mem_targets_of_hosts fun h' hmem => host_of_collected hmem
  by_cases hh : h ∈ targets b.collectHosts
  · exact materializeByHost_rebuilt order hh
  · rw [get?_materializeByHost, if_neg hh, rebuilt_eq_none (order.httpRoutes_perm _).subset
      (order.tlsRoutes_perm _).subset fun hx => hh (hmem.mpr hx)]

end GatewayBridge

/-! ## Runs -/

structure GatewayNode where
  bridge : GatewayBridge
  master : Master

namespace GatewayNode

open GatewayBridge

/-- An event, with the orders its handler ranges in. -/
structure Delivery where
  event : Event
  order : Order
  range : List HTTPRoute → List HTTPRoute
  range_perm : ∀ l, (range l).Perm l

def start (m : Master) : GatewayNode := ⟨{}, { m with repo := Repo.empty }⟩

def step (s : GatewayNode) (d : Delivery) : GatewayNode :=
  ⟨s.bridge.store d.event, (s.bridge.handle d.order d.range d.event ⟨s.master, []⟩).2.state⟩

/-- The repository holds what the stored objects are materialised to. -/
def Rebuilt (s : GatewayNode) : Prop :=
  ∀ order : Order, Holds s.master.repo (s.bridge.materializeByHost order s.bridge.collectHosts)

structure Mirroring (s : GatewayNode) : Prop where
  consistent : s.bridge.Consistent
  mirrors : Mirrors s.master.repo
    (s.bridge.rebuilt s.bridge.httpRoutes.rows s.bridge.tlsRoutes.rows)

theorem mirroring_start (m : Master) : (start m).Mirroring := by
  have hempty : ∀ h, h ∉ (start m).bridge.collectHosts := by
    intro h hmem
    rcases mem_collectHosts.mp hmem with ⟨gw, hgw, -⟩ | ⟨route, hroute, -⟩ | ⟨route, hroute, -⟩
    · cases hgw
    · cases hroute
    · cases hroute
  refine ⟨fun h hmem => absurd hmem (hempty h), ?_⟩
  refine cast (congrArg (Mirrors _) (funext fun h => ?_)) mirrors_empty
  exact (rebuilt_eq_none (List.Subset.refl _) (List.Subset.refl _) (hempty h)).symm

variable {s : GatewayNode}

theorem Mirroring.step {d : Delivery} (hs : s.Mirroring) (hd : s.bridge.Covered d.event) :
    (s.step d).Mirroring := by
  obtain ⟨m', hdone, hm'⟩ := handle_rebuilt d.order d.range_perm hs.consistent hd hs.mirrors
  refine ⟨hd.consistent, ?_⟩
  rw [GatewayNode.step, hdone.state_eq]
  exact hm'

theorem Mirroring.rebuilt (hs : s.Mirroring) : s.Rebuilt := by
  intro order
  have hm : Mirrors s.master.repo (s.bridge.rebuilt (order.httpRoutes s.bridge.httpRoutes.rows)
      (order.tlsRoutes s.bridge.tlsRoutes.rows)) := by
    refine hs.mirrors.of_sameRows (sameRows_order hs.consistent order) fun h item hitem => ?_
    refine managed_rebuilt (order.httpRoutes_perm _).subset (order.tlsRoutes_perm _).subset ?_ hitem
    exact ((order.httpRoutes_perm _).map _).nodup_iff.mpr s.bridge.httpRoutes.nodup
  exact hm.holds (materializeByHost_collectHosts order)

/-- Along every run of events that leave the attachments consistent and
change those of no host they miss, the repository holds after each event
exactly the rows of the rebuild. -/
theorem rebuilt_of_covered (m : Master) (deliveries : List Delivery)
    (hrun : Along step (fun s d => s.bridge.Covered d.event) (start m) deliveries) :
    (deliveries.foldl step (start m)).Rebuilt :=
  (hrun.invariant (I := Mirroring) (fun _ _ hs hd => hs.step hd) (mirroring_start m)).rebuilt

/-! ## Hosts a handler misses -/

def inOrder : Order := ⟨id, id, List.Perm.refl, List.Perm.refl⟩

def deliver (e : Event) : Delivery := ⟨e, inOrder, id, List.Perm.refl⟩

def exampleGateway : K8s.Gateway where
  namespace_ := K8s.exampleNamespace
  name := K8s.exampleName
  listeners := [{ name := "plain", protocol := "HTTP", hostname := .ofText "" (by decide) }]

def exampleRoute : K8s.HTTPRoute where
  namespace_ := K8s.exampleNamespace
  name := K8s.exampleName
  hostnames := [K8s.exampleHost]
  parentRefs := [{ name := "edge" }]
  rules := [{ backendRefs := [{ name := "svc", port := 8080 }] }]

def exampleStart : GatewayNode := start ⟨.empty, .empty, [], none⟩

def exampleStored : List Delivery :=
  [deliver (.storeGateway exampleGateway), deliver (.storeHTTPRoute exampleRoute)]

theorem rebuilt_of_covered_stored :
    Along step (fun s d => s.bridge.Covered d.event) exampleStart exampleStored
      ∧ (exampleStored.foldl step exampleStart).master.repo.httpRoutes.rows.length = 1
      ∧ (exampleStored.foldl step exampleStart).Rebuilt := by
  have hrun : Along step (fun s d => s.bridge.Covered d.event) exampleStart exampleStored := by
    decide +kernel
  exact ⟨hrun, by decide +kernel, rebuilt_of_covered _ exampleStored hrun⟩

def exampleDomain : DomainEndpoint := { hostname := "a.example", backendType := .l7HTTP }

def exampleThen (e : Event) : GatewayNode := (exampleStored.foldl step exampleStart).step (deliver e)

/-- The host is live, and the rebuild is empty. -/
def Stale (s : GatewayNode) : Prop :=
  s.master.repo.domainEndpoints.live? "a.example" = some exampleDomain
    ∧ (s.bridge.materializeByHost inOrder s.bridge.collectHosts).rows.isEmpty = true

instance (s : GatewayNode) : Decidable s.Stale := inferInstanceAs (Decidable (_ ∧ _))

theorem Stale.not_rebuilt (hs : s.Stale) : ¬ s.Rebuilt := by
  intro hrebuilt
  obtain ⟨h, item, hitem, -⟩ := ((hrebuilt inOrder).domains exampleDomain).mp hs.1
  rw [GoMap.get?, Table.find?, isEmpty_iff.mp hs.2] at hitem
  cases hitem

/-- The Gateway is deleted, or the route is and a tombstone tells: the
host stays live, and nothing reaches it any more. -/
theorem missed_host_stays_live :
    ((exampleThen (.deleteGateway (.object exampleGateway))).Stale
        ∧ ¬ (exampleThen (.deleteGateway (.object exampleGateway))).Rebuilt)
      ∧ (exampleThen (.deleteHTTPRoute (.tombstone (some exampleRoute)))).Stale
        ∧ ¬ (exampleThen (.deleteHTTPRoute (.tombstone (some exampleRoute)))).Rebuilt := by
  have hgateway : (exampleThen (.deleteGateway (.object exampleGateway))).Stale := by
    decide +kernel
  have hroute : (exampleThen (.deleteHTTPRoute (.tombstone (some exampleRoute)))).Stale := by
    decide +kernel
  exact ⟨⟨hgateway, hgateway.not_rebuilt⟩, hroute, hroute.not_rebuilt⟩

end GatewayNode

end K8sBridge

end LunaEdge
