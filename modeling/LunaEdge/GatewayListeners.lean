import LunaEdge.GatewayRebuild

/-!
# Listeners of a host

An HTTPRoute can reach a host through HTTP and HTTPS listeners at once.
The loops of `materializeByHostLocked` set the domain of the host again on
every visit, and the switch that would combine the listeners looks at
what the same visit has just written. So the last visit decides alone,
and the type is `l7-http` or `l7-https` (`combined_iff`).
-/

namespace LunaEdge

open List

namespace K8sBridge

namespace GatewayBridge

/-- A route with these parents and host names attaches the listener to the
host. -/
def Attaches (b : GatewayBridge) (parents : List GatewayParent) (hostnames : List K8s.HostName)
    (listener : GatewayListener) (h : String) : Prop :=
  (∃ parent ∈ parents, ∃ gw, b.gateways.find? parent.gatewayKey = some gw
    ∧ listener ∈ gw.listeners
    ∧ (parent.sectionName = "" ∨ parent.sectionName = listener.name))
  ∧ ∃ host ∈ hostsForRoute hostnames listener, normalizeHost host.val = h

def HTTPAttached (b : GatewayBridge) (protocol h : String) : Prop :=
  ∃ route ∈ b.httpRoutes.rows, ∃ listener,
    b.Attaches route.parents route.hostnames listener h ∧ listener.protocol = protocol

def TLSAttached (b : GatewayBridge) (h : String) : Prop :=
  ∃ route ∈ b.tlsRoutes.rows, ∃ listener,
    b.Attaches route.parents route.hostnames listener h ∧ listener.protocol = "TLS"

/-- The domain joins the protocols of the listeners. -/
structure Combined (b : GatewayBridge) (h : String) (domain : DomainEndpoint) : Prop where
  both : b.HTTPAttached "HTTP" h → b.HTTPAttached "HTTPS" h →
    domain.backendType = .l7HTTPBoth ∧ domain.needCert = true
  https : ¬ b.HTTPAttached "HTTP" h → b.HTTPAttached "HTTPS" h →
    domain.backendType = .l7HTTPS ∧ domain.needCert = true
  http : b.HTTPAttached "HTTP" h → ¬ b.HTTPAttached "HTTPS" h →
    domain.backendType = .l7HTTP ∧ domain.needCert = false

variable {b : GatewayBridge} {h : String}

variable {listener : GatewayListener}

theorem exists_mem_reach {serves : GatewayListener → Bool} {parents : List GatewayParent}
    {hostnames : List K8s.HostName} :
    (∃ idx, (listener, idx) ∈ b.reach serves parents hostnames h)
      ↔ b.Attaches parents hostnames listener h ∧ serves listener = true := by
  unfold reach Attaches
  simp only [mem_flatMap]
  constructor
  · rintro ⟨idx, parent, hparent, listener', hlistener, hc⟩
    split at hc
    · rename_i hserves
      obtain ⟨⟨host, idx'⟩, hentry, heq⟩ := mem_map.mp hc
      obtain ⟨hentry, hnorm⟩ := mem_filter.mp hentry
      obtain ⟨rfl, rfl⟩ := Prod.mk.inj heq
      have hhost : host ∈ hostsForRoute hostnames listener' :=
        (mem_zipIdx' hentry).2 ▸ getElem_mem _
      cases hgw : b.gateways.find? parent.gatewayKey with
      | none =>
        rw [hgw] at hlistener
        cases hlistener
      | some gw =>
        rw [hgw] at hlistener
        exact ⟨⟨⟨parent, hparent, gw, hgw, hlistener, hserves.1⟩, host, hhost,
          of_decide_eq_true hnorm⟩, hserves.2⟩
    · cases hc
  · rintro ⟨⟨⟨parent, hparent, gw, hgw, hlistener, hsection⟩, host, hhost, hnorm⟩, hserves⟩
    obtain ⟨idx, hidx⟩ := mem_iff_getElem?.mp hhost
    refine ⟨idx, parent, hparent, listener, by rwa [hgw], ?_⟩
    rw [if_pos ⟨hsection, hserves⟩]
    refine mem_map.mpr ⟨(host, idx), mem_filter.mpr ⟨?_, decide_eq_true hnorm⟩, rfl⟩
    exact mem_zipIdx_iff_getElem?.mpr hidx

theorem exists_mem_visits {R : Type} {serves : GatewayListener → Bool}
    {parents : R → List GatewayParent} {hostnames : R → List K8s.HostName} {routes : List R}
    {route : R} :
    (∃ idx, (route, (listener, idx)) ∈ visits (attachments (fun r =>
        b.reach serves (parents r) (hostnames r) h) routes))
      ↔ route ∈ routes ∧ b.Attaches (parents route) (hostnames route) listener h
        ∧ serves listener = true := by
  rw [← exists_mem_reach]
  simp only [visits, mem_flatMap, mem_map, Prod.mk.injEq]
  constructor
  · rintro ⟨idx, a, ha, c, hc, rfl, rfl⟩
    obtain ⟨hroute, hreach, -⟩ := mem_attachments.mp ha
    exact ⟨hroute, idx, hreach ▸ hc⟩
  · rintro ⟨hroute, idx, hc⟩
    exact ⟨idx, (route, _), mem_attachments.mpr ⟨hroute, rfl, ne_nil_of_mem hc⟩, _, hc, rfl, rfl⟩

instance (protocol : String) : Decidable (b.HTTPAttached protocol h) := by
  refine decidable_of_iff (∃ route ∈ b.httpRoutes.rows,
    ∃ c ∈ b.reach (fun _ => true) route.parents route.hostnames h, c.1.protocol = protocol) ?_
  constructor
  · rintro ⟨route, hroute, c, hc, hp⟩
    exact ⟨route, hroute, c.1, (exists_mem_reach.mp ⟨c.2, hc⟩).1, hp⟩
  · rintro ⟨route, hroute, listener, hattach, hp⟩
    obtain ⟨idx, hc⟩ : ∃ idx, (listener, idx) ∈ b.reach (fun _ => true) route.parents
        route.hostnames h := exists_mem_reach.mpr ⟨hattach, rfl⟩
    exact ⟨route, hroute, (listener, idx), hc, hp⟩

theorem httpDomain_of_http (hp : listener.protocol = "HTTP") (host : String) :
    (httpDomain listener host).backendType = .l7HTTP
      ∧ (httpDomain listener host).needCert = false := by
  simp [httpDomain, hp]

theorem httpDomain_of_https (hp : listener.protocol = "HTTPS") (host : String) :
    (httpDomain listener host).backendType = .l7HTTPS
      ∧ (httpDomain listener host).needCert = true := by
  simp [httpDomain, hp]

/-- The domain of a host that only HTTPRoutes reach is that of one of its
listeners. -/
theorem get?_of_http (order : Order) {hosts : List String} (hmem : h ∈ targets hosts)
    (htls : ¬ b.TLSAttached h) (hhttp : b.HTTPAttached "HTTP" h ∨ b.HTTPAttached "HTTPS" h) :
    ∃ item listener, (b.materializeByHost order hosts).get? h = some item
      ∧ item.domain = httpDomain listener h
      ∧ (listener.protocol = "HTTP" ∨ listener.protocol = "HTTPS")
      ∧ b.HTTPAttached listener.protocol h := by
  have htas : visits (b.tlsAttachments (order.tlsRoutes b.tlsRoutes.rows) h) = [] := by
    refine eq_nil_iff_forall_not_mem.mpr fun v hv => htls ?_
    obtain ⟨hroute, hattach, hserves⟩ :=
      exists_mem_visits.mp ⟨v.2.2, (hv : (v.1, (v.2.1, v.2.2)) ∈ _)⟩
    exact ⟨v.1, (order.tlsRoutes_perm _).mem_iff.mp hroute, v.2.1, hattach,
      of_decide_eq_true hserves⟩
  have hvisit : ∀ v : HTTPRouteState × Reach,
      v ∈ visits (b.httpAttachments (order.httpRoutes b.httpRoutes.rows) h) →
      (v.2.1.protocol = "HTTP" ∨ v.2.1.protocol = "HTTPS") ∧ b.HTTPAttached v.2.1.protocol h := by
    intro v hv
    obtain ⟨hroute, hattach, hserves⟩ :=
      exists_mem_visits.mp ⟨v.2.2, (hv : (v.1, (v.2.1, v.2.2)) ∈ _)⟩
    refine ⟨by simpa [servesHTTP] using hserves, v.1, ?_, v.2.1, hattach, rfl⟩
    exact (order.httpRoutes_perm _).mem_iff.mp hroute
  have hne : visits (b.httpAttachments (order.httpRoutes b.httpRoutes.rows) h) ≠ [] := by
    have hattached : ∃ route ∈ b.httpRoutes.rows, ∃ listener,
        b.Attaches route.parents route.hostnames listener h ∧ servesHTTP listener = true := by
      rcases hhttp with ⟨route, hroute, listener, hattach, hp⟩ | ⟨route, hroute, listener, hattach, hp⟩
      · exact ⟨route, hroute, listener, hattach, by simp [servesHTTP, hp]⟩
      · exact ⟨route, hroute, listener, hattach, by simp [servesHTTP, hp]⟩
    obtain ⟨route, hroute, listener, hattach, hserves⟩ := hattached
    obtain ⟨idx, hv⟩ := exists_mem_visits.mpr
      ⟨(order.httpRoutes_perm _).mem_iff.mpr hroute, hattach, hserves⟩
    exact ne_nil_of_mem hv
  obtain ⟨item, hitem⟩ := Option.ne_none_iff_exists'.mp
    (mt (httpItem_eq_none_iff (b := b) (h := h)).mp hne)
  obtain ⟨⟨v, hlast, hdomain⟩, -, -⟩ := of_httpItem hitem
  obtain ⟨hp, hattached⟩ := hvisit v (mem_of_getLast? hlast)
  refine ⟨dedupe item, v.2.1, ?_, hdomain, hp, hattached⟩
  rw [get?_materializeByHost, if_pos hmem, hostItem, htas, hitem]
  rfl

/-- In whatever order the routes are visited, a host that only HTTPRoutes
reach has the type of its listeners exactly if these do not have both
protocols. -/
theorem combined_iff (b : GatewayBridge) (order : Order) (hosts : List String) (h : String)
    (hmem : h ∈ targets hosts) (htls : ¬ b.TLSAttached h)
    (hhttp : b.HTTPAttached "HTTP" h ∨ b.HTTPAttached "HTTPS" h) :
    (∃ item, (b.materializeByHost order hosts).get? h = some item ∧ b.Combined h item.domain)
      ↔ ¬ (b.HTTPAttached "HTTP" h ∧ b.HTTPAttached "HTTPS" h) := by
  obtain ⟨item, listener, hitem, hdomain, hp, hattached⟩ := get?_of_http order hmem htls hhttp
  constructor
  · rintro ⟨item', hitem', hcombined⟩ ⟨hplain, htls⟩
    obtain rfl := Option.some.inj (hitem.symm.trans hitem')
    have htype := (hcombined.both hplain htls).1
    rw [hdomain] at htype
    rcases hp with hp | hp
    · rw [(httpDomain_of_http hp h).1] at htype
      cases htype
    · rw [(httpDomain_of_https hp h).1] at htype
      cases htype
  · intro hone
    refine ⟨item, hitem, fun hplain htls => absurd ⟨hplain, htls⟩ hone, fun hplain _ => ?_,
      fun _ hsecure => ?_⟩
    · rw [hdomain]
      refine httpDomain_of_https (hp.resolve_left fun heq => hplain ?_) h
      rwa [← heq]
    · rw [hdomain]
      refine httpDomain_of_http (hp.resolve_right fun heq => hsecure ?_) h
      rwa [← heq]

/-- A Gateway with one listener for each protocol, and the route of
`a.example` attached to all of them. -/
def exampleListeners (protocols : List String) : GatewayBridge :=
  [Event.storeGateway { GatewayNode.exampleGateway with
      listeners := protocols.map fun protocol =>
        { name := protocol, protocol := protocol, hostname := .ofText "" rfl } },
    .storeHTTPRoute GatewayNode.exampleRoute].foldl store {}

theorem not_tlsAttached_exampleListeners (protocols : List String) (h : String) :
    ¬ (exampleListeners protocols).TLSAttached h := by
  rintro ⟨route, hroute, -⟩
  cases hroute

theorem combined_https_only :
    ¬ ((exampleListeners ["HTTPS"]).HTTPAttached "HTTP" "a.example"
        ∧ (exampleListeners ["HTTPS"]).HTTPAttached "HTTPS" "a.example")
      ∧ ∃ item, ((exampleListeners ["HTTPS"]).materializeByHost GatewayNode.inOrder
          ["a.example"]).get? "a.example" = some item
        ∧ (exampleListeners ["HTTPS"]).Combined "a.example" item.domain := by
  have hone : ¬ ((exampleListeners ["HTTPS"]).HTTPAttached "HTTP" "a.example"
      ∧ (exampleListeners ["HTTPS"]).HTTPAttached "HTTPS" "a.example") := by decide +kernel
  refine ⟨hone, (combined_iff _ _ _ _ (by decide +kernel)
    (not_tlsAttached_exampleListeners _ _) (Or.inr (by decide +kernel))).mpr hone⟩

/-- An HTTP and an HTTPS listener: the host is `l7-https`. -/
theorem listeners_not_combined :
    (exampleListeners ["HTTP", "HTTPS"]).HTTPAttached "HTTP" "a.example"
      ∧ (exampleListeners ["HTTP", "HTTPS"]).HTTPAttached "HTTPS" "a.example"
      ∧ ¬ (exampleListeners ["HTTP", "HTTPS"]).TLSAttached "a.example"
      ∧ ∃ item, ((exampleListeners ["HTTP", "HTTPS"]).materializeByHost GatewayNode.inOrder
          ["a.example"]).get? "a.example" = some item ∧ item.domain.backendType = .l7HTTPS
        ∧ ¬ (exampleListeners ["HTTP", "HTTPS"]).Combined "a.example" item.domain := by
  have hplain : (exampleListeners ["HTTP", "HTTPS"]).HTTPAttached "HTTP" "a.example" := by
    decide +kernel
  have hsecure : (exampleListeners ["HTTP", "HTTPS"]).HTTPAttached "HTTPS" "a.example" := by
    decide +kernel
  have htype : (((exampleListeners ["HTTP", "HTTPS"]).materializeByHost GatewayNode.inOrder
      ["a.example"]).get? "a.example").map (·.domain.backendType) = some .l7HTTPS := by
    decide +kernel
  obtain ⟨item, hitem, htype⟩ := Option.map_eq_some_iff.mp htype
  refine ⟨hplain, hsecure, not_tlsAttached_exampleListeners _ _, item, hitem, htype, fun hc => ?_⟩
  have hboth := (hc.both hplain hsecure).1
  rw [htype] at hboth
  cases hboth

end GatewayBridge

end K8sBridge

end LunaEdge
