import LunaEdge.GatewayRebuild
import LunaEdge.IngressRebuild

/-!
# Materialising in another order

A host is materialised from all objects that contribute to it, in the
order in which Go happens to range over the maps. Rows are collected, and
a row's id names the object it comes from, so the rows come out the same
in every order. The domain endpoint is overwritten by every contribution,
so it is that of the last one: the order shows exactly where two objects
that can come last want different endpoints (`materialised_in_any_order_iff`).
-/

namespace LunaEdge

open List

namespace K8sBridge

-- host names are compared here and never computed
attribute [local irreducible] normalizeHost

/-! ## Orders -/

section Orders

variable {α : Type}

/-- The order that visits some elements after the others. -/
def moveLast (p : α → Bool) (l : List α) : List α := l.filter (fun a => !p a) ++ l.filter p

theorem moveLast_perm (p : α → Bool) (l : List α) : (moveLast p l).Perm l :=
  perm_append_comm.trans (filter_append_perm p l)

end Orders

/-! ## The Ingress bridge -/

namespace IngressBridge

variable {b : IngressBridge} {h : String} {ings ings' : List K8s.Ingress}

theorem contributions_perm (hperm : ings.Perm ings') :
    (contributions ings h).Perm (contributions ings' h) := hperm.flatMap_right _

theorem filter_hostPairs_eq (hcolon : ':' ∉ h.toList) (hkeys : (ings.map Keyed.key).Nodup)
    (hperm : ings.Perm ings') (id : String) :
    ((b.hostPairs h (contributions ings h)).map (·.1)).filter (fun r => r.id = id)
      = ((b.hostPairs h (contributions ings' h)).map (·.1)).filter fun r => r.id = id := by
  have hrows : ∀ ings : List K8s.Ingress,
      ((b.hostPairs h (contributions ings h)).map (·.1)).filter (fun r => r.id = id)
        = ings.flatMap fun ing =>
            ((b.hostPairs h (contributions [ing] h)).map (·.1)).filter fun r => r.id = id := by
    intro ings
    simp only [hostPairs, contributions, flatMap_assoc, map_flatMap,
      filter_flatMap, flatMap_singleton]
  rw [hrows, hrows ings']
  refine GoMap.flatMap_eq_of_perm hperm fun ing hing ing' hing' hne hne' => ?_
  -- the id names the Ingress
  have hkey : ∀ ing : K8s.Ingress,
      ((b.hostPairs h (contributions [ing] h)).map (·.1)).filter (fun r => r.id = id) ≠ [] →
      ∃ idx, backendID (rowFields ing h idx) = id := by
    intro ing hne
    obtain ⟨r, hr⟩ := exists_mem_of_ne_nil _ hne
    obtain ⟨hr, hid⟩ := mem_filter.mp hr
    obtain ⟨p, hp, rfl⟩ := mem_map.mp hr
    obtain ⟨c, hc, hp⟩ := mem_flatMap.mp hp
    obtain ⟨hing, -, -⟩ := mem_contributions.mp hc
    obtain ⟨⟨path, idx⟩, -, hsome⟩ := mem_filterMap.mp hp
    obtain ⟨service, -, rfl⟩ := Option.map_eq_some_iff.mp hsome
    rw [decide_eq_true_eq, id_pathBackend, mem_singleton.mp hing] at hid
    exact ⟨idx, hid⟩
  obtain ⟨idx, hid⟩ := hkey ing hne
  obtain ⟨idx', hid'⟩ := hkey ing' hne'
  have hfields := (rowFields_rowFields ing hcolon idx).backendID_inj
    (rowFields_rowFields ing' hcolon idx') (hid.trans hid'.symm)
  exact inj_on_of_nodup_map hkeys hing hing' (rowFields_inj hfields).1

theorem sameRows_of_perm (hkeys : (ings.map Keyed.key).Nodup) (hperm : ings.Perm ings')
    (hagree : ∀ c ∈ contributions ings h, ∀ c' ∈ contributions ings h,
      ruleDomain c.1 h = ruleDomain c'.1 h) :
    Option.Rel SameRows ((b.hostItem h (contributions ings h)).map dedupBackends)
      ((b.hostItem h (contributions ings' h)).map dedupBackends) := by
  have hcs : (contributions ings h).Perm (contributions ings' h) := contributions_perm hperm
  refine (b.collects_addRule h).sameRows (b.collects_addRule h) hcs fun item item' hitem hitem' => ?_
  obtain ⟨⟨c, hlast, hdomain⟩, hbackends, hroutes⟩ := of_hostItem hitem
  obtain ⟨⟨c', hlast', hdomain'⟩, hbackends', hroutes'⟩ := of_hostItem hitem'
  have hc := mem_of_getLast? hlast
  refine ⟨?_, fun r => ?_, fun backend => ?_⟩
  · show item.domain = item'.domain
    rw [hdomain, hdomain']
    exact hagree c hc c' (hcs.mem_iff.mpr (mem_of_getLast? hlast'))
  · show r ∈ item.routes ↔ r ∈ item'.routes
    rw [hroutes, hroutes']
    exact ((hcs.flatMap_right _).map _).mem_iff
  · rw [mem_dedupBackends, mem_dedupBackends, lastByID, lastByID, hbackends, hbackends',
      filter_hostPairs_eq (noColon_of_contribution hc) hkeys hperm]

theorem domain_moveLast {ing : K8s.Ingress} (hing : ing ∈ b.ingresses.rows)
    (hrule : h ∈ ruleHosts ing) :
    ∃ item, (b.materializeByHost (moveLast fun i => Keyed.key i = Keyed.key ing) [h]).get? h
        = some item ∧ item.domain = ruleDomain ing h := by
  obtain ⟨hne, hnorm⟩ := host_of_mem_ingressHosts (mem_ingressHosts.mpr (Or.inl hrule))
  have htarget : h ∈ targets [h] := mem_targets.mpr ⟨hne, h, mem_singleton.mpr rfl, hnorm⟩
  obtain ⟨rule, hmem, hhost⟩ := (mem_ruleHosts hne).mp hrule
  rw [get?_materializeByHost, if_pos htarget, moveLast, contributions_append]
  have hlast : (contributions (b.ingresses.rows.filter fun i => Keyed.key i = Keyed.key ing) h)
      ≠ [] := by
    refine ne_nil_of_mem (a := (ing, rule)) (mem_contributions.mpr ⟨?_, hmem, hhost⟩)
    exact mem_filter.mpr ⟨hing, decide_eq_true rfl⟩
  generalize contributions (b.ingresses.rows.filter fun i =>
    !decide (Keyed.key i = Keyed.key ing)) h = before
  cases hitem : b.hostItem h (before
      ++ contributions (b.ingresses.rows.filter fun i => Keyed.key i = Keyed.key ing) h) with
  | none =>
    rw [hostItem_eq_none_iff, append_eq_nil_iff] at hitem
    exact absurd hitem.2 hlast
  | some item =>
    obtain ⟨⟨c, hc, hdomain⟩, -, -⟩ := of_hostItem hitem
    rw [List.getLast?_append_of_ne_nil _ hlast] at hc
    obtain ⟨hmem', -, -⟩ := mem_contributions.mp (mem_of_getLast? hc)
    obtain ⟨hrow, hkey⟩ := mem_filter.mp hmem'
    have heq : c.1 = ing := inj_on_of_nodup_map b.ingresses.nodup hrow hing (of_decide_eq_true hkey)
    exact ⟨dedupBackends item, rfl, heq ▸ hdomain⟩

theorem sameRows_iff_agreeOnTLS :
    (∀ (order order' : IngressBridge.Order) hosts h, Option.Rel SameRows
      ((b.materializeByHost order.ingresses hosts).get? h)
      ((b.materializeByHost order'.ingresses hosts).get? h)) ↔ b.AgreeOnTLS := by
  constructor
  · intro hsame ing hing ing' hing' h hrule hrule'
    let last (i : K8s.Ingress) : IngressBridge.Order :=
      ⟨moveLast fun j => Keyed.key j = Keyed.key i, id, moveLast_perm _, List.Perm.refl⟩
    obtain ⟨item, hitem, hdomain⟩ := domain_moveLast hing hrule
    obtain ⟨item', hitem', hdomain'⟩ := domain_moveLast hing' hrule'
    have hrel := hsame (last ing) (last ing') [h] h
    rw [show (last ing).ingresses = moveLast fun j => Keyed.key j = Keyed.key ing from rfl,
      show (last ing').ingresses = moveLast fun j => Keyed.key j = Keyed.key ing' from rfl,
      hitem, hitem', Option.rel_some_some] at hrel
    have hneed := congrArg DomainEndpoint.needCert
      (hdomain.symm.trans (hrel.domain.trans hdomain'))
    simpa [ruleDomain] using hneed
  · intro hagree order order' hosts h
    rw [get?_materializeByHost, get?_materializeByHost]
    split
    · rename_i htarget
      have hne := (mem_targets.mp htarget).1
      have hkeys : ((order.ingresses b.ingresses.rows).map Keyed.key).Nodup :=
        ((order.ingresses_perm _).map _).nodup_iff.mpr b.ingresses.nodup
      refine sameRows_of_perm hkeys
        ((order.ingresses_perm _).trans (order'.ingresses_perm _).symm) fun c hc c' hc' => ?_
      obtain ⟨hing, hrule, hhost⟩ := mem_contributions.mp hc
      obtain ⟨hing', hrule', hhost'⟩ := mem_contributions.mp hc'
      have hiff := hagree c.1 ((order.ingresses_perm _).mem_iff.mp hing) c'.1
        ((order.ingresses_perm _).mem_iff.mp hing') h
        ((mem_ruleHosts hne).mpr ⟨c.2, hrule, hhost⟩)
        ((mem_ruleHosts hne).mpr ⟨c'.2, hrule', hhost'⟩)
      simp only [ruleDomain, hiff]
    · exact .none

end IngressBridge

/-! ## The Gateway bridge -/

section Attachments

variable {R : Type} [Keyed R String] {reach : R → List Reach} {routes : List R}

theorem getLast?_visits_moveLast (hkeys : (routes.map Keyed.key).Nodup) {a : R × List Reach}
    (ha : a ∈ attachments reach routes) :
    ∃ c, a.2.getLast? = some c
      ∧ (visits (attachments reach (moveLast (fun r => Keyed.key r = Keyed.key a.1) routes))).getLast?
        = some (a.1, c) := by
  obtain ⟨hroute, hreach, hne⟩ := mem_attachments.mp ha
  have happend : ∀ l l' : List R, visits (attachments reach (l ++ l'))
      = visits (attachments reach l) ++ visits (attachments reach l') := by
    intro l l'
    simp only [visits, attachments, map_append, filter_append, flatMap_append]
  rw [moveLast, happend]
  set chosen := routes.filter fun r => decide (Keyed.key r = Keyed.key a.1)
  have hmem : a ∈ attachments reach chosen :=
    mem_attachments.mpr ⟨mem_filter.mpr ⟨hroute, decide_eq_true rfl⟩, hreach, hne⟩
  obtain ⟨c, hc⟩ := exists_mem_of_ne_nil _ hne
  have hvisit : (a.1, c) ∈ visits (attachments reach chosen) :=
    mem_flatMap.mpr ⟨a, hmem, mem_map.mpr ⟨c, hc, rfl⟩⟩
  rw [List.getLast?_append_of_ne_nil _ (ne_nil_of_mem hvisit)]
  obtain ⟨v, hv⟩ := Option.isSome_iff_exists.mp
    (List.getLast?_isSome.mpr (ne_nil_of_mem hvisit))
  obtain ⟨a', ha', hfst, hsnd⟩ := getLast?_visits (fun a ha => (mem_attachments.mp ha).2.2) hv
  obtain ⟨hrow, hreach', -⟩ := mem_attachments.mp ha'
  obtain ⟨hrow, hkey⟩ := mem_filter.mp hrow
  have heq : a'.1 = a.1 := inj_on_of_nodup_map hkeys hrow hroute (of_decide_eq_true hkey)
  rw [← hreach', heq, hreach] at hsnd
  refine ⟨v.2, hsnd, ?_⟩
  rw [hv, ← heq, hfst]

theorem nodup_attachments (hkeys : (routes.map Keyed.key).Nodup) :
    ((attachments reach routes).map (·.1)).Nodup := by
  have hsub : ((attachments reach routes).map (·.1)).Sublist
      ((routes.map fun route => (route, reach route)).map (·.1)) := filter_sublist.map _
  rw [map_map, show (fun a : R × List Reach => a.1) ∘ (fun route => (route, reach route)) = id
    from rfl, map_id] at hsub
  exact hsub.nodup (List.Nodup.of_map _ hkeys)

end Attachments

theorem SameRows.trans {x y z : DomainMaterialized} (hxy : SameRows x y) (hyz : SameRows y z) :
    SameRows x z :=
  ⟨hxy.domain.trans hyz.domain, fun r => (hxy.routes r).trans (hyz.routes r),
    fun b => (hxy.backends b).trans (hyz.backends b)⟩

theorem sameRows_trans {x y z : Option DomainMaterialized} (hxy : Option.Rel SameRows x y)
    (hyz : Option.Rel SameRows y z) : Option.Rel SameRows x z := by
  cases hxy with
  | none => exact hyz
  | some hxy =>
    cases hyz with
    | some hyz => exact .some (hxy.trans hyz)

namespace GatewayBridge

variable {b : GatewayBridge} {h : String}

theorem serves_of_reach {serves : GatewayListener → Bool} {parents : List GatewayParent}
    {hostnames : List K8s.HostName} {c : Reach} (hc : c ∈ b.reach serves parents hostnames h) :
    serves c.1 = true := by
  obtain ⟨parent, -, hc⟩ := mem_flatMap.mp hc
  obtain ⟨listener, -, hc⟩ := mem_flatMap.mp hc
  split at hc
  · rename_i hlistener
    obtain ⟨entry, -, rfl⟩ := mem_map.mp hc
    exact hlistener.2
  · cases hc

theorem protocol_of_httpDomain {listener listener' : GatewayListener}
    (hserves : servesHTTP listener = true) (hserves' : servesHTTP listener' = true)
    (heq : httpDomain listener h = httpDomain listener' h) :
    listener.protocol = listener'.protocol := by
  have hneed : ∀ l : GatewayListener, (httpDomain l h).needCert = decide (l.protocol = "HTTPS") := by
    intro l
    unfold httpDomain
    dsimp only
    split
    · rename_i hhttps
      rw [decide_eq_true hhttps]
    · split <;> rfl
  have hiff : listener.protocol = "HTTPS" ↔ listener'.protocol = "HTTPS" := by
    rw [← decide_eq_decide, ← hneed, ← hneed, heq]
  simp only [servesHTTP, Bool.or_eq_true, decide_eq_true_eq] at hserves hserves'
  rcases hserves with hp | hp
  · rcases hserves' with hp' | hp'
    · rw [hp, hp']
    · exact (hiff.mpr hp').trans hp'.symm
  · exact hp.trans (hiff.mp hp).symm

/-- The order that visits one HTTP route and one TLS route last. -/
def lastOrder (http tls : String) : Order where
  httpRoutes := moveLast fun r => Keyed.key r = http
  tlsRoutes := moveLast fun r => Keyed.key r = tls
  httpRoutes_perm := moveLast_perm _
  tlsRoutes_perm := moveLast_perm _

theorem domain_lastTLS {a : TLSRouteState × List Reach}
    (ha : a ∈ b.tlsAttachments b.tlsRoutes.rows h) (hmem : h ∈ b.collectHosts) (http : String) :
    ∃ item idx, (b.materializeByHost (lastOrder http (Keyed.key a.1)) [h]).get? h = some item
      ∧ item.domain.bindedServiceID = backendID (tlsFields a.1 h idx) := by
  obtain ⟨hne, hnorm⟩ := host_of_collected hmem
  have htarget : h ∈ targets [h] := mem_targets.mpr ⟨hne, h, mem_singleton.mpr rfl, hnorm⟩
  obtain ⟨c, -, hlast⟩ := getLast?_visits_moveLast b.tlsRoutes.nodup ha
  rw [get?_materializeByHost, if_pos htarget, hostItem, tlsAttachments,
    show (lastOrder http (Keyed.key a.1)).tlsRoutes b.tlsRoutes.rows
      = moveLast (fun r => Keyed.key r = Keyed.key a.1) b.tlsRoutes.rows from rfl, hlast]
  exact ⟨_, c.2, rfl, rfl⟩

theorem domain_lastHTTP {a : HTTPRouteState × List Reach}
    (ha : a ∈ b.httpAttachments b.httpRoutes.rows h) (hmem : h ∈ b.collectHosts)
    (htls : b.tlsAttachments b.tlsRoutes.rows h = []) (tls : String) :
    ∃ item c, (b.materializeByHost (lastOrder (Keyed.key a.1) tls) [h]).get? h = some item
      ∧ a.2.getLast? = some c ∧ item.domain = httpDomain c.1 h := by
  obtain ⟨hne, hnorm⟩ := host_of_collected hmem
  have htarget : h ∈ targets [h] := mem_targets.mpr ⟨hne, h, mem_singleton.mpr rfl, hnorm⟩
  obtain ⟨c, hc, hlast⟩ := getLast?_visits_moveLast b.httpRoutes.nodup ha
  have hlast : (visits (b.httpAttachments
      ((lastOrder (Keyed.key a.1) tls).httpRoutes b.httpRoutes.rows) h)).getLast?
        = some (a.1, c) := hlast
  have hnone : b.tlsAttachments ((lastOrder (Keyed.key a.1) tls).tlsRoutes b.tlsRoutes.rows) h
      = [] := by
    have hperm : (b.tlsAttachments ((lastOrder (Keyed.key a.1) tls).tlsRoutes b.tlsRoutes.rows) h).Perm
        (b.tlsAttachments b.tlsRoutes.rows h) := attachments_perm (moveLast_perm _ _)
    rw [htls] at hperm
    exact hperm.eq_nil
  rw [get?_materializeByHost, if_pos htarget, hostItem, hnone]
  cases hitem : b.httpItem h (visits (b.httpAttachments
      ((lastOrder (Keyed.key a.1) tls).httpRoutes b.httpRoutes.rows) h)) with
  | none =>
    rw [httpItem_eq_none_iff] at hitem
    rw [hitem] at hlast
    cases hlast
  | some item =>
    obtain ⟨⟨v, hv, hdomain⟩, -, -⟩ := of_httpItem hitem
    obtain rfl := Option.some.inj (hv.symm.trans hlast)
    exact ⟨dedupe item, c, rfl, hc, hdomain⟩

theorem agree_of_sameRows (hmem : h ∈ b.collectHosts)
    (hsame : ∀ order order' : Order, Option.Rel SameRows
      ((b.materializeByHost order [h]).get? h) ((b.materializeByHost order' [h]).get? h)) :
    Agree (b.httpAttachments b.httpRoutes.rows h) (b.tlsAttachments b.tlsRoutes.rows h) where
  tls := by
    -- two TLS routes bind the host to two backends
    by_contra hlen
    have hnodup : ((b.tlsAttachments b.tlsRoutes.rows h).map (·.1)).Nodup :=
      nodup_attachments b.tlsRoutes.nodup
    rcases has : b.tlsAttachments b.tlsRoutes.rows h with _ | ⟨a, _ | ⟨a', as⟩⟩
    · simp [has] at hlen
    · simp [has] at hlen
    · obtain ⟨item, idx, hitem, hbound⟩ := domain_lastTLS (a := a) (by simp [has]) hmem ""
      obtain ⟨item', idx', hitem', hbound'⟩ := domain_lastTLS (a := a') (by simp [has]) hmem ""
      have hrel := hsame (lastOrder "" (Keyed.key a.1)) (lastOrder "" (Keyed.key a'.1))
      rw [hitem, hitem', Option.rel_some_some] at hrel
      have hcolon := noColon_of_collected hmem
      have hfields := (rowFields_tlsFields a.1 hcolon idx).backendID_inj
        (rowFields_tlsFields a'.1 hcolon idx') (by rw [← hbound, ← hbound', hrel.domain])
      simp only [tlsFields, List.cons.injEq, true_and] at hfields
      have hkey : Keyed.key a.1 = Keyed.key a'.1 := by
        show K8s.objectKey _ _ = K8s.objectKey _ _
        rw [K8s.objectKey, K8s.objectKey, hfields.1, hfields.2.1]
      have ha : a.1 ∈ b.tlsRoutes.rows := (mem_attachments.mp
        (show a ∈ b.tlsAttachments b.tlsRoutes.rows h by simp [has])).1
      have ha' : a'.1 ∈ b.tlsRoutes.rows := (mem_attachments.mp
        (show a' ∈ b.tlsAttachments b.tlsRoutes.rows h by simp [has])).1
      simp [has, inj_on_of_nodup_map b.tlsRoutes.nodup ha ha' hkey] at hnodup
  http := by
    by_cases htls : b.tlsAttachments b.tlsRoutes.rows h = []
    · refine Or.inr fun a ha a' ha' c hc c' hc' => ?_
      obtain ⟨item, d, hitem, hd, hdomain⟩ := domain_lastHTTP ha hmem htls ""
      obtain ⟨item', d', hitem', hd', hdomain'⟩ := domain_lastHTTP ha' hmem htls ""
      obtain rfl := Option.some.inj (hd.symm.trans hc)
      obtain rfl := Option.some.inj (hd'.symm.trans hc')
      have hrel := hsame (lastOrder (Keyed.key a.1) "") (lastOrder (Keyed.key a'.1) "")
      rw [hitem, hitem', Option.rel_some_some] at hrel
      have hserves : ∀ a ∈ b.httpAttachments b.httpRoutes.rows h, ∀ c ∈ a.2,
          servesHTTP c.1 = true := by
        intro a ha c hc
        rw [← (mem_attachments.mp ha).2.1] at hc
        exact serves_of_reach hc
      exact protocol_of_httpDomain (hserves a ha d (mem_of_getLast? hd))
        (hserves a' ha' d' (mem_of_getLast? hd'))
        (hdomain.symm.trans (hrel.domain.trans hdomain'))
    · exact Or.inl htls

theorem sameRows_iff_consistent :
    (∀ (order order' : Order) hosts h, Option.Rel SameRows
      ((b.materializeByHost order hosts).get? h) ((b.materializeByHost order' hosts).get? h))
      ↔ b.Consistent := by
  constructor
  · exact fun hsame h hmem => agree_of_sameRows hmem fun order order' => hsame order order' [h] h
  · intro hb order order' hosts h
    by_cases htarget : h ∈ targets hosts
    · rw [materializeByHost_rebuilt order htarget, materializeByHost_rebuilt order' htarget]
      exact sameRows_trans (sameRows_symm (sameRows_order hb order h)) (sameRows_order hb order' h)
    · rw [get?_materializeByHost, get?_materializeByHost, if_neg htarget, if_neg htarget]
      exact .none

end GatewayBridge

/-! ## Both bridges -/

/-- A bridge materialises every list of hosts to the same rows in every
order exactly if the objects that can come last for a host agree on its
domain. -/
theorem materialised_in_any_order_iff (ib : IngressBridge) (gb : GatewayBridge) :
    ((∀ (order order' : IngressBridge.Order) hosts h, Option.Rel SameRows
        ((ib.materializeByHost order.ingresses hosts).get? h)
        ((ib.materializeByHost order'.ingresses hosts).get? h)) ↔ ib.AgreeOnTLS)
      ∧ ((∀ (order order' : GatewayBridge.Order) hosts h, Option.Rel SameRows
          ((gb.materializeByHost order hosts).get? h)
          ((gb.materializeByHost order' hosts).get? h)) ↔ gb.Consistent) :=
  ⟨IngressBridge.sameRows_iff_agreeOnTLS, GatewayBridge.sameRows_iff_consistent⟩

def exampleIngresses : IngressBridge :=
  [.storeIngress { IngressNode.exampleIngress IngressNode.exampleBlue with
      tls := [[K8s.exampleHost]] },
    .storeIngress (IngressNode.exampleIngress IngressNode.exampleGreen)].foldl IngressBridge.store
      { ingressClass := "luna" }

def exampleRouteVia (name : K8s.ObjectName) (listener : String) : K8s.HTTPRoute :=
  { GatewayNode.exampleRoute with
    name := name
    parentRefs := [{ name := "edge", sectionName := listener }] }

/-- A Gateway with a plain and a secure listener, and a route through each. -/
def exampleGateways : GatewayBridge :=
  [.storeGateway { GatewayNode.exampleGateway with
      listeners := GatewayNode.exampleGateway.listeners
        ++ GatewayNode.exampleGateway.listeners.map fun listener =>
          { listener with name := "secure", protocol := "HTTPS" } },
    .storeHTTPRoute (exampleRouteVia IngressNode.exampleBlue "secure"),
    .storeHTTPRoute (exampleRouteVia IngressNode.exampleGreen "plain")].foldl GatewayBridge.store {}

theorem order_decides_needCert :
    ((exampleIngresses.materializeByHost id ["a.example"]).get? "a.example").map
        (·.domain.needCert) = some false
      ∧ ((exampleIngresses.materializeByHost List.reverse ["a.example"]).get? "a.example").map
        (·.domain.needCert) = some true
      ∧ ((exampleGateways.materializeByHost ⟨id, id, List.Perm.refl, List.Perm.refl⟩
          ["a.example"]).get? "a.example").map
        (fun item => (item.domain.needCert, item.domain.backendType)) = some (false, .l7HTTP)
      ∧ ((exampleGateways.materializeByHost
          ⟨List.reverse, id, reverse_perm, List.Perm.refl⟩ ["a.example"]).get? "a.example").map
        (fun item => (item.domain.needCert, item.domain.backendType)) = some (true, .l7HTTPS) := by
  decide +kernel

end K8sBridge

end LunaEdge
