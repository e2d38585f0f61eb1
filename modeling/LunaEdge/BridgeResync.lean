import LunaEdge.BridgeIntegrity

/-!
# Hosts that are synchronised again

Before a host is written its rows are compared with the materialised
ones. The comparison looks at the backends through the routes of the
host, and at the routes by their number and by their ids. A host that has
just been written compares equal only if all its backends are those of
routes and no two of its routes have one id (`unchanged_replaced_iff`).

So the host of a TLS route, which has a backend and no route, is written
and reported again by every call, and so is one that an Ingress names in
two rules.
-/

namespace LunaEdge

open Session List

namespace Repo

variable {repo : Repo} {h : String}

theorem nodup_listHTTPRoutesByHostname (repo : Repo) (h : String) :
    ((repo.listHTTPRoutesByHostname h).map (·.id)).Nodup := by
  unfold listHTTPRoutesByHostname Table.select
  rw [((perm_insertionSort _ _).map _).nodup_iff]
  exact repo.httpRoutes.nodup.sublist (filter_sublist.map _)

theorem nodup_listServiceBindingsByHostname
    (hrefs : ∀ r ∈ repo.listHTTPRoutesByHostname h, ∀ r' ∈ repo.listHTTPRoutesByHostname h,
      r.backendRefID = r'.backendRefID → r = r') :
    (repo.listServiceBindingsByHostname h).Nodup := by
  have hroutes := (repo.nodup_listHTTPRoutesByHostname h).of_map
  unfold listHTTPRoutesByHostname at hrefs hroutes
  unfold listServiceBindingsByHostname
  dsimp only
  simp only [mem_insertionSort] at hrefs
  rw [(perm_insertionSort _ _).nodup_iff] at hroutes ⊢
  generalize (repo.httpRoutes.select fun r => !r.deleted && r.hostname == h) = routes
    at hrefs hroutes ⊢
  have hrows : (repo.serviceBackendRefs.select fun b => !b.deleted).Nodup :=
    repo.serviceBackendRefs.nodup.of_map.filter _
  refine nodup_flatMap.mpr ⟨fun b _ => ?_, hrows.imp fun hne x hx hx' => ?_⟩
  · have hmem : ∀ r ∈ routes.filter fun r => r.backendRefID == b.id,
        r ∈ routes ∧ r.backendRefID = b.id := by
      intro r hr
      simpa using hr
    have hnodup := hroutes.filter fun r => r.backendRefID == b.id
    generalize (routes.filter fun r => r.backendRefID == b.id) = own at hmem hnodup ⊢
    rcases own with _ | ⟨r, _ | ⟨r', own⟩⟩
    · exact nodup_nil
    · exact nodup_singleton b
    · obtain ⟨hr, href⟩ := hmem r (by simp)
      obtain ⟨hr', href'⟩ := hmem r' (by simp)
      have heq := hrefs r hr r' hr' (href.trans href'.symm)
      simp [heq] at hnodup
  · obtain ⟨-, -, rfl⟩ := mem_map.mp hx
    obtain ⟨-, -, heq⟩ := mem_map.mp hx'
    exact hne heq.symm

end Repo

namespace K8sBridge

variable {repo : Repo} {h : String} {item : DomainMaterialized}

/-! ## The rows of a host that has been written -/

section Written

variable {stale : List HTTPRoute} (hi : Managed h item)
  (hstale : ∀ r, r ∈ stale ↔ r ∈ repo.listHTTPRoutesByHostname h ∧ r.id ∉ item.routes.map (·.id))

include hi hstale in
theorem mem_routes_written {r : HTTPRoute} :
    r ∈ (replaceRows item (repo.domainEndpoints.live? h) stale repo).listHTTPRoutesByHostname h
      ↔ r ∈ item.routes := by
  rw [Repo.mem_listHTTPRoutesByHostname, replaceRows_routes fun r hr => (hi.routes r hr).1,
    hi.last_route]
  constructor
  · rintro ⟨hlive, hhost⟩
    split at hlive
    · cases hlive
    · rename_i hnot
      cases hfind : item.routes.find? fun r' => r'.id = r.id with
      | some r' =>
        rw [hfind] at hlive
        exact Option.some.inj hlive ▸ mem_of_find?_eq_some hfind
      | none =>
        -- a route left over from before would be stale
        rw [hfind] at hlive
        refine absurd (mem_map.mpr ⟨r, (hstale r).mpr ⟨?_, fun hid => ?_⟩, rfl⟩) hnot
        · exact Repo.mem_listHTTPRoutesByHostname.mpr ⟨hlive, hhost⟩
        · obtain ⟨r', hr', hid⟩ := mem_map.mp hid
          exact List.find?_eq_none.mp hfind r' hr' (decide_eq_true hid)
  · intro hr
    have hfind : (item.routes.find? fun r' => r'.id = r.id) = some r :=
      find?_of_nodup hi.routeIDs hr
    refine ⟨?_, (hi.routes r hr).2.1⟩
    rw [if_neg, hfind]
    · rfl
    · intro hid
      obtain ⟨r', hr', hid⟩ := mem_map.mp hid
      exact ((hstale r').mp hr').2 (mem_map.mpr ⟨r, hr, hid.symm⟩)

include hi in
theorem live_backend_written {b : ServiceBackendRef} (hb : b ∈ item.backends) :
    (replaceRows item (repo.domainEndpoints.live? h) stale repo).serviceBackendRefs.live? b.id
      = some b := by
  have hfind : (item.backends.find? fun b' => b'.id = b.id) = some b :=
    find?_of_nodup hi.backendIDs hb
  rw [replaceRows_backends fun b hb => (hi.backends b hb).1, hi.last_backend, hfind, if_neg]
  · rfl
  · exact fun hx => hx.2.1 (mem_map.mpr ⟨b, hb, rfl⟩)

include hi hstale in
theorem mem_backends_written (hbinded : item.domain.bindedServiceID = "") {b : ServiceBackendRef} :
    b ∈ (replaceRows item (repo.domainEndpoints.live? h) stale repo).listServiceBindingsByHostname h
      ↔ b ∈ item.backends := by
  rw [Repo.mem_listServiceBindingsByHostname]
  simp only [mem_routes_written hi hstale]
  constructor
  · rintro ⟨hlive, r, hr, href⟩
    obtain ⟨b', hb', hid⟩ := mem_map.mp (hi.refs r hr)
    rw [← href, ← hid, live_backend_written hi hb'] at hlive
    exact Option.some.inj hlive ▸ hb'
  · intro hb
    refine ⟨live_backend_written hi hb, ?_⟩
    obtain ⟨-, -, -, hbound | hroute⟩ := hi.backends b hb
    · have hmanaged := hi.managedBackend_id hb
      rw [hbound, hbinded] at hmanaged
      exact absurd hmanaged (by decide)
    · exact hroute

end Written

theorem routes_upserted {range : List HTTPRoute → List HTTPRoute} (hrange : ∀ l, (range l).Perm l)
    (hi : Managed h item) (repo : Repo) :
    ((upsertDomain range item repo).2.listHTTPRoutesByHostname h).Perm item.routes := by
  unfold upsertDomain
  dsimp only
  rw [hi.hostname]
  split
  · rename_i hun
    exact (of_managedDomainUnchanged hun hi (fun d hd => deleted_of_live? hd)
      (fun r hr => deleted_of_live? (Repo.mem_listHTTPRoutesByHostname.mp hr).1)
      (fun b hb => deleted_of_live? (Repo.mem_listServiceBindingsByHostname.mp hb).1)).2.1.symm
  · refine (perm_ext_iff_of_nodup (Repo.nodup_listHTTPRoutesByHostname _ h).of_map
      hi.routeIDs.of_map).mpr fun r => mem_routes_written hi fun r => ?_
    rw [(hrange _).mem_iff, mem_filter, decide_eq_true_eq]

theorem ids_written_subset {stale : List HTTPRoute} (hi : Linked h item)
    (hstale : ∀ r, r ∈ stale
      ↔ r ∈ repo.listHTTPRoutesByHostname h ∧ r.id ∉ item.routes.map (·.id)) :
    ((replaceRows item (repo.domainEndpoints.live? h) stale repo).listHTTPRoutesByHostname h).map
      (·.id) ⊆ item.routes.map (·.id) := by
  intro id hid
  obtain ⟨r, hr, rfl⟩ := mem_map.mp hid
  obtain ⟨hlive, hhost⟩ := Repo.mem_listHTTPRoutesByHostname.mp hr
  by_contra hnot
  have hnone : lastByID (·.id) item.routes r.id = none :=
    lastByID_eq_none fun r' hr' heq => hnot (mem_map.mpr ⟨r', hr', heq⟩)
  rw [replaceRows_routes fun r hr => (hi.routes r hr).1, hnone] at hlive
  split at hlive
  · cases hlive
  · rename_i hkept
    refine hkept (mem_map.mpr ⟨r, (hstale r).mpr ⟨?_, hnot⟩, rfl⟩)
    exact Repo.mem_listHTTPRoutesByHostname.mpr ⟨hlive, hhost⟩

theorem managedDomainUnchanged_of_perm {currentRoutes : List HTTPRoute}
    {currentBackends : List ServiceBackendRef} (hi : Managed h item)
    (hroutes : currentRoutes.Perm item.routes) (hbackends : currentBackends.Perm item.backends) :
    managedDomainUnchanged (some item.domain) currentRoutes currentBackends item = true := by
  unfold managedDomainUnchanged
  simp only [Bool.and_eq_true, decide_eq_true_eq, all_eq_true, true_and]
  refine ⟨⟨⟨hroutes.length_eq, hbackends.length_eq⟩, fun r hr => ?_⟩, fun b hb => ?_⟩
  · obtain ⟨current, hlast⟩ : ∃ current, lastByID (·.id) currentRoutes r.id = some current :=
      exists_lastByID (hroutes.mem_iff.mpr hr)
    obtain ⟨hmem, hid⟩ := mem_of_lastByID hlast
    obtain rfl := inj_on_of_nodup_map hi.routeIDs (hroutes.mem_iff.mp hmem) hr hid
    simp [hlast]
  · obtain ⟨current, hlast⟩ : ∃ current, lastByID (·.id) currentBackends b.id = some current :=
      exists_lastByID (hbackends.mem_iff.mpr hb)
    obtain ⟨hmem, hid⟩ := mem_of_lastByID hlast
    obtain rfl := inj_on_of_nodup_map hi.backendIDs (hbackends.mem_iff.mp hmem) hb hid
    simp [hlast]

/-- A host that has just been written compares equal exactly if it is bound
to no backend and its routes have distinct ids. -/
theorem unchanged_replaced_iff {stale : List HTTPRoute} (hlinked : Linked h item)
    (hmanaged : (item.routes.map (·.id)).Nodup → Managed h item)
    (hstale : ∀ r, r ∈ stale
      ↔ r ∈ repo.listHTTPRoutesByHostname h ∧ r.id ∉ item.routes.map (·.id)) :
    managedDomainUnchanged
        ((replaceRows item (repo.domainEndpoints.live? h) stale repo).domainEndpoints.live? h)
        ((replaceRows item (repo.domainEndpoints.live? h) stale repo).listHTTPRoutesByHostname h)
        ((replaceRows item (repo.domainEndpoints.live? h) stale
          repo).listServiceBindingsByHostname h) item = true
      ↔ item.domain.bindedServiceID = "" ∧ (item.routes.map (·.id)).Nodup := by
  rw [endpoint_replaced hlinked, if_pos rfl]
  constructor
  · intro hun
    unfold managedDomainUnchanged at hun
    simp only [Bool.and_eq_true, decide_eq_true_eq, all_eq_true, true_and] at hun
    obtain ⟨⟨⟨hlen, -⟩, -⟩, hbackends⟩ := hun
    refine ⟨hlinked.binded.resolve_right ?_, ?_⟩
    · -- no route goes to a bound backend, so the join does not find it
      rintro ⟨hbound, hmem⟩
      obtain ⟨b, hb, hid⟩ := mem_map.mp hmem
      have hcurrent := hbackends b hb
      cases hlast : lastByID (·.id) ((replaceRows item (repo.domainEndpoints.live? h) stale
          repo).listServiceBindingsByHostname h) b.id with
      | none => simp [hlast] at hcurrent
      | some current =>
        obtain ⟨hmem, hid'⟩ := mem_of_lastByID hlast
        obtain ⟨-, r, hr, href⟩ := Repo.mem_listServiceBindingsByHostname.mp hmem
        obtain ⟨hlive, hhost⟩ := Repo.mem_listHTTPRoutesByHostname.mp hr
        rcases route_replaced hlinked hstale hlive with ⟨hof, -⟩ | ⟨-, hother⟩
        · exact hbound.ne_ref hof (by rw [href, hid', hid])
        · exact hother hhost
    · -- distinct ids among those of the item, and as many
      have hids := Repo.nodup_listHTTPRoutesByHostname
        (replaceRows item (repo.domainEndpoints.live? h) stale repo) h
      have hsub := subperm_of_subset hids (ids_written_subset hlinked hstale)
      refine (hsub.perm_of_length_le ?_).nodup_iff.mp hids
      rw [length_map, length_map, hlen]
  · rintro ⟨hbinded, hnodup⟩
    have hi := hmanaged hnodup
    refine managedDomainUnchanged_of_perm hi ?_ ?_
    · exact (perm_ext_iff_of_nodup (Repo.nodup_listHTTPRoutesByHostname _ h).of_map
        hnodup.of_map).mpr fun r => mem_routes_written hi hstale
    · refine (perm_ext_iff_of_nodup (Repo.nodup_listServiceBindingsByHostname ?_)
        hi.backendIDs.of_map).mpr fun b => mem_backends_written hi hstale hbinded
      intro r hr r' hr' href
      have hr := (mem_routes_written hi hstale).mp hr
      have hr' := (mem_routes_written hi hstale).mp hr'
      refine inj_on_of_nodup_map hnodup hr hr' ?_
      exact ((hlinked.routes r hr).2.id_eq_iff (hlinked.routes r' hr').2).mpr href

/-! ## Calls for one host -/

open MasterM

theorem Bridge.managed_of_nodup {bridge : Bridge} {hosts : List String}
    (hitem : (bridge.materializeByHost hosts).get? h = some item)
    (hnodup : (item.routes.map (·.id)).Nodup) : Managed h item := by
  cases bridge with
  | ingress b order =>
    obtain ⟨-, raw, hraw, rfl⟩ := IngressBridge.of_get?_materializeByHost hitem
    obtain ⟨⟨c, hc, -⟩, -, hroutes⟩ := IngressBridge.of_hostItem hraw
    refine IngressBridge.managed_of_nodup
      (IngressBridge.noColon_of_contribution (mem_of_getLast? hc)) ?_ hraw
    have hids : ((dedupBackends raw).routes.map (·.id)) = _ := congrArg _ hroutes
    rwa [hids, map_map] at hnodup
  | gateway b order => exact GatewayBridge.managed_materialized hitem

theorem foldlM_forNewHost_skip {body : SyncResult → String → MasterM SyncResult}
    {names : List String} {r : SyncResult}
    (hnames : ∀ host ∈ names, normalizeHost host = "" ∨ normalizeHost host ∈ r.seen) :
    names.foldlM (forNewHost body) r = pure r := by
  induction names with
  | nil => rfl
  | cons host names ih =>
    have hskip : forNewHost body r host = pure r := by
      unfold forNewHost
      exact if_pos (hnames host mem_cons_self)
    rw [foldlM_cons, hskip]
    exact ih fun host hmem => hnames host (mem_cons_of_mem _ hmem)

namespace SyncCall

variable {c : SyncCall}

theorem affected_returns (hitem : c.next.get? h = some item) {names : List String} (m : Master)
    (hnames : ∀ host ∈ names, normalizeHost host = "" ∨ normalizeHost host = h)
    (hmem : h ∈ targets names) :
    Returns Outside (names.foldlM (forNewHost (syncAffectedHost c.range c.next)) {}) m
      fun r t => r.seen = [h] ∧ r.changedRemoved = [] ∧ t.repo = (c.change m.repo h).2
        ∧ r.changedAffected = if (c.change m.repo h).1 then [h] else [] := by
  have hne := (mem_targets.mp hmem).1
  induction names with
  | nil => cases hmem
  | cons host names ih =>
    rw [foldlM_cons]
    have hrest : ∀ host ∈ names, normalizeHost host = "" ∨ normalizeHost host = h :=
      fun host hmem => hnames host (mem_cons_of_mem _ hmem)
    by_cases hempty : normalizeHost host = ""
    · have hskip : forNewHost (syncAffectedHost c.range c.next) {} host = pure {} := by
        unfold forNewHost
        exact if_pos (Or.inl hempty)
      rw [hskip]
      refine ih hrest (mem_targets.mpr ⟨hne, ?_⟩)
      obtain ⟨-, host', hmem', heq⟩ := mem_targets.mp hmem
      rcases mem_cons.mp hmem' with rfl | hmem'
      · exact absurd (heq.symm.trans hempty) hne
      · exact ⟨host', hmem', heq⟩
    · have hhost := (hnames host mem_cons_self).resolve_left hempty
      have hchange : c.change m.repo h = upsertDomain c.range item m.repo := by
        rw [change, hitem]
      have hbody : forNewHost (syncAffectedHost c.range c.next) {} host
          = syncAffectedHost c.range c.next { seen := [h] } h := by
        unfold forNewHost
        dsimp only
        rw [hhost, if_neg (by simp [hne])]
        rfl
      rw [hbody, hchange]
      unfold syncAffectedHost
      rw [hitem]
      refine Returns.bind (P := fun r t => r = { seen := [h], changedAffected :=
          if (upsertDomain c.range item m.repo).1 then [h] else [] }
        ∧ t.repo = (upsertDomain c.range item m.repo).2) ?_ ?_
      · refine (upsertManagedDomain_returns c.range item m).bind ?_
        rintro changed t ⟨rfl, ht⟩
        refine (markIfNeedCert_returns item.domain t).bind fun _ u hu => Returns.pure ?_
        refine ⟨?_, hu.trans ht⟩
        split <;> rfl
      · rintro r t ⟨rfl, ht⟩
        rw [foldlM_forNewHost_skip fun host hmem => (hrest host hmem).imp_right (by simp [·])]
        exact Returns.pure ⟨rfl, rfl, ht, rfl⟩

/-- A call for one host that returns has given it its turn. -/
theorem run_returns (hhosts : c.hosts = [h]) (hitem : c.next.get? h = some item) (m : Master) :
    Returns Outside c.run m fun changed t => t.repo = (c.change m.repo h).2
      ∧ changed = (if (c.change m.repo h).1 then [h] else [], []) := by
  have hnames : ∀ host, host ∈ c.affectedHosts ∨ host ∈ c.removedHosts →
      normalizeHost host = "" ∨ normalizeHost host = h := by
    intro host hmem
    by_cases hempty : normalizeHost host = ""
    · exact Or.inl hempty
    · have htaken : normalizeHost host ∈ c.hosts := by
        refine mem_hosts.mpr (hmem.imp ?_ ?_)
        · exact fun hmem => mem_targets.mpr ⟨hempty, host, hmem, rfl⟩
        · exact fun hmem => mem_targets.mpr ⟨hempty, host, hmem, rfl⟩
      rw [hhosts] at htaken
      exact Or.inr (mem_singleton.mp htaken)
  have hmem : h ∈ targets c.affectedHosts := by
    by_contra hnot
    have hnone : c.next.get? h = none := Bridge.get?_eq_none hnot
    rw [hitem] at hnone
    cases hnone
  refine (affected_returns hitem m (fun host hmem => hnames host (Or.inl hmem)) hmem).bind ?_
  rintro r t ⟨hseen, hremoved, ht, haffected⟩
  rw [foldlM_forNewHost_skip fun host hmem => ?_]
  · exact Returns.pure ⟨ht, by rw [haffected, hremoved]⟩
  · rw [hseen, mem_singleton]
    exact hnames host (Or.inr hmem)

end SyncCall

/-- After a successful call for a host, a further one for the same item
does nothing exactly if the first had nothing to do either, or if the
host is bound to no backend and its routes have distinct ids. -/
theorem resync_idle_iff (a a' : Attempt) (m : Master) (h : String) (item : DomainMaterialized)
    (hhosts : a.call.hosts = [h]) (hhosts' : a'.call.hosts = [h])
    (hitem : a.call.next.get? h = some item) (hitem' : a'.call.next.get? h = some item)
    {changed changed' : List String × List String} {w w' : World RepoError Master}
    (hrun : a.call.run ⟨m, a.faults⟩ = (.ok changed, w))
    (hrun' : a'.call.run ⟨w.state, a'.faults⟩ = (.ok changed', w')) :
    (h ∉ changed'.1 ∧ h ∉ changed'.2 ∧ w'.state.repo = w.state.repo)
      ↔ a.call.Settled m.repo h
        ∨ (item.domain.bindedServiceID = "" ∧ (item.routes.map (·.id)).Nodup) := by
  obtain ⟨⟨hrepo, -⟩, -⟩ := SyncCall.run_returns hhosts hitem m a.faults a.outside_faults
    changed w hrun
  obtain ⟨⟨hrepo', rfl⟩, -⟩ := SyncCall.run_returns hhosts' hitem' w.state a'.faults
    a'.outside_faults changed' w' hrun'
  have hiff : (h ∉ (if (a'.call.change w.state.repo h).1 then [h] else [])
      ∧ h ∉ ([] : List String) ∧ w'.state.repo = w.state.repo) ↔ a'.call.Settled w.state.repo h := by
    rw [hrepo']
    cases a'.call.turn w.state.repo h with
    | settled hsettled hchange => simp [hchange, hsettled]
    | removed domain _ _ hnot hchange => simp [hchange, hnot]
    | replaced item stale _ hnot _ hchange => simp [hchange, hnot]
  have hsame : a'.call.Settled w.state.repo h ↔ a.call.Settled w.state.repo h := by
    unfold SyncCall.Settled
    rw [hitem, hitem']
  rw [hiff, hsame]
  cases a.call.turn m.repo h with
  | settled hsettled hchange =>
    rw [hchange] at hrepo
    rw [hrepo]
    exact ⟨Or.inl, fun _ => hsettled⟩
  | removed domain hnone _ _ _ =>
    rw [hitem] at hnone
    cases hnone
  | replaced item' stale hitem'' hnot hstale hchange =>
    obtain rfl := Option.some.inj (hitem.symm.trans hitem'')
    rw [hchange] at hrepo
    rw [SyncCall.Settled, hitem, hrepo]
    refine (unchanged_replaced_iff (Bridge.linked hitem) (Bridge.managed_of_nodup hitem)
      hstale).trans ?_
    exact ⟨Or.inr, fun hx => hx.resolve_left hnot⟩

def exampleMaster : Master := ⟨.empty, .empty, [], none⟩

theorem not_mem_no_faults : some RepoError.recordNotFound ∉ ([] : List (Option RepoError)) :=
  not_mem_nil

def attemptOf (call : SyncCall) : Attempt := ⟨call, [], not_mem_no_faults⟩

/-- The Ingress of `a.example` with one path, synchronised twice. -/
theorem resync_idle_ingress :
    ∃ changed m₁ changed' m₂,
      Done (exampleIngressCall ["a.example"] []).run exampleMaster changed m₁
        ∧ Done (exampleIngressCall ["a.example"] []).run m₁ changed' m₂
        ∧ "a.example" ∉ changed'.1 ∧ "a.example" ∉ changed'.2 ∧ m₂.repo = m₁.repo := by
  obtain ⟨changed, m₁, hrun, -⟩ := (exampleIngressCall ["a.example"] []).run_done exampleMaster
  obtain ⟨changed', m₂, hrun', -⟩ := (exampleIngressCall ["a.example"] []).run_done m₁
  have hsome : ((exampleIngressCall ["a.example"] []).next.get? "a.example").isSome = true := by
    decide +kernel
  have hcond : ∀ item ∈ (exampleIngressCall ["a.example"] []).next.get? "a.example",
      item.domain.bindedServiceID = "" ∧ (item.routes.map (·.id)).Nodup := by decide +kernel
  obtain ⟨item, hitem⟩ := Option.isSome_iff_exists.mp hsome
  have hhosts : (exampleIngressCall ["a.example"] []).hosts = ["a.example"] := by decide +kernel
  exact ⟨changed, m₁, changed', m₂, hrun, hrun',
    (resync_idle_iff (attemptOf (exampleIngressCall ["a.example"] []))
      (attemptOf (exampleIngressCall ["a.example"] [])) exampleMaster "a.example" item hhosts hhosts
      hitem hitem hrun hrun').mpr (Or.inr (hcond item hitem))⟩

/-- The host of a TLS route is reported by both calls. -/
theorem tls_host_reported_again :
    ∃ changed m₁ changed' m₂, Done exampleGatewayCall.run exampleMaster changed m₁
      ∧ Done exampleGatewayCall.run m₁ changed' m₂
      ∧ "a.example" ∈ changed.1 ∧ "a.example" ∈ changed'.1 := by
  obtain ⟨changed, m₁, hrun, -⟩ := exampleGatewayCall.run_done exampleMaster
  obtain ⟨changed', m₂, hrun', -⟩ := exampleGatewayCall.run_done m₁
  have hfirst : (exampleGatewayCall.run ⟨exampleMaster, []⟩).1.toOption
      = some (["a.example"], []) := by decide +kernel
  have hsecond : (exampleGatewayCall.run
      ⟨(exampleGatewayCall.run ⟨exampleMaster, []⟩).2.state, []⟩).1.toOption
      = some (["a.example"], []) := by decide +kernel
  rw [hrun.state_eq, show exampleGatewayCall.run ⟨m₁, []⟩ = _ from hrun'] at hsecond
  rw [show exampleGatewayCall.run ⟨exampleMaster, []⟩ = _ from hrun] at hfirst
  obtain rfl := Option.some.inj hfirst
  obtain rfl := Option.some.inj hsecond
  exact ⟨_, m₁, _, m₂, hrun, hrun', mem_singleton_self _, mem_singleton_self _⟩

end K8sBridge

end LunaEdge
