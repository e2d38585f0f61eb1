import LunaEdge.BridgeCalls

/-!
# Referential integrity of the managed rows

The bridges write and drop rows of three tables without a transaction and
without foreign keys. Along successful calls of both bridges, in any
interleaving, routes and endpoints refer to live backends, and every
managed backend is referred to (`integrity_of_calls`).

The invariant is `Intact`: in addition, the id of a live route names its
host and its backend, and the id of a bound backend names the host and
that a TLS route has bound it. So the rows dropped for a host are
referred to by no row of another host, and a backend dropped along with
an endpoint by no route, also where a host is removed while its routes
could not be listed and stay.
-/

namespace LunaEdge

open Session List

namespace K8sBridge

/-- A live row refers to a backend. -/
def Referenced (repo : Repo) (id : String) : Prop :=
  (∃ r : HTTPRoute, repo.httpRoutes.live? r.id = some r ∧ r.backendRefID = id)
  ∨ ∃ d : DomainEndpoint, repo.domainEndpoints.live? d.hostname = some d ∧ d.bindedServiceID = id

/-- Live rows refer to live rows, and no managed backend is left over. -/
structure ReferentialIntegrity (repo : Repo) : Prop where
  routes : ∀ r : HTTPRoute, repo.httpRoutes.live? r.id = some r →
    ∃ b : ServiceBackendRef, repo.serviceBackendRefs.live? b.id = some b ∧ b.id = r.backendRefID
  endpoints : ∀ d : DomainEndpoint, repo.domainEndpoints.live? d.hostname = some d →
    d.bindedServiceID ≠ "" → ∃ b : ServiceBackendRef,
      repo.serviceBackendRefs.live? b.id = some b ∧ b.id = d.bindedServiceID
  backends : ∀ b : ServiceBackendRef, repo.serviceBackendRefs.live? b.id = some b →
    managedBackend b.id = true → Referenced repo b.id

/-- The invariant: integrity, and ids that name what a row belongs to. -/
structure Intact (repo : Repo) : Prop where
  routes : ∀ r : HTTPRoute, repo.httpRoutes.live? r.id = some r →
    RouteOf r.hostname r ∧ (repo.serviceBackendRefs.live? r.backendRefID).isSome = true
  endpoints : ∀ d : DomainEndpoint, repo.domainEndpoints.live? d.hostname = some d →
    d.bindedServiceID = "" ∨ BoundTo d.hostname d.bindedServiceID
      ∧ (repo.serviceBackendRefs.live? d.bindedServiceID).isSome = true
  backends : ∀ id, (repo.serviceBackendRefs.live? id).isSome = true →
    managedBackend id = true ∧ Referenced repo id

variable {repo : Repo} {h : String} {item : DomainMaterialized}

theorem intact_empty : Intact Repo.empty := by
  refine ⟨fun _ hlive => ?_, fun _ hlive => ?_, fun _ hlive => ?_⟩
  · cases hlive
  · cases hlive
  · cases hlive

theorem Intact.integrity (hrepo : Intact repo) : ReferentialIntegrity repo where
  routes := by
    intro r hr
    obtain ⟨b, hb⟩ := Option.isSome_iff_exists.mp (hrepo.routes r hr).2
    have hid : b.id = r.backendRefID := Table.key_of_live? hb
    exact ⟨b, hid ▸ hb, hid⟩
  endpoints := by
    intro d hd hne
    obtain ⟨b, hb⟩ := Option.isSome_iff_exists.mp ((hrepo.endpoints d hd).resolve_left hne).2
    have hid : b.id = d.bindedServiceID := Table.key_of_live? hb
    exact ⟨b, hid ▸ hb, hid⟩
  backends := fun b hb _ => (hrepo.backends b.id (by rw [hb]; rfl)).2

/-! ## A domain written -/

section Replace

variable {stale : List HTTPRoute} (hrepo : Intact repo) (hi : Linked h item)
  (hstale : ∀ r, r ∈ stale ↔ r ∈ repo.listHTTPRoutesByHostname h ∧ r.id ∉ item.routes.map (·.id))

variable {r : HTTPRoute}

include hrepo hstale in
theorem routeOf_stale (hr : r ∈ stale) : RouteOf h r := by
  obtain ⟨hlive, hhost⟩ := Repo.mem_listHTTPRoutesByHostname.mp ((hstale r).mp hr).1
  exact hhost ▸ (hrepo.routes r hlive).1

include hi in
theorem endpoint_replaced (h' : String) :
    (replaceRows item (repo.domainEndpoints.live? h) stale repo).domainEndpoints.live? h'
      = if h = h' then some item.domain else repo.domainEndpoints.live? h' := by
  have hkey : Keyed.key item.domain = h := hi.hostname
  have hlive : Resource.deleted item.domain = false := hi.live
  rw [replaceRows_domains, Table.live?_upsertResource, hkey, hlive]
  rfl

include hi hstale in
theorem new_route_replaced (hr : r ∈ item.routes) :
    ∃ r', (replaceRows item (repo.domainEndpoints.live? h) stale repo).httpRoutes.live? r'.id
        = some r' ∧ r'.backendRefID = r.backendRefID := by
  obtain ⟨last, hlast⟩ : ∃ last, lastByID (·.id) item.routes r.id = some last := exists_lastByID hr
  obtain ⟨hmem, hid⟩ := mem_of_lastByID hlast
  have hof := (hi.routes last hmem).2
  have hid' : (Resource.withDefaults last).id = r.id := (Resource.key_withDefaults last).trans hid
  refine ⟨Resource.withDefaults last, ?_, ?_⟩
  · rw [hid', replaceRows_routes fun r hr => (hi.routes r hr).1, if_neg, hlast]
    · rfl
    · intro hx
      obtain ⟨r', hr', heq⟩ := mem_map.mp hx
      exact ((hstale r').mp hr').2 (mem_map.mpr ⟨r, hr, heq.symm⟩)
  · exact (hof.withDefaults.id_eq_iff (hi.routes r hr).2).mp hid'

include hi hstale in
theorem route_replaced
    (hlive : (replaceRows item (repo.domainEndpoints.live? h) stale repo).httpRoutes.live? r.id = some r) :
    (RouteOf h r ∧ r.backendRefID ∈ item.backends.map (·.id))
    ∨ (repo.httpRoutes.live? r.id = some r ∧ r.hostname ≠ h) := by
  rw [replaceRows_routes fun r hr => (hi.routes r hr).1] at hlive
  split at hlive
  · cases hlive
  · rename_i hnot
    cases hlast : lastByID (·.id) item.routes r.id with
    | some last =>
      rw [hlast] at hlive
      obtain ⟨hmem, -⟩ := mem_of_lastByID hlast
      have hr : Resource.withDefaults last = r := Option.some.inj hlive
      have hof := (hi.routes last hmem).2
      have hof' : RouteOf h r := hr ▸ hof.withDefaults
      refine Or.inl ⟨hof', ?_⟩
      have hid : r.id = last.id := by
        rw [← hr]
        exact Resource.key_withDefaults last
      rw [(hof'.id_eq_iff hof).mp hid]
      exact hi.refs last hmem
    | none =>
      rw [hlast] at hlive
      have hold : repo.httpRoutes.live? r.id = some r := hlive
      refine Or.inr ⟨hold, fun hhost => hnot (mem_map.mpr ⟨r, ?_, rfl⟩)⟩
      -- a route of the host without a new one of its id is stale
      refine (hstale r).mpr ⟨Repo.mem_listHTTPRoutesByHostname.mpr ⟨hold, hhost⟩, fun hx => ?_⟩
      obtain ⟨r', hr', hid⟩ := mem_map.mp hx
      obtain ⟨last, hlast'⟩ : ∃ last, lastByID (·.id) item.routes r'.id = some last :=
        exists_lastByID hr'
      rw [hid, hlast] at hlast'
      cases hlast'

include hrepo hi hstale in
theorem other_route_replaced (hlive : repo.httpRoutes.live? r.id = some r) (hhost : r.hostname ≠ h) :
    (replaceRows item (repo.domainEndpoints.live? h) stale repo).httpRoutes.live? r.id
      = some r := by
  have howner := (hrepo.routes r hlive).1.ownerOf_id
  have hother : ∀ r' : HTTPRoute, RouteOf h r' → r'.id ≠ r.id := by
    intro r' hof heq
    rw [← heq, hof.ownerOf_id] at howner
    exact hhost (Option.some.inj howner).symm
  rw [replaceRows_routes fun r hr => (hi.routes r hr).1, if_neg]
  · rw [lastByID_eq_none fun r' hr' => hother r' (hi.routes r' hr').2]
    exact hlive
  · intro hx
    obtain ⟨r', hr', hid⟩ := mem_map.mp hx
    exact hother r' (routeOf_stale hrepo hstale hr') hid

include hi in
theorem new_backend_replaced {id : String} (hid : id ∈ item.backends.map (·.id)) :
    ((replaceRows item (repo.domainEndpoints.live? h) stale repo).serviceBackendRefs.live?
      id).isSome = true := by
  obtain ⟨b, hb, rfl⟩ := mem_map.mp hid
  obtain ⟨last, hlast⟩ : ∃ last, lastByID (·.id) item.backends b.id = some last :=
    exists_lastByID hb
  rw [replaceRows_backends fun b hb => (hi.backends b hb).1, if_neg fun hx => hx.2.1 hid, hlast]
  rfl

include hrepo hi hstale in
theorem other_backend_replaced {id : String} (howner : ownerOf id ≠ some h) :
    (replaceRows item (repo.domainEndpoints.live? h) stale repo).serviceBackendRefs.live? id
      = repo.serviceBackendRefs.live? id := by
  rw [replaceRows_backends fun b hb => (hi.backends b hb).1, if_neg]
  · have hother : ∀ b ∈ item.backends, b.id ≠ id := by
      rintro b hb rfl
      exact howner (hi.ownerOf_backend hb)
    rw [lastByID_eq_none hother]
    rfl
  · rintro ⟨hmanaged, -, hx | ⟨d, hd, rfl⟩⟩
    · obtain ⟨r, hr, rfl⟩ := mem_map.mp hx
      exact howner (routeOf_stale hrepo hstale hr).ownerOf_ref
    · obtain rfl : d.hostname = h := Table.key_of_live? hd
      rcases hrepo.endpoints d hd with hempty | ⟨hbound, -⟩
      · rw [hempty] at hmanaged
        exact absurd hmanaged (by decide)
      · exact howner hbound.ownerOf

include hi in
/-- A backend that is live afterwards is a new one, or one that nothing
dropped has referred to. -/
theorem backend_replaced {id : String}
    (hlive : ((replaceRows item (repo.domainEndpoints.live? h) stale repo).serviceBackendRefs.live?
      id).isSome = true) :
    id ∈ item.backends.map (·.id)
    ∨ id ∉ item.backends.map (·.id) ∧ (repo.serviceBackendRefs.live? id).isSome = true
      ∧ (managedBackend id = true → id ∉ stale.map (·.backendRefID)
        ∧ ∀ d, repo.domainEndpoints.live? h = some d → d.bindedServiceID ≠ id) := by
  by_cases hnew : id ∈ item.backends.map (·.id)
  · exact Or.inl hnew
  · have hnone : lastByID (·.id) item.backends id = none :=
      lastByID_eq_none fun b hb hid => hnew (mem_map.mpr ⟨b, hb, hid⟩)
    rw [replaceRows_backends fun b hb => (hi.backends b hb).1] at hlive
    split at hlive
    · cases hlive
    · rename_i hkept
      rw [hnone] at hlive
      refine Or.inr ⟨hnew, hlive, fun hmanaged => ⟨fun hx => ?_, fun d hd heq => ?_⟩⟩
      · exact hkept ⟨hmanaged, hnew, Or.inl hx⟩
      · exact hkept ⟨hmanaged, hnew, Or.inr ⟨d, hd, heq⟩⟩

include hrepo hi hstale in
theorem Intact.replaceRows :
    Intact (replaceRows item (repo.domainEndpoints.live? h) stale repo) := by
  refine ⟨fun r hr => ?_, fun d hd => ?_, fun id hid => ?_⟩
  · rcases route_replaced hi hstale hr with ⟨hof, hnew⟩ | ⟨hold, hhost⟩
    · exact ⟨hof.1.symm ▸ hof, new_backend_replaced hi hnew⟩
    · obtain ⟨hof, hsome⟩ := hrepo.routes r hold
      have howner : ownerOf r.backendRefID ≠ some h := by
        rw [hof.ownerOf_ref]
        exact fun heq => hhost (Option.some.inj heq)
      exact ⟨hof, by rwa [other_backend_replaced hrepo hi hstale howner]⟩
  · rw [endpoint_replaced hi] at hd
    split at hd
    · obtain rfl := Option.some.inj hd
      rw [hi.hostname]
      exact hi.binded.imp_right fun hb => ⟨hb.1, new_backend_replaced hi hb.2⟩
    · rename_i hhost
      refine (hrepo.endpoints d hd).imp_right fun ⟨hbound, hsome⟩ => ⟨hbound, ?_⟩
      have howner : ownerOf d.bindedServiceID ≠ some h := by
        rw [hbound.ownerOf]
        exact fun heq => hhost (Option.some.inj heq).symm
      rwa [other_backend_replaced hrepo hi hstale howner]
  · rcases backend_replaced hi hid with hnew | ⟨hnot, hold, hkept⟩
    · obtain ⟨b, hb, rfl⟩ := mem_map.mp hnew
      obtain ⟨-, ⟨fields, hf, hid⟩, hused⟩ := hi.backends b hb
      refine ⟨hid ▸ hf.managedBackend_backendID, ?_⟩
      rcases hused with hbinded | ⟨r, hr, href⟩
      · refine Or.inr ⟨item.domain, ?_, hbinded.symm⟩
        rw [endpoint_replaced hi, hi.hostname, if_pos rfl]
      · obtain ⟨r', hlive, heq⟩ := new_route_replaced hi hstale hr
        exact Or.inl ⟨r', hlive, heq.trans href⟩
    · obtain ⟨hmanaged, hused⟩ := hrepo.backends id hold
      obtain ⟨hnotStale, hnotBound⟩ := hkept hmanaged
      refine ⟨hmanaged, ?_⟩
      rcases hused with ⟨r, hr, rfl⟩ | ⟨d, hd, rfl⟩
      · obtain ⟨hof, -⟩ := hrepo.routes r hr
        refine Or.inl ⟨r, other_route_replaced hrepo hi hstale hr fun hhost => ?_, rfl⟩
        -- the backend of a route of the host is dropped with it, or is a new one
        by_cases hid : r.id ∈ item.routes.map (·.id)
        · obtain ⟨r', hr', heq⟩ := mem_map.mp hid
          refine hnot ?_
          rw [← ((hi.routes r' hr').2.id_eq_iff hof).mp heq]
          exact hi.refs r' hr'
        · exact hnotStale (mem_map.mpr ⟨r, (hstale r).mpr
            ⟨Repo.mem_listHTTPRoutesByHostname.mpr ⟨hr, hhost⟩, hid⟩, rfl⟩)
      · refine Or.inr ⟨d, ?_, rfl⟩
        rw [endpoint_replaced hi, if_neg]
        · exact hd
        · rintro rfl
          exact hnotBound d hd rfl

end Replace

/-! ## A host removed -/

variable {domain : DomainEndpoint}

/-- A backend that goes was referred to by what goes. -/
theorem backend_kept {routes : List HTTPRoute} {id : String}
    (hsome : (repo.serviceBackendRefs.live? id).isSome = true)
    (hroute : ∀ r ∈ routes, r.backendRefID ≠ id) (hbound : domain.bindedServiceID ≠ id) :
    ((removeRows domain routes repo).serviceBackendRefs.live? id).isSome = true := by
  rw [removeRows_backends, if_neg]
  · exact hsome
  · rintro ⟨-, hx | hx⟩
    · obtain ⟨r, hr, heq⟩ := mem_map.mp hx
      exact hroute r hr heq
    · exact hbound hx

theorem Intact.boundTo (hrepo : Intact repo)
    (hdomain : repo.domainEndpoints.live? domain.hostname = some domain)
    (hmanaged : managedBackend domain.bindedServiceID = true) :
    BoundTo domain.hostname domain.bindedServiceID := by
  rcases hrepo.endpoints domain hdomain with hempty | ⟨hbound, -⟩
  · rw [hempty] at hmanaged
    exact absurd hmanaged (by decide)
  · exact hbound

/-- The routes that are removed are those of the host, or none of them
where they could not be listed. -/
theorem Intact.removeRows {routes : List HTTPRoute} (hrepo : Intact repo)
    (hdomain : repo.domainEndpoints.live? domain.hostname = some domain)
    (hroutes : ∀ r ∈ routes, repo.httpRoutes.live? r.id = some r) :
    Intact (removeRows domain routes repo) := by
  refine ⟨fun r hr => ?_, fun d hd => ?_, fun id hid => ?_⟩
  · rw [removeRows_routes] at hr
    split at hr
    · cases hr
    · rename_i hnot
      obtain ⟨hof, hsome⟩ := hrepo.routes r hr
      refine ⟨hof, backend_kept hsome (fun r' hr' heq => hnot ?_) fun heq => ?_⟩
      · have hof' := (hrepo.routes r' (hroutes r' hr')).1
        exact mem_map.mpr ⟨r', hr', (hof'.id_eq_iff hof).mpr heq⟩
      · have hbound := hrepo.boundTo hdomain (heq ▸ hof.managedBackend_ref)
        exact hbound.ne_ref hof heq
  · rw [removeRows_domains] at hd
    split at hd
    · cases hd
    · rename_i hhost
      refine (hrepo.endpoints d hd).imp_right fun ⟨hbound, hsome⟩ => ⟨hbound, ?_⟩
      refine backend_kept hsome (fun r hr heq => ?_) fun heq => ?_
      · exact hbound.ne_ref (hrepo.routes r (hroutes r hr)).1 heq.symm
      · have hbound' := hrepo.boundTo hdomain (heq ▸ hbound.managedBackend)
        have howner := hbound.ownerOf
        rw [← heq, hbound'.ownerOf] at howner
        exact hhost (Option.some.inj howner)
  · rw [removeRows_backends] at hid
    split at hid
    · cases hid
    · rename_i hkept
      obtain ⟨hmanaged, hused⟩ := hrepo.backends id hid
      refine ⟨hmanaged, ?_⟩
      rcases hused with ⟨r, hr, rfl⟩ | ⟨d, hd, rfl⟩
      · refine Or.inl ⟨r, ?_, rfl⟩
        rw [removeRows_routes, if_neg]
        · exact hr
        · intro hx
          obtain ⟨r', hr', heq⟩ := mem_map.mp hx
          refine hkept ⟨hmanaged, Or.inl (mem_map.mpr ⟨r', hr', ?_⟩)⟩
          have hof' := (hrepo.routes r' (hroutes r' hr')).1
          exact (hof'.id_eq_iff (hrepo.routes r hr).1).mp heq
      · refine Or.inr ⟨d, ?_, rfl⟩
        rw [removeRows_domains, if_neg]
        · exact hd
        · intro hhost
          rw [← hhost, hdomain] at hd
          obtain rfl := Option.some.inj hd
          exact hkept ⟨hmanaged, Or.inr rfl⟩

end K8sBridge

/-! ## Programs that return -/

namespace MasterM

open K8sBridge

/-- What fails from outside is no missing record. -/
def Outside (e : RepoError) : Prop := e ≠ .recordNotFound

variable {m : Master}

theorem orNothing_returns {α : Type} {f : Master → Except RepoError α} {x : Option α}
    (h : f m = orNotFound x) :
    Returns Outside (orNothing (query f)) m fun a t => a = x ∧ t = m := by
  refine (Returns.attempt_query (Q := fun r t => (r = orNotFound x ∨ ∃ e, r = .error e ∧ Outside e)
    ∧ t = m) ⟨Or.inl h, rfl⟩ fun e he => ⟨Or.inr ⟨e, rfl, he⟩, rfl⟩).bind ?_
  rintro r t ⟨hr, rfl⟩
  rcases hr with rfl | ⟨e, rfl, he⟩
  · cases x with
    | none => exact Returns.pure ⟨rfl, rfl⟩
    | some a => exact Returns.pure ⟨rfl, rfl⟩
  · cases e with
    | recordNotFound => exact absurd rfl he
    | noSuchColumn field => exact Returns.fail
    | database message => exact Returns.fail

theorem dropBackend_returns (keep : List String) (id : String) (m : Master) :
    Returns Outside (dropBackend keep id) m fun _ t =>
      t = { m with repo := m.repo.dropBackend keep id } := by
  unfold dropBackend Repo.dropBackend
  split
  · exact deleteResourceByField_returns ServiceBackendRef m rfl id
  · exact Returns.pure rfl

theorem dropRoute_returns (keep : List String) (r : HTTPRoute) (m : Master) :
    Returns Outside (dropRoute keep r) m fun _ t =>
      t = { m with repo := m.repo.dropRoute keep r } := by
  refine (deleteResourceByField_returns HTTPRoute m rfl r.id).bind ?_
  rintro _ t rfl
  exact dropBackend_returns keep _ _

theorem upsertManagedDomain_returns (range : List HTTPRoute → List HTTPRoute)
    (item : DomainMaterialized) (m : Master) :
    Returns Outside (upsertManagedDomain range item) m fun changed t =>
      changed = (upsertDomain range item m.repo).1
        ∧ t.repo = (upsertDomain range item m.repo).2 := by
  unfold upsertManagedDomain upsertDomain
  dsimp only
  refine (orNothing_returns
    (Table.getResourceByField_primary m.repo.domainEndpoints item.domain.hostname)).bind ?_
  rintro _ m ⟨rfl, rfl⟩
  refine (orNothing_returns
    (x := some (m.repo.listHTTPRoutesByHostname item.domain.hostname)) rfl).bind ?_
  rintro _ m ⟨rfl, rfl⟩
  refine (orNothing_returns
    (x := some (m.repo.listServiceBindingsByHostname item.domain.hostname)) rfl).bind ?_
  rintro _ m ⟨rfl, rfl⟩
  dsimp only [Option.getD_some]
  split
  · exact Returns.pure ⟨rfl, rfl⟩
  · refine (upsertResource_returns item.domain m).bind fun _ _ h₁ => ?_
    subst h₁
    refine (forM_repo_returns (fun b m => upsertResource_returns b m) _ _).bind fun _ _ h₂ => ?_
    subst h₂
    refine (forM_repo_returns (fun r m => upsertResource_returns r m) _ _).bind fun _ _ h₃ => ?_
    subst h₃
    refine (forM_repo_returns (dropRoute_returns _) _ _).bind fun _ _ h₄ => ?_
    subst h₄
    refine (forM_repo_returns (g := fun repo d => repo.dropBackend _ d.bindedServiceID)
      (fun d m => dropBackend_returns _ d.bindedServiceID m) _ _).bind fun _ _ h₅ => ?_
    subst h₅
    exact Returns.pure ⟨rfl, rfl⟩

/-- The listing of the routes may have failed. -/
theorem deleteManagedDomain_returns (h : String) (m : Master) :
    Returns Outside (deleteManagedDomain h) m fun _ t => t.repo = m.repo
      ∨ ∃ domain, m.repo.domainEndpoints.live? h = some domain
        ∧ (t.repo = removeRows domain (m.repo.listHTTPRoutesByHostname domain.hostname) m.repo
          ∨ t.repo = removeRows domain [] m.repo) := by
  unfold deleteManagedDomain
  refine (orNothing_returns (Table.getResourceByField_primary m.repo.domainEndpoints h)).bind ?_
  rintro existing m ⟨hlive, rfl⟩
  cases existing with
  | none => exact Returns.pure (Or.inl rfl)
  | some domain =>
    refine (Returns.attempt_query (Q := fun r t => t = m
      ∧ (r.toOption.getD [] = m.repo.listHTTPRoutesByHostname domain.hostname
        ∨ r.toOption.getD [] = [])) ⟨rfl, Or.inl rfl⟩ fun _ _ => ⟨rfl, Or.inr rfl⟩).bind ?_
    rintro routes m ⟨rfl, hroutes⟩
    generalize routes.toOption.getD [] = routes at hroutes
    refine (forM_repo_returns (dropRoute_returns []) routes m).bind fun _ _ h₁ => ?_
    subst h₁
    refine (dropBackend_returns [] domain.bindedServiceID _).bind fun _ _ h₂ => ?_
    subst h₂
    refine (deleteResourceByField_done DomainEndpoint _ rfl
      domain.hostname).returns_statement.bind ?_
    rintro _ _ ⟨-, rfl⟩
    refine Returns.pure (Or.inr ⟨domain, hlive.symm, ?_⟩)
    rcases hroutes with rfl | rfl
    · exact Or.inl rfl
    · exact Or.inr rfl

theorem markIfNeedCert_returns (domain : DomainEndpoint) (m : Master) :
    Returns Outside (markIfNeedCert domain) m fun _ t => t.repo = m.repo := by
  unfold markIfNeedCert
  split
  · unfold markCertificateDesired
    dsimp only
    split
    · exact Returns.pure rfl
    · exact Returns.effect rfl
  · exact Returns.pure rfl

/-! ## Calls that return -/

theorem deleteManagedDomain_intact (hrepo : Intact m.repo) (h : String) :
    Returns Outside (deleteManagedDomain h) m fun _ t => Intact t.repo := by
  refine (deleteManagedDomain_returns h m).mono fun _ t ht => ?_
  rcases ht with ht | ⟨domain, hdomain, ht⟩
  · exact ht ▸ hrepo
  · obtain rfl : domain.hostname = h := Table.key_of_live? hdomain
    rcases ht with ht | ht
    · rw [ht]
      exact hrepo.removeRows hdomain fun r hr => (Repo.mem_listHTTPRoutesByHostname.mp hr).1
    · rw [ht]
      exact hrepo.removeRows hdomain fun r hr => nomatch hr

theorem upsertManagedDomain_intact {range : List HTTPRoute → List HTTPRoute}
    (hrange : ∀ l, (range l).Perm l) {h : String} {item : DomainMaterialized}
    (hi : Linked h item) (hrepo : Intact m.repo) :
    Returns Outside (upsertManagedDomain range item) m fun _ t => Intact t.repo := by
  refine (upsertManagedDomain_returns range item m).mono fun _ t ⟨_, ht⟩ => ?_
  rw [ht]
  unfold upsertDomain
  dsimp only
  rw [hi.hostname]
  split
  · exact hrepo
  · refine hrepo.replaceRows hi fun r => ?_
    rw [(hrange _).mem_iff, mem_filter, decide_eq_true_eq]

end MasterM

namespace K8sBridge

open MasterM

theorem SyncCall.run_intact (c : SyncCall) {m : Master} (hrepo : Intact m.repo) :
    Returns Outside c.run m fun _ t => Intact t.repo := by
  have hremoved : ∀ (r : SyncResult) (h : String) (m : Master), Intact m.repo →
      Returns Outside (syncRemovedHost r h) m fun _ t => Intact t.repo := fun r h m hm =>
    (deleteManagedDomain_intact hm h).bind fun _ t ht => Returns.pure ht
  have haffected : ∀ (r : SyncResult) (h : String) (m : Master), Intact m.repo →
      Returns Outside (syncAffectedHost c.range c.next r h) m fun _ t => Intact t.repo := by
    intro r h m hm
    unfold syncAffectedHost
    cases hitem : c.next.get? h with
    | none => exact hremoved r h m hm
    | some item =>
      refine (upsertManagedDomain_intact c.range_perm (Bridge.linked hitem) hm).bind
        fun changed t ht => ?_
      exact (markIfNeedCert_returns item.domain t).bind fun _ u hu => Returns.pure (hu ▸ ht)
  -- both loops skip hosts, and otherwise run one of the bodies
  have hloop : ∀ (body : SyncResult → String → MasterM SyncResult),
      (∀ r h m, Intact m.repo → Returns Outside (body r h) m fun _ t => Intact t.repo) →
      ∀ (r : SyncResult) (host : String) (m : Master), Intact m.repo →
        Returns Outside (forNewHost body r host) m fun _ t => Intact t.repo := by
    intro body hbody r host m hm
    unfold forNewHost
    dsimp only
    split
    · exact Returns.pure hm
    · exact hbody _ _ m hm
  refine (Returns.foldlM (I := fun m : Master => Intact m.repo) (hloop _ haffected)
    c.affectedHosts {} hrepo).bind fun r t ht => ?_
  refine (Returns.foldlM (I := fun m : Master => Intact m.repo) (hloop _ hremoved)
    c.removedHosts r ht).bind fun r' t' ht' => ?_
  exact Returns.pure ht'

/-! ## Sequences of calls -/

/-- A call, and what fails from outside while it runs. -/
structure Attempt where
  call : SyncCall
  faults : List (Option RepoError)
  outside : some .recordNotFound ∉ faults

theorem Attempt.outside_faults (a : Attempt) : ∀ e, some e ∈ a.faults → Outside e := by
  rintro e he rfl
  exact a.outside he

def afterCalls (m : Master) (attempts : List Attempt) : Except RepoError Master :=
  attempts.foldlM (fun m a =>
    match a.call.run ⟨m, a.faults⟩ with
    | (.ok _, w) => .ok w.state
    | (.error e, _) => .error e) m

/-- Whatever calls the two bridges make on an empty repository, as long as
they succeed the rows refer to each other. -/
theorem integrity_of_calls (m : Master) (attempts : List Attempt) {m' : Master}
    (hrun : afterCalls { m with repo := .empty } attempts = .ok m') :
    ReferentialIntegrity m'.repo := by
  suffices hintact : ∀ m : Master, Intact m.repo →
      afterCalls m attempts = .ok m' → Intact m'.repo from
    (hintact _ intact_empty hrun).integrity
  clear hrun
  intro m hm hrun
  induction attempts generalizing m with
  | nil =>
    cases hrun
    exact hm
  | cons a attempts ih =>
    rw [afterCalls, foldlM_cons] at hrun
    rcases hcall : a.call.run ⟨m, a.faults⟩ with ⟨e | changed, w⟩
    · rw [hcall] at hrun
      cases hrun
    · rw [hcall] at hrun
      exact ih w.state (a.call.run_intact hm a.faults a.outside_faults changed w hcall).1 hrun

def exampleGatewayCall : SyncCall where
  bridge := .gateway ([GatewayBridge.Event.storeGateway { GatewayNode.exampleGateway with
        listeners := GatewayNode.exampleGateway.listeners.map fun listener =>
          { listener with name := "tls", protocol := "TLS" } },
      .storeTLSRoute {
        namespace_ := K8s.exampleNamespace
        name := K8s.exampleName
        hostnames := [K8s.exampleHost]
        parentRefs := [{ name := "edge" }]
        rules := [[{ name := "svc", port := 8443 }]] }].foldl GatewayBridge.store {})
    GatewayNode.inOrder
  range := id
  range_perm := List.Perm.refl
  affectedHosts := ["a.example"]
  removedHosts := []

/-- The host is written, removed while its routes cannot be listed, and
taken over by the other bridge. -/
def exampleTakeover : List Attempt :=
  [⟨exampleIngressCall ["a.example"] [], [], by decide⟩,
    ⟨exampleIngressCall [] ["a.example"], [none, some (.database "busy")], by decide⟩,
    ⟨exampleGatewayCall, [], by decide⟩]

theorem integrity_of_takeover :
    ∃ m', afterCalls { (⟨.empty, .empty, [], none⟩ : Master) with repo := .empty }
        exampleTakeover = .ok m'
      ∧ m'.repo.httpRoutes.rows.map (·.deleted) = [true]
      ∧ m'.repo.serviceBackendRefs.rows.map (·.deleted) = [true, false]
      ∧ ReferentialIntegrity m'.repo := by
  have hrows : (afterCalls { (⟨.empty, .empty, [], none⟩ : Master) with repo := .empty }
      exampleTakeover).toOption.map (fun m => (m.repo.httpRoutes.rows.map (·.deleted),
        m.repo.serviceBackendRefs.rows.map (·.deleted))) = some ([true], [true, false]) := by
    decide +kernel
  cases hrun : afterCalls { (⟨.empty, .empty, [], none⟩ : Master) with repo := .empty }
      exampleTakeover with
  | error e =>
    rw [hrun] at hrows
    cases hrows
  | ok m' =>
    rw [hrun] at hrows
    obtain ⟨hroutes, hbackends⟩ := Prod.mk.inj (Option.some.inj hrows)
    exact ⟨m', rfl, hroutes, hbackends, integrity_of_calls _ _ hrun⟩

end K8sBridge

end LunaEdge
