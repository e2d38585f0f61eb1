import LunaEdge.BridgeResync

/-!
# Paths of an Ingress

A path with a service becomes a route and a backend, with ids made of the
Ingress, the host and the place of the path in its own rule. Rules of one
Ingress for one host count their paths separately, so two of them give
the same ids. Of the backends of an id the last is kept, and of the
routes the last is stored: the other path is lost.

Every path keeps a route and a backend of its own exactly if no Ingress
has paths with a service at the same place of two rules for the host
(`noPathLost_iff`).
-/

namespace LunaEdge

open Session List

namespace K8sBridge

-- host names are compared here and never computed
attribute [local irreducible] normalizeHost

namespace IngressBridge

/-- A path with a service, at its place in a rule of an Ingress. -/
structure ServedPath where
  ing : K8s.Ingress
  idx : Nat
  path : K8s.IngressPath
  service : K8s.ServiceBackend

def servedPaths (ings : List K8s.Ingress) (h : String) : List ServedPath :=
  (contributions ings h).flatMap fun c =>
    (c.2.http.getD []).zipIdx.filterMap fun (path, idx) =>
      path.service.map fun service => ⟨c.1, idx, path, service⟩

/-- A backend and a route to it with the path, the service and the port.
The service of type `ExternalName` is there as its address. -/
structure Carries (b : IngressBridge) (h : String) (s : ServedPath)
    (row : ServiceBackendRef × HTTPRoute) : Prop where
  host : row.2.hostname = h
  path : row.2.path = normalizePath s.path.path
  backend : row.2.backendRefID = row.1.id
  port : row.1.port = ingressServicePort s.service
  service : match b.resolveIngressBackendServiceAddress s.ing.namespace_ s.service.name with
    | some address => row.1.type = .external ∧ row.1.arbitraryEndpoint = address
    | none => row.1.type = .svc ∧ row.1.serviceNamespace = s.ing.namespace_.val
      ∧ row.1.serviceName = s.service.name.val

/-- Every path with a service has its route and its backend in the item of
the host, with ids of their own, and once the item has been written the
live routes of the host are one for each path. -/
def NoPathLost (b : IngressBridge) (ingresses : List K8s.Ingress → List K8s.Ingress)
    (hosts : List String) (h : String) : Prop :=
  (servedPaths b.ingresses.rows h ≠ [] →
    ((b.materializeByHost ingresses hosts).get? h).isSome = true)
  ∧ ∀ item, (b.materializeByHost ingresses hosts).get? h = some item →
    ∃ rows : List (ServiceBackendRef × HTTPRoute),
      List.Forall₂ (b.Carries h) (servedPaths b.ingresses.rows h) rows
      ∧ (∀ row ∈ rows, row.1 ∈ item.backends ∧ row.2 ∈ item.routes)
      ∧ (rows.map (·.1.id)).Nodup ∧ (rows.map (·.2.id)).Nodup
      ∧ ∀ (range : List HTTPRoute → List HTTPRoute), (∀ l, (range l).Perm l) → ∀ m : Master,
        ∃ changed m', Done (MasterM.upsertManagedDomain range item) m changed m'
          ∧ (m'.repo.listHTTPRoutesByHostname h).Perm (rows.map (·.2))

def ServedAt (rule : K8s.IngressRule) (idx : Nat) : Prop :=
  ∃ path, (rule.http.getD [])[idx]? = some path ∧ path.service.isSome = true

/-- No two rules for the host have a path with a service at one place. -/
def PlacesDiffer (ing : K8s.Ingress) (h : String) : Prop :=
  ing.rules.Pairwise fun rule rule' => normalizeHost rule.host.val = h →
    normalizeHost rule'.host.val = h → ∀ idx, ¬ (ServedAt rule idx ∧ ServedAt rule' idx)

variable {b : IngressBridge} {h : String} {ings : List K8s.Ingress}

def rowOf (b : IngressBridge) (h : String) (s : ServedPath) : ServiceBackendRef × HTTPRoute :=
  (b.pathBackend s.ing h s.idx s.service, pathRoute s.ing h s.idx s.path)

theorem hostPairs_eq (b : IngressBridge) (h : String) (ings : List K8s.Ingress) :
    b.hostPairs h (contributions ings h) = (servedPaths ings h).map (b.rowOf h) := by
  rw [hostPairs, servedPaths, map_flatMap]
  congr 1
  funext c
  rw [pathRows, map_filterMap]
  congr 1
  funext entry
  rw [Option.map_map]
  rfl

theorem carries_rowOf (b : IngressBridge) (h : String) (s : ServedPath) :
    b.Carries h s (b.rowOf h s) := by
  refine ⟨rfl, rfl, (b.id_pathBackend s.ing h s.idx s.service).symm, ?_, ?_⟩
  · unfold rowOf pathBackend
    dsimp only
    split <;> rfl
  · unfold rowOf pathBackend
    cases b.resolveIngressBackendServiceAddress s.ing.namespace_ s.service.name with
    | some address => exact ⟨rfl, rfl⟩
    | none => exact ⟨rfl, rfl, rfl⟩

theorem servedPaths_perm {ings' : List K8s.Ingress} (hperm : ings.Perm ings') :
    (servedPaths ings h).Perm (servedPaths ings' h) :=
  (hperm.flatMap_right _).flatMap_right _

/-! ## Distinct ids -/

theorem mem_ids_pathRows {ing : K8s.Ingress} {rule : K8s.IngressRule} {id : String} :
    id ∈ (b.pathRows ing h (rule.http.getD [])).map (·.2.id)
      ↔ ∃ idx, ServedAt rule idx ∧ id = routeID (rowFields ing h idx) := by
  simp only [pathRows, mem_map, mem_filterMap, Prod.exists,
    mk_mem_zipIdx_iff_getElem?, Option.map_eq_some_iff]
  constructor
  · rintro ⟨_, _, ⟨path, idx, hpath, service, hservice, heq⟩, rfl⟩
    refine ⟨idx, ⟨path, hpath, by rw [hservice]; rfl⟩, ?_⟩
    rw [← (Prod.mk.inj heq).2]
    rfl
  · rintro ⟨idx, ⟨path, hpath, hsome⟩, rfl⟩
    obtain ⟨service, hservice⟩ := Option.isSome_iff_exists.mp hsome
    exact ⟨_, _, ⟨path, idx, hpath, service, hservice, rfl⟩, rfl⟩

theorem disjoint_ids_iff {ing : K8s.Ingress} {rule rule' : K8s.IngressRule}
    (hcolon : ':' ∉ h.toList) :
    List.Disjoint ((b.pathRows ing h (rule.http.getD [])).map (·.2.id))
        ((b.pathRows ing h (rule'.http.getD [])).map (·.2.id))
      ↔ ∀ idx, ¬ (ServedAt rule idx ∧ ServedAt rule' idx) := by
  constructor
  · rintro hdisjoint idx ⟨hserved, hserved'⟩
    exact hdisjoint (mem_ids_pathRows.mpr ⟨idx, hserved, rfl⟩)
      (mem_ids_pathRows.mpr ⟨idx, hserved', rfl⟩)
  · intro hplaces id hid hid'
    obtain ⟨idx, hserved, rfl⟩ := mem_ids_pathRows.mp hid
    obtain ⟨idx', hserved', heq⟩ := mem_ids_pathRows.mp hid'
    obtain ⟨-, rfl⟩ := routeID_rowFields_inj hcolon heq
    exact hplaces idx ⟨hserved, hserved'⟩

/-- The routes of a host have distinct ids exactly if the places differ. -/
theorem nodup_hostPairs_iff (hkeys : (ings.map Keyed.key).Nodup) :
    ((b.hostPairs h (contributions ings h)).map (·.2.id)).Nodup
      ↔ ∀ ing ∈ ings, PlacesDiffer ing h := by
  have hcolon : ∀ ing ∈ ings, ∀ rule ∈ ing.rules, normalizeHost rule.host.val = h →
      ':' ∉ h.toList := fun ing hing rule hrule hhost =>
    noColon_of_contribution (c := (ing, rule)) (mem_contributions.mpr ⟨hing, hrule, hhost⟩)
  have hone : ∀ ing ∈ ings, ((ing.rules.filter fun rule => normalizeHost rule.host.val = h).map
      fun rule => (ing, rule)).Pairwise (Function.onFun List.Disjoint fun c =>
        (b.pathRows c.1 h (c.2.http.getD [])).map (·.2.id)) ↔ PlacesDiffer ing h := by
    intro ing hing
    rw [pairwise_map, pairwise_filter, PlacesDiffer]
    refine List.Pairwise.iff_of_mem fun {rule rule'} hrule _ => ?_
    simp only [decide_eq_true_eq, Function.onFun]
    exact forall_congr' fun hhost => forall_congr' fun _ =>
      disjoint_ids_iff (hcolon ing hing rule hrule hhost)
  rw [hostPairs, map_flatMap, nodup_flatMap]
  constructor
  · rintro ⟨-, hpairs⟩ ing hing
    exact (hone ing hing).mp ((pairwise_flatMap.mp hpairs).1 ing hing)
  · intro hplaces
    refine ⟨fun c hc => nodup_pathRows (noColon_of_contribution hc) _,
      pairwise_flatMap.mpr ⟨fun ing hing => (hone ing hing).mpr (hplaces ing hing), ?_⟩⟩
    -- the ids of two Ingresses differ in the names
    refine (pairwise_map.mp hkeys).imp_of_mem ?_
    intro ing ing' hing hing' hne c hc c' hc' id hid hid'
    obtain ⟨rule, hrule, rfl⟩ := mem_map.mp hc
    obtain ⟨rule', -, rfl⟩ := mem_map.mp hc'
    obtain ⟨hrule, hhost⟩ := mem_filter.mp hrule
    obtain ⟨idx, -, rfl⟩ := mem_ids_pathRows.mp hid
    obtain ⟨idx', -, heq⟩ := mem_ids_pathRows.mp hid'
    exact hne (routeID_rowFields_inj (hcolon ing hing rule hrule (of_decide_eq_true hhost)) heq).1

/-! ## Lost paths -/

section Lost

variable {ingresses : List K8s.Ingress → List K8s.Ingress} {hosts : List String}

theorem get?_eq_some_iff (hmem : h ∈ targets hosts) {item : DomainMaterialized} :
    (b.materializeByHost ingresses hosts).get? h = some item
      ↔ ∃ raw, b.hostItem h (contributions (ingresses b.ingresses.rows) h) = some raw
        ∧ dedupBackends raw = item := by
  rw [get?_materializeByHost, if_pos hmem, Option.map_eq_some_iff]

variable (hingresses : ∀ l, (ingresses l).Perm l) (hmem : h ∈ targets hosts)

include hingresses hmem

/-- The routes of the item are at most as many as their ids. -/
theorem nodup_of_noPathLost (hkept : b.NoPathLost ingresses hosts h) :
    ((b.hostPairs h (contributions (ingresses b.ingresses.rows) h)).map (·.2.id)).Nodup := by
  obtain ⟨hsome, hitems⟩ := hkept
  have hserved : (servedPaths (ingresses b.ingresses.rows) h).Perm
      (servedPaths b.ingresses.rows h) := servedPaths_perm (hingresses _)
  by_cases hnil : servedPaths b.ingresses.rows h = []
  · rw [hnil] at hserved
    rw [hostPairs_eq, hserved.eq_nil]
    exact nodup_nil
  · obtain ⟨item, hitem⟩ := Option.isSome_iff_exists.mp (hsome hnil)
    obtain ⟨rows, hcarries, hrows, -, hids, -⟩ := hitems _ hitem
    obtain ⟨raw, hraw, rfl⟩ := (get?_eq_some_iff hmem).mp hitem
    have hsub : rows.map (·.2.id)
        ⊆ (b.hostPairs h (contributions (ingresses b.ingresses.rows) h)).map (·.2.id) := by
      intro id hid
      obtain ⟨row, hrow, rfl⟩ := mem_map.mp hid
      have hroute : row.2 ∈ raw.routes := (hrows row hrow).2
      rw [(of_hostItem hraw).2.2] at hroute
      obtain ⟨p, hp, heq⟩ := mem_map.mp hroute
      exact mem_map.mpr ⟨p, hp, congrArg HTTPRoute.id heq⟩
    have hlen : (b.hostPairs h (contributions (ingresses b.ingresses.rows) h)).length
        = rows.length := by
      rw [hostPairs_eq, length_map, hserved.length_eq, hcarries.length_eq]
    -- distinct ids among those of the item, one for each path
    refine ((subperm_of_subset hids hsub).perm_of_length_le ?_).nodup_iff.mp hids
    rw [length_map, length_map, hlen]

theorem noPathLost_of_nodup
    (hnodup : ((b.hostPairs h (contributions (ingresses b.ingresses.rows) h)).map
      (·.2.id)).Nodup) : b.NoPathLost ingresses hosts h := by
  have hserved : (servedPaths b.ingresses.rows h).Perm
      (servedPaths (ingresses b.ingresses.rows) h) := servedPaths_perm (hingresses _).symm
  refine ⟨fun hne => ?_, fun item hitem => ?_⟩
  · have hcs : contributions (ingresses b.ingresses.rows) h ≠ [] := by
      intro hnil
      rw [servedPaths.eq_def (ingresses _), hnil] at hserved
      exact hne hserved.eq_nil
    obtain ⟨raw, hraw⟩ := Option.ne_none_iff_exists'.mp
      (mt (hostItem_eq_none_iff (b := b) (h := h)).mp hcs)
    exact Option.isSome_iff_exists.mpr ⟨_, (get?_eq_some_iff hmem).mpr ⟨raw, hraw, rfl⟩⟩
  · obtain ⟨raw, hraw, rfl⟩ := (get?_eq_some_iff hmem).mp hitem
    obtain ⟨⟨c, hc, -⟩, hbackends, hroutes⟩ := of_hostItem hraw
    have hcolon := noColon_of_contribution (mem_of_getLast? hc)
    have hbackendIDs : ((b.hostPairs h (contributions (ingresses b.ingresses.rows) h)).map
        (·.1.id)).Nodup := PairOf.nodup_backends (pairOf_hostPairs hcolon) hnodup
    have hpairs : ((servedPaths b.ingresses.rows h).map (b.rowOf h)).Perm
        (b.hostPairs h (contributions (ingresses b.ingresses.rows) h)) := by
      rw [hostPairs_eq]
      exact hserved.map _
    refine ⟨(servedPaths b.ingresses.rows h).map (b.rowOf h), ?_, fun row hrow => ⟨?_, ?_⟩, ?_, ?_,
      fun range hrange m => ⟨_, _, MasterM.upsertManagedDomain_done range _ m, ?_⟩⟩
    · rw [forall₂_map_right_iff]
      exact forall₂_same.mpr fun s _ => b.carries_rowOf h s
    · rw [(dedupBackends_perm (by rwa [hbackends, map_map])).mem_iff, hbackends]
      exact mem_map.mpr ⟨row, hpairs.mem_iff.mp hrow, rfl⟩
    · show row.2 ∈ raw.routes
      rw [hroutes]
      exact mem_map.mpr ⟨row, hpairs.mem_iff.mp hrow, rfl⟩
    · exact (hpairs.map _).nodup_iff.mpr hbackendIDs
    · exact (hpairs.map _).nodup_iff.mpr hnodup
    · have hmanaged := managed_of_nodup hcolon hnodup hraw
      refine (routes_upserted hrange hmanaged m.repo).trans ?_
      show raw.routes.Perm _
      rw [hroutes]
      exact (hpairs.map _).symm

end Lost

/-- No path of a host is lost exactly if every Ingress has its paths for
the host at different places of its rules. -/
theorem noPathLost_iff (b : IngressBridge) (ingresses : List K8s.Ingress → List K8s.Ingress)
    (hingresses : ∀ l, (ingresses l).Perm l) (hosts : List String) (h : String)
    (hmem : h ∈ targets hosts) :
    b.NoPathLost ingresses hosts h ↔ ∀ ing ∈ b.ingresses.rows, PlacesDiffer ing h := by
  have hperm := hingresses b.ingresses.rows
  have hkeys : ((ingresses b.ingresses.rows).map Keyed.key).Nodup :=
    (hperm.map _).nodup_iff.mpr b.ingresses.nodup
  have hplaces : (∀ ing ∈ b.ingresses.rows, PlacesDiffer ing h)
      ↔ ∀ ing ∈ ingresses b.ingresses.rows, PlacesDiffer ing h := by
    simp only [hperm.mem_iff]
  rw [hplaces, ← nodup_hostPairs_iff (b := b) hkeys]
  exact ⟨nodup_of_noPathLost hingresses hmem, noPathLost_of_nodup hingresses hmem⟩

def exampleRules (rules : List (List K8s.IngressPath)) : IngressBridge :=
  store { ingressClass := "luna" } (.storeIngress { IngressNode.exampleIngress
    IngressNode.exampleBlue with
      rules := rules.map fun paths => { host := K8s.exampleHost, http := some paths } })

def examplePath (path : String) (service : K8s.ObjectName) : K8s.IngressPath :=
  { path := path, service := some { name := service, portNumber := 80 } }

/-- Two rules, with the paths at different places. -/
theorem noPathLost_apart :
    (exampleRules [[examplePath "/" IngressNode.exampleBlue],
        [{ path := "/old" }, examplePath "/api" IngressNode.exampleGreen]]).NoPathLost id
      ["a.example"] "a.example" := by
  refine (noPathLost_iff _ _ List.Perm.refl _ _ (by decide +kernel)).mpr fun ing hing => ?_
  obtain rfl := mem_singleton.mp hing
  refine pairwise_pair.mpr fun _ _ idx => ?_
  rintro ⟨⟨path, hpath, -⟩, path', hpath', hservice⟩
  match idx with
  | 0 =>
    obtain rfl := Option.some.inj hpath'
    cases hservice
  | _ + 1 => cases hpath

/-- Two rules with one path each: two routes of one id, the backend of the
second path only, and one live route. -/
theorem path_lost :
    (servedPaths (exampleRules [[examplePath "/" IngressNode.exampleBlue],
        [examplePath "/api" IngressNode.exampleGreen]]).ingresses.rows "a.example").length = 2
      ∧ (((exampleRules [[examplePath "/" IngressNode.exampleBlue],
          [examplePath "/api" IngressNode.exampleGreen]]).materializeByHost id
            ["a.example"]).get? "a.example").map
          (fun item => (item.routes.map (·.id), item.backends.map (·.serviceName),
            (upsertDomain id item Repo.empty).2.listHTTPRoutesByHostname "a.example"
              |>.map (·.path)))
        = some (["k8s:route:ingress:web:blue:a.example:0", "k8s:route:ingress:web:blue:a.example:0"],
            ["green"], ["/api"])
      ∧ ¬ (exampleRules [[examplePath "/" IngressNode.exampleBlue],
          [examplePath "/api" IngressNode.exampleGreen]]).NoPathLost id ["a.example"]
            "a.example" := by
  refine ⟨by decide +kernel, by decide +kernel, fun hkept => ?_⟩
  have hids := nodup_of_noPathLost List.Perm.refl (by decide +kernel) hkept
  revert hids
  decide +kernel

end IngressBridge

end K8sBridge

end LunaEdge
