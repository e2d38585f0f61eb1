import LunaEdge.BridgeTables
import LunaEdge.K8sRoutes
import LunaEdge.ProjectionQuery
import LunaEdge.Selection

/-!
# The two ways to choose a route

An edge reads the routes of a domain that a bridge has written, each with
its backend, in the order of the query (`projection_of_mirrors`), and
chooses among them by string prefix, priority and length; its Kubernetes bridge chooses among the routes it
has materialised by path elements, exactness, length and order. Both are
loops that keep the best, each by a key of its own (`replicaKey`,
`bridgeKey`).
-/

namespace LunaEdge

namespace K8sBridge

/-! ## Mirrored domains -/

def projectRoute (r : HTTPRoute) (backend : ServiceBackendRef) : HTTPRouteProjection where
  id := r.id
  path := r.path
  priority := r.priority
  backendRef := some backend

variable {repo : Repo} {F : Domains} {h : String} {item : DomainMaterialized}

theorem backendRef_of_managed (hi : Managed h item) {backend : ServiceBackendRef}
    (hb : backend ∈ item.backends) :
    DomainEntryProjectionRow.backendRef (some backend) = some backend := by
  have hid : backend.id ≠ "" := by
    intro hid
    have hmanaged := hi.managedBackend_id hb
    rw [hid] at hmanaged
    exact absurd hmanaged (by decide)
  obtain ⟨hlive, htype, -⟩ := hi.backends backend hb
  unfold DomainEntryProjectionRow.backendRef derefServiceBackendType
  obtain ⟨deleted, id, type, endpoint, ns, name, port⟩ := backend
  obtain rfl : deleted = false := hlive
  dsimp only at hid htype ⊢
  rw [if_neg hid, if_neg htype]

theorem routeID_ne_empty {fields : List String} (hf : RowFields h fields) : routeID fields ≠ "" := by
  intro hid
  have hsplit := congrArg List.head? hf.split_routeID
  have hhead : (Go.split "" ':').head? = some "" := by decide
  rw [hid, hhead, List.head?_cons, Option.some_inj] at hsplit
  exact absurd hsplit (by decide)

theorem Mirrors.mem_hostRoutes (hm : Mirrors repo F) (hF : F h = some item) {r : HTTPRoute} :
    r ∈ hostRoutes repo h ↔ r ∈ item.routes := by
  have hlist := hm.mem_routes (h := h) (r := r)
  rw [Repo.listHTTPRoutesByHostname, List.mem_insertionSort] at hlist
  simp only [hostRoutes, Table.select, Bool.and_comm] at hlist ⊢
  rw [hlist]
  constructor
  · rintro ⟨item', hF', hr⟩
    exact Option.some.inj (hF.symm.trans hF') ▸ hr
  · exact fun hr => ⟨item, hF, hr⟩

theorem Mirrors.projectedRoute_eq (hm : Mirrors repo F) (hF : F h = some item) {r : HTTPRoute}
    {b : ServiceBackendRef} (hb : b ∈ item.backends) (hid : b.id = r.backendRefID) :
    projectedRoute repo r = projectRoute r b := by
  rw [projectedRoute, ← hid, hm.live_backend hF hb,
    backendRef_of_managed (hm.managed h item hF) hb, projectRoute]

/-- An edge reads the routes of the domain with their backends, in the
order of the query. -/
theorem projection_of_mirrors (hm : Mirrors repo F) (hF : F h = some item)
    (hl7 : item.domain.backendType.isL4 = false) :
    ∃ entry, repo.getDomainEntryProjectionByDomain h = .ok entry
      ∧ (entry.httpRoutes.Pairwise fun x y =>
        routeKey x.priority x.path x.id ≤ routeKey y.priority y.path y.id)
      ∧ ∀ x, x ∈ entry.httpRoutes
        ↔ ∃ r ∈ item.routes, ∃ b ∈ item.backends, b.id = r.backendRefID ∧ x = projectRoute r b := by
  have hi := hm.managed h item hF
  have hlive : repo.domainEndpoints.live? h = some item.domain := by rw [hm.domains, hF]; rfl
  obtain ⟨entry, hread, hsorted, hmem⟩ := projection_of_live hlive hl7
  refine ⟨entry, hread, hsorted, fun x => ?_⟩
  rw [hmem]
  constructor
  · rintro ⟨r, hr, -, rfl⟩
    rw [hm.mem_hostRoutes hF] at hr
    obtain ⟨b, hb, hid⟩ := List.mem_map.mp (hi.refs r hr)
    exact ⟨r, hr, b, hb, hid, hm.projectedRoute_eq hF hb hid⟩
  · rintro ⟨r, hr, b, hb, hid, rfl⟩
    refine ⟨r, (hm.mem_hostRoutes hF).mpr hr, ?_, hm.projectedRoute_eq hF hb hid⟩
    obtain ⟨-, -, -, fields, hf, hroute, -⟩ := hi.routes r hr
    rw [hroute]
    exact routeID_ne_empty hf

theorem projection_of_none (hm : Mirrors repo F) (hF : F h = none) :
    repo.getDomainEntryProjectionByDomain h = .error .recordNotFound := by
  refine Repo.getDomainEntryProjectionByDomain_eq_notFound.mpr ⟨rfl, ?_⟩
  rw [hm.domains, hF]
  rfl

end K8sBridge

open Selection

namespace Ingress

/-! ## Prefixes -/

theorem eq_of_prefix_of_len {a b : String} (h : a.toList <+: b.toList) (hlen : Go.len a = Go.len b) :
    a = b := by
  obtain ⟨t, ht⟩ := h
  obtain rfl : b = a ++ String.ofList t := by
    rw [← String.toList_inj, String.toList_append, String.toList_ofList, ht]
  rw [Go.len, Go.len, String.utf8ByteSize_append] at hlen
  have hempty : String.ofList t = "" := String.utf8ByteSize_eq_zero_iff.mp (by omega)
  rw [hempty, String.append_empty]

theorem eq_of_hasPrefix {s a b : String} (ha : Go.hasPrefix s a = true)
    (hb : Go.hasPrefix s b = true) (hlen : Go.len a = Go.len b) : a = b := by
  rcases List.prefix_or_prefix_of_prefix (List.isPrefixOf_iff_prefix.mp ha)
    (List.isPrefixOf_iff_prefix.mp hb) with h | h
  · exact eq_of_prefix_of_len h hlen
  · exact (eq_of_prefix_of_len h hlen.symm).symm

theorem httpRouteMatches_cases {c p : String} (h : httpRouteMatches c p = true) :
    c = "" ∨ c = "/" ∨ Go.hasPrefix (if p = "" then "/" else p) c = true := by
  unfold httpRouteMatches at h
  dsimp only at h
  split at h
  · rename_i hroot
    rw [Bool.or_eq_true, decide_eq_true_eq, decide_eq_true_eq] at hroot
    exact hroot.imp_right Or.inl
  · exact Or.inr (Or.inr h)

theorem length_of_len_one {s : String} (h : Go.len s = 1) : s.length = 1 := by
  have hle : ∀ cs : List Char, cs.length ≤ String.utf8Len cs := by
    intro cs
    induction cs with
    | nil => exact Nat.le_refl 0
    | cons c cs ih =>
      rw [String.utf8Len_cons, List.length_cons]
      exact Nat.add_le_add ih c.utf8Size_pos
  have hlen := hle s.toList
  rw [← String.utf8ByteSize_ofList, String.ofList_toList, String.length_toList,
    show s.utf8ByteSize = 1 from h] at hlen
  have hne : s.length ≠ 0 := by
    intro hzero
    rw [String.length_eq_zero_iff.mp hzero] at h
    cases h
  omega

theorem length_eq_of_httpRouteMatches {a b p : String} (ha : httpRouteMatches a p = true)
    (hb : httpRouteMatches b p = true) (hlen : Go.len a = Go.len b) : a.length = b.length := by
  have hempty : ∀ {s : String}, Go.len s = 0 → s = "" := String.utf8ByteSize_eq_zero_iff.mp
  rcases httpRouteMatches_cases ha with rfl | rfl | ha
  · rw [hempty hlen.symm]
  · exact (length_of_len_one hlen.symm).symm
  · rcases httpRouteMatches_cases hb with rfl | rfl | hb
    · rw [hempty hlen]
    · exact length_of_len_one hlen
    · rw [eq_of_hasPrefix ha hb hlen]

/-! ## Routes of a projection -/

/-- Priority, then length of the path, then the smaller id. -/
def replicaKey (x : HTTPRouteProjection) : Lex (Int × Lex (Nat × Stringᵒᵈ)) :=
  toLex (x.priority, toLex (Go.len x.path, .toDual x.id))

theorem replicaKey_lt_iff {x y : HTTPRouteProjection} :
    replicaKey x < replicaKey y ↔ x.priority < y.priority ∨ x.priority = y.priority
      ∧ (Go.len x.path < Go.len y.path ∨ Go.len x.path = Go.len y.path ∧ y.id < x.id) := by
  rw [replicaKey, replicaKey, Prod.Lex.toLex_lt_toLex, Prod.Lex.toLex_lt_toLex]
  rfl

theorem id_of_replicaKey {x y : HTTPRouteProjection} (h : replicaKey x = replicaKey y) :
    x.id = y.id := by
  have h' := congrArg (fun k : Lex (Int × Lex (Nat × Stringᵒᵈ)) => (ofLex (ofLex k).2).2) h
  exact h'

/-- What an edge chooses of a sorted list of routes. -/
theorem selectHTTPRoute_eq_some_iff {routes : List HTTPRouteProjection} (p : String)
    (w : HTTPRouteProjection)
    (hsorted : routes.Pairwise fun x y => K8sBridge.routeKey x.priority x.path x.id
      ≤ K8sBridge.routeKey y.priority y.path y.id)
    (hids : ∀ x ∈ routes, ∀ y ∈ routes, x.id = y.id → x = y) :
    selectHTTPRoute routes p = some w
      ↔ IsBest (fun x => httpRouteMatches x.path p) replicaKey routes w := by
  have hloop : selectNextRoute p = keepBetter (fun x => httpRouteMatches x.path p)
      fun route s => s.priority < route.priority
        || (route.priority = s.priority && Go.len s.path < Go.len route.path) := rfl
  rw [selectHTTPRoute, hloop]
  refine foldl_keepBetter_eq_some_iff ?_ fun x hx y hy _ _ heq =>
    hids x hx y hy (id_of_replicaKey heq)
  refine hsorted.imp_of_mem fun {s x} hs hx hle hms hmx => ?_
  rw [replicaKey_lt_iff, Bool.or_eq_true, Bool.and_eq_true, decide_eq_true_eq, decide_eq_true_eq,
    decide_eq_true_eq]
  refine or_congr_right ?_
  constructor
  · exact fun ⟨hprio, hlen⟩ => ⟨hprio.symm, Or.inl hlen⟩
  · rintro ⟨hprio, hlen | ⟨hlen, hid⟩⟩
    · exact ⟨hprio.symm, hlen⟩
    · -- the paths are as long, and the list has the smaller id first
      have hlength := length_eq_of_httpRouteMatches hms hmx hlen
      rw [K8sBridge.routeKey_le_iff, hlength] at hle
      rcases hle with hlt | ⟨-, hlt | ⟨-, hle⟩⟩
      · exact absurd hprio hlt.ne'
      · exact absurd hlt (lt_irrefl _)
      · exact absurd hid (not_lt.mpr hle)

/-! ## Routes of the bridge -/

/-- Exact paths first, then length, then the earlier rule, then the
greater id. -/
def bridgeKey (r : MaterializedRoute) : Lex (Bool × Lex (Nat × Lex (Natᵒᵈ × String))) :=
  toLex (decide (r.pathKind = .exact),
    toLex (Go.len r.path, toLex (.toDual r.routeOrder, r.binding.id)))

theorem bridgeKey_lt_iff {s x : MaterializedRoute} :
    bridgeKey s < bridgeKey x ↔ 0 < compareK8sRoutePriority x s := by
  have hkey : bridgeKey s < bridgeKey x
      ↔ decide (s.pathKind = .exact) < decide (x.pathKind = .exact)
        ∨ decide (s.pathKind = .exact) = decide (x.pathKind = .exact)
        ∧ (Go.len s.path < Go.len x.path ∨ Go.len s.path = Go.len x.path
          ∧ (x.routeOrder < s.routeOrder ∨ s.routeOrder = x.routeOrder
            ∧ s.binding.id < x.binding.id)) := by
    rw [bridgeKey, bridgeKey, Prod.Lex.toLex_lt_toLex, Prod.Lex.toLex_lt_toLex,
      Prod.Lex.toLex_lt_toLex]
    rfl
  rw [hkey, compareK8sRoutePriority]
  by_cases hkind : x.pathKind = s.pathKind
  · rw [if_neg (not_not.mpr hkind), hkind]
    simp only [lt_irrefl, true_and, false_or]
    by_cases hlen : Go.len x.path = Go.len s.path
    · rw [if_neg (not_not.mpr hlen), hlen]
      simp only [lt_irrefl, true_and, false_or]
      by_cases horder : x.routeOrder = s.routeOrder
      · rw [if_neg (not_not.mpr horder), horder]
        simp only [lt_irrefl, true_and, false_or]
        by_cases hid : x.binding.id = s.binding.id
        · rw [if_neg (not_not.mpr hid), hid]
          exact ⟨fun h => absurd h (lt_irrefl _), fun h => absurd h (by decide)⟩
        · rw [if_pos hid]
          split
          · exact ⟨fun _ => by decide, fun _ => by assumption⟩
          · exact ⟨fun h => absurd h (by assumption), fun h => absurd h (by decide)⟩
      · rw [if_pos horder]
        split <;> omega
    · rw [if_pos hlen]
      split <;> omega
  · rw [if_pos hkind]
    cases hx : x.pathKind <;> cases hs : s.pathKind <;> simp_all

theorem id_of_bridgeKey {x y : MaterializedRoute} (h : bridgeKey x = bridgeKey y) :
    x.binding.id = y.binding.id := by
  have h' := congrArg (fun k : Lex (Bool × Lex (Nat × Lex (Natᵒᵈ × String))) =>
    (ofLex (ofLex (ofLex k).2).2).2) h
  exact h'

theorem selectNextK8sRoute_eq_keepBetter (p : String) (kind : RouteKind) :
    selectNextK8sRoute p kind
      = keepBetter (fun r => decide (r.kind = kind) && k8sPathMatches r.pathKind r.path p)
        fun x s => decide (0 < compareK8sRoutePriority x s) := by
  funext selected x
  unfold selectNextK8sRoute keepBetter
  by_cases hkind : x.kind = kind
  · simp only [ne_eq, hkind, not_true_eq_false, if_false, decide_true, Bool.true_and]
  · simp only [ne_eq, hkind, not_false_eq_true, if_true, decide_false, Bool.false_and,
      Bool.not_false]

theorem selectK8sRoute_eq_some_iff {routes : List MaterializedRoute} (p : String)
    (kind : RouteKind) (w : MaterializedRoute)
    (hids : ∀ x ∈ routes, ∀ y ∈ routes, x.binding.id = y.binding.id → x = y) :
    selectK8sRoute routes p kind = some w
      ↔ IsBest (fun r => decide (r.kind = kind) && k8sPathMatches r.pathKind r.path p) bridgeKey
        routes w := by
  rw [selectK8sRoute, selectNextK8sRoute_eq_keepBetter]
  refine foldl_keepBetter_eq_some_iff ?_ fun x hx y hy _ _ heq =>
    hids x hx y hy (id_of_bridgeKey heq)
  refine List.pairwise_of_forall fun s x _ _ => ?_
  rw [decide_eq_true_eq, bridgeKey_lt_iff]

/-! ## Choices among candidates

The routes of a host come from candidates: on the side of the replica
each with a backend and a route that a bridge of the master has written,
on the side of the edge's bridge each with a materialised route. -/

section Candidates

variable {S : Type} {candidates : List S} {host p : String}

/-- What an edge with this repository binds a plaintext request to. -/
def replicaBinding (repo : Repo) (hostname requestPath : String) : Option BackendBinding :=
  match repo.getDomainEntryProjectionByDomain hostname with
  | .ok entry => bindingFromProjection entry requestPath .http
  | .error _ => none

def rowBinding (hostname : String) (row : ServiceBackendRef × HTTPRoute) : BackendBinding where
  id := row.2.id
  hostname := hostname
  namespace_ := row.1.serviceNamespace
  name := row.1.serviceName
  address := backendAddress row.1
  port := row.1.port
  protocol := .http
  routeVersion := 1
  path := row.2.path
  priority := row.2.priority
  backendRef := some row.1

variable {repo : Repo} {F : K8sBridge.Domains}
  {item : K8sBridge.DomainMaterialized}

theorem replicaBinding_of_none (hm : K8sBridge.Mirrors repo F) (hF : F host = none) :
    replicaBinding repo host p = none := by
  rw [replicaBinding, K8sBridge.projection_of_none hm hF]

theorem replicaBinding_eq_some_iff {binding : BackendBinding}
    (row : S → ServiceBackendRef × HTTPRoute) (hm : K8sBridge.Mirrors repo F)
    (hF : F host = some item) (hl7 : item.domain.backendType.isL4 = false)
    (hrows : ∀ b r, (r ∈ item.routes ∧ b ∈ item.backends ∧ b.id = r.backendRefID)
      ↔ ∃ s ∈ candidates, row s = (b, r)) :
    replicaBinding repo host p = some binding
      ↔ ∃ s, IsBest (fun s => httpRouteMatches (row s).2.path p)
          (fun s => replicaKey (K8sBridge.projectRoute (row s).2 (row s).1)) candidates s
        ∧ rowBinding host (row s) = binding := by
  have hi := hm.managed host item hF
  obtain ⟨entry, hread, hsorted, hmem⟩ := K8sBridge.projection_of_mirrors hm hF hl7
  have hhost := (Repo.getDomainEntryProjectionByDomain_ok hread).1
  have himage : ∀ x, x ∈ entry.httpRoutes
      ↔ ∃ s ∈ candidates, K8sBridge.projectRoute (row s).2 (row s).1 = x := by
    intro x
    rw [hmem]
    constructor
    · rintro ⟨r, hr, b, hb, hid, rfl⟩
      obtain ⟨s, hs, hrow⟩ := (hrows b r).mp ⟨hr, hb, hid⟩
      exact ⟨s, hs, by rw [hrow]⟩
    · rintro ⟨s, hs, rfl⟩
      obtain ⟨hr, hb, hid⟩ := (hrows (row s).1 (row s).2).mpr ⟨s, hs, rfl⟩
      exact ⟨_, hr, _, hb, hid, rfl⟩
  have hselect := fun w => selectHTTPRoute_eq_some_iff p w hsorted
    (fun x hx y hy heq => by
      obtain ⟨r, hr, b, hb, hid, rfl⟩ := (hmem x).mp hx
      obtain ⟨r', hr', b', hb', hid', rfl⟩ := (hmem y).mp hy
      obtain rfl := List.inj_on_of_nodup_map hi.routeIDs hr hr' heq
      obtain rfl := List.inj_on_of_nodup_map hi.backendIDs hb hb' (hid.trans hid'.symm)
      rfl)
  simp only [replicaBinding, hread, bindingFromProjection, httpBinding, Option.bind_eq_bind,
    Option.bind_eq_some_iff, hselect, isBest_image himage]
  constructor
  · rintro ⟨x, ⟨s, hs, rfl⟩, ref, href, hbinding⟩
    obtain rfl := Option.some.inj href
    refine ⟨s, hs, ?_⟩
    rw [← Option.some.inj hbinding, hhost]
    rfl
  · rintro ⟨s, hs, rfl⟩
    refine ⟨_, ⟨s, hs, rfl⟩, (row s).1, rfl, ?_⟩
    rw [hhost]
    rfl

theorem resolveHTTP_eq_some_iff {b : ResolvedRoutes} (route : S → MaterializedRoute)
    {backend : K8sResolvedBackend} (hh : normalizeHost host ≠ "")
    (hroutes : ∀ r, r ∈ b.httpResolved.ofHost (normalizeHost host) ↔ ∃ s ∈ candidates, route s = r)
    (hkind : ∀ s ∈ candidates, (route s).kind = .http)
    (hids : ∀ s ∈ candidates, ∀ s' ∈ candidates,
      (route s).binding.id = (route s').binding.id → route s = route s') :
    b.resolveHTTP host p = some backend
      ↔ ∃ s, IsBest (fun s => k8sPathMatches (route s).pathKind (route s).path
            (normalizeIngressPath p)) (fun s => bridgeKey (route s)) candidates s
        ∧ ResolvedRoutes.materializedToResolved (route s) = backend := by
  have hunique : ∀ x ∈ b.httpResolved.ofHost (normalizeHost host),
      ∀ y ∈ b.httpResolved.ofHost (normalizeHost host), x.binding.id = y.binding.id → x = y := by
    intro x hx y hy heq
    obtain ⟨s, hs, rfl⟩ := (hroutes x).mp hx
    obtain ⟨s', hs', rfl⟩ := (hroutes y).mp hy
    exact hids s hs s' hs' heq
  have hselect := fun w => selectK8sRoute_eq_some_iff (normalizeIngressPath p) .http w hunique
  simp only [ResolvedRoutes.resolveHTTP, ResolvedRoutes.resolveHostPath, if_neg hh,
    ResolvedRoutes.table, Option.map_eq_some_iff, hselect, isBest_image hroutes]
  have hbest : ∀ s, IsBest (fun s => decide ((route s).kind = .http)
        && k8sPathMatches (route s).pathKind (route s).path (normalizeIngressPath p))
        (fun s => bridgeKey (route s)) candidates s
      ↔ IsBest (fun s => k8sPathMatches (route s).pathKind (route s).path (normalizeIngressPath p))
        (fun s => bridgeKey (route s)) candidates s :=
    isBest_congr fun s hs => by rw [decide_eq_true (hkind s hs), Bool.true_and]
  simp only [hbest]
  constructor
  · rintro ⟨x, ⟨s, hs, rfl⟩, rfl⟩
    exact ⟨s, hs, rfl⟩
  · rintro ⟨s, hs, rfl⟩
    exact ⟨_, ⟨s, hs, rfl⟩, rfl⟩

end Candidates

end Ingress

end LunaEdge
