import LunaEdge.BridgeSync
import LunaEdge.Manage

/-!
# The tables behind the Kubernetes bridges

What the synchronisation of materialised domains does to the tables, for
both bridges at once. The rows of a host have ids in which the host is
the sixth field (`ownerOf`), so that the tables fall into one part for
each host. A synchronised host has its part replaced by the rows of its
materialised domain, or emptied; the other parts stay as they are
(`Mirrors.replaceRows`, `Mirrors.removeRows`).

`Mirrors repo F` says that the live rows are those of the domains `F`.
-/

namespace LunaEdge

open Session List

namespace K8sBridge

/-! ## Row ids -/

/-- The host in the id of a managed row. -/
def ownerOf (id : String) : Option String := (Go.split id ':')[5]?

def routeID (fields : List String) : String := Go.colons ("k8s" :: "route" :: fields)

def backendID (fields : List String) : String := Go.colons ("k8s" :: "backend" :: fields)

/-- The fields of the ids of a host's rows: the kind of object, its
namespace and name, the host and the position in the object. -/
structure RowFields (host : String) (fields : List String) : Prop where
  noColon : ∀ f ∈ fields, ':' ∉ f.toList
  host : fields[3]? = some host

variable {h : String} {fields : List String}

section

variable (hf : RowFields h fields)

include hf

theorem RowFields.split_cons {table : String} (ht : ':' ∉ table.toList) :
    Go.split (Go.colons ("k8s" :: table :: fields)) ':' = "k8s" :: table :: fields := by
  refine Go.split_colons ?_ (cons_ne_nil _ _)
  intro f hmem
  rcases mem_cons.mp hmem with rfl | hmem
  · decide
  · rcases mem_cons.mp hmem with rfl | hmem
    · exact ht
    · exact hf.noColon f hmem

theorem RowFields.split_routeID : Go.split (routeID fields) ':' = "k8s" :: "route" :: fields :=
  hf.split_cons (by decide)

theorem RowFields.split_backendID :
    Go.split (backendID fields) ':' = "k8s" :: "backend" :: fields :=
  hf.split_cons (by decide)

theorem RowFields.ownerOf_routeID : ownerOf (routeID fields) = some h := by
  rw [ownerOf, hf.split_routeID]
  exact hf.host

theorem RowFields.ownerOf_backendID : ownerOf (backendID fields) = some h := by
  rw [ownerOf, hf.split_backendID]
  exact hf.host

theorem RowFields.routeID_inj {h' : String} {fields' : List String} (hf' : RowFields h' fields')
    (heq : routeID fields = routeID fields') : fields = fields' := by
  have hsplit := congrArg (Go.split · ':') heq
  simp only [hf.split_routeID, hf'.split_routeID, List.cons.injEq, true_and] at hsplit
  exact hsplit

theorem RowFields.backendID_inj {h' : String} {fields' : List String} (hf' : RowFields h' fields')
    (heq : backendID fields = backendID fields') : fields = fields' := by
  have hsplit := congrArg (Go.split · ':') heq
  simp only [hf.split_backendID, hf'.split_backendID, List.cons.injEq, true_and] at hsplit
  exact hsplit

theorem RowFields.managedBackend_backendID : managedBackend (backendID fields) = true := by
  cases fields with
  | nil => exact absurd hf.host (by simp)
  | cons f fs =>
    have happ : backendID (f :: fs) = "k8s:backend:" ++ Go.colons (f :: fs) := by
      rw [← String.toList_inj]
      simp [backendID, Go.colons, intercalate_cons_cons]
    rw [managedBackend, happ]
    exact Go.hasPrefix_append _ _

end

/-! ## Materialised domains -/

/-- What a bridge materialises for a host: every route has a backend of
its own, and every backend is one of a route or the bound one. -/
structure Managed (host : String) (item : DomainMaterialized) : Prop where
  hostname : item.domain.hostname = host
  live : item.domain.deleted = false
  binded : item.domain.bindedServiceID = "" ∨ item.domain.bindedServiceID ∈ item.backends.map (·.id)
  routes : ∀ r ∈ item.routes, r.deleted = false ∧ r.hostname = host ∧ r.path ≠ ""
    ∧ ∃ fields, RowFields host fields ∧ r.id = routeID fields ∧ r.backendRefID = backendID fields
  routeIDs : (item.routes.map (·.id)).Nodup
  refs : ∀ r ∈ item.routes, r.backendRefID ∈ item.backends.map (·.id)
  backends : ∀ b ∈ item.backends, b.deleted = false ∧ b.type ≠ .unset
    ∧ (∃ fields, RowFields host fields ∧ b.id = backendID fields)
    ∧ (b.id = item.domain.bindedServiceID ∨ ∃ r ∈ item.routes, r.backendRefID = b.id)
  backendIDs : (item.backends.map (·.id)).Nodup

namespace Managed

variable {item : DomainMaterialized} {r : HTTPRoute} {b : ServiceBackendRef}

section

variable (hi : Managed h item)

include hi

theorem ownerOf_route (hr : r ∈ item.routes) : ownerOf r.id = some h := by
  obtain ⟨-, -, -, fields, hf, hid, -⟩ := hi.routes r hr
  rw [hid]
  exact hf.ownerOf_routeID

theorem ownerOf_backend (hb : b ∈ item.backends) : ownerOf b.id = some h := by
  obtain ⟨-, -, ⟨fields, hf, hid⟩, -⟩ := hi.backends b hb
  rw [hid]
  exact hf.ownerOf_backendID

theorem managedBackend_id (hb : b ∈ item.backends) : managedBackend b.id = true := by
  obtain ⟨-, -, ⟨fields, hf, hid⟩, -⟩ := hi.backends b hb
  rw [hid]
  exact hf.managedBackend_backendID

theorem backendRefID_eq {item' : DomainMaterialized} {r' : HTTPRoute} (hi' : Managed h item')
    (hr : r ∈ item.routes) (hr' : r' ∈ item'.routes) (hid : r.id = r'.id) :
    r.backendRefID = r'.backendRefID := by
  obtain ⟨-, -, -, fields, hf, hrid, href⟩ := hi.routes r hr
  obtain ⟨-, -, -, fields', hf', hrid', href'⟩ := hi'.routes r' hr'
  have hfields : fields = fields' := hf.routeID_inj hf' (by rw [← hrid, ← hrid', hid])
  rw [href, href', hfields]

theorem withDefaults_route (hr : r ∈ item.routes) : Resource.withDefaults r = r := by
  obtain ⟨-, -, hpath, -⟩ := hi.routes r hr
  show HTTPRoute.withDefaults r = r
  rw [HTTPRoute.withDefaults, if_neg hpath]

theorem withDefaults_backend (hb : b ∈ item.backends) : Resource.withDefaults b = b := by
  obtain ⟨-, htype, -⟩ := hi.backends b hb
  show ServiceBackendRef.withDefaults b = b
  rw [ServiceBackendRef.withDefaults, if_neg htype]

end

end Managed

/-! ## Rows in pairs -/

/-- A backend and the route to it, of a host. -/
structure PairOf (host : String) (p : ServiceBackendRef × HTTPRoute) : Prop where
  backend : p.1.deleted = false ∧ p.1.type ≠ .unset
  route : p.2.deleted = false ∧ p.2.hostname = host ∧ p.2.path ≠ ""
  ids : ∃ fields, RowFields host fields ∧ p.1.id = backendID fields ∧ p.2.id = routeID fields
    ∧ p.2.backendRefID = backendID fields

variable {pairs : List (ServiceBackendRef × HTTPRoute)}

theorem Managed.of_pairs {item : DomainMaterialized} (hhost : item.domain.hostname = h)
    (hlive : item.domain.deleted = false) (hbinded : item.domain.bindedServiceID = "")
    (hpairs : ∀ p ∈ pairs, PairOf h p) (hroutes : ∀ r, r ∈ item.routes ↔ ∃ p ∈ pairs, p.2 = r)
    (hbackends : ∀ b, b ∈ item.backends ↔ ∃ p ∈ pairs, p.1 = b)
    (hrouteIDs : (item.routes.map (·.id)).Nodup) (hbackendIDs : (item.backends.map (·.id)).Nodup) :
    Managed h item := by
  refine ⟨hhost, hlive, Or.inl hbinded, ?_, hrouteIDs, ?_, ?_, hbackendIDs⟩
  · intro r hr
    obtain ⟨p, hp, rfl⟩ := (hroutes r).mp hr
    obtain ⟨-, ⟨hdel, hname, hpath⟩, fields, hf, -, hid, href⟩ := hpairs p hp
    exact ⟨hdel, hname, hpath, fields, hf, hid, href⟩
  · intro r hr
    obtain ⟨p, hp, rfl⟩ := (hroutes r).mp hr
    obtain ⟨-, -, fields, hf, hid, -, href⟩ := hpairs p hp
    refine mem_map.mpr ⟨p.1, (hbackends p.1).mpr ⟨p, hp, rfl⟩, ?_⟩
    rw [hid, href]
  · intro b hb
    obtain ⟨p, hp, rfl⟩ := (hbackends b).mp hb
    obtain ⟨⟨hdel, htype⟩, -, fields, hf, hid, -, href⟩ := hpairs p hp
    refine ⟨hdel, htype, ⟨fields, hf, hid⟩, Or.inr ⟨p.2, (hroutes p.2).mpr ⟨p, hp, rfl⟩, ?_⟩⟩
    rw [hid, href]

theorem Managed.mem_pairs {item : DomainMaterialized} {b : ServiceBackendRef} {r : HTTPRoute}
    (hi : Managed h item) (hpairs : ∀ p ∈ pairs, PairOf h p)
    (hroutes : ∀ r, r ∈ item.routes ↔ ∃ p ∈ pairs, p.2 = r)
    (hbackends : ∀ b, b ∈ item.backends ↔ ∃ p ∈ pairs, p.1 = b) :
    (r ∈ item.routes ∧ b ∈ item.backends ∧ b.id = r.backendRefID) ↔ (b, r) ∈ pairs := by
  constructor
  · rintro ⟨hr, hb, hid⟩
    obtain ⟨p, hp, rfl⟩ := (hroutes r).mp hr
    obtain ⟨-, -, fields, -, hpid, -, href⟩ := hpairs p hp
    have heq : b = p.1 := by
      refine inj_on_of_nodup_map hi.backendIDs hb ((hbackends p.1).mpr ⟨p, hp, rfl⟩) ?_
      rw [hid, hpid, href]
    rw [heq]
    exact hp
  · intro hp
    obtain ⟨-, -, fields, -, hpid, -, href⟩ := hpairs (b, r) hp
    exact ⟨(hroutes r).mpr ⟨_, hp, rfl⟩, (hbackends b).mpr ⟨_, hp, rfl⟩, hpid.trans href.symm⟩

theorem PairOf.nodup_backends (hpairs : ∀ p ∈ pairs, PairOf h p)
    (hnodup : (pairs.map (·.2.id)).Nodup) : (pairs.map (·.1.id)).Nodup := by
  refine (nodup_map_iff_inj_on hnodup.of_map).mpr fun p hp q hq hid => ?_
  obtain ⟨-, -, fields, hf, hb, hr, -⟩ := hpairs p hp
  obtain ⟨-, -, fields', hf', hb', hr', -⟩ := hpairs q hq
  refine inj_on_of_nodup_map hnodup hp hq ?_
  rw [hb, hb'] at hid
  rw [hr, hr', hf.backendID_inj hf' hid]

/-! ## The tables of a set of domains -/

abbrev Domains := String → Option DomainMaterialized

/-- The row of an id: one of the domain of its host. -/
def rowAt {ρ : Type} [Keyed ρ String] (rowsOf : DomainMaterialized → List ρ) (F : Domains)
    (id : String) : Option ρ :=
  ((ownerOf id).bind F).bind fun item => (rowsOf item).find? fun r => Keyed.key r = id

structure Mirrors (repo : Repo) (F : Domains) : Prop where
  managed : ∀ h item, F h = some item → Managed h item
  domains : ∀ h, repo.domainEndpoints.live? h = (F h).map (·.domain)
  routes : ∀ id, repo.httpRoutes.live? id = rowAt (·.routes) F id
  backends : ∀ id, repo.serviceBackendRefs.live? id = rowAt (·.backends) F id

section Rows

variable {ρ : Type} [Keyed ρ String] {rowsOf : DomainMaterialized → List ρ} {F : Domains}

theorem rowAt_update (h : String) (x : Option DomainMaterialized) (id : String) :
    rowAt rowsOf (Function.update F h x) id
      = if ownerOf id = some h then
          x.bind fun item => (rowsOf item).find? fun r => Keyed.key r = id
        else rowAt rowsOf F id := by
  rw [rowAt, rowAt]
  cases howner : ownerOf id with
  | none => rfl
  | some h' =>
    rw [Option.bind_some, Option.bind_some]
    by_cases hh : h' = h
    · rw [hh, Function.update_self, if_pos rfl]
    · rw [Function.update_of_ne hh, if_neg fun heq => hh (Option.some.inj heq)]

theorem of_rowAt {id : String} {r : ρ} (hrow : rowAt rowsOf F id = some r) :
    ∃ h item, ownerOf id = some h ∧ F h = some item ∧ r ∈ rowsOf item ∧ Keyed.key r = id := by
  obtain ⟨item, hitem, hfind⟩ := Option.bind_eq_some_iff.mp hrow
  obtain ⟨h, howner, hF⟩ := Option.bind_eq_some_iff.mp hitem
  exact ⟨h, item, howner, hF, mem_of_find?_eq_some hfind, by simpa using List.find?_some hfind⟩

theorem find?_of_nodup {rows : List ρ} {r : ρ} (hnodup : (rows.map Keyed.key).Nodup)
    (hr : r ∈ rows) : (rows.find? fun x => Keyed.key x = Keyed.key r) = some r :=
  Table.find?_of_mem (t := ⟨rows, hnodup⟩) hr

theorem rowAt_of_mem {h : String} {item : DomainMaterialized} {r : ρ} (hF : F h = some item)
    (hnodup : ((rowsOf item).map Keyed.key).Nodup) (hr : r ∈ rowsOf item)
    (howner : ownerOf (Keyed.key r) = some h) : rowAt rowsOf F (Keyed.key r) = some r := by
  rw [rowAt, howner, Option.bind_some, hF, Option.bind_some]
  exact find?_of_nodup hnodup hr

theorem getLast?_filter {rows : List ρ} (hnodup : (rows.map Keyed.key).Nodup) (id : String) :
    (rows.filter fun r => Keyed.key r = id).getLast? = rows.find? fun r => Keyed.key r = id := by
  induction rows with
  | nil => rfl
  | cons r rows ih =>
    obtain ⟨hnot, hnodup⟩ := nodup_cons.mp hnodup
    by_cases hk : Keyed.key r = id
    · have hnil : (rows.filter fun r => Keyed.key r = id) = [] := by
        refine filter_eq_nil_iff.mpr fun r' hr' => ?_
        rw [decide_eq_true_eq]
        intro hk'
        exact hnot (mem_map.mpr ⟨r', hr', hk'.trans hk.symm⟩)
      simp [hk, hnil]
    · simp [hk, ih hnodup]

end Rows

end K8sBridge

/-! ## Statements -/

namespace Repo

open K8sBridge

def dropBackend (keep : List String) (repo : Repo) (id : String) : Repo :=
  if managedBackend id ∧ id ∉ keep then repo.retire ServiceBackendRef id else repo

def dropRoute (keep : List String) (repo : Repo) (route : HTTPRoute) : Repo :=
  (repo.retire HTTPRoute route.id).dropBackend keep route.backendRefID

variable {keep : List String} {repo : Repo}

theorem live?_dropBackend (id k : String) :
    (repo.dropBackend keep id).serviceBackendRefs.live? k
      = if managedBackend k = true ∧ k ∉ keep ∧ id = k then none
        else repo.serviceBackendRefs.live? k := by
  unfold dropBackend
  by_cases hid : managedBackend id = true ∧ id ∉ keep
  · rw [if_pos hid]
    show (repo.serviceBackendRefs.retire Keyed.key id).live? k = _
    rw [Table.live?_retire]
    by_cases hk : id = k
    · rw [if_pos hk, if_pos ⟨hk ▸ hid.1, hk ▸ hid.2, hk⟩]
    · rw [if_neg hk, if_neg fun h => hk h.2.2]
  · rw [if_neg hid, if_neg]
    rintro ⟨hm, hkeep, rfl⟩
    exact hid ⟨hm, hkeep⟩

theorem dropBackend_httpRoutes (id : String) :
    (repo.dropBackend keep id).httpRoutes = repo.httpRoutes := by
  unfold dropBackend
  split <;> rfl

theorem dropBackend_domainEndpoints (id : String) :
    (repo.dropBackend keep id).domainEndpoints = repo.domainEndpoints := by
  unfold dropBackend
  split <;> rfl

theorem live?_foldl_dropRoute (routes : List HTTPRoute) :
    (routes.foldl (dropRoute keep) repo).domainEndpoints = repo.domainEndpoints
      ∧ (∀ k, (routes.foldl (dropRoute keep) repo).httpRoutes.live? k
        = if k ∈ routes.map (·.id) then none else repo.httpRoutes.live? k)
      ∧ ∀ k, (routes.foldl (dropRoute keep) repo).serviceBackendRefs.live? k
        = if managedBackend k = true ∧ k ∉ keep ∧ k ∈ routes.map (·.backendRefID) then none
          else repo.serviceBackendRefs.live? k := by
  induction routes generalizing repo with
  | nil => simp
  | cons r routes ih =>
    obtain ⟨hdomains, hroutes, hbackends⟩ := @ih (repo.dropRoute keep r)
    refine ⟨?_, fun k => ?_, fun k => ?_⟩
    · rw [foldl_cons, hdomains, dropRoute, dropBackend_domainEndpoints]
      rfl
    · rw [foldl_cons, hroutes, dropRoute, dropBackend_httpRoutes]
      show (if _ then _ else (repo.httpRoutes.retire Keyed.key r.id).live? k) = _
      rw [Table.live?_retire]
      by_cases hk : r.id = k
      · simp [hk]
      · simp [hk, Ne.symm hk]
    · rw [foldl_cons, hbackends, dropRoute, live?_dropBackend]
      show (if _ then _ else if _ then _ else repo.serviceBackendRefs.live? k) = _
      by_cases hk : r.backendRefID = k
      · by_cases hm : managedBackend k = true ∧ k ∉ keep
        · simp [hk, hm]
        · have hm' : ∀ p : Prop, ¬ (managedBackend k = true ∧ k ∉ keep ∧ p) :=
            fun p h => hm ⟨h.1, h.2.1⟩
          simp only [hm', if_false]
      · simp [hk, Ne.symm hk]

end Repo

/-! ## The rows of one host -/

namespace Repo

theorem foldl_upsertResource_backends (rows : List ServiceBackendRef) (repo : Repo) :
    rows.foldl upsertResource repo
      = { repo with
          serviceBackendRefs := rows.foldl Table.upsertResource repo.serviceBackendRefs } := by
  induction rows generalizing repo with
  | nil => rfl
  | cons r rows ih =>
    rw [foldl_cons, ih]
    rfl

theorem foldl_upsertResource_routes (rows : List HTTPRoute) (repo : Repo) :
    rows.foldl upsertResource repo
      = { repo with httpRoutes := rows.foldl Table.upsertResource repo.httpRoutes } := by
  induction rows generalizing repo with
  | nil => rfl
  | cons r rows ih =>
    rw [foldl_cons, ih]
    rfl

theorem mem_listHTTPRoutesByHostname {repo : Repo} {h : String} {r : HTTPRoute} :
    r ∈ repo.listHTTPRoutesByHostname h ↔ repo.httpRoutes.live? r.id = some r ∧ r.hostname = h := by
  have hfind : repo.httpRoutes.find? r.id = some r ↔ r ∈ repo.httpRoutes.rows :=
    Table.find?_eq_some_iff.trans (and_iff_left rfl)
  rw [listHTTPRoutesByHostname, mem_insertionSort, Table.select, mem_filter,
    Table.live?_eq_some_iff, hfind]
  simp only [Bool.and_eq_true, Bool.not_eq_eq_eq_not, Bool.not_true, beq_iff_eq, and_assoc]
  rfl

theorem mem_listServiceBindingsByHostname {repo : Repo} {h : String} {b : ServiceBackendRef} :
    b ∈ repo.listServiceBindingsByHostname h
      ↔ repo.serviceBackendRefs.live? b.id = some b
        ∧ ∃ r ∈ repo.listHTTPRoutesByHostname h, r.backendRefID = b.id := by
  have hfind : repo.serviceBackendRefs.find? b.id = some b ↔ b ∈ repo.serviceBackendRefs.rows :=
    Table.find?_eq_some_iff.trans (and_iff_left rfl)
  rw [listServiceBindingsByHostname, listHTTPRoutesByHostname, Table.live?_eq_some_iff, hfind]
  simp only [mem_insertionSort, mem_flatMap, mem_map, mem_filter,
    Table.select, beq_iff_eq, Bool.not_eq_eq_eq_not, Bool.not_true]
  constructor
  · rintro ⟨b', ⟨hmem, hlive⟩, r, ⟨hr, href⟩, rfl⟩
    exact ⟨⟨hmem, hlive⟩, r, hr, href⟩
  · rintro ⟨⟨hmem, hlive⟩, r, hr, href⟩
    exact ⟨b, ⟨hmem, hlive⟩, r, ⟨hr, href⟩, rfl⟩

end Repo

namespace K8sBridge

variable {repo : Repo} {F : Domains} {h : String} {item : DomainMaterialized}

theorem Mirrors.mem_routes (hm : Mirrors repo F) {r : HTTPRoute} :
    r ∈ repo.listHTTPRoutesByHostname h ↔ ∃ item, F h = some item ∧ r ∈ item.routes := by
  rw [Repo.mem_listHTTPRoutesByHostname, hm.routes]
  constructor
  · rintro ⟨hrow, hhost⟩
    obtain ⟨h', item, -, hF, hr, -⟩ := of_rowAt hrow
    obtain ⟨-, hhost', -⟩ := (hm.managed h' item hF).routes r hr
    obtain rfl : h' = h := hhost'.symm.trans hhost
    exact ⟨item, hF, hr⟩
  · rintro ⟨item, hF, hr⟩
    have hi := hm.managed h item hF
    obtain ⟨-, hhost, -⟩ := hi.routes r hr
    exact ⟨rowAt_of_mem hF hi.routeIDs hr (hi.ownerOf_route hr), hhost⟩

theorem Mirrors.live_backend (hm : Mirrors repo F) (hF : F h = some item)
    {b : ServiceBackendRef} (hb : b ∈ item.backends) :
    repo.serviceBackendRefs.live? b.id = some b := by
  have hi := hm.managed h item hF
  rw [hm.backends]
  exact rowAt_of_mem hF hi.backendIDs hb (hi.ownerOf_backend hb)

theorem lastByID_stored {ρ : Type} [Resource ρ] {rows : List ρ}
    (hnodup : (rows.map Keyed.key).Nodup)
    (hstored : ∀ r ∈ rows, Resource.withDefaults r = r) (id : String) :
    (lastByID Keyed.key rows id).map Resource.withDefaults
      = rows.find? fun r => Keyed.key r = id := by
  rw [lastByID, getLast?_filter hnodup]
  cases hf : rows.find? fun r => Keyed.key r = id with
  | none => rfl
  | some r => rw [Option.map_some, hstored r (mem_of_find?_eq_some hf)]

theorem Managed.last_route (hi : Managed h item) (id : String) :
    (lastByID (·.id) item.routes id).map Resource.withDefaults
      = item.routes.find? fun r => r.id = id :=
  lastByID_stored hi.routeIDs (fun _ hr => hi.withDefaults_route hr) id

theorem Managed.last_backend (hi : Managed h item) (id : String) :
    (lastByID (·.id) item.backends id).map Resource.withDefaults
      = item.backends.find? fun b => b.id = id :=
  lastByID_stored hi.backendIDs (fun _ hb => hi.withDefaults_backend hb) id

def upsertRows (item : DomainMaterialized) (repo : Repo) : Repo :=
  item.routes.foldl Repo.upsertResource
    (item.backends.foldl Repo.upsertResource (repo.upsertResource item.domain))

theorem upsertRows_domains :
    (upsertRows item repo).domainEndpoints = repo.domainEndpoints.upsertResource item.domain := by
  rw [upsertRows, Repo.foldl_upsertResource_routes, Repo.foldl_upsertResource_backends]
  rfl

theorem upsertRows_routes (hlive : ∀ r ∈ item.routes, r.deleted = false) (id : String) :
    (upsertRows item repo).httpRoutes.live? id
      = ((lastByID (·.id) item.routes id).map Resource.withDefaults).or
        (repo.httpRoutes.live? id) := by
  rw [upsertRows, Repo.foldl_upsertResource_routes, Repo.foldl_upsertResource_backends]
  exact Table.live?_foldl_upsertResource _ hlive id

theorem upsertRows_backends (hlive : ∀ b ∈ item.backends, b.deleted = false) (id : String) :
    (upsertRows item repo).serviceBackendRefs.live? id
      = ((lastByID (·.id) item.backends id).map Resource.withDefaults).or
        (repo.serviceBackendRefs.live? id) := by
  rw [upsertRows, Repo.foldl_upsertResource_routes, Repo.foldl_upsertResource_backends]
  exact Table.live?_foldl_upsertResource _ hlive id

def replaceRows (item : DomainMaterialized) (existing : Option DomainEndpoint)
    (stale : List HTTPRoute) (repo : Repo) : Repo :=
  let keep := item.backends.map (·.id)
  existing.toList.foldl (fun repo domain => repo.dropBackend keep domain.bindedServiceID)
    (stale.foldl (Repo.dropRoute keep) (upsertRows item repo))

theorem dropBinded {keep : List String} (existing : Option DomainEndpoint) (repo : Repo) :
    let repo' := existing.toList.foldl
      (fun repo domain => repo.dropBackend keep domain.bindedServiceID) repo
    repo'.domainEndpoints = repo.domainEndpoints ∧ repo'.httpRoutes = repo.httpRoutes
      ∧ ∀ id, repo'.serviceBackendRefs.live? id
        = if managedBackend id = true ∧ id ∉ keep ∧ ∃ d ∈ existing, d.bindedServiceID = id then
            none
          else repo.serviceBackendRefs.live? id := by
  cases existing with
  | none => simp
  | some d =>
    refine ⟨Repo.dropBackend_domainEndpoints _, Repo.dropBackend_httpRoutes _, fun id => ?_⟩
    refine (Repo.live?_dropBackend _ id).trans ?_
    simp

section Replace

variable {existing : Option DomainEndpoint} {stale : List HTTPRoute}

theorem replaceRows_domains :
    (replaceRows item existing stale repo).domainEndpoints
      = repo.domainEndpoints.upsertResource item.domain := by
  rw [replaceRows, (dropBinded existing _).1, (Repo.live?_foldl_dropRoute stale).1,
    upsertRows_domains]

theorem replaceRows_routes (hlive : ∀ r ∈ item.routes, r.deleted = false) (id : String) :
    (replaceRows item existing stale repo).httpRoutes.live? id
      = if id ∈ stale.map (·.id) then none
        else ((lastByID (·.id) item.routes id).map Resource.withDefaults).or
          (repo.httpRoutes.live? id) := by
  rw [replaceRows, (dropBinded existing _).2.1, (Repo.live?_foldl_dropRoute stale).2.1,
    upsertRows_routes hlive]

theorem replaceRows_backends (hlive : ∀ b ∈ item.backends, b.deleted = false) (id : String) :
    (replaceRows item existing stale repo).serviceBackendRefs.live? id
      = if managedBackend id = true ∧ id ∉ item.backends.map (·.id)
            ∧ (id ∈ stale.map (·.backendRefID) ∨ ∃ d ∈ existing, d.bindedServiceID = id) then
          none
        else ((lastByID (·.id) item.backends id).map Resource.withDefaults).or
          (repo.serviceBackendRefs.live? id) := by
  rw [replaceRows, (dropBinded existing _).2.2, (Repo.live?_foldl_dropRoute stale).2.2,
    upsertRows_backends hlive, ← ite_or]
  refine if_congr ?_ rfl rfl
  rw [← and_or_left, ← and_or_left, or_comm]

end Replace

/-- The rows of one owner are exchanged: its old ones are dropped where no
new one has their id. -/
theorem replaced_eq {ρ : Type} {key : ρ → String} {rows : List ρ} {old : Option ρ} {id : String}
    {drop owned : Prop} [Decidable drop] [Decidable owned]
    (hnew : ∀ r ∈ rows, key r = id → ¬ drop ∧ owned) (hdrop : drop → owned)
    (hold : owned → id ∉ rows.map key → ∀ r, old = some r → drop) :
    (if drop then none else (rows.find? fun r => key r = id).or old)
      = if owned then rows.find? fun r => key r = id else old := by
  cases hf : rows.find? fun r => key r = id with
  | some r =>
    obtain ⟨hkept, howned⟩ := hnew r (mem_of_find?_eq_some hf) (by simpa using List.find?_some hf)
    rw [if_neg hkept, if_pos howned]
    rfl
  | none =>
    have hnext : id ∉ rows.map key := by simpa using hf
    by_cases howned : owned
    · rw [if_pos howned]
      cases old with
      | none => exact ite_self none
      | some r => rw [if_pos (hold howned hnext r rfl)]
    · rw [if_neg howned, if_neg (mt hdrop howned)]
      rfl

section Replaced

variable {stale : List HTTPRoute} (hm : Mirrors repo F) (hi : Managed h item)
  (hstale : ∀ r, r ∈ stale ↔ r ∈ repo.listHTTPRoutesByHostname h ∧ r.id ∉ item.routes.map (·.id))

include hm hi hstale

theorem Mirrors.routes_replaced (id : String) :
    (if id ∈ stale.map (·.id) then none
      else (item.routes.find? fun r => r.id = id).or (rowAt (·.routes) F id))
      = if ownerOf id = some h then item.routes.find? fun r => r.id = id
        else rowAt (·.routes) F id := by
  refine replaced_eq (fun r hr hid => ⟨?_, hid ▸ hi.ownerOf_route hr⟩) ?_ ?_
  · intro hmem
    obtain ⟨r', hr', hid'⟩ := mem_map.mp hmem
    exact ((hstale r').mp hr').2 (mem_map.mpr ⟨r, hr, hid.trans hid'.symm⟩)
  · intro hmem
    obtain ⟨r, hr, rfl⟩ := mem_map.mp hmem
    obtain ⟨old, hF, hr⟩ := hm.mem_routes.mp ((hstale r).mp hr).1
    exact (hm.managed h old hF).ownerOf_route hr
  · -- a row left over from before would be stale
    intro howner hnext r hrow
    obtain ⟨h', old, howner', hF, hr, rfl⟩ := of_rowAt hrow
    obtain rfl : h = h' := Option.some.inj (howner.symm.trans howner')
    exact mem_map.mpr ⟨r, (hstale r).mpr ⟨hm.mem_routes.mpr ⟨old, hF, hr⟩, hnext⟩, rfl⟩

theorem Mirrors.backend_dropped {old : DomainMaterialized} {b : ServiceBackendRef}
    (hF : F h = some old) (hb : b ∈ old.backends) (hnext : b.id ∉ item.backends.map (·.id)) :
    b.id ∈ stale.map (·.backendRefID)
      ∨ ∃ d ∈ repo.domainEndpoints.live? h, d.bindedServiceID = b.id := by
  have hold := hm.managed h old hF
  obtain ⟨-, -, -, hused⟩ := hold.backends b hb
  rcases hused with hbinded | ⟨r, hr, href⟩
  · refine Or.inr ⟨old.domain, ?_, hbinded.symm⟩
    rw [hm.domains, hF]
    rfl
  · refine Or.inl (mem_map.mpr ⟨r, (hstale r).mpr ⟨?_, ?_⟩, href⟩)
    · exact hm.mem_routes.mpr ⟨old, hF, hr⟩
    · intro hmem
      obtain ⟨r', hr', hid⟩ := mem_map.mp hmem
      refine hnext ?_
      rw [← href, ← hi.backendRefID_eq hold hr' hr hid]
      exact hi.refs r' hr'

omit hi in
theorem Mirrors.ownerOf_dropped {id : String} (hmanaged : managedBackend id = true)
    (hdrop : id ∈ stale.map (·.backendRefID)
      ∨ ∃ d ∈ repo.domainEndpoints.live? h, d.bindedServiceID = id) : ownerOf id = some h := by
  obtain ⟨old, hF, hid⟩ : ∃ old, F h = some old ∧ id ∈ old.backends.map (·.id) := by
    rcases hdrop with hmem | ⟨d, hd, hid⟩
    · obtain ⟨r, hr, rfl⟩ := mem_map.mp hmem
      obtain ⟨old, hF, hr⟩ := hm.mem_routes.mp ((hstale r).mp hr).1
      exact ⟨old, hF, (hm.managed h old hF).refs r hr⟩
    · rw [hm.domains] at hd
      obtain ⟨old, hF, rfl⟩ := Option.map_eq_some_iff.mp hd
      refine ⟨old, hF, ?_⟩
      rcases (hm.managed h old hF).binded with hempty | hmem
      · rw [← hid, hempty] at hmanaged
        exact absurd hmanaged (by decide)
      · exact hid ▸ hmem
  obtain ⟨b, hb, rfl⟩ := mem_map.mp hid
  exact (hm.managed h old hF).ownerOf_backend hb

theorem Mirrors.backends_replaced (id : String) :
    (if managedBackend id = true ∧ id ∉ item.backends.map (·.id)
        ∧ (id ∈ stale.map (·.backendRefID)
          ∨ ∃ d ∈ repo.domainEndpoints.live? h, d.bindedServiceID = id) then none
      else (item.backends.find? fun b => b.id = id).or (rowAt (·.backends) F id))
      = if ownerOf id = some h then item.backends.find? fun b => b.id = id
        else rowAt (·.backends) F id := by
  refine replaced_eq (fun b hb hid => ⟨?_, hid ▸ hi.ownerOf_backend hb⟩) ?_ ?_
  · rintro ⟨-, hnot, -⟩
    exact hnot (mem_map.mpr ⟨b, hb, hid⟩)
  · rintro ⟨hmanaged, -, hdrop⟩
    exact hm.ownerOf_dropped hstale hmanaged hdrop
  · intro howner hnext b hrow
    obtain ⟨h', old, howner', hF, hb, rfl⟩ := of_rowAt hrow
    obtain rfl : h = h' := Option.some.inj (howner.symm.trans howner')
    exact ⟨(hm.managed h old hF).managedBackend_id hb, hnext,
      hm.backend_dropped hi hstale hF hb hnext⟩

end Replaced

theorem Mirrors.managed_update (hm : Mirrors repo F) (hi : Managed h item) {h' : String}
    {it : DomainMaterialized} (hit : Function.update F h (some item) h' = some it) :
    Managed h' it := by
  by_cases hh : h' = h
  · subst hh
    rw [Function.update_self] at hit
    exact Option.some.inj hit ▸ hi
  · rw [Function.update_of_ne hh] at hit
    exact hm.managed h' it hit

/-- What is left of the rows of a host are those of its new domain. -/
theorem Mirrors.replaceRows (hm : Mirrors repo F) (hi : Managed h item) {stale : List HTTPRoute}
    (hstale : ∀ r, r ∈ stale
      ↔ r ∈ repo.listHTTPRoutesByHostname h ∧ r.id ∉ item.routes.map (·.id)) :
    Mirrors (replaceRows item (repo.domainEndpoints.live? h) stale repo)
      (Function.update F h (some item)) := by
  refine ⟨fun _ _ => hm.managed_update hi, fun h' => ?_, fun id => ?_, fun id => ?_⟩
  · rw [replaceRows_domains, Table.live?_upsertResource, hm.domains]
    by_cases hh : h = h'
    · subst hh
      have hkey : Keyed.key item.domain = h := hi.hostname
      have hlive : Resource.deleted item.domain = false := hi.live
      rw [if_pos hkey, hlive, Function.update_self]
      rfl
    · have hkey : Keyed.key item.domain ≠ h' := fun hk => hh (hi.hostname.symm.trans hk)
      rw [if_neg hkey, Function.update_of_ne (Ne.symm hh)]
  · rw [replaceRows_routes fun r hr => (hi.routes r hr).1, rowAt_update, hm.routes, hi.last_route]
    exact hm.routes_replaced hi hstale id
  · rw [replaceRows_backends fun b hb => (hi.backends b hb).1, rowAt_update, hm.backends,
      hi.last_backend]
    exact hm.backends_replaced hi hstale id

def removeRows (domain : DomainEndpoint) (routes : List HTTPRoute) (repo : Repo) : Repo :=
  ((routes.foldl (Repo.dropRoute []) repo).dropBackend [] domain.bindedServiceID).retire
    DomainEndpoint domain.hostname

variable {routes : List HTTPRoute} {domain : DomainEndpoint}

theorem removeRows_domains (h : String) :
    (removeRows domain routes repo).domainEndpoints.live? h
      = if domain.hostname = h then none else repo.domainEndpoints.live? h := by
  have hdomains : (routes.foldl (Repo.dropRoute []) repo).domainEndpoints = repo.domainEndpoints :=
    (Repo.live?_foldl_dropRoute routes).1
  refine (Table.live?_retire _ _ _).trans ?_
  show (if _ then _ else Table.live? (Repo.dropBackend [] _ _).domainEndpoints h) = _
  rw [Repo.dropBackend_domainEndpoints, hdomains]

theorem removeRows_routes (id : String) :
    (removeRows domain routes repo).httpRoutes.live? id
      = if id ∈ routes.map (·.id) then none else repo.httpRoutes.live? id := by
  show Table.live? (Repo.dropBackend [] _ _).httpRoutes id = _
  rw [Repo.dropBackend_httpRoutes, (Repo.live?_foldl_dropRoute routes).2.1]

theorem removeRows_backends (id : String) :
    (removeRows domain routes repo).serviceBackendRefs.live? id
      = if managedBackend id = true
            ∧ (id ∈ routes.map (·.backendRefID) ∨ domain.bindedServiceID = id) then none
        else repo.serviceBackendRefs.live? id := by
  show Table.live? (Repo.dropBackend [] _ _).serviceBackendRefs id = _
  rw [Repo.live?_dropBackend, (Repo.live?_foldl_dropRoute routes).2.2, ← ite_or]
  refine if_congr ?_ rfl rfl
  simp only [not_mem_nil, not_false_eq_true, true_and]
  rw [← and_or_left, or_comm]

theorem managed_empty (h : String) : Managed h { domain := { hostname := h } } := by
  constructor <;> simp

theorem Mirrors.removeRows (hm : Mirrors repo F)
    (hdomain : repo.domainEndpoints.live? h = some domain) :
    Mirrors (removeRows domain (repo.listHTTPRoutesByHostname h) repo)
      (Function.update F h none) := by
  have hhost : domain.hostname = h := Table.key_of_live? hdomain
  -- the rows of the host are replaced by none
  have hstale : ∀ r : HTTPRoute, r ∈ repo.listHTTPRoutesByHostname h
      ↔ r ∈ repo.listHTTPRoutesByHostname h ∧ r.id ∉ ([] : List HTTPRoute).map (·.id) := by simp
  refine ⟨fun h' it hit => ?_, fun h' => ?_, fun id => ?_, fun id => ?_⟩
  · by_cases hh : h' = h
    · rw [hh, Function.update_self] at hit
      cases hit
    · rw [Function.update_of_ne hh] at hit
      exact hm.managed h' it hit
  · rw [removeRows_domains, hm.domains, hhost]
    by_cases hh : h = h'
    · rw [if_pos hh, ← hh, Function.update_self]
      rfl
    · rw [if_neg hh, Function.update_of_ne (Ne.symm hh)]
  · rw [removeRows_routes, hm.routes, rowAt_update]
    exact hm.routes_replaced (managed_empty h) hstale id
  · rw [removeRows_backends, hm.backends, rowAt_update]
    have hrows := hm.backends_replaced (managed_empty h) hstale id
    rw [hdomain] at hrows
    simpa using hrows

/-! ## Unchanged hosts -/

/-- What the comparison of a host's rows with its new domain says. -/
theorem of_managedDomainUnchanged {existing : Option DomainEndpoint}
    {currentRoutes : List HTTPRoute} {currentBackends : List ServiceBackendRef}
    (hun : managedDomainUnchanged existing currentRoutes currentBackends item = true)
    (hi : Managed h item) (hd : ∀ d ∈ existing, d.deleted = false)
    (hr : ∀ r ∈ currentRoutes, r.deleted = false)
    (hb : ∀ b ∈ currentBackends, b.deleted = false) :
    existing = some item.domain ∧ item.routes.Perm currentRoutes
      ∧ item.backends.Perm currentBackends := by
  unfold managedDomainUnchanged at hun
  cases existing with
  | none => cases hun
  | some d =>
    simp only [Bool.and_eq_true, decide_eq_true_eq, all_eq_true] at hun
    obtain ⟨⟨⟨⟨⟨⟨⟨hhost, hcert⟩, htype⟩, hbinded⟩, hlenr⟩, hlenb⟩, hroutes⟩, hbackends⟩ := hun
    refine ⟨?_, ?_, ?_⟩
    · have hdel := (hd d rfl).trans hi.live.symm
      obtain ⟨_, _, _, _, _⟩ := d
      obtain ⟨⟨_, _, _, _, _⟩, _, _⟩ := item
      simp_all
    · refine (subperm_of_subset hi.routeIDs.of_map ?_).perm_of_length_le hlenr.le
      intro r hmem
      have hcur := hroutes r hmem
      cases hlast : lastByID (·.id) currentRoutes r.id with
      | none => simp [hlast] at hcur
      | some c =>
        obtain ⟨hc, hid⟩ := mem_of_lastByID hlast
        have hdel := (hr c hc).trans (hi.routes r hmem).1.symm
        rw [hlast] at hcur
        simp only [Bool.and_eq_true, decide_eq_true_eq] at hcur
        obtain rfl : c = r := by
          obtain ⟨_, _, _, _, _, _⟩ := c
          obtain ⟨_, _, _, _, _, _⟩ := r
          simp_all
        exact hc
    · refine (subperm_of_subset hi.backendIDs.of_map ?_).perm_of_length_le hlenb.le
      intro b hmem
      have hcur := hbackends b hmem
      cases hlast : lastByID (·.id) currentBackends b.id with
      | none => simp [hlast] at hcur
      | some c =>
        obtain ⟨hc, hid⟩ := mem_of_lastByID hlast
        have hdel := (hb c hc).trans (hi.backends b hmem).1.symm
        rw [hlast] at hcur
        simp only [Bool.and_eq_true, decide_eq_true_eq] at hcur
        obtain rfl : c = b := by
          obtain ⟨_, _, _, _, _, _, _⟩ := c
          obtain ⟨_, _, _, _, _, _, _⟩ := b
          simp_all
        exact hc

theorem find?_congr {ρ : Type} [Keyed ρ String] {rows rows' : List ρ}
    (hnodup : (rows.map Keyed.key).Nodup) (hnodup' : (rows'.map Keyed.key).Nodup)
    (hmem : ∀ r, r ∈ rows ↔ r ∈ rows') (id : String) :
    (rows.find? fun r => Keyed.key r = id) = rows'.find? fun r => Keyed.key r = id := by
  ext r
  have hfind := Table.find?_eq_some_iff (t := (⟨rows, hnodup⟩ : Table ρ)) (k := id) (r := r)
  have hfind' := Table.find?_eq_some_iff (t := (⟨rows', hnodup'⟩ : Table ρ)) (k := id) (r := r)
  exact hfind.trans ((and_congr_left' (hmem r)).trans hfind'.symm)

/-- The same rows, in whatever order. -/
structure SameRows (item item' : DomainMaterialized) : Prop where
  domain : item.domain = item'.domain
  routes : ∀ r, r ∈ item.routes ↔ r ∈ item'.routes
  backends : ∀ b, b ∈ item.backends ↔ b ∈ item'.backends

theorem SameRows.refl (item : DomainMaterialized) : SameRows item item :=
  ⟨rfl, fun _ => Iff.rfl, fun _ => Iff.rfl⟩

theorem SameRows.symm {item item' : DomainMaterialized} (hs : SameRows item item') :
    SameRows item' item :=
  ⟨hs.domain.symm, fun r => (hs.routes r).symm, fun b => (hs.backends b).symm⟩

theorem sameRows_symm {x y : Option DomainMaterialized} (hs : Option.Rel SameRows x y) :
    Option.Rel SameRows y x := by
  cases hs with
  | none => exact .none
  | some hs => exact .some hs.symm

/-! ### Domains collected one contribution at a time -/

/-- A step puts its own domain in place and its rows behind those before. -/
def Collects {C : Type} (add : Option DomainMaterialized → C → Option DomainMaterialized)
    (domain : C → DomainEndpoint) (rows : C → List (ServiceBackendRef × HTTPRoute)) : Prop :=
  ∀ item c, add item c = some
    { domain := domain c
      backends := (item.map (·.backends)).getD [] ++ (rows c).map (·.1)
      routes := (item.map (·.routes)).getD [] ++ (rows c).map (·.2) }

section Collects

variable {C : Type} {add add' : Option DomainMaterialized → C → Option DomainMaterialized}
  {domain domain' : C → DomainEndpoint} {rows rows' : C → List (ServiceBackendRef × HTTPRoute)}
  {cs cs' : List C}

theorem Collects.eq_none_iff (hadd : Collects add domain rows) :
    cs.foldl add none = none ↔ cs = [] := by
  cases cs using List.reverseRecOn with
  | nil => exact ⟨fun _ => rfl, fun _ => rfl⟩
  | append_singleton cs c => simp [foldl_append, hadd _ c]

theorem Collects.of_eq_some (hadd : Collects add domain rows)
    (hitem : cs.foldl add none = some item) :
    (∃ c, cs.getLast? = some c ∧ item.domain = domain c)
      ∧ item.backends = (cs.flatMap rows).map (·.1)
      ∧ item.routes = (cs.flatMap rows).map (·.2) := by
  have hrows : ∀ cs : List C,
      ((cs.foldl add none).map (·.backends)).getD [] = (cs.flatMap rows).map (·.1)
        ∧ ((cs.foldl add none).map (·.routes)).getD [] = (cs.flatMap rows).map (·.2) := by
    intro cs
    induction cs using List.reverseRecOn with
    | nil => exact ⟨rfl, rfl⟩
    | append_singleton cs c ih =>
      rw [foldl_append, foldl_cons, foldl_nil, hadd, flatMap_append, flatMap_singleton,
        map_append, map_append, ← ih.1, ← ih.2]
      exact ⟨rfl, rfl⟩
  obtain ⟨hbackends, hroutes⟩ := hrows cs
  rw [hitem] at hbackends hroutes
  refine ⟨?_, hbackends, hroutes⟩
  cases cs using List.reverseRecOn with
  | nil => cases hitem
  | append_singleton cs c =>
    rw [foldl_append, foldl_cons, foldl_nil, hadd] at hitem
    exact ⟨c, List.getLast?_concat, by rw [← Option.some.inj hitem]⟩

/-- The same contributions in two orders give something or nothing alike. -/
theorem Collects.sameRows (hadd : Collects add domain rows) (hadd' : Collects add' domain' rows')
    (hperm : cs.Perm cs') {f : DomainMaterialized → DomainMaterialized}
    (hsame : ∀ item item', cs.foldl add none = some item → cs'.foldl add' none = some item' →
      SameRows (f item) (f item')) :
    Option.Rel SameRows ((cs.foldl add none).map f) ((cs'.foldl add' none).map f) := by
  cases hitem : cs.foldl add none with
  | none =>
    rw [hadd.eq_none_iff.mp hitem] at hperm
    rw [hadd'.eq_none_iff.mpr hperm.nil_eq.symm]
    exact .none
  | some item =>
    cases hitem' : cs'.foldl add' none with
    | none =>
      rw [hadd'.eq_none_iff.mp hitem'] at hperm
      rw [hperm.eq_nil] at hitem
      cases hitem
    | some item' => exact .some (hsame item item' hitem hitem')

end Collects

theorem Mirrors.of_sameRows {F' : Domains} (hm : Mirrors repo F)
    (hsame : ∀ h, Option.Rel SameRows (F h) (F' h))
    (hF' : ∀ h item, F' h = some item → Managed h item) : Mirrors repo F' := by
  have hrow : ∀ {ρ : Type} [Keyed ρ String] (rowsOf : DomainMaterialized → List ρ),
      (∀ h item, Managed h item → ((rowsOf item).map Keyed.key).Nodup) →
      (∀ item item', SameRows item item' → ∀ r, r ∈ rowsOf item ↔ r ∈ rowsOf item') →
      ∀ id, rowAt rowsOf F id = rowAt rowsOf F' id := by
    intro ρ _ rowsOf hnodup hmem id
    rw [rowAt, rowAt]
    cases ownerOf id with
    | none => rfl
    | some h =>
      have hrel := hsame h
      have hold := hm.managed h
      have hnew := hF' h
      rw [Option.bind_some, Option.bind_some]
      generalize F h = x, F' h = y at hrel hold hnew ⊢
      cases hrel with
      | none => rfl
      | @some item item' hitems =>
        exact find?_congr (hnodup h item (hold item rfl)) (hnodup h item' (hnew item' rfl))
          (hmem item item' hitems) id
  refine ⟨hF', fun h => ?_, fun id => ?_, fun id => ?_⟩
  · have hrel := hsame h
    rw [hm.domains]
    generalize F h = x, F' h = y at hrel ⊢
    cases hrel with
    | none => rfl
    | some hitems => exact congrArg some hitems.domain
  · rw [hm.routes]
    exact hrow (·.routes) (fun _ _ hi => hi.routeIDs) (fun _ _ hs => hs.routes) id
  · rw [hm.backends]
    exact hrow (·.backends) (fun _ _ hi => hi.backendIDs) (fun _ _ hs => hs.backends) id

theorem deleted_of_live? {ρ : Type} [Resource ρ] {t : Table ρ} {id : String} {r : ρ}
    (hlive : t.live? id = some r) : Resource.deleted r = false :=
  (Table.live?_eq_some_iff.mp hlive).2

/-- Where the comparison finds no change the tables have the domain already. -/
theorem Mirrors.unchanged (hm : Mirrors repo F) (hi : Managed h item)
    (hun : managedDomainUnchanged (repo.domainEndpoints.live? h)
      (repo.listHTTPRoutesByHostname h) (repo.listServiceBindingsByHostname h) item = true) :
    Mirrors repo (Function.update F h (some item)) := by
  obtain ⟨hdomain, hroutes, hbackends⟩ := of_managedDomainUnchanged hun hi
    (fun d hd => deleted_of_live? hd)
    (fun r hr => deleted_of_live? (Repo.mem_listHTTPRoutesByHostname.mp hr).1)
    (fun b hb => deleted_of_live? (Repo.mem_listServiceBindingsByHostname.mp hb).1)
  rw [hm.domains] at hdomain
  obtain ⟨old, hF, hdomain⟩ := Option.map_eq_some_iff.mp hdomain
  have hold := hm.managed h old hF
  -- a backend of the new domain is a live row of the host
  have hnew : ∀ b ∈ item.backends, b ∈ old.backends := by
    intro b hb
    obtain ⟨hlive, -⟩ := Repo.mem_listServiceBindingsByHostname.mp (hbackends.mem_iff.mp hb)
    rw [hm.backends] at hlive
    obtain ⟨h', item', howner, hF', hb', -⟩ := of_rowAt hlive
    obtain rfl : h = h' := Option.some.inj ((hi.ownerOf_backend hb).symm.trans howner)
    obtain rfl : old = item' := Option.some.inj (hF.symm.trans hF')
    exact hb'
  suffices hitems : SameRows old item by
    refine hm.of_sameRows (fun h' => ?_) (fun _ _ => hm.managed_update hi)
    by_cases hh : h' = h
    · rw [hh, hF, Function.update_self]
      exact .some hitems
    · rw [Function.update_of_ne hh]
      cases F h' with
      | none => exact .none
      | some it => exact .some (.refl it)
  refine ⟨hdomain, fun r => ?_, fun b => ⟨fun hb => ?_, hnew b⟩⟩
  · rw [hroutes.mem_iff, hm.mem_routes]
    constructor
    · exact fun hr => ⟨old, hF, hr⟩
    · rintro ⟨old', hF', hr⟩
      exact Option.some.inj (hF'.symm.trans hF) ▸ hr
  · obtain ⟨-, -, -, hused⟩ := hold.backends b hb
    rcases hused with hbinded | ⟨r, hr, href⟩
    · -- the bound backend is among the new ones by its id
      have hmem : b.id ∈ item.backends.map (·.id) := by
        rcases hi.binded with hempty | hmem
        · have hmanaged := hold.managedBackend_id hb
          rw [hbinded, hdomain, hempty] at hmanaged
          exact absurd hmanaged (by decide)
        · rw [hbinded, hdomain]
          exact hmem
      obtain ⟨b', hb', hid⟩ := mem_map.mp hmem
      rwa [inj_on_of_nodup_map hold.backendIDs hb (hnew b' hb') hid.symm]
    · rw [hbackends.mem_iff, Repo.mem_listServiceBindingsByHostname]
      exact ⟨hm.live_backend hF hb, r, hm.mem_routes.mpr ⟨old, hF, hr⟩, href⟩

structure Holds (repo : Repo) (next : GoMap String DomainMaterialized) : Prop where
  domains : ∀ d : DomainEndpoint, repo.domainEndpoints.live? d.hostname = some d
    ↔ ∃ h item, next.get? h = some item ∧ item.domain = d
  routes : ∀ r : HTTPRoute, repo.httpRoutes.live? r.id = some r
    ↔ ∃ h item, next.get? h = some item ∧ r ∈ item.routes
  backends : ∀ b : ServiceBackendRef, repo.serviceBackendRefs.live? b.id = some b
    ↔ ∃ h item, next.get? h = some item ∧ b ∈ item.backends

theorem Mirrors.holds {next : GoMap String DomainMaterialized} (hm : Mirrors repo F)
    (hnext : ∀ h, next.get? h = F h) : Holds repo next := by
  simp only [← funext hnext] at hm
  refine ⟨fun d => ?_, fun r => ?_, fun b => ?_⟩
  · rw [hm.domains]
    constructor
    · intro hd
      obtain ⟨item, hF, hdomain⟩ := Option.map_eq_some_iff.mp hd
      exact ⟨d.hostname, item, hF, hdomain⟩
    · rintro ⟨h, item, hF, rfl⟩
      rw [(hm.managed h item hF).hostname, hF]
      rfl
  · rw [hm.routes]
    constructor
    · intro hr
      obtain ⟨h, item, -, hF, hr, -⟩ := of_rowAt hr
      exact ⟨h, item, hF, hr⟩
    · rintro ⟨h, item, hF, hr⟩
      have hi := hm.managed h item hF
      exact rowAt_of_mem hF hi.routeIDs hr (hi.ownerOf_route hr)
  · constructor
    · rw [hm.backends]
      intro hb
      obtain ⟨h, item, -, hF, hb, -⟩ := of_rowAt hb
      exact ⟨h, item, hF, hb⟩
    · rintro ⟨h, item, hF, hb⟩
      exact hm.live_backend hF hb

theorem mirrors_empty : Mirrors Repo.empty fun _ => none := by
  refine ⟨fun _ _ hF => ?_, fun _ => rfl, fun id => ?_, fun id => ?_⟩
  · cases hF
  · rw [rowAt]
    cases ownerOf id <;> rfl
  · rw [rowAt]
    cases ownerOf id <;> rfl

end K8sBridge

end LunaEdge
