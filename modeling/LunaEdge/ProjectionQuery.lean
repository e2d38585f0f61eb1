import Mathlib.Data.Prod.Lex
import Mathlib.Data.String.Basic
import LunaEdge.Acme
import LunaEdge.Selection

/-!
# The answer of the projection query

The query joins four tables and a loop folds the joined rows. The answer
has a form of its own (`getDomainEntryProjectionByDomain_eq`): the live
endpoint of the host, with the first of its newest certificates, with the
bound backend at layer 4 and otherwise with the live routes in the order
of the query, each with its live backend. The newest certificates
multiply the rows; the loop takes every route once and the certificate
from the first row, and sorting by route keeps the rows of the first
certificate in front.

`projection_query` compares the answer with the tables.
-/

namespace LunaEdge

open List

namespace K8sBridge

/-! ## The order of the routes -/

/-- `priority desc, length(path) desc, id asc`. -/
def routeKey (priority : Int) (path id : String) : Lex (Intᵒᵈ × Lex (Natᵒᵈ × String)) :=
  toLex (.toDual priority, toLex (.toDual path.length, id))

theorem routeKey_le_iff {priority priority' : Int} {path path' id id' : String} :
    routeKey priority path id ≤ routeKey priority' path' id'
      ↔ priority' < priority ∨ priority = priority'
        ∧ (path'.length < path.length ∨ path.length = path'.length ∧ id ≤ id') := by
  rw [routeKey, routeKey, Prod.Lex.toLex_le_toLex, Prod.Lex.toLex_le_toLex]
  rfl

theorem routeOrder_iff {a b : HTTPRoute} :
    Repo.routeOrder a b = true
      ↔ routeKey a.priority a.path a.id ≤ routeKey b.priority b.path b.id := by
  rw [routeKey_le_iff]
  simp [Repo.routeOrder]

/-! ## The routes collected from the rows -/

def projectRow (row : DomainEntryProjectionRow) : Option HTTPRouteProjection :=
  row.route.map fun r =>
    { id := r.id
      path := r.path
      priority := r.priority
      backendRef := DomainEntryProjectionRow.backendRef row.routeBackend }

theorem collectRoutes_sublist (rows : List DomainEntryProjectionRow) (seen : List String) :
    (collectRoutes rows seen).Sublist (rows.filterMap projectRow) := by
  induction rows generalizing seen with
  | nil => exact List.Sublist.refl _
  | cons row rows ih =>
    unfold collectRoutes
    cases hr : row.route with
    | none =>
      rw [filterMap_cons_none (by rw [projectRow, hr]; rfl)]
      exact ih seen
    | some r =>
      rw [filterMap_cons_some (by rw [projectRow, hr]; rfl)]
      dsimp only
      split
      · exact (ih seen).cons _
      · exact (ih _).cons_cons _

variable {x : HTTPRouteProjection} {rows : List DomainEntryProjectionRow} {h : String}
  {r : HTTPRoute} {repo : Repo} {de : DomainEndpoint}

theorem id_of_mem_collectRoutes {seen : List String} (hx : x ∈ collectRoutes rows seen) :
    x.id ≠ "" := by
  induction rows generalizing seen with
  | nil => cases hx
  | cons row rows ih =>
    unfold collectRoutes at hx
    cases hr : row.route with
    | none =>
      rw [hr] at hx
      exact ih hx
    | some r =>
      rw [hr] at hx
      dsimp only at hx
      split at hx
      · exact ih hx
      · rename_i hnew
        rcases mem_cons.mp hx with rfl | hx
        · exact fun hid => hnew (Or.inl hid)
        · exact ih hx

theorem id_mem_collectRoutes {seen : List String} (hx : x ∈ rows.filterMap projectRow)
    (hid : x.id ≠ "") (hseen : x.id ∉ seen) : ∃ y ∈ collectRoutes rows seen, y.id = x.id := by
  induction rows generalizing seen with
  | nil => cases hx
  | cons row rows ih =>
    unfold collectRoutes
    cases hr : row.route with
    | none =>
      rw [filterMap_cons_none (by rw [projectRow, hr]; rfl)] at hx
      exact ih hx hseen
    | some r =>
      rw [filterMap_cons_some (by rw [projectRow, hr]; rfl), mem_cons] at hx
      dsimp only
      split
      · rename_i hskip
        refine ih (hx.resolve_left ?_) hseen
        rintro rfl
        exact hskip.elim hid hseen
      · by_cases heq : r.id = x.id
        · exact ⟨_, mem_cons_self, heq⟩
        · have hx' := hx.resolve_left fun h => heq (by rw [h])
          obtain ⟨y, hy, hyid⟩ := ih hx' fun hmem =>
            (mem_cons.mp hmem).elim (fun h => heq h.symm) hseen
          exact ⟨y, mem_cons_of_mem _ hy, hyid⟩

theorem mem_collectRoutes
    (hinj : ∀ y ∈ rows.filterMap projectRow, ∀ z ∈ rows.filterMap projectRow, y.id = z.id → y = z) :
    x ∈ collectRoutes rows [] ↔ x ∈ rows.filterMap projectRow ∧ x.id ≠ "" := by
  constructor
  · intro hx
    exact ⟨(collectRoutes_sublist rows []).subset hx, id_of_mem_collectRoutes hx⟩
  · rintro ⟨hx, hid⟩
    obtain ⟨y, hy, heq⟩ := id_mem_collectRoutes hx hid not_mem_nil
    rwa [hinj y ((collectRoutes_sublist rows []).subset hy) x hx heq] at hy

/-! ## The rows of a domain -/

theorem some_mem_leftJoin {β : Type} {l : List β} {x : β} : some x ∈ leftJoin l ↔ x ∈ l := by
  cases l <;> simp [leftJoin]

theorem none_mem_leftJoin {β : Type} {l : List β} : none ∈ leftJoin l ↔ l = [] := by
  cases l <;> simp [leftJoin]

def hostRoutes (repo : Repo) (h : String) : List HTTPRoute :=
  repo.httpRoutes.select fun hr => hr.hostname == h && !hr.deleted

theorem mem_hostRoutes :
    r ∈ hostRoutes repo h ↔ repo.httpRoutes.live? r.id = some r ∧ r.hostname = h := by
  rw [Table.live?_eq_some_iff, Table.find?_eq_some_iff]
  simp only [hostRoutes, Table.select, mem_filter, Bool.and_eq_true, beq_iff_eq, Bool.not_eq_true']
  constructor
  · rintro ⟨hmem, hhost, hdel⟩
    exact ⟨⟨⟨hmem, rfl⟩, hdel⟩, hhost⟩
  · rintro ⟨⟨⟨hmem, -⟩, hdel⟩, hhost⟩
    exact ⟨hmem, hhost, hdel⟩

theorem leftJoin_toList {β : Type} (o : Option β) : leftJoin o.toList = [o] := by
  cases o <;> rfl

theorem leftJoin_backends (repo : Repo) (id : String) :
    leftJoin (repo.serviceBackendRefs.select fun b => b.id == id && !b.deleted)
      = [repo.serviceBackendRefs.live? id] := by
  rw [← leftJoin_toList, ← Table.select_live]
  exact congrArg (fun p => leftJoin (repo.serviceBackendRefs.select p))
    (funext fun b => Bool.and_comm _ _)

def projectedRoute (repo : Repo) (r : HTTPRoute) : HTTPRouteProjection where
  id := r.id
  path := r.path
  priority := r.priority
  backendRef := DomainEntryProjectionRow.backendRef (repo.serviceBackendRefs.live? r.backendRefID)

def joinedRow (repo : Repo) (de : DomainEndpoint) (cr : Option CertificateRevision)
    (hr : Option HTTPRoute) : DomainEntryProjectionRow where
  domain := de
  cert := cr
  route := hr
  routeBackend := hr.bind fun r => repo.serviceBackendRefs.live? r.backendRefID
  bindedBackend := repo.serviceBackendRefs.live? de.bindedServiceID

theorem joinDomain_eq (repo : Repo) (de : DomainEndpoint) :
    repo.joinDomain de = (leftJoin (repo.latestCertificates de.hostname)).flatMap fun cr =>
      (leftJoin (hostRoutes repo de.hostname)).map (joinedRow repo de cr) := by
  have hroute : ∀ hr : Option HTTPRoute, leftJoin (repo.serviceBackendRefs.select fun sbr =>
      hr.any (·.backendRefID == sbr.id) && !sbr.deleted)
      = [hr.bind fun r => repo.serviceBackendRefs.live? r.backendRefID] := by
    intro hr
    cases hr with
    | none => simp [Table.select, leftJoin]
    | some r =>
      rw [Option.bind_some, ← leftJoin_backends]
      refine congrArg (fun p => leftJoin (repo.serviceBackendRefs.select p)) (funext fun sbr => ?_)
      rw [Option.any_some, BEq.comm]
  simp only [Repo.joinDomain, leftJoin_backends, hroute, flatMap_cons, flatMap_nil, map_cons,
    map_nil, append_nil]
  refine congrArg (fun f => (leftJoin (repo.latestCertificates de.hostname)).flatMap f) ?_
  funext cr
  exact flatMap_pure_eq_map _ _

theorem mem_joinDomain {row : DomainEntryProjectionRow} :
    row ∈ repo.joinDomain de
      ↔ ∃ cr ∈ leftJoin (repo.latestCertificates de.hostname),
        ∃ hr ∈ leftJoin (hostRoutes repo de.hostname), joinedRow repo de cr hr = row := by
  simp only [joinDomain_eq, mem_flatMap, mem_map]

theorem mem_joinDomain_routes :
    x ∈ (repo.joinDomain de).filterMap projectRow
      ↔ ∃ r ∈ hostRoutes repo de.hostname, projectedRoute repo r = x := by
  simp only [mem_filterMap, mem_joinDomain]
  constructor
  · rintro ⟨row, ⟨cr, -, hr, hroute, rfl⟩, hx⟩
    obtain ⟨r, rfl, rfl⟩ := Option.map_eq_some_iff.mp hx
    exact ⟨r, some_mem_leftJoin.mp hroute, rfl⟩
  · rintro ⟨r, hr, rfl⟩
    obtain ⟨cr, hcr⟩ := exists_mem_of_ne_nil _
      (leftJoin_ne_nil (repo.latestCertificates de.hostname))
    exact ⟨joinedRow repo de cr (some r), ⟨cr, hcr, some r, some_mem_leftJoin.mpr hr, rfl⟩, rfl⟩

variable (hlive : repo.domainEndpoints.live? h = some de)

include hlive in
theorem projectionRows_eq :
    repo.projectionRows h
      = (repo.joinDomain de).insertionSort fun a b => Repo.rowOrder a b = true := by
  have hselect : (repo.domainEndpoints.select fun de => !de.deleted && de.hostname == h) = [de] := by
    have := repo.domainEndpoints.select_live h
    rw [hlive] at this
    exact this
  rw [Repo.projectionRows, hselect, flatMap_cons, flatMap_nil, append_nil]

include hlive in
theorem mem_projectionRows {row : DomainEntryProjectionRow} :
    row ∈ repo.projectionRows h ↔ row ∈ repo.joinDomain de := by
  rw [projectionRows_eq hlive, mem_insertionSort]

include hlive in
theorem mem_projectionRows_routes :
    x ∈ (repo.projectionRows h).filterMap projectRow
      ↔ ∃ r ∈ hostRoutes repo h, projectedRoute repo r = x := by
  have hhost : de.hostname = h := Table.key_of_live? hlive
  have hjoin : x ∈ (repo.joinDomain de).filterMap projectRow
      ↔ ∃ r ∈ hostRoutes repo de.hostname, projectedRoute repo r = x := mem_joinDomain_routes
  rw [hhost] at hjoin
  rw [← hjoin]
  simp only [mem_filterMap, mem_projectionRows hlive]

def rowKey (row : DomainEntryProjectionRow) : Lex (Intᵒᵈ × Lex (Natᵒᵈ × String)) :=
  (row.route.map fun r => routeKey r.priority r.path r.id).getD (routeKey 0 "" "")

/-- Either every row of a domain has a route or none has. -/
theorem rowOrder_iff {a b : DomainEntryProjectionRow} (ha : a ∈ repo.joinDomain de)
    (hb : b ∈ repo.joinDomain de) : Repo.rowOrder a b = true ↔ rowKey a ≤ rowKey b := by
  obtain ⟨-, -, hr, hroute, rfl⟩ := mem_joinDomain.mp ha
  obtain ⟨-, -, hs, hsroute, rfl⟩ := mem_joinDomain.mp hb
  cases hr with
  | none =>
    cases hs with
    | none => simp [Repo.rowOrder, rowKey, joinedRow]
    | some s =>
      rw [none_mem_leftJoin.mp hroute] at hsroute
      simp [leftJoin] at hsroute
  | some r =>
    cases hs with
    | none =>
      rw [none_mem_leftJoin.mp hsroute] at hroute
      simp [leftJoin] at hroute
    | some s => exact routeOrder_iff

include hlive in
theorem pairwise_projectionRows :
    ((repo.projectionRows h).filterMap projectRow).Pairwise fun x y =>
      routeKey x.priority x.path x.id ≤ routeKey y.priority y.path y.id := by
  have hsorted := pairwise_insertionSort (· ≤ ·) ((repo.joinDomain de).map rowKey)
  rw [← map_insertionSort (fun a b => Repo.rowOrder a b = true) (· ≤ ·) rowKey _
      fun a ha b hb => rowOrder_iff ha hb, ← projectionRows_eq hlive, pairwise_map] at hsorted
  refine pairwise_filterMap.mpr (hsorted.imp fun {a b} hle x hx y hy => ?_)
  obtain ⟨r, hr, rfl⟩ := Option.map_eq_some_iff.mp hx
  obtain ⟨s, hs, rfl⟩ := Option.map_eq_some_iff.mp hy
  simpa only [rowKey, hr, hs, Option.map_some, Option.getD_some] using hle

theorem projectedRoute_inj {s : HTTPRoute} (hr : r ∈ hostRoutes repo h) (hs : s ∈ hostRoutes repo h)
    (hid : r.id = s.id) : r = s := by
  have hr' := (mem_hostRoutes.mp hr).1
  rw [hid, (mem_hostRoutes.mp hs).1] at hr'
  exact (Option.some.inj hr').symm

/-! ## The answer -/

/-- The routes that are read, in the order of the query. A route without
an id is not. -/
def sortedRoutes (repo : Repo) (h : String) : List HTTPRoute :=
  ((hostRoutes repo h).filter fun r => r.id ≠ "").insertionSort
    fun a b => Repo.routeOrder a b = true

theorem mem_sortedRoutes : r ∈ sortedRoutes repo h ↔ r ∈ hostRoutes repo h ∧ r.id ≠ "" := by
  rw [sortedRoutes, mem_insertionSort, mem_filter, decide_eq_true_eq]

theorem id_of_routeKey_eq {priority priority' : Int} {path path' id id' : String}
    (h : routeKey priority path id = routeKey priority' path' id') : id = id' := by
  have h₁ := congrArg Prod.snd (toLex_inj.mp h)
  exact congrArg Prod.snd (toLex_inj.mp h₁)

theorem pairwise_sortedRoutes (repo : Repo) (h : String) :
    (sortedRoutes repo h).Pairwise fun a b =>
      routeKey a.priority a.path a.id < routeKey b.priority b.path b.id := by
  let routes := (hostRoutes repo h).filter fun r => r.id ≠ ""
  have hsorted := pairwise_insertionSort (· ≤ ·)
    (routes.map fun r => routeKey r.priority r.path r.id)
  rw [← map_insertionSort (fun a b => Repo.routeOrder a b = true) (· ≤ ·) _ _
      fun a _ b _ => routeOrder_iff, pairwise_map] at hsorted
  have hnodup : (sortedRoutes repo h).Nodup :=
    (perm_insertionSort _ _).nodup_iff.mpr
      (((List.Nodup.of_map _ repo.httpRoutes.nodup).filter _).filter _)
  refine (hsorted.and hnodup).imp_of_mem fun {a b} ha hb hab => lt_of_le_of_ne hab.1 fun heq => ?_
  exact hab.2 (projectedRoute_inj (mem_sortedRoutes.mp ha).1 (mem_sortedRoutes.mp hb).1
    (id_of_routeKey_eq heq))

theorem pairwise_ids_collectRoutes (rows : List DomainEntryProjectionRow) (seen : List String) :
    ((collectRoutes rows seen).Pairwise fun x y => x.id ≠ y.id)
      ∧ ∀ x ∈ collectRoutes rows seen, x.id ∉ seen := by
  induction rows generalizing seen with
  | nil => exact ⟨List.Pairwise.nil, fun _ hx => absurd hx not_mem_nil⟩
  | cons row rows ih =>
    unfold collectRoutes
    cases row.route with
    | none => exact ih seen
    | some r =>
      dsimp only
      split
      · exact ih seen
      · rename_i hnew
        obtain ⟨hdistinct, hunseen⟩ := ih (r.id :: seen)
        refine ⟨pairwise_cons.mpr ⟨fun y hy heq => ?_, hdistinct⟩, fun x hx hseen => ?_⟩
        · exact hunseen y hy (heq ▸ mem_cons_self)
        · rcases mem_cons.mp hx with rfl | hx
          · exact hnew (Or.inr hseen)
          · exact hunseen x hx (mem_cons_of_mem _ hseen)

include hlive in
theorem collectRoutes_projectionRows :
    collectRoutes (repo.projectionRows h) [] = (sortedRoutes repo h).map (projectedRoute repo) := by
  have hrows := fun x => mem_projectionRows_routes hlive (x := x)
  let less (x y : HTTPRouteProjection) : Prop :=
    routeKey x.priority x.path x.id < routeKey y.priority y.path y.id
  have : Std.Irrefl less := ⟨fun x => lt_irrefl _⟩
  have hcollected : (collectRoutes (repo.projectionRows h) []).Pairwise less := by
    have hle := (pairwise_projectionRows hlive).sublist (collectRoutes_sublist _ [])
    refine (hle.and (pairwise_ids_collectRoutes _ []).1).imp fun {x y} hxy => ?_
    exact lt_of_le_of_ne hxy.1 fun heq => hxy.2 (id_of_routeKey_eq heq)
  have hsorted : ((sortedRoutes repo h).map (projectedRoute repo)).Pairwise less :=
    pairwise_map.mpr (pairwise_sortedRoutes repo h)
  refine hcollected.eq_of_mem_iff hsorted fun x => ?_
  rw [mem_collectRoutes, hrows]
  · simp only [mem_map, mem_sortedRoutes]
    constructor
    · rintro ⟨⟨r, hr, rfl⟩, hid⟩
      exact ⟨r, ⟨hr, hid⟩, rfl⟩
    · rintro ⟨r, ⟨hr, hid⟩, rfl⟩
      exact ⟨⟨r, hr, rfl⟩, hid⟩
  · intro y hy z hz heq
    obtain ⟨r, hr, rfl⟩ := (hrows y).mp hy
    obtain ⟨s, hs, rfl⟩ := (hrows z).mp hz
    rw [projectedRoute_inj hr hs heq]

def certRows (repo : Repo) (de : DomainEndpoint) (cr : Option CertificateRevision) :
    List DomainEntryProjectionRow :=
  (leftJoin (hostRoutes repo de.hostname)).map (joinedRow repo de cr)

/-- The rows of the first certificate come before all others. -/
theorem exists_joinDomain_append (repo : Repo) (de : DomainEndpoint) :
    ∃ others : List (Option CertificateRevision), repo.joinDomain de
      = certRows repo de (repo.latestCertificates de.hostname).head?
        ++ others.flatMap (certRows repo de) := by
  have hrows : repo.joinDomain de
      = (leftJoin (repo.latestCertificates de.hostname)).flatMap (certRows repo de) :=
    joinDomain_eq repo de
  rw [hrows]
  cases repo.latestCertificates de.hostname with
  | nil => exact ⟨[], by simp [leftJoin]⟩
  | cons cr crs => exact ⟨crs.map some, by simp [leftJoin]⟩

include hlive in
theorem cert_of_first {first : DomainEntryProjectionRow} {rest : List DomainEntryProjectionRow}
    (hrows : repo.projectionRows h = first :: rest) :
    first.cert = (repo.latestCertificates h).head? := by
  have hhost : de.hostname = h := Table.key_of_live? hlive
  obtain ⟨others, hjoin⟩ := exists_joinDomain_append repo de
  rw [hhost] at hjoin
  have horder : ∀ a ∈ repo.joinDomain de, ∀ b ∈ repo.joinDomain de,
      Repo.rowOrder a b = true ↔ rowKey a ≤ rowKey b := fun a ha b hb => rowOrder_iff ha hb
  have hne : certRows repo de (repo.latestCertificates h).head? ≠ [] := by
    simpa [certRows] using leftJoin_ne_nil (hostRoutes repo de.hostname)
  -- the same routes are joined with every certificate
  have hfront : ∀ b ∈ others.flatMap (certRows repo de),
      ∃ a ∈ certRows repo de (repo.latestCertificates h).head?, rowKey a ≤ rowKey b := by
    intro b hb
    obtain ⟨cr, -, hb⟩ := mem_flatMap.mp hb
    obtain ⟨hr, hmem, rfl⟩ := mem_map.mp hb
    exact ⟨joinedRow repo de (repo.latestCertificates h).head? hr, mem_map_of_mem hmem, le_refl _⟩
  rw [hjoin] at horder
  obtain ⟨a, ha, hhead⟩ := Selection.head?_insertionSort_append horder hne hfront
  rw [← hjoin, ← projectionRows_eq hlive, hrows, List.head?_cons, Option.some_inj] at hhead
  obtain ⟨hr, -, rfl⟩ := mem_map.mp ha
  rw [hhead]
  rfl

def projectionOf (repo : Repo) (de : DomainEndpoint) : DomainEntryProjection where
  hostname := de.hostname
  needCert := de.needCert
  backendType := de.backendType
  cert := (joinedRow repo de (repo.latestCertificates de.hostname).head? none).certificate
  httpRoutes :=
    if de.backendType.isL4 then []
    else (sortedRoutes repo de.hostname).map (projectedRoute repo)
  bindedBackendRef :=
    if de.backendType.isL4 then
      DomainEntryProjectionRow.backendRef (repo.serviceBackendRefs.live? de.bindedServiceID)
    else none

theorem getDomainEntryProjectionByDomain_eq (repo : Repo) (h : String) :
    repo.getDomainEntryProjectionByDomain h
      = orNotFound ((repo.domainEndpoints.live? h).map (projectionOf repo)) := by
  cases hlive : repo.domainEndpoints.live? h with
  | none => exact Repo.getDomainEntryProjectionByDomain_eq_notFound.mpr ⟨rfl, hlive⟩
  | some de =>
    have hhost : de.hostname = h := Table.key_of_live? hlive
    have hcollected := collectRoutes_projectionRows hlive
    rw [Repo.getDomainEntryProjectionByDomain]
    cases hrows : repo.projectionRows h with
    | nil =>
      rw [Repo.projectionRows_eq_nil_iff.mp hrows] at hlive
      cases hlive
    | cons first rest =>
      have hcert := cert_of_first hlive hrows
      have hmem : first ∈ repo.projectionRows h := hrows ▸ mem_cons_self
      obtain ⟨cr, -, hr, -, rfl⟩ := mem_joinDomain.mp ((mem_projectionRows hlive).mp hmem)
      obtain rfl : cr = (repo.latestCertificates h).head? := hcert
      rw [hrows] at hcollected
      dsimp only
      rw [hcollected]
      subst hhost
      show (if de.backendType.isL4 = true then _ else _) = Except.ok (projectionOf repo de)
      rw [projectionOf]
      split <;> rfl

/-- An edge reads the routes of the host with their backends, in the order
of the query. -/
theorem projection_of_live (hlive : repo.domainEndpoints.live? h = some de)
    (hl7 : de.backendType.isL4 = false) :
    ∃ entry, repo.getDomainEntryProjectionByDomain h = .ok entry
      ∧ (entry.httpRoutes.Pairwise fun x y =>
        routeKey x.priority x.path x.id ≤ routeKey y.priority y.path y.id)
      ∧ ∀ x, x ∈ entry.httpRoutes
        ↔ ∃ r ∈ hostRoutes repo h, r.id ≠ "" ∧ projectedRoute repo r = x := by
  have hhost : de.hostname = h := Table.key_of_live? hlive
  have hread := getDomainEntryProjectionByDomain_eq repo h
  have hroutes : (projectionOf repo de).httpRoutes
      = (sortedRoutes repo h).map (projectedRoute repo) := by
    rw [projectionOf, hl7, if_neg Bool.false_ne_true, hhost]
  rw [hlive] at hread
  refine ⟨projectionOf repo de, hread, ?_, fun x => ?_⟩
  · rw [hroutes]
    exact pairwise_map.mpr ((pairwise_sortedRoutes repo h).imp le_of_lt)
  · rw [hroutes]
    simp only [mem_map, mem_sortedRoutes, and_assoc]

/-! ## The answer and the tables -/

/-- A backend as the query reads it: an empty type reads as `SVC`. -/
def readBackend (b : ServiceBackendRef) : ServiceBackendRef :=
  { b with type := derefServiceBackendType b.type }

structure NamedRows (repo : Repo) : Prop where
  routes : ∀ r ∈ repo.httpRoutes.rows, r.id ≠ ""
  backends : ∀ b ∈ repo.serviceBackendRefs.rows, b.id ≠ ""
  certificates : ∀ c ∈ repo.certificateRevisions.rows, c.id ≠ ""

theorem NamedRows.backendRef (hnamed : NamedRows repo) (id : String) :
    DomainEntryProjectionRow.backendRef (repo.serviceBackendRefs.live? id)
      = (repo.serviceBackendRefs.live? id).map readBackend := by
  cases hlive : repo.serviceBackendRefs.live? id with
  | none => rfl
  | some b =>
    obtain ⟨hfind, hdel⟩ := Table.live?_eq_some_iff.mp hlive
    have hid : b.id ≠ "" := hnamed.backends b (Table.mem_of_find? hfind)
    have hdel : b.deleted = false := hdel
    rw [DomainEntryProjectionRow.backendRef, if_neg hid, Option.map_some, readBackend, hdel]

def hostCertificates (repo : Repo) (h : String) : List CertificateRevision :=
  repo.certificateRevisions.select fun cr => !cr.deleted && cr.hostname == h

theorem revision_of_latest {c : CertificateRevision}
    (hc : (repo.latestCertificates h).head? = some c) :
    c ∈ hostCertificates repo h ∧ ∀ d ∈ hostCertificates repo h, d.revision ≤ c.revision := by
  obtain ⟨hmem, hmax⟩ := mem_filter.mp (mem_of_head? hc)
  refine ⟨hmem, fun d hd => ?_⟩
  obtain ⟨-, hle⟩ := List.max?_eq_some_iff.mp (beq_iff_eq.mp hmax).symm
  exact hle d.revision (mem_map_of_mem hd)

theorem latestCertificates_eq_nil_iff :
    repo.latestCertificates h = [] ↔ hostCertificates repo h = [] := by
  constructor
  · intro hnil
    by_contra hne
    have hrevisions : (hostCertificates repo h).map (·.revision) ≠ [] := by simpa using hne
    obtain ⟨m, hm⟩ := Option.isSome_iff_exists.mp (isSome_max?_of_ne_nil hrevisions)
    obtain ⟨c, hc, hrev⟩ := mem_map.mp (List.max?_mem hm)
    have hlatest : c ∈ repo.latestCertificates h :=
      mem_filter.mpr ⟨hc, beq_iff_eq.mpr (by rw [hrev]; exact hm.symm)⟩
    rw [hnil] at hlatest
    cases hlatest
  · intro hnil
    refine eq_nil_iff_forall_not_mem.mpr fun c hc => ?_
    have hmem := (mem_filter.mp hc).1
    rw [show (repo.certificateRevisions.select fun cr => !cr.deleted && cr.hostname == h) = []
      from hnil] at hmem
    cases hmem

/-- `revision desc, id asc`. -/
def revisionKey (c : CertificateRevision) : Lex (Natᵒᵈ × String) := toLex (.toDual c.revision, c.id)

theorem revisionOrder_iff {a b : CertificateRevision} :
    Repo.revisionOrder a b ↔ revisionKey a ≤ revisionKey b := by
  rw [revisionKey, revisionKey, Prod.Lex.toLex_le_toLex]
  rfl

theorem revision_of_getLatest {c : CertificateRevision}
    (hc : repo.getLatestCertificateRevision h = .ok c) :
    c ∈ hostCertificates repo h ∧ ∀ d ∈ hostCertificates repo h, d.revision ≤ c.revision := by
  have horder : ∀ a ∈ hostCertificates repo h, ∀ b ∈ hostCertificates repo h,
      Repo.revisionOrder a b ↔ revisionKey a ≤ revisionKey b := fun _ _ _ _ => revisionOrder_iff
  obtain ⟨hmem, hleast⟩ := Selection.least_of_head?_insertionSort horder
    (orNotFound_eq_ok_iff.mp hc)
  refine ⟨hmem, fun d hd => ?_⟩
  rcases Prod.Lex.toLex_le_toLex.mp (hleast d hd) with hlt | ⟨heq, -⟩
  · exact le_of_lt hlt
  · exact le_of_eq heq.symm

theorem revision_projectionOf (hnamed : NamedRows repo) (de : DomainEndpoint) :
    (projectionOf repo de).cert.map (·.revision)
      = (repo.getLatestCertificateRevision de.hostname).toOption.map (·.revision) := by
  cases hlatest : repo.getLatestCertificateRevision de.hostname with
  | error e =>
    obtain ⟨hhead, -⟩ := orNotFound_eq_error_iff.mp hlatest
    have hnone : hostCertificates repo de.hostname = [] :=
      perm_nil.mp (List.head?_eq_none_iff.mp hhead ▸
        (perm_insertionSort Repo.revisionOrder (hostCertificates repo de.hostname)).symm)
    rw [projectionOf, latestCertificates_eq_nil_iff.mpr hnone]
    rfl
  | ok latest =>
    obtain ⟨hmem, hgreatest⟩ := revision_of_getLatest hlatest
    cases hhead : (repo.latestCertificates de.hostname).head? with
    | none =>
      rw [List.head?_eq_none_iff, latestCertificates_eq_nil_iff] at hhead
      rw [hhead] at hmem
      cases hmem
    | some c =>
      obtain ⟨hc, hcgreatest⟩ := revision_of_latest hhead
      have hid : c.id ≠ "" := hnamed.certificates c (mem_filter.mp hc).1
      have hrevision : c.revision = latest.revision :=
        Nat.le_antisymm (hgreatest c hc) (hcgreatest latest hmem)
      rw [projectionOf, hhead]
      simp [joinedRow, DomainEntryProjectionRow.certificate, hid, hrevision, Except.toOption]

structure AnswersFor (repo : Repo) (h : String) (de : DomainEndpoint)
    (entry : DomainEntryProjection) : Prop where
  hostname : entry.hostname = h
  needCert : entry.needCert = de.needCert
  backendType : entry.backendType = de.backendType
  cert : entry.cert.map (·.revision)
    = (repo.getLatestCertificateRevision h).toOption.map (·.revision)
  bound : de.backendType.isL4 = true → entry.httpRoutes = []
    ∧ entry.bindedBackendRef = (repo.serviceBackendRefs.live? de.bindedServiceID).map readBackend
  routes : de.backendType.isL4 = false → ∃ routes : List HTTPRoute,
    routes.Perm (hostRoutes repo h) ∧ (routes.Pairwise fun a b => Repo.routeOrder a b = true)
      ∧ entry.httpRoutes = routes.map fun r =>
        { id := r.id
          path := r.path
          priority := r.priority
          backendRef := (repo.serviceBackendRefs.live? r.backendRefID).map readBackend }

theorem answersFor_projectionOf (hnamed : NamedRows repo)
    (hlive : repo.domainEndpoints.live? h = some de) :
    AnswersFor repo h de (projectionOf repo de) := by
  have hhost : de.hostname = h := Table.key_of_live? hlive
  subst hhost
  refine ⟨rfl, rfl, rfl, revision_projectionOf hnamed de, fun hl4 => ?_, fun hl7 => ?_⟩
  · rw [projectionOf, if_pos hl4, if_pos hl4]
    exact ⟨rfl, hnamed.backendRef _⟩
  · have hall : (hostRoutes repo de.hostname).filter (fun r => r.id ≠ "")
        = hostRoutes repo de.hostname := by
      refine filter_eq_self.mpr fun r hr => decide_eq_true ?_
      exact hnamed.routes r (mem_filter.mp hr).1
    refine ⟨sortedRoutes repo de.hostname, ?_, ?_, ?_⟩
    · rw [sortedRoutes, hall]
      exact perm_insertionSort _ _
    · exact (pairwise_sortedRoutes repo de.hostname).imp fun hlt =>
        routeOrder_iff.mpr (le_of_lt hlt)
    · rw [projectionOf, hl7, if_neg Bool.false_ne_true]
      refine map_congr_left fun r _ => ?_
      rw [projectedRoute, hnamed.backendRef]

theorem projection_query {repo : Repo} (hnamed : NamedRows repo) (h : String) :
    (repo.getDomainEntryProjectionByDomain h = .error .recordNotFound
        ↔ repo.domainEndpoints.live? h = none)
      ∧ ∀ de, repo.domainEndpoints.live? h = some de →
        ∃ entry, repo.getDomainEntryProjectionByDomain h = .ok entry
          ∧ AnswersFor repo h de entry := by
  refine ⟨?_, fun de hlive => ⟨projectionOf repo de, ?_, answersFor_projectionOf hnamed hlive⟩⟩
  · rw [Repo.getDomainEntryProjectionByDomain_eq_notFound]
    exact and_iff_right rfl
  · rw [getDomainEntryProjectionByDomain_eq, hlive]
    rfl

/-- A host bound to a backend whose type column is empty. -/
def untypedRepo : Repo :=
  { Repo.empty with
    domainEndpoints := Table.empty.upsert
      { hostname := "a.example", backendType := .l4TLSPassthrough, bindedServiceID := "backend-1" }
    serviceBackendRefs := Table.empty.upsert
      { id := "backend-1", serviceNamespace := "default", serviceName := "web", port := 443 } }

theorem namedRows_untypedRepo : NamedRows untypedRepo :=
  ⟨fun _ h => absurd h not_mem_nil, by decide, fun _ h => absurd h not_mem_nil⟩

/-- A host with two routes and two certificates. -/
def servedRepo : Repo :=
  { untypedRepo with
    domainEndpoints := Table.empty.upsert
      { hostname := "a.example", needCert := true, backendType := .l7HTTPS }
    httpRoutes := (Table.empty.upsert
      { id := "root", hostname := "a.example", path := "/", backendRefID := "backend-1" }).upsert
      { id := "api", hostname := "a.example", path := "/api", priority := 1 }
    certificateRevisions := (Table.empty.upsert
      { id := "old", hostname := "a.example", revision := 1 }).upsert
      { id := "new", hostname := "a.example", revision := 2 } }

theorem projection_query_served :
    ∃ de entry, servedRepo.domainEndpoints.live? "a.example" = some de
      ∧ servedRepo.getDomainEntryProjectionByDomain "a.example" = .ok entry
      ∧ AnswersFor servedRepo "a.example" de entry
      ∧ (entry.httpRoutes.map (·.path), entry.cert.map (·.revision)) = (["/api", "/"], some 2) := by
  have hnamed : NamedRows servedRepo := ⟨by decide, by decide, by decide⟩
  obtain ⟨-, hfound⟩ := projection_query hnamed "a.example"
  obtain ⟨entry, hread, hanswers⟩ := hfound _ rfl
  have hentry : (servedRepo.getDomainEntryProjectionByDomain "a.example").toOption.map
      (fun entry => (entry.httpRoutes.map (·.path), entry.cert.map (·.revision)))
      = some (["/api", "/"], some 2) := by decide +kernel
  rw [hread] at hentry
  exact ⟨_, entry, rfl, hread, hanswers, Option.some.inj hentry⟩

/-- The bound backend is not read as it is stored. -/
theorem untyped_backend_read_as_svc :
    NamedRows untypedRepo
      ∧ untypedRepo.serviceBackendRefs.live? "backend-1"
        = some { id := "backend-1", type := .unset, serviceNamespace := "default",
                 serviceName := "web", port := 443 }
      ∧ ∃ entry, untypedRepo.getDomainEntryProjectionByDomain "a.example" = .ok entry
        ∧ entry.bindedBackendRef
          = some { id := "backend-1", type := .svc, serviceNamespace := "default",
                   serviceName := "web", port := 443 }
        ∧ entry.bindedBackendRef ≠ untypedRepo.serviceBackendRefs.live? "backend-1" :=
  ⟨namedRows_untypedRepo, rfl, _, rfl, rfl, by decide⟩

end K8sBridge

end LunaEdge
