import LunaEdge.PlanEffect

/-!
# The targets of a plan

What the projection of a host says after a plan, against what was
specified. Routes and backends go by a sanitised path, so of the routes
whose paths get one name only the last is kept, and a path that is
sanitised to `l4` shares its backend with layer 4, which the plan takes
away when the host changes its layer.

- `targets_reached_iff`: a plan of layer 7 leaves one route for each
  specified path, with its target, and no other.
- `targets_held_iff`: over a run of plans, at both layers, the targets
  are those specified.
-/

namespace LunaEdge

open List

namespace Lnctl

open K8sBridge

/-! ## Targets -/

/-- The target as the builder stores it. -/
def BackendTarget.normal (target : BackendTarget) : BackendTarget where
  type := if target.type = .unset then .svc else target.type
  arbitraryEndpoint := Go.trimSpace target.arbitraryEndpoint
  serviceNamespace := Go.trimSpace target.serviceNamespace
  serviceName := Go.trimSpace target.serviceName
  port := target.port

def refTarget (ref : ServiceBackendRef) : BackendTarget where
  type := ref.type
  arbitraryEndpoint := ref.arbitraryEndpoint
  serviceNamespace := ref.serviceNamespace
  serviceName := ref.serviceName
  port := ref.port

theorem refTarget_buildBackendRef (b : Builder) (key : String) (target : BackendTarget) :
    refTarget (b.buildBackendRef key target) = target.normal := rfl

/-! ## Names of routes -/

namespace Builder

variable {b : Builder}

/-- The route that keeps a name: the last one that has it. -/
def specOf (b : Builder) (name : String) : Option RouteSpec :=
  (b.desiredRoutes.filter fun spec => sanitizeBuilderIDPart spec.path = name).getLast?

def kept (b : Builder) (spec : RouteSpec) : Bool :=
  b.specOf (sanitizeBuilderIDPart spec.path) = some spec

variable {spec : RouteSpec} {repo : Repo}

theorem specOf_spec {name : String} (h : b.specOf name = some spec) :
    spec ∈ b.desiredRoutes ∧ sanitizeBuilderIDPart spec.path = name := by
  obtain ⟨hmem, hname⟩ := mem_filter.mp (mem_of_getLast? h)
  exact ⟨hmem, of_decide_eq_true hname⟩

theorem exists_specOf (hspec : spec ∈ b.desiredRoutes) :
    ∃ spec', b.specOf (sanitizeBuilderIDPart spec.path) = some spec' := by
  cases h : b.specOf (sanitizeBuilderIDPart spec.path) with
  | some spec' => exact ⟨spec', rfl⟩
  | none =>
    rw [specOf, List.getLast?_eq_none_iff, filter_eq_nil_iff] at h
    exact absurd (decide_eq_true rfl) (h spec hspec)

theorem get?_byID_specs {ρ : Type} [Keyed ρ String] {f : RouteSpec → ρ} {pre : String}
    (hkey : ∀ spec, Keyed.key (f spec) = pre ++ sanitizeBuilderIDPart spec.path) (name : String) :
    (byID (b.desiredRoutes.map f)).get? (pre ++ name) = (b.specOf name).map f := by
  have hfilter : b.desiredRoutes.filter
        ((fun row => decide (Keyed.key row = pre ++ name)) ∘ f)
      = b.desiredRoutes.filter fun spec => sanitizeBuilderIDPart spec.path = name :=
    filter_congr fun spec _ => by
      rw [Function.comp_apply, hkey]
      exact decide_eq_decide.mpr (String.append_right_inj pre)
  rw [byID, GoMap.get?_foldl_set, filter_map, List.getLast?_map, specOf, hfilter]

theorem wantedBackend_backendRefID (path : String) :
    b.wantedBackend (b.backendRefID path)
      = (b.specOf (sanitizeBuilderIDPart path)).map fun spec =>
          b.buildBackendRef spec.path spec.backend :=
  get?_byID_specs (fun _ => rfl) _

theorem wantedBackend_isSome_iff {id : String} :
    (b.wantedBackend id).isSome = true ↔ ∃ spec ∈ b.desiredRoutes, b.backendRefID spec.path = id := by
  constructor
  · intro h
    obtain ⟨w, hw⟩ := Option.isSome_iff_exists.mp h
    obtain ⟨hmem, hkey⟩ := key_of_get?_byID hw
    obtain ⟨spec, hspec, rfl⟩ := mem_map.mp hmem
    exact ⟨spec, hspec, hkey⟩
  · rintro ⟨spec, hspec, rfl⟩
    obtain ⟨spec', hspec'⟩ := exists_specOf hspec
    rw [wantedBackend_backendRefID, hspec']
    rfl

section Layer7

variable (hl7 : b.desiredBackendType.isL4 = false)
include hl7

theorem wantedRoute_routeID (path : String) :
    b.wantedRoute (b.routeID path) = (b.specOf (sanitizeBuilderIDPart path)).map b.buildRoute := by
  have hwanted : b.wantedRoutes = b.desiredRoutes.map b.buildRoute := by
    rw [wantedRoutes, hl7]
    rfl
  rw [wantedRoute, hwanted]
  exact get?_byID_specs (fun _ => rfl) _

/-- The routes that the plan leaves are those of the kept specifications. -/
theorem wantedRoute_iff {w : HTTPRoute} :
    b.wantedRoute w.id = some w ↔ ∃ spec, b.kept spec = true ∧ w = b.buildRoute spec := by
  constructor
  · intro h
    obtain ⟨-, spec, hspec, rfl⟩ := wantedRoute_spec h
    obtain ⟨spec', hspec'⟩ := exists_specOf hspec
    have hroute : b.wantedRoute (b.routeID spec.path) = some (b.buildRoute spec) := h
    rw [wantedRoute_routeID hl7, hspec'] at hroute
    refine ⟨spec', decide_eq_true ?_, (Option.some.inj hroute).symm⟩
    rw [(specOf_spec hspec').2]
    exact hspec'
  · rintro ⟨spec, hkept, rfl⟩
    have hroute := wantedRoute_routeID hl7 spec.path
    rwa [of_decide_eq_true hkept] at hroute

end Layer7

theorem wantedBackend_of_kept (hkept : b.kept spec = true) :
    b.wantedBackend (b.backendRefID spec.path)
      = some (b.buildBackendRef spec.path spec.backend) := by
  rw [wantedBackend_backendRefID, of_decide_eq_true hkept]
  rfl

/-! ## The routes reached -/

section Reached

variable {repo : Repo} (hfresh : b.Fresh repo) (hbuilt : b.Built)
include hfresh hbuilt

theorem shown_after :
    ∃ entry, (b.plan.write repo).getDomainEntryProjectionByDomain b.hostname = .ok entry
      ∧ entry.httpRoutes = (if b.desiredBackendType.isL4 then []
        else (sortedRoutes (b.plan.write repo) b.hostname).map (projectedRoute (b.plan.write repo)))
      ∧ entry.bindedBackendRef = if b.desiredBackendType.isL4 then
          projectedBackend (b.plan.write repo) (b.backendRefID "l4") else none := by
  obtain ⟨de, hlive, -⟩ := endpoint_after hfresh hbuilt
  obtain ⟨entry, hget, -, hroutes, hbound⟩ := projection_eq _ hlive
  refine ⟨entry, hget, ?_, hbound.trans (boundBackend_after hfresh hbuilt)⟩
  rw [hroutes, shownRoutes_after hfresh hbuilt]
  split <;> rfl

variable (hl7 : b.desiredBackendType.isL4 = false)
include hl7

theorem sortedRoutes_after_perm (hpaths : (b.desiredRoutes.map (·.path)).Nodup) :
    (sortedRoutes (b.plan.write repo) b.hostname).Perm
      ((b.desiredRoutes.filter b.kept).map b.buildRoute ++ b.hiddenRoutes repo) := by
  have hsorted : ∀ (repo : Repo) (g : String), (sortedRoutes repo g).Nodup := fun repo g =>
    (pairwise_sortedRoutes repo g).imp fun hlt heq => absurd (heq ▸ hlt) (lt_irrefl _)
  have hkept : ((b.desiredRoutes.filter b.kept).map b.buildRoute).Nodup := by
    refine List.Nodup.map_on ?_ ((List.Nodup.of_map _ hpaths).filter _)
    intro s hs t ht heq
    exact inj_on_of_nodup_map hpaths (mem_filter.mp hs).1 (mem_filter.mp ht).1
      (congrArg HTTPRoute.path heq)
  refine (perm_ext_iff_of_nodup (hsorted _ _) (nodup_append.mpr
    ⟨hkept, (hsorted _ _).filter _, ?_⟩)).mpr fun r => ?_
  · rintro r hr s hs rfl
    obtain ⟨spec, hspec, rfl⟩ := mem_map.mp hr
    have hwanted := (wantedRoute_iff hl7).mpr ⟨spec, (mem_filter.mp hspec).2, rfl⟩
    rw [wantedRoute_of_hidden hs] at hwanted
    cases hwanted
  · rw [mem_sortedRoutes_after hfresh hbuilt, wantedRoute_iff hl7, mem_append, mem_map]
    refine or_congr_left ⟨?_, ?_⟩
    · rintro ⟨spec, hspec, rfl⟩
      exact ⟨spec, mem_filter.mpr ⟨(specOf_spec (of_decide_eq_true hspec)).1, hspec⟩, rfl⟩
    · rintro ⟨spec, hspec, rfl⟩
      exact ⟨spec, (mem_filter.mp hspec).2, rfl⟩

end Reached

/-- One route for each specified path, with its target, and no other. -/
def Reached (b : Builder) (entry : DomainEntryProjection) : Prop :=
  (entry.httpRoutes.map fun r => (r.path, r.backendRef.map refTarget)).Perm
    (b.desiredRoutes.map fun spec => (spec.path, some spec.backend.normal))

/-- What it takes: no wanted backend is bound before, and the routes that
the plan leaves beside its own stand in for the specified routes whose
name a later one has taken. As a rule there are neither. -/
structure Reaches (b : Builder) (repo : Repo) : Prop where
  unbound : ∀ spec ∈ b.desiredRoutes,
    boundID repo b.hostname (b.backendRefID spec.path) = false
  others : ((b.hiddenRoutes repo).map fun r =>
      (r.path, (b.projectedAfter repo r.backendRefID).map refTarget)).Perm
    ((b.desiredRoutes.filter fun spec => !b.kept spec).map fun spec =>
      (spec.path, some spec.backend.normal))

/-- The projection that the builder was told plays no part in it. -/
theorem reaches_against {repo' : Repo} : (b.against repo).Reaches repo' ↔ b.Reaches repo' :=
  ⟨fun h => ⟨h.unbound, h.others⟩, fun h => ⟨h.unbound, h.others⟩⟩

theorem projectedAfter_of_kept (hkept : b.kept spec = true)
    (hbound : boundID repo b.hostname (b.backendRefID spec.path) = false) :
    b.projectedAfter repo (b.backendRefID spec.path)
      = some (b.buildBackendRef spec.path spec.backend) := by
  rw [projectedAfter, hbound, wantedBackend_of_kept hkept]
  rfl

/-- Where a wanted backend is bound before, a kept route loses it: the
backend of a name is that of the route which keeps the name. -/
theorem exists_kept_lost (hspec : spec ∈ b.desiredRoutes)
    (hbound : boundID repo b.hostname (b.backendRefID spec.path) = true) :
    ∃ spec' ∈ b.desiredRoutes, b.kept spec' = true
      ∧ b.projectedAfter repo (b.backendRefID spec'.path) = none := by
  obtain ⟨spec', hspec'⟩ := exists_specOf hspec
  obtain ⟨hmem, hname⟩ := specOf_spec hspec'
  have hid : b.backendRefID spec'.path = b.backendRefID spec.path := by
    rw [backendRefID, hname, backendRefID]
  refine ⟨spec', hmem, decide_eq_true (by rw [hname]; exact hspec'), ?_⟩
  rw [projectedAfter, hid, hbound]
  rfl

/-- The path of a route and its target after a plan of layer 7. -/
def targetAfter (b : Builder) (repo : Repo) (r : HTTPRoute) : String × Option BackendTarget :=
  (r.path, (b.projectedAfter repo r.backendRefID).map refTarget)

def specTarget (spec : RouteSpec) : String × Option BackendTarget :=
  (spec.path, some spec.backend.normal)

theorem specTargets_perm (b : Builder) :
    (b.desiredRoutes.map specTarget).Perm
      ((b.desiredRoutes.filter b.kept).map specTarget
        ++ (b.desiredRoutes.filter fun spec => !b.kept spec).map specTarget) := by
  rw [← map_append]
  exact ((filter_append_perm b.kept b.desiredRoutes).map specTarget).symm

theorem keptTargets_eq
    (hunbound : ∀ spec ∈ b.desiredRoutes, boundID repo b.hostname (b.backendRefID spec.path) = false) :
    (b.desiredRoutes.filter b.kept).map (b.targetAfter repo ∘ b.buildRoute)
      = (b.desiredRoutes.filter b.kept).map specTarget := by
  refine map_congr_left fun spec hspec => ?_
  obtain ⟨hmem, hkept⟩ := mem_filter.mp hspec
  have howned := projectedAfter_of_kept hkept (hunbound spec hmem)
  change (spec.path, (b.projectedAfter repo (b.backendRefID spec.path)).map refTarget) = _
  rw [howned, Option.map_some, refTarget_buildBackendRef, specTarget]

/-- A bound backend shows as a route without a target. -/
theorem unbound_of_keptTargets
    (htargets : ∀ t ∈ (b.desiredRoutes.filter b.kept).map (b.targetAfter repo ∘ b.buildRoute), t.2 ≠ none)
    (hspec : spec ∈ b.desiredRoutes) :
    boundID repo b.hostname (b.backendRefID spec.path) = false := by
  by_contra hbound
  rw [Bool.not_eq_false] at hbound
  obtain ⟨spec', hmem, hkept, hnone⟩ := exists_kept_lost hspec hbound
  have hlost : (spec'.path, none) ∈ (b.desiredRoutes.filter b.kept).map
      (b.targetAfter repo ∘ b.buildRoute) :=
    mem_map.mpr ⟨spec', mem_filter.mpr ⟨hmem, hkept⟩,
      congrArg (fun ref => (spec'.path, Option.map refTarget ref)) hnone⟩
  exact htargets _ hlost rfl

theorem shownTargets_perm (hfresh : b.Fresh repo) (hbuilt : b.Built)
    (hl7 : b.desiredBackendType.isL4 = false) (hpaths : (b.desiredRoutes.map (·.path)).Nodup)
    {entry : DomainEntryProjection}
    (hroutes : entry.httpRoutes = (sortedRoutes (b.plan.write repo) b.hostname).map (projectedRoute (b.plan.write repo))) :
    (entry.httpRoutes.map fun r => (r.path, r.backendRef.map refTarget)).Perm
      ((b.desiredRoutes.filter b.kept).map (b.targetAfter repo ∘ b.buildRoute)
        ++ (b.hiddenRoutes repo).map (b.targetAfter repo)) := by
  have htarget : (fun r : HTTPRouteProjection => (r.path, r.backendRef.map refTarget))
      ∘ projectedRoute (b.plan.write repo) = b.targetAfter repo := funext fun r =>
    congrArg (fun ref => (r.path, Option.map refTarget ref))
      (backend_after_l7 hfresh hl7 r.backendRefID)
  rw [hroutes, map_map, htarget, ← map_map, ← map_append]
  exact (sortedRoutes_after_perm hfresh hbuilt hl7 hpaths).map (b.targetAfter repo)

theorem reached_iff (hfresh : b.Fresh repo) (hbuilt : b.Built)
    (hl7 : b.desiredBackendType.isL4 = false) (hpaths : (b.desiredRoutes.map (·.path)).Nodup) :
    (∃ entry, (b.plan.write repo).getDomainEntryProjectionByDomain b.hostname = .ok entry
        ∧ b.Reached entry)
      ↔ b.Reaches repo := by
  obtain ⟨entry, hget, hroutes, -⟩ := shown_after hfresh hbuilt
  rw [hl7, if_neg Bool.false_ne_true] at hroutes
  have hshown := shownTargets_perm hfresh hbuilt hl7 hpaths hroutes
  constructor
  · rintro ⟨entry', hget', hreached⟩
    obtain rfl : entry' = entry := Except.ok.inj (hget'.symm.trans hget)
    have hall := hshown.symm.trans hreached
    have hunbound : ∀ spec ∈ b.desiredRoutes,
        boundID repo b.hostname (b.backendRefID spec.path) = false := by
      refine fun spec hspec => unbound_of_keptTargets (fun t ht hnone => ?_) hspec
      -- every specified route has a target
      obtain ⟨spec', -, rfl⟩ := mem_map.mp (hall.subset (mem_append_left _ ht))
      cases hnone
    refine ⟨hunbound, ?_⟩
    rw [keptTargets_eq hunbound] at hall
    exact (perm_append_left_iff _).mp (hall.trans b.specTargets_perm)
  · intro h
    refine ⟨entry, hget, hshown.trans (.trans ?_ b.specTargets_perm.symm)⟩
    rw [keptTargets_eq h.unbound]
    exact List.Perm.append_left _ h.others

end Builder

/-- After the plan of a specification of layer 7 with different paths, the
projection of the host has one route for each of them, with its target,
and no other, exactly if the tables and the specification are such that
the plan reaches it. -/
theorem targets_reached_iff (x : String) (calls : List BuilderCall) (plan : Plan)
    (range : List String → List String) (m : Master)
    (hplan : ((builderOf x calls).against m.repo).build = .ok plan)
    (hl7 : isL7BackendType (builderOf x calls).desiredBackendType = true)
    (hpaths : ((builderOf x calls).desiredRoutes.map (·.path)).Nodup) :
    (∃ m' entry, MasterM.applyPlan range plan ⟨m, []⟩ = (.ok (), ⟨m', []⟩)
        ∧ m'.repo.getDomainEntryProjectionByDomain (Go.trimSpace x) = .ok entry
        ∧ (builderOf x calls).Reached entry)
      ↔ (builderOf x calls).Reaches m.repo := by
  obtain rfl := Builder.plan_of_build hplan
  obtain ⟨m₁, hdone, hrepo⟩ := MasterM.applyPlan_repo range _ m
  rw [← hostname_builderOf x calls]
  have hreached := Builder.reached_iff ((builderOf x calls).fresh_against m.repo)
    ((built_builderOf x calls).against m.repo) (isL4_of_isL7 hl7) hpaths
  rw [← Builder.reaches_against, ← hreached, ← hrepo]
  constructor
  · rintro ⟨m', entry, happly, hget, hall⟩
    obtain rfl : m₁ = m' := congrArg (fun o => o.2.state) (hdone.symm.trans happly)
    exact ⟨entry, hget, hall⟩
  · rintro ⟨entry, hget, hall⟩
    exact ⟨m₁, entry, hdone, hget, hall⟩

def newMaster : Master := ⟨.empty, .empty, [], none⟩

def oneRoute (path : String) : List BuilderCall :=
  [.asL7HTTP, .route path { serviceNamespace := "web", serviceName := "front", port := 80 }]

def twoRoutes : List BuilderCall :=
  oneRoute "/" ++ [.route "/api" { serviceNamespace := "web", serviceName := "api", port := 80 }]

theorem targets_reached_new :
    ∃ m' entry, MasterM.applyPlan id ((builderOf "app.example.com" twoRoutes).against
          newMaster.repo).plan ⟨newMaster, []⟩ = (.ok (), ⟨m', []⟩)
      ∧ m'.repo.getDomainEntryProjectionByDomain (Go.trimSpace "app.example.com") = .ok entry
      ∧ (builderOf "app.example.com" twoRoutes).Reached entry :=
  (targets_reached_iff "app.example.com" twoRoutes _ id newMaster rfl rfl
    (by decide)).mpr ⟨by decide +kernel, by decide +kernel⟩

def collidingRoutes : List BuilderCall :=
  [.asL7HTTP, .route "/a.b" { serviceNamespace := "web", serviceName := "dot", port := 80 },
    .route "/a/b" { serviceNamespace := "web", serviceName := "slash", port := 80 }]

/-- The first of them is lost. -/
theorem colliding_route_lost :
    let b := (builderOf "app.example.com" collidingRoutes).against newMaster.repo
    let m := (MasterM.applyPlan id b.plan ⟨newMaster, []⟩).2.state
    b.build.isOk = true ∧ b.desiredRoutes.map (·.path) = ["/a.b", "/a/b"]
      ∧ (m.repo.getDomainEntryProjectionByDomain "app.example.com").toOption.map
          (fun entry => entry.httpRoutes.map (·.path)) = some ["/a/b"] := by
  decide +kernel

/-! ## Changing the layer -/

namespace Builder

variable {b : Builder}

/-- The projection of the host has the target of layer 4 bound, or every
route of it is a specified one with its target. -/
structure Held (b : Builder) (entry : DomainEntryProjection) : Prop where
  l4 : ∀ target, b.desiredL4Backend = some target →
    entry.bindedBackendRef.map refTarget = some target.normal
  l7 : b.desiredL4Backend = none → ∀ r ∈ entry.httpRoutes, ∃ spec ∈ b.desiredRoutes,
    r.id = b.routeID spec.path ∧ r.path = spec.path
      ∧ r.backendRef.map refTarget = some spec.backend.normal

/-- What it takes: at layer 4, that no route before has the backend of
layer 4; at layer 7, that no wanted backend is bound before and that the
tables have no other routes of the host. -/
structure Holds (b : Builder) (repo : Repo) : Prop where
  l4 : b.desiredL4Backend.isSome = true →
    shownBackend repo b.hostname (b.backendRefID "l4") = false
  l7 : b.desiredL4Backend = none → (∀ spec ∈ b.desiredRoutes,
      boundID repo b.hostname (b.backendRefID spec.path) = false) ∧ b.hiddenRoutes repo = []

theorem kept_of_nodup
    (hids : (b.desiredRoutes.map fun spec => b.routeID spec.path).Nodup) {spec : RouteSpec}
    (hspec : spec ∈ b.desiredRoutes) : b.kept spec = true := by
  obtain ⟨spec', hspec'⟩ := exists_specOf hspec
  obtain ⟨hmem, hname⟩ := specOf_spec hspec'
  have hid : b.routeID spec'.path = b.routeID spec.path := by rw [routeID, hname, routeID]
  rw [inj_on_of_nodup_map hids hmem hspec hid] at hspec'
  exact decide_eq_true hspec'

variable {entry : DomainEntryProjection} {repo : Repo}

theorem held_iff_of_some {target : BackendTarget} (htarget : b.desiredL4Backend = some target) :
    b.Held entry ↔ entry.bindedBackendRef.map refTarget = some target.normal := by
  constructor
  · exact fun h => h.l4 target htarget
  · intro h
    refine ⟨fun target' htarget' => ?_, fun hnone => ?_⟩
    · rwa [← Option.some.inj (htarget.symm.trans htarget')]
    · rw [htarget] at hnone
      cases hnone

theorem held_iff_of_none (htarget : b.desiredL4Backend = none) :
    b.Held entry ↔ ∀ r ∈ entry.httpRoutes, ∃ spec ∈ b.desiredRoutes,
      r.id = b.routeID spec.path ∧ r.path = spec.path
        ∧ r.backendRef.map refTarget = some spec.backend.normal := by
  refine ⟨fun h => h.l7 htarget, fun h => ⟨fun target hsome => ?_, fun _ => h⟩⟩
  rw [htarget] at hsome
  cases hsome

theorem holds_iff_of_some {target : BackendTarget} (htarget : b.desiredL4Backend = some target) :
    b.Holds repo ↔ shownBackend repo b.hostname (b.backendRefID "l4") = false := by
  have hsome : b.desiredL4Backend.isSome = true := by rw [htarget]; rfl
  refine ⟨fun h => h.l4 hsome, fun h => ⟨fun _ => h, fun hnone => ?_⟩⟩
  rw [htarget] at hnone
  cases hnone

theorem holds_iff_of_none (htarget : b.desiredL4Backend = none) :
    b.Holds repo ↔ (∀ spec ∈ b.desiredRoutes,
      boundID repo b.hostname (b.backendRefID spec.path) = false) ∧ b.hiddenRoutes repo = [] := by
  refine ⟨fun h => h.l7 htarget, fun h => ⟨fun hsome => ?_, fun _ => h⟩⟩
  rw [htarget] at hsome
  cases hsome

section Held

variable {repo : Repo} {entry : DomainEntryProjection} (hfresh : b.Fresh repo) (hbuilt : b.Built)
include hfresh hbuilt

theorem held_l4_iff {target : BackendTarget} (htarget : b.desiredL4Backend = some target)
    (hbound : entry.bindedBackendRef = projectedBackend (b.plan.write repo) (b.backendRefID "l4")) :
    b.Held entry ↔ b.Holds repo := by
  rw [held_iff_of_some htarget, holds_iff_of_some htarget, hbound,
    backend_after_l4 hfresh (hbuilt.isL4_of_some htarget) htarget, if_pos rfl]
  cases shownBackend repo b.hostname (b.backendRefID "l4") with
  | true => exact iff_of_false nofun nofun
  | false => exact iff_of_true (congrArg some (refTarget_buildBackendRef b "l4" target)) rfl

theorem held_l7_iff (htarget : b.desiredL4Backend = none)
    (hids : (b.desiredRoutes.map fun spec => b.routeID spec.path).Nodup)
    (hroutes : entry.httpRoutes = (sortedRoutes (b.plan.write repo) b.hostname).map
      (projectedRoute (b.plan.write repo))) :
    b.Held entry ↔ b.Holds repo := by
  have hl7 := hbuilt.isL4_of_none htarget
  have hmem : ∀ r, r ∈ entry.httpRoutes
      ↔ ∃ w, (b.wantedRoute w.id = some w ∨ w ∈ b.hiddenRoutes repo)
        ∧ projectedRoute (b.plan.write repo) w = r := by
    intro r
    simp only [hroutes, mem_map, mem_sortedRoutes_after hfresh hbuilt]
  have hown : ∀ spec, (projectedRoute (b.plan.write repo) (b.buildRoute spec)).backendRef
      = b.projectedAfter repo (b.backendRefID spec.path) := fun spec =>
    backend_after_l7 hfresh hl7 (b.backendRefID spec.path)
  rw [held_iff_of_none htarget, holds_iff_of_none htarget]
  constructor
  · intro h
    constructor
    · intro spec hspec
      have hwanted := (wantedRoute_iff hl7).mpr ⟨spec, kept_of_nodup hids hspec, rfl⟩
      obtain ⟨spec', -, -, -, href⟩ := h _ ((hmem _).mpr ⟨_, Or.inl hwanted, rfl⟩)
      rw [hown] at href
      obtain ⟨ref, href, -⟩ := Option.map_eq_some_iff.mp href
      exact unbound_of_projectedAfter (Option.isSome_of_eq_some href)
    · -- a hidden route has an id that is not wanted
      refine eq_nil_iff_forall_not_mem.mpr fun r hr => ?_
      obtain ⟨spec, hspec, hid, -⟩ := h _ ((hmem _).mpr ⟨r, Or.inr hr, rfl⟩)
      have hnone := wantedRoute_of_hidden hr
      have hid : r.id = b.routeID spec.path := hid
      rw [hid, wantedRoute_routeID hl7, of_decide_eq_true (kept_of_nodup hids hspec)] at hnone
      cases hnone
  · rintro ⟨hunbound, hhidden⟩ r hr
    obtain ⟨w, hw | hw, rfl⟩ := (hmem r).mp hr
    · obtain ⟨spec, hkept, rfl⟩ := (wantedRoute_iff hl7).mp hw
      have hspec := (specOf_spec (of_decide_eq_true hkept)).1
      refine ⟨spec, hspec, rfl, rfl, ?_⟩
      rw [hown, projectedAfter_of_kept hkept (hunbound spec hspec), Option.map_some,
        refTarget_buildBackendRef]
    · rw [hhidden] at hw
      cases hw

theorem held_iff (hids : b.desiredL4Backend = none →
      (b.desiredRoutes.map fun spec => b.routeID spec.path).Nodup) :
    (∃ entry, (b.plan.write repo).getDomainEntryProjectionByDomain b.hostname = .ok entry
        ∧ b.Held entry)
      ↔ b.Holds repo := by
  obtain ⟨entry, hget, hroutes, hbound⟩ := shown_after hfresh hbuilt
  have hiff : b.Held entry ↔ b.Holds repo := by
    cases htarget : b.desiredL4Backend with
    | some target =>
      rw [hbuilt.isL4_of_some htarget, if_pos rfl] at hbound
      exact held_l4_iff hfresh hbuilt htarget hbound
    | none =>
      rw [hbuilt.isL4_of_none htarget, if_neg Bool.false_ne_true] at hroutes
      exact held_l7_iff hfresh hbuilt htarget (hids htarget) hroutes
  rw [← hiff]
  constructor
  · rintro ⟨entry', hget', hheld⟩
    rwa [← Except.ok.inj (hget'.symm.trans hget)]
  · exact fun hheld => ⟨entry, hget, hheld⟩

end Held

theorem held_against : (b.against repo).Held entry ↔ b.Held entry :=
  ⟨fun h => ⟨h.l4, h.l7⟩, fun h => ⟨h.l4, h.l7⟩⟩

theorem holds_against {repo' : Repo} : (b.against repo).Holds repo' ↔ b.Holds repo' :=
  ⟨fun h => ⟨h.l4, h.l7⟩, fun h => ⟨h.l4, h.l7⟩⟩

end Builder

/-- A specification is built against the projection and its plan applied. -/
def Applies (range : List String → List String) (x : String) (calls : List BuilderCall)
    (m m' : Master) : Prop :=
  ∃ plan, ((builderOf x calls).against m.repo).build = .ok plan
    ∧ MasterM.applyPlan range plan ⟨m, []⟩ = (.ok (), ⟨m', []⟩)

/-- Specifications of one host applied one after another, each with the
master it leaves. -/
inductive PlanRun (range : List String → List String) (x : String) :
    Master → List (List BuilderCall × Master) → Prop
  | nil (m : Master) : PlanRun range x m []
  | cons {m m' : Master} {calls : List BuilderCall} {steps : List (List BuilderCall × Master)} :
      Applies range x calls m m' → PlanRun range x m' steps →
      PlanRun range x m ((calls, m') :: steps)

/-- A property of every step, by the masters before and after it. -/
def EveryStep (P : Master → List BuilderCall → Master → Prop) :
    Master → List (List BuilderCall × Master) → Prop
  | _, [] => True
  | m, (calls, m') :: steps => P m calls m' ∧ EveryStep P m' steps

theorem applies_held_iff {range : List String → List String} {x : String}
    {calls : List BuilderCall} {m m' : Master} (h : Applies range x calls m m')
    (hids : (builderOf x calls).desiredL4Backend = none →
      ((builderOf x calls).desiredRoutes.map fun spec =>
        (builderOf x calls).routeID spec.path).Nodup) :
    (∃ entry, m'.repo.getDomainEntryProjectionByDomain (Go.trimSpace x) = .ok entry
        ∧ (builderOf x calls).Held entry)
      ↔ (builderOf x calls).Holds m.repo := by
  obtain ⟨plan, hplan, happly⟩ := h
  obtain rfl := Builder.plan_of_build hplan
  obtain ⟨m₁, hdone, hrepo⟩ :=
    MasterM.applyPlan_repo range ((builderOf x calls).against m.repo).plan m
  obtain rfl : m₁ = m' := congrArg (fun o => o.2.state) (hdone.symm.trans happly)
  rw [← Builder.holds_against, ← Builder.held_iff ((builderOf x calls).fresh_against m.repo)
    ((built_builderOf x calls).against m.repo) hids, hrepo, ← hostname_builderOf x calls]
  simp only [Builder.held_against]
  rfl

/-- Over a run of specifications of one host, each built against the
current projection, the targets specified are those of the projection
after every step exactly if every step finds tables that allow it. -/
theorem targets_held_iff (range : List String → List String) (x : String) (m : Master)
    (steps : List (List BuilderCall × Master)) (hrun : PlanRun range x m steps)
    (hids : ∀ step ∈ steps, (builderOf x step.1).desiredL4Backend = none →
      ((builderOf x step.1).desiredRoutes.map fun spec =>
        (builderOf x step.1).routeID spec.path).Nodup) :
    EveryStep (fun _ calls m' =>
        ∃ entry, m'.repo.getDomainEntryProjectionByDomain (Go.trimSpace x) = .ok entry
          ∧ (builderOf x calls).Held entry) m steps
      ↔ EveryStep (fun m calls _ => (builderOf x calls).Holds m.repo) m steps := by
  induction hrun with
  | nil m => exact Iff.rfl
  | cons happly _ ih =>
    obtain ⟨hhead, htail⟩ := forall_mem_cons.mp hids
    exact and_congr (applies_held_iff happly hhead) (ih htail)

def passthrough : List BuilderCall :=
  [.asL4TLSPassthrough { serviceNamespace := "web", serviceName := "tls", port := 443 }]

/-- A host that changes from layer 4 to a route with another name. -/
theorem targets_held_switch :
    ∃ m₁ m₂, PlanRun id "app.example.com" newMaster [(passthrough, m₁), (oneRoute "/", m₂)]
      ∧ EveryStep (fun _ calls m' =>
          ∃ entry, m'.repo.getDomainEntryProjectionByDomain (Go.trimSpace "app.example.com")
              = .ok entry
            ∧ (builderOf "app.example.com" calls).Held entry)
        newMaster [(passthrough, m₁), (oneRoute "/", m₂)] := by
  obtain ⟨m₁, hdone₁, hrepo₁⟩ := MasterM.applyPlan_repo id
    ((builderOf "app.example.com" passthrough).against newMaster.repo).plan newMaster
  obtain ⟨m₂, hdone₂, -⟩ := MasterM.applyPlan_repo id
    ((builderOf "app.example.com" (oneRoute "/")).against m₁.repo).plan m₁
  have hrun : PlanRun id "app.example.com" newMaster
      [(passthrough, m₁), (oneRoute "/", m₂)] :=
    .cons ⟨_, rfl, hdone₁⟩ (.cons ⟨_, rfl, hdone₂⟩ (.nil m₂))
  refine ⟨m₁, m₂, hrun, (targets_held_iff id "app.example.com" newMaster _ hrun ?_).mpr
    ⟨⟨fun _ => by decide +kernel, fun h => by cases h⟩,
      ⟨(fun h => by cases h), fun _ => ?_⟩, trivial⟩⟩
  · intro step hstep
    rcases mem_cons.mp hstep with rfl | hstep
    · exact fun h => by cases h
    · rw [mem_singleton.mp hstep]
      intro _
      dsimp only
      decide +kernel
  · rw [hrepo₁]
    decide +kernel

/-- The route `/l4` gets the backend that the plan then takes away. -/
theorem switched_route_loses_backend :
    let m₁ := (MasterM.applyPlan id ((builderOf "app.example.com" passthrough).against
      newMaster.repo).plan ⟨newMaster, []⟩).2.state
    let b := (builderOf "app.example.com" (oneRoute "/l4")).against m₁.repo
    let m₂ := (MasterM.applyPlan id b.plan ⟨m₁, []⟩).2.state
    b.build.isOk = true
      ∧ (m₂.repo.getDomainEntryProjectionByDomain "app.example.com").toOption.map
          (fun entry => entry.httpRoutes.map fun r => (r.path, r.backendRef))
        = some [("/l4", none)] := by
  decide +kernel

end Lnctl

end LunaEdge
