import LunaEdge.PlanTargets

/-!
# The other hosts

What a plan for one host does to the projections of the others. Routes
and backends are rows of their own that any host may name, and a builder
takes every backend away that its host showed and does not want any more,
without asking who else uses it. `other_host_unchanged_iff` says which
hosts a plan leaves alone: those that show no route with a wanted id, and
use no backend that the plan takes away or writes differently.
-/

namespace LunaEdge

namespace Lnctl

open K8sBridge

namespace Builder

/-! ## Backends -/

def writtenBackend (b : Builder) (id : String) : Option ServiceBackendRef :=
  match b.desiredL4Backend with
  | some target =>
    if b.backendRefID "l4" = id then some (b.buildBackendRef "l4" target) else none
  | none => b.wantedBackend id

def removesBackend (b : Builder) (repo : Repo) (id : String) : Bool :=
  match b.desiredL4Backend with
  | some _ => shownBackend repo b.hostname id
  | none =>
    boundID repo b.hostname id
      || (shownBackend repo b.hostname id && (b.wantedBackend id).isNone)

variable {b : Builder} {repo : Repo}

theorem exists_of_boundID {h id : String} (hbound : boundID repo h id = true) :
    ∃ ref, projectedBackend repo id = some ref := by
  obtain ⟨ref, href, rfl⟩ := boundID_iff.mp hbound
  unfold boundBackend at href
  split at href
  · split at href
    · rw [(id_of_projectedBackend href).1]
      exact ⟨ref, href⟩
    · cases href
  · cases href

theorem exists_of_removesBackend {id : String} (h : b.removesBackend repo id = true) :
    ∃ ref, projectedBackend repo id = some ref := by
  unfold removesBackend at h
  split at h
  · exact (shownBackend_iff.mp h).2
  · rcases Bool.or_eq_true_iff.mp h with hbound | hshown
    · exact exists_of_boundID hbound
    · exact (shownBackend_iff.mp (Bool.and_eq_true_iff.mp hshown).1).2

theorem backend_after (hfresh : b.Fresh repo) (hbuilt : b.Built) (id : String) :
    projectedBackend (b.plan.write repo) id
      = if b.removesBackend repo id then none
        else (b.writtenBackend id).or (projectedBackend repo id) := by
  rw [removesBackend, writtenBackend]
  cases htarget : b.desiredL4Backend with
  | some target =>
    have hl4 := hbuilt.isL4_of_some htarget
    rw [backend_after_l4 hfresh hl4 htarget]
    dsimp only
    split
    · rfl
    · split <;> rfl
  | none =>
    have hl7 := hbuilt.isL4_of_none htarget
    rw [backend_after_l7 hfresh hl7, projectedAfter]
    dsimp only
    cases boundID repo b.hostname id with
    | true => rfl
    | false =>
      cases b.wantedBackend id with
      | some w => simp
      | none => cases shownBackend repo b.hostname id <;> rfl

/-- The plan leaves the backend of an id as it was. -/
structure KeepsBackend (b : Builder) (repo : Repo) (id : String) : Prop where
  stays : b.removesBackend repo id = false
  same : ∀ w, b.writtenBackend id = some w → projectedBackend repo id = some w

theorem backend_after_eq_iff (hfresh : b.Fresh repo) (hbuilt : b.Built) {id : String} :
    projectedBackend (b.plan.write repo) id = projectedBackend repo id
      ↔ b.KeepsBackend repo id := by
  rw [backend_after hfresh hbuilt]
  cases hremoved : b.removesBackend repo id with
  | true =>
    obtain ⟨ref, href⟩ := exists_of_removesBackend hremoved
    rw [href]
    exact iff_of_false (fun h => by cases h) fun h => by
      rw [h.stays] at hremoved
      cases hremoved
  | false =>
    rw [if_neg Bool.false_ne_true]
    cases hwritten : b.writtenBackend id with
    | none =>
      refine iff_of_true rfl ⟨hremoved, fun w hw => ?_⟩
      rw [hwritten] at hw
      cases hw
    | some w =>
      rw [Option.some_or]
      constructor
      · intro h
        refine ⟨hremoved, fun w' hw' => ?_⟩
        rw [← h, Option.some.inj (hwritten.symm.trans hw')]
      · exact fun h => (h.same w hwritten).symm

/-! ## Projections -/

theorem latestCertificates_after (b : Builder) (repo : Repo) (h : String) :
    (b.plan.write repo).latestCertificates h = repo.latestCertificates h := by
  have hcerts : (b.plan.write repo).certificateRevisions = repo.certificateRevisions := by
    rw [Plan.write, foldl_write_frame (f := (·.certificateRevisions)) fun _ _ => rfl,
      foldl_write_frame (f := (·.certificateRevisions)) fun _ _ => rfl, Plan.writeRows,
      foldl_write_frame (f := (·.certificateRevisions)) fun _ _ => rfl,
      foldl_write_frame (f := (·.certificateRevisions)) fun _ _ => rfl]
  rw [Repo.latestCertificates, hcerts]
  rfl

theorem projectionOf_congr {repo repo' : Repo} {de : DomainEndpoint}
    (hcert : (projectionOf repo de).cert = (projectionOf repo' de).cert)
    (hroutes : (projectionOf repo de).httpRoutes = (projectionOf repo' de).httpRoutes)
    (hbound : (projectionOf repo de).bindedBackendRef = (projectionOf repo' de).bindedBackendRef) :
    projectionOf repo de = projectionOf repo' de := by
  simp only [projectionOf] at hcert hroutes hbound ⊢
  rw [hcert, hroutes, hbound]

/-- The plan leaves a host alone: it writes none of the routes that the
host shows, and keeps the backends that they name, or that is bound. -/
structure Spares (b : Builder) (repo : Repo) (g : String) : Prop where
  routes : ∀ r ∈ shownRoutes repo g, b.wantedRoute r.id = none
  backends : ∀ r ∈ shownRoutes repo g, b.KeepsBackend repo r.backendRefID
  bound : ∀ de, repo.domainEndpoints.live? g = some de → de.backendType.isL4 = true →
    b.KeepsBackend repo de.bindedServiceID

section Frame

variable (hfresh : b.Fresh repo) (hbuilt : b.Built)
include hfresh hbuilt

theorem projectedRoute_after_eq_iff {r : HTTPRoute} :
    projectedRoute (b.plan.write repo) r = projectedRoute repo r
      ↔ b.KeepsBackend repo r.backendRefID := by
  rw [← backend_after_eq_iff hfresh hbuilt]
  constructor
  · exact fun h => congrArg HTTPRouteProjection.backendRef h
  · exact fun h => congrArg (HTTPRouteProjection.mk r.id r.path r.priority) h

/-- The routes of another host are shown as before exactly if none of
them is overwritten and their backends are kept. -/
theorem routes_after_eq_iff {g : String} (hg : b.hostname ≠ g) :
    (sortedRoutes (b.plan.write repo) g).map (projectedRoute (b.plan.write repo))
        = (sortedRoutes repo g).map (projectedRoute repo)
      ↔ (∀ r ∈ sortedRoutes repo g, b.wantedRoute r.id = none)
        ∧ ∀ r ∈ sortedRoutes repo g, b.KeepsBackend repo r.backendRefID := by
  rw [sortedRoutes_after_of_ne hfresh hbuilt hg]
  constructor
  · intro h
    have hlength := congrArg List.length h
    rw [List.length_map, List.length_map, List.length_filter_eq_length_iff] at hlength
    rw [List.filter_eq_self.mpr hlength, List.map_inj_left] at h
    exact ⟨fun r hr => Option.isNone_iff_eq_none.mp (hlength r hr),
      fun r hr => (projectedRoute_after_eq_iff hfresh hbuilt).mp (h r hr)⟩
  · rintro ⟨hroutes, hbackends⟩
    rw [List.filter_eq_self.mpr fun r hr => Option.isNone_iff_eq_none.mpr (hroutes r hr)]
    exact List.map_congr_left fun r hr =>
      (projectedRoute_after_eq_iff hfresh hbuilt).mpr (hbackends r hr)

theorem projectionOf_after_eq_iff {g : String} (hg : b.hostname ≠ g) {de : DomainEndpoint}
    (hlive : repo.domainEndpoints.live? g = some de) :
    projectionOf (b.plan.write repo) de = projectionOf repo de ↔ b.Spares repo g := by
  have hhost : de.hostname = g := Table.key_of_live? hlive
  have hcert : (projectionOf (b.plan.write repo) de).cert = (projectionOf repo de).cert := by
    simp only [projectionOf, latestCertificates_after]
    rfl
  cases hl4 : de.backendType.isL4 with
  | true =>
    have hshown : shownRoutes repo g = [] := by
      simp only [shownRoutes, hlive, hl4, if_true]
    have hbound : ∀ repo, (projectionOf repo de).bindedBackendRef
        = projectedBackend repo de.bindedServiceID := fun _ => if_pos hl4
    constructor
    · intro h
      refine ⟨?_, ?_, fun de' hlive' _ => ?_⟩
      · simp [hshown]
      · simp [hshown]
      · obtain rfl : de = de' := Option.some.inj (hlive.symm.trans hlive')
        rw [← backend_after_eq_iff hfresh hbuilt, ← hbound, ← hbound, h]
    · intro h
      have hsame := (backend_after_eq_iff hfresh hbuilt).mpr (h.bound de hlive hl4)
      rw [← hbound, ← hbound] at hsame
      have hroutes : ∀ repo, (projectionOf repo de).httpRoutes = [] := fun _ => if_pos hl4
      exact projectionOf_congr hcert ((hroutes _).trans (hroutes _).symm) hsame
  | false =>
    have hshown : shownRoutes repo g = sortedRoutes repo g := by
      simp only [shownRoutes, hlive, hl4, Bool.false_eq_true, if_false]
    have hroutes : ∀ repo, (projectionOf repo de).httpRoutes
        = (sortedRoutes repo g).map (projectedRoute repo) := fun repo => by
      simp only [projectionOf, hl4, hhost, Bool.false_eq_true, if_false]
    have hiff := routes_after_eq_iff hfresh hbuilt hg
    rw [← hroutes, ← hroutes, ← hshown] at hiff
    constructor
    · intro h
      obtain ⟨hwanted, hbackends⟩ := hiff.mp (congrArg DomainEntryProjection.httpRoutes h)
      refine ⟨hwanted, hbackends, fun de' hlive' hl4' => ?_⟩
      obtain rfl : de = de' := Option.some.inj (hlive.symm.trans hlive')
      rw [hl4] at hl4'
      cases hl4'
    · intro h
      have hbound : ∀ repo, (projectionOf repo de).bindedBackendRef = none := fun _ =>
        if_neg (by rw [hl4]; decide)
      exact projectionOf_congr hcert (hiff.mpr ⟨h.routes, h.backends⟩)
        ((hbound _).trans (hbound _).symm)

end Frame

theorem spares_against {repo repo' : Repo} {g : String} :
    (b.against repo).Spares repo' g ↔ b.Spares repo' g := by
  have hkeeps : ∀ id, (b.against repo).KeepsBackend repo' id ↔ b.KeepsBackend repo' id :=
    fun id => ⟨fun h => ⟨h.stays, h.same⟩, fun h => ⟨h.stays, h.same⟩⟩
  constructor
  · exact fun h => ⟨h.routes, fun r hr => (hkeeps _).mp (h.backends r hr),
      fun de hlive hl4 => (hkeeps _).mp (h.bound de hlive hl4)⟩
  · exact fun h => ⟨h.routes, fun r hr => (hkeeps _).mpr (h.backends r hr),
      fun de hlive hl4 => (hkeeps _).mpr (h.bound de hlive hl4)⟩

theorem spares_of_none {g : String} (h : repo.domainEndpoints.live? g = none) :
    b.Spares repo g := by
  have hshown : shownRoutes repo g = [] := by simp only [shownRoutes, h]
  refine ⟨by simp [hshown], by simp [hshown], fun de hlive => ?_⟩
  rw [h] at hlive
  cases hlive

theorem projection_after_eq_iff (hfresh : b.Fresh repo) (hbuilt : b.Built) {g : String}
    (hg : b.hostname ≠ g) :
    (b.plan.write repo).getDomainEntryProjectionByDomain g = repo.getDomainEntryProjectionByDomain g
      ↔ b.Spares repo g := by
  rw [getDomainEntryProjectionByDomain_eq, getDomainEntryProjectionByDomain_eq,
    live_endpoint_of_ne repo hg]
  cases hlive : repo.domainEndpoints.live? g with
  | none => exact iff_of_true rfl (spares_of_none hlive)
  | some de =>
    rw [← projectionOf_after_eq_iff hfresh hbuilt hg hlive]
    simp [orNotFound]

end Builder

/-- A plan built against the projection of its host leaves the projection
of another host as it was exactly if it writes none of the routes which
that host shows, takes away none of the backends it uses, and writes
those that it uses and wants itself as they are. -/
theorem other_host_unchanged_iff (x : String) (calls : List BuilderCall) (plan : Plan)
    (range : List String → List String) (m : Master) (g : String)
    (hplan : ((builderOf x calls).against m.repo).build = .ok plan) (hg : g ≠ Go.trimSpace x) :
    (∃ m', MasterM.applyPlan range plan ⟨m, []⟩ = (.ok (), ⟨m', []⟩)
        ∧ m'.repo.getDomainEntryProjectionByDomain g = m.repo.getDomainEntryProjectionByDomain g)
      ↔ (builderOf x calls).Spares m.repo g := by
  obtain rfl := Builder.plan_of_build hplan
  obtain ⟨m₁, hdone, hrepo⟩ :=
    MasterM.applyPlan_repo range ((builderOf x calls).against m.repo).plan m
  have hhost : ((builderOf x calls).against m.repo).hostname ≠ g := fun heq =>
    hg (heq.symm.trans (hostname_builderOf x calls))
  rw [← Builder.spares_against, ← Builder.projection_after_eq_iff
    ((builderOf x calls).fresh_against m.repo) ((built_builderOf x calls).against m.repo) hhost,
    ← hrepo]
  constructor
  · rintro ⟨m', happly, hsame⟩
    rwa [← show m₁ = m' from congrArg (fun o => o.2.state) (hdone.symm.trans happly)] at hsame
  · exact fun hsame => ⟨m₁, hdone, hsame⟩

/-- A host with one route to a backend of the given id. -/
def sharingRepo (backendRefID : String) : Repo :=
  (((((Repo.empty.upsertResource
    ({ hostname := "app.example.com", backendType := .l7HTTP } : DomainEndpoint)).upsertResource
    ({ hostname := "other.example.com", backendType := .l7HTTP } : DomainEndpoint)).upsertResource
    ({ id := "shared", type := .svc, serviceNamespace := "web", serviceName := "front", port := 80 } :
      ServiceBackendRef)).upsertResource
    ({ id := "app", hostname := "app.example.com", path := "/", backendRefID := "shared" } :
      HTTPRoute)).upsertResource
    ({ id := "other", hostname := "other.example.com", path := "/", backendRefID } : HTTPRoute))

def sharingMaster (backendRefID : String) : Master := ⟨sharingRepo backendRefID, .empty, [], none⟩

/-- The other host has no backend of the first one. -/
theorem other_host_unchanged_separate :
    ∃ m', MasterM.applyPlan id ((builderOf "app.example.com" (oneRoute "/new")).against
          (sharingRepo "own")).plan ⟨sharingMaster "own", []⟩ = (.ok (), ⟨m', []⟩)
      ∧ m'.repo.getDomainEntryProjectionByDomain "other.example.com"
        = (sharingRepo "own").getDomainEntryProjectionByDomain "other.example.com" := by
  have hshown : (shownRoutes (sharingRepo "own") "other.example.com").map (·.backendRefID)
      = ["own"] := by decide +kernel
  have htype : ((sharingRepo "own").domainEndpoints.live? "other.example.com").map (·.backendType)
      = some .l7HTTP := by decide +kernel
  refine (other_host_unchanged_iff "app.example.com" (oneRoute "/new") _ id (sharingMaster "own")
    "other.example.com" rfl (by decide +kernel)).mpr
    ⟨by decide +kernel, fun r hr => ?_, fun de hlive hl4 => ?_⟩
  · have hid : r.backendRefID ∈ ["own"] := hshown ▸ List.mem_map_of_mem hr
    rw [List.mem_singleton.mp hid]
    have hnone : (builderOf "app.example.com" (oneRoute "/new")).writtenBackend "own" = none := by
      decide +kernel
    refine ⟨by decide +kernel, fun w hw => ?_⟩
    rw [hnone] at hw
    cases hw
  · have hlive : (sharingRepo "own").domainEndpoints.live? "other.example.com" = some de := hlive
    rw [hlive] at htype
    have htype : de.backendType = .l7HTTP := Option.some.inj htype
    rw [htype] at hl4
    cases hl4

/-- The plan takes away the backend that the other host uses too. -/
theorem shared_backend_removed :
    let b := (builderOf "app.example.com" (oneRoute "/new")).against (sharingRepo "shared")
    let m := (MasterM.applyPlan id b.plan ⟨sharingMaster "shared", []⟩).2.state
    b.build.isOk = true
      ∧ ((sharingRepo "shared").getDomainEntryProjectionByDomain "other.example.com").toOption.map
          (fun entry => entry.httpRoutes.map fun r => r.backendRef.map (·.id))
        = some [some "shared"]
      ∧ (m.repo.getDomainEntryProjectionByDomain "other.example.com").toOption.map
          (fun entry => entry.httpRoutes.map fun r => r.backendRef.map (·.id))
        = some [none] := by
  decide +kernel

end Lnctl

end LunaEdge
