import LunaEdge.LnctlBuilder
import LunaEdge.ProjectionQuery

/-!
# What a fresh plan does

A builder that was told the projection of its host (`Builder.Fresh`), and
the tables after its plan. The builder sees of a host what the projection
shows: the routes with their backends at layer 7, the bound backend at
layer 4, nothing of a host without an endpoint. So the plan takes the
shown rows away that are not wanted any more and writes those that are
(`route_after`, `backend_after_l7`, `backend_after_l4`); routes that the
tables hold and the projection does not show stay (`hiddenRoutes`).
-/

namespace LunaEdge

open List

namespace Lnctl

open K8sBridge

/-! ## What a projection shows -/

def projectedBackend (repo : Repo) (id : String) : Option ServiceBackendRef :=
  DomainEntryProjectionRow.backendRef (repo.serviceBackendRefs.live? id)

def shownRoutes (repo : Repo) (h : String) : List HTTPRoute :=
  match repo.domainEndpoints.live? h with
  | some de => if de.backendType.isL4 then [] else sortedRoutes repo h
  | none => []

def boundBackend (repo : Repo) (h : String) : Option ServiceBackendRef :=
  match repo.domainEndpoints.live? h with
  | some de => if de.backendType.isL4 then projectedBackend repo de.bindedServiceID else none
  | none => none

def boundID (repo : Repo) (h id : String) : Bool := (boundBackend repo h).any (·.id = id)

def shownBackend (repo : Repo) (h id : String) : Bool :=
  (shownRoutes repo h).any fun r => r.backendRefID = id && (projectedBackend repo id).isSome

variable {repo : Repo} {h : String}

theorem id_of_projectedBackend {id : String} {ref : ServiceBackendRef}
    (h : projectedBackend repo id = some ref) : ref.id = id ∧ id ≠ "" := by
  unfold projectedBackend at h
  cases hlive : repo.serviceBackendRefs.live? id with
  | none => rw [hlive] at h; cases h
  | some row =>
    have hid : row.id = id := Table.key_of_live? hlive
    rw [hlive, DomainEntryProjectionRow.backendRef] at h
    split at h
    · cases h
    · rename_i hne
      rw [← Option.some.inj h]
      exact ⟨hid, hid ▸ hne⟩

theorem eq_of_projectedBackend {id id' : String} {ref ref' : ServiceBackendRef}
    (h : projectedBackend repo id = some ref) (h' : projectedBackend repo id' = some ref')
    (hid : ref'.id = ref.id) : ref' = ref := by
  rw [(id_of_projectedBackend h).1, (id_of_projectedBackend h').1] at hid
  rw [hid, h] at h'
  exact (Option.some.inj h').symm

theorem shownBackend_iff {id : String} :
    shownBackend repo h id = true
      ↔ (∃ r ∈ shownRoutes repo h, r.backendRefID = id)
        ∧ ∃ ref, projectedBackend repo id = some ref := by
  simp only [shownBackend, any_eq_true, Bool.and_eq_true, decide_eq_true_eq,
    Option.isSome_iff_exists]
  constructor
  · rintro ⟨r, hr, hid, href⟩
    exact ⟨⟨r, hr, hid⟩, href⟩
  · rintro ⟨⟨r, hr, hid⟩, href⟩
    exact ⟨r, hr, hid, href⟩

theorem boundID_iff {id : String} :
    boundID repo h id = true ↔ ∃ ref, boundBackend repo h = some ref ∧ ref.id = id := by
  rw [boundID]
  cases boundBackend repo h <;> simp

theorem mem_shownRoutes {r : HTTPRoute} (hr : r ∈ shownRoutes repo h) :
    r ∈ sortedRoutes repo h := by
  unfold shownRoutes at hr
  split at hr
  · split at hr
    · cases hr
    · exact hr
  · cases hr

theorem mem_sortedRoutes_iff {r : HTTPRoute} :
    r ∈ sortedRoutes repo h ↔ repo.httpRoutes.live? r.id = some r ∧ r.hostname = h ∧ r.id ≠ "" := by
  rw [mem_sortedRoutes, mem_hostRoutes, and_assoc]

theorem projection_eq (repo : Repo) {de : DomainEndpoint}
    (hlive : repo.domainEndpoints.live? h = some de) :
    ∃ entry, repo.getDomainEntryProjectionByDomain h = .ok entry ∧ entry = projectionOf repo de
      ∧ entry.httpRoutes = (shownRoutes repo h).map (projectedRoute repo)
      ∧ entry.bindedBackendRef = boundBackend repo h := by
  have hhost : de.hostname = h := Table.key_of_live? hlive
  refine ⟨projectionOf repo de, ?_, rfl, ?_, ?_⟩
  · rw [getDomainEntryProjectionByDomain_eq, hlive]
    rfl
  · simp only [projectionOf, shownRoutes, hlive, hhost]
    split <;> rfl
  · simp only [projectionOf, boundBackend, hlive]
    rfl

/-! ## Fresh builders -/

namespace Builder

def Fresh (b : Builder) (repo : Repo) : Prop :=
  b.existingProjection = (repo.getDomainEntryProjectionByDomain b.hostname).toOption

def against (b : Builder) (repo : Repo) : Builder :=
  b.withExistingProjection (repo.getDomainEntryProjectionByDomain b.hostname).toOption

theorem fresh_against (b : Builder) (repo : Repo) : (b.against repo).Fresh repo := rfl

/-- What the calls on a builder ensure. -/
structure Built (b : Builder) : Prop where
  l4 : b.desiredBackendType.isL4 = b.desiredL4Backend.isSome
  paths : ∀ spec ∈ b.desiredRoutes, spec.path ≠ ""

theorem Built.isL4_of_some {b : Builder} (h : b.Built) {target : BackendTarget}
    (htarget : b.desiredL4Backend = some target) : b.desiredBackendType.isL4 = true := by
  rw [h.l4, htarget]
  rfl

theorem Built.isL4_of_none {b : Builder} (h : b.Built) (htarget : b.desiredL4Backend = none) :
    b.desiredBackendType.isL4 = false := by
  rw [h.l4, htarget]
  rfl

end Builder

theorem normalizeBuilderPath_ne_empty (path : String) : normalizeBuilderPath path ≠ "" := by
  unfold normalizeBuilderPath
  dsimp only
  split
  · decide
  · rename_i h
    rw [Bool.or_eq_true, not_or, decide_eq_true_eq] at h
    exact h.1

theorem Builder.Built.call {b : Builder} (h : b.Built) (c : BuilderCall) : (b.call c).Built := by
  cases c with
  | withExistingProjection _ | withExistingDNSRecords _ | wantDNS _ => exact ⟨h.l4, h.paths⟩
  | asL4TLSPassthrough _ | asL4TLSTermination _ =>
    exact ⟨rfl, fun _ hspec => absurd hspec not_mem_nil⟩
  | asL7HTTP | asL7HTTPS | asL7HTTPBoth => exact ⟨rfl, h.paths⟩
  | route path backend =>
    refine ⟨h.l4, fun spec hspec => ?_⟩
    rcases mem_append.mp hspec with hspec | hspec
    · exact h.paths spec hspec
    · rw [mem_singleton.mp hspec]
      exact normalizeBuilderPath_ne_empty path

theorem Builder.Built.against {b : Builder} (h : b.Built) (repo : Repo) : (b.against repo).Built :=
  ⟨h.l4, h.paths⟩

theorem built_builderOf (hostname : String) (calls : List BuilderCall) :
    (builderOf hostname calls).Built := by
  have hnew : (newBuilder hostname).Built := ⟨rfl, fun _ hspec => absurd hspec not_mem_nil⟩
  exact List.foldlRecOn calls Builder.call hnew fun _ h c _ => h.call c

/-! ## What a fresh builder sees -/

def currentRoute (repo : Repo) (h : String) (r : HTTPRoute) : HTTPRoute where
  id := r.id
  hostname := h
  path := r.path
  priority := r.priority
  backendRefID := ((projectedBackend repo r.backendRefID).map (·.id)).getD ""

namespace Builder

variable {b : Builder} {repo : Repo} (hfresh : b.Fresh repo)
include hfresh

theorem Fresh.projection :
    b.existingProjection = (repo.domainEndpoints.live? b.hostname).map (projectionOf repo) := by
  rw [hfresh, getDomainEntryProjectionByDomain_eq]
  cases repo.domainEndpoints.live? b.hostname <;> rfl

theorem Fresh.currentHTTPRoutes :
    b.currentHTTPRoutes = (shownRoutes repo b.hostname).map (currentRoute repo b.hostname) := by
  rw [Builder.currentHTTPRoutes, hfresh.projection, shownRoutes]
  cases hlive : repo.domainEndpoints.live? b.hostname with
  | none => rfl
  | some de =>
    have hhost : de.hostname = b.hostname := Table.key_of_live? hlive
    simp only [Option.map_some, projectionOf, hhost]
    split
    · rfl
    · rw [map_map]
      rfl

theorem Fresh.currentL4BackendRef : b.currentL4BackendRef = boundBackend repo b.hostname := by
  rw [Builder.currentL4BackendRef, hfresh.projection, boundBackend]
  cases repo.domainEndpoints.live? b.hostname <;> rfl

theorem Fresh.mem_currentL7BackendRefs {ref : ServiceBackendRef} :
    ref ∈ b.currentL7BackendRefs
      ↔ ∃ r ∈ shownRoutes repo b.hostname, projectedBackend repo r.backendRefID = some ref := by
  rw [Builder.currentL7BackendRefs, hfresh.projection]
  cases hlive : repo.domainEndpoints.live? b.hostname with
  | none => simp [shownRoutes, hlive]
  | some de =>
    have hroutes : (projectionOf repo de).httpRoutes
        = (shownRoutes repo b.hostname).map (projectedRoute repo) := by
      obtain ⟨entry, -, rfl, hroutes, -⟩ := projection_eq repo hlive
      exact hroutes
    have hmem : ∀ ref, ref ∈ ((projectionOf repo de).httpRoutes.filterMap
          (·.backendRef)).filter (·.id ≠ "")
        ↔ ∃ r ∈ shownRoutes repo b.hostname,
          projectedBackend repo r.backendRefID = some ref := by
      intro ref
      rw [hroutes, mem_filter, mem_filterMap]
      simp only [mem_map, exists_exists_and_eq_and, decide_eq_true_eq]
      constructor
      · rintro ⟨⟨r, hr, href⟩, -⟩
        exact ⟨r, hr, href⟩
      · rintro ⟨r, hr, href⟩
        obtain ⟨hid, hne⟩ := id_of_projectedBackend href
        exact ⟨⟨r, hr, href⟩, hid ▸ hne⟩
    rw [Option.map_some]
    dsimp only
    rw [mem_insertionSort, mem_values_byID, ← hmem]
    constructor
    · exact fun h => (key_of_get?_byID h).1
    · intro h
      refine get?_byID_of_mem h fun x hx hkey => ?_
      obtain ⟨r, -, href⟩ := (hmem ref).mp h
      obtain ⟨s, -, hxs⟩ := (hmem x).mp hx
      exact eq_of_projectedBackend href hxs hkey

theorem Fresh.get?_currentL7BackendRefs {id : String} {ref : ServiceBackendRef} :
    (byID b.currentL7BackendRefs).get? id = some ref
      ↔ shownBackend repo b.hostname id = true ∧ projectedBackend repo id = some ref := by
  constructor
  · intro h
    obtain ⟨hmem, hkey⟩ := key_of_get?_byID h
    obtain ⟨r, hr, href⟩ := hfresh.mem_currentL7BackendRefs.mp hmem
    obtain rfl : r.backendRefID = id := (id_of_projectedBackend href).1.symm.trans hkey
    exact ⟨shownBackend_iff.mpr ⟨⟨r, hr, rfl⟩, ref, href⟩, href⟩
  · rintro ⟨hshown, href⟩
    obtain ⟨⟨r, hr, rfl⟩, -⟩ := shownBackend_iff.mp hshown
    have hid := (id_of_projectedBackend href).1
    have hmem := hfresh.mem_currentL7BackendRefs.mpr ⟨r, hr, href⟩
    have hget := get?_byID_of_mem hmem fun x hx hkey => ?_
    · rw [← hid]
      exact hget
    · obtain ⟨s, -, hxs⟩ := hfresh.mem_currentL7BackendRefs.mp hx
      exact eq_of_projectedBackend href hxs hkey

theorem Fresh.any_currentL7BackendRefs (id : String) :
    (b.currentL7BackendRefs.any fun ref => ref.id = id) = shownBackend repo b.hostname id := by
  rw [Bool.eq_iff_iff, any_eq_true, shownBackend_iff]
  constructor
  · rintro ⟨ref, hmem, hid⟩
    obtain ⟨r, hr, href⟩ := hfresh.mem_currentL7BackendRefs.mp hmem
    obtain rfl : r.backendRefID = id :=
      (id_of_projectedBackend href).1.symm.trans (of_decide_eq_true hid)
    exact ⟨⟨r, hr, rfl⟩, ref, href⟩
  · rintro ⟨⟨r, hr, rfl⟩, ref, href⟩
    exact ⟨ref, hfresh.mem_currentL7BackendRefs.mpr ⟨r, hr, href⟩,
      decide_eq_true (id_of_projectedBackend href).1⟩

theorem Fresh.get?_currentHTTPRoutes {id : String} {x : HTTPRoute} :
    (byID b.currentHTTPRoutes).get? id = some x
      ↔ ∃ r ∈ shownRoutes repo b.hostname, r.id = id ∧ currentRoute repo b.hostname r = x := by
  rw [hfresh.currentHTTPRoutes]
  constructor
  · intro h
    obtain ⟨hmem, hkey⟩ := key_of_get?_byID h
    obtain ⟨r, hr, rfl⟩ := mem_map.mp hmem
    exact ⟨r, hr, hkey, rfl⟩
  · rintro ⟨r, hr, rfl, rfl⟩
    refine get?_byID_of_mem (mem_map_of_mem hr) fun x hx hkey => ?_
    obtain ⟨s, hs, rfl⟩ := mem_map.mp hx
    have hid : s.id = r.id := hkey
    have hrlive := (mem_sortedRoutes_iff.mp (mem_shownRoutes hr)).1
    have hslive := (mem_sortedRoutes_iff.mp (mem_shownRoutes hs)).1
    rw [hid, hrlive] at hslive
    rw [Option.some.inj hslive]

/-! ## The rows after the plan -/

omit hfresh

theorem backendRefID_ne_empty (key : String) : b.backendRefID key ≠ "" := fun h =>
  absurd (String.append_eq_empty_iff.mp (String.append_eq_empty_iff.mp h).1).2 (by decide)

theorem routeID_ne_empty (path : String) : b.routeID path ≠ "" := fun h =>
  absurd (String.append_eq_empty_iff.mp (String.append_eq_empty_iff.mp h).1).2 (by decide)

theorem backendRef_buildBackendRef (key : String) (target : BackendTarget) :
    DomainEntryProjectionRow.backendRef (some (b.buildBackendRef key target).withDefaults)
      = some (b.buildBackendRef key target) := by
  have htype : (b.buildBackendRef key target).type ≠ .unset := by
    rw [buildBackendRef]
    dsimp only
    split
    · decide
    · assumption
  have hdefaults : (b.buildBackendRef key target).withDefaults = b.buildBackendRef key target := by
    rw [ServiceBackendRef.withDefaults, if_neg htype]
  have hderef : derefServiceBackendType (b.buildBackendRef key target).type
      = (b.buildBackendRef key target).type := if_neg htype
  have hid : (b.buildBackendRef key target).id ≠ "" := backendRefID_ne_empty key
  rw [hdefaults, DomainEntryProjectionRow.backendRef, if_neg hid, hderef]
  rfl

variable {w r : HTTPRoute}

theorem exists_of_wantedRoutes (hw : w ∈ b.wantedRoutes) :
    ∃ spec ∈ b.desiredRoutes, w = b.buildRoute spec := by
  rw [wantedRoutes] at hw
  split at hw
  · cases hw
  · obtain ⟨spec, hspec, rfl⟩ := mem_map.mp hw
    exact ⟨spec, hspec, rfl⟩

def wantedRoute (b : Builder) (id : String) : Option HTTPRoute := (byID b.wantedRoutes).get? id

theorem wantedRoute_spec {id : String} (h : b.wantedRoute id = some w) :
    w.id = id ∧ ∃ spec ∈ b.desiredRoutes, w = b.buildRoute spec := by
  obtain ⟨hmem, hkey⟩ := key_of_get?_byID h
  exact ⟨hkey, exists_of_wantedRoutes hmem⟩

def wantedBackend (b : Builder) (id : String) : Option ServiceBackendRef :=
  (byID b.buildDesiredL7Resources.2).get? id

/-- A backend after a plan of layer 7: the one bound before is gone, even
if it is wanted. -/
def projectedAfter (b : Builder) (repo : Repo) (id : String) : Option ServiceBackendRef :=
  if boundID repo b.hostname id then none
  else match b.wantedBackend id with
    | some w => some w
    | none => if shownBackend repo b.hostname id then none else projectedBackend repo id

theorem unbound_of_projectedAfter {id : String} (h : (b.projectedAfter repo id).isSome = true) :
    boundID repo b.hostname id = false := by
  cases hbound : boundID repo b.hostname id with
  | false => rfl
  | true =>
    rw [projectedAfter, hbound] at h
    cases h

include hfresh

theorem live_of_current {id : String} (hw : b.wantedRoute id = some w)
    (hcur : (byID b.currentHTTPRoutes).get? id = some w) : repo.httpRoutes.live? id = some w := by
  obtain ⟨r, hr, rfl, hsame⟩ := hfresh.get?_currentHTTPRoutes.mp hcur
  obtain ⟨hlive, hhost, -⟩ := mem_sortedRoutes_iff.mp (mem_shownRoutes hr)
  obtain ⟨-, spec, -, rfl⟩ := wantedRoute_spec hw
  rw [hlive]
  have hdel : r.deleted = false := (Table.live?_eq_some_iff.mp hlive).2
  have hbackend : r.backendRefID = b.backendRefID spec.path := by
    have hid : ((projectedBackend repo r.backendRefID).map (·.id)).getD ""
        = b.backendRefID spec.path := congrArg HTTPRoute.backendRefID hsame
    cases href : projectedBackend repo r.backendRefID with
    | none =>
      rw [href] at hid
      exact absurd hid.symm (backendRefID_ne_empty spec.path)
    | some ref =>
      rw [href] at hid
      exact (id_of_projectedBackend href).1.symm.trans hid
  obtain ⟨deleted, id, hostname, path, priority, backendRefID⟩ := r
  cases hdel
  cases hhost
  cases hbackend
  rw [← hsame]
  simp only [currentRoute, Option.some.injEq]
  exact congrArg (HTTPRoute.mk _ _ _ _ _) (congrArg HTTPRoute.backendRefID hsame).symm

/-- A route after the plan: the wanted one, or none where one was shown,
or the one before. -/
theorem route_after (hbuilt : b.Built) (id : String) :
    (b.plan.write repo).httpRoutes.live? id
      = match b.wantedRoute id with
        | some w => some w
        | none =>
          if (shownRoutes repo b.hostname).any fun r => r.id = id then none
          else repo.httpRoutes.live? id := by
  rw [live_wantedRoute, rowAfter]
  cases hw : b.wantedRoute id with
  | some w =>
    obtain ⟨-, spec, hspec, rfl⟩ := wantedRoute_spec hw
    rw [show (byID b.wantedRoutes).get? id = some (b.buildRoute spec) from hw]
    dsimp only
    split
    · rename_i hcur
      exact live_of_current hfresh hw hcur
    · exact congrArg some (congrArg (fun p => { b.buildRoute spec with path := p })
        (if_neg (hbuilt.paths spec hspec)))
  | none =>
    rw [show (byID b.wantedRoutes).get? id = none from hw]
    dsimp only
    refine if_congr ?_ rfl rfl
    rw [Option.isSome_iff_exists, any_eq_true]
    simp only [hfresh.get?_currentHTTPRoutes, decide_eq_true_eq]
    constructor
    · rintro ⟨_, r, hr, hid, -⟩
      exact ⟨r, hr, hid⟩
    · rintro ⟨r, hr, hid⟩
      exact ⟨_, r, hr, hid, rfl⟩

theorem backend_after_l7 (hl7 : b.desiredBackendType.isL4 = false) (id : String) :
    projectedBackend (b.plan.write repo) id = b.projectedAfter repo id := by
  rw [projectedBackend, live_backend repo hl7, backendAfter, hfresh.currentL4BackendRef,
    projectedAfter]
  cases hbound : boundID repo b.hostname id with
  | true =>
    rw [if_pos (show (boundBackend repo b.hostname).any _ = true from hbound)]
    rfl
  | false =>
    rw [if_neg (by rw [show (boundBackend repo b.hostname).any _ = false from hbound]; decide),
      if_neg Bool.false_ne_true, rowAfter]
    rw [wantedBackend]
    cases hw : (byID b.buildDesiredL7Resources.2).get? id with
    | some w =>
      obtain ⟨spec, -, rfl⟩ := mem_map.mp (key_of_get?_byID hw).1
      dsimp only
      split
      · rename_i hcur
        exact (hfresh.get?_currentL7BackendRefs.mp hcur).2
      · exact backendRef_buildBackendRef spec.path spec.backend
    | none =>
      dsimp only
      have hsome : ((byID b.currentL7BackendRefs).get? id).isSome
          = shownBackend repo b.hostname id := by
        rw [Bool.eq_iff_iff, Option.isSome_iff_exists]
        simp only [hfresh.get?_currentL7BackendRefs]
        constructor
        · rintro ⟨_, hshown, -⟩
          exact hshown
        · intro hshown
          obtain ⟨-, ref, href⟩ := shownBackend_iff.mp hshown
          exact ⟨ref, hshown, href⟩
      rw [hsome]
      split <;> rfl

/-- A backend after a plan of layer 4: the ones shown by routes before are
gone, even the one that the plan has just bound. -/
theorem backend_after_l4 {target : BackendTarget} (hl4 : b.desiredBackendType.isL4 = true)
    (htarget : b.desiredL4Backend = some target) (id : String) :
    projectedBackend (b.plan.write repo) id
      = if shownBackend repo b.hostname id then none
        else if b.backendRefID "l4" = id then some (b.buildBackendRef "l4" target)
        else projectedBackend repo id := by
  rw [projectedBackend, live_backend_l4 repo hl4 htarget, hfresh.any_currentL7BackendRefs,
    hfresh.currentL4BackendRef]
  split
  · rfl
  · split
    · rename_i hid
      split
      · -- the bound backend is already the wanted one
        rename_i hbound
        unfold boundBackend at hbound
        split at hbound
        · split at hbound
          · have hsame := (id_of_projectedBackend hbound).1
            rw [← hsame, show (b.buildBackendRef "l4" target).id = id from hid] at hbound
            exact hbound
          · cases hbound
        · cases hbound
      · exact backendRef_buildBackendRef "l4" target
    · rfl

theorem endpoint_after (hbuilt : b.Built) :
    ∃ de, (b.plan.write repo).domainEndpoints.live? b.hostname = some de
      ∧ de.needCert = b.desiredNeedCert ∧ de.backendType = b.desiredBackendType
      ∧ (b.desiredBackendType.isL4 = true → de.bindedServiceID = b.backendRefID "l4") := by
  rw [live_endpoint, endpointAfter]
  split
  · rename_i hsame
    rw [currentDomainEndpoint, hfresh.projection] at hsame
    cases hlive : repo.domainEndpoints.live? b.hostname with
    | none => rw [hlive] at hsame; cases hsame
    | some de =>
      rw [hlive, Option.map_some, Option.map_some] at hsame
      have hsame := Option.some.inj hsame
      refine ⟨de, rfl, congrArg DomainEndpoint.needCert hsame,
        congrArg DomainEndpoint.backendType hsame, fun hl4 => ?_⟩
      have htype : de.backendType = b.desiredBackendType :=
        congrArg DomainEndpoint.backendType hsame
      have hbound : (projectionOf repo de).bindedBackendRef
          = projectedBackend repo de.bindedServiceID := if_pos (htype ▸ hl4)
      have hid := congrArg DomainEndpoint.bindedServiceID hsame
      simp only [buildDesiredDomainEndpoint, hbound, ← hbuilt.l4, hl4, if_true] at hid
      cases href : projectedBackend repo de.bindedServiceID with
      | none =>
        rw [href] at hid
        exact absurd hid.symm (backendRefID_ne_empty "l4")
      | some ref =>
        rw [href] at hid
        exact (id_of_projectedBackend href).1.symm.trans hid
  · refine ⟨_, rfl, rfl, rfl, fun hl4 => ?_⟩
    rw [buildDesiredDomainEndpoint, ← hbuilt.l4, hl4]
    rfl

theorem shownRoutes_after (hbuilt : b.Built) :
    shownRoutes (b.plan.write repo) b.hostname
      = if b.desiredBackendType.isL4 then []
        else sortedRoutes (b.plan.write repo) b.hostname := by
  obtain ⟨de, hlive, -, htype, -⟩ := endpoint_after hfresh hbuilt
  rw [shownRoutes, hlive]
  dsimp only
  rw [htype]

theorem boundBackend_after (hbuilt : b.Built) :
    boundBackend (b.plan.write repo) b.hostname
      = if b.desiredBackendType.isL4 then
          projectedBackend (b.plan.write repo) (b.backendRefID "l4")
        else none := by
  obtain ⟨de, hlive, -, htype, hbinded⟩ := endpoint_after hfresh hbuilt
  rw [boundBackend, hlive]
  dsimp only
  rw [htype]
  split
  · rename_i hl4
    rw [hbinded hl4]
  · rfl

/-! ## The routes of a host after the plan -/

omit hfresh in
theorem any_shownRoutes {g : String} (hr : repo.httpRoutes.live? r.id = some r) :
    ((shownRoutes repo g).any fun s => s.id = r.id) = decide (r ∈ shownRoutes repo g) := by
  rw [Bool.eq_iff_iff, any_eq_true, decide_eq_true_eq]
  constructor
  · rintro ⟨s, hs, hid⟩
    have hlive := (mem_sortedRoutes_iff.mp (mem_shownRoutes hs)).1
    rw [of_decide_eq_true hid, hr] at hlive
    rwa [Option.some.inj hlive]
  · exact fun h => ⟨r, h, decide_eq_true rfl⟩

omit hfresh in
theorem hostname_of_wantedRoute {id : String} (h : b.wantedRoute id = some w) :
    w.hostname = b.hostname ∧ w.id ≠ "" := by
  obtain ⟨-, spec, -, rfl⟩ := wantedRoute_spec h
  exact ⟨rfl, routeID_ne_empty spec.path⟩

/-- Routes of the host that its projection does not show and the plan
does not overwrite. -/
def hiddenRoutes (b : Builder) (repo : Repo) : List HTTPRoute :=
  (sortedRoutes repo b.hostname).filter fun r =>
    decide (r ∉ shownRoutes repo b.hostname) && (b.wantedRoute r.id).isNone

omit hfresh in
theorem wantedRoute_of_hidden (hr : r ∈ b.hiddenRoutes repo) : b.wantedRoute r.id = none :=
  Option.isNone_iff_eq_none.mp (Bool.and_eq_true_iff.mp (mem_filter.mp hr).2).2

theorem mem_sortedRoutes_after (hbuilt : b.Built) :
    r ∈ sortedRoutes (b.plan.write repo) b.hostname
      ↔ b.wantedRoute r.id = some r ∨ r ∈ b.hiddenRoutes repo := by
  rw [mem_sortedRoutes_iff, route_after hfresh hbuilt, hiddenRoutes, mem_filter,
    mem_sortedRoutes_iff, Bool.and_eq_true, decide_eq_true_eq, Option.isNone_iff_eq_none]
  cases hw : b.wantedRoute r.id with
  | some w =>
    simp only [Option.some.injEq, reduceCtorEq, and_false, or_false]
    constructor
    · exact fun h => h.1
    · rintro rfl
      exact ⟨rfl, hostname_of_wantedRoute hw⟩
  | none =>
    simp only [reduceCtorEq, false_or, and_true]
    constructor
    · rintro ⟨hlive, hhost⟩
      split at hlive
      · cases hlive
      · rename_i hshown
        rw [any_shownRoutes hlive, decide_eq_true_eq] at hshown
        exact ⟨⟨hlive, hhost⟩, hshown⟩
    · rintro ⟨⟨hlive, hhost⟩, hshown⟩
      rw [any_shownRoutes hlive, decide_eq_false hshown]
      exact ⟨hlive, hhost⟩

/-- Of another host the plan can only take routes away. -/
theorem sortedRoutes_after_of_ne (hbuilt : b.Built) {g : String} (hg : b.hostname ≠ g) :
    sortedRoutes (b.plan.write repo) g
      = (sortedRoutes repo g).filter fun r => (b.wantedRoute r.id).isNone := by
  have : Std.Irrefl fun r s : HTTPRoute =>
      routeKey r.priority r.path r.id < routeKey s.priority s.path s.id :=
    ⟨fun _ => lt_irrefl _⟩
  refine (pairwise_sortedRoutes _ g).eq_of_mem_iff ((pairwise_sortedRoutes repo g).filter _)
    fun r => ?_
  rw [mem_filter, mem_sortedRoutes_iff, mem_sortedRoutes_iff, route_after hfresh hbuilt,
    Option.isNone_iff_eq_none]
  cases hw : b.wantedRoute r.id with
  | some w =>
    simp only [Option.some.injEq, reduceCtorEq, and_false, iff_false]
    rintro ⟨rfl, hhost, -⟩
    exact hg ((hostname_of_wantedRoute hw).1.symm.trans hhost)
  | none =>
    simp only [and_true]
    constructor
    · rintro ⟨hlive, hhost⟩
      split at hlive
      · cases hlive
      · exact ⟨hlive, hhost⟩
    · rintro ⟨hlive, hhost, hid⟩
      have hnot : r ∉ shownRoutes repo b.hostname := fun hr =>
        hg ((mem_sortedRoutes_iff.mp (mem_shownRoutes hr)).2.1.symm.trans hhost)
      rw [any_shownRoutes hlive, decide_eq_false hnot]
      exact ⟨hlive, hhost, hid⟩

end Builder

end Lnctl

end LunaEdge
