import LunaEdge.BridgeCalls

/-!
# Rows the bridges do not own

The bridges mark their rows with ids that start with `k8s:`. Backends are
checked for such an id before they are dropped; routes are not, and
neither is the endpoint of a host. A turn that writes a host or removes it
takes the routes of the host along, whoever made them, and a host that is
named without ever being materialised loses its endpoint.

So a call keeps to its own rows exactly if at every turn there is nothing
to do, or the routes of the host are all the bridges' and the host has
been materialised (`own_rows_only_iff`). Where this is so for every host
at the start, no failure on the way changes anything.
-/

namespace LunaEdge

open Session List

namespace K8sBridge

def ownID (id : String) : Bool := Go.hasPrefix id "k8s:"

/-- Rows of others stay as they are, and an endpoint is not deleted unless
its host has been materialised. -/
structure OwnRowsOnly (materialised : String → Prop) (repo repo' : Repo) : Prop where
  routes : ∀ id, ownID id = false → repo'.httpRoutes.find? id = repo.httpRoutes.find? id
  backends : ∀ id, ownID id = false →
    repo'.serviceBackendRefs.find? id = repo.serviceBackendRefs.find? id
  endpoints : ∀ h d, ¬ materialised h → repo.domainEndpoints.live? h = some d →
    repo'.domainEndpoints.live? h = some d

/-- The same with nothing coming to life. -/
structure Frame (materialised : String → Prop) (repo repo' : Repo) : Prop where
  routes : ∀ id, ownID id = false → repo'.httpRoutes.find? id = repo.httpRoutes.find? id
  backends : ∀ id, ownID id = false →
    repo'.serviceBackendRefs.find? id = repo.serviceBackendRefs.find? id
  endpoints : ∀ h, ¬ materialised h →
    repo'.domainEndpoints.live? h = repo.domainEndpoints.live? h

variable {P : String → Prop} {repo : Repo} {h : String} {item : DomainMaterialized}

namespace Frame

theorem ownRowsOnly {repo' : Repo} (hf : Frame P repo repo') : OwnRowsOnly P repo repo' :=
  ⟨hf.routes, hf.backends, fun h _ hnot hlive => (hf.endpoints h hnot).trans hlive⟩

theorem refl (repo : Repo) : Frame P repo repo := ⟨fun _ _ => rfl, fun _ _ => rfl, fun _ _ => rfl⟩

theorem trans {repo₁ repo₂ repo₃ : Repo} (hf : Frame P repo₁ repo₂) (hf' : Frame P repo₂ repo₃) :
    Frame P repo₁ repo₃ :=
  ⟨fun id hid => (hf'.routes id hid).trans (hf.routes id hid),
    fun id hid => (hf'.backends id hid).trans (hf.backends id hid),
    fun h hnot => (hf'.endpoints h hnot).trans (hf.endpoints h hnot)⟩

theorem foldl {β : Type} {g : Repo → β → Repo} {l : List β}
    (hstep : ∀ b ∈ l, ∀ repo, Frame P repo (g repo b)) (repo : Repo) :
    Frame P repo (l.foldl g repo) := by
  induction l generalizing repo with
  | nil => exact refl repo
  | cons b l ih =>
    rw [foldl_cons]
    exact (hstep b mem_cons_self repo).trans
      (ih (fun b' hb' => hstep b' (mem_cons_of_mem b hb')) _)

/-! ## Statements -/

theorem ne_of_own {id id' : String} (hown : ownID id = true) (hid : ownID id' = false) :
    id ≠ id' := by
  rintro rfl
  rw [hown] at hid
  cases hid

theorem upsertRoute {r : HTTPRoute} (hown : ownID r.id = true) (repo : Repo) :
    Frame P repo (repo.upsertResource r) :=
  ⟨fun _ hid => Table.find?_upsertResource_of_ne _ (ne_of_own hown hid), fun _ _ => rfl,
    fun _ _ => rfl⟩

theorem upsertBackend {b : ServiceBackendRef} (hown : ownID b.id = true) (repo : Repo) :
    Frame P repo (repo.upsertResource b) :=
  ⟨fun _ _ => rfl, fun _ hid => Table.find?_upsertResource_of_ne _ (ne_of_own hown hid),
    fun _ _ => rfl⟩

theorem upsertEndpoint {d : DomainEndpoint} (hd : P d.hostname) (repo : Repo) :
    Frame P repo (repo.upsertResource d) := by
  refine ⟨fun _ _ => rfl, fun _ _ => rfl, fun h hnot => ?_⟩
  refine Table.live?_upsertResource_of_ne repo.domainEndpoints fun hk => hnot ?_
  rw [← hk]
  exact hd

theorem retireRoute {id : String} (hown : ownID id = true) (repo : Repo) :
    Frame P repo (repo.retire HTTPRoute id) :=
  ⟨fun _ hid => Table.find?_retire_of_ne _ (ne_of_own hown hid), fun _ _ => rfl, fun _ _ => rfl⟩

theorem retireBackend {id : String} (hown : ownID id = true) (repo : Repo) :
    Frame P repo (repo.retire ServiceBackendRef id) :=
  ⟨fun _ _ => rfl, fun _ hid => Table.find?_retire_of_ne _ (ne_of_own hown hid), fun _ _ => rfl⟩

theorem retireEndpoint (hh : P h) (repo : Repo) : Frame P repo (repo.retire DomainEndpoint h) := by
  refine ⟨fun _ _ => rfl, fun _ _ => rfl, fun h' hnot => ?_⟩
  refine (Table.live?_retire repo.domainEndpoints h h').trans (if_neg ?_)
  rintro rfl
  exact hnot hh

theorem ownID_of_managedBackend {id : String} (hid : managedBackend id = true) :
    ownID id = true := by
  have hprefix : "k8s:".toList <+: "k8s:backend:".toList := by decide
  rw [managedBackend, Go.hasPrefix, List.isPrefixOf_iff_prefix] at hid
  rw [ownID, Go.hasPrefix, List.isPrefixOf_iff_prefix]
  exact hprefix.trans hid

theorem dropBackend (keep : List String) (id : String) (repo : Repo) :
    Frame P repo (repo.dropBackend keep id) := by
  unfold Repo.dropBackend
  split
  · rename_i hid
    exact retireBackend (ownID_of_managedBackend hid.1) repo
  · exact refl repo

theorem dropRoute (keep : List String) {r : HTTPRoute} (hown : ownID r.id = true) (repo : Repo) :
    Frame P repo (repo.dropRoute keep r) :=
  (retireRoute hown repo).trans (dropBackend keep _ _)

end Frame

/-! ## Turns -/

theorem ownID_colons {fields : List String} (hne : fields ≠ []) :
    ownID (Go.colons ("k8s" :: fields)) = true := by
  cases fields with
  | nil => exact absurd rfl hne
  | cons f fs =>
    have happ : Go.colons ("k8s" :: f :: fs) = "k8s:" ++ Go.colons (f :: fs) := by
      rw [← String.toList_inj]
      simp [Go.colons, intercalate_cons_cons]
    rw [ownID, happ]
    exact Go.hasPrefix_append _ _

theorem Linked.own_route (hi : Linked h item) {r : HTTPRoute} (hr : r ∈ item.routes) :
    ownID r.id = true := by
  obtain ⟨-, -, fields, -, -, hid, -⟩ := hi.routes r hr
  rw [hid]
  exact ownID_colons (cons_ne_nil _ _)

theorem Linked.own_backend (hi : Linked h item) {b : ServiceBackendRef} (hb : b ∈ item.backends) :
    ownID b.id = true := by
  obtain ⟨-, ⟨fields, -, hid⟩, -⟩ := hi.backends b hb
  rw [hid]
  exact ownID_colons (cons_ne_nil _ _)

def Materialised (calls : List SyncCall) (h : String) : Prop :=
  ∃ c ∈ calls, (c.next.get? h).isSome = true

namespace SyncCall

variable {c : SyncCall}

/-- Nothing is to be done for the host, or only what the bridges may do. -/
def Spares (c : SyncCall) (materialised : String → Prop) (repo : Repo) (h : String) : Prop :=
  c.Settled repo h ∨ (∀ r ∈ repo.listHTTPRoutesByHostname h, ownID r.id = true) ∧ materialised h

theorem frame_replaceRows {existing : Option DomainEndpoint} {stale : List HTTPRoute}
    (hi : Linked h item) (hh : P h) (hstale : ∀ r ∈ stale, ownID r.id = true) (repo : Repo) :
    Frame P repo (replaceRows item existing stale repo) := by
  have hd : P item.domain.hostname := hi.hostname.symm ▸ hh
  refine (Frame.upsertEndpoint hd repo).trans ?_
  refine (Frame.foldl (fun b hb => Frame.upsertBackend (hi.own_backend hb)) _).trans ?_
  refine (Frame.foldl (fun r hr => Frame.upsertRoute (hi.own_route hr)) _).trans ?_
  refine (Frame.foldl (fun r hr =>
    Frame.dropRoute (item.backends.map (·.id)) (hstale r hr)) _).trans ?_
  exact Frame.foldl (fun d _ => Frame.dropBackend _ _) _

theorem frame_removeRows {domain : DomainEndpoint} {routes : List HTTPRoute}
    (hh : P domain.hostname) (hroutes : ∀ r ∈ routes, ownID r.id = true) (repo : Repo) :
    Frame P repo (removeRows domain routes repo) :=
  ((Frame.foldl (fun r hr => Frame.dropRoute [] (hroutes r hr)) repo).trans
    (Frame.dropBackend [] _ _)).trans (Frame.retireEndpoint hh _)

theorem Spares.frame (hs : c.Spares P repo h) : Frame P repo (c.change repo h).2 := by
  cases c.turn repo h with
  | settled _ hchange =>
    rw [hchange]
    exact Frame.refl repo
  | removed domain _ hlive hnot hchange =>
    obtain ⟨hown, hh⟩ := hs.resolve_left hnot
    obtain rfl : domain.hostname = h := Table.key_of_live? hlive
    rw [hchange]
    exact frame_removeRows hh hown repo
  | replaced item stale hitem hnot hstale hchange =>
    obtain ⟨hown, hh⟩ := hs.resolve_left hnot
    rw [hchange]
    exact frame_replaceRows (Bridge.linked hitem) hh
      (fun r hr => hown r ((hstale r).mp hr).1) repo

/-! ## What is lost stays lost -/

theorem route_dead {id : String} (hid : ownID id = false)
    (hdead : repo.httpRoutes.live? id = none) :
    (c.change repo h).2.httpRoutes.live? id = none := by
  cases c.turn repo h with
  | settled _ hchange =>
    rw [hchange]
    exact hdead
  | removed domain _ _ _ hchange =>
    rw [hchange, removeRows_routes, hdead, ite_self]
  | replaced item stale hitem _ _ hchange =>
    have hi := Bridge.linked hitem
    have hnone : lastByID (·.id) item.routes id = none :=
      lastByID_eq_none fun r hr => Frame.ne_of_own (hi.own_route hr) hid
    rw [hchange, replaceRows_routes fun r hr => (hi.routes r hr).1, hnone, hdead]
    exact ite_self none

theorem endpoint_dead {k : String} (hk : c.next.get? k = none)
    (hdead : repo.domainEndpoints.live? k = none) :
    (c.change repo h).2.domainEndpoints.live? k = none := by
  cases c.turn repo h with
  | settled _ hchange =>
    rw [hchange]
    exact hdead
  | removed domain _ _ _ hchange =>
    rw [hchange, removeRows_domains, hdead, ite_self]
  | replaced item stale hitem _ _ hchange =>
    have hne : Keyed.key item.domain ≠ k := by
      intro heq
      have hhost : h = k := (Bridge.linked hitem).hostname.symm.trans heq
      rw [hhost, hk] at hitem
      cases hitem
    rw [hchange, replaceRows_domains, Table.live?_upsertResource_of_ne _ hne, hdead]

theorem route_dead_after {id : String} (hid : ownID id = false) (hosts : List String)
    (hdead : repo.httpRoutes.live? id = none) :
    (c.after repo hosts).httpRoutes.live? id = none := by
  induction hosts generalizing repo with
  | nil => exact hdead
  | cons h hosts ih => exact ih (route_dead hid hdead)

theorem endpoint_dead_after {k : String} (hk : c.next.get? k = none) (hosts : List String)
    (hdead : repo.domainEndpoints.live? k = none) :
    (c.after repo hosts).domainEndpoints.live? k = none := by
  induction hosts generalizing repo with
  | nil => exact hdead
  | cons h hosts ih => exact ih (endpoint_dead hk hdead)

/-- A route of others that is listed at a turn is lost, unless the host is
settled. -/
theorem foreign_route_lost (hnot : ¬ c.Settled repo h) {r : HTTPRoute}
    (hr : r ∈ repo.listHTTPRoutesByHostname h) (hid : ownID r.id = false) :
    (c.change repo h).2.httpRoutes.live? r.id = none := by
  cases c.turn repo h with
  | settled hsettled _ => exact absurd hsettled hnot
  | removed domain _ _ _ hchange =>
    rw [hchange, removeRows_routes, if_pos (mem_map.mpr ⟨r, hr, rfl⟩)]
  | replaced item stale hitem _ hstale hchange =>
    have hi := Bridge.linked hitem
    rw [hchange, replaceRows_routes fun r hr => (hi.routes r hr).1, if_pos]
    refine mem_map.mpr ⟨r, (hstale r).mpr ⟨hr, fun hx => ?_⟩, rfl⟩
    obtain ⟨r', hr', heq⟩ := mem_map.mp hx
    exact Frame.ne_of_own (hi.own_route hr') hid heq

theorem endpoint_lost (hnot : ¬ c.Settled repo h) (hnone : c.next.get? h = none) :
    (c.change repo h).2.domainEndpoints.live? h = none ∧ repo.domainEndpoints.live? h ≠ none := by
  cases c.turn repo h with
  | settled hsettled _ => exact absurd hsettled hnot
  | removed domain _ hlive _ hchange =>
    have hhost : domain.hostname = h := Table.key_of_live? hlive
    refine ⟨?_, by rw [hlive]; exact Option.some_ne_none domain⟩
    rw [hchange, removeRows_domains, if_pos hhost]
  | replaced item _ hitem _ _ _ =>
    rw [hnone] at hitem
    cases hitem

/-- Along turns that spare the rows of others these rows stay, and every
other turn costs one. -/
theorem ownRowsOnly_after_iff (hP : ∀ h, (c.next.get? h).isSome = true → P h)
    (hosts : List String) :
    OwnRowsOnly P repo (c.after repo hosts) ↔ ∀ t ∈ c.turns repo hosts, c.Spares P t.1 t.2 := by
  constructor
  · rintro ⟨hroutes, -, hendpoints⟩ t ht
    by_contra hnot
    obtain ⟨hsettled, hnot⟩ := not_or.mp hnot
    obtain ⟨before, later, rfl, htables⟩ := split_of_turn ht
    have hend : c.after repo (before ++ t.2 :: later) = c.after (c.change t.1 t.2).2 later := by
      rw [after_append, ← htables]
      rfl
    rw [hend] at hroutes hendpoints
    by_cases hown : ∀ r ∈ t.1.listHTTPRoutesByHostname t.2, ownID r.id = true
    · have hnever : ¬ P t.2 := fun hp => hnot ⟨hown, hp⟩
      have hnone : c.next.get? t.2 = none :=
        Option.not_isSome_iff_eq_none.mp fun hsome => hnever (hP t.2 hsome)
      obtain ⟨hlost, hlive⟩ := endpoint_lost hsettled hnone
      cases hstart : repo.domainEndpoints.live? t.2 with
      | none => exact hlive (htables ▸ endpoint_dead_after hnone before hstart)
      | some d =>
        have hkept := hendpoints t.2 d hnever hstart
        rw [endpoint_dead_after hnone later hlost] at hkept
        cases hkept
    · obtain ⟨r, hr, hid⟩ : ∃ r ∈ t.1.listHTTPRoutesByHostname t.2, ownID r.id = false := by
        simpa using hown
      have hlost := foreign_route_lost hsettled hr hid
      have hlive := (Repo.mem_listHTTPRoutesByHostname.mp hr).1
      cases hstart : repo.httpRoutes.live? r.id with
      | none =>
        rw [htables, route_dead_after hid before hstart] at hlive
        cases hlive
      | some r₀ =>
        have hkept : (c.after (c.change t.1 t.2).2 later).httpRoutes.live? r.id = some r₀ := by
          rw [Table.live?, hroutes r.id hid]
          exact hstart
        rw [route_dead_after hid later hlost] at hkept
        cases hkept
  · intro hspares
    refine Frame.ownRowsOnly ?_
    induction hosts generalizing repo with
    | nil => exact Frame.refl repo
    | cons h hosts ih =>
      exact (hspares (repo, h) mem_cons_self).frame.trans
        (ih fun t ht => hspares t (mem_cons_of_mem _ ht))

end SyncCall

end K8sBridge

/-! ## Calls with failures -/

namespace MasterM

open K8sBridge

variable {P : String → Prop} {m : Master} {h : String}

abbrev Framed (P : String → Prop) (m t : Master) : Prop := Frame P m.repo t.repo

theorem Framed.refl (m : Master) : Framed P m m := Frame.refl m.repo

theorem Framed.of_eq {t : Master} (ht : t = m) : Framed P m t := by
  subst ht
  exact Framed.refl t

theorem Framed.trans (m₁ m₂ m₃ : Master) (hf : Framed P m₁ m₂) (hf' : Framed P m₂ m₃) :
    Framed P m₁ m₃ := Frame.trans hf hf'

theorem framed_upsertResource {ρ : Type} [Stored ρ] {r : ρ}
    (hf : ∀ repo : Repo, Frame P repo (repo.upsertResource r)) :
    Keeps (Framed P) (upsertResource r) :=
  Keeps.update Framed.refl fun m => hf m.repo

theorem framed_deleteResourceByField {ρ : Type} [Stored ρ] {field k : String}
    (hfield : field = Resource.primaryColumn ρ)
    (hf : ∀ repo : Repo, Frame P repo (repo.retire ρ k)) :
    Keeps (Framed P) (deleteResourceByField ρ field k) := by
  refine Keeps.statement Framed.refl fun m a t hrun => ?_
  rw [hfield, Repo.deleteResourceByField, Table.deleteResourceByField_primary] at hrun
  cases hrun
  exact hf m.repo

theorem framed_dropBackend (keep : List String) (id : String) :
    Keeps (Framed P) (dropBackend keep id) := by
  unfold dropBackend
  split
  · rename_i hid
    exact framed_deleteResourceByField rfl
      (Frame.retireBackend (Frame.ownID_of_managedBackend hid.1))
  · exact Keeps.pure Framed.refl ()

theorem framed_dropRoute (keep : List String) {r : HTTPRoute} (hown : ownID r.id = true) :
    Keeps (Framed P) (dropRoute keep r) :=
  (framed_deleteResourceByField rfl (Frame.retireRoute hown)).bind Framed.trans
    fun _ => framed_dropBackend keep _

theorem within_orNothing {α : Type} (f : Master → Except RepoError α) :
    Within (orNothing (query f)) m fun r t => t = m ∧ ∀ a, r = .ok (some a) → f m = .ok a := by
  refine Within.bind (P := fun r t => t = m ∧ ∀ a, r = .ok (.ok a) → f m = .ok a)
    (Within.attempt (Within.query (fun e => ⟨rfl, by simp⟩) fun a ha => ⟨rfl, ?_⟩)) ?_ ?_
  · rintro a' heq
    rw [ha, ← Except.ok.inj (Except.ok.inj heq)]
  · rintro e t ⟨rfl, -⟩
    exact ⟨rfl, by simp⟩
  · rintro r t ⟨rfl, hr⟩
    rcases r with (_ | _ | _) | a
    · exact Within.pure ⟨rfl, by simp⟩
    · exact Within.fail ⟨rfl, by simp⟩
    · exact Within.fail ⟨rfl, by simp⟩
    · refine Within.pure ⟨rfl, fun a' heq => ?_⟩
      rw [hr a rfl, Option.some.inj (Except.ok.inj heq)]

theorem framed_upsertManagedDomain {range : List HTTPRoute → List HTTPRoute}
    (hrange : ∀ l, (range l).Perm l) {item : DomainMaterialized} (hi : Linked h item) (hh : P h)
    (hown : ∀ r ∈ m.repo.listHTTPRoutesByHostname h, ownID r.id = true) :
    Within (upsertManagedDomain range item) m fun _ t => Framed P m t := by
  unfold upsertManagedDomain
  rw [hi.hostname]
  refine Within.bind (within_orNothing _) (fun _ _ ht => Framed.of_eq ht.1) ?_
  rintro existing m ⟨rfl, -⟩
  refine Within.bind (within_orNothing _) (fun _ _ ht => Framed.of_eq ht.1) ?_
  rintro currentRoutes m ⟨rfl, hread⟩
  -- the routes listed are the bridges', or none were listed
  have hroutes : ∀ r ∈ currentRoutes.getD [], ownID r.id = true := by
    cases currentRoutes with
    | none => exact fun r hr => nomatch hr
    | some routes =>
      have heq : Except.ok (m.repo.listHTTPRoutesByHostname h) = Except.ok routes :=
        hread routes rfl
      rw [← Except.ok.inj heq]
      exact hown
  refine Within.bind (within_orNothing _) (fun _ _ ht => Framed.of_eq ht.1) ?_
  rintro currentBackends m ⟨rfl, -⟩
  dsimp only
  split
  · exact Within.pure (Framed.refl m)
  · suffices hkeeps : Keeps (Framed P) _ from hkeeps m
    have hd : P item.domain.hostname := hi.hostname.symm ▸ hh
    refine (framed_upsertResource (Frame.upsertEndpoint hd)).bind Framed.trans fun _ => ?_
    refine (Keeps.forM Framed.refl Framed.trans fun b hb =>
      framed_upsertResource (Frame.upsertBackend (hi.own_backend hb))).bind Framed.trans fun _ => ?_
    refine (Keeps.forM Framed.refl Framed.trans fun r hr =>
      framed_upsertResource (Frame.upsertRoute (hi.own_route hr))).bind Framed.trans fun _ => ?_
    refine (Keeps.forM Framed.refl Framed.trans fun r hr =>
      framed_dropRoute _ (hroutes r ?_)).bind Framed.trans fun _ => ?_
    · exact (mem_filter.mp ((hrange _).mem_iff.mp hr)).1
    refine (Keeps.forM Framed.refl Framed.trans fun d _ =>
      framed_dropBackend _ _).bind Framed.trans fun _ => ?_
    exact Keeps.pure Framed.refl true

theorem framed_deleteManagedDomain
    (hown : P h → ∀ r ∈ m.repo.listHTTPRoutesByHostname h, ownID r.id = true)
    (hnever : ¬ P h → m.repo.domainEndpoints.live? h = none) :
    Within (deleteManagedDomain h) m fun _ t => Framed P m t := by
  refine Within.bind (within_orNothing _) (fun _ _ ht => Framed.of_eq ht.1) ?_
  rintro existing m ⟨rfl, hread⟩
  cases existing with
  | none => exact Within.pure (Framed.refl m)
  | some domain =>
    have hlive : m.repo.domainEndpoints.live? h = some domain := by
      have hget : m.repo.getDomainEndpointByHostname h
          = orNotFound (m.repo.domainEndpoints.live? h) :=
        Table.getResourceByField_primary m.repo.domainEndpoints h
      rw [hread domain rfl] at hget
      cases hl : m.repo.domainEndpoints.live? h with
      | none =>
        rw [hl] at hget
        cases hget
      | some d =>
        rw [hl] at hget
        rw [Except.ok.inj hget]
    have hh : P h := by
      by_contra hnot
      rw [hnever hnot] at hlive
      cases hlive
    obtain rfl : domain.hostname = h := Table.key_of_live? hlive
    refine Within.bind (P := fun r t => t = m ∧ ∀ routes, r = .ok (.ok routes) →
      m.repo.listHTTPRoutesByHostname domain.hostname = routes)
      (Within.attempt (Within.query (fun e => ⟨rfl, by simp⟩) fun routes hroutes => ⟨rfl, ?_⟩))
      (fun _ _ ht => Framed.of_eq ht.1) ?_
    · intro routes' heq
      rw [← Except.ok.inj (Except.ok.inj heq)]
      exact Except.ok.inj hroutes
    · rintro routes m ⟨rfl, hread⟩
      have hroutes : ∀ r ∈ routes.toOption.getD [], ownID r.id = true := by
        cases routes with
        | error e => exact fun r hr => nomatch hr
        | ok routes =>
          rw [show (Except.ok routes : Except RepoError _).toOption.getD [] = routes from rfl,
            ← hread routes rfl]
          exact hown hh
      suffices hkeeps : Keeps (Framed P) _ from hkeeps m
      refine (Keeps.forM Framed.refl Framed.trans fun r hr =>
        framed_dropRoute [] (hroutes r hr)).bind Framed.trans fun _ => ?_
      refine (framed_dropBackend [] _).bind Framed.trans fun _ => ?_
      refine (framed_deleteResourceByField rfl (Frame.retireEndpoint hh)).bind
        Framed.trans fun _ => ?_
      exact Keeps.pure Framed.refl true

end MasterM

namespace K8sBridge

open MasterM

variable {P : String → Prop} {h : String}

/-- The condition on a host that no failure matters to: the routes of a
materialised host are the bridges', and another host has no endpoint. -/
def OwnHost (materialised : String → Prop) (repo : Repo) (h : String) : Prop :=
  (materialised h → ∀ r ∈ repo.listHTTPRoutesByHostname h, ownID r.id = true)
    ∧ (¬ materialised h → repo.domainEndpoints.live? h = none)

theorem OwnHost.of_frame {repo repo' : Repo} (hh : OwnHost P repo h) (hf : Frame P repo repo') :
    OwnHost P repo' h := by
  refine ⟨fun hp r hr => ?_, fun hnot => (hf.endpoints h hnot).trans (hh.2 hnot)⟩
  by_contra hforeign
  have hid : ownID r.id = false := by simpa using hforeign
  obtain ⟨hlive, hhost⟩ := Repo.mem_listHTTPRoutesByHostname.mp hr
  rw [Table.live?, hf.routes r.id hid] at hlive
  exact hforeign (hh.1 hp r (Repo.mem_listHTTPRoutesByHostname.mpr ⟨hlive, hhost⟩))

theorem SyncCall.run_framed (c : SyncCall) {m : Master}
    (hP : ∀ h, (c.next.get? h).isSome = true → P h) (hhosts : ∀ h ∈ c.hosts, OwnHost P m.repo h) :
    Within c.run m fun _ t => Framed P m t := by
  have hremoved : ∀ (r : SyncResult) (h : String) (t : Master), OwnHost P t.repo h →
      Within (syncRemovedHost r h) t fun _ u => Framed P t u := fun r h t hh =>
    (framed_deleteManagedDomain hh.1 hh.2).bind (fun _ _ hu => hu) fun _ _ hu => Within.pure hu
  have haffected : ∀ (r : SyncResult) (h : String) (t : Master), OwnHost P t.repo h →
      Within (syncAffectedHost c.range c.next r h) t fun _ u => Framed P t u := by
    intro r h t hh
    unfold syncAffectedHost
    cases hitem : c.next.get? h with
    | none => exact hremoved r h t hh
    | some item =>
      have hp : P h := hP h (by rw [hitem]; rfl)
      refine (framed_upsertManagedDomain c.range_perm (Bridge.linked hitem) hp (hh.1 hp)).bind
        (fun _ _ hu => hu) fun changed u hu => ?_
      have hmark : Keeps (Framed P) (markIfNeedCert item.domain) := by
        unfold markIfNeedCert markCertificateDesired
        dsimp only
        split
        · split
          · exact Keeps.pure Framed.refl ()
          · exact Keeps.effect fun m => Framed.refl m
        · exact Keeps.pure Framed.refl ()
      exact (hmark u).bind (fun _ _ hv => Frame.trans hu hv) fun _ _ hv =>
        Within.pure (Frame.trans hu hv)
  -- each host is taken in tables that are framed so far
  have hloop : ∀ (body : SyncResult → String → MasterM SyncResult),
      (∀ r h t, OwnHost P t.repo h → Within (body r h) t fun _ u => Framed P t u) →
      ∀ names : List String, (∀ h ∈ targets names, h ∈ c.hosts) →
      ∀ (r : SyncResult), ∀ host ∈ names, ∀ t, Framed P m t →
        Within (forNewHost body r host) t fun _ u => Framed P m u := by
    intro body hbody names hnames r host hmem t ht
    unfold forNewHost
    dsimp only
    split
    · exact Within.pure ht
    · rename_i hnew
      have hhost : normalizeHost host ∈ c.hosts :=
        hnames _ (mem_targets.mpr ⟨fun heq => hnew (Or.inl heq), host, hmem, rfl⟩)
      exact (hbody _ _ t ((hhosts _ hhost).of_frame ht)).mono fun _ u hu => Frame.trans ht hu
  refine (Within.foldlM (I := fun t => Framed P m t)
    (hloop _ haffected _ fun h hmem => mem_hosts.mpr (Or.inl hmem)) {} (Framed.refl m)).bind
      (fun _ _ ht => ht) fun r t ht => ?_
  exact (Within.foldlM (I := fun t => Framed P m t)
    (hloop _ hremoved _ fun h hmem => mem_hosts.mpr (Or.inr hmem)) r ht).bind
      (fun _ _ hu => hu) fun r' u hu => Within.pure hu

/-- A call without failures keeps to the bridges' own rows exactly if each
of its turns does; and if the hosts it takes have only such rows at the
start, then so does a call with whatever failures. -/
theorem own_rows_only_iff (c : SyncCall) (earlier : List SyncCall) (m : Master) :
    (OwnRowsOnly (Materialised (earlier ++ [c])) m.repo (c.run ⟨m, []⟩).2.state.repo
        ↔ ∀ t ∈ c.turns m.repo c.hosts, c.Spares (Materialised (earlier ++ [c])) t.1 t.2)
      ∧ ((∀ h ∈ c.hosts, OwnHost (Materialised (earlier ++ [c])) m.repo h) →
        ∀ faults, OwnRowsOnly (Materialised (earlier ++ [c])) m.repo
          (c.run ⟨m, faults⟩).2.state.repo) := by
  have hP : ∀ h, (c.next.get? h).isSome = true → Materialised (earlier ++ [c]) h :=
    fun h hsome => ⟨c, by simp, hsome⟩
  refine ⟨?_, fun hhosts faults => (c.run_framed hP hhosts faults).ownRowsOnly⟩
  obtain ⟨changed, m', hdone, hrepo, -⟩ := c.run_done m
  rw [hdone.state_eq, hrepo]
  exact SyncCall.ownRowsOnly_after_iff hP c.hosts

/-- An Ingress with a rule for `a.example`, and `b.example` under its tls
hosts only. -/
def exampleNamesOther : K8s.Ingress :=
  { IngressNode.exampleIngress IngressNode.exampleBlue with
    tls := [[K8s.exampleHost, .ofText "b.example" (by decide)]] }

def exampleNamesOtherCall : SyncCall :=
  exampleCall exampleNamesOther
    (IngressBridge.affectedHosts { ingressClass := "luna" } (.storeIngress exampleNamesOther))
    (IngressBridge.removedHosts { ingressClass := "luna" } (.storeIngress exampleNamesOther))

/-- Both hosts were made through the manage API, the first with a route. -/
def exampleManaged : Master where
  repo := ((((Repo.empty.upsertResource
    ({ hostname := "a.example", backendType := .l7HTTP } : DomainEndpoint)).upsertResource
    ({ hostname := "b.example", backendType := .l7HTTP } : DomainEndpoint)).upsertResource
    ({ id := "backend-1", type := .external, arbitraryEndpoint := "10.0.0.1" } :
      ServiceBackendRef)).upsertResource
    ({ id := "route-1", hostname := "a.example", path := "/api", backendRefID := "backend-1" } :
      HTTPRoute))
  log := .empty
  boardcasts := []
  certs := none

theorem rows_of_others_lost :
    exampleNamesOtherCall.hosts = ["a.example", "b.example"]
      ∧ (exampleNamesOtherCall.next.get? "b.example").isSome = false
      ∧ (exampleManaged.repo.httpRoutes.live? "route-1").isSome = true
      ∧ (exampleManaged.repo.domainEndpoints.live? "b.example").isSome = true
      ∧ ((exampleNamesOtherCall.run ⟨exampleManaged, []⟩).2.state.repo.httpRoutes.live?
        "route-1").isSome = false
      ∧ ((exampleNamesOtherCall.run ⟨exampleManaged, []⟩).2.state.repo.domainEndpoints.live?
        "b.example").isSome = false
      ∧ ¬ OwnRowsOnly (Materialised [exampleNamesOtherCall]) exampleManaged.repo
        (exampleNamesOtherCall.run ⟨exampleManaged, []⟩).2.state.repo := by
  have hroute : ((exampleNamesOtherCall.run ⟨exampleManaged, []⟩).2.state.repo.httpRoutes.live?
      "route-1").isSome = false := by decide +kernel
  have hbefore : (exampleManaged.repo.httpRoutes.live? "route-1").isSome = true := by
    decide +kernel
  refine ⟨by decide +kernel, by decide +kernel, hbefore, by decide +kernel, hroute,
    by decide +kernel, fun hown => ?_⟩
  have hid : ownID "route-1" = false := by decide
  rw [Table.live?, hown.routes "route-1" hid] at hroute
  rw [Table.live?, hroute] at hbefore
  cases hbefore

end K8sBridge

end LunaEdge
