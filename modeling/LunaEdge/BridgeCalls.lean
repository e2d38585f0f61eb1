import LunaEdge.GatewayRebuild
import LunaEdge.IngressRebuild

/-!
# Calls of the bridges

A call of `syncDomainSet` as either bridge makes it, on whatever the
tables hold. It takes every host once (`SyncCall.hosts`), each in the
tables that the hosts before it have left (`SyncCall.turns`): a host with
a materialised domain has it written, any other host is removed.

What a bridge materialises for a host is `Linked`: its rows have ids of
the host, and routes, backends and the bound backend refer to each other.
An Ingress with two rules for a host gives several routes of one id, so
that not every materialised domain is `Managed`.
-/

namespace LunaEdge

open Session List

namespace K8sBridge

-- host names are compared here and never computed
attribute [local irreducible] normalizeHost

/-! ## Linked rows -/

/-- A route of a host to a backend with the same fields in its id. -/
def RouteOf (host : String) (r : HTTPRoute) : Prop :=
  r.hostname = host ∧ ∃ fields, RowFields host fields ∧ fields[0]? ≠ some "gateway-tls"
    ∧ r.id = routeID fields ∧ r.backendRefID = backendID fields

/-- The id of a backend that a TLS route binds a host to. -/
def BoundTo (host id : String) : Prop :=
  ∃ fields, RowFields host fields ∧ fields[0]? = some "gateway-tls" ∧ id = backendID fields

variable {h h' : String} {r r' : HTTPRoute} {item : DomainMaterialized}

theorem RouteOf.withDefaults (hr : RouteOf h r) : RouteOf h (Resource.withDefaults r) := by
  have hsame : (HTTPRoute.withDefaults r).hostname = r.hostname
      ∧ (HTTPRoute.withDefaults r).id = r.id
      ∧ (HTTPRoute.withDefaults r).backendRefID = r.backendRefID := by
    unfold HTTPRoute.withDefaults
    split <;> exact ⟨rfl, rfl, rfl⟩
  obtain ⟨hhost, hid, href⟩ := hsame
  show RouteOf h (HTTPRoute.withDefaults r)
  rwa [RouteOf, hhost, hid, href]

theorem RouteOf.ownerOf_id (hr : RouteOf h r) : ownerOf r.id = some h := by
  obtain ⟨-, fields, hf, -, hid, -⟩ := hr
  rw [hid, hf.ownerOf_routeID]

theorem RouteOf.ownerOf_ref (hr : RouteOf h r) : ownerOf r.backendRefID = some h := by
  obtain ⟨-, fields, hf, -, -, href⟩ := hr
  rw [href, hf.ownerOf_backendID]

theorem RouteOf.managedBackend_ref (hr : RouteOf h r) : managedBackend r.backendRefID = true := by
  obtain ⟨-, fields, hf, -, -, href⟩ := hr
  rw [href, hf.managedBackend_backendID]

theorem RouteOf.id_eq_iff (hr : RouteOf h r) (hr' : RouteOf h' r') :
    r.id = r'.id ↔ r.backendRefID = r'.backendRefID := by
  obtain ⟨-, fields, hf, -, hid, href⟩ := hr
  obtain ⟨-, fields', hf', -, hid', href'⟩ := hr'
  rw [hid, hid', href, href']
  exact ⟨fun heq => by rw [hf.routeID_inj hf' heq], fun heq => by rw [hf.backendID_inj hf' heq]⟩

theorem BoundTo.ownerOf {id : String} (hb : BoundTo h id) : ownerOf id = some h := by
  obtain ⟨fields, hf, -, rfl⟩ := hb
  exact hf.ownerOf_backendID

theorem BoundTo.managedBackend {id : String} (hb : BoundTo h id) : managedBackend id = true := by
  obtain ⟨fields, hf, -, rfl⟩ := hb
  exact hf.managedBackend_backendID

/-- No route goes to a bound backend. -/
theorem BoundTo.ne_ref {id : String} (hb : BoundTo h id) (hr : RouteOf h' r) :
    id ≠ r.backendRefID := by
  obtain ⟨fields, hf, htls, rfl⟩ := hb
  obtain ⟨-, fields', hf', hnot, -, href⟩ := hr
  intro heq
  rw [href] at heq
  rw [← hf.backendID_inj hf' heq] at hnot
  exact hnot htls

/-- What a bridge materialises for a host. -/
structure Linked (host : String) (item : DomainMaterialized) : Prop where
  hostname : item.domain.hostname = host
  live : item.domain.deleted = false
  binded : item.domain.bindedServiceID = ""
    ∨ BoundTo host item.domain.bindedServiceID
      ∧ item.domain.bindedServiceID ∈ item.backends.map (·.id)
  routes : ∀ r ∈ item.routes, r.deleted = false ∧ RouteOf host r
  refs : ∀ r ∈ item.routes, r.backendRefID ∈ item.backends.map (·.id)
  backends : ∀ b ∈ item.backends, b.deleted = false
    ∧ (∃ fields, RowFields host fields ∧ b.id = backendID fields)
    ∧ (b.id = item.domain.bindedServiceID ∨ ∃ r ∈ item.routes, r.backendRefID = b.id)

theorem Linked.ownerOf_backend (hi : Linked h item) {b : ServiceBackendRef}
    (hb : b ∈ item.backends) : ownerOf b.id = some h := by
  obtain ⟨-, ⟨fields, hf, hid⟩, -⟩ := hi.backends b hb
  rw [hid, hf.ownerOf_backendID]

theorem Linked.of_managed (hi : Managed h item)
    (hbound : item.domain.bindedServiceID = "" ∨ BoundTo h item.domain.bindedServiceID)
    (hroutes : ∀ r ∈ item.routes, RouteOf h r) : Linked h item where
  hostname := hi.hostname
  live := hi.live
  binded := by
    rcases hbound with hempty | hbound
    · exact Or.inl hempty
    · rcases hi.binded with hempty | hmem
      · exact Or.inl hempty
      · exact Or.inr ⟨hbound, hmem⟩
  routes := fun r hr => ⟨(hi.routes r hr).1, hroutes r hr⟩
  refs := hi.refs
  backends := by
    intro b hb
    obtain ⟨hlive, -, hfields, hused⟩ := hi.backends b hb
    exact ⟨hlive, hfields, hused⟩

/-! ## Materialised domains -/

theorem IngressBridge.linked_hostItem {b : IngressBridge}
    {cs : List (K8s.Ingress × K8s.IngressRule)} (hcolon : ':' ∉ h.toList)
    (hitem : b.hostItem h cs = some item) : Linked h (dedupBackends item) := by
  obtain ⟨⟨c, -, hdomain⟩, hbackends, hroutes⟩ := IngressBridge.of_hostItem hitem
  have hpairs : ∀ p ∈ b.hostPairs h cs, p.1.deleted = false ∧ p.2.deleted = false
      ∧ RouteOf h p.2 ∧ p.2.backendRefID = p.1.id := by
    intro p hp
    obtain ⟨⟨hlive, -⟩, ⟨hlive', hhost, -⟩, -⟩ := IngressBridge.pairOf_hostPairs hcolon p hp
    obtain ⟨c, -, hp⟩ := mem_flatMap.mp hp
    obtain ⟨⟨path, idx⟩, -, hsome⟩ := mem_filterMap.mp hp
    obtain ⟨service, -, rfl⟩ := Option.map_eq_some_iff.mp hsome
    have hf := IngressBridge.rowFields_rowFields c.1 hcolon idx
    exact ⟨hlive, hlive', ⟨hhost, _, hf, by simp [IngressBridge.rowFields], rfl, rfl⟩,
      (b.id_pathBackend c.1 h idx service).symm⟩
  -- one backend is kept for each id
  have hmem : ∀ backend ∈ (dedupBackends item).backends, ∃ p ∈ b.hostPairs h cs, p.1 = backend := by
    intro backend hmem
    have hlast := (mem_of_lastByID (mem_dedupBackends.mp hmem)).1
    rwa [hbackends, mem_map] at hlast
  have hids : ∀ p ∈ b.hostPairs h cs, p.1.id ∈ (dedupBackends item).backends.map (·.id) := by
    intro p hp
    have hne : item.backends.filter (fun backend => backend.id = p.1.id) ≠ [] := by
      refine ne_nil_of_mem (a := p.1) (mem_filter.mpr ⟨?_, decide_eq_true rfl⟩)
      rw [hbackends]
      exact mem_map.mpr ⟨p, hp, rfl⟩
    obtain ⟨backend, hlast⟩ := Option.isSome_iff_exists.mp (List.getLast?_isSome.mpr hne)
    have hid : backend ∈ item.backends ∧ backend.id = p.1.id := mem_of_lastByID hlast
    refine mem_map.mpr ⟨backend, mem_dedupBackends.mpr ?_, hid.2⟩
    rw [hid.2]
    exact hlast
  have hr : (dedupBackends item).routes = (b.hostPairs h cs).map (·.2) := hroutes
  have hd : (dedupBackends item).domain = IngressBridge.ruleDomain c.1 h := hdomain
  refine ⟨by rw [hd]; rfl, by rw [hd]; rfl, Or.inl (by rw [hd]; rfl), ?_, ?_, ?_⟩
  · intro r hmem
    rw [hr] at hmem
    obtain ⟨p, hp, rfl⟩ := mem_map.mp hmem
    exact ⟨(hpairs p hp).2.1, (hpairs p hp).2.2.1⟩
  · intro r hmem
    rw [hr] at hmem
    obtain ⟨p, hp, rfl⟩ := mem_map.mp hmem
    rw [(hpairs p hp).2.2.2]
    exact hids p hp
  · intro backend hbackend
    obtain ⟨p, hp, rfl⟩ := hmem backend hbackend
    obtain ⟨hlive, -, hroute, href⟩ := hpairs p hp
    obtain ⟨-, fields, hf, -, -, hfields⟩ := hroute
    refine ⟨hlive, ⟨fields, hf, href.symm.trans hfields⟩, Or.inr ⟨p.2, ?_, href⟩⟩
    rw [hr]
    exact mem_map.mpr ⟨p, hp, rfl⟩

theorem GatewayBridge.linked_hostItem {b : GatewayBridge}
    {has : List (HTTPRouteState × List Reach)} {tas : List (TLSRouteState × List Reach)}
    (hcolon : ':' ∉ h.toList)
    (hkeys : ∀ a ∈ has, ∀ a' ∈ has, Keyed.key a.1 = Keyed.key a'.1 → a.1 = a'.1)
    (hitem : b.hostItem h has tas = some item) : Linked h (dedupe item) := by
  have hmanaged := GatewayBridge.managed_hostItem hcolon hkeys hitem
  unfold GatewayBridge.hostItem at hitem
  cases hlast : (visits tas).getLast? with
  | some v =>
    rw [hlast] at hitem
    obtain rfl := Option.some.inj hitem
    have hf := GatewayBridge.rowFields_tlsFields v.1 hcolon v.2.2
    refine Linked.of_managed hmanaged (Or.inr ⟨_, hf, rfl, rfl⟩) fun r hr => ?_
    cases hr
  | none =>
    rw [hlast] at hitem
    obtain ⟨⟨v, -, hdomain⟩, -, hroutes⟩ := GatewayBridge.of_httpItem hitem
    refine Linked.of_managed hmanaged (Or.inl ?_) fun r hr => ?_
    · show item.domain.bindedServiceID = ""
      rw [hdomain, (GatewayBridge.httpDomain_spec v.2.1 h).2.2]
    · have hmem : r ∈ item.routes := (dedupeByID_subset [] item.routes r hr).1
      rw [hroutes] at hmem
      obtain ⟨p, hp, rfl⟩ := mem_map.mp hmem
      obtain ⟨-, ⟨-, hhost, -⟩, -⟩ := GatewayBridge.pairOf_hostPairs hcolon p hp
      obtain ⟨v, -, hp⟩ := mem_flatMap.mp hp
      obtain ⟨ruleIdx, rule, -, rfl⟩ := GatewayBridge.mem_ruleRows.mp hp
      exact ⟨hhost, _, GatewayBridge.rowFields_ruleFields v.1 hcolon v.2.2 ruleIdx,
        by simp [GatewayBridge.ruleFields], rfl, rfl⟩

/-- A bridge with its objects, and the order in which it ranges over them. -/
inductive Bridge where
  | ingress (b : IngressBridge) (order : IngressBridge.Order)
  | gateway (b : GatewayBridge) (order : GatewayBridge.Order)

namespace Bridge

def kind : Bridge → Kind
  | .ingress _ _ => .ingress
  | .gateway _ _ => .gateway

def materializeByHost : Bridge → List String → GoMap String DomainMaterialized
  | .ingress b order => b.materializeByHost order.ingresses
  | .gateway b order => b.materializeByHost order

theorem linked {bridge : Bridge} {hosts : List String}
    (hitem : (bridge.materializeByHost hosts).get? h = some item) : Linked h item := by
  cases bridge with
  | ingress b order =>
    obtain ⟨-, raw, hraw, rfl⟩ := IngressBridge.of_get?_materializeByHost hitem
    obtain ⟨⟨c, hc, -⟩, -, -⟩ := IngressBridge.of_hostItem hraw
    exact IngressBridge.linked_hostItem (IngressBridge.noColon_of_contribution (mem_of_getLast? hc)) hraw
  | gateway b order =>
    obtain ⟨htarget, raw, hraw, rfl⟩ := GatewayBridge.of_get?_materializeByHost hitem
    have hmem : h ∈ b.collectHosts := by
      by_contra hnot
      have hne := (mem_targets.mp htarget).1
      rw [GatewayBridge.httpAttachments_eq_nil hne (order.httpRoutes_perm _).subset hnot,
        GatewayBridge.tlsAttachments_eq_nil hne (order.tlsRoutes_perm _).subset hnot] at hraw
      cases hraw
    refine GatewayBridge.linked_hostItem (GatewayBridge.noColon_of_collected hmem)
      (GatewayBridge.httpAttachments_keys ?_) hraw
    exact ((order.httpRoutes_perm _).map _).nodup_iff.mpr b.httpRoutes.nodup

theorem get?_eq_none {bridge : Bridge} {hosts : List String} (hnot : h ∉ targets hosts) :
    (bridge.materializeByHost hosts).get? h = none := by
  cases bridge with
  | ingress b order =>
    show (b.materializeByHost order.ingresses hosts).get? h = none
    rw [IngressBridge.get?_materializeByHost, if_neg hnot]
  | gateway b order =>
    show (b.materializeByHost order hosts).get? h = none
    rw [GatewayBridge.get?_materializeByHost, if_neg hnot]

end Bridge

/-! ## Calls -/

structure SyncCall where
  bridge : Bridge
  range : List HTTPRoute → List HTTPRoute
  range_perm : ∀ l, (range l).Perm l
  affectedHosts : List String
  removedHosts : List String

namespace SyncCall

def next (c : SyncCall) : GoMap String DomainMaterialized :=
  c.bridge.materializeByHost c.affectedHosts

def run (c : SyncCall) : MasterM (List String × List String) :=
  MasterM.syncDomainSet c.range c.next c.affectedHosts c.removedHosts

def takeHost (seen : List String) (host : String) : List String :=
  let host := normalizeHost host
  if host = "" ∨ host ∈ seen then seen else seen ++ [host]

/-- The hosts in the order in which the call takes them. -/
def hosts (c : SyncCall) : List String := (c.affectedHosts ++ c.removedHosts).foldl takeHost []

/-- What the turn of a host does to the tables, and whether it finds a change. -/
def change (c : SyncCall) (repo : Repo) (h : String) : Bool × Repo :=
  match c.next.get? h with
  | none => deleteDomain h repo
  | some item => upsertDomain c.range item repo

def after (c : SyncCall) (repo : Repo) (hosts : List String) : Repo :=
  hosts.foldl (fun repo h => (c.change repo h).2) repo

def turns (c : SyncCall) : Repo → List String → List (Repo × String)
  | _, [] => []
  | repo, h :: hosts => (repo, h) :: c.turns (c.change repo h).2 hosts

variable {c : SyncCall} {repo : Repo}

theorem mem_foldl_takeHost {names seen : List String} :
    h ∈ names.foldl takeHost seen ↔ h ∈ seen ∨ h ∈ targets names := by
  induction names using List.reverseRecOn with
  | nil => simp [targets]
  | append_singleton names host ih =>
    rw [foldl_append, foldl_cons, foldl_nil, takeHost, mem_targets_concat]
    by_cases hold : normalizeHost host = "" ∨ normalizeHost host ∈ names.foldl takeHost seen
    · rw [if_pos hold, ih]
      constructor
      · exact Or.imp_right Or.inl
      · rintro (hs | ht | ⟨hne, rfl⟩)
        · exact Or.inl hs
        · exact Or.inr ht
        · exact ih.mp (hold.resolve_left hne)
    · obtain ⟨hne, -⟩ := not_or.mp hold
      rw [if_neg hold, mem_append, mem_singleton, ih, or_assoc]
      refine or_congr_right (or_congr_right ?_)
      exact ⟨fun heq => ⟨hne, heq.symm⟩, fun heq => heq.2.symm⟩

theorem nodup_foldl_takeHost (names : List String) : (names.foldl takeHost []).Nodup := by
  induction names using List.reverseRecOn with
  | nil => exact nodup_nil
  | append_singleton names host ih =>
    rw [foldl_append, foldl_cons, foldl_nil, takeHost]
    split
    · exact ih
    · rename_i hnew
      refine nodup_append.mpr ⟨ih, nodup_singleton _, ?_⟩
      rintro a ha b hb rfl
      rw [mem_singleton] at hb
      exact hnew (Or.inr (hb ▸ ha))

theorem mem_hosts : h ∈ c.hosts ↔ h ∈ targets c.affectedHosts ∨ h ∈ targets c.removedHosts := by
  rw [hosts, mem_foldl_takeHost, targets, map_append, filter_append, mem_append]
  simp only [not_mem_nil, false_or]
  rfl

theorem turns_append (hosts hosts' : List String) :
    c.turns repo (hosts ++ hosts') = c.turns repo hosts ++ c.turns (c.after repo hosts) hosts' := by
  induction hosts generalizing repo with
  | nil => rfl
  | cons h hosts ih => simp [turns, ih, after]

theorem after_concat (hosts : List String) (h : String) :
    c.after repo (hosts ++ [h]) = (c.change (c.after repo hosts) h).2 := by
  rw [after, foldl_append]
  rfl

theorem turns_concat (hosts : List String) (h : String) :
    c.turns repo (hosts ++ [h]) = c.turns repo hosts ++ [(c.after repo hosts, h)] := by
  rw [turns_append]
  rfl

theorem host_of_turn {hosts : List String} {t : Repo × String} (ht : t ∈ c.turns repo hosts) :
    t.2 ∈ hosts := by
  induction hosts generalizing repo with
  | nil => cases ht
  | cons h hosts ih =>
    rcases mem_cons.mp ht with rfl | ht
    · exact mem_cons_self
    · exact mem_cons_of_mem _ (ih ht)

theorem exists_turn {hosts : List String} (hmem : h ∈ hosts) :
    ∃ t, (t, h) ∈ c.turns repo hosts := by
  obtain ⟨before, after, rfl⟩ := append_of_mem hmem
  rw [turns_append]
  exact ⟨_, mem_append_right _ mem_cons_self⟩

theorem turn_unique {hosts : List String} (hnodup : hosts.Nodup) {t t' : Repo}
    (ht : (t, h) ∈ c.turns repo hosts) (ht' : (t', h) ∈ c.turns repo hosts) : t = t' := by
  induction hosts generalizing repo with
  | nil => cases ht
  | cons h₀ hosts ih =>
    obtain ⟨hnot, hnodup⟩ := nodup_cons.mp hnodup
    rcases mem_cons.mp ht with heq | ht
    · cases heq
      rcases mem_cons.mp ht' with heq' | ht'
      · cases heq'
        rfl
      · exact absurd (host_of_turn ht') hnot
    · rcases mem_cons.mp ht' with heq' | ht'
      · cases heq'
        exact absurd (host_of_turn ht) hnot
      · exact ih hnodup ht ht'

theorem split_of_turn {hosts : List String} {t : Repo × String} (ht : t ∈ c.turns repo hosts) :
    ∃ before later, hosts = before ++ t.2 :: later ∧ t.1 = c.after repo before := by
  induction hosts generalizing repo with
  | nil => cases ht
  | cons h hosts ih =>
    rcases mem_cons.mp ht with rfl | ht
    · exact ⟨[], hosts, rfl, rfl⟩
    · obtain ⟨before, later, rfl, htables⟩ := ih ht
      exact ⟨h :: before, later, rfl, htables⟩

theorem after_append (hosts hosts' : List String) :
    c.after repo (hosts ++ hosts') = c.after (c.after repo hosts) hosts' := foldl_append

/-! ## Turns -/

/-- The tables hold already what the host is to get. -/
def Settled (c : SyncCall) (repo : Repo) (h : String) : Prop :=
  match c.next.get? h with
  | none => repo.domainEndpoints.live? h = none
  | some item => managedDomainUnchanged (repo.domainEndpoints.live? h)
      (repo.listHTTPRoutesByHostname h) (repo.listServiceBindingsByHostname h) item = true

inductive Turn (c : SyncCall) (repo : Repo) (h : String) : Prop where
  | settled (hsettled : c.Settled repo h) (hchange : c.change repo h = (false, repo))
  | removed (domain : DomainEndpoint) (hnone : c.next.get? h = none)
      (hlive : repo.domainEndpoints.live? h = some domain) (hnot : ¬ c.Settled repo h)
      (hchange : c.change repo h = (true, removeRows domain (repo.listHTTPRoutesByHostname h) repo))
  | replaced (item : DomainMaterialized) (stale : List HTTPRoute)
      (hitem : c.next.get? h = some item) (hnot : ¬ c.Settled repo h)
      (hstale : ∀ r, r ∈ stale
        ↔ r ∈ repo.listHTTPRoutesByHostname h ∧ r.id ∉ item.routes.map (·.id))
      (hchange : c.change repo h
        = (true, replaceRows item (repo.domainEndpoints.live? h) stale repo))

theorem turn (c : SyncCall) (repo : Repo) (h : String) : c.Turn repo h := by
  cases hitem : c.next.get? h with
  | none =>
    have hchange : c.change repo h = deleteDomain h repo := by rw [change, hitem]
    have hiff : c.Settled repo h ↔ repo.domainEndpoints.live? h = none := by rw [Settled, hitem]
    rw [deleteDomain] at hchange
    cases hlive : repo.domainEndpoints.live? h with
    | none =>
      rw [hlive] at hchange
      exact .settled (hiff.mpr hlive) hchange
    | some domain =>
      rw [hlive] at hchange
      obtain rfl : domain.hostname = h := Table.key_of_live? hlive
      refine .removed domain hitem hlive ?_ hchange
      rw [hiff, hlive]
      exact Option.some_ne_none domain
  | some item =>
    have hchange : c.change repo h = upsertDomain c.range item repo := by rw [change, hitem]
    have hiff : c.Settled repo h ↔ managedDomainUnchanged (repo.domainEndpoints.live? h)
        (repo.listHTTPRoutesByHostname h) (repo.listServiceBindingsByHostname h) item = true := by
      rw [Settled, hitem]
    have hhost : item.domain.hostname = h := (Bridge.linked hitem).hostname
    unfold upsertDomain at hchange
    dsimp only at hchange
    rw [hhost] at hchange
    by_cases hun : c.Settled repo h
    · rw [if_pos (hiff.mp hun)] at hchange
      exact .settled hun hchange
    · rw [if_neg fun hx => hun (hiff.mpr hx)] at hchange
      refine .replaced item _ hitem hun (fun r => ?_) hchange
      rw [(c.range_perm _).mem_iff, mem_filter, decide_eq_true_eq]

/-- A turn reports a change exactly if the host is not settled. -/
theorem change_fst : (c.change repo h).1 = true ↔ ¬ c.Settled repo h := by
  cases c.turn repo h with
  | settled hsettled hchange => simp [hchange, hsettled]
  | removed domain _ _ hnot hchange => simp [hchange, hnot]
  | replaced item stale _ hnot _ hchange => simp [hchange, hnot]

/-! ## Runs without failures -/

/-- The body of a loop does to a host what its turn does to the tables. -/
def TakesTurn (c : SyncCall) (body : SyncResult → String → MasterM SyncResult) (h : String) :
    Prop :=
  ∀ (r : SyncResult) (m : Master), ∃ r' m', Done (body r h) m r' m' ∧ r'.seen = r.seen
    ∧ m'.repo = (c.change m.repo h).2
    ∧ ∀ k, (k ∈ r'.changedAffected ∨ k ∈ r'.changedRemoved)
      ↔ (k ∈ r.changedAffected ∨ k ∈ r.changedRemoved) ∨ (k = h ∧ (c.change m.repo h).1 = true)

theorem takesTurn_removed (hnone : c.next.get? h = none) :
    c.TakesTurn MasterM.syncRemovedHost h := by
  intro r m
  have hchange : c.change m.repo h = deleteDomain h m.repo := by rw [change, hnone]
  refine ⟨_, _, (MasterM.deleteManagedDomain_done h m).bind (Done.pure _ _), ?_, ?_, fun k => ?_⟩
  · split <;> rfl
  · rw [hchange]
  · rw [hchange]
    split
    · rename_i hchanged
      simp [hchanged, or_assoc]
    · rename_i hchanged
      simp [hchanged]

theorem takesTurn_affected : c.TakesTurn (MasterM.syncAffectedHost c.range c.next) h := by
  intro r m
  unfold MasterM.syncAffectedHost
  cases hitem : c.next.get? h with
  | none => exact takesTurn_removed hitem r m
  | some item =>
    have hchange : c.change m.repo h = upsertDomain c.range item m.repo := by rw [change, hitem]
    obtain ⟨m', hmark, hrepo⟩ := MasterM.markIfNeedCert_done item.domain
      { m with repo := (upsertDomain c.range item m.repo).2 }
    refine ⟨_, m', (MasterM.upsertManagedDomain_done c.range item m).bind
      (hmark.bind (Done.pure _ m')), ?_, ?_, fun k => ?_⟩
    · split <;> rfl
    · rw [hrepo, hchange]
    · rw [hchange]
      split
      · rename_i hchanged
        simp [hchanged, or_right_comm]
      · rename_i hchanged
        simp [hchanged]

structure Taken (c : SyncCall) (repo : Repo) (names : List String) (r : SyncResult) (m : Master) :
    Prop where
  seen : r.seen = names.foldl takeHost []
  tables : m.repo = c.after repo r.seen
  changed : ∀ h, (h ∈ r.changedAffected ∨ h ∈ r.changedRemoved)
    ↔ ∃ t, (t, h) ∈ c.turns repo r.seen ∧ (c.change t h).1 = true

theorem Taken.step {body : SyncResult → String → MasterM SyncResult} {names : List String}
    {r : SyncResult} {m : Master} {host : String} (ht : Taken c repo names r m)
    (hbody : normalizeHost host ∉ r.seen → c.TakesTurn body (normalizeHost host)) :
    ∃ r' m', Done (MasterM.forNewHost body r host) m r' m'
      ∧ Taken c repo (names ++ [host]) r' m' := by
  have hnames : (names ++ [host]).foldl takeHost [] = takeHost r.seen host := by
    rw [foldl_append, ← ht.seen]
    rfl
  unfold MasterM.forNewHost
  unfold takeHost at hnames
  generalize normalizeHost host = h at hbody hnames ⊢
  by_cases hold : h = "" ∨ h ∈ r.seen
  · rw [if_pos hold] at hnames ⊢
    exact ⟨r, m, Done.pure r m, hnames.symm, ht.tables, ht.changed⟩
  · rw [if_neg hold] at hnames ⊢
    obtain ⟨r', m', hdone, hseen, hrepo, hchanged⟩ :=
      hbody (not_or.mp hold).2 { r with seen := r.seen ++ [h] } m
    refine ⟨r', m', hdone, hseen.trans hnames.symm, ?_, fun k => ?_⟩
    · rw [hrepo, hseen, after_concat, ht.tables]
    · rw [hchanged, hseen, turns_concat, ht.changed, ← ht.tables]
      simp only [mem_append, mem_singleton, Prod.mk.injEq, or_and_right, exists_or]
      refine or_congr_right ?_
      constructor
      · rintro ⟨rfl, hc⟩
        exact ⟨m.repo, ⟨rfl, rfl⟩, hc⟩
      · rintro ⟨t, ⟨rfl, rfl⟩, hc⟩
        exact ⟨rfl, hc⟩

/-- The call takes its hosts one after another, and reports those whose
turn has found a change. -/
theorem run_done (c : SyncCall) (m : Master) :
    ∃ changed m', Done c.run m changed m' ∧ m'.repo = c.after m.repo c.hosts
      ∧ ∀ h, (h ∈ changed.1 ∨ h ∈ changed.2)
        ↔ ∃ t, (t, h) ∈ c.turns m.repo c.hosts ∧ (c.change t h).1 = true := by
  have hstart : Taken c m.repo [] {} m := ⟨rfl, rfl, by simp [turns]⟩
  obtain ⟨r₁, m₁, hdone₁, ht₁⟩ := Done.foldlM (I := Taken c m.repo)
    (fun names r host m ht => ht.step fun _ => takesTurn_affected) c.affectedHosts hstart
  obtain ⟨r₂, m₂, hdone₂, ht₂⟩ := Done.foldlM
    (f := MasterM.forNewHost MasterM.syncRemovedHost)
    (I := fun names r m' => Taken c m.repo (c.affectedHosts ++ names) r m')
    (fun names r host m ht => by
      rw [← append_assoc]
      refine ht.step fun hnew => takesTurn_removed (Bridge.get?_eq_none fun htarget => hnew ?_)
      -- an affected host has had its turn
      rw [ht.seen, foldl_append, mem_foldl_takeHost, mem_foldl_takeHost]
      exact Or.inl (Or.inr htarget))
    c.removedHosts (by rwa [append_nil])
  have hseen : r₂.seen = c.hosts := ht₂.seen
  exact ⟨_, m₂, hdone₁.bind (hdone₂.bind (Done.pure _ m₂)), hseen ▸ ht₂.tables,
    fun h => hseen ▸ ht₂.changed h⟩

end SyncCall

def exampleCall (ing : K8s.Ingress) (affectedHosts removedHosts : List String) : SyncCall where
  bridge := .ingress (IngressBridge.store { ingressClass := "luna" } (.storeIngress ing))
    IngressNode.exampleOrder
  range := id
  range_perm := List.Perm.refl
  affectedHosts := affectedHosts
  removedHosts := removedHosts

def exampleIngressCall : List String → List String → SyncCall :=
  exampleCall (IngressNode.exampleIngress IngressNode.exampleBlue)

end K8sBridge

end LunaEdge
