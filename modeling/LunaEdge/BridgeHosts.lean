import LunaEdge.BridgeTables

/-!
# Synchronised hosts

The programs that write the domains of a set of hosts, run without
failures. What they do to the tables for one host is `upsertDomain` or
`deleteDomain`, whatever the tables hold. On tables that mirror some
domains a synchronised host ends with the rows of its new domain, or with
none; the other hosts keep theirs (`syncDomainSet_done`). The
announcements that follow do not touch the tables.
-/

namespace LunaEdge

open Session

namespace MasterM

open K8sBridge

theorem dropBackend_done (keep : List String) (id : String) (m : Master) :
    Done (dropBackend keep id) m () { m with repo := m.repo.dropBackend keep id } := by
  unfold dropBackend Repo.dropBackend
  split
  · exact deleteResourceByField_done ServiceBackendRef m rfl id
  · exact Done.pure () m

theorem dropRoute_done (keep : List String) (r : HTTPRoute) (m : Master) :
    Done (dropRoute keep r) m () { m with repo := m.repo.dropRoute keep r } :=
  (deleteResourceByField_done HTTPRoute m rfl r.id).bind (dropBackend_done keep _ _)

theorem orNothing_done {α : Type} {f : Master → Except RepoError α} {m : Master} {x : Option α}
    (h : f m = orNotFound x) : Done (orNothing (query f)) m x m := by
  cases x with
  | none => exact (Done.attempt_query_error h).bind (Done.pure none m)
  | some a => exact (Done.query h).attempt.bind (Done.pure (some a) m)

theorem endpoint_done (h : String) (m : Master) :
    Done (orNothing (getDomainEndpointByHostname h)) m (m.repo.domainEndpoints.live? h) m :=
  orNothing_done (Table.getResourceByField_primary m.repo.domainEndpoints h)

end MasterM

/-! ## One host -/

namespace K8sBridge

/-- What writing a materialised domain does to the tables, and whether it
finds a change. -/
def upsertDomain (range : List HTTPRoute → List HTTPRoute) (item : DomainMaterialized)
    (repo : Repo) : Bool × Repo :=
  let existing := repo.domainEndpoints.live? item.domain.hostname
  let currentRoutes := repo.listHTTPRoutesByHostname item.domain.hostname
  if managedDomainUnchanged existing currentRoutes
      (repo.listServiceBindingsByHostname item.domain.hostname) item then (false, repo)
  else
    (true, replaceRows item existing
      (range (currentRoutes.filter fun r => r.id ∉ item.routes.map (·.id))) repo)

/-- The same for the removal of a host. -/
def deleteDomain (h : String) (repo : Repo) : Bool × Repo :=
  match repo.domainEndpoints.live? h with
  | none => (false, repo)
  | some domain => (true, removeRows domain (repo.listHTTPRoutesByHostname domain.hostname) repo)

variable {repo : Repo} {F : Domains} {h : String} {item : DomainMaterialized}

theorem Mirrors.upsertDomain {range : List HTTPRoute → List HTTPRoute}
    (hrange : ∀ l, (range l).Perm l) (hm : Mirrors repo F) (hi : Managed h item) :
    Mirrors (upsertDomain range item repo).2 (Function.update F h (some item)) := by
  unfold K8sBridge.upsertDomain
  dsimp only
  rw [hi.hostname]
  split
  · rename_i hun
    exact hm.unchanged hi hun
  · refine hm.replaceRows hi fun r => ?_
    rw [(hrange _).mem_iff, List.mem_filter, decide_eq_true_eq]

theorem Mirrors.deleteDomain (hm : Mirrors repo F) (h : String) :
    Mirrors (deleteDomain h repo).2 (Function.update F h none) := by
  unfold K8sBridge.deleteDomain
  cases hdomain : repo.domainEndpoints.live? h with
  | none =>
    have hnone : F h = none := by
      rw [hm.domains, Option.map_eq_none_iff] at hdomain
      exact hdomain
    rw [← hnone, Function.update_eq_self]
    exact hm
  | some domain =>
    obtain rfl : domain.hostname = h := Table.key_of_live? hdomain
    exact hm.removeRows hdomain

end K8sBridge

namespace MasterM

open K8sBridge

theorem upsertManagedDomain_done (range : List HTTPRoute → List HTTPRoute)
    (item : DomainMaterialized) (m : Master) :
    Done (upsertManagedDomain range item) m (upsertDomain range item m.repo).1
      { m with repo := (upsertDomain range item m.repo).2 } := by
  unfold upsertManagedDomain upsertDomain
  dsimp only
  refine (endpoint_done item.domain.hostname m).bind ?_
  refine (orNothing_done
    (x := some (m.repo.listHTTPRoutesByHostname item.domain.hostname)) rfl).bind ?_
  refine (orNothing_done
    (x := some (m.repo.listServiceBindingsByHostname item.domain.hostname)) rfl).bind ?_
  dsimp only [Option.getD_some]
  split
  · exact Done.pure false m
  · refine (upsertResource_done m item.domain).bind ?_
    refine (forM_repo_done (fun b m => upsertResource_done m b) item.backends _).bind ?_
    refine (forM_repo_done (fun r m => upsertResource_done m r) item.routes _).bind ?_
    refine (forM_repo_done (dropRoute_done _) _ _).bind ?_
    refine (forM_repo_done (g := fun repo d => repo.dropBackend _ d.bindedServiceID)
      (fun d m => dropBackend_done _ d.bindedServiceID m) _ _).bind ?_
    exact Done.pure true _

theorem deleteManagedDomain_done (h : String) (m : Master) :
    Done (deleteManagedDomain h) m (deleteDomain h m.repo).1
      { m with repo := (deleteDomain h m.repo).2 } := by
  unfold deleteDomain
  have hread := endpoint_done h m
  cases hdomain : m.repo.domainEndpoints.live? h with
  | none =>
    rw [hdomain] at hread
    exact hread.bind (Done.pure false m)
  | some domain =>
    rw [hdomain] at hread
    have hlist : Done (attempt (listHTTPRoutesByHostname domain.hostname)) m
        (.ok (m.repo.listHTTPRoutesByHostname domain.hostname)) m :=
      (Done.query
        (f := fun m : Master => .ok (m.repo.listHTTPRoutesByHostname domain.hostname)) rfl).attempt
    refine hread.bind (hlist.bind ?_)
    refine (forM_repo_done (dropRoute_done []) _ m).bind ?_
    refine (dropBackend_done [] domain.bindedServiceID _).bind ?_
    refine (deleteResourceByField_done DomainEndpoint _ rfl domain.hostname).bind ?_
    exact Done.pure true _

end MasterM

/-! ## Sets of hosts -/

namespace K8sBridge

def targets (hosts : List String) : List String := (hosts.map normalizeHost).filter (· ≠ "")

def synced (F : Domains) (next : GoMap String DomainMaterialized)
    (affectedHosts removedHosts : List String) : Domains := fun h =>
  if h ∈ targets affectedHosts then next.get? h
  else if h ∈ targets removedHosts then none
  else F h

variable {hosts : List String}

theorem mem_targets {h : String} :
    h ∈ targets hosts ↔ h ≠ "" ∧ ∃ host ∈ hosts, normalizeHost host = h := by
  simp [targets, and_comm]

theorem mem_targets_of_hosts {h : String} (hhosts : ∀ h ∈ hosts, h ≠ "" ∧ normalizeHost h = h) :
    h ∈ targets hosts ↔ h ∈ hosts := by
  rw [mem_targets]
  constructor
  · rintro ⟨-, host, hmem, heq⟩
    rw [← heq, (hhosts host hmem).2]
    exact hmem
  · intro hmem
    obtain ⟨hne, heq⟩ := hhosts h hmem
    exact ⟨hne, h, hmem, heq⟩

theorem mem_targets_concat {host h : String} :
    h ∈ targets (hosts ++ [host])
      ↔ h ∈ targets hosts ∨ (normalizeHost host ≠ "" ∧ normalizeHost host = h) := by
  simp only [mem_targets, List.mem_append, List.mem_singleton]
  constructor
  · rintro ⟨hne, host', hmem | rfl, rfl⟩
    · exact Or.inl ⟨hne, host', hmem, rfl⟩
    · exact Or.inr ⟨hne, rfl⟩
  · rintro (⟨hne, host', hmem, rfl⟩ | ⟨hne, rfl⟩)
    · exact ⟨hne, host', Or.inl hmem, rfl⟩
    · exact ⟨hne, host, Or.inr rfl, rfl⟩

end K8sBridge

namespace MasterM

open K8sBridge

variable {F : Domains} {m : Master}

/-- One of the two loops: it sets every host that is new to it. -/
theorem forNewHost_done {body : SyncResult → String → MasterM SyncResult} {v : Domains}
    (hbody : ∀ (F : Domains) (m : Master) (r : SyncResult) (h : String), Mirrors m.repo F →
      ∃ r' m', Done (body r h) m r' m' ∧ r'.seen = r.seen
        ∧ Mirrors m'.repo (Function.update F h (v h)))
    (hosts : List String) (r : SyncResult) (hm : Mirrors m.repo F) :
    ∃ r' m', Done (hosts.foldlM (forNewHost body) r) m r' m'
      ∧ (∀ h, h ∈ r'.seen ↔ h ∈ r.seen ∨ h ∈ targets hosts)
      ∧ Mirrors m'.repo fun h => if h ∈ targets hosts ∧ h ∉ r.seen then v h else F h := by
  refine Done.foldlM (I := fun pre (r' : SyncResult) (m' : Master) =>
    (∀ h, h ∈ r'.seen ↔ h ∈ r.seen ∨ h ∈ targets pre)
    ∧ Mirrors m'.repo fun h => if h ∈ targets pre ∧ h ∉ r.seen then v h else F h) ?_ hosts ?_
  · rintro pre r' host m' ⟨hseen, hm'⟩
    have hconcat : ∀ h, h ∈ targets (pre ++ [host])
        ↔ h ∈ targets pre ∨ (normalizeHost host ≠ "" ∧ normalizeHost host = h) :=
      fun _ => mem_targets_concat
    unfold forNewHost
    dsimp only
    generalize normalizeHost host = new at hconcat ⊢
    by_cases hold : new = "" ∨ new ∈ r'.seen
    · -- no new host, and nothing changes
      have hmem : ∀ h, (h ∈ targets (pre ++ [host]) ∧ h ∉ r.seen)
          ↔ (h ∈ targets pre ∧ h ∉ r.seen) := by
        intro h
        rw [hconcat]
        constructor
        · rintro ⟨hpre | ⟨hne, rfl⟩, hnot⟩
          · exact ⟨hpre, hnot⟩
          · exact ⟨((hseen _).mp (hold.resolve_left hne)).resolve_left hnot, hnot⟩
        · exact fun ⟨hpre, hnot⟩ => ⟨Or.inl hpre, hnot⟩
      rw [if_pos hold]
      refine ⟨r', m', Done.pure r' m', fun h => ?_, ?_⟩
      · rw [hseen, hconcat]
        constructor
        · exact Or.imp_right Or.inl
        · rintro (hr | hpre | ⟨hne, rfl⟩)
          · exact Or.inl hr
          · exact Or.inr hpre
          · exact (hseen _).mp (hold.resolve_left hne)
      · simpa only [hmem] using hm'
    · obtain ⟨hne, hnew⟩ := not_or.mp hold
      rw [if_neg hold]
      obtain ⟨r'', m'', hdone, hseen', hm''⟩ :=
        hbody _ m' { r' with seen := r'.seen ++ [new] } new hm'
      refine ⟨r'', m'', hdone, fun h => ?_, ?_⟩
      · rw [hseen', List.mem_append, List.mem_singleton, hseen, hconcat, or_assoc]
        refine or_congr_right (or_congr_right ?_)
        exact ⟨fun h => ⟨hne, h.symm⟩, fun h => h.2.symm⟩
      · refine cast (congrArg (Mirrors m''.repo) (funext fun h => ?_)) hm''
        by_cases hh : h = new
        · subst hh
          have hnot : h ∉ r.seen := fun hr => hnew ((hseen h).mpr (Or.inl hr))
          rw [Function.update_self, if_pos ⟨(hconcat h).mpr (Or.inr ⟨hne, rfl⟩), hnot⟩]
        · rw [Function.update_of_ne hh]
          refine if_congr (and_congr_left fun _ => ?_) rfl rfl
          rw [hconcat]
          exact ⟨Or.inl, fun h' => h'.resolve_right fun hx => hh hx.2.symm⟩
  · refine ⟨fun h => ?_, ?_⟩
    · simp [targets]
    · simpa [targets] using hm

theorem syncRemovedHost_done (F : Domains) (m : Master) (r : SyncResult) (h : String)
    (hm : Mirrors m.repo F) :
    ∃ r' m', Done (syncRemovedHost r h) m r' m' ∧ r'.seen = r.seen
      ∧ Mirrors m'.repo (Function.update F h none) := by
  refine ⟨_, _, (deleteManagedDomain_done h m).bind (Done.pure _ _), ?_, hm.deleteDomain h⟩
  split <;> rfl

theorem markIfNeedCert_done (domain : DomainEndpoint) (m : Master) :
    ∃ m', Done (markIfNeedCert domain) m () m' ∧ m'.repo = m.repo := by
  unfold markIfNeedCert
  split
  · unfold markCertificateDesired
    dsimp only
    split
    · exact ⟨m, Done.pure () m, rfl⟩
    · exact ⟨_, Done.effect _ m, rfl⟩
  · exact ⟨m, Done.pure () m, rfl⟩

variable {range : List HTTPRoute → List HTTPRoute}

theorem syncAffectedHost_done (hrange : ∀ l, (range l).Perm l)
    {next : GoMap String DomainMaterialized}
    (hnext : ∀ h item, next.get? h = some item → Managed h item) (F : Domains) (m : Master)
    (r : SyncResult) (h : String) (hm : Mirrors m.repo F) :
    ∃ r' m', Done (syncAffectedHost range next r h) m r' m' ∧ r'.seen = r.seen
      ∧ Mirrors m'.repo (Function.update F h (next.get? h)) := by
  unfold syncAffectedHost
  cases hitem : next.get? h with
  | none => exact syncRemovedHost_done F m r h hm
  | some item =>
    have hm' := hm.upsertDomain hrange (hnext h item hitem)
    obtain ⟨m', hmark, hrepo⟩ := markIfNeedCert_done item.domain
      { m with repo := (upsertDomain range item m.repo).2 }
    refine ⟨_, m', (upsertManagedDomain_done range item m).bind
      (hmark.bind (Done.pure _ m')), ?_, hrepo ▸ hm'⟩
    split <;> rfl

/-- A synchronisation sets the affected hosts to their new domains and
empties the removed ones. -/
theorem syncDomainSet_done (hrange : ∀ l, (range l).Perm l) {next : GoMap String DomainMaterialized}
    (hnext : ∀ h item, next.get? h = some item → Managed h item)
    (affectedHosts removedHosts : List String) (hm : Mirrors m.repo F) :
    ∃ changed m', Done (syncDomainSet range next affectedHosts removedHosts) m changed m'
      ∧ Mirrors m'.repo (synced F next affectedHosts removedHosts) := by
  obtain ⟨r₁, m₁, hdone₁, hseen₁, hm₁⟩ :=
    forNewHost_done (syncAffectedHost_done hrange hnext) affectedHosts {} hm
  obtain ⟨r₂, m₂, hdone₂, -, hm₂⟩ := forNewHost_done syncRemovedHost_done removedHosts r₁ hm₁
  refine ⟨_, m₂, hdone₁.bind (hdone₂.bind (Done.pure _ m₂)), ?_⟩
  refine cast (congrArg (Mirrors m₂.repo) (funext fun h => ?_)) hm₂
  rw [synced]
  by_cases haff : h ∈ targets affectedHosts
  · have hold : h ∈ r₁.seen := (hseen₁ h).mpr (Or.inr haff)
    rw [if_neg fun hx => hx.2 hold, if_pos haff, if_pos ⟨haff, List.not_mem_nil⟩]
  · have hnew : h ∉ r₁.seen := fun hx => ((hseen₁ h).mp hx).elim List.not_mem_nil haff
    rw [if_neg haff, if_neg (c := h ∈ targets affectedHosts ∧ _) fun hx => haff hx.1]
    exact if_congr (and_iff_left hnew) rfl rfl

theorem onUpdates_done (hosts : List String) (m : Master) :
    ∃ m', Done (hosts.forM onUpdate) m () m' ∧ m'.repo = m.repo := by
  have hdone := Done.forM (fun h m => boardcastDomainEndpointProjection_done m h) hosts m
  refine ⟨_, hdone, ?_⟩
  induction hosts generalizing m with
  | nil => rfl
  | cons h hosts ih =>
    rw [List.foldl_cons, ih]
    · rw [Master.boardcast]
      cases m.repo.current ⟨.domainEntryProjection, h⟩ <;> rfl
    · exact Done.forM (fun h m => boardcastDomainEndpointProjection_done m h) hosts _

theorem syncHosts_done {kind : Kind} (hrange : ∀ l, (range l).Perm l)
    {materializeByHost : List String → GoMap String DomainMaterialized}
    {affectedHosts removedHosts : List String}
    (hnext : ∀ h item, (materializeByHost affectedHosts).get? h = some item → Managed h item)
    (hm : Mirrors m.repo F) :
    ∃ m', Done (syncHosts kind range materializeByHost affectedHosts removedHosts) m () m'
      ∧ Mirrors m'.repo
        (synced F (materializeByHost affectedHosts) affectedHosts removedHosts) := by
  obtain ⟨changed, m₁, hdone, hm₁⟩ := syncDomainSet_done hrange hnext affectedHosts removedHosts hm
  obtain ⟨m₂, hupdate, hrepo⟩ := onUpdates_done (kind.updates changed.1 changed.2) m₁
  exact ⟨m₂, hdone.bind hupdate, hrepo ▸ hm₁⟩

end MasterM

end LunaEdge
