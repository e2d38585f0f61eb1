import LunaEdge.Repository

/-!
# The projection of a domain

`GetDomainEntryProjectionByDomain` joins the endpoint of a host name with
its newest certificate, its routes, their backends and the bound backend,
and folds the joined rows into one `DomainEntryProjection`. The query is
kept as it is written, as a chain of left joins over the tables followed
by the loop over the rows, so that duplicates and orderings come out as
in the source.

What the replication proofs need is only what the query says about the
endpoint: it finds nothing exactly when there is no live endpoint
(`getDomainEntryProjectionByDomain_eq_notFound`), it has no other error,
and what it finds is never marked deleted
(`getDomainEntryProjectionByDomain_ok`).
-/

namespace LunaEdge

/-! ## The joined rows -/

structure DomainEntryProjectionRow where
  domain : DomainEndpoint
  cert : Option CertificateRevision
  route : Option HTTPRoute
  routeBackend : Option ServiceBackendRef
  bindedBackend : Option ServiceBackendRef
deriving Repr, DecidableEq

/-- The right-hand side of a `LEFT JOIN`: the matches, or one row of nulls. -/
def leftJoin {β : Type} : List β → List (Option β)
  | [] => [none]
  | b :: bs => (b :: bs).map some

theorem leftJoin_ne_nil {β : Type} : (l : List β) → leftJoin l ≠ []
  | [] => by simp [leftJoin]
  | _ :: _ => by simp [leftJoin]

namespace Repo

/-- The live revisions of `hostname` that carry the greatest number. -/
def latestCertificates (repo : Repo) (hostname : String) :
    List CertificateRevision :=
  let certs := repo.certificateRevisions.select fun cr =>
    !cr.deleted && cr.hostname == hostname
  certs.filter fun cr => some cr.revision == (certs.map (·.revision)).max?

def joinDomain (repo : Repo) (de : DomainEndpoint) :
    List DomainEntryProjectionRow :=
  (leftJoin (repo.latestCertificates de.hostname)).flatMap fun cr =>
  (leftJoin (repo.httpRoutes.select fun hr =>
    hr.hostname == de.hostname && !hr.deleted)).flatMap fun hr =>
  (leftJoin (repo.serviceBackendRefs.select fun sbr =>
    hr.any (·.backendRefID == sbr.id) && !sbr.deleted)).flatMap fun routeSbr =>
  (leftJoin (repo.serviceBackendRefs.select fun sbr =>
    sbr.id == de.bindedServiceID && !sbr.deleted)).map fun bindedSbr =>
  ⟨de, cr, hr, routeSbr, bindedSbr⟩

/-- `ORDER BY hr.priority DESC, LENGTH(hr.path) DESC, hr.id ASC`. Either
every row has a route or none has, so nulls are never compared. -/
def rowOrder (a b : DomainEntryProjectionRow) : Bool :=
  match a.route, b.route with
  | some r, some s => routeOrder r s
  | _, _ => true

def projectionRows (repo : Repo) (domain : String) :
    List DomainEntryProjectionRow :=
  ((repo.domainEndpoints.select fun de =>
    !de.deleted && de.hostname == domain).flatMap repo.joinDomain).insertionSort
      fun a b => rowOrder a b = true

theorem joinDomain_ne_nil (repo : Repo) (de : DomainEndpoint) : repo.joinDomain de ≠ [] := by
  simp only [joinDomain, ne_eq, List.flatMap_eq_nil_iff, List.map_eq_nil_iff]
  intro h
  obtain ⟨cr, hcr⟩ := List.exists_mem_of_ne_nil _
    (leftJoin_ne_nil (repo.latestCertificates de.hostname))
  obtain ⟨hr, hhr⟩ := List.exists_mem_of_ne_nil _ (leftJoin_ne_nil
    (repo.httpRoutes.select fun hr => hr.hostname == de.hostname && !hr.deleted))
  obtain ⟨sbr, hsbr⟩ := List.exists_mem_of_ne_nil _ (leftJoin_ne_nil
    (repo.serviceBackendRefs.select fun sbr =>
      hr.any (·.backendRefID == sbr.id) && !sbr.deleted))
  exact leftJoin_ne_nil _ (h cr hcr hr hhr sbr hsbr)

variable {repo : Repo}

theorem domain_of_mem_joinDomain {de : DomainEndpoint} {row : DomainEntryProjectionRow}
    (h : row ∈ repo.joinDomain de) : row.domain = de := by
  simp only [joinDomain, List.mem_flatMap, List.mem_map] at h
  obtain ⟨cr, -, hr, -, sbr, -, binded, -, rfl⟩ := h
  rfl

theorem live_of_mem_projectionRows {h : String} {row : DomainEntryProjectionRow}
    (hrow : row ∈ repo.projectionRows h) : repo.domainEndpoints.live? h = some row.domain := by
  rw [projectionRows, List.mem_insertionSort, List.mem_flatMap] at hrow
  obtain ⟨de, hde, hjoin⟩ := hrow
  rw [domain_of_mem_joinDomain hjoin, Table.live?_eq_some_iff, Table.find?_eq_some_iff]
  simp only [Table.select, List.mem_filter, Bool.and_eq_true, beq_iff_eq] at hde
  have hdel : de.deleted = false := by simpa using hde.2.1
  exact ⟨⟨hde.1, hde.2.2⟩, hdel⟩

theorem projectionRows_eq_nil_iff {h : String} :
    repo.projectionRows h = [] ↔ repo.domainEndpoints.live? h = none := by
  constructor
  · intro hnil
    by_contra hlive
    obtain ⟨de, hde⟩ := Option.ne_none_iff_exists'.mp hlive
    obtain ⟨hfind, hdel⟩ := Table.live?_eq_some_iff.mp hde
    obtain ⟨hmem, hkey⟩ := Table.find?_eq_some_iff.mp hfind
    obtain ⟨row, hrow⟩ := List.exists_mem_of_ne_nil _ (repo.joinDomain_ne_nil de)
    have hsel : de ∈ repo.domainEndpoints.select fun de =>
        !de.deleted && de.hostname == h := by
      have hdel' : de.deleted = false := hdel
      have hkey' : de.hostname = h := hkey
      simp [Table.select, hmem, hdel', hkey']
    have hrow' : row ∈ repo.projectionRows h := by
      rw [projectionRows, List.mem_insertionSort]
      exact List.mem_flatMap.mpr ⟨de, hsel, hrow⟩
    rw [hnil] at hrow'
    cases hrow'
  · intro hlive
    refine List.eq_nil_iff_forall_not_mem.mpr fun row hrow => ?_
    rw [live_of_mem_projectionRows hrow] at hlive
    cases hlive

end Repo

/-! ## From rows to a projection -/

/-- An empty type reads back as `SVC`. -/
def derefServiceBackendType (t : ServiceBackendType) : ServiceBackendType :=
  if t = .unset then .svc else t

/-- The selected backend columns; a null or empty id means no backend. -/
def DomainEntryProjectionRow.backendRef :
    Option ServiceBackendRef → Option ServiceBackendRef
  | none => none
  | some b =>
    if b.id = "" then none
    else some
      { id := b.id
        type := derefServiceBackendType b.type
        arbitraryEndpoint := b.arbitraryEndpoint
        serviceNamespace := b.serviceNamespace
        serviceName := b.serviceName
        port := b.port }

/-- The selected certificate columns: the validity dates are not among them. -/
def DomainEntryProjectionRow.certificate (row : DomainEntryProjectionRow) :
    Option CertificateRevision :=
  match row.cert with
  | none => none
  | some cr =>
    if cr.id = "" then none
    else some
      { id := cr.id
        hostname := cr.hostname
        revision := cr.revision
        provider := cr.provider
        challengeType := cr.challengeType
        artifactBucket := cr.artifactBucket
        artifactPrefix := cr.artifactPrefix
        sha256Crt := cr.sha256Crt
        sha256Key := cr.sha256Key }

/-- The loop over the rows, with the ids already seen. -/
def collectRoutes :
    List DomainEntryProjectionRow → List String → List HTTPRouteProjection
  | [], _ => []
  | row :: rows, seenRoutes =>
    match row.route with
    | none => collectRoutes rows seenRoutes
    | some r =>
      if r.id = "" ∨ r.id ∈ seenRoutes then collectRoutes rows seenRoutes
      else
        { id := r.id
          path := r.path
          priority := r.priority
          backendRef := DomainEntryProjectionRow.backendRef row.routeBackend }
          :: collectRoutes rows (r.id :: seenRoutes)

namespace Repo

def getDomainEntryProjectionByDomain (repo : Repo) (domain : String) :
    Except RepoError DomainEntryProjection :=
  match repo.projectionRows domain with
  | [] => .error .recordNotFound
  | first :: rest =>
    let projection : DomainEntryProjection :=
      { hostname := first.domain.hostname
        needCert := first.domain.needCert
        backendType := first.domain.backendType
        cert := first.certificate }
    if first.domain.backendType.isL4 then
      .ok { projection with
        bindedBackendRef := DomainEntryProjectionRow.backendRef first.bindedBackend }
    else
      .ok { projection with httpRoutes := collectRoutes (first :: rest) [] }

theorem getDomainEntryProjectionByDomain_eq_notFound {repo : Repo} {h : String} {e : RepoError} :
    repo.getDomainEntryProjectionByDomain h = .error e ↔
      e = .recordNotFound ∧ repo.domainEndpoints.live? h = none := by
  rw [← projectionRows_eq_nil_iff, getDomainEntryProjectionByDomain]
  cases repo.projectionRows h with
  | nil =>
    simp only [and_true, Except.error.injEq]
    exact eq_comm
  | cons first rest =>
    dsimp only
    split <;> simp

theorem getDomainEntryProjectionByDomain_ok {repo : Repo} {h : String} {p : DomainEntryProjection}
    (hp : repo.getDomainEntryProjectionByDomain h = .ok p) :
    p.hostname = h ∧ p.deleted = false := by
  rw [getDomainEntryProjectionByDomain] at hp
  cases hrows : repo.projectionRows h with
  | nil => rw [hrows] at hp; cases hp
  | cons first rest =>
    have hmem : first ∈ repo.projectionRows h := by rw [hrows]; simp
    have hlive := Table.live?_eq_some_iff.mp (live_of_mem_projectionRows hmem)
    have hhost : first.domain.hostname = h := Table.key_of_find? hlive.1
    simp only [hrows] at hp
    split at hp <;> · cases hp; exact ⟨hhost, rfl⟩

end Repo

end LunaEdge
