import LunaEdge.ProjectionQuery
import LunaEdge.S3Bundles

/-!
# Numbers of certificates

The number of a new certificate is one more than that of the latest live
row of the host, and it names the objects its bundle is stored under. The
read of the latest row may fail, and then the number is one, as for a host
that has no certificate yet.

Along runs of `IssueCertificate` whose host names and ids do not collide,
every row that is written has a greater number than the live rows of its
host, is the one that the projection of the host selects, and has a bundle
that overwrites no other, exactly if no such read fails for a host that has
a live row (`increases_iff_readsLatest`). One failed read is enough to
number a renewal like the first certificate (`failed_read_repeats_number`).
-/

namespace LunaEdge

namespace Acme

open Session Runs K8sBridge

/-! ## Calls -/

structure IssueCall where
  req : IssueRequest
  answers : Answers
  faults : List (Option IssueError) := []

inductive IssueEvent where
  | issue (call : IssueCall)
  | write (repo : Repo)

def issueStep (svc : Service) (s : State) : IssueEvent → State
  | .issue call => (issueCertificate svc call.answers call.req ⟨s, call.faults⟩).2.state
  | .write repo =>
    { s with repo := { repo with certificateRevisions := s.repo.certificateRevisions } }

/-- `IssueCertificate` up to the row. -/
def persistCertificate (svc : Service) (answers : Answers) (req : IssueRequest) :
    AcmeM (CertificateRevision × CertificateBundle) := do
  let prepared ← prepareCertificate svc answers req
  update fun s => { s with repo := s.repo.upsertResource prepared.1 }
  pure prepared

def persisted (svc : Service) (s : State) (call : IssueCall) :
    Option (CertificateRevision × CertificateBundle) :=
  (persistCertificate svc call.answers call.req ⟨s, call.faults⟩).1.toOption

/-- The read in `nextRevision` is the second statement of a call. -/
def IssueCall.readFault (call : IssueCall) : Option IssueError := call.faults.tail.head?.join

/-! ## What is asked of a call -/

structure Raised (s t : State) (cert : CertificateRevision) (bundle : CertificateBundle) :
    Prop where
  greater : ∀ row ∈ hostCertificates s.repo cert.hostname, row.revision < cert.revision
  selected : ∃ entry, t.repo.getDomainEntryProjectionByDomain cert.hostname = .ok entry
    ∧ entry.cert.map (fun c => (c.id, c.revision)) = some (cert.id, cert.revision)
  kept : ∀ other ∈ s.stored, ∀ marshal objects n,
    ∀ key ∈ S3.revisionKeys other.hostname other.revision,
      S3.putCertificateBundle marshal objects bundle n key = objects key

def Increases (svc : Service) (s : State) : IssueEvent → Prop
  | .issue call => ∀ cert bundle, persisted svc s call = some (cert, bundle) →
      Raised s (issueStep svc s (.issue call)) cert bundle
  | .write _ => True

/-- A call that writes a row has read the latest one, if there is one, and
there is a next number. -/
def ReadsLatest (svc : Service) (s : State) : IssueEvent → Prop
  | .issue call => (persisted svc s call).isSome →
      hostCertificates s.repo call.req.hostname = []
        ∨ call.readFault = none
          ∧ ∀ row ∈ hostCertificates s.repo call.req.hostname, row.revision + 1 < UInt64.size
  | .write _ => True

/-- The host name is the one the bundle store uses, and the id is new. -/
def Distinct (s : State) : IssueEvent → Prop
  | .issue call => S3.NormalHost call.req.hostname
      ∧ s.repo.certificateRevisions.find? ("certrev-" ++ call.answers.idSuffix) = none
  | .write _ => True

/-! ## What a call writes -/

section

variable {svc : Service} {s : State} {call : IssueCall} {cert : CertificateRevision}
  {bundle : CertificateBundle}

def nextNumber (repo : Repo) (hostname : String) : Option IssueError → Nat
  | some _ => 1
  | none =>
    match repo.getLatestCertificateRevision hostname with
    | .error _ => 1
    | .ok cert => (cert.revision + 1) % UInt64.size

theorem nextRevision_eq (hostname : String) (w : World IssueError State) :
    nextRevision hostname w
      = (.ok (nextNumber w.state.repo hostname w.faults.head?.join), ⟨w.state, w.faults.tail⟩) := by
  unfold nextRevision
  rw [bind_ok (attempt_query _ w)]
  cases w.faults.head?.join with
  | some e => rfl
  | none =>
    rw [nextNumber]
    cases w.state.repo.getLatestCertificateRevision hostname <;> rfl

theorem prepareCertificate_eq_ok {answers : Answers} {req : IssueRequest}
    {w w' : World IssueError State}
    (h : prepareCertificate svc answers req w = (.ok (cert, bundle), w')) :
    (∃ domain, w.state.repo.domainEndpoints.live? req.hostname = some domain)
      ∧ cert.id = "certrev-" ++ answers.idSuffix ∧ cert.deleted = false
      ∧ cert.hostname = req.hostname
      ∧ cert.revision = nextNumber w.state.repo req.hostname w.faults.tail.head?.join
      ∧ bundle.hostname = cert.hostname ∧ bundle.revision = cert.revision
      ∧ w'.state.repo.domainEndpoints = w.state.repo.domainEndpoints
      ∧ Unissued w.state w'.state := by
  unfold prepareCertificate at h
  obtain ⟨domain, v, hdomain, h⟩ := bind_eq_ok h
  obtain ⟨-, hfound, rfl⟩ := query_eq_ok hdomain
  obtain ⟨issuerCfg, v, hcfg, h⟩ := bind_eq_ok h
  obtain ⟨-, rfl⟩ := answer_eq_ok hcfg
  obtain ⟨number, v, hnext, h⟩ := bind_eq_ok h
  rw [nextRevision_eq] at hnext
  obtain ⟨hnumber, rfl⟩ := Prod.mk.inj hnext
  obtain ⟨_, v, hissuer, h⟩ := bind_eq_ok h
  obtain ⟨-, rfl⟩ := answer_eq_ok hissuer
  obtain ⟨_, v, hchallenges, h⟩ := bind_eq_ok h
  obtain ⟨-, rfl⟩ := Prod.mk.inj hchallenges
  obtain ⟨resource, v, hresource, h⟩ := bind_eq_ok h
  obtain ⟨hobtained, rfl⟩ := answer_eq_ok hresource
  obtain ⟨⟨certBundle, certRevision⟩, v, hbuild, h⟩ := bind_eq_ok h
  obtain ⟨hbuilt, rfl⟩ := answer_eq_ok hbuild
  obtain ⟨hpair, rfl⟩ := Prod.mk.inj h
  obtain ⟨rfl, rfl⟩ := Prod.mk.inj (Except.ok.inj hpair)
  obtain ⟨hhost, hrevision⟩ := buildBundleAndRevision_eq_ok hbuilt
  have hlive : w.state.repo.domainEndpoints.live? req.hostname = some domain := by
    have hread : w.state.repo.getDomainEndpointByHostname req.hostname
        = orNotFound (w.state.repo.domainEndpoints.live? req.hostname) :=
      Table.getResourceByField_primary _ _
    rw [hread] at hfound
    cases hrow : w.state.repo.domainEndpoints.live? req.hostname with
    | none =>
      rw [hrow] at hfound
      cases hfound
    | some row =>
      rw [hrow] at hfound
      cases hfound
      rfl
  have hname : domain.hostname = req.hostname := Table.key_of_live? hlive
  rw [hname] at hnumber
  refine ⟨⟨domain, hlive⟩, rfl, rfl, hname, (Except.ok.inj hnumber).symm, ?_, hrevision, rfl,
    rfl, rfl⟩
  exact hhost.trans (answers.domain_obtained _ _ hobtained)

theorem storeBundle_within (svc : Service) (answers : Answers) (cert : CertificateRevision)
    (bundle : CertificateBundle) (t : State) :
    Within (do storeBundle svc answers bundle; answer answers.notify; pure cert) t fun _ u =>
      u.repo = t.repo ∧ (u.stored = t.stored ∨ u.stored = t.stored ++ [bundle]) := by
  refine Within.bind
    (P := fun _ u => u.repo = t.repo ∧ (u.stored = t.stored ∨ u.stored = t.stored ++ [bundle]))
    ?_ (fun _ _ h => h) fun _ u hu => ?_
  · rw [storeBundle]
    split
    · refine Within.bind (P := fun _ u => u = t) (Within.answer rfl) ?_ ?_
      · rintro e u rfl
        exact ⟨rfl, Or.inl rfl⟩
      · rintro _ u rfl
        exact fun _ => ⟨rfl, Or.inr rfl⟩
    · exact Within.pure ⟨rfl, Or.inl rfl⟩
  · exact Within.bind (P := fun _ v => v.repo = t.repo
      ∧ (v.stored = t.stored ∨ v.stored = t.stored ++ [bundle])) (Within.answer hu)
      (fun _ _ h => h) fun _ _ h => Within.pure h

/-- What a call that writes a row does to the state. -/
structure Persists (s t : State) (cert : CertificateRevision) (bundle : CertificateBundle) :
    Prop where
  rows : t.repo.certificateRevisions = s.repo.certificateRevisions.upsertResource cert
  domains : t.repo.domainEndpoints = s.repo.domainEndpoints
  stored : t.stored = s.stored ∨ t.stored = s.stored ++ [bundle]

theorem issueCertificate_eq (svc : Service) (answers : Answers) (req : IssueRequest) :
    issueCertificate svc answers req = persistCertificate svc answers req >>= fun prepared =>
      (do storeBundle svc answers prepared.2; answer answers.notify; pure prepared.1) := by
  rw [issueCertificate, persistCertificate, bind_bind]
  refine congrArg _ (funext fun prepared => ?_)
  rw [bind_bind]
  rfl

theorem persistCertificate_within (svc : Service) (answers : Answers) (req : IssueRequest)
    (s : State) : Within (persistCertificate svc answers req) s fun r t =>
      ∀ e, r = .error e → Unissued s t := by
  refine Within.bind (prepareCertificate_within svc answers req s) (fun e t h _ _ => h.1) ?_
  rintro prepared t ⟨ht, -⟩
  refine Within.bind (P := fun r u => ∀ e, r = .error e → Unissued s u) ?_
    (fun e u h e' _ => h e rfl) fun _ u _ => Within.pure fun e he => by cases he
  exact Within.statement (fun e _ _ => ht) fun a u _ e he => by cases he

theorem persistCertificate_eq_ok {answers : Answers} {req : IssueRequest}
    {w w' : World IssueError State}
    (h : persistCertificate svc answers req w = (.ok (cert, bundle), w')) :
    ∃ v, prepareCertificate svc answers req w = (.ok (cert, bundle), v)
      ∧ w'.state = { v.state with repo := v.state.repo.upsertResource cert } := by
  obtain ⟨prepared, v, hprepare, h⟩ := bind_eq_ok h
  obtain ⟨_, v', hupdate, h⟩ := bind_eq_ok h
  obtain ⟨-, hstate, -⟩ := statement_eq_ok hupdate
  cases h
  exact ⟨v, hprepare, (congrArg Prod.snd (Except.ok.inj hstate)).symm⟩

theorem unissued_of_persisted_none (h : persisted svc s call = none) :
    Unissued s (issueStep svc s (.issue call)) := by
  rw [persisted] at h
  rw [issueStep, issueCertificate_eq]
  have hwithin := persistCertificate_within svc call.answers call.req s call.faults
  rcases hrun : persistCertificate svc call.answers call.req ⟨s, call.faults⟩ with ⟨e | a, v⟩
  · rw [hrun] at hwithin
    rw [bind_error hrun]
    exact hwithin e rfl
  · rw [hrun] at h
    cases h

theorem persists_of_persisted (h : persisted svc s call = some (cert, bundle)) :
    Persists s (issueStep svc s (.issue call)) cert bundle
      ∧ ∃ v, prepareCertificate svc call.answers call.req ⟨s, call.faults⟩
        = (.ok (cert, bundle), v) := by
  rw [persisted] at h
  rw [issueStep, issueCertificate_eq]
  rcases hrun : persistCertificate svc call.answers call.req ⟨s, call.faults⟩ with ⟨e | a, w⟩
  · rw [hrun] at h
    cases h
  · rw [hrun] at h
    cases h
    obtain ⟨v, hprepare, hstate⟩ := persistCertificate_eq_ok hrun
    obtain ⟨-, -, -, -, -, -, -, hdomains, hrows, hstored⟩ := prepareCertificate_eq_ok hprepare
    have hrest := storeBundle_within svc call.answers cert bundle w.state w.faults
    rw [bind_ok hrun]
    refine ⟨⟨?_, ?_, ?_⟩, v, hprepare⟩
    · rw [hrest.1, hstate]
      exact congrArg (Table.upsertResource · cert) hrows
    · rw [hrest.1, hstate]
      exact hdomains
    · have hkeep : w.state.stored = s.stored := by
        rw [hstate]
        exact hstored
      have hmore := hrest.2
      rw [hkeep] at hmore
      exact hmore

/-! ## The live rows -/

variable {repo : Repo} {host : String}

theorem mem_hostCertificates {h : String} {row : CertificateRevision} :
    row ∈ hostCertificates repo h
      ↔ repo.certificateRevisions.live? row.id = some row ∧ row.hostname = h := by
  rw [Table.live?_eq_some_iff, Table.find?_eq_some_iff]
  simp only [hostCertificates, Table.select, List.mem_filter, Bool.and_eq_true, beq_iff_eq,
    Bool.not_eq_true']
  constructor
  · rintro ⟨hmem, hdel, hhost⟩
    exact ⟨⟨⟨hmem, rfl⟩, hdel⟩, hhost⟩
  · rintro ⟨⟨⟨hmem, -⟩, hdel⟩, hhost⟩
    exact ⟨hmem, hdel, hhost⟩

/-- The rows after a call: the new one, and the old ones with other ids. -/
theorem Persists.mem_iff {t : State} (h : Persists s t cert bundle) (hlive : cert.deleted = false)
    {row : CertificateRevision} :
    row ∈ hostCertificates t.repo host
      ↔ (row = cert ∧ cert.hostname = host)
        ∨ (row.id ≠ cert.id ∧ row ∈ hostCertificates s.repo host) := by
  have hrow : t.repo.certificateRevisions.live? row.id
      = if cert.id = row.id then some cert else s.repo.certificateRevisions.live? row.id := by
    have hlive? := s.repo.certificateRevisions.live?_upsertResource cert row.id
    rw [← h.rows] at hlive?
    rw [hlive?]
    show (if cert.id = row.id then if cert.deleted = true then none else some cert else _) = _
    rw [hlive, if_neg Bool.false_ne_true]
  rw [mem_hostCertificates, mem_hostCertificates, hrow]
  by_cases hid : cert.id = row.id
  · rw [if_pos hid]
    constructor
    · rintro ⟨heq, hhost⟩
      cases heq
      exact Or.inl ⟨rfl, hhost⟩
    · rintro (⟨rfl, hhost⟩ | ⟨hne, -⟩)
      · exact ⟨rfl, hhost⟩
      · exact absurd hid.symm hne
  · rw [if_neg hid]
    constructor
    · exact fun hold => Or.inr ⟨fun heq => hid heq.symm, hold⟩
    · rintro (⟨rfl, -⟩ | ⟨-, hold⟩)
      · exact absurd rfl hid
      · exact hold

theorem Persists.selected {t : State} (h : Persists s t cert bundle) (hlive : cert.deleted = false)
    (hid : cert.id ≠ "")
    (hgreater : ∀ row ∈ hostCertificates s.repo cert.hostname, row.revision < cert.revision)
    {domain : DomainEndpoint}
    (hdomain : s.repo.domainEndpoints.live? cert.hostname = some domain) :
    ∃ entry, t.repo.getDomainEntryProjectionByDomain cert.hostname = .ok entry
      ∧ entry.cert.map (fun c => (c.id, c.revision)) = some (cert.id, cert.revision) := by
  have hread := getDomainEntryProjectionByDomain_eq t.repo cert.hostname
  rw [h.domains, hdomain] at hread
  refine ⟨projectionOf t.repo domain, hread, ?_⟩
  have hname : domain.hostname = cert.hostname := Table.key_of_live? hdomain
  have hnew : cert ∈ hostCertificates t.repo cert.hostname :=
    (h.mem_iff hlive).mpr (Or.inl ⟨rfl, rfl⟩)
  have hhead : (t.repo.latestCertificates cert.hostname).head? = some cert := by
    cases hfirst : (t.repo.latestCertificates cert.hostname).head? with
    | none =>
      rw [List.head?_eq_none_iff, latestCertificates_eq_nil_iff] at hfirst
      rw [hfirst] at hnew
      cases hnew
    | some first =>
      obtain ⟨hmem, hgreatest⟩ := revision_of_latest hfirst
      rcases (h.mem_iff hlive).mp hmem with ⟨rfl, -⟩ | ⟨-, hold⟩
      · rfl
      · have hlt := hgreater first hold
        have hle := hgreatest cert hnew
        omega
  rw [projectionOf, hname, hhead]
  simp [joinedRow, DomainEntryProjectionRow.certificate, hid]

/-! ## Numbers along a run -/

/-- The numbers start at one, and every stored bundle belongs to a live row. -/
structure Numbered (s : State) : Prop where
  positive : ∀ host, ∀ row ∈ hostCertificates s.repo host, 1 ≤ row.revision
  bundled : ∀ bundle ∈ s.stored, S3.NormalHost bundle.hostname
    ∧ ∃ row ∈ hostCertificates s.repo bundle.hostname, row.revision = bundle.revision

theorem getLatest_of_ne_nil (hne : hostCertificates repo host ≠ []) :
    ∃ latest, repo.getLatestCertificateRevision host = .ok latest := by
  cases hlatest : repo.getLatestCertificateRevision host with
  | ok latest => exact ⟨latest, rfl⟩
  | error e =>
    obtain ⟨hhead, -⟩ := orNotFound_eq_error_iff.mp hlatest
    exact absurd (List.perm_nil.mp (List.head?_eq_none_iff.mp hhead ▸
      (List.perm_insertionSort Repo.revisionOrder (hostCertificates repo host)).symm)) hne

theorem nextNumber_of_nil (hnil : hostCertificates repo host = []) (fault : Option IssueError) :
    nextNumber repo host fault = 1 := by
  cases fault with
  | some e => rfl
  | none =>
    rw [nextNumber]
    cases hlatest : repo.getLatestCertificateRevision host with
    | error e => rfl
    | ok latest =>
      have hmem := (revision_of_getLatest hlatest).1
      rw [hnil] at hmem
      cases hmem

/-- The next number is greater than all others exactly if the latest row
was read and is not the last there can be. -/
theorem lt_nextNumber_iff (hs : Numbered s) (host : String) (fault : Option IssueError) :
    (∀ row ∈ hostCertificates s.repo host, row.revision < nextNumber s.repo host fault)
      ↔ hostCertificates s.repo host = []
        ∨ fault = none ∧ ∀ row ∈ hostCertificates s.repo host, row.revision + 1 < UInt64.size := by
  by_cases hnil : hostCertificates s.repo host = []
  · simp [hnil]
  · obtain ⟨latest, hlatest⟩ := getLatest_of_ne_nil hnil
    obtain ⟨hmem, hgreatest⟩ := revision_of_getLatest hlatest
    cases fault with
    | some e =>
      have hpositive := hs.positive host latest hmem
      refine iff_of_false (fun h => ?_) (by simp [hnil])
      have hlt : latest.revision < 1 := h latest hmem
      omega
    | none =>
      simp only [nextNumber, hlatest, hnil, false_or, true_and]
      constructor
      · intro h row hrow
        have hlt := h latest hmem
        have hle := hgreatest row hrow
        have hmod := Nat.mod_lt (latest.revision + 1) (show 0 < UInt64.size by decide)
        omega
      · intro h row hrow
        have hle := hgreatest row hrow
        rw [Nat.mod_eq_of_lt (h latest hmem)]
        omega

theorem Numbered.kept (hs : Numbered s) (hhost : S3.NormalHost bundle.hostname)
    (hgreater : ∀ row ∈ hostCertificates s.repo bundle.hostname, row.revision < bundle.revision)
    {other : CertificateBundle} (hother : other ∈ s.stored) (marshal : String → Nat → String)
    (objects : S3.Objects) (n : Nat) {key : String}
    (hkey : key ∈ S3.revisionKeys other.hostname other.revision) :
    S3.putCertificateBundle marshal objects bundle n key = objects key := by
  obtain ⟨hnormal, row, hrow, hrevision⟩ := hs.bundled other hother
  refine S3.put_of_other hhost hnormal ?_ n hkey
  rintro ⟨hsame, heq⟩
  rw [← hsame] at hrow
  have hlt := hgreater row hrow
  omega

/-- What a call that writes a row has read and is asked for. -/
theorem raised_iff (hs : Numbered s) (he : Distinct s (.issue call))
    (hpersisted : persisted svc s call = some (cert, bundle)) :
    (hostCertificates s.repo call.req.hostname = []
        ∨ call.readFault = none
          ∧ ∀ row ∈ hostCertificates s.repo call.req.hostname, row.revision + 1 < UInt64.size)
      ↔ Raised s (issueStep svc s (.issue call)) cert bundle := by
  obtain ⟨hpersists, v, hprepare⟩ := persists_of_persisted hpersisted
  obtain ⟨⟨domain, hdomain⟩, hid, hlive, hhost, hnumber, hbundle, hrevision, -⟩ :=
    prepareCertificate_eq_ok hprepare
  have hnext : cert.revision = nextNumber s.repo call.req.hostname call.readFault := hnumber
  rw [← lt_nextNumber_iff hs, ← hnext]
  rw [← hhost] at hdomain ⊢
  constructor
  · intro hgreater
    have hne : cert.id ≠ "" := by
      intro hempty
      rw [hid] at hempty
      have hlist := congrArg String.toList hempty
      simp at hlist
    refine ⟨hgreater, hpersists.selected hlive hne hgreater hdomain, ?_⟩
    intro other hother marshal objects n key hkey
    have hnormal : S3.NormalHost bundle.hostname := by
      rw [hbundle, hhost]
      exact he.1
    rw [← hbundle, ← hrevision] at hgreater
    exact hs.kept hnormal hgreater hother marshal objects n hkey
  · exact Raised.greater

theorem readsLatest_iff (hs : Numbered s) {e : IssueEvent} (he : Distinct s e) :
    Increases svc s e ↔ ReadsLatest svc s e := by
  cases e with
  | write repo => exact Iff.rfl
  | issue call =>
    rw [Increases, ReadsLatest]
    constructor
    · intro h hsome
      obtain ⟨⟨cert, bundle⟩, hpersisted⟩ := Option.isSome_iff_exists.mp hsome
      exact (raised_iff hs he hpersisted).mpr (h cert bundle hpersisted)
    · intro h cert bundle hpersisted
      exact (raised_iff hs he hpersisted).mp (h (by rw [hpersisted]; rfl))

theorem Numbered.step (hs : Numbered s) {e : IssueEvent} (he : Distinct s e)
    (hincreases : Increases svc s e) : Numbered (issueStep svc s e) := by
  cases e with
  | write repo => exact ⟨hs.positive, hs.bundled⟩
  | issue call =>
    cases hpersisted : persisted svc s call with
    | none =>
      obtain ⟨hrows, hstored⟩ := unissued_of_persisted_none hpersisted
      refine ⟨?_, ?_⟩
      · unfold hostCertificates
        rw [hrows]
        exact hs.positive
      · unfold hostCertificates
        rw [hrows, hstored]
        exact hs.bundled
    | some prepared =>
      obtain ⟨cert, bundle⟩ := prepared
      obtain ⟨hpersists, v, hprepare⟩ := persists_of_persisted hpersisted
      obtain ⟨-, hid, hlive, hhost, hnumber, hbundle, hrevision, -⟩ :=
        prepareCertificate_eq_ok hprepare
      have hgreater := (hincreases cert bundle hpersisted).greater
      have hpositive : 1 ≤ cert.revision := by
        by_cases hnil : hostCertificates s.repo cert.hostname = []
        · rw [hhost] at hnil
          rw [hnumber, nextNumber_of_nil hnil]
        · obtain ⟨row, hrow⟩ := List.exists_mem_of_ne_nil _ hnil
          exact Nat.lt_of_le_of_lt (Nat.zero_le _) (hgreater row hrow)
      have hnew : ∀ {host : String} {row : CertificateRevision},
          row ∈ hostCertificates s.repo host →
          row ∈ hostCertificates (issueStep svc s (.issue call)).repo host := by
        intro host row hrow
        refine (hpersists.mem_iff hlive).mpr (Or.inr ⟨fun heq => ?_, hrow⟩)
        obtain ⟨hfind, -⟩ := Table.live?_eq_some_iff.mp (mem_hostCertificates.mp hrow).1
        rw [heq, hid, he.2] at hfind
        cases hfind
      refine ⟨fun host row hrow => ?_, fun other hother => ?_⟩
      · rcases (hpersists.mem_iff hlive).mp hrow with ⟨rfl, -⟩ | ⟨-, hold⟩
        · exact hpositive
        · exact hs.positive host row hold
      · have hcases : other ∈ s.stored ∨ other = bundle := by
          rcases hpersists.stored with hsame | hmore
          · exact Or.inl (hsame ▸ hother)
          · rw [hmore, List.mem_append, List.mem_singleton] at hother
            exact hother
        rcases hcases with hold | rfl
        · obtain ⟨hnormal, row, hrow, heq⟩ := hs.bundled other hold
          exact ⟨hnormal, row, hnew hrow, heq⟩
        · rw [hbundle]
          refine ⟨hhost ▸ he.1, cert, ?_, hrevision.symm⟩
          exact (hpersists.mem_iff hlive).mpr (Or.inl ⟨rfl, rfl⟩)

/-- From a repository without certificates. -/
theorem increases_iff_readsLatest (svc : Service) (repo : Repo)
    (hempty : repo.certificateRevisions = .empty) (events : List IssueEvent)
    (hdistinct : Along (issueStep svc) Distinct ⟨repo, [], []⟩ events) :
    Along (issueStep svc) (Increases svc) ⟨repo, [], []⟩ events
      ↔ Along (issueStep svc) (ReadsLatest svc) ⟨repo, [], []⟩ events := by
  refine along_congr (I := Numbered) (fun s e hs he hp => hs.step he hp)
    (fun s e hs he => readsLatest_iff hs he) hdistinct ⟨fun host row hrow => ?_, by simp⟩
  rw [hostCertificates, hempty] at hrow
  cases hrow

end

/-! ## A failed read -/

def exampleCall (suffix : String) (faults : List (Option IssueError)) : IssueCall where
  req := { hostname := "edge.test", provider := .letsEncrypt, challengeType := .http01 }
  answers := { exampleAnswers (.ok ()) (.ok ()) with idSuffix := suffix }
  faults := faults

def exampleFirst : State :=
  issueStep exampleReconciler.issuer ⟨exampleRepo, [], []⟩ (.issue (exampleCall "0" []))

theorem normalHost_example : S3.NormalHost "edge.test" := ⟨by decide +kernel, by decide, by decide⟩

theorem distinct_example (faults : List (Option IssueError)) :
    Along (issueStep exampleReconciler.issuer) Distinct ⟨exampleRepo, [], []⟩
      [.issue (exampleCall "0" []), .issue (exampleCall "1" faults)] := by
  have hnew : exampleFirst.repo.certificateRevisions.find? ("certrev-" ++ "1") = none := by
    decide +kernel
  exact ⟨⟨normalHost_example, by decide +kernel⟩, ⟨normalHost_example, hnew⟩, trivial⟩

/-- A renewal that reads the first certificate. -/
theorem increases_renewal :
    Along (issueStep exampleReconciler.issuer) (Increases exampleReconciler.issuer)
      ⟨exampleRepo, [], []⟩ [.issue (exampleCall "0" []), .issue (exampleCall "1" [])] := by
  refine (increases_iff_readsLatest exampleReconciler.issuer exampleRepo rfl _
    (distinct_example [])).mpr ⟨fun _ => Or.inl ?_, fun _ => Or.inr ⟨rfl, ?_⟩, trivial⟩
  · decide +kernel
  · show ∀ row ∈ hostCertificates exampleFirst.repo "edge.test", row.revision + 1 < UInt64.size
    decide +kernel

/-- The renewal after a failed read has the number of the first certificate. -/
theorem failed_read_repeats_number :
    Along (issueStep exampleReconciler.issuer) Distinct ⟨exampleRepo, [], []⟩
        [.issue (exampleCall "0" []), .issue (exampleCall "1" [none, some (.message "timeout")])]
      ∧ ¬ Along (issueStep exampleReconciler.issuer) (Increases exampleReconciler.issuer)
        ⟨exampleRepo, [], []⟩
        [.issue (exampleCall "0" []),
          .issue (exampleCall "1" [none, some (.message "timeout")])] := by
  refine ⟨distinct_example _, fun h => ?_⟩
  have hsecond : Increases exampleReconciler.issuer exampleFirst
      (.issue (exampleCall "1" [none, some (.message "timeout")])) := h.2.1
  have hsome : (persisted exampleReconciler.issuer exampleFirst
      (exampleCall "1" [none, some (.message "timeout")])).isSome = true := by decide +kernel
  have hnumber : ∀ p ∈ persisted exampleReconciler.issuer exampleFirst
      (exampleCall "1" [none, some (.message "timeout")]),
      p.1.hostname = "edge.test" ∧ p.1.revision = 1 := by decide +kernel
  have hrow : ∃ row ∈ hostCertificates exampleFirst.repo "edge.test", row.revision = 1 := by
    decide +kernel
  obtain ⟨⟨cert, bundle⟩, hpersisted⟩ := Option.isSome_iff_exists.mp hsome
  have hcert : cert.hostname = "edge.test" ∧ cert.revision = 1 := hnumber _ hpersisted
  obtain ⟨row, hmem, hrevision⟩ := hrow
  have hlt := (hsecond cert bundle hpersisted).greater row (hcert.1 ▸ hmem)
  omega

end Acme

end LunaEdge
