import LunaEdge.ChangeLog
import LunaEdge.GoText
import LunaEdge.Runs
import LunaEdge.Session

/-!
# The certificate reconciler

The reconciler looks at the newest certificate row of every host that
needs one and has the ACME service issue a certificate where there is
none or it is about to expire. Issuing writes to two stores: first the
row, then the bundle. Any call of the repository may fail at any point;
what the certificate authority, the bundle store and the notifier answer
is given with each issuance.

`Bundled` says that every live row has its bundle. It holds along every
run in which the bundle store accepts the bundle of every row that was
written (`bundled_of_accepted`). Where it refuses one, the row stays
live: the next scan takes the certificate for issued and does not try
again (`refused_bundle_looks_issued`).
-/

namespace LunaEdge

open Session

/-! ## Queries -/

namespace Repo

/-- `revision desc`, and the primary key among equals. -/
def revisionOrder (a b : CertificateRevision) : Prop :=
  b.revision < a.revision ∨ (a.revision = b.revision ∧ a.id ≤ b.id)

instance : DecidableRel revisionOrder := fun a b => by
  unfold revisionOrder
  infer_instance

def getLatestCertificateRevision (repo : Repo) (hostname : String) :
    Except RepoError CertificateRevision :=
  orNotFound ((repo.certificateRevisions.select fun c =>
    !c.deleted && c.hostname == hostname).insertionSort revisionOrder).head?

/-- `nil` for a host without a name or without a row. -/
def getActiveCertificateForDomain (repo : Repo) (domain : DomainEndpoint) :
    Option CertificateRevision :=
  let hostname := Go.trimSpace domain.hostname
  if hostname = "" then none else (repo.getLatestCertificateRevision hostname).toOption

end Repo

namespace Acme

/-! ## The service -/

inductive Provider where
  | letsEncrypt
  | zeroSSL
  | other (value : String)
deriving Repr, DecidableEq

def Provider.text : Provider → String
  | .letsEncrypt => "letsencrypt"
  | .zeroSSL => "zerossl"
  | .other value => value

inductive ChallengeType where
  | dns01
  | http01
deriving Repr, DecidableEq

def ChallengeType.text : ChallengeType → String
  | .dns01 => "dns-01"
  | .http01 => "http-01"

structure Config where
  defaultProvider : Provider := .letsEncrypt
  defaultEmail : String := ""
  defaultEABKID : String := ""
  defaultEABHMACKey : String := ""
  defaultArtifactBucket : String := ""
  artifactPrefix : String := ""
  dns01TTL : Nat := 60

structure IssueRequest where
  hostname : String
  provider : Provider
  challengeType : ChallengeType
  email : String := ""
  eabKID : String := ""
  eabHMACKey : String := ""

inductive Directory where
  | leProduction
  | url (text : String)
deriving Repr, DecidableEq

structure IssuerConfig where
  provider : Provider
  email : String
  directory : Directory
  eabKID : String := ""
  eabHMACKey : String := ""

inductive IssueError where
  | repository (e : RepoError)
  | message (text : String)
deriving Repr, DecidableEq

structure CertificateResource where
  domain : String
  certificate : String
  issuerCertificate : String
  privateKey : String

structure Pki where
  /-- the validity of the first certificate of a chain -/
  parseCertificate : String → Except IssueError (Time × Time)
  sha256 : String → String
  marshal : String → Nat → Time → Time → String

structure Service where
  cfg : Config
  pki : Pki
  /-- there is a bundle store -/
  bundles : Bool := true

/-- What the calls of one issuance to the outside answer. The authority
certifies the name it is asked for, and the challenges it makes the
service present touch DNS records only. -/
structure Answers where
  newIssuer : Except IssueError Unit := .ok ()
  obtained : String → Except IssueError CertificateResource
  challenges : Table DNSRecord → Table DNSRecord := id
  putCertificateBundle : Except IssueError Unit := .ok ()
  notify : Except IssueError Unit := .ok ()
  idSuffix : String := ""
  domain_obtained : ∀ h r, obtained h = .ok r → r.domain = h

/-- The repository, the bundles stored so far, and the hosts being
reconciled. -/
structure State where
  repo : Repo
  stored : List CertificateBundle := []
  inFlight : List String := []

abbrev AcmeM : Type → Type := Prog IssueError State

def firstNonBlank (value fallback : String) : String :=
  if Go.trimSpace value = "" then Go.trimSpace fallback else Go.trimSpace value

def resolveIssuerConfig (cfg : Config) (req : IssueRequest) : Except IssueError IssuerConfig :=
  let email := firstNonBlank req.email cfg.defaultEmail
  if email = "" then .error (.message "acme email is required")
  else
    match req.provider with
    | .letsEncrypt =>
      .ok { provider := .letsEncrypt, email, directory := .leProduction }
    | .zeroSSL =>
      let eabKID := firstNonBlank req.eabKID cfg.defaultEABKID
      let eabHMACKey := firstNonBlank req.eabHMACKey cfg.defaultEABHMACKey
      if eabKID = "" ∨ eabHMACKey = "" then
        .error (.message "zerossl requires eab kid and hmac key")
      else
        .ok { provider := .zeroSSL, email, directory := .url "https://acme.zerossl.com/v2/DV90",
              eabKID, eabHMACKey }
    | .other value => .error (.message ("unsupported acme provider \"" ++ value ++ "\""))

def certificateFullChain (certificatePEM issuerPEM : String) : String :=
  let certificatePEM := Go.trimSpace certificatePEM
  let issuerPEM := Go.trimSpace issuerPEM
  if certificatePEM = "" then ""
  else if issuerPEM = "" ∨ Go.contains certificatePEM issuerPEM then certificatePEM ++ "\n"
  else certificatePEM ++ "\n" ++ issuerPEM ++ "\n"

def buildBundleAndRevision (pki : Pki) (resource : CertificateResource) (revision : Nat) :
    Except IssueError (CertificateBundle × CertificateRevision) := do
  let fullChain := certificateFullChain resource.certificate resource.issuerCertificate
  let (notBefore, notAfter) ← pki.parseCertificate fullChain
  pure
    (⟨resource.domain, revision, fullChain, resource.privateKey,
        pki.marshal resource.domain revision notBefore notAfter⟩,
      { id := "", notBefore, notAfter, sha256Crt := pki.sha256 fullChain
        sha256Key := pki.sha256 resource.privateKey })

theorem buildBundleAndRevision_eq_ok {pki : Pki} {resource : CertificateResource} {n : Nat}
    {bundle : CertificateBundle} {revision : CertificateRevision}
    (h : buildBundleAndRevision pki resource n = .ok (bundle, revision)) :
    bundle.hostname = resource.domain ∧ bundle.revision = n := by
  unfold buildBundleAndRevision at h
  cases hparse : pki.parseCertificate
      (certificateFullChain resource.certificate resource.issuerCertificate) with
  | error e => simp [hparse, bind, Except.bind] at h
  | ok validity =>
    simp only [hparse, bind, Except.bind, pure, Except.pure, Except.ok.injEq, Prod.mk.injEq] at h
    rw [← h.1]
    exact ⟨rfl, rfl⟩

def certificateArtifactPrefix (artifactPrefix hostname : String) (revision : Nat) : String :=
  let artifactPrefix := Go.trim (Go.trimSpace artifactPrefix) "/"
  let artifactPrefix := if artifactPrefix = "" then "certificates" else artifactPrefix
  artifactPrefix ++ "/" ++ hostname ++ "/" ++ toString revision

/-- Any error reads as no certificate. -/
def nextRevision (hostname : String) : AcmeM Nat := do
  match ← attempt (query fun s =>
    (s.repo.getLatestCertificateRevision hostname).mapError .repository) with
  | .error _ => pure 1
  | .ok cert => pure ((cert.revision + 1) % UInt64.size)

/-- `IssueCertificate` up to the first write. -/
def prepareCertificate (svc : Service) (answers : Answers) (req : IssueRequest) :
    AcmeM (CertificateRevision × CertificateBundle) := do
  let domain ← query fun s =>
    (s.repo.getDomainEndpointByHostname req.hostname).mapError .repository
  let issuerCfg ← answer (resolveIssuerConfig svc.cfg req)
  let revisionNumber ← nextRevision domain.hostname
  answer answers.newIssuer
  effect fun s => { s with repo := { s.repo with dnsRecords := answers.challenges s.repo.dnsRecords } }
  let resource ← answer (answers.obtained domain.hostname)
  let (certBundle, certRevision) ← answer (buildBundleAndRevision svc.pki resource revisionNumber)
  pure
    ({ id := "certrev-" ++ answers.idSuffix
       hostname := domain.hostname
       revision := revisionNumber
       provider := issuerCfg.provider.text
       challengeType := req.challengeType.text
       artifactBucket := svc.cfg.defaultArtifactBucket
       artifactPrefix := certificateArtifactPrefix svc.cfg.artifactPrefix domain.hostname
         revisionNumber
       notBefore := certRevision.notBefore
       notAfter := certRevision.notAfter
       sha256Crt := certRevision.sha256Crt
       sha256Key := certRevision.sha256Key },
     certBundle)

/-- The bundle counts as stored when the store accepts it; without a
store it is dropped. -/
def storeBundle (svc : Service) (answers : Answers) (bundle : CertificateBundle) :
    AcmeM Unit :=
  if svc.bundles then do
    answer answers.putCertificateBundle
    effect fun s => { s with stored := s.stored ++ [bundle] }
  else pure ()

def issueCertificate (svc : Service) (answers : Answers) (req : IssueRequest) :
    AcmeM CertificateRevision := do
  let (cert, certBundle) ← prepareCertificate svc answers req
  update fun s => { s with repo := s.repo.upsertResource cert }
  storeBundle svc answers certBundle
  answer answers.notify
  pure cert

/-! ## The reconciler -/

structure Reconciler where
  issuer : Service
  renewBefore : Time

def challengeTypeForDomain (domain : DomainEndpoint) : ChallengeType :=
  match domain.backendType with
  | .l7HTTP | .l7HTTPS | .l7HTTPBoth => .http01
  | _ => .dns01

/-- An error of the query reads as no certificate; the zero time as
expired. -/
def shouldIssue (r : Reconciler) (now : Time) (domain : DomainEndpoint) : AcmeM Bool := do
  match ← attempt (query fun s => .ok (s.repo.getActiveCertificateForDomain domain)) with
  | .error _ => pure true
  | .ok none => pure true
  | .ok (some cert) => pure (cert.notAfter = 0 || cert.notAfter ≤ now + r.renewBefore)

/-- The deferred `end` runs whatever happens in between. -/
def reconcileDomain (r : Reconciler) (now : Time) (answers : Answers)
    (domain : DomainEndpoint) : AcmeM Unit := do
  if !domain.needCert then pure ()
  else if ← peek fun s => s.inFlight.contains domain.hostname then pure ()
  else
    effect fun s => { s with inFlight := s.inFlight ++ [domain.hostname] }
    let result ← attempt do
      if ← shouldIssue r now domain then
        let _ ← issueCertificate r.issuer answers
          { hostname := domain.hostname
            challengeType := challengeTypeForDomain domain
            provider := r.issuer.cfg.defaultProvider }
      else pure ()
    effect fun s => { s with inFlight := s.inFlight.filter (· ≠ domain.hostname) }
    answer result

def reconcileHostname (r : Reconciler) (now : Time) (answers : Answers) (fqdn : String) :
    AcmeM Unit := do
  let domain ← query fun s => (s.repo.getDomainEndpointByHostname fqdn).mapError .repository
  reconcileDomain r now answers domain

/-- `Notify`: the name waits in a channel of 128 places; it is dropped when
the channel is full. -/
def notify (notifyCh : List String) (fqdn : String) : List String :=
  let fqdn := Go.trimSpace (Go.toLower fqdn)
  if fqdn = "" then notifyCh
  else if notifyCh.length < 128 then notifyCh ++ [fqdn]
  else notifyCh

/-- The error of one domain does not keep the scan from the next. -/
def scan (r : Reconciler) (now : Time) (answers : String → Answers) : AcmeM Unit := do
  let domains ← query fun s => .ok s.repo.domainEndpoints.listResource
  domains.forM fun domain => do
    let _ ← attempt (reconcileDomain r now (answers domain.hostname) domain)

/-- One turn of the loop of the reconciler, with the outcome of every
call in it, or a write of others to the other tables. -/
inductive Event where
  | scan (now : Time) (answers : String → Answers) (faults : List (Option IssueError))
  | notified (fqdn : String) (now : Time) (answers : Answers)
      (faults : List (Option IssueError))
  | write (repo : Repo)

def step (r : Reconciler) (s : State) : Event → State
  | .scan now answers faults => (scan r now answers ⟨s, faults⟩).2.state
  | .notified fqdn now answers faults =>
    (reconcileHostname r now answers fqdn ⟨s, faults⟩).2.state
  | .write repo =>
    { s with repo := { repo with certificateRevisions := s.repo.certificateRevisions } }

/-! ## Rows and bundles -/

def Bundled (s : State) : Prop :=
  ∀ id cert, s.repo.certificateRevisions.live? id = some cert →
    ∃ b ∈ s.stored, b.hostname = cert.hostname ∧ b.revision = cert.revision

/-- Nothing was issued from the one state to the other. -/
def Unissued (s t : State) : Prop :=
  t.repo.certificateRevisions = s.repo.certificateRevisions ∧ t.stored = s.stored

theorem Unissued.refl (s : State) : Unissued s s := ⟨rfl, rfl⟩

variable {t s : State}

theorem Unissued.trans {u : State} (h : Unissued s t) (h' : Unissued t u) : Unissued s u :=
  ⟨h'.1.trans h.1, h'.2.trans h.2⟩

/-- Nothing was issued, or one row with its bundle. -/
def Issues (s t : State) : Prop :=
  Unissued s t ∨ ∃ cert : CertificateRevision, ∃ bundle,
    t.repo.certificateRevisions = s.repo.certificateRevisions.upsertResource cert
      ∧ t.stored = s.stored ++ [bundle]
      ∧ bundle.hostname = cert.hostname ∧ bundle.revision = cert.revision

theorem Bundled.of_unissued (hs : Bundled s) (h : Unissued s t) : Bundled t := by
  unfold Bundled
  rw [h.1, h.2]
  exact hs

theorem Bundled.of_issues (hs : Bundled s) (h : Issues s t) : Bundled t := by
  rcases h with h | ⟨cert, bundle, hrows, hstored, hhost, hrev⟩
  · exact hs.of_unissued h
  · intro id row hrow
    rw [hrows, Table.live?_upsertResource] at hrow
    rw [hstored]
    by_cases hid : Keyed.key cert = id
    · rw [if_pos hid] at hrow
      split at hrow
      · cases hrow
      · rw [Option.some.injEq] at hrow
        subst hrow
        exact ⟨bundle, List.mem_append_right _ (List.mem_singleton.mpr rfl), hhost, hrev⟩
    · rw [if_neg hid] at hrow
      obtain ⟨b, hb, hmatch⟩ := hs id row hrow
      exact ⟨b, List.mem_append_left _ hb, hmatch⟩

theorem nextRevision_keeps (hostname : String) : Keeps Unissued (nextRevision hostname) := by
  unfold nextRevision
  refine Keeps.bind (R := Unissued) (fun _ _ _ h h' => h.trans h')
    (Keeps.query Unissued.refl _).attempt ?_
  intro result
  cases result with
  | error e => exact Keeps.pure Unissued.refl _
  | ok cert => exact Keeps.pure Unissued.refl _

/-- What is prepared fits together, and nothing is issued by then. -/
def Prepared (s : State) (r : Except IssueError (CertificateRevision × CertificateBundle))
    (t : State) : Prop :=
  Unissued s t ∧ ∀ cert bundle, r = .ok (cert, bundle) →
    bundle.hostname = cert.hostname ∧ bundle.revision = cert.revision

theorem Prepared.error (h : Unissued s t) (e : IssueError) : Prepared s (.error e) t :=
  ⟨h, fun _ _ h => by cases h⟩

theorem prepareCertificate_within (svc : Service) (answers : Answers) (req : IssueRequest)
    (s : State) : Within (prepareCertificate svc answers req) s (Prepared s) := by
  unfold prepareCertificate
  refine Within.bind (Keeps.query Unissued.refl _ s) (fun e t h => .error h e) ?_
  intro domain t ht
  refine Within.bind (P := fun _ u => Unissued s u) (Within.answer ht)
    (fun e t h => .error h e) ?_
  intro issuerCfg t ht
  refine Within.bind ((nextRevision_keeps domain.hostname t).mono fun _ u hu => ht.trans hu)
    (fun e t h => .error h e) ?_
  intro revisionNumber t ht
  refine Within.bind (P := fun _ u => Unissued s u) (Within.answer ht)
    (fun e t h => .error h e) ?_
  intro _ t ht
  refine Within.bind (P := fun _ u => Unissued s u) (fun _ => ht) (fun e t h => .error h e) ?_
  intro _ t ht
  refine Within.bind (P := fun r u => Unissued s u ∧ r = answers.obtained domain.hostname)
    (Within.answer ⟨ht, rfl⟩) (fun e t h => .error h.1 e) ?_
  rintro resource t ⟨ht, hresource⟩
  refine Within.bind
    (P := fun r u => Unissued s u ∧ r = buildBundleAndRevision svc.pki resource revisionNumber)
    (Within.answer ⟨ht, rfl⟩) (fun e t h => .error h.1 e) ?_
  rintro ⟨certBundle, certRevision⟩ t ⟨ht, hbuilt⟩
  refine Within.pure ⟨ht, ?_⟩
  intro cert bundle hok
  obtain ⟨hhost, hrev⟩ := buildBundleAndRevision_eq_ok hbuilt.symm
  rw [Except.ok.injEq, Prod.mk.injEq] at hok
  obtain ⟨rfl, rfl⟩ := hok
  exact ⟨hhost.trans (answers.domain_obtained _ _ hresource.symm), hrev⟩

/-- With a store that accepts the bundle, a row is never left alone. -/
theorem issueCertificate_within {svc : Service} (hbundles : svc.bundles = true)
    {answers : Answers} (hput : answers.putCertificateBundle = .ok ()) (req : IssueRequest)
    (s : State) : Within (issueCertificate svc answers req) s fun _ t => Issues s t := by
  unfold issueCertificate
  refine Within.bind (prepareCertificate_within svc answers req s)
    (fun e t h => Or.inl h.1) ?_
  rintro ⟨cert, bundle⟩ t ⟨ht, hfits⟩
  obtain ⟨hhost, hrev⟩ := hfits cert bundle rfl
  refine Within.bind
    (P := fun r u => match r with
      | .error _ => Unissued s u
      | .ok _ => u.repo.certificateRevisions
            = s.repo.certificateRevisions.upsertResource cert ∧ u.stored = s.stored)
    ?_ (fun e u h => Or.inl h) ?_
  · refine Within.statement (fun e => ht) ?_
    intro a u hu
    cases hu
    exact ⟨congrArg (Table.upsertResource · cert) ht.1, ht.2⟩
  rintro _ u ⟨hrows, hstored⟩
  have hissued : Issues s { u with stored := u.stored ++ [bundle] } :=
    Or.inr ⟨cert, bundle, hrows, congrArg (· ++ [bundle]) hstored, hhost, hrev⟩
  refine Within.bind (P := fun _ v => Issues s v) ?_ (fun e v h => h) ?_
  · rw [storeBundle, if_pos hbundles, hput]
    exact fun _ => hissued
  intro _ v hv
  refine Within.bind (P := fun _ v => Issues s v) (Within.answer hv) (fun e v h => h) ?_
  intro _ v hv
  exact Within.pure hv

theorem getActiveCertificateForDomain_of_unissued (h : Unissued s t) (domain : DomainEndpoint) :
    t.repo.getActiveCertificateForDomain domain = s.repo.getActiveCertificateForDomain domain := by
  unfold Repo.getActiveCertificateForDomain Repo.getLatestCertificateRevision
  rw [h.1]

/-! ## Runs of the reconciler -/

abbrev KeepsBundled {α : Type} (x : AcmeM α) : Prop := Keeps (fun s t => Bundled s → Bundled t) x

theorem keepsBundled_bind {α β : Type} {x : AcmeM α} {f : α → AcmeM β} (hx : KeepsBundled x)
    (hf : ∀ a, KeepsBundled (f a)) : KeepsBundled (x >>= f) :=
  Keeps.bind (fun _ _ _ h h' hs => h' (h hs)) hx hf

theorem keepsBundled_effect {f : State → State} (h : ∀ s, Unissued s (f s)) :
    KeepsBundled (effect f) :=
  Keeps.effect fun s hs => hs.of_unissued (h s)

theorem keepsBundled_query {α : Type} (f : State → Except IssueError α) : KeepsBundled (query f) :=
  Keeps.query (fun _ hs => hs) f

theorem keepsBundled_pure {α : Type} (a : α) : KeepsBundled (pure a) :=
  Keeps.pure (fun _ hs => hs) a

theorem shouldIssue_keeps (r : Reconciler) (now : Time) (domain : DomainEndpoint) :
    KeepsBundled (shouldIssue r now domain) := by
  unfold shouldIssue
  refine keepsBundled_bind (keepsBundled_query _).attempt ?_
  intro result
  rcases result with e | (_ | cert)
  · exact keepsBundled_pure _
  · exact keepsBundled_pure _
  · exact keepsBundled_pure _

theorem reconcileDomain_keeps {r : Reconciler} (hbundles : r.issuer.bundles = true)
    (now : Time) {answers : Answers} (hput : answers.putCertificateBundle = .ok ())
    (domain : DomainEndpoint) : KeepsBundled (reconcileDomain r now answers domain) := by
  have hissue : KeepsBundled (issueCertificate r.issuer answers
      { hostname := domain.hostname, challengeType := challengeTypeForDomain domain,
        provider := r.issuer.cfg.defaultProvider }) := fun s =>
    (issueCertificate_within hbundles hput _ s).mono fun _ _ h hs => hs.of_issues h
  unfold reconcileDomain
  split
  · exact keepsBundled_pure _
  · refine keepsBundled_bind (fun s _ hs => hs) ?_
    intro busy
    split
    · exact keepsBundled_pure _
    · refine keepsBundled_bind (keepsBundled_effect fun s => Unissued.refl _) fun _ => ?_
      refine keepsBundled_bind (Keeps.attempt ?_) fun result => ?_
      · refine keepsBundled_bind (shouldIssue_keeps r now domain) fun due => ?_
        split
        · exact keepsBundled_bind hissue fun _ => keepsBundled_pure _
        · exact keepsBundled_pure _
      · refine keepsBundled_bind (keepsBundled_effect fun s => Unissued.refl _) fun _ => ?_
        exact fun s _ hs => hs

/-- The bundle store accepts whatever this turn hands to it. -/
def Accepted : Event → Prop
  | .scan _ answers _ => ∀ h, (answers h).putCertificateBundle = .ok ()
  | .notified _ _ answers _ => answers.putCertificateBundle = .ok ()
  | .write _ => True

theorem Bundled.step {r : Reconciler} (hbundles : r.issuer.bundles = true) (hs : Bundled s)
    {e : Event} (he : Accepted e) : Bundled (step r s e) := by
  cases e with
  | scan now answers faults =>
    have hscan : KeepsBundled (scan r now answers) := by
      unfold scan
      refine keepsBundled_bind (keepsBundled_query _) fun domains => ?_
      refine Keeps.forM (fun _ hs => hs) (fun _ _ _ h h' hs => h' (h hs)) ?_
      intro domain _
      exact keepsBundled_bind
        (reconcileDomain_keeps hbundles now (he domain.hostname) domain).attempt
        fun _ => keepsBundled_pure _
    exact hscan s faults hs
  | notified fqdn now answers faults =>
    have hturn : KeepsBundled (reconcileHostname r now answers fqdn) := by
      unfold reconcileHostname
      exact keepsBundled_bind (keepsBundled_query _) fun domain =>
        reconcileDomain_keeps hbundles now he domain
    exact hturn s faults hs
  | write repo => exact hs

/-- Along every run whose bundles are all accepted, every live row has
its bundle; and an issuance that fails before its bundle is stored leaves
the active certificate of every domain as it was. -/
theorem bundled_of_accepted (r : Reconciler) (hbundles : r.issuer.bundles = true)
    (repo : Repo) (hempty : repo.certificateRevisions = .empty) (events : List Event)
    (haccepted : Runs.Along (step r) (fun _ e => Accepted e) ⟨repo, [], []⟩ events) :
    Bundled (events.foldl (step r) ⟨repo, [], []⟩)
      ∧ ∀ (answers : Answers) (req : IssueRequest) (w w' : World IssueError State)
          (err : IssueError),
          answers.putCertificateBundle = .ok () →
          issueCertificate r.issuer answers req w = (.error err, w') →
          w'.state.stored = w.state.stored →
          ∀ domain, w'.state.repo.getActiveCertificateForDomain domain
            = w.state.repo.getActiveCertificateForDomain domain := by
  constructor
  · refine haccepted.invariant (I := Bundled) (fun s e hs he => hs.step hbundles he) ?_
    intro id cert hcert
    rw [hempty] at hcert
    cases hcert
  · intro answers req w w' err hput hrun hstored
    have hissues := issueCertificate_within hbundles hput req w.state w.faults
    rw [hrun] at hissues
    rcases hissues with h | ⟨cert, bundle, -, hmore, -⟩
    · exact getActiveCertificateForDomain_of_unissued h
    · rw [hstored] at hmore
      simp at hmore

def exampleReconciler : Reconciler where
  issuer :=
    { cfg := { defaultEmail := "ops@edge.test" }
      pki := ⟨fun _ => .ok (1, 1000), fun text => text, fun h _ _ _ => h⟩ }
  renewBefore := 10

def exampleAnswers (put notify : Except IssueError Unit) : Answers where
  obtained h := .ok ⟨h, "pem", "", "key"⟩
  putCertificateBundle := put
  notify := notify
  idSuffix := "0"
  domain_obtained h r hr := by
    cases hr
    rfl

def exampleRepo : Repo :=
  Repo.empty.upsertResource ({ hostname := "edge.test", needCert := true } : DomainEndpoint)

/-- The bundle is stored and the notifier fails. -/
theorem bundled_of_accepted_issued :
    Bundled (step exampleReconciler ⟨exampleRepo, [], []⟩
      (.notified "edge.test" 5 (exampleAnswers (.ok ()) (.error (.message "closed"))) [])) :=
  (bundled_of_accepted exampleReconciler rfl exampleRepo rfl
    [.notified "edge.test" 5 (exampleAnswers (.ok ()) (.error (.message "closed"))) []]
    ⟨rfl, trivial⟩).1

def exampleRefused : State :=
  step exampleReconciler ⟨exampleRepo, [], []⟩
    (.notified "edge.test" 5 (exampleAnswers (.error (.message "s3")) (.ok ())) [])

/-- The row is live, nothing is stored, and no retry is due. -/
theorem refused_bundle_looks_issued :
    ¬ Bundled exampleRefused
      ∧ (shouldIssue exampleReconciler 6 { hostname := "edge.test", needCert := true }
          ⟨exampleRefused, []⟩).1.toOption = some false := by
  constructor
  · intro h
    have hrow : (exampleRefused.repo.certificateRevisions.live? "certrev-0").isSome = true := by
      decide +kernel
    have hstored : exampleRefused.stored = [] := by decide +kernel
    obtain ⟨cert, hcert⟩ := Option.isSome_iff_exists.mp hrow
    obtain ⟨b, hb, -⟩ := h "certrev-0" cert hcert
    rw [hstored] at hb
    cases hb
  · decide +kernel

end Acme

end LunaEdge
