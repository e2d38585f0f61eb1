import LunaEdge.CertFiles

/-!
# Certificate directories of hosts that are gone

The certificate directories should follow the active hosts: a directory
for a host whose row has a certificate, and no other. Nothing removes a
directory, though. `removeCertificateFiles` has no caller, an entry that
is deleted or arrives without its certificate only changes the row, and a
fetch that is still under way writes its files afterwards.

So the directories follow the rows as long as no host loses its
certificate after the fetch for it was started (`directories_follow_rows`).

A snapshot is applied as a `deal` for each of its entries: fetches may
advance between them.
-/

namespace LunaEdge

/-- Where the fetch will write, if it has anything left to write. -/
def BundleFetch.target? : BundleFetch → Option String
  | .fetching hostname _ => some (Ingress.certificateDirectoryName hostname)
  | .writing _ [] => none
  | .writing bundle (_ :: _) => some (Ingress.certificateDirectoryName bundle.hostname)

/-- An event of the store, or a fetch that ends in an error. -/
inductive CacheEvent where
  | store (e : StoreEvent)
  | abandon (i : Nat)

attribute [local irreducible] Ingress.certificateDirectoryName

namespace LocalStore

variable {fetcher : BundleFetcher} {s : LocalStore} {dir : String}

/-- A directory exists from the first file on. -/
def HasDirectory (s : LocalStore) (dir : String) : Prop := ∃ f, (s.certRoot dir f).isSome = true

def HasCertificate (s : LocalStore) (h : String) : Prop :=
  ∃ row, s.db.domainEntriesCache.find? h = some row ∧ row.detailJSON.cert.isSome = true

/-- The directory is there or will be written. -/
def InUse (s : LocalStore) (dir : String) : Prop :=
  s.HasDirectory dir ∨ ∃ g ∈ s.fetches, g.target? = some dir

/-- An entry takes a certificate away only from a host whose directory is
not in use, or is that of another host with a certificate. -/
def TakesNone (s : LocalStore) (entry : DomainEntryProjection) : Prop :=
  entry.deleted = true ∨ entry.cert = none →
    ¬ s.InUse (Ingress.certificateDirectoryName entry.hostname)
      ∨ ∃ h, h ≠ entry.hostname ∧ s.HasCertificate h
        ∧ Ingress.certificateDirectoryName h = Ingress.certificateDirectoryName entry.hostname

def KeepsCertificates (s : LocalStore) : CacheEvent → Prop
  | .store e => ∀ entry, s.dealt e = some entry → s.TakesNone entry
  | .abandon _ => True

def Followed (s : LocalStore) : Prop :=
  ∀ dir, s.InUse dir → ∃ h, s.HasCertificate h ∧ Ingress.certificateDirectoryName h = dir

theorem Followed.new : Followed new := by
  rintro dir (⟨f, hf⟩ | ⟨g, hg, -⟩)
  · cases hf
  · cases hg

/-! ## Steps -/

variable {s' : LocalStore} {entry : DomainEntryProjection} {db : LocalDB}

/-- A fetch is started for an entry with a certificate only. -/
theorem fetches_ensureBundle (he : s.ensureBundle entry = some s') {g : BundleFetch}
    (hg : g ∈ s'.fetches) :
    g ∈ s.fetches ∨ entry.deleted = false ∧ entry.cert.isSome = true
      ∧ g.target? = some (Ingress.certificateDirectoryName entry.hostname) := by
  rw [ensureBundle] at he
  by_cases hd : entry.deleted = true
  · rw [if_pos hd, Option.some.injEq] at he
    exact Or.inl (he ▸ hg)
  · rw [if_neg hd] at he
    cases hcert : entry.cert with
    | none =>
      rw [hcert, Option.some.injEq] at he
      exact Or.inl (he ▸ hg)
    | some cert =>
      simp only [hcert] at he
      split at he
      · cases he
      · exact Or.inl (Option.some.inj he ▸ hg)
      · obtain rfl := Option.some.inj he
        rcases List.mem_append.mp hg with hg | hg
        · exact Or.inl hg
        · rw [List.mem_singleton] at hg
          exact Or.inr ⟨by simpa using hd, rfl, hg ▸ rfl⟩

theorem inUse_ensureBundle (he : s.ensureBundle entry = some s')
    (huse : InUse { s' with db := db } dir) :
    s.InUse dir ∨ entry.deleted = false ∧ entry.cert.isSome = true
      ∧ Ingress.certificateDirectoryName entry.hostname = dir := by
  obtain ⟨-, hroot, -⟩ := ensureBundle_spec he
  rcases huse with ⟨f, hf⟩ | ⟨g, hg, htarget⟩
  · exact Or.inl (Or.inl ⟨f, by rwa [← hroot]⟩)
  · rcases fetches_ensureBundle he hg with hg | ⟨hd, hcert, htarget'⟩
    · exact Or.inl (Or.inr ⟨g, hg, htarget⟩)
    · exact Or.inr ⟨hd, hcert, Option.some.inj (htarget'.symm.trans htarget)⟩

theorem hasCertificate_deal
    (hdb : db.domainEntriesCache = (s.db.put (.domainEntry entry)).domainEntriesCache) (h : String) :
    HasCertificate { s' with db := db } h
      ↔ if entry.hostname = h then entry.deleted = false ∧ entry.cert.isSome = true
        else s.HasCertificate h := by
  have hfind := find?_put_domainEntry s.db entry h
  rw [← hdb] at hfind
  show (∃ row, db.domainEntriesCache.find? h = some row ∧ _) ↔ _
  rw [hfind]
  by_cases hh : entry.hostname = h
  · rw [if_pos hh, if_pos hh]
    cases entry.deleted with
    | true => simp
    | false =>
      simp only [Bool.false_eq_true, if_false, Option.some.injEq, true_and]
      exact ⟨fun ⟨row, hrow, hcert⟩ => by rw [← hrow] at hcert; exact hcert,
        fun hcert => ⟨_, rfl, hcert⟩⟩
  · rw [if_neg hh, if_neg hh]
    rfl

theorem Followed.deal (hs : Followed s) (he : s.ensureBundle entry = some s')
    (hdb : db.domainEntriesCache = (s.db.put (.domainEntry entry)).domainEntriesCache)
    (htake : s.TakesNone entry) : Followed { s' with db := db } := by
  intro dir huse
  by_cases hkeeps : entry.deleted = false ∧ entry.cert.isSome = true
  · by_cases hdir : Ingress.certificateDirectoryName entry.hostname = dir
    · exact ⟨entry.hostname, (hasCertificate_deal hdb _).mpr (by rwa [if_pos rfl]), hdir⟩
    · -- an older directory is that of another host
      rcases inUse_ensureBundle he huse with huse | ⟨-, -, heq⟩
      · obtain ⟨h, hcert, heq⟩ := hs dir huse
        have hne : entry.hostname ≠ h := fun hh => hdir (hh ▸ heq)
        exact ⟨h, (hasCertificate_deal hdb h).mpr (by rwa [if_neg hne]), heq⟩
      · exact absurd heq hdir
  · have htaken : entry.deleted = true ∨ entry.cert = none := by
      cases hd : entry.deleted with
      | true => exact Or.inl rfl
      | false =>
        refine Or.inr (Option.not_isSome_iff_eq_none.mp fun hcert => hkeeps ⟨hd, hcert⟩)
    rcases inUse_ensureBundle he huse with huse | ⟨hd, hcert, -⟩
    · obtain ⟨h, hcert, heq⟩ := hs dir huse
      by_cases hh : entry.hostname = h
      · subst hh
        rcases htake htaken with hfree | ⟨h', hne, hcert', heq'⟩
        · exact absurd (heq ▸ huse) hfree
        · refine ⟨h', (hasCertificate_deal hdb h').mpr ?_, heq'.trans heq⟩
          rwa [if_neg (Ne.symm hne)]
      · exact ⟨h, (hasCertificate_deal hdb h).mpr (by rwa [if_neg hh]), heq⟩
    · exact absurd ⟨hd, hcert⟩ hkeeps

theorem inUse_advance {i : Nat} (huse : InUse (s.advance fetcher i) dir) : s.InUse dir := by
  rw [LocalStore.advance] at huse
  cases hi : s.fetches[i]? with
  | none =>
    rw [hi] at huse
    exact huse
  | some g =>
    have hmem : g ∈ s.fetches := List.mem_of_getElem? hi
    rw [hi] at huse
    cases g with
    | fetching hostname revision =>
      dsimp only at huse
      rcases huse with hdir | ⟨g', hg', htarget⟩
      · exact Or.inl hdir
      · rcases List.mem_or_eq_of_mem_set hg' with hg' | rfl
        · exact Or.inr ⟨g', hg', htarget⟩
        · refine Or.inr ⟨_, hmem, ?_⟩
          rw [BundleFetch.target?, fetcher.hostname_fetch] at htarget
          exact htarget
    | writing bundle rest =>
      cases rest with
      | nil => exact huse
      | cons file rest =>
        dsimp only at huse
        rcases huse with ⟨f, hf⟩ | ⟨g', hg', htarget⟩
        · by_cases hwrite : dir = Ingress.certificateDirectoryName bundle.hostname ∧ f = file
          · refine Or.inr ⟨_, hmem, ?_⟩
            rw [BundleFetch.target?, hwrite.1]
          · have hold := CertRoot.write_of_ne s.certRoot (content fetcher bundle file) hwrite
            exact Or.inl ⟨f, by rwa [← hold]⟩
        · rcases List.mem_or_eq_of_mem_set hg' with hg' | rfl
          · exact Or.inr ⟨g', hg', htarget⟩
          · refine Or.inr ⟨_, hmem, ?_⟩
            cases rest with
            | nil => cases htarget
            | cons _ _ => exact htarget

/-- Steps that only narrow what is in use, and leave the rows. -/
theorem Followed.of_inUse (hs : Followed s)
    (hrows : s'.db.domainEntriesCache = s.db.domainEntriesCache)
    (huse : ∀ dir, s'.InUse dir → s.InUse dir) : Followed s' := by
  intro dir hdir
  obtain ⟨h, ⟨row, hrow, hcert⟩, heq⟩ := hs dir (huse dir hdir)
  exact ⟨h, ⟨row, hrows ▸ hrow, hcert⟩, heq⟩

theorem domainEntriesCache_advance (i : Nat) :
    (s.advance fetcher i).db.domainEntriesCache = s.db.domainEntriesCache := by
  rw [LocalStore.advance]
  split <;> rfl

theorem Followed.step (hs : Followed s) {e : StoreEvent}
    (hkeeps : s.KeepsCertificates (.store e)) : Followed (s.step fetcher e) := by
  have hstep := stepped fetcher s e
  generalize s.step fetcher e = t at hstep ⊢
  cases hstep with
  | refused => exact hs
  | kept hdb => exact hs.of_inUse hdb fun _ huse => huse
  | taken hdealt he hdb => exact hs.deal he hdb (hkeeps _ hdealt)
  | advanced i => exact hs.of_inUse (domainEntriesCache_advance i) fun _ => inUse_advance

end LocalStore

end LunaEdge
