import LunaEdge.CertFiles

/-!
# Interrupted bundle writes

`writeCertificateBundle` overwrites the three files of a host one after
another. Each write may fail, and the slave may crash between two of them
or inside one. What is left is then written over no more: a later entry of
the host fetches its bundle only if one of the files is missing.

Into an empty directory this is safe, because the file written last is the
one whose presence completes the check. Over an older bundle the check
finds all files whatever happens, and the pair left on disk is the one
`leftPair` computes: of the older bundle while `tls.crt` is not opened, of
the new one once `tls.key` is written, and in between of no bundle at all
unless contents happen to agree (`pairKept_iff`, `mixed_pair_kept`).
-/

namespace LunaEdge

/-- The end of an `os.WriteFile`. A write that fails leaves the file as it
was, or with the beginning of the new content. -/
inductive WriteOutcome where
  | written
  | failed (part : Option Nat)
deriving Repr, DecidableEq

/-- A crash before a write is a write that fails and leaves the file as
it was. -/
structure DiskFaults where
  mkdirAll : Bool := false
  writeFile : CertFile → WriteOutcome := fun _ => .written

def beginning (content : String) (n : Nat) : String := String.ofList (content.toList.take n)

namespace CertRoot

/-- The result is whether the write succeeded. -/
def writeFile (root : CertRoot) (dir : String) (file : CertFile) (content : String) :
    WriteOutcome → CertRoot × Bool
  | .written => (root.write dir file content, true)
  | .failed none => (root, false)
  | .failed (some n) => (root.write dir file (beginning content n), false)

def writeFiles (root : CertRoot) (dir : String) (content : CertFile → String)
    (outcome : CertFile → WriteOutcome) : List CertFile → CertRoot × Bool
  | [] => (root, true)
  | file :: rest =>
    match root.writeFile dir file (content file) (outcome file) with
    | (root, true) => root.writeFiles dir content outcome rest
    | (root, false) => (root, false)

end CertRoot

namespace LocalStore

section

variable (fetcher : BundleFetcher)

def writeCertificateBundle (certRoot : CertRoot) (bundle : CertificateBundle)
    (faults : DiskFaults) : CertRoot × Bool :=
  let dir := Ingress.certificateDirectoryName bundle.hostname
  if faults.mkdirAll then (certRoot, false)
  else
    certRoot.writeFiles dir (content fetcher bundle) faults.writeFile
      [.tlsCrt, .tlsKey, .metadataJSON]

def putCertificateBundle (s : LocalStore) (bundle : CertificateBundle) (faults : DiskFaults) :
    LocalStore × Bool :=
  let written := writeCertificateBundle fetcher s.certRoot bundle faults
  ({ s with certRoot := written.1 }, written.2)

def putAll (s : LocalStore) (bundles : List CertificateBundle) : LocalStore :=
  bundles.foldl (fun s bundle => (s.putCertificateBundle fetcher bundle {}).1) s

end

/-- The pair of files of the host is that of one of the bundles, or the
bundle is reported missing and an entry of the host fetches it again. -/
def PairKept (s : LocalStore) (hostname : String) (bundles : List CertificateBundle) : Prop :=
  let dir := Ingress.certificateDirectoryName hostname
  (∃ bundle ∈ bundles, s.certRoot dir .tlsCrt = some bundle.tlsCrt
      ∧ s.certRoot dir .tlsKey = some bundle.tlsKey)
    ∨ (∀ revision, s.checkCertificateBundle hostname revision = .ok false)
      ∧ ∀ entry cert, entry.hostname = hostname → entry.deleted = false → entry.cert = some cert →
          s.ensureBundle entry
            = some { s with fetches := s.fetches ++ [.fetching hostname cert.revision] }

def ofDirectory (hostname : String) (bundles : List CertificateBundle) : List CertificateBundle :=
  bundles.filter fun bundle =>
    Ingress.certificateDirectoryName bundle.hostname = Ingress.certificateDirectoryName hostname

/-- The pair left where a bundle is written over the last one. -/
def leftPair (last new : CertificateBundle) (faults : DiskFaults) : String × String :=
  if faults.mkdirAll then (last.tlsCrt, last.tlsKey)
  else
    match faults.writeFile .tlsCrt with
    | .failed part => (part.elim last.tlsCrt (beginning new.tlsCrt), last.tlsKey)
    | .written =>
      match faults.writeFile .tlsKey with
      | .failed part => (new.tlsCrt, part.elim last.tlsKey (beginning new.tlsKey))
      | .written => (new.tlsCrt, new.tlsKey)

variable {fetcher : BundleFetcher}

/-! ## Complete calls -/

theorem certRoot_putCertificateBundle (s : LocalStore) (bundle : CertificateBundle) (d : String)
    (f : CertFile) :
    (s.putCertificateBundle fetcher bundle {}).1.certRoot d f
      = if d = Ingress.certificateDirectoryName bundle.hostname
          then some (content fetcher bundle f) else s.certRoot d f := by
  simp only [putCertificateBundle, writeCertificateBundle, CertRoot.writeFiles, CertRoot.writeFile,
    Bool.false_eq_true, if_false]
  generalize Ingress.certificateDirectoryName bundle.hostname = dir
  by_cases hd : d = dir
  · cases f <;> simp [CertRoot.write, hd]
  · simp [CertRoot.write, hd]

/-- The files of a directory are those of the last bundle written there.
Induction from the end, the last bundle first. -/
theorem certRoot_putAll (fetcher : BundleFetcher) (bundles : List CertificateBundle)
    (hostname : String) (f : CertFile) :
    (LocalStore.new.putAll fetcher bundles).certRoot (Ingress.certificateDirectoryName hostname) f
      = (ofDirectory hostname bundles).getLast?.map fun bundle => content fetcher bundle f := by
  induction bundles using List.reverseRecOn with
  | nil => rfl
  | append_singleton bundles bundle ih =>
    rw [putAll, List.foldl_append, List.foldl_cons, List.foldl_nil, ← putAll,
      certRoot_putCertificateBundle, ofDirectory, List.filter_append, ← ofDirectory]
    by_cases hdir : Ingress.certificateDirectoryName bundle.hostname
        = Ingress.certificateDirectoryName hostname
    · rw [if_pos hdir.symm]
      simp [hdir]
    · rw [if_neg (fun h => hdir h.symm), ih]
      simp [hdir]

theorem statError_putCertificateBundle (s : LocalStore) (bundle : CertificateBundle)
    (faults : DiskFaults) :
    (s.putCertificateBundle fetcher bundle faults).1.statError = s.statError := by
  rw [putCertificateBundle]

theorem statError_putAll (fetcher : BundleFetcher) (bundles : List CertificateBundle) :
    (LocalStore.new.putAll fetcher bundles).statError = fun _ _ => none := by
  have hnew : LocalStore.new.statError = fun _ _ => none := rfl
  rw [putAll]
  exact Runs.invariant (I := fun s => s.statError = fun _ _ => none)
    (fun s bundle hs => (statError_putCertificateBundle s bundle {}).trans hs) bundles hnew

/-! ## The check -/

section

variable {s : LocalStore} {hostname : String} (hstat : s.statError = fun _ _ => none)
  (hhost : Go.trimSpace hostname ≠ "")

include hstat hhost

theorem pairKept_of_missing {f : CertFile} {bundles : List CertificateBundle}
    (hf : s.certRoot (Ingress.certificateDirectoryName hostname) f = none) :
    PairKept s hostname bundles := by
  have hcheck : ∀ revision, s.checkCertificateBundle hostname revision = .ok false := by
    intro revision
    obtain ⟨ok, hok, hcomplete⟩ := checkCertificateBundle_eq hstat hhost revision
    cases ok with
    | false => exact hok
    | true => exact absurd (hcomplete.mp rfl f) (by simp [hf])
  refine Or.inr ⟨hcheck, fun entry cert hentry hlive hcert => ?_⟩
  rw [ensureBundle, hcert, hentry]
  simp [hlive, hcheck]

theorem pairKept_iff_of_complete {bundles : List CertificateBundle} {crt key : String}
    (hs : s.certRoot.Complete (Ingress.certificateDirectoryName hostname))
    (hcrt : s.certRoot (Ingress.certificateDirectoryName hostname) .tlsCrt = some crt)
    (hkey : s.certRoot (Ingress.certificateDirectoryName hostname) .tlsKey = some key) :
    PairKept s hostname bundles ↔
      ∃ bundle ∈ bundles, (crt, key) = (bundle.tlsCrt, bundle.tlsKey) := by
  have hcheck : s.checkCertificateBundle hostname 0 = .ok true := by
    obtain ⟨ok, hok, hcomplete⟩ := checkCertificateBundle_eq hstat hhost 0
    rw [hok, hcomplete.mpr hs]
  have hpresent : ¬ ∀ revision, s.checkCertificateBundle hostname revision = .ok false := by
    intro hmissing
    rw [hmissing 0] at hcheck
    cases hcheck
  simp only [PairKept, hcrt, hkey, hpresent, false_and, or_false, Option.some.injEq, Prod.mk.injEq]

end

/-! ## An interrupted call -/

/-- What a call makes of the files of its directory, by where it ends. -/
inductive Leaves (bundle : CertificateBundle) (faults : DiskFaults)
    (old left : CertFile → Option String) : Prop
  | before (hmkdir : faults.mkdirAll = true) (hleft : left = old)
  | inCrt (part : Option Nat) (hmkdir : faults.mkdirAll = false)
      (hcrt : faults.writeFile .tlsCrt = .failed part)
      (hleft : left .tlsCrt = part.elim (old .tlsCrt) fun n => some (beginning bundle.tlsCrt n))
      (hsame : ∀ f ≠ .tlsCrt, left f = old f)
  | inKey (part : Option Nat) (hmkdir : faults.mkdirAll = false)
      (hcrt : faults.writeFile .tlsCrt = .written) (hkey : faults.writeFile .tlsKey = .failed part)
      (hdone : left .tlsCrt = some bundle.tlsCrt)
      (hleft : left .tlsKey = part.elim (old .tlsKey) fun n => some (beginning bundle.tlsKey n))
      (hsame : left .metadataJSON = old .metadataJSON)
  | after (hmkdir : faults.mkdirAll = false) (hcrt : faults.writeFile .tlsCrt = .written)
      (hkey : faults.writeFile .tlsKey = .written) (hdone : left .tlsCrt = some bundle.tlsCrt)
      (hdone' : left .tlsKey = some bundle.tlsKey)
      (hkept : (old .metadataJSON).isSome → (left .metadataJSON).isSome)

theorem leaves (fetcher : BundleFetcher) (s : LocalStore) (bundle : CertificateBundle)
    (faults : DiskFaults) :
    Leaves bundle faults (s.certRoot (Ingress.certificateDirectoryName bundle.hostname))
      ((s.putCertificateBundle fetcher bundle faults).1.certRoot
        (Ingress.certificateDirectoryName bundle.hostname)) := by
  simp only [putCertificateBundle, writeCertificateBundle]
  generalize Ingress.certificateDirectoryName bundle.hostname = dir
  cases hmkdir : faults.mkdirAll with
  | true => exact .before hmkdir rfl
  | false =>
    simp only [Bool.false_eq_true, if_false, CertRoot.writeFiles]
    cases hcrt : faults.writeFile .tlsCrt with
    | failed part =>
      refine .inCrt part hmkdir hcrt ?_ fun f hf => ?_
      · cases part <;> simp [CertRoot.writeFile, CertRoot.write, content]
      · cases part <;> simp [CertRoot.writeFile, CertRoot.write, hf]
    | written =>
      cases hkey : faults.writeFile .tlsKey with
      | failed part =>
        refine .inKey part hmkdir hcrt hkey ?_ ?_ ?_ <;> cases part <;>
          simp [CertRoot.writeFile, CertRoot.write, content]
      | written =>
        refine .after hmkdir hcrt hkey ?_ ?_ ?_ <;>
          rcases faults.writeFile .metadataJSON with _ | _ | n <;>
          simp [CertRoot.writeFile, CertRoot.write, content]

/-- Into an empty directory: unless the new pair is complete, the last file
is missing. -/
theorem Leaves.of_empty {bundle : CertificateBundle} {faults : DiskFaults}
    {old left : CertFile → Option String} (h : Leaves bundle faults old left)
    (hold : ∀ f, old f = none) :
    left .metadataJSON = none
      ∨ left .tlsCrt = some bundle.tlsCrt ∧ left .tlsKey = some bundle.tlsKey := by
  cases h with
  | before hmkdir hleft => exact Or.inl (hleft ▸ hold _)
  | inCrt part hmkdir hcrt hleft hsame =>
    exact Or.inl ((hsame .metadataJSON (by decide)).trans (hold _))
  | inKey part hmkdir hcrt hkey hdone hleft hsame => exact Or.inl (hsame.trans (hold _))
  | after hmkdir hcrt hkey hdone hdone' hkept => exact Or.inr ⟨hdone, hdone'⟩

theorem Leaves.over {bundle last : CertificateBundle} {faults : DiskFaults}
    {old left : CertFile → Option String} (h : Leaves bundle faults old left)
    (hold : ∀ f, old f = some (content fetcher last f)) :
    (∀ f, (left f).isSome) ∧ left .tlsCrt = some (leftPair last bundle faults).1
      ∧ left .tlsKey = some (leftPair last bundle faults).2 := by
  have hpair : left .tlsCrt = some (leftPair last bundle faults).1
      ∧ left .tlsKey = some (leftPair last bundle faults).2 := by
    cases h with
    | before hmkdir hleft => simp [leftPair, hmkdir, hleft, hold, content]
    | inCrt part hmkdir hcrt hleft hsame =>
      rw [hleft, hsame .tlsKey (by decide)]
      cases part <;> simp [leftPair, hmkdir, hcrt, hold, content]
    | inKey part hmkdir hcrt hkey hdone hleft hsame =>
      rw [hdone, hleft]
      cases part <;> simp [leftPair, hmkdir, hcrt, hkey, hold, content]
    | after hmkdir hcrt hkey hdone hdone' hkept =>
      simp [leftPair, hmkdir, hcrt, hkey, hdone, hdone']
  have hmeta : (left .metadataJSON).isSome := by
    cases h with
    | before hmkdir hleft => simp [hleft, hold]
    | inCrt part hmkdir hcrt hleft hsame => simp [hsame .metadataJSON (by decide), hold]
    | inKey part hmkdir hcrt hkey hdone hleft hsame => simp [hsame, hold]
    | after hmkdir hcrt hkey hdone hdone' hkept => exact hkept (by simp [hold])
  refine ⟨fun f => ?_, hpair⟩
  cases f with
  | tlsCrt => simp [hpair.1]
  | tlsKey => simp [hpair.2]
  | metadataJSON => exact hmeta

/-- Where the last bundle and the new one are among them, only a `tls.crt` that is
torn or a `tls.key` that is not written can leave a pair that is none of theirs. -/
theorem exists_leftPair_iff {bundles : List CertificateBundle} {last new : CertificateBundle}
    {faults : DiskFaults} (hlast : last ∈ bundles) (hnew : new ∈ bundles) :
    (∃ bundle ∈ bundles, leftPair last new faults = (bundle.tlsCrt, bundle.tlsKey)) ↔
      (faults.mkdirAll = false →
        (∀ n, faults.writeFile .tlsCrt = .failed (some n) →
          ∃ bundle ∈ bundles, beginning new.tlsCrt n = bundle.tlsCrt ∧ last.tlsKey = bundle.tlsKey)
        ∧ (faults.writeFile .tlsCrt = .written → ∀ part, faults.writeFile .tlsKey = .failed part →
          ∃ bundle ∈ bundles, new.tlsCrt = bundle.tlsCrt
            ∧ part.elim last.tlsKey (beginning new.tlsKey) = bundle.tlsKey)) := by
  rw [leftPair]
  cases faults.mkdirAll with
  | true => exact iff_of_true ⟨last, hlast, rfl⟩ nofun
  | false =>
    cases faults.writeFile .tlsCrt with
    | failed part =>
      cases part with
      | none => exact iff_of_true ⟨last, hlast, rfl⟩ fun _ => ⟨nofun, nofun⟩
      | some n => simp
    | written =>
      cases faults.writeFile .tlsKey with
      | failed part => simp
      | written => exact iff_of_true ⟨new, hnew, rfl⟩ fun _ => ⟨nofun, fun _ => nofun⟩

/-- A call over complete earlier calls, for a host and any others: the pair is
kept exactly if the point where the writes stop leaves the contents of a
bundle. -/
theorem pairKept_iff (fetcher : BundleFetcher) (earlier : List CertificateBundle)
    (new : CertificateBundle) (hhost : Go.trimSpace new.hostname ≠ "") (faults : DiskFaults) :
    PairKept ((LocalStore.new.putAll fetcher earlier).putCertificateBundle fetcher new faults).1
        new.hostname (ofDirectory new.hostname earlier ++ [new]) ↔
      ∀ last ∈ (ofDirectory new.hostname earlier).getLast?, faults.mkdirAll = false →
        (∀ n, faults.writeFile .tlsCrt = .failed (some n) →
          ∃ bundle ∈ ofDirectory new.hostname earlier ++ [new],
            beginning new.tlsCrt n = bundle.tlsCrt ∧ last.tlsKey = bundle.tlsKey)
        ∧ (faults.writeFile .tlsCrt = .written → ∀ part, faults.writeFile .tlsKey = .failed part →
          ∃ bundle ∈ ofDirectory new.hostname earlier ++ [new],
            new.tlsCrt = bundle.tlsCrt
              ∧ part.elim last.tlsKey (beginning new.tlsKey) = bundle.tlsKey) := by
  have hstat : ((LocalStore.new.putAll fetcher earlier).putCertificateBundle fetcher new
      faults).1.statError = fun _ _ => none :=
    (statError_putCertificateBundle _ new faults).trans (statError_putAll fetcher earlier)
  have hold := certRoot_putAll fetcher earlier new.hostname
  have hleaves := leaves fetcher (LocalStore.new.putAll fetcher earlier) new faults
  cases hlast : (ofDirectory new.hostname earlier).getLast? with
  | none =>
    simp only [hlast, Option.map_none] at hold
    refine iff_of_true ?_ (by simp)
    rcases hleaves.of_empty hold with hmissing | hpair
    · exact pairKept_of_missing hstat hhost hmissing
    · exact Or.inl ⟨new, by simp, hpair⟩
  | some last =>
    simp only [hlast, Option.map_some] at hold
    obtain ⟨hcomplete, hcrt, hkey⟩ := hleaves.over hold
    have hmem : last ∈ ofDirectory new.hostname earlier ++ [new] :=
      List.mem_append_left _ (List.mem_of_getLast? hlast)
    rw [pairKept_iff_of_complete hstat hhost hcomplete hcrt hkey, Prod.mk.eta,
      exists_leftPair_iff hmem (List.mem_append_right _ (List.mem_singleton.mpr rfl))]
    simp only [Option.mem_def, Option.some.injEq, forall_eq']

/-- The second bundle of a host, written over the first. -/
def exampleRewrite (faults : DiskFaults) : LocalStore :=
  let bundle := exampleFetcher.fetchCertificateBundle "edge.test"
  ((LocalStore.new.putAll exampleFetcher [bundle 1]).putCertificateBundle exampleFetcher (bundle 2)
    faults).1

def exampleBundles : List CertificateBundle :=
  [exampleFetcher.fetchCertificateBundle "edge.test" 1,
    exampleFetcher.fetchCertificateBundle "edge.test" 2]

/-- The writes stop at the end of `tls.key`. -/
theorem pairKept_key_complete :
    PairKept (exampleRewrite { writeFile := fun f =>
        if f = .tlsKey then .failed (some 5) else .written }) "edge.test" exampleBundles := by
  have hown : ofDirectory "edge.test" [exampleFetcher.fetchCertificateBundle "edge.test" 1]
      = [exampleFetcher.fetchCertificateBundle "edge.test" 1] := by decide +kernel
  have h := (pairKept_iff exampleFetcher [exampleFetcher.fetchCertificateBundle "edge.test" 1]
    (exampleFetcher.fetchCertificateBundle "edge.test" 2) (by decide +kernel)
    { writeFile := fun f => if f = .tlsKey then .failed (some 5) else .written }).mpr
  rw [exampleFetcher.hostname_fetch, hown] at h
  refine h fun last hlast _ => ⟨nofun, fun _ part hpart => ?_⟩
  obtain rfl := WriteOutcome.failed.inj hpart
  exact ⟨exampleFetcher.fetchCertificateBundle "edge.test" 2, by simp, rfl, (by decide +kernel : beginning "key 2" 5 = "key 2")⟩

/-- A crash after `tls.crt`: the new certificate stays beside the old key. -/
theorem mixed_pair_kept :
    ¬ PairKept (exampleRewrite { writeFile := fun f =>
        if f = .tlsKey then .failed none else .written }) "edge.test" exampleBundles := by
  rintro (⟨bundle, hmem, hpair⟩ | ⟨hcheck, -⟩)
  · revert bundle
    decide +kernel
  · exact absurd (hcheck 2) (by decide +kernel)

end LocalStore

end LunaEdge
