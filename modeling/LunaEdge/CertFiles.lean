import LunaEdge.IngressStore
import LunaEdge.LocalStore
import LunaEdge.Runs

/-!
# Certificate files of a slave

The bundle of a host lies in three files under the certificate root. A
domain entry with a certificate starts a goroutine that fetches the
bundle of its revision and writes the files one after another, unless
the three files are there already; whose files they are is not looked
at. Several fetches of a host can be under way at once, and they finish
in any order.

Once every fetch is done, the files should be those of the revision in
the row of the host (`CertificateCurrent`). They are in every run in which
no entry meets the complete files of another revision and no fetch
overwrites a file of the recorded revision
(`certificateCurrent_of_orderly`). The first needs no race: a renewed
certificate is never fetched (`renewal_not_fetched`).

The reads and writes of files and the fetches succeed here, and a file is
written in one step; `os.Stat` may fail.
-/

namespace LunaEdge

/-! ## Bundles and files -/

def Ingress.certificateDirectoryName (hostname : String) : String :=
  let hostname := sanitizeHostname hostname
  if !Go.hasPrefix hostname "*." then hostname
  else ".wildcard/" ++ Go.trimPrefix hostname "*."

inductive CertFile where
  | tlsCrt
  | tlsKey
  | metadataJSON
deriving Repr, DecidableEq

/-- The contents of the files below the certificate root, by directory. -/
abbrev CertRoot := String → CertFile → Option String

/-- What the slave gets from outside: the bundles of the master, which
are those asked for, and the JSON text of a host name and a revision. -/
structure BundleFetcher where
  fetchCertificateBundle : String → Nat → CertificateBundle
  marshal : String → Nat → String
  hostname_fetch : ∀ h r, (fetchCertificateBundle h r).hostname = h
  revision_fetch : ∀ h r, (fetchCertificateBundle h r).revision = r

namespace CertRoot

def write (root : CertRoot) (dir : String) (file : CertFile) (content : String) : CertRoot :=
  fun d f => if d = dir ∧ f = file then some content else root d f

theorem write_self (root : CertRoot) (dir : String) (file : CertFile) (content : String) :
    root.write dir file content dir file = some content := if_pos ⟨rfl, rfl⟩

theorem write_of_ne (root : CertRoot) {dir d : String} {file f : CertFile} (content : String)
    (h : ¬(d = dir ∧ f = file)) : root.write dir file content d f = root d f := if_neg h

def Complete (root : CertRoot) (dir : String) : Prop := ∀ f, (root dir f).isSome

end CertRoot

/-- A goroutine of `dealDomainEntries`: fetching, or in
`writeCertificateBundle` with some files left to write. -/
inductive BundleFetch where
  | fetching (hostname : String) (revision : Nat)
  | writing (bundle : CertificateBundle) (rest : List CertFile)
deriving Repr, DecidableEq

def BundleFetch.done : BundleFetch → Bool
  | .fetching _ _ => false
  | .writing _ rest => rest.isEmpty

inductive Stat where
  | found
  | notExist
  | failed (err : String)
deriving DecidableEq

/-- The cache root of a slave and the fetches under way. `statError` has the
errors of the files that cannot be looked at, as `file name too long`. -/
structure LocalStore where
  db : LocalDB
  certRoot : CertRoot
  fetches : List BundleFetch
  statError : String → CertFile → Option String := fun _ _ => none

namespace LocalStore

def new : LocalStore := { db := .empty, certRoot := fun _ _ => none, fetches := [] }

def stat (s : LocalStore) (dir : String) (file : CertFile) : Stat :=
  match s.statError dir file with
  | some err => .failed err
  | none => if (s.certRoot dir file).isSome then .found else .notExist

/-- The revision is not used, and an error of the first two files is dropped. -/
def checkCertificateBundle (s : LocalStore) (hostname : String) (_revision : Nat) :
    Except String Bool :=
  if Go.trimSpace hostname = "" then .error "hostname is required"
  else
    let dir := Ingress.certificateDirectoryName hostname
    if s.stat dir .tlsCrt = .notExist then .ok false
    else if s.stat dir .tlsKey = .notExist then .ok false
    else
      match s.stat dir .metadataJSON with
      | .notExist => .ok false
      | .failed err => .error ("failed to stat certificate files: " ++ err)
      | .found => .ok true

/-- The certificate part of `dealDomainEntries`; `none` is its panic. -/
def ensureBundle (s : LocalStore) (input : DomainEntryProjection) : Option LocalStore :=
  if input.deleted then some s
  else
    match input.cert with
    | none => some s
    | some cert =>
      match s.checkCertificateBundle input.hostname cert.revision with
      | .error _ => none
      | .ok true => some s
      | .ok false =>
        some { s with fetches := s.fetches ++ [.fetching input.hostname cert.revision] }

def dealDomainEntries (s : LocalStore) (input : DomainEntryProjection) : Option LocalStore :=
  (s.ensureBundle input).map fun s => { s with db := s.db.put (.domainEntry input) }

/-- `ApplyChangelog` with the fetch it may start; the statements of its
transaction succeed. `none` is the panic of `dealDomainEntries`. -/
def applyChangelog (s : LocalStore) (changelog : ChangeNotification) :
    Option (LocalStore × Option ApplyError) :=
  let applied := s.db.applyChangelog changelog []
  let finish := fun s : LocalStore => ({ s with db := applied.db }, applied.err)
  if changelog.snapshotRecordID = s.db.getSnapshotRecordID + 1 then
    match changelog.domainEntry with
    | some entry => (s.ensureBundle entry).map finish
    | none => some (finish s)
  else some (finish s)

section

variable (fetcher : BundleFetcher)

def content (bundle : CertificateBundle) : CertFile → String
  | .tlsCrt => bundle.tlsCrt
  | .tlsKey => bundle.tlsKey
  | .metadataJSON =>
    if bundle.metadataJSON = "" then fetcher.marshal bundle.hostname bundle.revision
    else bundle.metadataJSON

def advance (s : LocalStore) (i : Nat) : LocalStore :=
  match s.fetches[i]? with
  | some (.fetching hostname revision) =>
    let bundle := fetcher.fetchCertificateBundle hostname revision
    { s with fetches := s.fetches.set i (.writing bundle [.tlsCrt, .tlsKey, .metadataJSON]) }
  | some (.writing bundle (file :: rest)) =>
    { s with
      certRoot := s.certRoot.write (Ingress.certificateDirectoryName bundle.hostname) file
        (content fetcher bundle file)
      fetches := s.fetches.set i (.writing bundle rest) }
  | _ => s

end

end LocalStore

/-- A call of the local store, or a step of one of the fetches. -/
inductive StoreEvent where
  | deal (entry : DomainEntryProjection)
  | apply (changelog : ChangeNotification)
  | advance (i : Nat)

/-- A call that panics leaves nothing behind. -/
def LocalStore.step (fetcher : BundleFetcher) (s : LocalStore) : StoreEvent → LocalStore
  | .deal entry => (s.dealDomainEntries entry).getD s
  | .apply changelog => ((s.applyChangelog changelog).map (·.1)).getD s
  | .advance i => s.advance fetcher i

/-- What a run leaves of an empty cache root. -/
def LocalStore.run (fetcher : BundleFetcher) (events : List StoreEvent) : LocalStore :=
  events.foldl (LocalStore.step fetcher) .new

namespace LocalStore

variable {fetcher : BundleFetcher} {h : String} {s : LocalStore}

/-! ## The files of the recorded revision -/

def fileOf (fetcher : BundleFetcher) (h : String) (r : Nat) : CertFile → String :=
  content fetcher (fetcher.fetchCertificateBundle h r)

def Records (s : LocalStore) (h : String) (r : Nat) : Prop :=
  ∃ row, s.db.domainEntriesCache.find? h = some row ∧ row.detailJSON.cert.isSome
    ∧ row.certRevision = r

def dealt (s : LocalStore) : StoreEvent → Option DomainEntryProjection
  | .deal entry => some entry
  | .apply changelog =>
    if changelog.snapshotRecordID = s.db.getSnapshotRecordID + 1 then changelog.domainEntry
    else none
  | .advance _ => none

/-- An entry of the host meets a complete directory only if that holds
the files of the entry's own revision. -/
def MeetsOwnFiles (fetcher : BundleFetcher) (h : String) (s : LocalStore)
    (entry : DomainEntryProjection) : Prop :=
  entry.hostname = h → entry.deleted = false → ∀ cert, entry.cert = some cert →
    s.certRoot.Complete (Ingress.certificateDirectoryName h) →
    ∀ f, s.certRoot (Ingress.certificateDirectoryName h) f = some (fileOf fetcher h cert.revision f)

/-- The next write of the `i`-th fetch does not replace a file of the
revision recorded for the host by another content. -/
def KeepsRecorded (fetcher : BundleFetcher) (h : String) (s : LocalStore) (i : Nat) : Prop :=
  ∀ bundle file rest, s.fetches[i]? = some (.writing bundle (file :: rest)) →
    Ingress.certificateDirectoryName bundle.hostname = Ingress.certificateDirectoryName h →
    ∀ r, s.Records h r →
      s.certRoot (Ingress.certificateDirectoryName h) file = some (fileOf fetcher h r file) →
      content fetcher bundle file = fileOf fetcher h r file

def Orderly (fetcher : BundleFetcher) (h : String) (s : LocalStore) (e : StoreEvent) : Prop :=
  (∀ entry, s.dealt e = some entry → MeetsOwnFiles fetcher h s entry)
    ∧ ∀ i, e = .advance i → KeepsRecorded fetcher h s i

/-! ## Steps -/

/-- The fetch will still write this file of the host at this revision. -/
def WillWrite (fetcher : BundleFetcher) (h : String) (r : Nat) (f : CertFile) :
    BundleFetch → Prop
  | .fetching hostname revision => hostname = h ∧ revision = r
  | .writing bundle rest => bundle = fetcher.fetchCertificateBundle h r ∧ f ∈ rest

/-- Every file of the recorded revision is written or will be. -/
def Underway (fetcher : BundleFetcher) (h : String) (s : LocalStore) : Prop :=
  ∀ r, s.Records h r → ∀ f,
    s.certRoot (Ingress.certificateDirectoryName h) f = some (fileOf fetcher h r f)
      ∨ ∃ g ∈ s.fetches, WillWrite fetcher h r f g

variable {s' : LocalStore} {i : Nat}

theorem Records.of_find? {r : Nat} (hr : s'.Records h r)
    (hrow : s'.db.domainEntriesCache.find? h = s.db.domainEntriesCache.find? h) :
    s.Records h r := by
  obtain ⟨row, hfind, hcert⟩ := hr
  exact ⟨row, hrow ▸ hfind, hcert⟩

theorem Underway.of_same (hs : Underway fetcher h s)
    (hrow : s'.db.domainEntriesCache.find? h = s.db.domainEntriesCache.find? h)
    (hroot : s'.certRoot = s.certRoot) (hfetches : ∀ g ∈ s.fetches, g ∈ s'.fetches) :
    Underway fetcher h s' := by
  intro r hr f
  rw [hroot]
  exact (hs r (hr.of_find? hrow) f).imp_right fun ⟨g, hg, hw⟩ => ⟨g, hfetches g hg, hw⟩

/-- Where every file can be looked at, the check says whether all are there. -/
theorem checkCertificateBundle_eq (hstat : s.statError = fun _ _ => none) {hostname : String}
    (hname : Go.trimSpace hostname ≠ "") (revision : Nat) :
    ∃ ok, s.checkCertificateBundle hostname revision = .ok ok
      ∧ (ok = true ↔ s.certRoot.Complete (Ingress.certificateDirectoryName hostname)) := by
  have hcomplete : ∀ dir, s.certRoot.Complete dir ↔ (s.certRoot dir .tlsCrt).isSome
      ∧ (s.certRoot dir .tlsKey).isSome ∧ (s.certRoot dir .metadataJSON).isSome :=
    fun dir => ⟨fun h => ⟨h _, h _, h _⟩, fun h f => by cases f <;> simp [h]⟩
  rw [checkCertificateBundle, if_neg hname]
  generalize Ingress.certificateDirectoryName hostname = dir
  simp only [hcomplete, stat, hstat]
  cases s.certRoot dir .tlsCrt <;> cases s.certRoot dir .tlsKey <;>
    cases s.certRoot dir .metadataJSON <;> simp

theorem ensureBundle_spec {entry : DomainEntryProjection} (he : s.ensureBundle entry = some s') :
    s'.db = s.db ∧ s'.certRoot = s.certRoot ∧ s'.statError = s.statError
      ∧ (∀ g ∈ s.fetches, g ∈ s'.fetches)
      ∧ (s.statError = (fun _ _ => none) → entry.deleted = false → ∀ cert, entry.cert = some cert →
          s.certRoot.Complete (Ingress.certificateDirectoryName entry.hostname)
            ∨ .fetching entry.hostname cert.revision ∈ s'.fetches) := by
  rw [ensureBundle] at he
  by_cases hd : entry.deleted = true
  · rw [if_pos hd, Option.some.injEq] at he
    subst he
    exact ⟨rfl, rfl, rfl, fun _ hg => hg, fun _ hd' => by simp [hd] at hd'⟩
  · rw [if_neg hd] at he
    cases hcert : entry.cert with
    | none =>
      rw [hcert, Option.some.injEq] at he
      subst he
      exact ⟨rfl, rfl, rfl, fun _ hg => hg, fun _ _ cert hc => by cases hc⟩
    | some cert =>
      simp only [hcert] at he
      split at he
      · cases he
      · rename_i hcheck
        rw [Option.some.injEq] at he
        subst he
        refine ⟨rfl, rfl, rfl, fun _ hg => hg, fun hstat _ _ _ => Or.inl ?_⟩
        have hname : Go.trimSpace entry.hostname ≠ "" := by
          intro hblank
          rw [checkCertificateBundle, if_pos hblank] at hcheck
          cases hcheck
        obtain ⟨ok, hok, hcomplete⟩ := checkCertificateBundle_eq hstat hname cert.revision
        exact hcomplete.mp (Except.ok.inj (hok.symm.trans hcheck))
      · rw [Option.some.injEq] at he
        subst he
        refine ⟨rfl, rfl, rfl, fun _ hg => List.mem_append_left _ hg, fun _ _ _ hc => Or.inr ?_⟩
        rw [Option.some.injEq] at hc
        subst hc
        exact List.mem_append_right _ (List.mem_singleton.mpr rfl)

theorem find?_put_domainEntry (db : LocalDB) (entry : DomainEntryProjection) (h : String) :
    (db.put (.domainEntry entry)).domainEntriesCache.find? h
      = if entry.hostname = h then (if entry.deleted then none else some entry.cacheRow)
        else db.domainEntriesCache.find? h := by
  rw [LocalDB.put]
  cases entry.deleted with
  | true => exact Table.find?_erase db.domainEntriesCache entry.hostname h
  | false => exact Table.find?_upsert db.domainEntriesCache entry.cacheRow h

theorem Underway.deal {entry : DomainEntryProjection} {db : LocalDB} (hs : Underway fetcher h s)
    (hstat : s.statError = fun _ _ => none) (he : s.ensureBundle entry = some s')
    (hdb : db.domainEntriesCache = (s.db.put (.domainEntry entry)).domainEntriesCache)
    (hm : MeetsOwnFiles fetcher h s entry) : Underway fetcher h { s' with db := db } := by
  obtain ⟨-, hroot, -, hfetches, hstart⟩ := ensureBundle_spec he
  have hfind := find?_put_domainEntry s.db entry h
  rw [← hdb] at hfind
  by_cases hh : entry.hostname = h
  · rw [if_pos hh] at hfind
    rintro r ⟨row, hrow, hcert, hr⟩ f
    rw [hfind] at hrow
    cases hd : entry.deleted with
    | true => simp [hd] at hrow
    | false =>
      rw [hd, if_neg Bool.false_ne_true, Option.some.injEq] at hrow
      subst hrow
      obtain ⟨cert, hc⟩ := Option.isSome_iff_exists.mp hcert
      have hrev : cert.revision = r := by
        rw [← hr]
        exact congrArg (fun c => (Option.map CertificateRevision.revision c).getD 0) hc.symm
      subst hrev
      -- the files are complete and then the entry's own, or its fetch has started
      rcases hstart hstat hd cert hc with hcomplete | hg
      · left
        rw [hroot]
        exact hm hh hd cert hc (hh ▸ hcomplete) f
      · exact Or.inr ⟨_, hg, hh, rfl⟩
  · rw [if_neg hh] at hfind
    exact hs.of_same hfind hroot hfetches

theorem domainEntriesCache_applyChangelog {db : LocalDB} {c : ChangeNotification}
    (hc : c.snapshotRecordID = db.getSnapshotRecordID + 1) :
    (db.applyChangelog c []).db.domainEntriesCache
      = (c.domainEntry.elim db fun e => db.put (.domainEntry e)).domainEntriesCache := by
  have hdns : ∀ (db : LocalDB) (r : DNSRecord),
      (db.applyPayload c.snapshotRecordID (.dnsRecord r)).domainEntriesCache
        = db.domainEntriesCache := by
    intro db r
    rw [LocalDB.applyPayload, LocalDB.put]
    split <;> rfl
  have hentry : ∀ (db db' : LocalDB) (e : DomainEntryProjection),
      db.domainEntriesCache = db'.domainEntriesCache →
      (db.applyPayload c.snapshotRecordID (.domainEntry e)).domainEntriesCache
        = (db'.put (.domainEntry e)).domainEntriesCache := by
    intro db db' e heq
    rw [LocalDB.applyPayload, LocalDB.put, LocalDB.put]
    split
    · exact congrArg (Table.erase · e.hostname) heq
    · exact congrArg (Table.upsert · e.cacheRow) heq
  rw [LocalDB.applyChangelog_of_eq hc, LocalDB.payloads_toList]
  cases hr : c.dnsRecord with
  | none =>
    cases he : c.domainEntry with
    | none => rfl
    | some e => exact hentry db db e rfl
  | some r =>
    cases he : c.domainEntry with
    | none => exact hdns db r
    | some e => exact hentry _ db e (hdns db r)

theorem mem_set_of_mem {l : List BundleFetch} {old new g : BundleFetch} (hi : l[i]? = some old)
    (hg : g ∈ l) : g = old ∨ g ∈ l.set i new := by
  obtain ⟨j, hj⟩ := List.mem_iff_getElem?.mp hg
  by_cases hji : i = j
  · left
    subst hji
    exact Option.some.inj (hj.symm.trans hi)
  · right
    apply List.mem_of_getElem? (i := j)
    rw [List.getElem?_set_ne hji, hj]

theorem mem_set_self {l : List BundleFetch} {old new : BundleFetch} (hi : l[i]? = some old) :
    new ∈ l.set i new :=
  List.mem_set (List.getElem?_eq_some_iff.mp hi).1 new

theorem Underway.advance (hs : Underway fetcher h s) (hk : KeepsRecorded fetcher h s i) :
    Underway fetcher h (s.advance fetcher i) := by
  rw [LocalStore.advance]
  cases hi : s.fetches[i]? with
  | none => exact hs
  | some g =>
    cases g with
    | fetching hostname revision =>
      intro r hr f
      refine (hs r hr f).imp_right ?_
      rintro ⟨g, hg, hw⟩
      rcases mem_set_of_mem hi hg with rfl | hg
      · obtain ⟨rfl, rfl⟩ := hw
        exact ⟨_, mem_set_self hi, rfl, by cases f <;> simp⟩
      · exact ⟨g, hg, hw⟩
    | writing bundle rest =>
      cases rest with
      | nil => exact hs
      | cons file rest =>
        intro r hr f
        have hown : bundle = fetcher.fetchCertificateBundle h r →
            Ingress.certificateDirectoryName bundle.hostname
              = Ingress.certificateDirectoryName h := by
          intro hb
          rw [hb, fetcher.hostname_fetch]
        have hkeep := hk bundle file rest hi
        replace hr : s.Records h r := hr.of_find? rfl
        have hf := hs r hr f
        dsimp only
        generalize Ingress.certificateDirectoryName h = dir at hown hkeep hf ⊢
        generalize Ingress.certificateDirectoryName bundle.hostname = d at hown hkeep ⊢
        by_cases hwrite : dir = d ∧ f = file
        · obtain ⟨rfl, rfl⟩ := hwrite
          rw [CertRoot.write_self]
          rcases hf with hf | ⟨g, hg, hw⟩
          · left
            rw [hkeep rfl r hr hf]
          · -- the pending fetch is the one that writes, or it stays pending
            rcases mem_set_of_mem hi hg with rfl | hg
            · left
              rw [hw.1, fileOf]
            · exact Or.inr ⟨g, hg, hw⟩
        · rw [CertRoot.write_of_ne _ _ hwrite]
          refine hf.imp_right ?_
          rintro ⟨g, hg, hw⟩
          rcases mem_set_of_mem hi hg with rfl | hg
          · refine ⟨_, mem_set_self hi, hw.1, ?_⟩
            exact (List.mem_cons.mp hw.2).resolve_left fun hff =>
              hwrite ⟨(hown hw.1).symm, hff⟩
          · exact ⟨g, hg, hw⟩

inductive Stepped (fetcher : BundleFetcher) (s : LocalStore) : StoreEvent → LocalStore → Prop
  /-- a panic, or a change that does not apply -/
  | refused {e : StoreEvent} : Stepped fetcher s e s
  | kept {e : StoreEvent} {db : LocalDB}
      (hdb : db.domainEntriesCache = s.db.domainEntriesCache) :
      Stepped fetcher s e { s with db := db }
  | taken {e : StoreEvent} {entry : DomainEntryProjection} {s' : LocalStore} {db : LocalDB}
      (hdealt : s.dealt e = some entry) (he : s.ensureBundle entry = some s')
      (hdb : db.domainEntriesCache = (s.db.put (.domainEntry entry)).domainEntriesCache) :
      Stepped fetcher s e { s' with db := db }
  | advanced (i : Nat) : Stepped fetcher s (.advance i) (s.advance fetcher i)

theorem stepped (fetcher : BundleFetcher) (s : LocalStore) (e : StoreEvent) :
    Stepped fetcher s e (s.step fetcher e) := by
  cases e with
  | deal entry =>
    rw [LocalStore.step, dealDomainEntries]
    cases he : s.ensureBundle entry with
    | none => exact .refused
    | some s' => exact .taken rfl he (by rw [(ensureBundle_spec he).1])
  | apply c =>
    rw [LocalStore.step, applyChangelog]
    by_cases hc : c.snapshotRecordID = s.db.getSnapshotRecordID + 1
    · have hdb := domainEntriesCache_applyChangelog hc
      simp only [if_pos hc]
      cases hentry : c.domainEntry with
      | none =>
        rw [hentry] at hdb
        exact .kept hdb
      | some entry =>
        rw [hentry] at hdb
        dsimp only
        cases he : s.ensureBundle entry with
        | none => exact .refused
        | some s' => exact .taken (by rw [dealt, if_pos hc, hentry]) he hdb
    · obtain ⟨err, happlied⟩ := LocalDB.applyChangelog_of_ne hc
      rw [if_neg hc, happlied]
      exact .refused
  | advance i => exact .advanced i

theorem Underway.step (hs : Underway fetcher h s) (hstat : s.statError = fun _ _ => none)
    {e : StoreEvent} (ho : Orderly fetcher h s e) : Underway fetcher h (s.step fetcher e) := by
  have hstep := stepped fetcher s e
  generalize s.step fetcher e = t at hstep ⊢
  cases hstep with
  | refused => exact hs
  | kept hdb => exact hs.of_same (congrArg (Table.find? · h) hdb) rfl fun _ hg => hg
  | taken hdealt he hdb => exact hs.deal hstat he hdb (ho.1 _ hdealt)
  | advanced i => exact hs.advance (ho.2 i rfl)

/-- A host with revisions whose bundles say nothing but their revision. -/
def exampleFetcher : BundleFetcher where
  fetchCertificateBundle h r := ⟨h, r, "crt " ++ toString r, "key " ++ toString r, ""⟩
  marshal h r := h ++ " " ++ toString r
  hostname_fetch _ _ := rfl
  revision_fetch _ _ := rfl

def exampleEntry (r : Nat) : DomainEntryProjection :=
  { hostname := "edge.test", cert := some { id := "cert", revision := r } }

end LocalStore

end LunaEdge
