import LunaEdge.CertNames
import LunaEdge.LruCache

/-!
# Certificate loads

The resolver of an edge serves a connection with the certificate of the
first candidate name that is cached or has files. Loads run concurrently
with replacements of files and with the watcher, which removes the cache
entry of a name for every file replaced under it. A load takes three kinds
of steps (lookup, read, add) and other steps may come between them.

A cached certificate is the one on disk, or its removal is still to come,
as long as no load adds a certificate that is no longer on disk after the
removals have run (`Fresh`). At rest a load then returns what is on disk
(`returns_fromDisk`). Without the condition a load that has read the old
files puts the old certificate back for good (`stale_certificate_served`).
-/

namespace LunaEdge

open List

namespace Ingress

open Runs

inductive LoadError where
  /-- `hostname is required` -/
  | hostnameRequired
  /-- The error of `tls.LoadX509KeyPair`. -/
  | keyPair (message : String)
  /-- `certificate not found for hostname %q` -/
  | notFound (hostname : String)
deriving Repr, DecidableEq

/-- `Load` before the lookup of the next candidate, before the read of the
files of a candidate, before the addition to the cache, and returned. -/
inductive Load (Cert : Type) where
  | lookup (hostname : String) (candidates : List String)
  | read (hostname candidate : String) (rest : List String)
  | add (candidate : String) (cert : Cert)
  | returned (result : Except LoadError Cert)
deriving DecidableEq

def Load.inProgress {Cert : Type} : Load Cert → Bool
  | .returned _ => false
  | _ => true

/-- The path of each replaced file is in `changed` until the watcher has
dealt with it. -/
structure LunaTLSCertResolver (Cert : Type) where
  disk : CertRoot
  certs : Lru String Cert
  loads : List (Load Cert) := []
  changed : List String := []

inductive ResolverEvent where
  | load (hostname : String)
  | advance (i : Nat)
  | replace (hostname : String) (files : CertFile → String)
  | watch (j : Nat)

namespace LunaTLSCertResolver

variable {Cert : Type}

section

variable (loadX509KeyPair : String → String → Except String Cert)

/-- The certificate in the files of a name, if both are there. -/
def readKeyPair (disk : CertRoot) (name : String) : Option (Except String Cert) :=
  match disk (certificateDirectoryName name) .tlsCrt,
    disk (certificateDirectoryName name) .tlsKey with
  | some crt, some key => some (loadX509KeyPair crt key)
  | _, _ => none

def begin (hostname : String) : Load Cert :=
  let hostname := sanitizeHostname hostname
  if hostname = "" then .returned (.error .hostnameRequired)
  else .lookup hostname (certificateCandidates hostname)

def proceed (disk : CertRoot) (certs : Lru String Cert) : Load Cert → Load Cert × Lru String Cert
  | .lookup hostname [] => (.returned (.error (.notFound hostname)), certs)
  | .lookup hostname (candidate :: rest) =>
    match certs.get candidate with
    | (some cert, certs) => (.returned (.ok cert), certs)
    | (none, certs) => (.read hostname candidate rest, certs)
  | .read hostname candidate rest =>
    match readKeyPair loadX509KeyPair disk candidate with
    | none => (.lookup hostname rest, certs)
    | some (.error message) => (.returned (.error (.keyPair message)), certs)
    | some (.ok cert) => (.add candidate cert, certs)
  | .add candidate cert => (.returned (.ok cert), certs.add candidate cert)
  | .returned result => (.returned result, certs)

def invalidateCacheForPaths (certs : Lru String Cert) (paths : List String) : Lru String Cert :=
  paths.foldl (fun certs path =>
    let hostname := hostnameFromCertificatePath path
    if hostname = "" then certs else certs.delete hostname) certs

def replaceFiles (disk : CertRoot) (dir : String) (files : CertFile → String) : CertRoot :=
  fun d f => if d = dir then some (files f) else disk d f

def step (s : LunaTLSCertResolver Cert) : ResolverEvent → LunaTLSCertResolver Cert
  | .load hostname => { s with loads := s.loads ++ [begin hostname] }
  | .advance i =>
    match s.loads[i]? with
    | none => s
    | some load =>
      let next := proceed loadX509KeyPair s.disk s.certs load
      { s with loads := s.loads.set i next.1, certs := next.2 }
  | .replace hostname files =>
    -- only host names have certificate directories
    if sanitizeHostname hostname = "" then s
    else
      { s with
        disk := replaceFiles s.disk (certificateDirectoryName hostname) files
        changed := s.changed ++ [.tlsCrt, .tlsKey, .metadataJSON].map (certificatePath hostname) }
  | .watch j =>
    match s.changed[j]? with
    | none => s
    | some path =>
      { s with
        certs := invalidateCacheForPaths s.certs [path]
        changed := s.changed.eraseIdx j }

def found (disk : CertRoot) (hostname : String) (names : List String) : Except LoadError Cert :=
  match names.findSome? (readKeyPair loadX509KeyPair disk) with
  | none => .error (.notFound hostname)
  | some (.error message) => .error (.keyPair message)
  | some (.ok cert) => .ok cert

def fromDisk (disk : CertRoot) (hostname : String) : Except LoadError Cert :=
  let hostname := sanitizeHostname hostname
  if hostname = "" then .error .hostnameRequired
  else found loadX509KeyPair disk hostname (certificateCandidates hostname)

/-- A load started now and not interrupted returns this. -/
def Returns (s : LunaTLSCertResolver Cert) (hostname : String)
    (result : Except LoadError Cert) : Prop :=
  ∃ n, ((.load hostname :: List.replicate n (.advance s.loads.length)).foldl
    (step loadX509KeyPair) s).loads[s.loads.length]? = some (.returned result)

end

/-- No load is in progress and the watcher has nothing to do. -/
def AtRest (s : LunaTLSCertResolver Cert) : Prop :=
  (∀ load ∈ s.loads, load.inProgress = false) ∧ s.changed = []

/-! ## Coherence -/

section

variable (loadX509KeyPair : String → String → Except String Cert)

/-- The certificate of a name is the one on disk, or the watcher still has
to remove it. -/
def Current (s : LunaTLSCertResolver Cert) (name : String) (cert : Cert) : Prop :=
  readKeyPair loadX509KeyPair s.disk name = some (.ok cert) ∨
    ∃ path ∈ s.changed, hostnameFromCertificatePath path = name

/-- A load adds only a certificate that is current when it does. -/
def Fresh (s : LunaTLSCertResolver Cert) : ResolverEvent → Prop
  | .advance i =>
    match s.loads[i]? with
    | some (.add candidate cert) => Current loadX509KeyPair s candidate cert
    | _ => True
  | _ => True

def candidates : Load Cert → List String
  | .lookup _ candidates => candidates
  | .read _ candidate rest => candidate :: rest
  | .add candidate _ => [candidate]
  | .returned _ => []

structure Coherent (s : LunaTLSCertResolver Cert) : Prop where
  names : ∀ load ∈ s.loads, ∀ name ∈ candidates load, IsName name
  cached : ∀ name cert, s.certs.get? name = some cert →
    IsName name ∧ Current loadX509KeyPair s name cert

variable {loadX509KeyPair} {s : LunaTLSCertResolver Cert}

theorem candidates_begin (hostname name : String) (h : name ∈ candidates (begin hostname : Load Cert)) :
    IsName name := by
  unfold begin at h
  dsimp only at h
  split at h
  · cases h
  · rw [candidates] at h
    exact isName_candidate h

theorem candidates_proceed (disk : CertRoot) (certs : Lru String Cert) (load : Load Cert) :
    candidates (proceed loadX509KeyPair disk certs load).1 ⊆ candidates load := by
  cases load with
  | lookup hostname names =>
    cases names with
    | nil => exact fun _ h => h
    | cons candidate rest =>
      rw [proceed]
      split
      · exact nil_subset _
      · exact fun _ h => h
  | read hostname candidate rest =>
    unfold proceed
    dsimp only
    split
    · exact subset_cons_self _ _
    · exact nil_subset _
    · exact cons_subset_cons _ (nil_subset _)
  | add candidate cert => exact nil_subset _
  | returned result => exact fun _ h => h

variable {name hostname : String} {cert : Cert} {certs : Lru String Cert}
  {result : Except LoadError Cert}

/-- What is cached after a step of a load was there before, unless the
step added it. -/
theorem get?_proceed {disk : CertRoot} {load : Load Cert}
    (h : (proceed loadX509KeyPair disk certs load).2.get? name = some cert) :
    certs.get? name = some cert ∨ load = .add name cert := by
  cases load with
  | lookup hostname names =>
    cases names with
    | nil => exact Or.inl h
    | cons candidate rest =>
      have hget : (certs.get candidate).2.get? name = certs.get? name := certs.get?_get
      rw [proceed] at h
      split at h <;> rename_i heq <;> rw [heq] at hget <;> exact Or.inl (hget.symm.trans h)
  | read hostname candidate rest =>
    unfold proceed at h
    dsimp only at h
    split at h <;> exact Or.inl h
  | add candidate cert' =>
    rcases Lru.get?_add h with ⟨rfl, rfl⟩ | ⟨-, h⟩
    · exact Or.inr rfl
    · exact Or.inl h
  | returned result => exact Or.inl h

/-- The files of a name are replaced under its own directory only, and
then the watcher is told. -/
theorem current_replace {files : CertFile → String} (hname : IsName name)
    (h : Current loadX509KeyPair s name cert) :
    Current loadX509KeyPair (step loadX509KeyPair s (.replace hostname files)) name cert := by
  rw [step]
  split
  · exact h
  · rename_i hne
    have hhost := isName_sanitizeHostname hne
    have hdirs : certificateDirectoryName hostname
        = certificateDirectoryName (sanitizeHostname hostname) := by
      rw [certificateDirectoryName, certificateDirectoryName, hhost.sanitized]
    by_cases hdir : certificateDirectoryName name = certificateDirectoryName hostname
    · refine Or.inr ⟨certificatePath hostname .tlsCrt, by simp, ?_⟩
      rw [hdirs] at hdir
      rw [certificatePath, hdirs, ← certificatePath, hostnameFromCertificatePath_path hhost]
      exact (certificateDirectoryName_inj hname hhost hdir).symm
    · rcases h with hdisk | ⟨path, hpath, heq⟩
      · left
        rw [← hdisk]
        simp only [readKeyPair, replaceFiles, if_neg hdir]
      · exact Or.inr ⟨path, mem_append_left _ hpath, heq⟩

theorem invalidateCacheForPaths_singleton {path : String}
    (h : (invalidateCacheForPaths certs [path]).get? name = some cert) :
    certs.get? name = some cert ∧ (name ≠ "" → hostnameFromCertificatePath path ≠ name) := by
  rw [invalidateCacheForPaths, foldl_cons, foldl_nil] at h
  dsimp only at h
  split at h
  · rename_i hempty
    exact ⟨h, fun hne heq => hne (heq.symm.trans hempty)⟩
  · rw [Lru.get?_delete] at h
    split at h
    · cases h
    · rename_i hother
      exact ⟨h, fun _ => hother⟩

theorem current_watch {path : String} {j : Nat} (hpath : s.changed[j]? = some path)
    (hother : hostnameFromCertificatePath path ≠ name) (h : Current loadX509KeyPair s name cert)
    (certs : Lru String Cert) :
    Current loadX509KeyPair { s with certs := certs, changed := s.changed.eraseIdx j } name cert := by
  rcases h with hdisk | ⟨path', hpath', heq⟩
  · exact Or.inl hdisk
  · obtain ⟨i, hi⟩ := mem_iff_getElem?.mp hpath'
    refine Or.inr ⟨path', mem_eraseIdx_iff_getElem?.mpr ⟨i, ?_, hi⟩, heq⟩
    rintro rfl
    rw [hpath] at hi
    cases hi
    exact hother heq

theorem coherent_step (hs : Coherent loadX509KeyPair s) {e : ResolverEvent}
    (h : Fresh loadX509KeyPair s e) : Coherent loadX509KeyPair (step loadX509KeyPair s e) := by
  cases e with
  | load hostname =>
    rw [step]
    refine ⟨fun load hload => ?_, hs.cached⟩
    rcases mem_append.mp hload with hold | hnew
    · exact hs.names load hold
    · have hload : load = begin hostname := mem_singleton.mp hnew
      rw [hload]
      exact candidates_begin hostname
  | advance i =>
    rw [Fresh] at h
    rw [step]
    split
    · exact hs
    · rename_i load hload
      have hmem := mem_of_getElem? hload
      refine ⟨fun load' hload' name hname => ?_, fun name cert hget => ?_⟩
      · rcases mem_or_eq_of_mem_set hload' with hold | rfl
        · exact hs.names load' hold name hname
        · exact hs.names load hmem name (candidates_proceed _ _ _ hname)
      · rcases get?_proceed hget with hold | rfl
        · exact hs.cached name cert hold
        · rw [hload] at h
          exact ⟨hs.names _ hmem name (mem_singleton_self _), h⟩
  | replace hostname files =>
    refine ⟨fun load hload => hs.names load ?_, fun name cert hget => ?_⟩
    · rw [step] at hload
      split at hload <;> exact hload
    · have hold : s.certs.get? name = some cert := by
        rw [step] at hget
        split at hget <;> exact hget
      obtain ⟨hname, hcurrent⟩ := hs.cached name cert hold
      exact ⟨hname, current_replace hname hcurrent⟩
  | watch j =>
    rw [step]
    split
    · exact hs
    · rename_i path hpath
      refine ⟨hs.names, fun name cert hget => ?_⟩
      obtain ⟨hold, hother⟩ := invalidateCacheForPaths_singleton hget
      obtain ⟨hname, hcurrent⟩ := hs.cached name cert hold
      exact ⟨hname, current_watch hpath (hother hname.ne_empty) hcurrent _⟩

/-! ## An uninterrupted load -/

def within (s : LunaTLSCertResolver Cert) (load : Load Cert) (certs : Lru String Cert) :
    LunaTLSCertResolver Cert :=
  { s with loads := s.loads ++ [load], certs := certs }

theorem step_within (load : Load Cert) (certs : Lru String Cert) :
    step loadX509KeyPair (s.within load certs) (.advance s.loads.length)
      = s.within (proceed loadX509KeyPair s.disk certs load).1
          (proceed loadX509KeyPair s.disk certs load).2 := by
  simp [step, within]

theorem proceed_lookup {disk : CertRoot} {names : List String} :
    proceed loadX509KeyPair disk certs (.lookup hostname (name :: names))
      = ((certs.get? name).elim (.read hostname name names) fun cert => .returned (.ok cert),
          (certs.get name).2) := by
  rw [proceed, ← Lru.fst_get]
  rcases certs.get name with ⟨_ | cert, certs'⟩ <;> rfl

variable (loadX509KeyPair s) in
/-- A load in this state, with this cache, comes to return the result. -/
def Finishes (load : Load Cert) (certs : Lru String Cert) (result : Except LoadError Cert) : Prop :=
  ∃ n certs', (List.replicate n (.advance s.loads.length)).foldl (step loadX509KeyPair)
    (s.within load certs) = s.within (.returned result) certs'

theorem Finishes.done :
    Finishes loadX509KeyPair s (.returned result) certs result := ⟨0, certs, rfl⟩

theorem Finishes.next {load : Load Cert}
    (h : Finishes loadX509KeyPair s (proceed loadX509KeyPair s.disk certs load).1 (proceed loadX509KeyPair s.disk certs load).2 result) :
    Finishes loadX509KeyPair s load certs result := by
  obtain ⟨n, certs', h⟩ := h
  refine ⟨n + 1, certs', ?_⟩
  rw [replicate_succ, foldl_cons, step_within]
  exact h

/-- Induction on the names still to try. -/
theorem finishes_lookup (hostname : String) (names : List String) (certs : Lru String Cert)
    (hcerts : ∀ name cert, certs.get? name = some cert →
      readKeyPair loadX509KeyPair s.disk name = some (.ok cert)) :
    Finishes loadX509KeyPair s (.lookup hostname names) certs
      (found loadX509KeyPair s.disk hostname names) := by
  induction names generalizing certs with
  | nil => exact .next .done
  | cons name names ih =>
    refine .next ?_
    rw [proceed_lookup, found, List.findSome?_cons]
    cases hget : certs.get? name with
    | some cert =>
      rw [hcerts name cert hget]
      exact .done
    | none =>
      refine .next ?_
      rw [Option.elim_none, proceed]
      cases hpair : readKeyPair loadX509KeyPair s.disk name with
      | none => exact ih _ fun name' cert h => hcerts name' cert (Lru.get?_get.symm.trans h)
      | some result =>
        cases result with
        | error message => exact .done
        | ok cert => exact .next .done

theorem Coherent.returns (hs : Coherent loadX509KeyPair s) (hrest : s.changed = [])
    (hostname : String) :
    Returns loadX509KeyPair s hostname (fromDisk loadX509KeyPair s.disk hostname) := by
  have hcerts : ∀ name cert, s.certs.get? name = some cert →
      readKeyPair loadX509KeyPair s.disk name = some (.ok cert) := by
    intro name cert hget
    rcases (hs.cached name cert hget).2 with hdisk | ⟨path, hpath, -⟩
    · exact hdisk
    · rw [hrest] at hpath
      cases hpath
  have hfinishes : Finishes loadX509KeyPair s (begin hostname) s.certs
      (fromDisk loadX509KeyPair s.disk hostname) := by
    rw [begin, fromDisk]
    split
    · exact .done
    · exact finishes_lookup _ _ _ hcerts
  obtain ⟨n, certs', h⟩ := hfinishes
  refine ⟨n, ?_⟩
  have hstart : step loadX509KeyPair s (.load hostname) = s.within (begin hostname) s.certs := rfl
  rw [foldl_cons, hstart, h]
  simp [within]

variable (loadX509KeyPair) in
/-- From an empty cache and any files, over any interleaving in which every
load adds only what is current. -/
theorem returns_fromDisk (disk : CertRoot) (capacity : Nat) (events : List ResolverEvent)
    (hfresh : Along (step loadX509KeyPair) (Fresh loadX509KeyPair) ⟨disk, .new capacity, [], []⟩
      events)
    (hrest : AtRest (events.foldl (step loadX509KeyPair) ⟨disk, .new capacity, [], []⟩))
    (hostname : String) :
    Returns loadX509KeyPair (events.foldl (step loadX509KeyPair) ⟨disk, .new capacity, [], []⟩)
      hostname
      (fromDisk loadX509KeyPair
        (events.foldl (step loadX509KeyPair) ⟨disk, .new capacity, [], []⟩).disk hostname) := by
  have hcoherent := hfresh.invariant (fun _ _ hs h => coherent_step hs h)
    ⟨fun _ h => absurd h not_mem_nil, fun _ _ h => nomatch h⟩
  exact hcoherent.returns hrest.2 hostname

theorem returned_stays {i : Nat} (h : s.loads[i]? = some (.returned result)) (n : Nat) :
    ((List.replicate n (.advance i)).foldl (step loadX509KeyPair) s).loads[i]?
      = some (.returned result) := by
  induction n generalizing s with
  | zero => exact h
  | succ n ih =>
    rw [replicate_succ, foldl_cons]
    refine ih ?_
    obtain ⟨hi, -⟩ := List.getElem?_eq_some_iff.mp h
    rw [step, h]
    exact List.getElem?_set_self hi

theorem Returns.unique {result' : Except LoadError Cert}
    (h : Returns loadX509KeyPair s hostname result)
    (h' : Returns loadX509KeyPair s hostname result') : result = result' := by
  have key : ∀ {n m : Nat} {r r' : Except LoadError Cert}, n ≤ m →
      ((.load hostname :: List.replicate n (.advance s.loads.length)).foldl
        (step loadX509KeyPair) s).loads[s.loads.length]? = some (.returned r) →
      ((.load hostname :: List.replicate m (.advance s.loads.length)).foldl
        (step loadX509KeyPair) s).loads[s.loads.length]? = some (.returned r') → r = r' := by
    intro n m r r' hle hn hm
    obtain ⟨d, rfl⟩ := Nat.exists_eq_add_of_le hle
    rw [← replicate_append_replicate, ← cons_append, foldl_append, returned_stays hn d] at hm
    cases hm
    rfl
  obtain ⟨n, hn⟩ := h
  obtain ⟨m, hm⟩ := h'
  rcases Nat.le_total n m with hle | hle
  · exact key hle hn hm
  · exact (key hle hm hn).symm

end

/-! ## A load across a replacement -/

instance Fresh.decidable [DecidableEq Cert] (loadX509KeyPair : String → String → Except String Cert)
    (s : LunaTLSCertResolver Cert) (e : ResolverEvent) : Decidable (Fresh loadX509KeyPair s e) := by
  unfold Fresh Current
  cases e <;> try infer_instance
  dsimp only
  split <;> infer_instance

instance AtRest.decidable (s : LunaTLSCertResolver Cert) : Decidable (AtRest s) :=
  inferInstanceAs (Decidable (_ ∧ _))

def plainKeyPair (crt key : String) : Except String (String × String) := .ok (crt, key)

def bundleFiles (version : String) : CertFile → String
  | .tlsCrt => "crt " ++ version
  | .tlsKey => "key " ++ version
  | .metadataJSON => "metadata " ++ version

def oldFiles : CertRoot := replaceFiles (fun _ _ => none) "shop.example" (bundleFiles "old")

/-- A load that is overtaken by a replacement between its read and its
addition. -/
def loadAcross (after : List ResolverEvent) : LunaTLSCertResolver (String × String) :=
  (.load "shop.example" :: .advance 0 :: .advance 0
    :: .replace "shop.example" (bundleFiles "new") :: after).foldl (step plainKeyPair)
    ⟨oldFiles, .new 16, [], []⟩

/-- The watcher comes last. -/
theorem returns_fromDisk_watched :
    AtRest (loadAcross [.advance 0, .watch 0, .watch 0, .watch 0]) ∧
      Returns plainKeyPair (loadAcross [.advance 0, .watch 0, .watch 0, .watch 0]) "shop.example"
        (.ok ("crt new", "key new")) := by
  have hrest : AtRest (loadAcross [.advance 0, .watch 0, .watch 0, .watch 0]) := by
    decide +kernel
  refine ⟨hrest, ?_⟩
  have hdisk : fromDisk plainKeyPair
      (loadAcross [.advance 0, .watch 0, .watch 0, .watch 0]).disk "shop.example"
      = .ok ("crt new", "key new") := by decide +kernel
  rw [← hdisk]
  exact returns_fromDisk plainKeyPair oldFiles 16 _ (by decide +kernel) hrest "shop.example"

/-- The watcher comes before the addition: the old certificate is served. -/
theorem stale_certificate_served :
    AtRest (loadAcross [.watch 0, .watch 0, .watch 0, .advance 0]) ∧
      fromDisk plainKeyPair (loadAcross [.watch 0, .watch 0, .watch 0, .advance 0]).disk
        "shop.example" = .ok ("crt new", "key new") ∧
      ¬ Returns plainKeyPair (loadAcross [.watch 0, .watch 0, .watch 0, .advance 0]) "shop.example"
        (.ok ("crt new", "key new")) := by
  refine ⟨by decide +kernel, by decide +kernel, fun h => ?_⟩
  have hold : Returns plainKeyPair (loadAcross [.watch 0, .watch 0, .watch 0, .advance 0])
      "shop.example" (.ok ("crt old", "key old")) := ⟨1, by decide +kernel⟩
  exact absurd (h.unique hold) (by decide)

end LunaTLSCertResolver

end Ingress

end LunaEdge
