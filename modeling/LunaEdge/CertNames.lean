import LunaEdge.CertFiles
import LunaEdge.GoPath

/-!
# Names of certificates

A certificate is kept under a name: a host name, or `*.` before one. The
names a connection may be served under are its host name and the wildcards
of the domains above (`certificateCandidates`). The files of a name lie in
a directory of its own, and the watcher reads the name back off the path of
a changed file (`hostnameFromCertificatePath`); this is the name the files
were written for (`hostnameFromCertificatePath_path`).
-/

namespace LunaEdge

open List

def CertFile.name : CertFile → String
  | .tlsCrt => "tls.crt"
  | .tlsKey => "tls.key"
  | .metadataJSON => "metadata.json"

theorem CertFile.plainName_name (file : CertFile) : Go.PlainName file.name := by
  cases file <;> exact ⟨by decide, by decide, by decide, by decide⟩

namespace Ingress

def certificateCandidates (hostname : String) : List String :=
  let parts := Go.split (sanitizeHostname hostname) '.'
  if parts.length = 0 ∨ parts[0]? = some "" then []
  else
    Go.join parts '.'
      :: (List.range' 1 (parts.length - 2)).map fun i => "*." ++ Go.join (parts.drop i) '.'

def certificatePath (hostname : String) (file : CertFile) : String :=
  certificateDirectoryName hostname ++ "/" ++ file.name

/-- The path is relative to the certificate root and clean. -/
def hostnameFromCertificatePath (rel : String) : String :=
  if rel = "." || Go.hasPrefix rel ".." then ""
  else
    match Go.split rel '/' with
    | [] => ""
    | first :: rest =>
      if first = ".wildcard" then rest.head?.elim "" fun name => sanitizeHostname ("*." ++ name)
      else sanitizeHostname first

def hostnameFromCertificatePathUnder (certRoot changedPath : String) : String :=
  match Go.pathRel (Go.pathClean certRoot) (Go.pathClean changedPath) with
  | none => ""
  | some rel => hostnameFromCertificatePath rel

def certificateDirectory (certRoot hostname : String) : String :=
  Go.joinPath [certRoot, certificateDirectoryName hostname]

def certificateFile (certRoot hostname : String) (file : CertFile) : String :=
  Go.joinPath [certRoot, certificateDirectoryName hostname, file.name]

def directoryNames (hostname : String) : List String :=
  let hostname := sanitizeHostname hostname
  if hostname = "" then []
  else if !Go.hasPrefix hostname "*." then [hostname]
  else [".wildcard", Go.trimPrefix hostname "*."]

/-! ## Names -/

/-- A name that is its own sanitised form. -/
structure IsName (k : String) : Prop where
  ne_empty : k ≠ ""
  sanitized : sanitizeHostname k = k

theorem sanitizeHostname_of_hostChars {host : String} (h : ∀ c ∈ host.toList, hostChar c) :
    sanitizeHostname host = sanitizeTrimmed host := by
  obtain ⟨hlower, htrim, -⟩ := steps_of_hostChars h
  rw [sanitizeHostname, hlower, htrim]

theorem isName_sanitizeHostname {host : String} (hne : sanitizeHostname host ≠ "") :
    IsName (sanitizeHostname host) := by
  refine ⟨hne, ?_⟩
  have hchars : ∀ c ∈ (sanitizeHostname host).toList, hostChar c := hostChar_of_mem_sanitizeTrimmed
  rw [sanitizeHostname_of_hostChars hchars]
  exact sanitizeTrimmed_idem _

variable {v k : String}

theorem Sanitized.isName_wildcard (h : Sanitized v) : IsName ("*." ++ v) := by
  have hne : "*." ++ v ≠ "" := by
    intro hempty
    have hlist := congrArg String.toList hempty
    simp at hlist
  refine ⟨hne, ?_⟩
  rw [sanitizeHostname_of_hostChars h.hostChars_wildcard,
    sanitizeTrimmed_of_sanitized hne (Go.trimPrefix_append "*." v) h,
    if_pos (Go.hasPrefix_append "*." v)]

theorem IsName.cases (h : IsName k) :
    (Sanitized k ∧ Go.hasPrefix k "*." = false) ∨ ∃ v, Sanitized v ∧ k = "*." ++ v := by
  have heq : sanitizeTrimmed (Go.trimSpace (Go.toLower k)) = k := h.sanitized
  rcases sanitizeTrimmed_cases (Go.trimSpace (Go.toLower k)) with hempty | hplain | hwild
  · exact absurd (heq.symm.trans hempty) h.ne_empty
  · rw [heq] at hplain
    exact Or.inl hplain
  · rw [heq] at hwild
    exact Or.inr hwild

theorem Sanitized.head_ne_dot (h : Sanitized v) {cs : List Char} : v.toList ≠ '.' :: cs := by
  intro hlist
  have hmem : "" ∈ Go.split v '.' := by
    rw [Go.split, hlist, splitOn_cons_eq_if_modifyHead, if_pos (by simp)]
    exact mem_cons_self
  exact absurd (all_eq_true.mp h.labels "" hmem) (by decide)

theorem Sanitized.noSlash (h : Sanitized v) : '/' ∉ v.toList := by
  intro hmem
  have hn := hostChar_toNat (h.hostChars '/' hmem)
  simp at hn

theorem Sanitized.drop (h : Sanitized v) {n : Nat} (hn : n < (Go.split v '.').length) :
    Sanitized (Go.join ((Go.split v '.').drop n) '.') := by
  have hsuffix := Go.join_drop_suffix (Go.split v '.') '.' hn
  rw [Go.join_split] at hsuffix
  have hsplit : Go.split (Go.join ((Go.split v '.').drop n) '.') '.' = (Go.split v '.').drop n := by
    refine Go.split_join (fun part hpart => ?_) (ne_nil_of_length_pos ?_)
    · exact Go.not_mem_of_mem_split (mem_of_mem_drop hpart)
    · rw [length_drop]
      omega
  have hlabels : ((Go.split v '.').drop n).all hostnameLabelPattern = true :=
    all_eq_true.mpr fun part hpart =>
      all_eq_true.mp h.labels part (mem_of_mem_drop hpart)
  generalize Go.join ((Go.split v '.').drop n) '.' = w at hsuffix hsplit
  have hne : w ≠ "" := by
    rintro rfl
    rw [← hsplit] at hlabels
    exact absurd hlabels (by decide)
  have hchecks := h.checks
  simp only [Bool.or_eq_false_iff, decide_eq_false_iff_not] at hchecks
  obtain ⟨⟨-, hdots⟩, hany⟩ := hchecks
  refine ⟨?_, hsplit ▸ hlabels⟩
  simp only [Bool.or_eq_false_iff, decide_eq_false_iff_not]
  refine ⟨⟨hne, Bool.eq_false_iff.mpr fun hw => ?_⟩, Bool.eq_false_iff.mpr fun hw => ?_⟩
  · obtain ⟨t, ht, hpre⟩ := any_eq_true.mp hw
    refine Bool.eq_false_iff.mp hdots (any_eq_true.mpr ⟨t, ?_, hpre⟩)
    exact (mem_tails _ _).mpr (((mem_tails _ _).mp ht).trans hsuffix)
  · obtain ⟨c, hc, hmem⟩ := any_eq_true.mp hw
    exact Bool.eq_false_iff.mp hany (any_eq_true.mpr ⟨c, hsuffix.subset hc, hmem⟩)

/-! ## Candidates -/

theorem split_wildcard (v : String) : Go.split ("*." ++ v) '.' = "*" :: Go.split v '.' := by
  have hlist : ("*." ++ v).toList = ['*'] ++ '.' :: v.toList := by simp
  rw [Go.split, hlist, splitOn_append_cons_self_of_not_mem (by decide)]
  rfl

theorem isName_candidate {hostname : String} (hk : k ∈ certificateCandidates hostname) :
    IsName k := by
  unfold certificateCandidates at hk
  dsimp only at hk
  by_cases hne : sanitizeHostname hostname = ""
  · rw [hne] at hk
    cases hk
  · have hname := isName_sanitizeHostname hne
    generalize sanitizeHostname hostname = s at hk hname
    split at hk
    · cases hk
    · rcases mem_cons.mp hk with rfl | hk
      · rwa [Go.join_split]
      · obtain ⟨i, hi, rfl⟩ := mem_map.mp hk
        rw [mem_range'_1] at hi
        rcases hname.cases with ⟨hs, -⟩ | ⟨v, hv, rfl⟩
        · exact (hs.drop (by omega)).isName_wildcard
        · rw [split_wildcard] at hi ⊢
          rw [length_cons] at hi
          obtain ⟨n, rfl⟩ : ∃ n, i = n + 1 := ⟨i - 1, by omega⟩
          rw [drop_succ_cons]
          exact (hv.drop (by omega)).isName_wildcard

/-! ## Paths -/

variable {h h' : String}

theorem Sanitized.plainName (h : Sanitized v) : Go.PlainName v where
  ne_empty := h.ne_empty
  ne_dot heq := h.head_ne_dot (congrArg String.toList heq)
  ne_up heq := h.head_ne_dot (congrArg String.toList heq)
  noSlash := h.noSlash

theorem directoryNames_eq_nil_iff : directoryNames h = [] ↔ sanitizeHostname h = "" := by
  unfold directoryNames
  dsimp only
  split
  · simp [*]
  · split <;> simp [*]

theorem directoryNames_plain (h : IsName k) (hplain : Go.hasPrefix k "*." = false) :
    directoryNames k = [k] := by
  simp [directoryNames, h.sanitized, h.ne_empty, hplain]

theorem directoryNames_wildcard (hv : Sanitized v) :
    directoryNames ("*." ++ v) = [".wildcard", v] := by
  simp [directoryNames, hv.isName_wildcard.sanitized, hv.isName_wildcard.ne_empty,
    Go.hasPrefix_append, Go.trimPrefix_append]

theorem directoryNames_sanitizeHostname (hne : sanitizeHostname h ≠ "") :
    directoryNames (sanitizeHostname h) = directoryNames h := by
  rw [directoryNames, (isName_sanitizeHostname hne).sanitized, directoryNames]

theorem join_directoryNames : Go.join (directoryNames h) '/' = certificateDirectoryName h := by
  unfold directoryNames certificateDirectoryName
  dsimp only
  split
  · rename_i hempty
    rw [hempty]
    decide
  · split
    · simp [Go.join]
    · simp [Go.join, List.intercalate, ← String.toList_inj]

theorem plainName_directoryNames : Go.PlainNames (directoryNames h) := by
  by_cases hne : sanitizeHostname h = ""
  · rw [directoryNames_eq_nil_iff.mpr hne]
    exact fun _ h => absurd h not_mem_nil
  · have hname := isName_sanitizeHostname hne
    rw [← directoryNames_sanitizeHostname hne]
    rcases hname.cases with ⟨hs, hplain⟩ | ⟨v, hv, heq⟩
    · rw [directoryNames_plain hname hplain]
      exact forall_mem_singleton.mpr hs.plainName
    · rw [heq, directoryNames_wildcard hv]
      refine forall_mem_cons.mpr ⟨?_, forall_mem_singleton.mpr hv.plainName⟩
      exact ⟨by decide, by decide, by decide, by decide⟩

/-- The watcher reads a name off its directory and off every path below it. -/
theorem hostnameFromCertificatePath_join {rest : List String} (h : IsName k)
    (hrest : ∀ name ∈ rest, '/' ∉ name.toList) :
    hostnameFromCertificatePath (Go.join (directoryNames k ++ rest) '/') = k := by
  have hslash : ∀ name ∈ directoryNames k ++ rest, '/' ∉ name.toList := fun name hname =>
    (mem_append.mp hname).elim (fun hn => (plainName_directoryNames name hn).noSlash)
      (hrest name)
  rcases h.cases with ⟨hs, hplain⟩ | ⟨v, hv, rfl⟩
  · rw [directoryNames_plain h hplain, singleton_append] at hslash ⊢
    obtain ⟨t, ht⟩ := Go.exists_toList_join k rest
    obtain ⟨c, cs, hk⟩ := exists_cons_of_ne_nil (String.toList_eq_nil_iff.not.mpr h.ne_empty)
    have hc : '.' ≠ c := fun heq => hs.head_ne_dot (heq ▸ hk)
    have hup : Go.hasPrefix (Go.join (k :: rest) '/') ".." = false := by
      rw [Go.hasPrefix, ht, hk]
      simp [List.isPrefixOf, hc]
    have hhere : Go.join (k :: rest) '/' ≠ "." := fun heq => by
      rw [heq, hk] at ht
      exact hc (List.cons.inj ht).1
    have hne : k ≠ ".wildcard" := fun heq => hs.head_ne_dot (congrArg String.toList heq)
    rw [hostnameFromCertificatePath, Go.split_join hslash (by simp)]
    simp [hhere, hup, hne, h.sanitized]
  · rw [directoryNames_wildcard hv, cons_append, singleton_append] at hslash ⊢
    obtain ⟨t, ht⟩ := Go.exists_toList_join ".wildcard" (v :: rest)
    have hup : Go.hasPrefix (Go.join (".wildcard" :: (v :: rest)) '/') ".." = false := by
      rw [Go.hasPrefix, ht]
      simp [List.isPrefixOf]
    have hhere : Go.join (".wildcard" :: (v :: rest)) '/' ≠ "." := fun heq => by
      rw [heq] at ht
      simp at ht
    rw [hostnameFromCertificatePath, Go.split_join hslash (by simp)]
    simp [hhere, hup, h.sanitized]

theorem hostnameFromCertificatePath_path (h : IsName k) (file : CertFile) :
    hostnameFromCertificatePath (certificatePath k file) = k := by
  have hne : directoryNames k ≠ [] := fun hnil =>
    h.ne_empty (h.sanitized.symm.trans (directoryNames_eq_nil_iff.mp hnil))
  rw [certificatePath, ← join_directoryNames, ← Go.join_concat hne]
  exact hostnameFromCertificatePath_join h (forall_mem_singleton.mpr file.plainName_name.noSlash)

theorem certificateDirectoryName_inj {k' : String} (h : IsName k) (h' : IsName k')
    (hdir : certificateDirectoryName k = certificateDirectoryName k') : k = k' := by
  have hpath : certificatePath k .tlsCrt = certificatePath k' .tlsCrt := by
    rw [certificatePath, certificatePath, hdir]
  rw [← hostnameFromCertificatePath_path h .tlsCrt, hpath,
    hostnameFromCertificatePath_path h' .tlsCrt]

/-! ## Directories -/

/-- A directory holds the one of another name only if it is the root. -/
theorem prefix_directoryNames_iff (hdiffer : sanitizeHostname h ≠ sanitizeHostname h') :
    directoryNames h <+: directoryNames h' ↔ sanitizeHostname h = "" := by
  refine ⟨fun hprefix => ?_, fun hempty => ?_⟩
  · by_contra hne
    obtain ⟨rest, hrest⟩ := hprefix
    have hne' : sanitizeHostname h' ≠ "" := fun heq => by
      rw [directoryNames_eq_nil_iff.mpr heq, append_eq_nil_iff] at hrest
      exact hne (directoryNames_eq_nil_iff.mp hrest.1)
    have hslash : ∀ name ∈ rest, '/' ∉ name.toList := fun name hname => by
      refine (plainName_directoryNames (h := h') name ?_).noSlash
      exact hrest ▸ mem_append_right _ hname
    have hread := hostnameFromCertificatePath_join (isName_sanitizeHostname hne) hslash
    have hread' := hostnameFromCertificatePath_join (isName_sanitizeHostname hne')
      (forall_mem_nil fun name : String => '/' ∉ name.toList)
    rw [directoryNames_sanitizeHostname hne, hrest] at hread
    rw [directoryNames_sanitizeHostname hne', append_nil, hread] at hread'
    exact hdiffer hread'
  · rw [directoryNames_eq_nil_iff.mpr hempty]
    exact nil_prefix

section Root

-- host names are compared here and never computed
attribute [local irreducible] sanitizeHostname

variable {root : List String} (hroot : Go.PlainNames root)
include hroot

theorem plainName_below : Go.PlainNames (root ++ directoryNames h) := fun name hname =>
  (mem_append.mp hname).elim (hroot name) (plainName_directoryNames name)

theorem certificateDirectory_eq :
    certificateDirectory (Go.absPath root) h = Go.absPath (root ++ directoryNames h) := by
  refine Go.joinPath_below hroot plainName_directoryNames ?_
  rw [join_directoryNames, ← String.toList_inj]
  simp [Go.join, List.intercalate]

theorem certificateFile_eq (hne : sanitizeHostname h ≠ "") (file : CertFile) :
    certificateFile (Go.absPath root) h file
      = Go.absPath (root ++ (directoryNames h ++ [file.name])) := by
  refine Go.joinPath_below hroot (fun name hname => ?_) ?_
  · rcases mem_append.mp hname with hname | hname
    · exact plainName_directoryNames name hname
    · exact mem_singleton.mp hname ▸ file.plainName_name
  · rw [Go.join_concat (mt directoryNames_eq_nil_iff.mp hne), join_directoryNames,
      ← String.toList_inj]
    simp [Go.join, List.intercalate]

theorem hostname_below (hne : sanitizeHostname h ≠ "") (rest : List String)
    (hrest : Go.PlainNames rest) :
    hostnameFromCertificatePathUnder (Go.absPath root)
      (Go.absPath (root ++ (directoryNames h ++ rest))) = sanitizeHostname h := by
  have hnames : Go.PlainNames (directoryNames h ++ rest) := fun name hname =>
    (mem_append.mp hname).elim (plainName_directoryNames name) (hrest name)
  have hall : Go.PlainNames (root ++ (directoryNames h ++ rest)) := fun name hname =>
    (mem_append.mp hname).elim (hroot name) (hnames name)
  have hnil : directoryNames h ++ rest ≠ [] := fun heq =>
    hne (directoryNames_eq_nil_iff.mp (append_eq_nil_iff.mp heq).1)
  have hrel := Go.pathRel_absPath hroot hnames hnil
  have hread := hostnameFromCertificatePath_join (isName_sanitizeHostname hne) fun name hname =>
    (hrest name hname).noSlash
  rw [directoryNames_sanitizeHostname hne] at hread
  generalize sanitizeHostname h = s at hread
  unfold hostnameFromCertificatePathUnder
  rw [Go.pathClean_absPath hroot, Go.pathClean_absPath hall, hrel]
  exact hread

theorem contains_certificateDirectory_iff (hdiffer : sanitizeHostname h ≠ sanitizeHostname h') :
    Go.Contains (certificateDirectory (Go.absPath root) h) (certificateDirectory (Go.absPath root) h')
      ↔ sanitizeHostname h = "" := by
  rw [certificateDirectory_eq hroot, certificateDirectory_eq hroot,
    Go.contains_absPath_iff (plainName_below hroot) (plainName_below hroot),
    prefix_append_right_inj, prefix_directoryNames_iff hdiffer]

theorem certificateDirectory_ne (hdiffer : sanitizeHostname h ≠ sanitizeHostname h') :
    certificateDirectory (Go.absPath root) h ≠ certificateDirectory (Go.absPath root) h' := by
  intro heq
  have hfirst := contains_certificateDirectory_iff hroot hdiffer
  have hsecond := contains_certificateDirectory_iff hroot hdiffer.symm
  rw [heq] at hfirst hsecond
  exact hdiffer ((hfirst.mp (Go.contains_refl _)).trans (hsecond.mp (Go.contains_refl _)).symm)

end Root

/-- Every directory lies below the root, the watcher reads the name back off
it and off its files, and different names have different directories.
Neither of these contains the other unless one of the names is empty: its
directory is the root. -/
theorem directories_correspond {certRoot : String} (hclean : Go.pathClean certRoot = certRoot)
    (habs : Go.hasPrefix certRoot "/" = true) :
    (∀ h, Go.Contains certRoot (certificateDirectory certRoot h))
      ∧ (∀ h, sanitizeHostname h ≠ "" →
        hostnameFromCertificatePathUnder certRoot (certificateDirectory certRoot h)
            = sanitizeHostname h
          ∧ ∀ file, hostnameFromCertificatePathUnder certRoot (certificateFile certRoot h file)
            = sanitizeHostname h)
      ∧ ∀ h h', sanitizeHostname h ≠ sanitizeHostname h' →
        certificateDirectory certRoot h ≠ certificateDirectory certRoot h'
          ∧ (¬ Go.Contains (certificateDirectory certRoot h) (certificateDirectory certRoot h')
              ∧ ¬ Go.Contains (certificateDirectory certRoot h') (certificateDirectory certRoot h)
            ↔ sanitizeHostname h ≠ "" ∧ sanitizeHostname h' ≠ "") := by
  obtain ⟨root, hroot, rfl⟩ := Go.exists_names_of_clean hclean habs
  refine ⟨fun h => ?_, fun h hne => ⟨?_, fun file => ?_⟩, fun h h' hdiffer =>
    ⟨certificateDirectory_ne hroot hdiffer, ?_⟩⟩
  · rw [certificateDirectory_eq hroot, Go.contains_absPath_iff hroot (plainName_below hroot)]
    exact prefix_append _ _
  · have hread := hostname_below hroot hne [] fun _ h => absurd h not_mem_nil
    rwa [append_nil, ← certificateDirectory_eq hroot] at hread
  · rw [certificateFile_eq hroot hne]
    refine hostname_below hroot hne _ fun name hname => ?_
    exact mem_singleton.mp hname ▸ file.plainName_name
  · rw [contains_certificateDirectory_iff hroot hdiffer,
      contains_certificateDirectory_iff hroot hdiffer.symm]

theorem directories_correspond_certs :
    hostnameFromCertificatePathUnder "/certs" (certificateFile "/certs" "*.A.example" .tlsKey)
      = sanitizeHostname "*.A.example" :=
  ((directories_correspond (show Go.pathClean "/certs" = "/certs" by decide +kernel)
    (by decide +kernel)).2.1 "*.A.example" (by decide +kernel)).2 .tlsKey

/-- The directory of a name that is refused is the root. -/
theorem refused_name_holds_others :
    sanitizeHostname "" ≠ sanitizeHostname "a.example"
      ∧ Go.Contains (certificateDirectory "/certs" "") (certificateDirectory "/certs" "a.example") := by
  unfold Go.Contains
  decide +kernel

end Ingress

end LunaEdge
