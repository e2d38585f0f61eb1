import LunaEdge.ChangeLog
import LunaEdge.GoPath

/-!
# The bundle store

The files of a bundle go to an object store twice: under the name of the
host, where the latest bundle lies, and under the name and the revision.
The writes come one after another and any of them may be the last.

Host names are brought to a normal form first, so two host names can share
their keys. For names that are in normal form and have no slash, a write
touches the files of a revision only if it is of that revision
(`put_of_other`).
-/

namespace LunaEdge

open List

namespace S3

/-- There is one bucket. -/
structure CertificateLocation where
  latestPrefix : String
  revisionPrefix : String
deriving Repr, DecidableEq

def normalizeHostname (hostname : String) : String :=
  Go.trimSuffix (Go.trim (Go.toLower (Go.trimSpace hostname)) "/") "."

def certificateLocation (hostname : String) (revision : Nat) :
    Except String CertificateLocation :=
  let normalized := normalizeHostname hostname
  if normalized = "" then .error "hostname is required"
  else
    .ok
      { latestPrefix := normalized
        revisionPrefix := Go.pathJoin normalized (toString revision) }

def objectKey (pre name : String) : String := if pre = "" then name else Go.pathJoin pre name

abbrev Objects := String → Option String

def writes (marshal : String → Nat → String) (location : CertificateLocation)
    (bundle : CertificateBundle) : List (String × String) :=
  let metadataJSON :=
    if bundle.metadataJSON = "" then marshal bundle.hostname bundle.revision
    else bundle.metadataJSON
  [("tls.crt", bundle.tlsCrt), ("tls.key", bundle.tlsKey), ("metadata.json", metadataJSON)].flatMap
    fun file =>
      [(objectKey location.latestPrefix file.1, file.2),
        (objectKey location.revisionPrefix file.1, file.2)]

/-- `PutCertificateBundle`, of which the first `n` writes succeed. -/
def putCertificateBundle (marshal : String → Nat → String) (objects : Objects)
    (bundle : CertificateBundle) (n : Nat) : Objects :=
  match certificateLocation bundle.hostname bundle.revision with
  | .error _ => objects
  | .ok location =>
    ((writes marshal location bundle).take n).foldl
      (fun objects write key => if key = write.1 then some write.2 else objects key) objects

/-- Where a bundle of this host and revision is kept. -/
def revisionKeys (hostname : String) (revision : Nat) : List String :=
  match certificateLocation hostname revision with
  | .error _ => []
  | .ok location =>
    ["tls.crt", "tls.key", "metadata.json"].map (objectKey location.revisionPrefix)

/-! ## Keys of names in normal form -/

structure NormalHost (hostname : String) : Prop where
  normal : normalizeHostname hostname = hostname
  ne_empty : hostname ≠ ""
  noSlash : '/' ∉ hostname.toList

variable {h h' : String} {r r' : Nat}

theorem NormalHost.plain (hh : NormalHost h) : Go.PlainName h := by
  refine ⟨hh.ne_empty, ?_, ?_, hh.noSlash⟩
  · rintro rfl
    exact absurd hh.normal (by decide +kernel)
  · rintro rfl
    exact absurd hh.normal (by decide +kernel)

-- keys are compared from here on and never computed
attribute [local irreducible] normalizeHostname

variable {name key : String}

theorem plain_file (hname : name ∈ ["tls.crt", "tls.key", "metadata.json"]) :
    Go.PlainName name := by
  simp only [mem_cons, not_mem_nil, or_false] at hname
  rcases hname with rfl | rfl | rfl <;> exact ⟨by decide, by decide, by decide, by decide⟩

theorem objectKey_plain {names : List String} (h : Go.PlainNames names) (hne : names ≠ [])
    (hname : Go.PlainName name) :
    objectKey (Go.join names '/') name = Go.join (names ++ [name]) '/' := by
  obtain ⟨c, cs, hcs, -⟩ := Go.join_plain_cases h hne
  have hempty : Go.join names '/' ≠ "" := by
    intro heq
    rw [heq] at hcs
    cases hcs
  rw [objectKey, if_neg hempty, Go.pathJoin_plain h hne hname]

theorem location_normal (hh : NormalHost h) (r : Nat) :
    certificateLocation h r = .ok ⟨Go.join [h] '/', Go.join [h, toString r] '/'⟩ := by
  have hsingle : Go.join [h] '/' = h := by simp [Go.join]
  have hjoin : Go.pathJoin (Go.join [h] '/') (toString r) = Go.join [h, toString r] '/' :=
    Go.pathJoin_plain (forall_mem_singleton.mpr hh.plain) (by simp) (Go.plainName_toString r)
  rw [hsingle] at hjoin
  rw [certificateLocation, hh.normal, if_neg hh.ne_empty, hjoin, hsingle]

theorem plain_pair (hh : NormalHost h) (hname : Go.PlainName name) : Go.PlainNames [h, name] :=
  forall_mem_cons.mpr ⟨hh.plain, forall_mem_singleton.mpr hname⟩

theorem plain_triple (hh : NormalHost h) (r : Nat) (hname : Go.PlainName name) :
    Go.PlainNames [h, toString r, name] :=
  forall_mem_cons.mpr ⟨hh.plain,
    forall_mem_cons.mpr ⟨Go.plainName_toString r, forall_mem_singleton.mpr hname⟩⟩

theorem mem_revisionKeys (hh : NormalHost h) (hkey : key ∈ revisionKeys h r) :
    ∃ name, Go.PlainName name ∧ key = Go.join [h, toString r, name] '/' := by
  unfold revisionKeys at hkey
  rw [location_normal hh] at hkey
  obtain ⟨name, hname, heq⟩ := mem_map.mp hkey
  have hjoin := objectKey_plain (plain_pair hh (Go.plainName_toString r)) (cons_ne_nil _ _)
    (plain_file hname)
  exact ⟨name, plain_file hname, heq.symm.trans hjoin⟩

theorem key_of_mem_writes (hh : NormalHost h) {marshal : String → Nat → String}
    {bundle : CertificateBundle} {write : String × String}
    (hwrite : write ∈ writes marshal ⟨Go.join [h] '/', Go.join [h, toString r] '/'⟩ bundle) :
    ∃ name, Go.PlainName name ∧
      (write.1 = Go.join [h, name] '/' ∨ write.1 = Go.join [h, toString r, name] '/') := by
  obtain ⟨file, hfile, hwrite⟩ := mem_flatMap.mp hwrite
  have hname : Go.PlainName file.1 := plain_file (mem_map_of_mem (f := Prod.fst) hfile)
  refine ⟨file.1, hname, ?_⟩
  rcases mem_pair.mp hwrite with rfl | rfl
  · exact Or.inl (objectKey_plain (forall_mem_singleton.mpr hh.plain) (cons_ne_nil _ _) hname)
  · exact Or.inr (objectKey_plain (plain_pair hh (Go.plainName_toString r)) (cons_ne_nil _ _) hname)

theorem names_of_key {names names' : List String} (h : Go.PlainNames names)
    (h' : Go.PlainNames names') (hne : names ≠ []) (hne' : names' ≠ [])
    (heq : Go.join names '/' = Go.join names' '/') : names = names' := by
  rw [← Go.split_join (fun n hn => (h n hn).noSlash) hne, heq,
    Go.split_join (fun n hn => (h' n hn).noSlash) hne']

theorem foldl_writes_of_not_mem {l : List (String × String)} (hl : ∀ write ∈ l, key ≠ write.1)
    (objects : Objects) :
    l.foldl (fun objects write key => if key = write.1 then some write.2 else objects key)
      objects key = objects key := by
  induction l generalizing objects with
  | nil => rfl
  | cons write l ih =>
    rw [foldl_cons, ih fun w hw => hl w (mem_cons_of_mem _ hw), if_neg (hl write mem_cons_self)]

theorem put_of_other {marshal : String → Nat → String} {objects : Objects}
    {bundle : CertificateBundle} (hbundle : NormalHost bundle.hostname) (hh : NormalHost h)
    (hother : ¬(bundle.hostname = h ∧ bundle.revision = r)) (n : Nat)
    (hkey : key ∈ revisionKeys h r) :
    putCertificateBundle marshal objects bundle n key = objects key := by
  obtain ⟨name, hname, heq⟩ := mem_revisionKeys hh hkey
  have hplain := plain_triple hh r hname
  unfold putCertificateBundle
  rw [location_normal hbundle]
  refine foldl_writes_of_not_mem (fun write hwrite hwritten => ?_) objects
  obtain ⟨name', hname', hlatest | hrevision⟩ := key_of_mem_writes hbundle (mem_of_mem_take hwrite)
  · have hnames := names_of_key hplain (plain_pair hbundle hname') (cons_ne_nil _ _)
      (cons_ne_nil _ _) (heq.symm.trans (hwritten.trans hlatest))
    exact absurd (congrArg List.length hnames) (by simp)
  · have hnames := names_of_key hplain (plain_triple hbundle bundle.revision hname')
      (cons_ne_nil _ _) (cons_ne_nil _ _) (heq.symm.trans (hwritten.trans hrevision))
    rw [List.cons.injEq, List.cons.injEq] at hnames
    exact hother ⟨hnames.1.symm, (Go.toString_inj hnames.2.1).symm⟩

end S3

end LunaEdge
