import LunaEdge.DnsBridge
import LunaEdge.DnsStore

/-!
# The two parsers of `DnsDomainRecord` objects

The master and the slave both read `DnsDomainRecord` objects, each with
its own copy of `parseDNSDomainRecordState`. The copies differ in the
types they accept and in how they join a label to the domain: the master
strips every dot at both ends of both texts, the slave one trailing dot.

`parseRecordWith` is the shared body; the two copies are its instances.
They agree on an object exactly if every item that the slave keeps has a
type of the master and one name in both (`agree_iff`), which `SameDots` says
by the dots of the label and the domain. Both cut off a last dot, and
`normalizeFQDN` cuts off another. So the names differ by the dots that the
master strips besides, and these make the slave's name the longer one.
-/

namespace LunaEdge

open List

/-- The types of the records the master accepts. -/
def servedTypes : List String := ["A", "AAAA", "CNAME", "TXT", "MX", "NS", "SRV", "CAA"]

/-- A table of record types with those the master accepts. -/
structure RecordTypes extends TypeNames where
  served : ∀ t ∈ servedTypes, known t = true

def someTypes : RecordTypes where
  known t := ("PTR" :: servedTypes).contains t
  alphabet := by
    intro t ht
    have hall : ("PTR" :: servedTypes).all
        (fun t => t.toList.all fun c => c.isAlphanum || c == '-') = true := by decide
    have ht := all_eq_true.mp hall t (contains_iff_mem.mp ht)
    simpa using ht
  served := by
    intro t ht
    exact contains_iff_mem.mpr (mem_cons_of_mem _ ht)

/-! ## The slave's copy -/

namespace DNS

def buildRecordFQDN (domain label : String) : String :=
  let domain := Go.trimSuffix (Go.trimSpace domain) "."
  let label := Go.trimSpace label
  if label = "" ∨ label = "@" then domain else Go.trimSuffix label "." ++ "." ++ domain

structure K8sDNSDomainRecordState where
  key : String
  records : List DNSRecord

end DNS

namespace DNSBridge

/-- The TTL of an item, converted to `uint32` where it is not negative. -/
def recordTTL : Option Int → Nat
  | some ttl => if 0 ≤ ttl then ttl.toNat % 4294967296 else 60
  | none => 60

/-- The body of the loop over `spec.records`, for both copies. -/
def parseRecordWith (normalizeType : String → String) (joinName : String → String → String)
    (routingClass : String) (marshal : List String → String) (domainID domain : String)
    (raw : Option RecordItem × Nat) : Option DNSRecord :=
  raw.1.bind fun item =>
    let recordType := normalizeType item.type
    let values := compactStrings item.values
    if recordType = "" ∨ values = [] then none
    else
      some
        { id := domainID ++ ":" ++ toString raw.2
          fqdn := joinName item.name domain
          recordType := recordType
          routingClass := routingClass
          ttlSeconds := recordTTL item.ttl
          valuesJSON := marshal values
          enabled := true }

theorem parseRecord_eq (marshal : List String → String) :
    parseRecord marshal = parseRecordWith normalizeRecordType joinDNSLabel "first" marshal := rfl

end DNSBridge

namespace DNS

open DNSBridge

def parseRecord (types : TypeNames) (marshal : List String → String) (domainID domain : String)
    (raw : Option RecordItem × Nat) : Option DNSRecord :=
  parseRecordWith (normalizeRecordType types) (fun label domain => buildRecordFQDN domain label)
    "simple" marshal domainID domain raw

theorem parseRecord_eq (types : TypeNames) (marshal : List String → String)
    (domainID domain : String) :
    parseRecord types marshal domainID domain
      = parseRecordWith (normalizeRecordType types) (fun label domain => buildRecordFQDN domain label)
          "simple" marshal domainID domain := rfl

def parseDNSDomainRecordState (types : TypeNames) (marshal : List String → String)
    (obj : DnsDomainRecord) : Option K8sDNSDomainRecordState :=
  let domain := Go.trimSpace obj.domain
  let domainID := "k8s:" ++ obj.ns ++ ":" ++ obj.name
  if obj.ns = "" ∨ obj.name = "" ∨ domain = "" then none
  else some
    { key := obj.ns ++ "/" ++ obj.name
      records := obj.records.zipIdx.filterMap (parseRecord types marshal domainID domain) }

end DNS

namespace DNSBridge

/-! ## Agreement -/

structure Compared where
  id : String
  recordType : String
  ttlSeconds : Nat
  valuesJSON : String
  fqdn : String
deriving DecidableEq

def compared (r : DNSRecord) : Compared :=
  ⟨r.id, r.recordType, r.ttlSeconds, r.valuesJSON, DNS.normalizeFQDN r.fqdn⟩

/-- Both copies return nothing, or the same key and the same records. -/
def ParsersAgree (types : TypeNames) (marshal : List String → String) (obj : DnsDomainRecord) :
    Prop :=
  (parseDNSDomainRecordState marshal obj).map (fun s => (s.key, s.records.map compared))
    = (DNS.parseDNSDomainRecordState types marshal obj).map
        fun s => (s.key, s.records.map compared)

instance (types : TypeNames) (marshal : List String → String) (obj : DnsDomainRecord) :
    Decidable (ParsersAgree types marshal obj) :=
  inferInstanceAs (Decidable (Option.map _ _ = Option.map _ _))

/-- An item both copies could keep: it has a value. -/
def HasValues (item : RecordItem) : Prop := compactStrings item.values ≠ []

/-- No dot at either end. -/
def Undotted (l : List Char) : Prop := l.head? ≠ some '.' ∧ l.getLast? ≠ some '.'

/-- One dot, at the end and not after a space. -/
def DotAfter (l : List Char) : Prop :=
  ∃ u c, l = u ++ [c, '.'] ∧ Undotted (u ++ [c]) ∧ Go.isSpace c = false

/-- A dot and nothing but space. -/
def LoneDot (l : List Char) : Prop := ∃ w, l = '.' :: w ∧ ∀ c ∈ w, Go.isSpace c = true

/-- The dots that are left in a label and a domain, both trimmed, when a last
dot has been cut off. -/
def SameDots (label domain : String) : Prop :=
  if label = "" ∨ label = "@" then
    Undotted (Go.trimSuffix domain ".").toList ∨ DotAfter (Go.trimSuffix domain ".").toList
      ∨ LoneDot (Go.trimSuffix domain ".").toList
  else
    Undotted (Go.trimSuffix label ".").toList
      ∧ (Undotted (Go.trimSuffix domain ".").toList ∨ DotAfter (Go.trimSuffix domain ".").toList)

/-! ## Dots -/

section Dots

variable {l p q w x y : List Char} {c : Char}

def undot (l : List Char) : List Char := if l.getLast? = some '.' then l.dropLast else l

theorem undot_append (l : List Char) (hx : x ≠ []) : undot (l ++ x) = l ++ undot x := by
  rw [undot, undot, List.getLast?_append_of_ne_nil _ hx, dropLast_append_of_ne_nil hx]
  split <;> rfl

theorem length_undot_le (l : List Char) : (undot l).length ≤ l.length := by
  rw [undot]
  split
  · exact (dropLast_sublist l).length_le
  · exact le_rfl

def stripDots (l : List Char) : List Char := (l.dropWhile (· == '.')).rdropWhile (· == '.')

theorem stripDots_sublist (l : List Char) : stripDots l <+ l :=
  ( rdropWhile_prefix _ _).sublist.trans (dropWhile_sublist _)

theorem stripDots_concat (l : List Char) : stripDots (l ++ ['.']) = stripDots l := by
  rw [stripDots, stripDots, dropWhile_append]
  split
  · rename_i hempty
    rw [List.isEmpty_iff.mp hempty]
    rfl
  · exact rdropWhile_concat_pos _ _ _ rfl

/-- The master's `Trim` strips what the slave's `TrimSuffix` has left. -/
theorem toList_trim_dot (s : String) :
    (Go.trim s ".").toList = stripDots (Go.trimSuffix s ".").toList := by
  have hdot : (".".toList.contains : Char → Bool) = (· == '.') := by
    funext c
    by_cases hc : c = '.' <;> simp [hc]
  rw [Go.trim, hdot, String.toList_ofList, Go.toList_trimSuffix (c := '.') rfl]
  split
  · rename_i hlast
    obtain ⟨u, hu⟩ := List.getLast?_eq_some_iff.mp hlast
    rw [hu, dropLast_concat]
    exact stripDots_concat u
  · rfl

theorem stripDots_eq_self_iff : stripDots l = l ↔ Undotted l := by
  constructor
  · intro h
    obtain ⟨hfirst, hlast⟩ := Go.ends_of_strip_eq h
    exact ⟨fun hc => absurd (hfirst '.' hc) (by decide), fun hc => absurd (hlast '.' hc) (by decide)⟩
  · rintro ⟨hfirst, hlast⟩
    refine Go.strip_eq_self (fun c hc => beq_false_of_ne ?_) fun c hc => beq_false_of_ne ?_
    · exact fun hdot => hfirst (hdot ▸ hc)
    · exact fun hdot => hlast (hdot ▸ hc)

/-- Where the dots stand that are stripped. -/
theorem dots_cases (hx : ∀ c ∈ x.head?, Go.isSpace c = false) :
    x = [] ∨ (∃ u, x = u ++ ['.']) ∨ ∃ u,
      (x = u ++ '.' :: stripDots x ∧ ∀ c ∈ stripDots x, Go.isSpace c = true)
        ∨ x = u ++ stripDots x ∧ ∃ c ∈ stripDots x, Go.isSpace c = false := by
  by_cases hdot : x.getLast? = some '.'
  · obtain ⟨u, hu⟩ := List.getLast?_eq_some_iff.mp hdot
    exact Or.inr (Or.inl ⟨u, hu⟩)
  · -- without a last dot only dots in front are stripped
    have hsplit := takeWhile_append_dropWhile (p := (· == '.')) (l := x)
    have hstrip : stripDots x = x.dropWhile (· == '.') := by
      refine rdropWhile_eq_self_iff.mpr fun hne hend => hdot ?_
      rw [← hsplit, List.getLast?_append_of_ne_nil _ hne, List.getLast?_eq_some_getLast hne,
        eq_of_beq hend]
    rw [← hstrip] at hsplit
    by_cases hblank : ∀ c ∈ stripDots x, Go.isSpace c = true
    · rcases eq_nil_or_concat (x.takeWhile (· == '.')) with hfront | ⟨u, c, hfront⟩
      · rw [hfront, nil_append] at hsplit
        cases x with
        | nil => exact Or.inl rfl
        | cons c cs =>
          have hspace := hblank c (hsplit.symm ▸ mem_cons_self)
          rw [hx c rfl] at hspace
          cases hspace
      · have hc : (c == '.') = true :=
          mem_takeWhile_imp (p := (· == '.')) (l := x) (by rw [hfront]; simp)
        rw [hfront, eq_of_beq hc, concat_eq_append, append_assoc, singleton_append] at hsplit
        exact Or.inr (Or.inr ⟨u, Or.inl ⟨hsplit.symm, hblank⟩⟩)
    · simp only [not_forall, Bool.not_eq_true] at hblank
      obtain ⟨c, hc, hspace⟩ := hblank
      exact Or.inr (Or.inr ⟨_, Or.inr ⟨hsplit.symm, c, hc, hspace⟩⟩)

/-- What `normalizeFQDN` leaves at the end of a name. -/
def nameEnd (l : List Char) : List Char := undot (l.rdropWhile Go.isSpace)

theorem nameEnd_append (l : List Char) (h : ∃ c ∈ x, Go.isSpace c = false) :
    nameEnd (l ++ x) = l ++ nameEnd x := by
  have hne : x.rdropWhile Go.isSpace ≠ [] := by
    intro hnil
    obtain ⟨c, hc, hspace⟩ := h
    rw [rdropWhile_eq_nil_iff.mp hnil c hc] at hspace
    cases hspace
  have hdrop : (l ++ x).rdropWhile Go.isSpace = l ++ x.rdropWhile Go.isSpace := by
    rw [rdropWhile, reverse_append, dropWhile_append, if_neg, reverse_append, reverse_reverse,
      rdropWhile]
    rwa [List.isEmpty_iff, ← reverse_eq_nil_iff]
  rw [nameEnd, hdrop, undot_append l hne, nameEnd]

theorem nameEnd_blank (hw : ∀ c ∈ w, Go.isSpace c = true) : nameEnd w = [] := by
  rw [nameEnd, rdropWhile_eq_nil_iff.mpr hw]
  rfl

theorem nameEnd_dot (l : List Char) (hw : ∀ c ∈ w, Go.isSpace c = true) :
    nameEnd (l ++ '.' :: w) = l := by
  rw [nameEnd_append l ⟨'.', mem_cons_self, by decide⟩, nameEnd]
  have hstrip : ('.' :: w).rdropWhile Go.isSpace = ['.'] := by
    rw [rdropWhile, reverse_cons, dropWhile_append_of_pos fun c hc => hw c (mem_reverse.mp hc)]
    rfl
  rw [hstrip]
  exact append_nil l

theorem length_nameEnd_le (l : List Char) : (nameEnd l).length ≤ l.length :=
  (length_undot_le _).trans ( rdropWhile_prefix _ _).length_le

theorem nameEnd_eq_self (h : ∀ c ∈ l.getLast?, c ≠ '.' ∧ Go.isSpace c = false) :
    nameEnd l = l := by
  have hspace : l.rdropWhile Go.isSpace = l := by
    refine rdropWhile_eq_self_iff.mpr fun hne => ?_
    rw [(h _ (List.getLast?_eq_some_getLast hne)).2]
    exact Bool.false_ne_true
  have hdot : ¬ l.getLast? = some '.' := fun hdot => (h '.' hdot).1 rfl
  rw [nameEnd, hspace, undot, if_neg hdot]

theorem last_of_nameEnd (h : l.length ≤ (nameEnd l).length) :
    ∀ c ∈ l.getLast?, c ≠ '.' ∧ Go.isSpace c = false := by
  intro c hc
  obtain ⟨u, rfl⟩ := List.getLast?_eq_some_iff.mp hc
  rw [length_append, length_singleton] at h
  constructor
  · rintro rfl
    rw [nameEnd_dot u (forall_mem_nil _)] at h
    omega
  · rw [← Bool.not_eq_true]
    intro hspace
    have hcut : nameEnd (u ++ [c]) = nameEnd u :=
      congrArg undot (rdropWhile_concat_pos _ _ _ hspace)
    have hle := length_nameEnd_le u
    rw [hcut] at h
    omega

/-- The texts in front of the domain, in the slave's name and in the master's. -/
def Fronts (p q : List Char) : Prop :=
  p = [] ∧ q = [] ∨ ∃ y z, p = y ++ ['.'] ∧ q = z ++ ['.'] ∧ z.length ≤ y.length

theorem Fronts.length_le (h : Fronts p q) : q.length ≤ p.length := by
  rcases h with ⟨rfl, rfl⟩ | ⟨y, z, rfl, rfl, hle⟩
  · exact le_rfl
  · simpa using hle

/-- The master's name is as long as the slave's only if nothing is stripped in
front, and at most one dot from the domain. -/
theorem dots_of_length (hx : ∀ c ∈ x.head?, Go.isSpace c = false) (hp : Fronts p q)
    (h : (nameEnd (p ++ x)).length ≤ (nameEnd (q ++ stripDots x)).length) :
    q.length = p.length ∧ (Undotted x ∨ DotAfter x ∨ p = [] ∧ LoneDot x) := by
  rcases dots_cases hx with rfl | ⟨u, rfl⟩ | ⟨u, ⟨hsplit, hblank⟩ | ⟨hsplit, hspace⟩⟩
  · refine ⟨?_, Or.inl ⟨nofun, nofun⟩⟩
    rcases hp with ⟨rfl, rfl⟩ | ⟨y, z, rfl, rfl, hle⟩
    · rfl
    · have hnil : stripDots [] = [] := rfl
      rw [hnil, append_nil, append_nil, nameEnd_dot _ (forall_mem_nil _),
        nameEnd_dot _ (forall_mem_nil _)] at h
      simp only [length_append, length_singleton]
      omega
  · have hle := hp.length_le
    have hsub := stripDots_sublist u
    have hsub_le := hsub.length_le
    have hlen := length_nameEnd_le (q ++ stripDots u)
    rw [stripDots_concat, ← append_assoc, nameEnd_dot _ (forall_mem_nil _)] at h
    rw [length_append] at h hlen
    have hstrip : stripDots u = u := hsub.eq_of_length (by omega)
    rw [hstrip] at h hlen
    refine ⟨by omega, Or.inr ?_⟩
    have hends := last_of_nameEnd (l := q ++ u) (by rw [length_append]; omega)
    rcases eq_nil_or_concat u with rfl | ⟨v, c, rfl⟩
    · rcases hp with ⟨rfl, rfl⟩ | ⟨y, z, rfl, rfl, -⟩
      · exact Or.inr ⟨rfl, [], rfl, forall_mem_nil _⟩
      · exact absurd rfl (hends '.' (by simp)).1
    · rw [concat_eq_append] at hstrip hends ⊢
      refine Or.inl ⟨v, c, by simp, stripDots_eq_self_iff.mp hstrip, (hends c ?_).2⟩
      rw [← append_assoc, getLast?_concat]
      rfl
  · rw [hsplit, ← append_assoc, nameEnd_dot _ hblank, ← hsplit, length_append] at h
    rcases hp with ⟨rfl, rfl⟩ | ⟨y, z, rfl, rfl, hle⟩
    · rw [nil_append, nameEnd_blank hblank] at h
      have hu : u = [] := length_eq_zero_iff.mp (by simpa using h)
      rw [hu, nil_append] at hsplit
      exact ⟨rfl, Or.inr (Or.inr ⟨rfl, _, hsplit, hblank⟩)⟩
    · rw [append_assoc, singleton_append, nameEnd_dot _ hblank, length_append] at h
      simp only [length_singleton] at h
      omega
  · rw [nameEnd_append _ hspace, hsplit, ← append_assoc, ← hsplit, nameEnd_append _ hspace] at h
    simp only [length_append] at h
    have hle := hp.length_le
    have hu : u = [] := length_eq_zero_iff.mp (by omega)
    rw [hu, nil_append] at hsplit
    exact ⟨by omega, Or.inl (stripDots_eq_self_iff.mp hsplit.symm)⟩

/-- One dot after the domain makes no difference. -/
theorem nameEnd_stripDots (h : Undotted x ∨ DotAfter x) (p : List Char) :
    nameEnd (p ++ stripDots x) = nameEnd (p ++ x) ∧ stripDots x <+: x := by
  rcases h with h | ⟨u, c, rfl, h, hspace⟩
  · rw [stripDots_eq_self_iff.mpr h]
    exact ⟨rfl, prefix_rfl⟩
  · rw [append_cons, stripDots_concat, stripDots_eq_self_iff.mpr h, ← append_assoc p (u ++ [c]),
      nameEnd_dot _ (forall_mem_nil _)]
    refine ⟨nameEnd_eq_self fun d hd => ?_, prefix_append _ _⟩
    rw [← append_assoc, getLast?_concat, Option.mem_some_iff] at hd
    exact hd ▸ ⟨fun hdot => h.2 (by simp [hdot]), hspace⟩

theorem dropWhile_of_head (hx : ∀ c ∈ x.head?, Go.isSpace c = false) :
    x.dropWhile Go.isSpace = x := by
  cases x with
  | nil => rfl
  | cons c cs => exact dropWhile_cons_of_neg (by simp [hx c rfl])

theorem dropWhile_append_dot (l x : List Char) :
    (l ++ '.' :: x).dropWhile Go.isSpace = l.dropWhile Go.isSpace ++ '.' :: x := by
  rw [dropWhile_append]
  split
  · rename_i hempty
    rw [List.isEmpty_iff.mp hempty]
    exact dropWhile_cons_of_neg (by decide)
  · rfl

theorem length_nameEnd_dropWhile_le (l : List Char) :
    (nameEnd (l.dropWhile Go.isSpace)).length ≤ (nameEnd l).length := by
  by_cases hblank : ∀ c ∈ l.dropWhile Go.isSpace, Go.isSpace c = true
  · rw [nameEnd_blank hblank]
    exact Nat.zero_le _
  · simp only [not_forall, Bool.not_eq_true] at hblank
    obtain ⟨c, hc, hspace⟩ := hblank
    have hfull := nameEnd_append (l.takeWhile Go.isSpace) ⟨c, hc, hspace⟩
    rw [takeWhile_append_dropWhile] at hfull
    rw [hfull, length_append]
    omega

theorem undot_map_lowerRune (l : List Char) :
    undot (l.map Go.lowerRune) = (undot l).map Go.lowerRune := by
  have hdot : l.getLast?.map Go.lowerRune = some '.' ↔ l.getLast? = some '.' := by
    constructor
    · intro h
      obtain ⟨c, hc, hlower⟩ := Option.map_eq_some_iff.mp h
      have hsame : Go.lowerRune c = c := Go.lowerRune_eq_of_le (by rw [hlower]; decide)
      rw [hc, ← hsame, hlower]
    · intro h
      rw [h]
      decide
  simp only [undot, getLast?_map, hdot, ← map_dropLast]
  split <;> rfl

/-- `normalizeFQDN` identifies names up to spaces around, a last dot and
case. -/
theorem normalizeFQDN_eq_iff (s t : String) :
    DNS.normalizeFQDN s = DNS.normalizeFQDN t
      ↔ (nameEnd (s.toList.dropWhile Go.isSpace)).map Go.lowerRune
        = (nameEnd (t.toList.dropWhile Go.isSpace)).map Go.lowerRune := by
  have hspace : Go.isSpace ∘ Go.lowerRune = Go.isSpace := funext Go.isSpace_lowerRune
  have hname : ∀ s, (Go.trimSuffix (Go.trimSpace (Go.toLower s)) ".").toList
      = (nameEnd (s.toList.dropWhile Go.isSpace)).map Go.lowerRune := by
    intro s
    rw [Go.toList_trimSuffix (c := '.') rfl, Go.trimSpace_toList, Go.toLower, String.toList_ofList,
      dropWhile_map, hspace, rdropWhile, ← map_reverse, dropWhile_map, hspace, ← map_reverse,
      ← undot, undot_map_lowerRune]
    rfl
  rw [← hname, ← hname, String.toList_inj, DNS.normalizeFQDN, DNS.normalizeFQDN]
  generalize Go.trimSuffix (Go.trimSpace (Go.toLower s)) "." = name
  generalize Go.trimSuffix (Go.trimSpace (Go.toLower t)) "." = name'
  have hdot : ∀ name : String, name ++ "." ≠ "" := fun name h => by
    have hlist := congrArg String.toList h
    simp at hlist
  refine ⟨fun h => ?_, fun h => h ▸ rfl⟩
  split_ifs at h with hs ht ht
  · rw [hs, ht]
  · exact absurd h.symm (hdot _)
  · exact absurd h (hdot _)
  · have hlist := congrArg String.toList h
    rw [String.toList_append, String.toList_append] at hlist
    exact String.toList_inj.mp (append_cancel_right hlist)

end Dots

theorem head_trimSuffix_trimSpace (s : String) :
    ∀ c ∈ (Go.trimSuffix (Go.trimSpace s) ".").toList.head?, Go.isSpace c = false := by
  intro c hc
  obtain ⟨rest, hrest⟩ := Go.trimSuffix_prefix (Go.trimSpace s) "."
  obtain ⟨cs, hcs⟩ := List.head?_eq_some_iff.mp hc
  rw [hcs, cons_append] at hrest
  exact Go.head_trimSpace hrest.symm

/-- The two joins agree up to `normalizeFQDN` exactly for these dots. -/
theorem normalizeFQDN_joinDNSLabel_eq_iff (label domain : String) :
    DNS.normalizeFQDN (joinDNSLabel label domain)
        = DNS.normalizeFQDN (DNS.buildRecordFQDN domain label)
      ↔ SameDots (Go.trimSpace label) (Go.trimSpace domain) := by
  have hx := head_trimSuffix_trimSpace domain
  have hy := head_trimSuffix_trimSpace label
  rw [normalizeFQDN_eq_iff, joinDNSLabel, DNS.buildRecordFQDN, SameDots]
  split_ifs
  · rw [toList_trim_dot]
    generalize (Go.trimSuffix (Go.trimSpace domain) ".").toList = x at hx ⊢
    rw [dropWhile_of_head hx]
    constructor
    · intro h
      have hlen := congrArg length h
      rw [length_map, length_map] at hlen
      obtain ⟨-, hdots⟩ := dots_of_length hx (Or.inl ⟨rfl, rfl⟩)
        (hlen.symm.le.trans (length_nameEnd_dropWhile_le _))
      exact hdots.imp_right (Or.imp_right And.right)
    · intro h
      rcases or_assoc.mpr h with h | ⟨w, rfl, hw⟩
      · obtain ⟨hsame, rest, hrest⟩ := nameEnd_stripDots h []
        have hhead : ∀ c ∈ (stripDots x).head?, Go.isSpace c = false := fun c hc =>
          hx c (by rw [← hrest, head?_append, hc]; rfl)
        rw [dropWhile_of_head hhead]
        exact congrArg _ hsame
      · have hdot : stripDots ('.' :: w) = stripDots w := rfl
        have hblank : ∀ c ∈ (stripDots w).dropWhile Go.isSpace, Go.isSpace c = true := fun c hc =>
          hw c ((stripDots_sublist w).subset ((dropWhile_sublist _).subset hc))
        rw [hdot, nameEnd_blank hblank]
        exact congrArg _ (nameEnd_dot [] hw).symm
  · simp only [String.toList_append, toList_trim_dot]
    generalize (Go.trimSuffix (Go.trimSpace domain) ".").toList = x at hx ⊢
    generalize (Go.trimSuffix (Go.trimSpace label) ".").toList = y at hy ⊢
    have hdot : ∀ l r : List Char, l ++ ".".toList ++ r = l ++ '.' :: r := by simp
    rw [hdot, hdot, dropWhile_append_dot, dropWhile_append_dot, dropWhile_of_head hy, append_cons,
      append_cons y]
    constructor
    · intro h
      have hlen := congrArg length h
      rw [length_map, length_map] at hlen
      have hle := (dropWhile_sublist Go.isSpace (l := stripDots y)).length_le
      have hsub := stripDots_sublist y
      have hsub_le := hsub.length_le
      obtain ⟨hq, hdots⟩ := dots_of_length hx
        (Or.inr ⟨y, _, rfl, rfl, hle.trans hsub_le⟩) hlen.symm.le
      simp only [length_append, length_singleton] at hq
      refine ⟨stripDots_eq_self_iff.mp (hsub.eq_of_length (by omega)), ?_⟩
      exact hdots.imp_right fun hdots => hdots.resolve_right fun hnil => by simp at hnil
    · rintro ⟨hlabel, h⟩
      rw [stripDots_eq_self_iff.mpr hlabel, dropWhile_of_head hy, (nameEnd_stripDots h _).1]

/-- The master accepts the slave's type if it is one of its own. -/
theorem normalizeRecordType_eq (types : RecordTypes) (t : String) :
    normalizeRecordType t
      = if DNS.normalizeRecordType types.toTypeNames t ∈ servedTypes then
          DNS.normalizeRecordType types.toTypeNames t
        else "" := by
  have hempty : "" ∉ servedTypes := by decide
  unfold normalizeRecordType DNS.normalizeRecordType
  generalize Go.toUpper (Go.trimSpace t) = u
  by_cases hserved : u ∈ servedTypes
  · have hu : u ≠ "" := by
      rintro rfl
      exact hempty hserved
    have hcontains : servedTypes.contains u = true := contains_iff_mem.mpr hserved
    rw [if_neg hu, if_pos (types.served u hserved), if_pos hserved]
    exact if_pos hcontains
  · have hcontains : ¬ servedTypes.contains u = true := fun h =>
      hserved (contains_iff_mem.mp h)
    refine (if_neg hcontains).trans (if_neg fun h => ?_).symm
    dsimp only at h
    split at h
    · exact hempty h
    · split at h
      · exact hserved h
      · exact hempty h

section Compared

variable (normalizeType : String → String) (joinName : String → String → String)
  (routingClass : String) (marshal : List String → String) (domainID domain : String)
  (item : RecordItem) (idx : Nat)

def comparedRecord : Compared where
  id := domainID ++ ":" ++ toString idx
  recordType := normalizeType item.type
  ttlSeconds := recordTTL item.ttl
  valuesJSON := marshal (compactStrings item.values)
  fqdn := DNS.normalizeFQDN (joinName item.name domain)

theorem parseRecordWith_none :
    parseRecordWith normalizeType joinName routingClass marshal domainID domain (none, idx)
      = none := rfl

theorem map_compared_parseRecordWith :
    (parseRecordWith normalizeType joinName routingClass marshal domainID domain
        (some item, idx)).map compared
      = if normalizeType item.type = "" ∨ compactStrings item.values = [] then none
        else some (comparedRecord normalizeType joinName marshal domainID domain item idx) := by
  unfold parseRecordWith
  rw [Option.bind_some]
  dsimp only
  split
  · rfl
  · rfl

variable {normalizeType joinName routingClass marshal domainID domain}

theorem key_of_map_compared {raw : Option RecordItem × Nat} {b : Compared}
    (h : (parseRecordWith normalizeType joinName routingClass marshal domainID domain raw).map
      compared = some b) : b.id = domainID ++ ":" ++ toString raw.2 := by
  obtain ⟨_ | item, idx⟩ := raw
  · cases h
  · rw [map_compared_parseRecordWith] at h
    split at h
    · cases h
    · rw [← Option.some.inj h]
      rfl

end Compared

theorem filterMap_zipIdx_eq_iff {α β κ : Type} (l : List α) {f g : α × Nat → Option β}
    (key : β → κ) (name : Nat → κ) (hname : ∀ i j, name i = name j → i = j)
    (hf : ∀ raw b, f raw = some b → key b = name raw.2)
    (hg : ∀ raw b, g raw = some b → key b = name raw.2) :
    l.zipIdx.filterMap f = l.zipIdx.filterMap g ↔ ∀ raw ∈ l.zipIdx, f raw = g raw := by
  have hone : ∀ f g : α × Nat → Option β, (∀ raw b, f raw = some b → key b = name raw.2) →
      (∀ raw b, g raw = some b → key b = name raw.2) →
      l.zipIdx.filterMap f = l.zipIdx.filterMap g →
      ∀ raw ∈ l.zipIdx, ∀ b, f raw = some b → g raw = some b := by
    intro f g hf hg h raw hraw b hb
    have hmem : b ∈ l.zipIdx.filterMap f := mem_filterMap.mpr ⟨raw, hraw, hb⟩
    rw [h] at hmem
    obtain ⟨raw', hraw', hb'⟩ := mem_filterMap.mp hmem
    have hidx : raw'.2 = raw.2 := hname _ _ ((hg raw' b hb').symm.trans (hf raw b hb))
    have hval : raw' = raw := by
      obtain ⟨a, i⟩ := raw
      obtain ⟨a', i'⟩ := raw'
      obtain rfl : i' = i := hidx
      rw [mem_zipIdx_iff_getElem?] at hraw hraw'
      exact congrArg (·, i') (Option.some.inj (hraw'.symm.trans hraw))
    rw [← hval, hb']
  constructor
  · intro h raw hraw
    apply Option.ext
    intro b
    exact ⟨hone f g hf hg h raw hraw b, hone g f hg hf h.symm raw hraw b⟩
  · exact fun h => filterMap_congr h

theorem map_compared_eq_iff (types : RecordTypes) (marshal : List String → String)
    (domainID domain : String) (item : RecordItem) (idx : Nat) :
    (parseRecord marshal domainID domain (some item, idx)).map compared
        = (DNS.parseRecord types.toTypeNames marshal domainID domain (some item, idx)).map compared
      ↔ (HasValues item → DNS.normalizeRecordType types.toTypeNames item.type ≠ "" →
          DNS.normalizeRecordType types.toTypeNames item.type ∈ servedTypes
            ∧ SameDots (Go.trimSpace item.name) (Go.trimSpace domain)) := by
  rw [parseRecord_eq, DNS.parseRecord, map_compared_parseRecordWith, map_compared_parseRecordWith]
  rw [← normalizeFQDN_joinDNSLabel_eq_iff]
  unfold HasValues comparedRecord
  have hempty : "" ∉ servedTypes := by decide
  have hmaster := normalizeRecordType_eq types item.type
  generalize normalizeRecordType item.type = master at hmaster ⊢
  generalize DNS.normalizeRecordType types.toTypeNames item.type = slave at hmaster ⊢
  by_cases hvalues : compactStrings item.values = []
  · simp [hvalues]
  by_cases hserved : slave ∈ servedTypes
  · have hslave : slave ≠ "" := fun h => hempty (h ▸ hserved)
    rw [if_pos hserved] at hmaster
    subst hmaster
    simp [hvalues, hserved, hslave]
  · rw [if_neg hserved] at hmaster
    subst hmaster
    by_cases hslave : slave = ""
    · simp [hslave]
    · simp [hvalues, hserved, hslave]

/-- The copies agree exactly if both return nothing, or every item the slave
keeps has a type of the master and dots that both strip. -/
theorem agree_iff (types : RecordTypes) (marshal : List String → String) (obj : DnsDomainRecord) :
    ParsersAgree types.toTypeNames marshal obj
      ↔ (obj.ns = "" ∨ obj.name = "" ∨ Go.trimSpace obj.domain = "")
        ∨ ∀ item, some item ∈ obj.records → HasValues item →
            DNS.normalizeRecordType types.toTypeNames item.type ≠ "" →
            DNS.normalizeRecordType types.toTypeNames item.type ∈ servedTypes
              ∧ SameDots (Go.trimSpace item.name) (Go.trimSpace obj.domain) := by
  rw [ParsersAgree, parseDNSDomainRecordState, DNS.parseDNSDomainRecordState]
  by_cases hnot : obj.ns = "" ∨ obj.name = "" ∨ Go.trimSpace obj.domain = ""
  · simp [hnot]
  rw [or_iff_right hnot]
  simp only [if_neg hnot, Option.map_some, Option.some.injEq, Prod.mk.injEq, true_and,
    map_filterMap]
  rw [filterMap_zipIdx_eq_iff obj.records Compared.id
    fun i => "k8s:" ++ obj.ns ++ ":" ++ obj.name ++ ":" ++ toString i]
  · constructor
    · intro h item hitem
      obtain ⟨idx, hidx⟩ := mem_iff_getElem?.mp hitem
      have hone := (map_compared_eq_iff types marshal _ _ item idx).mp
        (h (some item, idx) (mem_zipIdx_iff_getElem?.mpr hidx))
      rwa [Go.trimSpace_idem] at hone
    · rintro h ⟨_ | item, idx⟩ hraw
      · rw [parseRecord_eq, DNS.parseRecord, parseRecordWith_none, parseRecordWith_none]
      · have hitem := mem_of_getElem? (mem_zipIdx_iff_getElem?.mp hraw)
        refine (map_compared_eq_iff types marshal _ _ item idx).mpr ?_
        rw [Go.trimSpace_idem]
        exact h item hitem
  · intro i j hij
    have hlist := congrArg String.toList hij
    simp only [String.toList_append, append_cancel_left_eq] at hlist
    exact Go.toString_inj (String.toList_inj.mp hlist)
  · exact fun raw b h => key_of_map_compared h
  · exact fun raw b h => key_of_map_compared h

/-- A type of the slave alone, a label with a leading dot, a domain with
three trailing dots. -/
theorem parsers_disagree :
    ¬ ParsersAgree someTypes.toTypeNames exampleMarshal
        { exampleZone with records := [some { type := "PTR", values := ["host.test"] }] }
      ∧ ¬ ParsersAgree someTypes.toTypeNames exampleMarshal
        { exampleZone with
          records := [some { type := "A", values := ["192.0.2.1"], name := ".www" }] }
      ∧ ¬ ParsersAgree someTypes.toTypeNames exampleMarshal
        { exampleZone with domain := "example.test..." } := by
  decide +kernel

end DNSBridge

end LunaEdge
