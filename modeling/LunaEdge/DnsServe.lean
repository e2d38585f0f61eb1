import LunaEdge.DnsOperations
import LunaEdge.GeoSort

/-!
# Answering DNS requests

`serveDNS` looks up one question after another, first in the bridge's
records, then in the store, then upstream, sorts what it finds by distance
and renders it. A failed lookup or a record that cannot be rendered ends
the request; otherwise the response code is decided at the end, from the
number of answers alone.

A question is `Silent` if it is looked up without an error and adds no
answer, and the code is `NXDOMAIN` exactly if every question is
(`rcode_serveDNS`). A name that exists without a record of the requested
type is as silent as a name that does not exist, so negative answers are
truthful only where nothing is asked about such a name (`truthful_iff`).

Sorting changes the order of a record's values only, so nothing is
answered that no enabled record of the question stands for
(`answers_owned`).
-/

namespace LunaEdge

namespace DNS

/-! ## The model -/

/-- Addresses with their texts. -/
structure NetText (IP : Type) extends Net IP where
  ipString : IP → String

variable {IP Coordinates δ : Type}

def RR.hdr : RR IP → Header
  | .a hdr _ | .aaaa hdr _ | .cname hdr _ | .txt hdr _ | .ns hdr _ | .mx hdr _ _
  | .srv hdr _ _ _ _ | .caa hdr _ _ _ => hdr

/-- The text `rrToRecord` makes of the data of a resource record. -/
def RR.valuesText (ipString : IP → String) : RR IP → String
  | .a _ ip => ipString ip
  | .aaaa _ ip => ipString ip
  | .cname _ target => normalizeFQDN target
  | .txt _ texts => Go.join texts ','
  | .ns _ target => normalizeFQDN target
  | .mx _ preference target => toString preference ++ " " ++ normalizeFQDN target
  | .srv _ priority weight port target =>
    toString priority ++ " " ++ toString weight ++ " " ++ toString port ++ " "
      ++ normalizeFQDN target
  | .caa _ flag tag value => toString flag ++ " " ++ tag ++ " " ++ value

def forwardedRecord (ipString : IP → String) (question : Question) (index : Nat) (rr : RR IP) :
    DNSRecord where
  id := "forward:" ++ question.fqdn ++ ":" ++ question.recordType ++ ":" ++ toString index
  fqdn := normalizeFQDN rr.hdr.name
  recordType := question.recordType
  ttlSeconds := rr.hdr.ttl
  enabled := true
  valuesJSON := rr.valuesText ipString

/-- A resource record of another type than those of `RR` is `none`. -/
def rrToRecord (ipString : IP → String) (question : Question) (index : Nat)
    (rr : Option (RR IP)) : Option DNSRecord :=
  rr.map (forwardedRecord ipString question index)

inductive LookupError where
  /-- `fqdn is required` -/
  | fqdnRequired
  /-- `record type is required` -/
  | recordTypeRequired
deriving Repr, DecidableEq

inductive Rcode where
  | success
  | serverFailure
  | nameError
deriving Repr, DecidableEq

structure Response (IP : Type) where
  rcode : Rcode
  answer : List (RR IP)
deriving DecidableEq

structure Resolver (IP Coordinates δ : Type) where
  net : NetText IP
  types : TypeNames
  /-- the records of the bridge's objects, as the loops of its `Lookup`
  meet them -/
  k8sBridge : Option (List (List DNSRecord)) := none
  store : MemoryStore
  /-- the answer section of the first upstream response, if there is one -/
  forward : Question → Option (List (Option (RR IP))) := fun _ => none
  geoDriver : Option (GeoIP IP Coordinates δ) := none
  /-- the address of the client -/
  clientIP : Option IP := none

namespace Resolver

variable (s : Resolver IP Coordinates δ)

/-- `K8sBridge.Lookup`, for a question in normal form. -/
def k8sLookup (question : Question) : List DNSRecord :=
  ((s.k8sBridge.getD []).flatMap id).filter fun record =>
    normalizeFQDN record.fqdn = question.fqdn
      ∧ normalizeRecordType s.types record.recordType = question.recordType
      ∧ record.enabled = true

/-- `Forwarder.Lookup`, for a question in normal form. -/
def forwardLookup (question : Question) : Option (List DNSRecord) :=
  (s.forward question).map fun answer =>
    answer.zipIdx.filterMap fun rr => rrToRecord s.net.ipString question rr.2 rr.1

def lookup (question : Question) : Except LookupError AnswerSet :=
  let question := normalizeQuestion s.types question
  if question.fqdn = "" then .error .fqdnRequired
  else if question.recordType = "" then .error .recordTypeRequired
  else if s.k8sLookup question ≠ [] then .ok ⟨question, true, s.k8sLookup question⟩
  else if (s.store.lookup s.types question).2 then .ok (s.store.lookup s.types question).1
  else
    match s.forwardLookup question with
    | some (record :: records) => .ok ⟨question, true, record :: records⟩
    | _ => .ok ⟨question, false, []⟩

/-- The loop over the records: the answers so far, and whether all
records were rendered. -/
def renderRecords (answer : List (RR IP)) : List DNSRecord → List (RR IP) × Bool
  | [] => (answer, true)
  | record :: records =>
    match toRR s.net.toLibrary s.types record with
    | .error _ => (answer, false)
    | .ok rrs => renderRecords (answer ++ rrs) records

section Serve

variable [LT δ] [DecidableLT δ]

def geoSorted (records : List DNSRecord) : List DNSRecord :=
  match s.geoDriver with
  | some geo => applyGeoSort s.net.toLibrary geo s.clientIP records
  | none => records

/-- What is done with the result of a lookup: the answers so far, and
whether the request goes on. -/
def serveResult (answer : List (RR IP)) :
    Except LookupError AnswerSet → List (RR IP) × Bool
  | .error _ => (answer, false)
  | .ok result =>
    if ¬ result.found then (answer, true)
    else s.renderRecords answer (s.geoSorted result.records)

/-- The loop over the questions, with the answers so far. -/
def serveQuestions (answer : List (RR IP)) : List Question → Response IP
  | [] => ⟨if answer = [] then .nameError else .success, answer⟩
  | q :: questions =>
    let served := s.serveResult answer (s.lookup q)
    if served.2 then serveQuestions served.1 questions else ⟨.serverFailure, served.1⟩

/-- A question has the name of the type, empty for a type that
`mdns.TypeToString` does not have. -/
def serveDNS (questions : List Question) : Response IP :=
  if questions = [] then ⟨.success, []⟩ else s.serveQuestions [] questions

end Serve

/-! ## Rendering -/

variable {s} {answer : List (RR IP)} {q : Question}

theorem renderRecords_eq_true_iff {records : List DNSRecord} {answer' : List (RR IP)} :
    s.renderRecords answer records = (answer', true)
      ↔ ∃ rrss, List.Forall₂ (fun record rrs => toRR s.net.toLibrary s.types record = .ok rrs)
          records rrss ∧ answer' = answer ++ rrss.flatten := by
  induction records generalizing answer with
  | nil => simp [renderRecords, eq_comm]
  | cons record records ih =>
    rw [renderRecords]
    cases hrr : toRR s.net.toLibrary s.types record with
    | error err =>
      constructor
      · intro h
        cases h
      · rintro ⟨_, hall, -⟩
        cases hall with
        | cons h _ => rw [hrr] at h; cases h
    | ok rrs =>
      dsimp only
      rw [ih]
      constructor
      · rintro ⟨rrss, hall, rfl⟩
        exact ⟨rrs :: rrss, .cons hrr hall, by simp⟩
      · rintro ⟨_, hall, rfl⟩
        cases hall with
        | cons h hall =>
          obtain rfl := Except.ok.inj (hrr.symm.trans h)
          exact ⟨_, hall, by simp⟩

theorem eq_nil_iff_of_toRR {lib : Library IP} {types : TypeNames} {record : DNSRecord}
    {rrs : List (RR IP)} (h : toRR lib types record = .ok rrs) :
    rrs = [] ↔ splitValues record.valuesJSON = [] := by
  rw [← List.length_eq_zero_iff, ← (forall₂_of_toRR h).length_eq, List.length_eq_zero_iff]

theorem toRR_of_splitValues_nil (lib : Library IP) (types : TypeNames) {record : DNSRecord}
    (h : splitValues record.valuesJSON = []) : toRR lib types record = .ok [] := by
  rw [toRR, h]
  rfl

theorem renderRecords_eq_nil_iff {records : List DNSRecord} :
    s.renderRecords answer records = ([], true)
      ↔ answer = [] ∧ ∀ record ∈ records, splitValues record.valuesJSON = [] := by
  rw [renderRecords_eq_true_iff]
  constructor
  · rintro ⟨rrss, hall, hnil⟩
    obtain ⟨rfl, hflat⟩ := List.append_eq_nil_iff.mp hnil.symm
    refine ⟨rfl, ?_⟩
    rw [List.flatten_eq_nil_iff] at hflat
    clear hnil
    induction hall with
    | nil => simp
    | cons h _ ih =>
      rw [List.forall_mem_cons] at hflat ⊢
      exact ⟨(eq_nil_iff_of_toRR h).mp hflat.1, ih hflat.2⟩
  · rintro ⟨rfl, hsilent⟩
    refine ⟨records.map fun _ => [], ?_, by simp⟩
    rw [List.forall₂_map_right_iff, List.forall₂_same]
    exact fun record hrecord => toRR_of_splitValues_nil _ _ (hsilent record hrecord)

/-! ## Local lookups -/

/-- The records a question finds without forwarding. -/
def candidates (s : Resolver IP Coordinates δ) (q : Question) : List DNSRecord :=
  if s.k8sLookup (normalizeQuestion s.types q) ≠ [] then
    s.k8sLookup (normalizeQuestion s.types q)
  else s.store.matching s.types q

def Valid (types : TypeNames) (q : Question) : Prop :=
  (normalizeQuestion types q).fqdn ≠ "" ∧ (normalizeQuestion types q).recordType ≠ ""

theorem lookup_of_not_valid (h : ¬ Valid s.types q) : ∃ err, s.lookup q = .error err := by
  unfold Valid at h
  unfold lookup
  generalize normalizeQuestion s.types q = question at h ⊢
  by_cases hfqdn : question.fqdn = ""
  · exact ⟨.fqdnRequired, by simp only [if_pos hfqdn]⟩
  · have htype : question.recordType = "" := not_not.mp fun htype => h ⟨hfqdn, htype⟩
    exact ⟨.recordTypeRequired, by simp only [if_neg hfqdn, if_pos htype]⟩

theorem store_lookup_found (store : MemoryStore) (types : TypeNames) (q : Question) :
    (store.lookup types q).1.found = true ↔ (store.lookup types q).1.records ≠ [] := by
  rw [MemoryStore.lookup]
  generalize store.byKey.get? _ = filed
  cases filed with
  | none => simp
  | some records => simp [List.length_pos_iff]

theorem store_lookup_missed {store : MemoryStore} {types : TypeNames}
    (h : ¬ (store.lookup types q).2 = true) : (store.lookup types q).1.records = [] := by
  rw [MemoryStore.lookup] at h ⊢
  generalize store.byKey.get? _ = filed at h ⊢
  cases filed with
  | none => rfl
  | some records => exact absurd rfl h

theorem lookup_of_valid (hstore : s.store.Indexed s.types) (hforward : ∀ q, s.forward q = none)
    (hvalid : Valid s.types q) :
    ∃ result, s.lookup q = .ok result ∧ result.records.Perm (s.candidates q)
      ∧ (result.found = true ↔ result.records ≠ []) := by
  have hperm := hstore.lookup_perm q
  rw [← MemoryStore.lookup_congr (normalizeQuestion_idem s.types q)] at hperm
  unfold Valid at hvalid
  unfold lookup candidates
  generalize normalizeQuestion s.types q = question at hperm hvalid ⊢
  simp only [if_neg hvalid.1, if_neg hvalid.2]
  by_cases hbridge : s.k8sLookup question ≠ []
  · simp only [if_pos hbridge]
    exact ⟨_, rfl, .refl _, by simpa using hbridge⟩
  · simp only [if_neg hbridge]
    by_cases hfiled : (s.store.lookup s.types question).2 = true
    · simp only [if_pos hfiled]
      exact ⟨_, rfl, hperm, store_lookup_found _ _ _⟩
    · rw [store_lookup_missed hfiled] at hperm
      simp only [if_neg hfiled, forwardLookup, hforward, Option.map_none]
      exact ⟨_, rfl, hperm, by simp⟩

variable [LT δ] [DecidableLT δ]

/-- A question that is looked up without an error and adds no answer. -/
def Silent (s : Resolver IP Coordinates δ) (q : Question) : Prop :=
  Valid s.types q ∧ ∀ record ∈ s.geoSorted (s.candidates q), splitValues record.valuesJSON = []

theorem geoSorted_eq_map (s : Resolver IP Coordinates δ) :
    ∃ f, ∀ records, s.geoSorted records = records.map f := by
  unfold geoSorted applyGeoSort
  cases s.geoDriver with
  | none => exact ⟨id, fun records => (List.map_id records).symm⟩
  | some geo =>
    cases hclient : s.clientIP.bind geo.lookup with
    | none => exact ⟨id, fun records => by simp [hclient]⟩
    | some client =>
      exact ⟨sortRecordValuesByDistance s.net.toLibrary geo client, fun records => by
        simp only [hclient]⟩

theorem geoSorted_perm {l l' : List DNSRecord} (h : l.Perm l') :
    (s.geoSorted l).Perm (s.geoSorted l') := by
  obtain ⟨f, hf⟩ := s.geoSorted_eq_map
  rw [hf, hf]
  exact h.map f

/-! ## The response code -/

/-- A question leaves the answer empty and the request going exactly if it
is silent. -/
theorem serveResult_eq_nil_iff (hstore : s.store.Indexed s.types)
    (hforward : ∀ q, s.forward q = none) :
    s.serveResult answer (s.lookup q) = ([], true) ↔ answer = [] ∧ s.Silent q := by
  by_cases hvalid : Valid s.types q
  · obtain ⟨result, hresult, hperm, hfound⟩ := lookup_of_valid hstore hforward hvalid
    have hsilent : s.Silent q
        ↔ ∀ record ∈ s.geoSorted result.records, splitValues record.valuesJSON = [] := by
      rw [Silent, and_iff_right hvalid]
      simp only [(geoSorted_perm hperm).mem_iff]
    rw [hsilent, hresult, serveResult]
    by_cases hmiss : result.records = []
    · have hnone : ¬ result.found = true := fun h => hfound.mp h hmiss
      obtain ⟨f, hf⟩ := s.geoSorted_eq_map
      rw [if_pos hnone, hf, hmiss]
      simp
    · rw [if_neg (not_not.mpr (hfound.mpr hmiss))]
      exact renderRecords_eq_nil_iff
  · obtain ⟨err, herr⟩ := lookup_of_not_valid hvalid
    rw [herr, serveResult]
    simp [Silent, hvalid]

/-- The run: the code is `NXDOMAIN` exactly if every question was silent. -/
theorem rcode_serveQuestions (hstore : s.store.Indexed s.types) (hforward : ∀ q, s.forward q = none)
    {questions : List Question} :
    (s.serveQuestions answer questions).rcode = .nameError
      ↔ answer = [] ∧ ∀ q ∈ questions, s.Silent q := by
  induction questions generalizing answer with
  | nil => by_cases hanswer : answer = [] <;> simp [serveQuestions, hanswer]
  | cons q questions ih =>
    have hstep : s.serveResult answer (s.lookup q) = ([], true) ↔ answer = [] ∧ s.Silent q :=
      serveResult_eq_nil_iff hstore hforward
    rw [serveQuestions, List.forall_mem_cons, ← and_assoc, ← hstep]
    generalize s.serveResult answer (s.lookup q) = served
    obtain ⟨answer', go⟩ := served
    cases go with
    | true => simp [ih]
    | false => simp

theorem rcode_serveDNS (hstore : s.store.Indexed s.types) (hforward : ∀ q, s.forward q = none)
    {questions : List Question} :
    (s.serveDNS questions).rcode = .nameError ↔ questions ≠ [] ∧ ∀ q ∈ questions, s.Silent q := by
  rw [serveDNS]
  by_cases hnil : questions = []
  · simp [hnil]
  · rw [if_neg hnil, rcode_serveQuestions hstore hforward]
    simp [hnil]

/-! ## Negative answers -/

def NameExists (s : Resolver IP Coordinates δ) (q : Question) : Prop :=
  ∃ record ∈ s.store.records, record.enabled = true
    ∧ normalizeFQDN record.fqdn = normalizeFQDN q.fqdn

/-- `NXDOMAIN` is only sent for names that do not exist, and a request that
finds no record for a name that does is answered with an empty success. -/
structure Truthful (s : Resolver IP Coordinates δ) (questions : List Question) : Prop where
  nameError : (s.serveDNS questions).rcode = .nameError → ∀ q ∈ questions, ¬ s.NameExists q
  noData : (∃ q ∈ questions, s.NameExists q) →
    (∀ q ∈ questions, Valid s.types q ∧ s.candidates q = []) →
      s.serveDNS questions = ⟨.success, []⟩

/-- Without forwarding, negative answers are truthful exactly if some
question fails or has a value to answer with, or none of the names
exists. -/
theorem truthful_iff (s : Resolver IP Coordinates δ) (hstore : s.store.Indexed s.types)
    (hforward : ∀ q, s.forward q = none) {questions : List Question} (hne : questions ≠ []) :
    s.Truthful questions ↔ (∃ q ∈ questions, ¬ s.Silent q) ∨ ∀ q ∈ questions, ¬ s.NameExists q := by
  have hrcode : (s.serveDNS questions).rcode = .nameError
      ↔ questions ≠ [] ∧ ∀ q ∈ questions, s.Silent q := rcode_serveDNS hstore hforward
  constructor
  · intro h
    by_cases hsilent : ∃ q ∈ questions, ¬ s.Silent q
    · exact Or.inl hsilent
    · push Not at hsilent
      exact Or.inr (h.nameError (hrcode.mpr ⟨hne, hsilent⟩))
  · intro h
    have hname : (s.serveDNS questions).rcode = .nameError → ∀ q ∈ questions, ¬ s.NameExists q := by
      intro herr
      rcases h with ⟨q, hq, hspeaks⟩ | h
      · exact absurd ((hrcode.mp herr).2 q hq) hspeaks
      · exact h
    refine ⟨hname, fun ⟨q, hq, hexists⟩ hmiss => ?_⟩
    -- questions that find nothing are silent, so this request gets `NXDOMAIN`
    have hsilent : ∀ q ∈ questions, s.Silent q := by
      intro q hq
      obtain ⟨f, hf⟩ := s.geoSorted_eq_map
      refine ⟨(hmiss q hq).1, ?_⟩
      rw [(hmiss q hq).2, hf]
      simp
    exact absurd hexists (hname (hrcode.mpr ⟨hne, hsilent⟩) q hq)

instance (q : Question) : Decidable (s.Silent q) := inferInstanceAs (Decidable ((_ ∧ _) ∧ _))

instance (q : Question) : Decidable (s.NameExists q) :=
  inferInstanceAs (Decidable (∃ record ∈ s.store.records, _ ∧ _))

end Resolver

def exampleResolver : Resolver String Nat Nat where
  net := { exampleNet with ipString := id }
  types := commonTypes
  store := .restore commonTypes [{ exampleAddresses with enabled := true }]

theorem truthful_iff_answered : exampleResolver.Truthful [⟨"WWW.example.test.", "A"⟩] :=
  (Resolver.truthful_iff exampleResolver (MemoryStore.indexed_restore _)
    (fun _ => rfl) (List.cons_ne_nil _ _)).mpr
    (Or.inl ⟨_, List.mem_singleton_self _, by decide +kernel⟩)

/-- A name with addresses, asked for another type. -/
theorem nxdomain_for_existing_name :
    exampleResolver.serveDNS [⟨"www.example.test.", "TXT"⟩] = ⟨.nameError, []⟩
      ∧ exampleResolver.NameExists ⟨"www.example.test.", "TXT"⟩
      ∧ ¬ exampleResolver.Truthful [⟨"www.example.test.", "TXT"⟩] := by
  have hserve : exampleResolver.serveDNS [⟨"www.example.test.", "TXT"⟩]
      = ⟨.nameError, []⟩ := by decide +kernel
  have hexists : exampleResolver.NameExists ⟨"www.example.test.", "TXT"⟩ := by
    decide +kernel
  refine ⟨hserve, hexists, fun h => ?_⟩
  have herr := congrArg Response.rcode hserve
  exact h.nameError herr _ (List.mem_singleton_self _) hexists

/-! ## Where answers come from -/

open List

section Owned

-- the normalisers are compared by their arguments only
attribute [local irreducible] normalizeFQDN normalizeRecordType

theorem hdr_of_toRR {lib : Library IP} {types : TypeNames} {record : DNSRecord} {rrs : List (RR IP)}
    (h : toRR lib types record = .ok rrs) {rr : RR IP} (hrr : rr ∈ rrs) :
    rr.hdr = header lib types record := by
  obtain ⟨value, -, hvalue⟩ := exists_mem_of_forall₂ (forall₂_of_mapM_eq_ok h) hrr
  cases rendered_of_valueRR hvalue <;> rfl

namespace Resolver

variable {s : Resolver IP Coordinates δ}

/-- A record that may be shown to one who asks `q`. -/
structure Owns (s : Resolver IP Coordinates δ) (q : Question) (record : DNSRecord) : Prop where
  stored : record ∈ s.store.records ∨ record ∈ (s.k8sBridge.getD []).flatMap id
  enabled : record.enabled = true
  fqdn : normalizeFQDN record.fqdn = normalizeFQDN q.fqdn
  recordType : normalizeRecordType s.types record.recordType
    = normalizeRecordType s.types q.recordType

theorem owns_of_candidate {q : Question} {record : DNSRecord} (h : record ∈ s.candidates q) :
    s.Owns q record := by
  unfold candidates at h
  split at h
  · obtain ⟨hmem, hfields⟩ := mem_filter.mp h
    obtain ⟨hfqdn, htype, henabled⟩ := of_decide_eq_true hfields
    exact ⟨Or.inr hmem, henabled, hfqdn, htype⟩
  · obtain ⟨hmem, hanswer⟩ := mem_filter.mp h
    obtain ⟨henabled, hfqdn, htype⟩ := Question.answeredBy_iff.mp hanswer
    refine ⟨Or.inl hmem, henabled, hfqdn, ?_⟩
    rw [htype]
    exact normalizeRecordType_idem s.types q.recordType

variable [LT δ] [DecidableLT δ] {answer : List (RR IP)}

/-- Sorting by distance changes the values only. -/
theorem sortRecordValuesByDistance_eq (lib : Library IP) (geo : GeoIP IP Coordinates δ)
    (client : Coordinates) (record : DNSRecord) :
    ∃ values, sortRecordValuesByDistance lib geo client record
      = { record with valuesJSON := values } := by
  rw [sortRecordValuesByDistance]
  by_cases htype : record.recordType ≠ "A" ∧ record.recordType ≠ "AAAA"
  · exact ⟨record.valuesJSON, if_pos htype⟩
  · rw [if_neg htype]
    by_cases hlength : (splitValues record.valuesJSON).length ≤ 1
    · exact ⟨record.valuesJSON, if_pos hlength⟩
    · exact ⟨_, if_neg hlength⟩

theorem header_of_geoSorted {records : List DNSRecord} {record' : DNSRecord}
    (h : record' ∈ s.geoSorted records) :
    ∃ record ∈ records, header s.net.toLibrary s.types record'
      = header s.net.toLibrary s.types record := by
  unfold geoSorted applyGeoSort at h
  split at h
  · rename_i geo _
    split at h
    · rename_i client _
      obtain ⟨record, hmem, rfl⟩ := mem_map.mp h
      obtain ⟨values, hvalues⟩ :=
        sortRecordValuesByDistance_eq s.net.toLibrary geo client record
      exact ⟨record, hmem, by rw [hvalues]; rfl⟩
    · exact ⟨record', h, rfl⟩
  · exact ⟨record', h, rfl⟩

omit [LT δ] [DecidableLT δ] in
theorem mem_renderRecords {records : List DNSRecord} {rr : RR IP}
    (h : rr ∈ (s.renderRecords answer records).1) :
    rr ∈ answer ∨ ∃ record ∈ records, rr.hdr = header s.net.toLibrary s.types record := by
  induction records generalizing answer with
  | nil => exact Or.inl h
  | cons record records ih =>
    unfold renderRecords at h
    split at h
    · exact Or.inl h
    · rename_i rrs hrrs
      rcases ih h with hmem | ⟨record', hmem, hhdr⟩
      · rcases mem_append.mp hmem with hmem | hmem
        · exact Or.inl hmem
        · exact Or.inr ⟨record, mem_cons_self, hdr_of_toRR hrrs hmem⟩
      · exact Or.inr ⟨record', mem_cons_of_mem _ hmem, hhdr⟩

section

variable (hstore : s.store.Indexed s.types) (hforward : ∀ q, s.forward q = none)

include hstore hforward

theorem mem_serveResult {q : Question} {rr : RR IP}
    (h : rr ∈ (s.serveResult answer (s.lookup q)).1) :
    rr ∈ answer ∨ ∃ record, s.Owns q record ∧ rr.hdr = header s.net.toLibrary s.types record := by
  by_cases hvalid : Valid s.types q
  · obtain ⟨result, hresult, hperm, -⟩ := lookup_of_valid hstore hforward hvalid
    rw [hresult] at h
    unfold serveResult at h
    dsimp only at h
    split at h
    · exact Or.inl h
    · refine (mem_renderRecords h).imp_right ?_
      rintro ⟨record', hmem, hhdr⟩
      obtain ⟨record, hrecord, heq⟩ := header_of_geoSorted hmem
      exact ⟨record, owns_of_candidate (hperm.mem_iff.mp hrecord), hhdr.trans heq⟩
  · obtain ⟨err, herr⟩ := lookup_of_not_valid hvalid
    rw [herr] at h
    exact Or.inl h

theorem mem_serveQuestions {questions : List Question} {rr : RR IP}
    (h : rr ∈ (s.serveQuestions answer questions).answer) :
    rr ∈ answer ∨ ∃ q ∈ questions, ∃ record, s.Owns q record
      ∧ rr.hdr = header s.net.toLibrary s.types record := by
  induction questions generalizing answer with
  | nil => exact Or.inl h
  | cons q questions ih =>
    have hserved : rr ∈ (s.serveResult answer (s.lookup q)).1 → rr ∈ answer
        ∨ ∃ q' ∈ q :: questions, ∃ record, s.Owns q' record
          ∧ rr.hdr = header s.net.toLibrary s.types record := fun hmem =>
      (mem_serveResult hstore hforward hmem).imp_right fun hown => ⟨q, mem_cons_self, hown⟩
    rw [serveQuestions] at h
    split at h
    · rcases ih h with hmem | ⟨q', hmem, hown⟩
      · exact hserved hmem
      · exact Or.inr ⟨q', mem_cons_of_mem _ hmem, hown⟩
    · exact hserved h

end

/-- Whatever operations have filled the store, a response that is not
forwarded only has resource records of the name and type of one of its
questions, each made of an enabled record. -/
theorem answers_owned (ops : List MemoryStore.Op) (hstore : s.store = .run s.types ops)
    (hforward : ∀ q, s.forward q = none) {questions : List Question} {rr : RR IP}
    (hrr : rr ∈ (s.serveDNS questions).answer) :
    ∃ q ∈ questions, rr.hdr.name = normalizeFQDN q.fqdn
      ∧ rr.hdr.rrtype = s.net.stringToType (normalizeRecordType s.types q.recordType)
      ∧ ∃ record, s.Owns q record ∧ rr.hdr.ttl = record.ttlSeconds := by
  have hindexed : s.store.Indexed s.types :=
    hstore ▸ (MemoryStore.wellFormed_run s.types ops).indexed
  unfold serveDNS at hrr
  split at hrr
  · cases hrr
  · rcases mem_serveQuestions hindexed hforward hrr with h | ⟨q, hq, record, hown, hhdr⟩
    · cases h
    · refine ⟨q, hq, ?_, ?_, record, hown, ?_⟩ <;> rw [hhdr, header]
      · exact hown.fqdn
      · rw [hown.recordType]

end Resolver

end Owned

theorem answers_owned_addresses :
    (exampleResolver.serveDNS [⟨"WWW.example.test.", "A"⟩]).answer ≠ []
      ∧ ∀ rr ∈ (exampleResolver.serveDNS [⟨"WWW.example.test.", "A"⟩]).answer,
        rr.hdr.name = normalizeFQDN "WWW.example.test." := by
  refine ⟨by decide +kernel, fun rr hrr => ?_⟩
  obtain ⟨q, hq, hname, -⟩ := Resolver.answers_owned (s := exampleResolver)
    [.restore [{ exampleAddresses with enabled := true }]] rfl (fun _ => rfl) hrr
  rwa [mem_singleton.mp hq] at hname

end DNS

end LunaEdge
