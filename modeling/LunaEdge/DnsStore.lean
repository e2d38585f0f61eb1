import LunaEdge.GoMap
import LunaEdge.GoText
import LunaEdge.Metadata

/-!
# The DNS store

The in-memory store of a slave's DNS engine. `byDomain` holds the records
by normalised name and id, `byKey` the answers by question. The answers
are an index of the records: every operation changes a record and then
rebuilds the answers to that record's question, and `Indexed` says that
this is enough, for every question at once.

The table of record types of the DNS library is a parameter,
`TypeNames`. Of its entries only the alphabet matters: an answer is
filed under the text `fqdn|type`, and no type contains the bar.
-/

namespace LunaEdge

/-- The keys of `mdns.StringToType`. -/
structure TypeNames where
  known : String → Bool
  alphabet : ∀ t, known t = true → ∀ c ∈ t.toList, c.isAlphanum = true ∨ c = '-'

def commonTypes : TypeNames where
  known t := ["A", "AAAA", "CNAME", "TXT", "MX", "NS"].contains t
  alphabet := by
    intro t ht
    simp only [List.contains_eq_mem, List.mem_cons, List.not_mem_nil, or_false,
      decide_eq_true_eq] at ht
    have hall : t.toList.all (fun c => c.isAlphanum || c == '-') = true := by
      rcases ht with rfl | rfl | rfl | rfl | rfl | rfl <;> rfl
    simpa using hall

namespace DNS

/-! ## Normal forms -/

def normalizeFQDN (value : String) : String :=
  let value := Go.trimSuffix (Go.trimSpace (Go.toLower value)) "."
  if value = "" then "" else value ++ "."

def normalizeRecordType (types : TypeNames) (value : String) : String :=
  let value := Go.toUpper (Go.trimSpace value)
  if value = "" then "" else if types.known value then value else ""

structure Question where
  fqdn : String
  recordType : String
deriving Repr, DecidableEq

def normalizeQuestion (types : TypeNames) (question : Question) : Question where
  fqdn := normalizeFQDN question.fqdn
  recordType := normalizeRecordType types question.recordType

def dnsCacheKey (types : TypeNames) (question : Question) : String :=
  let question := normalizeQuestion types question
  question.fqdn ++ "|" ++ question.recordType

theorem normalizeFQDN_idem (value : String) :
    normalizeFQDN (normalizeFQDN value) = normalizeFQDN value := by
  let w := Go.trimSpace (Go.toLower value)
  let u := Go.trimSuffix w "."
  have hn : normalizeFQDN value = if u = "" then "" else u ++ "." := rfl
  by_cases hu : u = ""
  · rw [hn, if_pos hu]
    rfl
  · rw [hn, if_neg hu]
    have hpre : u.toList <+: w.toList := Go.trimSuffix_prefix w "."
    -- every rune of the normal form is its own lower case, and none is a leading space
    have hlower : Go.toLower (u ++ ".") = u ++ "." := by
      refine Go.toLower_eq_self fun c hc => ?_
      rw [String.toList_append, List.mem_append] at hc
      rcases hc with hc | hc
      · exact Go.lowerRune_of_mem_toLower ((Go.trimSpace_sublist _).subset (hpre.subset hc))
      · obtain rfl : c = '.' := by simpa using hc
        decide
    have htrim : Go.trimSpace (u ++ ".") = u ++ "." := by
      obtain ⟨rest, hrest⟩ := hpre
      refine Go.trimSpace_eq_self (fun c hc => ?_) fun c hc => ?_
      · cases hul : u.toList with
        | nil => exact absurd (String.toList_eq_nil_iff.mp hul) hu
        | cons d ds =>
          obtain rfl : d = c := by simpa [hul] using hc
          rw [hul, List.cons_append] at hrest
          exact Go.head_trimSpace hrest.symm
      · obtain rfl : '.' = c := by simpa using hc
        decide
    rw [normalizeFQDN, hlower, htrim, Go.trimSuffix_append, if_neg hu]

theorem isSpace_of_alphabet {c : Char} (h : c.isAlphanum = true ∨ c = '-') :
    Go.isSpace c = false := by
  refine Go.isSpace_eq_false ?_
  rcases h with h | rfl
  · delta Char.isAlphanum Char.isAlpha Char.isUpper Char.isLower Char.isDigit at h
    simp only [Bool.or_eq_true, Bool.and_eq_true, decide_eq_true_eq, UInt32.le_iff_toNat_le,
      ge_iff_le] at h
    have hcode : c.toNat = c.val.toNat := rfl
    rcases h with ((⟨hlo, hhi⟩ | ⟨hlo, hhi⟩) | ⟨hlo, hhi⟩) <;>
      · simp only [UInt32.reduceToNat, Char.reduceVal] at hlo hhi
        omega
  · decide

theorem normalizeRecordType_idem (types : TypeNames) (value : String) :
    normalizeRecordType types (normalizeRecordType types value)
      = normalizeRecordType types value := by
  let w := Go.toUpper (Go.trimSpace value)
  by_cases hw : w ≠ "" ∧ types.known w = true
  · have hn : normalizeRecordType types value = w := by
      rw [normalizeRecordType, if_neg hw.1, if_pos hw.2]
    have htrim : Go.trimSpace w = w :=
      Go.trimSpace_of_no_space fun c hc => isSpace_of_alphabet (types.alphabet w hw.2 c hc)
    rw [hn, normalizeRecordType, htrim, Go.toUpper_idem, if_neg hw.1, if_pos hw.2]
  · have hn : normalizeRecordType types value = "" := by
      rw [normalizeRecordType]
      split
      · rfl
      · rw [if_neg fun hk => hw ⟨by assumption, hk⟩]
    rw [hn]
    rfl

theorem normalizeQuestion_idem (types : TypeNames) (question : Question) :
    normalizeQuestion types (normalizeQuestion types question)
      = normalizeQuestion types question := by
  simp only [normalizeQuestion, normalizeFQDN_idem, normalizeRecordType_idem]

theorem bar_not_mem_recordType (types : TypeNames) (value : String) :
    '|' ∉ (normalizeRecordType types value).toList := by
  rw [normalizeRecordType]
  intro hbar
  split at hbar
  · simp at hbar
  · split at hbar
    · rename_i hknown
      rcases types.alphabet _ hknown _ hbar with h | h
      · exact absurd h (by decide)
      · exact absurd h (by decide)
    · simp at hbar

theorem append_cons_inj {α : Type} {x : α} {a a' b b' : List α} (hb : x ∉ b) (hb' : x ∉ b')
    (h : a ++ x :: b = a' ++ x :: b') : a = a' ∧ b = b' := by
  rcases List.append_eq_append_iff.mp h with ⟨c, rfl, hc⟩ | ⟨c, rfl, hc⟩
  · cases c with
    | nil => exact ⟨(List.append_nil a).symm, (List.cons.inj hc).2⟩
    | cons y ys => exact absurd ((List.cons.inj hc).2 ▸ by simp) hb
  · cases c with
    | nil => exact ⟨List.append_nil a', ((List.cons.inj hc).2).symm⟩
    | cons y ys => exact absurd ((List.cons.inj hc).2 ▸ by simp) hb'

/-- Two questions are filed under one key only if they have one normal form. -/
theorem dnsCacheKey_inj (types : TypeNames) {q q' : Question} :
    dnsCacheKey types q = dnsCacheKey types q'
      ↔ normalizeQuestion types q = normalizeQuestion types q' := by
  have hbar : "|".toList = ['|'] := rfl
  constructor
  · intro h
    have hl := congrArg String.toList h
    simp only [dnsCacheKey, normalizeQuestion, String.toList_append, hbar,
      List.append_assoc, List.singleton_append] at hl
    obtain ⟨hf, ht⟩ := append_cons_inj (bar_not_mem_recordType types q.recordType)
      (bar_not_mem_recordType types q'.recordType) hl
    rw [normalizeQuestion, normalizeQuestion, Question.mk.injEq]
    exact ⟨String.toList_inj.mp hf, String.toList_inj.mp ht⟩
  · intro h
    rw [dnsCacheKey, dnsCacheKey, h]

/-! ## The store -/

/-- The test of the loop in `rebuildQuestionLocked`, for a question in
normal form. The type of the record is compared as it is spelled. -/
def Question.answeredBy (question : Question) (record : DNSRecord) : Bool :=
  record.enabled && decide (normalizeFQDN record.fqdn = question.fqdn)
    && decide (record.recordType = question.recordType)

theorem Question.answeredBy_iff {question : Question} {record : DNSRecord} :
    question.answeredBy record = true
      ↔ record.enabled = true ∧ normalizeFQDN record.fqdn = question.fqdn
        ∧ record.recordType = question.recordType := by
  simp only [answeredBy, Bool.and_eq_true, decide_eq_true_eq, and_assoc]

def stored (record : DNSRecord) : DNSRecord := { record with fqdn := normalizeFQDN record.fqdn }

structure AnswerSet where
  question : Question
  found : Bool
  records : List DNSRecord
deriving Repr, DecidableEq

structure MemoryStore where
  byKey : GoMap String (List DNSRecord)
  byDomain : GoMap String (GoMap String DNSRecord)

namespace MemoryStore

def new : MemoryStore := ⟨.empty, .empty⟩

/-- The records of one name; an absent map reads as an empty one. -/
def domain (s : MemoryStore) (fqdn : String) : GoMap String DNSRecord :=
  (s.byDomain.get? fqdn).getD .empty

def setDomain (s : MemoryStore) (fqdn : String) (records : GoMap String DNSRecord) :
    MemoryStore :=
  { s with byDomain := s.byDomain.set fqdn records }

/-- The records as the two loops over `byDomain` meet them. -/
def records (s : MemoryStore) : List DNSRecord := s.byDomain.values.flatMap GoMap.values

def rebuildQuestionLocked (types : TypeNames) (s : MemoryStore) (fqdn recordType : String) :
    MemoryStore :=
  let question := normalizeQuestion types ⟨fqdn, recordType⟩
  let key := dnsCacheKey types question
  let records := s.records.filter question.answeredBy
  if records = [] then { s with byKey := s.byKey.delete key }
  else { s with byKey := s.byKey.set key records }

/-- A record of the same name and id is taken out first, and its question
rebuilt. -/
def removeExisting (types : TypeNames) (s : MemoryStore) (fqdn id : String) : MemoryStore :=
  match (s.domain fqdn).get? id with
  | none => s
  | some existing =>
    (s.setDomain fqdn ((s.domain fqdn).delete id)).rebuildQuestionLocked types existing.fqdn
      existing.recordType

def upsertLocked (types : TypeNames) (s : MemoryStore) (record : DNSRecord) : MemoryStore :=
  let record := stored record
  let s := s.removeExisting types record.fqdn record.id
  (s.setDomain record.fqdn ((s.domain record.fqdn).set record.id record)).rebuildQuestionLocked
    types record.fqdn record.recordType

def restore (types : TypeNames) (records : List DNSRecord) : MemoryStore :=
  records.foldl (upsertLocked types) new

def lookup (types : TypeNames) (s : MemoryStore) (question : Question) : AnswerSet × Bool :=
  let question := normalizeQuestion types question
  match s.byKey.get? (dnsCacheKey types question) with
  | none => (⟨question, false, []⟩, false)
  | some records => (⟨question, decide (0 < records.length), records⟩, true)

/-! ## The answers are an index of the records -/

def matching (types : TypeNames) (s : MemoryStore) (q : Question) : List DNSRecord :=
  s.records.filter (normalizeQuestion types q).answeredBy

/-- Every question is filed with the records that answer it, in some
order, and is absent when there are none. -/
def Indexed (types : TypeNames) (s : MemoryStore) : Prop :=
  ∀ q, ∃ l : List DNSRecord, l.Perm (s.matching types q)
    ∧ s.byKey.get? (dnsCacheKey types q) = if l = [] then none else some l

variable {types : TypeNames} {s s' : MemoryStore}

theorem Indexed.new : Indexed types new := fun _ => ⟨[], List.Perm.refl _, rfl⟩

@[simp] theorem records_rebuildQuestionLocked (fqdn recordType : String) :
    (s.rebuildQuestionLocked types fqdn recordType).records = s.records := by
  rw [rebuildQuestionLocked]
  split <;> rfl

@[simp] theorem domain_rebuildQuestionLocked (fqdn recordType : String) :
    (s.rebuildQuestionLocked types fqdn recordType).domain = s.domain := by
  rw [rebuildQuestionLocked]
  split <;> rfl

theorem get?_rebuildQuestionLocked (fqdn recordType : String) (q : Question) :
    (s.rebuildQuestionLocked types fqdn recordType).byKey.get? (dnsCacheKey types q)
      = if normalizeQuestion types ⟨fqdn, recordType⟩ = normalizeQuestion types q then
          if s.matching types q = [] then none else some (s.matching types q)
        else s.byKey.get? (dnsCacheKey types q) := by
  have hkey : dnsCacheKey types (normalizeQuestion types ⟨fqdn, recordType⟩)
      = dnsCacheKey types q
        ↔ normalizeQuestion types ⟨fqdn, recordType⟩ = normalizeQuestion types q := by
    rw [dnsCacheKey_inj, normalizeQuestion_idem]
  by_cases hq : normalizeQuestion types ⟨fqdn, recordType⟩ = normalizeQuestion types q
  · rw [if_pos hq, rebuildQuestionLocked, hq, matching]
    split
    · rw [GoMap.get?_delete, if_pos (hq ▸ hkey.mpr hq)]
    · rw [GoMap.get?_set, if_pos (hq ▸ hkey.mpr hq)]
  · rw [if_neg hq, rebuildQuestionLocked]
    split
    · rw [GoMap.get?_delete, if_neg fun h => hq (hkey.mp h)]
    · rw [GoMap.get?_set, if_neg fun h => hq (hkey.mp h)]

variable {fqdn : String} {record : DNSRecord}

/-- After a change of the records that only one question can see,
rebuilding that question is enough. -/
theorem Indexed.rebuild (h : Indexed types s) (hkey : s'.byKey = s.byKey) {recordType : String}
    (hother : ∀ q, normalizeQuestion types ⟨fqdn, recordType⟩ ≠ normalizeQuestion types q → (s.matching types q).Perm (s'.matching types q)) :
    Indexed types (s'.rebuildQuestionLocked types fqdn recordType) := by
  intro q
  have hmatching : (s'.rebuildQuestionLocked types fqdn recordType).matching types q
      = s'.matching types q := by
    rw [matching, records_rebuildQuestionLocked, matching]
  rw [get?_rebuildQuestionLocked, hmatching]
  by_cases hq : normalizeQuestion types ⟨fqdn, recordType⟩ = normalizeQuestion types q
  · rw [if_pos hq]
    exact ⟨_, List.Perm.refl _, rfl⟩
  · obtain ⟨l, hl, hget⟩ := h q
    rw [if_neg hq, hkey]
    exact ⟨l, hl.trans (hother q hq), hget⟩

theorem answeredBy_eq_false {q : Question}
    (h : normalizeQuestion types ⟨record.fqdn, record.recordType⟩ ≠ normalizeQuestion types q) :
    (normalizeQuestion types q).answeredBy record = false := by
  rw [← Bool.not_eq_true]
  intro ha
  obtain ⟨-, hfqdn, htype⟩ := Question.answeredBy_iff.mp ha
  refine h ?_
  rw [normalizeQuestion, hfqdn, htype, normalizeQuestion, normalizeRecordType_idem]

theorem matching_perm_of_cons {q : Question} (hrecords : s'.records.Perm (record :: s.records))
    (hq : normalizeQuestion types ⟨record.fqdn, record.recordType⟩ ≠ normalizeQuestion types q) :
    (s.matching types q).Perm (s'.matching types q) := by
  have h := hrecords.filter (normalizeQuestion types q).answeredBy
  rw [List.filter_cons_of_neg (by simp [answeredBy_eq_false hq])] at h
  exact h.symm

/-! ### Inserting and removing one record -/

theorem records_perm (fqdn : String) :
    s.records.Perm ((s.domain fqdn).values
      ++ (s.byDomain.delete fqdn).values.flatMap GoMap.values) := by
  have h := (GoMap.values_perm s.byDomain fqdn).flatMap_right GoMap.values
  rw [List.flatMap_append] at h
  have hdomain : (s.byDomain.get? fqdn).toList.flatMap GoMap.values = (s.domain fqdn).values := by
    rw [domain]
    cases s.byDomain.get? fqdn with
    | none => rfl
    | some m => simp
  rwa [hdomain] at h

theorem byKey_setDomain (s : MemoryStore) (fqdn : String) (m : GoMap String DNSRecord) :
    (s.setDomain fqdn m).byKey = s.byKey := rfl

theorem records_setDomain (fqdn : String) (m : GoMap String DNSRecord) :
    (s.setDomain fqdn m).records.Perm
      (m.values ++ (s.byDomain.delete fqdn).values.flatMap GoMap.values) :=
  (GoMap.values_set_perm s.byDomain fqdn m).flatMap_right GoMap.values

@[simp] theorem domain_setDomain (fqdn : String) (m : GoMap String DNSRecord) :
    (s.setDomain fqdn m).domain fqdn = m := by
  rw [domain, setDomain, GoMap.get?_set, if_pos rfl]
  rfl

theorem records_insert {id : String} (h : (s.domain fqdn).get? id = none) :
    (s.setDomain fqdn ((s.domain fqdn).set id record)).records.Perm
      (record :: s.records) := by
  have hold := GoMap.values_perm (s.domain fqdn) id
  rw [h] at hold
  have hset := (GoMap.values_set_perm (s.domain fqdn) id record).trans (hold.symm.cons record)
  exact (records_setDomain fqdn _).trans
    ((hset.append_right _).trans ((records_perm fqdn).symm.cons record))

theorem records_remove {id : String} (h : (s.domain fqdn).get? id = some record) :
    s.records.Perm
      (record :: (s.setDomain fqdn ((s.domain fqdn).delete id)).records) := by
  have hold := GoMap.values_perm (s.domain fqdn) id
  rw [h] at hold
  exact (records_perm fqdn).trans
    ((hold.append_right _).trans ((records_setDomain fqdn _).symm.cons record))

theorem Indexed.removeExisting (h : Indexed types s) (fqdn id : String) :
    Indexed types (s.removeExisting types fqdn id) := by
  rw [MemoryStore.removeExisting]
  cases hget : (s.domain fqdn).get? id with
  | none => exact h
  | some existing =>
    exact h.rebuild (byKey_setDomain s fqdn _) fun q hq =>
      (matching_perm_of_cons (records_remove hget) hq).symm

theorem get?_removeExisting (fqdn id : String) :
    ((s.removeExisting types fqdn id).domain fqdn).get? id = none := by
  rw [MemoryStore.removeExisting]
  cases hget : (s.domain fqdn).get? id with
  | none => exact hget
  | some existing =>
    rw [domain_rebuildQuestionLocked, domain_setDomain, GoMap.get?_delete, if_pos rfl]

theorem Indexed.upsertLocked (h : Indexed types s) (record : DNSRecord) :
    Indexed types (s.upsertLocked types record) :=
  (h.removeExisting _ _).rebuild (byKey_setDomain _ _ _) fun _ hq =>
    matching_perm_of_cons (records_insert (get?_removeExisting _ _)) hq

theorem indexed_restore (records : List DNSRecord) : Indexed types (restore types records) := by
  have hfold : ∀ s : MemoryStore, Indexed types s →
      Indexed types (records.foldl (MemoryStore.upsertLocked types) s) := by
    induction records with
    | nil => exact fun s h => h
    | cons r rs ih => exact fun s h => ih _ (h.upsertLocked r)
  exact hfold _ .new

/-! ### Lookups -/

theorem Indexed.lookup_perm (h : Indexed types s) (q : Question) :
    (s.lookup types q).1.records.Perm (s.matching types q) := by
  obtain ⟨l, hl, hget⟩ := h q
  have hkey : dnsCacheKey types (normalizeQuestion types q) = dnsCacheKey types q := by
    rw [dnsCacheKey_inj, normalizeQuestion_idem]
  rw [lookup, hkey, hget]
  by_cases hnil : l = []
  · rw [if_pos hnil]
    exact hnil ▸ hl
  · rw [if_neg hnil]
    exact hl

theorem records_restore_single (record : DNSRecord) :
    (restore types [record]).records.Perm [stored record] := by
  rw [restore, List.foldl_cons, List.foldl_nil, MemoryStore.upsertLocked,
    records_rebuildQuestionLocked]
  exact records_insert rfl

/-- A store restored from at most one record answers from that record. -/
theorem lookup_restore {records : List DNSRecord} (h : records.length ≤ 1) (q : Question) :
    ((restore types records).lookup types q).1.records.Perm
      ((records.map stored).filter (normalizeQuestion types q).answeredBy) := by
  refine (indexed_restore records).lookup_perm q |>.trans ?_
  match records, h with
  | [], _ => exact List.Perm.refl _
  | [record], _ => exact (records_restore_single record).filter _

end MemoryStore

/-! ## The engine -/

/-- The engine keeps its records in two parts: those it was fed
(`baseDNS`) and those of the Kubernetes bridge. -/
structure Engine where
  store : MemoryStore
  baseDNS : List DNSRecord
  k8sDNS : List DNSRecord

namespace Engine

def new : Engine := ⟨.new, [], []⟩

def restoreRecords (types : TypeNames) (e : Engine) (records : List DNSRecord) : Engine :=
  { e with
    baseDNS := records
    store := .restore types (records ++ e.k8sDNS) }

end Engine

end DNS

end LunaEdge
