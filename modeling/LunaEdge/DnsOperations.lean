import LunaEdge.DnsStore
import LunaEdge.Runs

/-!
# Operations of the DNS store

The operations by which a DNS engine changes its store one record at a
time. Each of them moves a record between the maps of `byDomain` and
then rebuilds the answers to the questions it may have changed: the one
the record answered before and the one it answers now.

`WellFormed` collects what the two maps owe each other. The answers are
an index of the records, every record lies under its own name and id,
and nothing is filed under a text that is the key of no question. Every
operation preserves it, so it holds after any number of them.
-/

namespace LunaEdge

open List

namespace DNS

inductive StoreError where
  /-- `domain %q not found` -/
  | domainNotFound (domainID : String)
  /-- `dns record %q not found` -/
  | recordNotFound (recordID : String)
  /-- What the caller's `apply` returned. -/
  | apply (err : String)
deriving Repr, DecidableEq

def questionFromRecord (record : DNSRecord) : Question := ⟨record.fqdn, record.recordType⟩

namespace MemoryStore

/-! ## The operations -/

def answerSetLocked (types : TypeNames) (s : MemoryStore) (question : Question) : AnswerSet :=
  (s.lookup types question).1

def add (types : TypeNames) (s : MemoryStore) (record : DNSRecord) : MemoryStore × AnswerSet :=
  let s := s.upsertLocked types record
  (s, s.answerSetLocked types (questionFromRecord record))

/-- Take a record out and file it again as `apply` leaves it. When
`apply` fails the record stays out. -/
def modify (types : TypeNames) (s : MemoryStore) (domainID recordID : String)
    (apply : DNSRecord → Except String DNSRecord) :
    MemoryStore × Except StoreError (DNSRecord × AnswerSet) :=
  match s.byDomain.get? domainID with
  | none => (s, .error (.domainNotFound domainID))
  | some domainRecords =>
    match domainRecords.get? recordID with
    | none => (s, .error (.recordNotFound recordID))
    | some record =>
      let s := (s.setDomain domainID (domainRecords.delete recordID)).rebuildQuestionLocked types
        record.fqdn record.recordType
      match apply record with
      | .error err => (s, .error (.apply err))
      | .ok record =>
        let s := s.upsertLocked types record
        (s, .ok (record, s.answerSetLocked types (questionFromRecord record)))

/-- A name without records left is removed, or else its map replaced. -/
def putDomain (s : MemoryStore) (domainID : String) (domainRecords : GoMap String DNSRecord) :
    MemoryStore :=
  if domainRecords.rows = [] then { s with byDomain := s.byDomain.delete domainID }
  else s.setDomain domainID domainRecords

def delete (types : TypeNames) (s : MemoryStore) (domainID recordID : String) :
    MemoryStore × Except StoreError (DNSRecord × AnswerSet) :=
  match s.byDomain.get? domainID with
  | none => (s, .error (.domainNotFound domainID))
  | some domainRecords =>
    match domainRecords.get? recordID with
    | none => (s, .error (.recordNotFound recordID))
    | some record =>
      let s := (s.putDomain domainID (domainRecords.delete recordID)).rebuildQuestionLocked types
        record.fqdn record.recordType
      (s, .ok (record, s.answerSetLocked types (questionFromRecord record)))

def refreshQuestion (types : TypeNames) (s : MemoryStore) (question : Question) : MemoryStore :=
  let question := normalizeQuestion types question
  s.rebuildQuestionLocked types question.fqdn question.recordType

def clear : MemoryStore := new

inductive Op where
  | restore (records : List DNSRecord)
  | add (record : DNSRecord)
  | modify (domainID recordID : String) (apply : DNSRecord → Except String DNSRecord)
  | delete (domainID recordID : String)
  | refreshQuestion (question : Question)
  | clear

def step (types : TypeNames) (s : MemoryStore) : Op → MemoryStore
  | .restore records => restore types records
  | .add record => (s.add types record).1
  | .modify domainID recordID apply => (s.modify types domainID recordID apply).1
  | .delete domainID recordID => (s.delete types domainID recordID).1
  | .refreshQuestion question => s.refreshQuestion types question
  | .clear => clear

def run (types : TypeNames) (ops : List Op) : MemoryStore := ops.foldl (step types) new

/-! ## The representation invariant -/

/-- Every record of a map lies under its own id, with the map's name. -/
def Filed (fqdn : String) (records : GoMap String DNSRecord) : Prop :=
  ∀ id record, records.get? id = some record → record.fqdn = fqdn ∧ record.id = id

structure WellFormed (types : TypeNames) (s : MemoryStore) : Prop where
  indexed : Indexed types s
  filed : ∀ fqdn, Filed fqdn (s.domain fqdn)
  keys : ∀ key, s.byKey.get? key ≠ none → ∃ q, dnsCacheKey types q = key

variable {types : TypeNames} {s s' : MemoryStore}

theorem WellFormed.new : WellFormed types new where
  indexed := .new
  filed _ _ _ hget := absurd hget (by simp [domain, MemoryStore.new])
  keys _ hget := absurd rfl hget

variable {fqdn : String} {record : DNSRecord} {q : Question}

theorem Filed.delete {records : GoMap String DNSRecord} (h : Filed fqdn records) (id : String) :
    Filed fqdn (records.delete id) := by
  intro id' record hget
  rw [GoMap.get?_delete] at hget
  split at hget
  · cases hget
  · exact h id' record hget

theorem Filed.set {records : GoMap String DNSRecord} (h : Filed fqdn records)
    (hfqdn : record.fqdn = fqdn) : Filed fqdn (records.set record.id record) := by
  intro id' record' hget
  rw [GoMap.get?_set] at hget
  split at hget
  · rename_i hid
    exact Option.some.inj hget ▸ ⟨hfqdn, hid⟩
  · exact h id' record' hget

theorem domain_setDomain_of_ne {fqdn' : String} (hne : fqdn ≠ fqdn') (m : GoMap String DNSRecord) :
    (s.setDomain fqdn m).domain fqdn' = s.domain fqdn' := by
  rw [domain, setDomain, GoMap.get?_set, if_neg hne, domain]

theorem filed_setDomain (h : ∀ fqdn, Filed fqdn (s.domain fqdn)) {m : GoMap String DNSRecord}
    (hm : Filed fqdn m) (fqdn' : String) : Filed fqdn' ((s.setDomain fqdn m).domain fqdn') := by
  by_cases hne : fqdn = fqdn'
  · subst hne
    rwa [domain_setDomain]
  · rw [domain_setDomain_of_ne hne]
    exact h fqdn'

theorem keys_rebuildQuestionLocked
    (h : ∀ key, s.byKey.get? key ≠ none → ∃ q, dnsCacheKey types q = key)
    (fqdn recordType key : String)
    (hkey : (s.rebuildQuestionLocked types fqdn recordType).byKey.get? key ≠ none) :
    ∃ q, dnsCacheKey types q = key := by
  rw [rebuildQuestionLocked] at hkey
  split at hkey
  · rw [GoMap.get?_delete] at hkey
    split at hkey
    · exact absurd rfl hkey
    · exact h key hkey
  · rw [GoMap.get?_set] at hkey
    split at hkey
    · rename_i hq
      exact ⟨_, hq⟩
    · exact h key hkey

/-- A change of the records that only one question can see, followed by
the rebuilding of that question. -/
theorem WellFormed.rebuild (h : WellFormed types s) (hkey : s'.byKey = s.byKey)
    (hfiled : ∀ fqdn, Filed fqdn (s'.domain fqdn)) {recordType : String}
    (hother : ∀ q, normalizeQuestion types ⟨fqdn, recordType⟩ ≠ normalizeQuestion types q → (s.matching types q).Perm (s'.matching types q)) :
    WellFormed types (s'.rebuildQuestionLocked types fqdn recordType) where
  indexed := h.indexed.rebuild hkey hother
  filed := by
    rw [domain_rebuildQuestionLocked]
    exact hfiled
  keys := keys_rebuildQuestionLocked (hkey ▸ h.keys) fqdn recordType

theorem WellFormed.take (h : WellFormed types s) {id : String}
    (hget : (s.domain fqdn).get? id = some record) :
    WellFormed types ((s.setDomain fqdn ((s.domain fqdn).delete id)).rebuildQuestionLocked types
      record.fqdn record.recordType) :=
  h.rebuild (byKey_setDomain s fqdn _) (filed_setDomain h.filed ((h.filed fqdn).delete id))
    fun _ hq => (matching_perm_of_cons (records_remove hget) hq).symm

theorem WellFormed.removeExisting (h : WellFormed types s) (fqdn id : String) :
    WellFormed types (s.removeExisting types fqdn id) := by
  rw [MemoryStore.removeExisting]
  cases hget : (s.domain fqdn).get? id with
  | none => exact h
  | some existing => exact h.take hget

theorem WellFormed.upsertLocked (h : WellFormed types s) (record : DNSRecord) :
    WellFormed types (s.upsertLocked types record) := by
  rw [MemoryStore.upsertLocked]
  generalize stored record = record
  have hout := h.removeExisting record.fqdn record.id
  have hfiled := filed_setDomain hout.filed ((hout.filed record.fqdn).set rfl)
  exact hout.rebuild (byKey_setDomain _ _ _) hfiled
    fun _ hq => matching_perm_of_cons (records_insert (get?_removeExisting _ _)) hq

theorem WellFormed.restore (records : List DNSRecord) :
    WellFormed types (restore types records) := by
  show WellFormed types (records.foldl (MemoryStore.upsertLocked types) MemoryStore.new)
  exact Runs.invariant (fun _ r h => h.upsertLocked r) records .new

theorem domain_of_get? {m : GoMap String DNSRecord} (hget : s.byDomain.get? fqdn = some m) :
    s.domain fqdn = m := by
  rw [domain, hget]
  rfl

theorem WellFormed.modify (h : WellFormed types s) (domainID recordID : String)
    (apply : DNSRecord → Except String DNSRecord) :
    WellFormed types (s.modify types domainID recordID apply).1 := by
  unfold MemoryStore.modify
  split
  · exact h
  · rename_i domainRecords hdomain
    obtain rfl := domain_of_get? hdomain
    split
    · exact h
    · rename_i record hrecord
      have hout := h.take hrecord
      dsimp only
      split
      · exact hout
      · dsimp only
        exact hout.upsertLocked _

/-! ### Removing a name that has no records left -/

theorem domain_putDomain (fqdn : String) (m : GoMap String DNSRecord) (fqdn' : String) :
    (s.putDomain fqdn m).domain fqdn'
      = if m.rows = [] ∧ fqdn = fqdn' then .empty else (s.setDomain fqdn m).domain fqdn' := by
  rw [putDomain]
  by_cases hm : m.rows = []
  · rw [if_pos hm, domain, GoMap.get?_delete]
    by_cases hne : fqdn = fqdn'
    · rw [if_pos hne, if_pos ⟨hm, hne⟩]
      rfl
    · rw [if_neg hne, if_neg fun h => hne h.2, domain_setDomain_of_ne hne]
      rfl
  · rw [if_neg hm, if_neg fun h => hm h.1]

theorem records_putDomain (fqdn : String) (m : GoMap String DNSRecord) :
    (s.putDomain fqdn m).records.Perm (s.setDomain fqdn m).records := by
  rw [putDomain]
  split
  · rename_i hm
    have hvalues : m.values = [] := by rw [GoMap.values, hm, map_nil]
    have hset := records_setDomain (s := s) fqdn m
    rw [hvalues, nil_append] at hset
    exact hset.symm
  · exact List.Perm.refl _

theorem byKey_putDomain (fqdn : String) (m : GoMap String DNSRecord) :
    (s.putDomain fqdn m).byKey = s.byKey := by
  rw [putDomain]
  split <;> rfl

theorem WellFormed.delete (h : WellFormed types s) (domainID recordID : String) :
    WellFormed types (s.delete types domainID recordID).1 := by
  unfold MemoryStore.delete
  split
  · exact h
  · rename_i domainRecords hdomain
    obtain rfl := domain_of_get? hdomain
    split
    · exact h
    · rename_i record hrecord
      refine h.rebuild (byKey_putDomain _ _) (fun fqdn => ?_) fun q hq => ?_
      · rw [domain_putDomain]
        split
        · intro id r hget
          cases hget
        · exact filed_setDomain h.filed ((h.filed domainID).delete recordID) fqdn
      · have hout := records_remove hrecord
        have hrecords := hout.trans ((records_putDomain domainID _).symm.cons record)
        exact (matching_perm_of_cons hrecords hq).symm

theorem WellFormed.refreshQuestion (h : WellFormed types s) (question : Question) :
    WellFormed types (s.refreshQuestion types question) :=
  h.rebuild rfl h.filed fun _ _ => List.Perm.refl _

theorem WellFormed.step (h : WellFormed types s) (op : Op) :
    WellFormed types (s.step types op) := by
  cases op with
  | restore records => exact .restore records
  | add record => exact h.upsertLocked record
  | modify domainID recordID apply => exact h.modify domainID recordID apply
  | delete domainID recordID => exact h.delete domainID recordID
  | refreshQuestion question => exact h.refreshQuestion question
  | clear => exact .new

theorem wellFormed_run (types : TypeNames) (ops : List Op) : WellFormed types (run types ops) := by
  show WellFormed types (ops.foldl (MemoryStore.step types) MemoryStore.new)
  exact Runs.invariant (fun _ op h => h.step op) ops .new

/-! ## What a well-formed store answers -/

theorem WellFormed.nodup_records (h : WellFormed types s) :
    (s.records.map fun r => (r.fqdn, r.id)).Nodup := by
  have hids : ∀ e ∈ s.byDomain.rows,
      (GoMap.values e.2).map (fun r => (r.fqdn, r.id)) = (GoMap.keys e.2).map (e.1, ·) := by
    intro e he
    have hdomain : s.domain e.1 = e.2 := domain_of_get? (congrArg _ (Table.find?_of_mem he))
    rw [GoMap.values, GoMap.keys, map_map, map_map]
    refine map_congr_left fun x hx => ?_
    obtain ⟨hfqdn, hid⟩ := h.filed e.1 x.1 x.2
      (hdomain ▸ congrArg (Option.map Prod.snd) (Table.find?_of_mem hx))
    show (x.2.fqdn, x.2.id) = (e.1, x.1)
    rw [hfqdn, hid]
  have hlist : s.records.map (fun r => (r.fqdn, r.id))
      = s.byDomain.rows.flatMap fun e => (GoMap.keys e.2).map (e.1, ·) := by
    rw [records, GoMap.values, flatMap_map, map_flatMap]
    exact flatMap_congr hids
  rw [hlist, nodup_flatMap]
  constructor
  · intro e _
    exact e.2.nodup.map fun _ _ heq => congrArg Prod.snd heq
  · have hnames : s.byDomain.rows.Pairwise fun e e' => e.1 ≠ e'.1 :=
      pairwise_map.mp s.byDomain.nodup
    refine hnames.imp fun hne => ?_
    intro p hp hp'
    obtain ⟨_, _, rfl⟩ := mem_map.mp hp
    obtain ⟨_, _, heq⟩ := mem_map.mp hp'
    exact hne (congrArg Prod.fst heq).symm

theorem answeredBy_normalizeQuestion :
    (normalizeQuestion types q).answeredBy record = true
      ↔ record.enabled = true ∧ normalizeFQDN record.fqdn = normalizeFQDN q.fqdn
        ∧ record.recordType = normalizeRecordType types q.recordType := by
  rw [Question.answeredBy_iff, normalizeQuestion]

theorem WellFormed.isSome_byKey (h : WellFormed types s) (q : Question) :
    (s.byKey.get? (dnsCacheKey types q)).isSome = true
      ↔ ∃ record ∈ s.records, (normalizeQuestion types q).answeredBy record = true := by
  obtain ⟨l, hl, hget⟩ := h.indexed q
  have hnil : l = [] ↔ s.matching types q = [] := by
    rw [← length_eq_zero_iff, hl.length_eq, length_eq_zero_iff]
  rw [hget]
  by_cases hempty : l = []
  · have hnone := filter_eq_nil_iff.mp (hnil.mp hempty)
    simpa [hempty] using hnone
  · have hsome := mt hnil.mpr hempty
    rw [matching, filter_eq_nil_iff] at hsome
    push Not at hsome
    simpa [hempty] using hsome

theorem WellFormed.perm_of_byKey (h : WellFormed types s) {answers : List DNSRecord}
    (hget : s.byKey.get? (dnsCacheKey types q) = some answers) :
    answers.Perm (s.matching types q) := by
  obtain ⟨l, hl, hget'⟩ := h.indexed q
  rw [hget] at hget'
  split at hget'
  · cases hget'
  · exact Option.some.inj hget' ▸ hl

theorem lookup_congr {q' : Question} (hq : normalizeQuestion types q = normalizeQuestion types q') :
    s.lookup types q = s.lookup types q' := by
  rw [lookup, lookup, hq]

/-- After any sequence of operations a text is a key of the index exactly
if it is the key of a question that some stored record answers; what is
filed there are the records that answer it, each once; and a question is
answered in the same way however it is spelled. -/
theorem run_representation (types : TypeNames) (ops : List Op) :
    let s := run types ops
    (∀ key, (s.byKey.get? key).isSome = true
      ↔ ∃ q, dnsCacheKey types q = key ∧ ∃ record ∈ s.records, record.enabled = true
        ∧ normalizeFQDN record.fqdn = normalizeFQDN q.fqdn
        ∧ record.recordType = normalizeRecordType types q.recordType)
    ∧ (∀ q answers, s.byKey.get? (dnsCacheKey types q) = some answers →
      answers.Perm (s.records.filter (normalizeQuestion types q).answeredBy)
        ∧ (answers.map fun r => (r.fqdn, r.id)).Nodup)
    ∧ ∀ q q', normalizeQuestion types q = normalizeQuestion types q' →
      (s.lookup types q).1.records.Perm (s.lookup types q').1.records
        ∧ (s.lookup types q).1.records.Perm
          (s.records.filter (normalizeQuestion types q).answeredBy) := by
  intro s
  have h : WellFormed types s := wellFormed_run types ops
  refine ⟨fun key => ⟨fun hkey => ?_, ?_⟩, fun q answers hget => ?_, fun q q' hq => ?_⟩
  · obtain ⟨q, hq⟩ := h.keys key (Option.isSome_iff_ne_none.mp hkey)
    subst hq
    obtain ⟨record, hrecord, hanswer⟩ := (h.isSome_byKey q).mp hkey
    exact ⟨q, rfl, record, hrecord, answeredBy_normalizeQuestion.mp hanswer⟩
  · rintro ⟨q, rfl, record, hrecord, hanswer⟩
    exact (h.isSome_byKey q).mpr ⟨record, hrecord, answeredBy_normalizeQuestion.mpr hanswer⟩
  · have hperm := h.perm_of_byKey hget
    refine ⟨hperm, ((hperm.map _).nodup_iff).mpr ?_⟩
    exact h.nodup_records.sublist (filter_sublist.map _)
  · refine ⟨?_, h.indexed.lookup_perm q⟩
    rw [lookup_congr hq]

end MemoryStore

end DNS

end LunaEdge
