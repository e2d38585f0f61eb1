import LunaEdge.DnsOperations

/-!
# Adding records one by one

`RestoreRecords` files a list of records as they are; `AddRecord` checks a
record and brings its name and its type into normal form first. The names
make no difference, because the store normalises them itself. The types
do: an answer is filed under the normalised type and filled with the
records that have exactly this spelling, so a restored record of another
spelling is never found.

Records of distinct ids do not replace each other, whichever way they come
in (`records_foldl_upsertLocked`), so the two views are two filters of one
list, and they agree exactly if the types of the enabled records are
spelled in normal form (`sameView_iff`).
-/

namespace LunaEdge

open List

namespace DNS

/-! ## The model -/

inductive AddError where
  /-- `record id is required` -/
  | recordIDRequired
  /-- `fqdn is required` -/
  | fqdnRequired
  /-- `record type is required` -/
  | recordTypeRequired
deriving Repr, DecidableEq

/-- `AddRecordInput.Validate`. -/
def validateAdd (types : TypeNames) (record : DNSRecord) : Except AddError Unit :=
  if record.id = "" then .error .recordIDRequired
  else if normalizeFQDN record.fqdn = "" then .error .fqdnRequired
  else if normalizeRecordType types record.recordType = "" then .error .recordTypeRequired
  else .ok ()

inductive ChangeEffectAction where
  | add
  | mod
  | del
deriving Repr, DecidableEq

structure ChangeEffect where
  fqdn : String
  recordType : String
  action : ChangeEffectAction
  recordsAffected : Nat
deriving Repr, DecidableEq

def normalizeRecord (types : TypeNames) (record : DNSRecord) : DNSRecord :=
  { record with
    fqdn := normalizeFQDN record.fqdn
    recordType := normalizeRecordType types record.recordType }

namespace Engine

def addRecord (types : TypeNames) (e : Engine) (record : DNSRecord) :
    Except AddError (Engine × ChangeEffect) := do
  validateAdd types record
  let (store, answerSet) := e.store.add types (normalizeRecord types record)
  return ({ e with store }, ⟨answerSet.question.fqdn, answerSet.question.recordType, .add, 1⟩)

def addRecords (types : TypeNames) (e : Engine) (records : List DNSRecord) :
    Except AddError Engine :=
  records.foldlM (fun e record => Prod.fst <$> e.addRecord types record) e

end Engine

/-! ## Records of distinct ids -/

namespace MemoryStore

variable {types : TypeNames} {s : MemoryStore}

theorem id_stored (record : DNSRecord) : (stored record).id = record.id := by
  rw [stored]

theorem WellFormed.records_upsertLocked (h : WellFormed types s) {record : DNSRecord}
    (hnew : ∀ r ∈ s.records, r.id ≠ record.id) :
    (s.upsertLocked types record).records.Perm (stored record :: s.records) := by
  rw [← id_stored record] at hnew
  rw [MemoryStore.upsertLocked]
  generalize stored record = record at hnew ⊢
  have hget : (s.domain record.fqdn).get? record.id = none := by
    cases hget : (s.domain record.fqdn).get? record.id with
    | none => rfl
    | some existing =>
      have hvalue : existing ∈ (s.domain record.fqdn).values := GoMap.mem_values_iff.mpr ⟨_, hget⟩
      have hmem : existing ∈ s.records :=
        (records_perm record.fqdn).mem_iff.mpr (mem_append_left _ hvalue)
      exact absurd (h.filed _ _ _ hget).2 (hnew existing hmem)
  have hremove : s.removeExisting types record.fqdn record.id = s := by
    rw [MemoryStore.removeExisting, hget]
  rw [records_rebuildQuestionLocked, hremove]
  exact records_insert hget

theorem records_foldl_upsertLocked {records : List DNSRecord} (h : WellFormed types s)
    (hids : (records.map DNSRecord.id).Nodup)
    (hnew : ∀ record ∈ records, ∀ r ∈ s.records, r.id ≠ record.id) :
    (records.foldl (upsertLocked types) s).records.Perm (records.map stored ++ s.records) := by
  induction records generalizing s with
  | nil => exact .refl _
  | cons record records ih =>
    rw [map_cons, nodup_cons] at hids
    rw [forall_mem_cons] at hnew
    have hstep := h.records_upsertLocked hnew.1
    refine (ih (h.upsertLocked record) hids.2 fun record' hrecord' r hr => ?_).trans ?_
    · rcases mem_cons.mp (hstep.mem_iff.mp hr) with hfiled | hr
      · rw [hfiled, id_stored]
        exact fun heq => hids.1 (heq ▸ mem_map_of_mem hrecord')
      · exact hnew.2 record' hrecord' r hr
    · exact (hstep.append_left _).trans perm_middle

/-- Both ways of filling a store file the records of a list, each once. -/
theorem lookup_foldl_upsertLocked (types : TypeNames) {records : List DNSRecord}
    (hids : (records.map DNSRecord.id).Nodup) (q : Question) :
    ((records.foldl (upsertLocked types) new).lookup types q).1.records.Perm
      ((records.map stored).filter (normalizeQuestion types q).answeredBy) := by
  have hempty : new.records = [] := rfl
  have hrecords := records_foldl_upsertLocked (WellFormed.new : WellFormed types new) hids
    fun _ _ r hr => absurd (hempty ▸ hr) not_mem_nil
  rw [hempty, append_nil] at hrecords
  exact ((WellFormed.restore records).indexed.lookup_perm q).trans (hrecords.filter _)

end MemoryStore

/-! ## The two views -/

variable {types : TypeNames}

def respelled (types : TypeNames) (record : DNSRecord) : DNSRecord :=
  { record with recordType := normalizeRecordType types record.recordType }

/-- Two engines return the same answers to every question, up to their
order and the spelling of the types. -/
def SameView (types : TypeNames) (e e' : Engine) : Prop :=
  ∀ q, ((e.store.lookup types q).1.records.map (respelled types)).Perm
    ((e'.store.lookup types q).1.records.map (respelled types))

variable {records : List DNSRecord}

theorem addRecords_eq (e : Engine) (hvalid : ∀ record ∈ records, validateAdd types record = .ok ()) :
    e.addRecords types records = .ok { e with
      store := (records.map (normalizeRecord types)).foldl (MemoryStore.upsertLocked types)
        e.store } := by
  induction records generalizing e with
  | nil => rfl
  | cons record records ih =>
    rw [forall_mem_cons] at hvalid
    have hstep : Prod.fst <$> e.addRecord types record
        = .ok { e with store := e.store.upsertLocked types (normalizeRecord types record) } := by
      rw [Engine.addRecord, hvalid.1]
      rfl
    rw [Engine.addRecords, foldlM_cons, hstep]
    exact ih _ hvalid.2

theorem respelled_stored (record : DNSRecord) :
    respelled types (stored record) = normalizeRecord types record := by
  simp only [respelled, stored, normalizeRecord]

theorem respelled_stored_normalizeRecord (record : DNSRecord) :
    respelled types (stored (normalizeRecord types record)) = normalizeRecord types record := by
  simp only [respelled, stored, normalizeRecord, normalizeFQDN_idem, normalizeRecordType_idem]

theorem answeredBy_stored {q : Question} {record : DNSRecord} :
    (normalizeQuestion types q).answeredBy (stored record) = true
      ↔ record.enabled = true ∧ normalizeFQDN record.fqdn = normalizeFQDN q.fqdn
        ∧ record.recordType = normalizeRecordType types q.recordType := by
  rw [MemoryStore.answeredBy_normalizeQuestion, stored]
  simp only [normalizeFQDN_idem]

theorem answeredBy_normalizeRecord {q : Question} {record : DNSRecord} :
    (normalizeQuestion types q).answeredBy (stored (normalizeRecord types record)) = true
      ↔ record.enabled = true ∧ normalizeFQDN record.fqdn = normalizeFQDN q.fqdn
        ∧ normalizeRecordType types record.recordType = normalizeRecordType types q.recordType := by
  rw [answeredBy_stored, normalizeRecord]
  simp only [normalizeFQDN_idem]

theorem map_filter_perm_iff {α β : Type} {f : α → β} {p p' : α → Bool} {l : List α}
    (hsub : ∀ a, p a = true → p' a = true) :
    ((l.filter p).map f).Perm ((l.filter p').map f) ↔ ∀ a ∈ l, p' a = true → p a = true := by
  have hnested : (l.filter p').filter p = l.filter p := by
    rw [filter_filter]
    refine filter_congr fun a _ => ?_
    cases hp : p a with
    | true => simp [hsub a hp]
    | false => rfl
  constructor
  · intro h
    have hlength := h.length_eq
    rw [length_map, length_map, ← hnested, length_filter_eq_length_iff] at hlength
    exact fun a ha hp' => hlength a (mem_filter.mpr ⟨ha, hp'⟩)
  · intro h
    have heq : l.filter p = l.filter p' := by
      rw [← hnested, filter_eq_self]
      exact fun a ha => h a (mem_filter.mp ha).1 (mem_filter.mp ha).2
    rw [heq]

theorem id_normalizeRecord (record : DNSRecord) :
    (normalizeRecord types record).id = record.id := by
  rw [normalizeRecord]

theorem lookup_restoreRecords (types : TypeNames) {e : Engine} (hk8s : e.k8sDNS = [])
    (hids : (records.map DNSRecord.id).Nodup) (q : Question) :
    (((e.restoreRecords types records).store.lookup types q).1.records.map
      (respelled types)).Perm ((records.filter fun record =>
        (normalizeQuestion types q).answeredBy (stored record)).map (normalizeRecord types)) := by
  have hlookup := (MemoryStore.lookup_foldl_upsertLocked types hids q).map (respelled types)
  rw [filter_map, map_map] at hlookup
  rw [Engine.restoreRecords, hk8s, append_nil, MemoryStore.restore]
  exact hlookup.trans (.of_eq (map_congr_left fun r _ => respelled_stored r))

theorem lookup_addRecords (types : TypeNames) {order : List DNSRecord}
    (hids : (records.map DNSRecord.id).Nodup) (horder : order.Perm records) (q : Question) :
    ((((order.map (normalizeRecord types)).foldl (MemoryStore.upsertLocked types)
      MemoryStore.new).lookup types q).1.records.map (respelled types)).Perm
        ((records.filter fun record =>
          (normalizeQuestion types q).answeredBy (stored (normalizeRecord types record))).map
            (normalizeRecord types)) := by
  have hids' : ((order.map (normalizeRecord types)).map DNSRecord.id).Nodup := by
    rw [map_map]
    have hmap : order.map (DNSRecord.id ∘ normalizeRecord types) = order.map DNSRecord.id :=
      map_congr_left fun record _ => id_normalizeRecord record
    rw [hmap]
    exact ((horder.map DNSRecord.id).nodup_iff).mpr hids
  have hlookup := (MemoryStore.lookup_foldl_upsertLocked types hids' q).map (respelled types)
  rw [map_map, filter_map, map_map] at hlookup
  have hspelled : ∀ l : List DNSRecord,
      l.map (respelled types ∘ stored ∘ normalizeRecord types) = l.map (normalizeRecord types) :=
    fun l => map_congr_left fun r _ => respelled_stored_normalizeRecord r
  rw [hspelled] at hlookup
  exact hlookup.trans ((horder.filter _).map _)

/-- Valid records of distinct ids can be added in any order, and the engine
then has the view of one they were restored into exactly if the types of
the enabled ones are spelled in normal form. -/
theorem sameView_iff (types : TypeNames) (e : Engine) (hk8s : e.k8sDNS = [])
    {records order : List DNSRecord} (hids : (records.map DNSRecord.id).Nodup)
    (hvalid : ∀ record ∈ records, validateAdd types record = .ok ())
    (horder : order.Perm records) :
    ∃ e', Engine.new.addRecords types order = .ok e'
      ∧ (SameView types (e.restoreRecords types records) e'
        ↔ ∀ record ∈ records, record.enabled = true →
          normalizeRecordType types record.recordType = record.recordType) := by
  refine ⟨_, addRecords_eq .new fun record h => hvalid record (horder.mem_iff.mp h), ?_⟩
  have hview : ∀ q, (((e.restoreRecords types records).store.lookup types q).1.records.map
        (respelled types)).Perm ((((order.map (normalizeRecord types)).foldl
          (MemoryStore.upsertLocked types) MemoryStore.new).lookup types q).1.records.map
        (respelled types))
      ↔ ∀ record ∈ records,
        (normalizeQuestion types q).answeredBy (stored (normalizeRecord types record)) = true →
          (normalizeQuestion types q).answeredBy (stored record) = true := by
    intro q
    rw [(lookup_restoreRecords types hk8s hids q).congr_left,
      (lookup_addRecords types hids horder q).congr_right]
    refine map_filter_perm_iff fun record h => ?_
    obtain ⟨henabled, hfqdn, htype⟩ := answeredBy_stored.mp h
    refine answeredBy_normalizeRecord.mpr ⟨henabled, hfqdn, ?_⟩
    rw [htype, normalizeRecordType_idem]
  unfold SameView
  constructor
  · intro h record hrecord henabled
    have hq := (hview ⟨record.fqdn, record.recordType⟩).mp (h _) record hrecord
      (answeredBy_normalizeRecord.mpr ⟨henabled, rfl, rfl⟩)
    exact (answeredBy_stored.mp hq).2.2.symm
  · intro h q
    refine (hview q).mpr fun record hrecord hanswered => ?_
    obtain ⟨henabled, hfqdn, htype⟩ := answeredBy_normalizeRecord.mp hanswered
    exact answeredBy_stored.mpr ⟨henabled, hfqdn, (h record hrecord henabled).symm.trans htype⟩

def exampleRecord (id recordType : String) : DNSRecord :=
  { id, fqdn := "WWW.example.test", recordType, enabled := true, valuesJSON := "[\"192.0.2.1\"]" }

theorem sameView_iff_uppercase :
    ∃ e', Engine.new.addRecords commonTypes [exampleRecord "b" "A", exampleRecord "a" "A"] = .ok e'
      ∧ SameView commonTypes (Engine.new.restoreRecords commonTypes
          [exampleRecord "a" "A", exampleRecord "b" "A"]) e' := by
  have horder : [exampleRecord "b" "A", exampleRecord "a" "A"].Perm
      [exampleRecord "a" "A", exampleRecord "b" "A"] := List.Perm.swap _ _ _
  obtain ⟨e', hadd, hview⟩ := sameView_iff commonTypes .new rfl (by decide +kernel)
    (by decide +kernel) horder
  exact ⟨e', hadd, hview.mpr (by decide +kernel)⟩

/-- A record whose type is spelled in lower case is found after it was
added, and not after it was restored. -/
theorem restored_record_not_found :
    validateAdd commonTypes (exampleRecord "a" "a") = .ok ()
      ∧ ((Engine.new.restoreRecords commonTypes [exampleRecord "a" "a"]).store.lookup commonTypes
          ⟨"www.example.test", "A"⟩).1.records = []
      ∧ (Engine.new.addRecords commonTypes [exampleRecord "a" "a"]).toOption.map (fun e =>
          (e.store.lookup commonTypes ⟨"www.example.test", "A"⟩).1.records)
        = some [normalizeRecord commonTypes (exampleRecord "a" "a")] :=
  ⟨by decide +kernel, by decide +kernel, by decide +kernel⟩

end DNS

end LunaEdge
