import Mathlib.Data.List.Sort
import Mathlib.Order.WithBot
import LunaEdge.DnsNumbers

/-!
# Sorting the addresses of an answer by distance

Before a record is rendered, its values are split, sorted by the distance
of their addresses from the client, and written back with commas between
them. The renderer splits this text again.

The values that are rendered are addresses, so the text reads back as the
sorted list (`splitValues_join`), and the answers of the record are the
former ones in the new order: nearest first, addresses without a location
last, and equal distances as they were (`geoSort_reorders`). Distances are
taken from any total preorder.
-/

namespace LunaEdge

open List

namespace DNS

/-! ## Stable sorting -/

section StableSort

variable {α δ : Type} [Preorder δ] {dist : α → δ}

/-- `l'` is `l` by non-decreasing distance, with equal distances in the
order of `l`. -/
structure StablySorted (dist : α → δ) (l l' : List α) : Prop where
  perm : l'.Perm l
  sorted : l'.Pairwise fun a b => dist a ≤ dist b
  stable : ∀ (p : α → Bool), (∀ a b, p a = true → p b = true → dist a ≤ dist b) →
    l'.filter p = l.filter p

theorem StablySorted.refl {l : List α} (h : l.length ≤ 1) : StablySorted dist l l := by
  refine ⟨.refl l, ?_, fun _ _ => rfl⟩
  match l, h with
  | [], _ => exact .nil
  | [a], _ => exact pairwise_singleton _ a

theorem stablySorted_insertionSort [DecidableLT δ] [@Std.Total δ (· ≤ ·)] (l : List α) :
    StablySorted dist l (l.insertionSort fun a b => ¬ dist b < dist a) := by
  have hle : ∀ a b, (¬ dist b < dist a) ↔ dist a ≤ dist b := by
    intro a b
    rw [lt_iff_le_not_ge, not_and, not_not]
    constructor
    · exact fun h => (Std.Total.total (dist a) (dist b)).elim id h
    · exact fun h _ => h
  have : Std.Total (fun a b : α => ¬ dist b < dist a) :=
    ⟨fun a b => by rw [hle, hle]; exact Std.Total.total (dist a) (dist b)⟩
  have : IsTrans α (fun a b : α => ¬ dist b < dist a) :=
    ⟨fun a b c hab hbc => (hle a c).mpr (((hle a b).mp hab).trans ((hle b c).mp hbc))⟩
  have hperm := perm_insertionSort (fun a b => ¬ dist b < dist a) l
  refine ⟨hperm, ?_, fun p hp => ?_⟩
  · exact (pairwise_insertionSort (fun a b => ¬ dist b < dist a) l).imp fun h => (hle _ _).mp h
  · -- what `p` selects is in order, so it is a sublist of the sorted list
    have hpairs : (l.filter p).Pairwise fun a b => ¬ dist b < dist a := by
      refine pairwise_of_forall_mem_list fun a ha b hb => (hle a b).mpr ?_
      exact hp a b (mem_filter.mp ha).2 (mem_filter.mp hb).2
    have hsub := (sublist_insertionSort hpairs filter_sublist).filter p
    simp only [filter_filter, Bool.and_self] at hsub
    exact (hsub.eq_of_length (hperm.filter p).length_eq.symm).symm

end StableSort

/-! ## The model -/

/-- Addresses as `net` reads them: a text it accepts is made of digits,
letters, dots and colons. -/
structure Net (IP : Type) extends Library IP where
  parseIP_text : ∀ s ip, parseIP s = some ip →
    s ≠ "" ∧ ∀ c ∈ s.toList, c.isAlphanum = true ∨ c = '.' ∨ c = ':'

/-- The location database, with the distance of two coordinates. -/
structure GeoIP (IP Coordinates δ : Type) where
  lookup : IP → Option Coordinates
  haversine : Coordinates → Coordinates → δ

variable {IP Coordinates δ : Type}

/-- The distance of a value's address; `⊤` stands for `math.MaxFloat64`,
the distance of an address that cannot be located. -/
def valueDistance (lib : Library IP) (geo : GeoIP IP Coordinates δ) (client : Coordinates)
    (value : String) : WithTop δ :=
  match (lib.parseIP value).bind geo.lookup with
  | some coords => geo.haversine client coords
  | none => ⊤

def sortRecordValuesByDistance [LT δ] [DecidableLT δ] (lib : Library IP)
    (geo : GeoIP IP Coordinates δ) (client : Coordinates) (record : DNSRecord) : DNSRecord :=
  if record.recordType ≠ "A" ∧ record.recordType ≠ "AAAA" then record
  else
    let values := splitValues record.valuesJSON
    if values.length ≤ 1 then record
    else
      let entries := values.map fun value => (value, valueDistance lib geo client value)
      let sorted := entries.insertionSort fun a b => ¬ b.2 < a.2
      { record with valuesJSON := Go.join (sorted.map Prod.fst) ',' }

/-- The records are sorted if the client can be located. -/
def applyGeoSort [LT δ] [DecidableLT δ] (lib : Library IP) (geo : GeoIP IP Coordinates δ)
    (clientIP : Option IP) (records : List DNSRecord) : List DNSRecord :=
  match clientIP.bind geo.lookup with
  | some client => records.map (sortRecordValuesByDistance lib geo client)
  | none => records

/-! ## Writing the values back -/

/-- A text that `splitValues` takes for one value, whatever stands before
and after its commas. -/
def PlainText (s : String) : Prop :=
  s ≠ "" ∧ ∀ c ∈ s.toList, c ≠ ',' ∧ c ≠ '"' ∧ c ≠ '[' ∧ Go.isSpace c = false

theorem Net.plainText (net : Net IP) {s : String} {ip : IP} (h : net.parseIP s = some ip) :
    PlainText s := by
  obtain ⟨hne, hchars⟩ := net.parseIP_text s ip h
  refine ⟨hne, fun c hc => ?_⟩
  rcases hchars c hc with halpha | rfl | rfl
  · refine ⟨?_, ?_, ?_, isSpace_of_alphabet (Or.inl halpha)⟩ <;>
      · rintro rfl
        exact absurd halpha (by decide)
  · decide
  · decide

theorem PlainText.oneValue {s : String} (h : PlainText s) : OneValue s where
  nonempty := h.1
  plain c hc := ⟨(h.2 c hc).1, (h.2 c hc).2.2.1⟩
  first c hc := (h.2 c (mem_of_mem_head? hc)).2.imp_right And.right
  last c hc := (h.2 c (mem_of_mem_getLast? hc)).2.imp_right And.right

/-! ## The order of the values -/

def located (lib : Library IP) (geo : GeoIP IP Coordinates δ) (value : String) : Bool :=
  ((lib.parseIP value).bind geo.lookup).isSome

/-- Nearest first, equal distances as they were, and what cannot be
located last. -/
structure GeoOrder [Preorder δ] (lib : Library IP) (geo : GeoIP IP Coordinates δ)
    (client : Coordinates) (values values' : List String) : Prop
    extends StablySorted (valueDistance lib geo client) values values' where
  last : values'
    = values'.filter (located lib geo) ++ values.filter fun value => !located lib geo value

variable {lib : Library IP} {geo : GeoIP IP Coordinates δ} {client : Coordinates}

theorem valueDistance_eq_top_iff {value : String} :
    valueDistance lib geo client value = ⊤ ↔ located lib geo value = false := by
  unfold valueDistance located
  cases (lib.parseIP value).bind geo.lookup with
  | none => simp
  | some coords => simp

theorem StablySorted.geoOrder [Preorder δ] {values values' : List String}
    (h : StablySorted (valueDistance lib geo client) values values') :
    GeoOrder lib geo client values values' := by
  refine ⟨h, ?_⟩
  have hsame : values'.filter (fun value => !located lib geo value)
      = values.filter fun value => !located lib geo value := by
    refine h.stable _ fun a b _ hb => ?_
    have htop : valueDistance lib geo client b = ⊤ :=
      valueDistance_eq_top_iff.mpr (by simpa using hb)
    rw [htop]
    exact le_top
  rw [← hsame]
  have hsorted := h.sorted
  clear h hsame
  induction values' with
  | nil => rfl
  | cons a l ih =>
    rw [pairwise_cons] at hsorted
    cases ha : located lib geo a with
    | true =>
      rw [filter_cons_of_pos ha, filter_cons_of_neg (by simp [ha])]
      exact congrArg (a :: ·) (ih hsorted.2)
    | false =>
      -- after an address that cannot be located there are only such
      have hrest : ∀ b ∈ l, located lib geo b = false := by
        intro b hb
        have hle := hsorted.1 b hb
        rw [valueDistance_eq_top_iff.mpr ha, WithTop.top_le_iff] at hle
        exact valueDistance_eq_top_iff.mp hle
      rw [filter_cons_of_neg (by simp [ha]), filter_cons_of_pos (by simp [ha]),
        filter_eq_nil_iff.mpr (fun b hb => by simp [hrest b hb]), nil_append,
        filter_eq_self.mpr fun b hb => by simp [hrest b hb]]

/-! ## The answers -/

theorem valueRR_valuesJSON (lib : Library IP) (types : TypeNames) (record : DNSRecord)
    (text : String) :
    valueRR lib types { record with valuesJSON := text } = valueRR lib types record := by
  funext value
  simp only [valueRR, header]

theorem parseIP_of_valueRR {types : TypeNames} {record : DNSRecord} {value : String} {rr : RR IP}
    (htype : record.recordType = "A" ∨ record.recordType = "AAAA")
    (h : valueRR lib types record value = .ok rr) : ∃ ip, lib.parseIP value = some ip := by
  have hnormal : normalizeRecordType types record.recordType = record.recordType
      ∨ normalizeRecordType types record.recordType = "" := by
    have hupper : Go.toUpper (Go.trimSpace record.recordType) = record.recordType := by
      rcases htype with h | h <;> rw [h] <;> decide +kernel
    rw [normalizeRecordType, hupper]
    split
    · exact Or.inr rfl
    · split
      · exact Or.inl rfl
      · exact Or.inr rfl
  rcases hnormal with hnormal | hnormal
  · cases hip : lib.parseIP value with
    | some ip => exact ⟨ip, rfl⟩
    | none =>
      rcases htype with htype | htype
      · rw [valueRR_a lib value (hnormal.trans htype), hip] at h
        cases h
      · rw [valueRR_aaaa lib value (hnormal.trans htype), hip] at h
        cases h
  · rw [valueRR_unsupported lib value hnormal] at h
    cases h

/-- What is rendered from `record'` are the answers of `record` in the
order of the distances. -/
def Reordered [Preorder δ] (lib : Library IP) (types : TypeNames) (geo : GeoIP IP Coordinates δ)
    (client : Coordinates) (record record' : DNSRecord) : Prop :=
  ∀ rrs, toRR lib types record = .ok rrs →
    ∃ rrs' values', toRR lib types record' = .ok rrs' ∧ rrs'.Perm rrs
      ∧ GeoOrder lib geo client (splitValues record.valuesJSON) values'
      ∧ List.Forall₂ (fun value rr => valueRR lib types record value = .ok rr) values' rrs'

section Sorting

variable [Preorder δ] [DecidableLT δ]

theorem map_fst_insertionSort (dist : String → WithTop δ) (values : List String) :
    (((values.map fun value => (value, dist value)).insertionSort
        fun a b => ¬ b.2 < a.2).map Prod.fst)
      = values.insertionSort fun a b => ¬ dist b < dist a := by
  rw [← map_insertionSort (fun a b => ¬ dist b < dist a) (fun a b => ¬ b.2 < a.2)
    (fun value => (value, dist value)) values fun a _ b _ => Iff.rfl, map_map]
  exact map_id _

variable [@Std.Total δ (· ≤ ·)]

theorem reordered_sortRecordValuesByDistance (net : Net IP) (types : TypeNames)
    (geo : GeoIP IP Coordinates δ) (client : Coordinates) {record : DNSRecord}
    (htype : record.recordType = "A" ∨ record.recordType = "AAAA") :
    Reordered net.toLibrary types geo client record
      (sortRecordValuesByDistance net.toLibrary geo client record) := by
  intro rrs hrrs
  have hrendered := forall₂_of_toRR hrrs
  have hdist : ¬ (record.recordType ≠ "A" ∧ record.recordType ≠ "AAAA") := by
    rintro ⟨ha, haaaa⟩
    exact htype.elim ha haaaa
  rw [sortRecordValuesByDistance, if_neg hdist]
  dsimp only
  split
  · rename_i hshort
    exact ⟨rrs, _, hrrs, .refl _, (StablySorted.refl hshort).geoOrder, hrendered⟩
  · rename_i hlong
    rw [map_fst_insertionSort]
    have hsorted : StablySorted (valueDistance net.toLibrary geo client)
        (splitValues record.valuesJSON) _ := stablySorted_insertionSort _
    generalize ((splitValues record.valuesJSON).insertionSort fun a b =>
      ¬ valueDistance net.toLibrary geo client b < valueDistance net.toLibrary geo client a)
      = values' at hsorted ⊢
    have hvalue : ∀ v ∈ values', ∃ rr, valueRR net.toLibrary types record v = .ok rr := by
      intro v hv
      obtain ⟨rr, -, hrr⟩ := exists_of_mem_forall₂ hrendered (hsorted.perm.mem_iff.mp hv)
      exact ⟨rr, hrr⟩
    have hplain : ∀ v ∈ values', PlainText v := by
      intro v hv
      obtain ⟨rr, hrr⟩ := hvalue v hv
      obtain ⟨ip, hip⟩ := parseIP_of_valueRR htype hrr
      exact net.plainText hip
    have hne : values' ≠ [] := by
      rintro rfl
      rw [← hsorted.perm.length_eq] at hlong
      exact hlong (Nat.zero_le 1)
    obtain ⟨rrs', hrrs', hall⟩ := exists_mapM_eq_ok hvalue
    refine ⟨rrs', values', ?_, ?_, hsorted.geoOrder, hall⟩
    · rw [toRR, splitValues_join hne fun v hv => (hplain v hv).oneValue, valueRR_valuesJSON, hrrs']
    · have hperm := hsorted.perm.map (valueRR net.toLibrary types record)
      rw [map_ok_of_forall₂ hall, map_ok_of_forall₂ hrendered] at hperm
      have hanswers := hperm.filterMap Except.toOption
      rw [filterMap_map, filterMap_map] at hanswers
      simpa [Function.comp_def, Except.toOption] using hanswers

/-- Sorting the records of an answer only reorders what they render. -/
theorem geoSort_reorders (net : Net IP) (types : TypeNames) (geo : GeoIP IP Coordinates δ)
    (client : Coordinates) (records : List DNSRecord)
    (htype : ∀ r ∈ records, r.recordType = "A" ∨ r.recordType = "AAAA") :
    List.Forall₂ (Reordered net.toLibrary types geo client) records
      (records.map (sortRecordValuesByDistance net.toLibrary geo client)) := by
  rw [forall₂_map_right_iff]
  exact forall₂_same.mpr fun r hr =>
    reordered_sortRecordValuesByDistance net types geo client (htype r hr)

end Sorting

def exampleNet : Net String where
  parseIP s := if s ∈ ["192.0.2.1", "192.0.2.2", "192.0.2.3"] then some s else none
  to4 := some
  stringToType t := if t = "A" then 1 else 0
  parseIP_text s ip h := by
    have hall : ["192.0.2.1", "192.0.2.2", "192.0.2.3"].all (fun s => decide (s ≠ "")
        && s.toList.all fun c => c.isAlphanum || c == '.' || c == ':') = true := by decide
    split at h
    · rename_i hmem
      have hs := all_eq_true.mp hall s hmem
      simp only [Bool.and_eq_true, decide_eq_true_eq, all_eq_true, Bool.or_eq_true,
        beq_iff_eq, or_assoc] at hs
      exact hs
    · cases h

def exampleGeo : GeoIP String Nat Nat where
  lookup ip := if ip = "192.0.2.1" then some 9 else if ip = "192.0.2.2" then some 4 else none
  haversine a b := b - a

def exampleAddresses : DNSRecord :=
  { id := "a", fqdn := "www.example.test", recordType := "A"
    valuesJSON := "[\"192.0.2.3\",\"192.0.2.1\",\"192.0.2.2\"]" }

theorem geoSort_reorders_addresses :
    (toRR exampleNet.toLibrary commonTypes exampleAddresses).isOk = true
      ∧ (sortRecordValuesByDistance exampleNet.toLibrary exampleGeo 0 exampleAddresses).valuesJSON
        = "192.0.2.2,192.0.2.1,192.0.2.3"
      ∧ List.Forall₂ (Reordered exampleNet.toLibrary commonTypes exampleGeo 0) [exampleAddresses]
        [sortRecordValuesByDistance exampleNet.toLibrary exampleGeo 0 exampleAddresses] :=
  ⟨by decide +kernel, by decide +kernel,
    geoSort_reorders exampleNet commonTypes exampleGeo 0 [exampleAddresses] (by decide +kernel)⟩

end DNS

end LunaEdge
