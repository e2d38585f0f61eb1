import LunaEdge.DnsParsers
import LunaEdge.DnsValues
import LunaEdge.Fallible

/-!
# Numbers in DNS records

`toRR` reads the numbers of MX, SRV and CAA values with `strconv.Atoi` and
converts them to 16 or 8 bits; the parsers of `DnsDomainRecord` objects
convert a TTL to 32 bits. `Atoi` rejects what does not fit 64 bits, and
nothing else is rejected: the numbers of a record whose values have the
parts and literals of its type are exact exactly if they fit the narrower
types (`numbers_exact_iff`).

`literal` is the mathematical value of a text, without any bound.
-/

namespace LunaEdge

open List

namespace DNS

/-! ## Literals -/

def digitsFrom (n : Nat) (cs : List Char) : Nat :=
  cs.foldl (fun n c => n * 10 + (c.toNat - '0'.toNat)) n

/-- The value of an integer literal: digits, with or without a sign. -/
def literal (s : String) : Option Int :=
  let negative := s.toList.head? = some '-'
  let digits := if negative ∨ s.toList.head? = some '+' then s.toList.tail else s.toList
  if digits = [] ∨ ¬ digits.all Char.isDigit then none
  else some (if negative then -(digitsFrom 0 digits : Int) else digitsFrom 0 digits)

theorem parseDigits_eq_ok {n m : Nat} {cs : List Char} (h : Go.parseDigits n cs = .ok m) :
    cs.all Char.isDigit = true ∧ m = digitsFrom n cs := by
  induction cs generalizing n with
  | nil => exact ⟨rfl, (Except.ok.inj h).symm⟩
  | cons c cs ih =>
    rw [Go.parseDigits] at h
    split at h
    · cases h
    · rename_i hdigit
      split at h
      · cases h
      · obtain ⟨hall, hm⟩ := ih h
        rw [all_cons, hall, Bool.and_true]
        exact ⟨by simpa using hdigit, hm⟩

theorem literal_of_atoi {s : String} {n : Int} (h : Go.atoi s = .ok n) : literal s = some n := by
  unfold Go.atoi at h
  unfold literal
  dsimp only at h ⊢
  generalize (if s.toList.head? = some '-' ∨ s.toList.head? = some '+' then s.toList.tail
    else s.toList) = digits at h ⊢
  by_cases hempty : digits = []
  · rw [if_pos hempty] at h
    cases h
  · rw [if_neg hempty] at h
    cases hdigits : Go.parseDigits 0 digits with
    | error e =>
      rw [hdigits] at h
      cases h
    | ok m =>
      obtain ⟨hall, rfl⟩ := parseDigits_eq_ok hdigits
      rw [hdigits] at h
      simp only [bind, Except.bind] at h
      rw [if_neg (by simp [hempty, hall])]
      by_cases hneg : s.toList.head? = some '-'
      · rw [if_pos hneg] at h ⊢
        split at h
        · cases h
        · exact congrArg some (Except.ok.inj h)
      · rw [if_neg hneg] at h ⊢
        split at h
        · cases h
        · exact congrArg some (Except.ok.inj h)

/-! ## Narrowing -/

/-- `m` is the number of a literal, converted to an unsigned type. -/
def Narrowed (size : Nat) (text : String) (m : Nat) : Prop :=
  ∃ n, literal text = some n ∧ m = (n % size).toNat

theorem narrowed_of_number {size : Nat} {part : String} {m : Nat} (h : number size part = .ok m) :
    Narrowed size part m := by
  unfold number at h
  split at h
  · rename_i n hatoi
    exact ⟨n, literal_of_atoi hatoi, (Except.ok.inj h).symm⟩
  · cases h

def Fits (size : Nat) (text : String) : Prop := ∀ n, literal text = some n → 0 ≤ n ∧ n < size

/-- Narrowing is exact for the literals that fit, and only for them. -/
theorem Narrowed.exact_iff {size : Nat} (hsize : 0 < size) {text : String} {m : Nat}
    (h : Narrowed size text m) : some (m : Int) = literal text ↔ Fits size text := by
  obtain ⟨n, hn, rfl⟩ := h
  have hpos : (0 : Int) < size := by omega
  have hmod := Int.emod_nonneg n (show (size : Int) ≠ 0 by omega)
  have hlt := Int.emod_lt_of_pos n hpos
  rw [hn, Option.some.injEq, Int.toNat_of_nonneg hmod]
  constructor
  · intro heq n' hn'
    obtain rfl := Option.some.inj (hn.symm.trans hn')
    omega
  · intro hfits
    obtain ⟨hlow, hhigh⟩ := hfits n hn
    exact Int.emod_eq_of_lt hlow hhigh

theorem forall₂_narrowed_exact_iff {size : Nat} (hsize : 0 < size) {texts : List String}
    {numbers : List Nat} (h : List.Forall₂ (Narrowed size) texts numbers) :
    numbers.map (fun m : Nat => some (m : Int)) = texts.map literal ↔ ∀ text ∈ texts, Fits size text := by
  induction h with
  | nil => simp
  | cons h _ ih => rw [map_cons, map_cons, List.cons.injEq, h.exact_iff hsize, ih, forall_mem_cons]

/-! ## The numbers of a record -/

variable {IP : Type}

def RR.numbers : RR IP → List Nat
  | .mx _ preference _ => [preference]
  | .srv _ priority weight port _ => [priority, weight, port]
  | .caa _ flag _ _ => [flag]
  | _ => []

def numberTexts (recordType value : String) : List String :=
  if recordType = "MX" then ((Go.splitN value ' ' 2).take 1).map Go.trimSpace
  else if recordType = "SRV" then (Go.fields value).take 3
  else if recordType = "CAA" then ((Go.splitN value ' ' 3).take 1).map Go.trimSpace
  else []

def numberSize (recordType : String) : Nat :=
  if recordType = "CAA" then UInt8.size else UInt16.size

theorem numberSize_pos (recordType : String) : 0 < numberSize recordType := by
  unfold numberSize
  split <;> decide

variable {lib : Library IP} {record : DNSRecord} {types : TypeNames}

theorem numbers_of_valueRR {value : String} {rr : RR IP}
    (h : valueRR lib types record value = .ok rr) :
    List.Forall₂ (Narrowed (numberSize (normalizeRecordType types record.recordType)))
      (numberTexts (normalizeRecordType types record.recordType) value) rr.numbers := by
  cases rendered_of_valueRR h with
  | a htype _ | aaaa htype _ | cname htype | txt htype | ns htype =>
    simp [htype, numberTexts, RR.numbers]
  | mx htype hparts hn =>
    simp only [htype, numberTexts, if_true, hparts, take_succ_cons, take_zero,
      map_cons, map_nil, RR.numbers]
    exact .cons (narrowed_of_number hn) .nil
  | srv htype hfields hp hw hq =>
    simp only [htype, numberTexts, numberSize, String.reduceEq, if_true, if_false, hfields,
      take_succ_cons, take_zero, RR.numbers]
    exact .cons (narrowed_of_number hp) (.cons (narrowed_of_number hw)
      (.cons (narrowed_of_number hq) .nil))
  | caa htype hparts hn =>
    simp only [htype, numberTexts, numberSize, String.reduceEq, if_true, if_false, hparts,
      take_succ_cons, take_zero, map_cons, map_nil, RR.numbers]
    exact .cons (narrowed_of_number hn) .nil

theorem forall₂_of_toRR {rrs : List (RR IP)} (h : toRR lib types record = .ok rrs) :
    List.Forall₂ (fun value rr => valueRR lib types record value = .ok rr)
      (splitValues record.valuesJSON) rrs :=
  forall₂_of_mapM_eq_ok h

/-- The numbers of a resource record are the literals of its value. -/
def ExactValue (types : TypeNames) (record : DNSRecord) (value : String) (rr : RR IP) : Prop :=
  rr.numbers.map (fun n : Nat => some (n : Int))
    = (numberTexts (normalizeRecordType types record.recordType) value).map literal

/-- The literals of a value fit the types they are converted to. -/
def FittingValue (types : TypeNames) (record : DNSRecord) (value : String) : Prop :=
  ∀ text ∈ numberTexts (normalizeRecordType types record.recordType) value,
    Fits (numberSize (normalizeRecordType types record.recordType)) text

theorem forall₂_exactValue_iff {values : List String} {rrs : List (RR IP)}
    (h : List.Forall₂ (fun value rr => valueRR lib types record value = .ok rr) values rrs) :
    List.Forall₂ (ExactValue types record) values rrs
      ↔ ∀ value ∈ values, FittingValue types record value := by
  induction h with
  | nil => simp
  | cons h _ ih =>
    rw [forall₂_cons, ih, forall_mem_cons, ExactValue,
      forall₂_narrowed_exact_iff (numberSize_pos _) (numbers_of_valueRR h)]
    rfl

/-- An error, or the literals exactly. -/
def ExactNumbers (lib : Library IP) (types : TypeNames) (record : DNSRecord) : Prop :=
  ∀ rrs, toRR lib types record = .ok rrs →
    List.Forall₂ (ExactValue types record) (splitValues record.valuesJSON) rrs

/-- A value with the parts of its type and numbers that `Atoi` accepts. -/
def ValueForm (recordType value : String) : Prop :=
  (recordType = "MX" → (Go.splitN value ' ' 2).length = 2)
    ∧ (recordType = "SRV" → (Go.fields value).length = 4)
    ∧ (recordType = "CAA" → (Go.splitN value ' ' 3).length = 3)
    ∧ ∀ text ∈ numberTexts recordType value, ∃ n, Go.atoi text = .ok n

/-- A value of another form, or no literal out of range. -/
def FittingNumbers (types : TypeNames) (record : DNSRecord) : Prop :=
  (∀ value ∈ splitValues record.valuesJSON,
      ValueForm (normalizeRecordType types record.recordType) value) →
    ∀ value ∈ splitValues record.valuesJSON, FittingValue types record value

theorem number_eq_ok_iff {size : Nat} {part : String} :
    (∃ m, number size part = .ok m) ↔ ∃ n, Go.atoi part = .ok n := by
  rw [number]
  cases Go.atoi part <;> simp

theorem valueForm_of_valueRR {value : String} {rr : RR IP}
    (h : valueRR lib types record value = .ok rr) :
    ValueForm (normalizeRecordType types record.recordType) value := by
  have hatoi : ∀ {size part m}, number size part = .ok m → ∃ n, Go.atoi part = .ok n :=
    fun hm => number_eq_ok_iff.mp ⟨_, hm⟩
  cases rendered_of_valueRR h with
  | a htype _ | aaaa htype _ | cname htype | txt htype | ns htype =>
    simp [htype, ValueForm, numberTexts]
  | mx htype hparts hn => simp [htype, ValueForm, numberTexts, hparts, hatoi hn]
  | srv htype hfields hp hw hq =>
    simp [htype, ValueForm, numberTexts, hfields, hatoi hp, hatoi hw, hatoi hq]
  | caa htype hparts hn => simp [htype, ValueForm, numberTexts, hparts, hatoi hn]

theorem exists_valueRR_of_valueForm {value : String}
    (htype : normalizeRecordType types record.recordType ∈ ["MX", "SRV", "CAA"])
    (h : ValueForm (normalizeRecordType types record.recordType) value) :
    ∃ rr, valueRR lib types record value = .ok rr := by
  obtain ⟨hmx, hsrv, hcaa, hatoi⟩ := h
  have hnumber : ∀ size, ∀ text ∈ numberTexts _ value, ∃ m, number size text = .ok m :=
    fun size text htext => number_eq_ok_iff.mpr (hatoi text htext)
  rw [mem_cons, mem_cons, mem_singleton] at htype
  rcases htype with htype | htype | htype
  · obtain ⟨preference, target, hparts⟩ := length_eq_two.mp (hmx htype)
    simp only [htype, numberTexts, if_true, hparts] at hnumber
    obtain ⟨n, hn⟩ := hnumber UInt16.size _ mem_cons_self
    exact ⟨_, valueRR_mx lib value htype hparts hn⟩
  · obtain ⟨priority, weight, port, target, hfields⟩ :
        ∃ a b c d, Go.fields value = [a, b, c, d] := by
      match hfields : Go.fields value, hsrv htype with
      | [a, b, c, d], _ => exact ⟨a, b, c, d, rfl⟩
    simp only [htype, numberTexts, String.reduceEq, if_true, if_false, hfields] at hnumber
    obtain ⟨p, hp⟩ := hnumber UInt16.size priority (by simp)
    obtain ⟨w, hw⟩ := hnumber UInt16.size weight (by simp)
    obtain ⟨q, hq⟩ := hnumber UInt16.size port (by simp)
    exact ⟨_, valueRR_srv lib value htype hfields hp hw hq⟩
  · obtain ⟨flag, tag, text, hparts⟩ := length_eq_three.mp (hcaa htype)
    simp only [htype, numberTexts, String.reduceEq, if_true, if_false, hparts] at hnumber
    obtain ⟨n, hn⟩ := hnumber UInt8.size _ mem_cons_self
    exact ⟨_, valueRR_caa lib value htype hparts hn⟩

theorem exactNumbers_iff : ExactNumbers lib types record ↔ FittingNumbers types record := by
  constructor
  · intro h hform
    by_cases htype : normalizeRecordType types record.recordType ∈ ["MX", "SRV", "CAA"]
    · obtain ⟨rrs, hrrs, hall⟩ := exists_mapM_eq_ok (f := valueRR lib types record) fun value hvalue =>
        exists_valueRR_of_valueForm htype (hform value hvalue)
      exact (forall₂_exactValue_iff hall).mp (h rrs hrrs)
    · intro value _ text htext
      simp only [mem_cons, not_mem_nil, or_false, not_or] at htype
      simp only [numberTexts, htype, if_false] at htext
      cases htext
  · intro h rrs hrrs
    have hall := forall₂_of_toRR hrrs
    refine (forall₂_exactValue_iff hall).mpr (h fun value hvalue => ?_)
    obtain ⟨rr, -, hrr⟩ := exists_of_mem_forall₂ hall hvalue
    exact valueForm_of_valueRR hrr

open DNSBridge

/-- A parser of items that keeps the TTLs it takes from the object. -/
def ExactTTL (parse : Option RecordItem × Nat → Option DNSRecord) (item : RecordItem) (idx : Nat) :
    Prop :=
  ∀ r, parse (some item, idx) = some r → ∀ ttl, item.ttl = some ttl → 0 ≤ ttl →
    (r.ttlSeconds : Int) = ttl

/-- An item that is not kept, or without a TTL of its own, or with one that
fits. -/
def FittingTTL (normalizeType : String → String) (item : RecordItem) : Prop :=
  normalizeType item.type ≠ "" → HasValues item →
    ∀ ttl, item.ttl = some ttl → 0 ≤ ttl → ttl < UInt32.size

theorem recordTTL_eq_iff {ttl : Int} (httl : 0 ≤ ttl) :
    (recordTTL (some ttl) : Int) = ttl ↔ ttl < UInt32.size := by
  have hsize : UInt32.size = 4294967296 := rfl
  rw [recordTTL, if_pos httl, hsize]
  omega

theorem exactTTL_parseRecordWith_iff (normalizeType : String → String)
    (joinName : String → String → String) (routingClass : String)
    (marshal : List String → String) (domainID domain : String) (item : RecordItem) (idx : Nat) :
    ExactTTL (parseRecordWith normalizeType joinName routingClass marshal domainID domain) item idx
      ↔ FittingTTL normalizeType item := by
  rw [ExactTTL, FittingTTL, HasValues, parseRecordWith, Option.bind_some]
  by_cases hdropped : normalizeType item.type = "" ∨ compactStrings item.values = []
  · simp only [if_pos hdropped]
    exact iff_of_true nofun fun htype hvalues => absurd hdropped (not_or.mpr ⟨htype, hvalues⟩)
  · obtain ⟨htype, hvalues⟩ := not_or.mp hdropped
    simp only [if_neg hdropped, Option.some.injEq, forall_eq', ne_eq, forall_prop_of_true htype,
      forall_prop_of_true hvalues]
    refine forall₂_congr fun ttl httl => forall_congr' fun hpos => ?_
    rw [httl]
    exact recordTTL_eq_iff hpos

/-- A record whose TTL of 2^32 has become 0. -/
theorem not_exactTTL_of_zero {parse : Option RecordItem × Nat → Option DNSRecord}
    {item : RecordItem} {idx : Nat} (httl : item.ttl = some 4294967296)
    (hzero : (parse (some item, idx)).map (·.ttlSeconds) = some 0) :
    ¬ ExactTTL parse item idx := by
  intro h
  obtain ⟨r, hr, hr0⟩ := Option.map_eq_some_iff.mp hzero
  have hexact := h r hr 4294967296 httl (by decide)
  rw [hr0] at hexact
  exact absurd hexact (by decide)

/-- The numbers of a record of the right form, and the TTL of an item that is
kept, are exact exactly if they fit the types they are converted to. -/
theorem numbers_exact_iff (lib : Library IP) (types : TypeNames) (record : DNSRecord)
    (marshal : List String → String) (domainID domain : String) (item : RecordItem) (idx : Nat) :
    (ExactNumbers lib types record ↔ FittingNumbers types record)
      ∧ (ExactTTL (DNSBridge.parseRecord marshal domainID domain) item idx
          ↔ FittingTTL DNSBridge.normalizeRecordType item)
      ∧ (ExactTTL (parseRecord types marshal domainID domain) item idx
          ↔ FittingTTL (normalizeRecordType types) item) := by
  refine ⟨exactNumbers_iff, ?_, ?_⟩
  · rw [DNSBridge.parseRecord_eq]
    exact exactTTL_parseRecordWith_iff ..
  · rw [parseRecord_eq]
    exact exactTTL_parseRecordWith_iff ..

/-- A preference that wraps to 0, a priority that wraps to 65535, a flag
that wraps to 1, and a TTL that wraps to 0. -/
theorem numbers_wrap :
    toRR textLibrary someTypes.toTypeNames
        { id := "mx", recordType := "MX", valuesJSON := "[\"65536 mail.test\"]" }
        = .ok [.mx ⟨"", 0, 0⟩ 0 "mail.test."]
      ∧ toRR textLibrary someTypes.toTypeNames
        { id := "srv", recordType := "SRV", valuesJSON := "[\"-1 0 443 host.test\"]" }
        = .ok [.srv ⟨"", 0, 0⟩ 65535 0 443 "host.test."]
      ∧ toRR textLibrary someTypes.toTypeNames
        { id := "caa", recordType := "CAA", valuesJSON := "[\"257 issue ca.test\"]" }
        = .ok [.caa ⟨"", 0, 0⟩ 1 "issue" "ca.test"]
      ∧ ¬ ExactNumbers textLibrary someTypes.toTypeNames
        { id := "mx", recordType := "MX", valuesJSON := "[\"65536 mail.test\"]" }
      ∧ ¬ ExactTTL (DNSBridge.parseRecord exampleMarshal "k8s:default:zone" "example.test")
        { type := "A", values := ["192.0.2.1"], ttl := some 4294967296 } 0
      ∧ ¬ ExactTTL (parseRecord someTypes.toTypeNames exampleMarshal "k8s:default:zone"
          "example.test")
        { type := "A", values := ["192.0.2.1"], ttl := some 4294967296 } 0 := by
  refine ⟨by decide +kernel, by decide +kernel, by decide +kernel, fun h => ?_,
    not_exactTTL_of_zero rfl (by decide +kernel), not_exactTTL_of_zero rfl (by decide +kernel)⟩
  have hvalues : splitValues "[\"65536 mail.test\"]" = ["65536 mail.test"] := by decide +kernel
  have hexact := h [.mx ⟨"", 0, 0⟩ 0 "mail.test."] (by decide +kernel)
  rw [hvalues, forall₂_cons, ExactValue] at hexact
  exact absurd hexact.1 (by decide +kernel)

end DNS

end LunaEdge
