import LunaEdge.DnsStore
import LunaEdge.Fallible
import LunaEdge.JsonText

/-!
# The values of a DNS record

A record stores its values as a JSON array, and `toRR` reads them back
with `splitValues`, which is no JSON reader: it drops the brackets, splits
at every comma and strips the quotes.

Values survive exactly if none has a comma and the array is written with
every character as itself and no white space inside the brackets
(`survives_iff`). The proof goes element by element: what `splitValues`
makes of one element is the value, or its body with something left over
from the quotes, the escapes or the white space (`partValue_element`).
-/

namespace LunaEdge

open List

namespace DNS

/-! ## Reading the values -/

def partValue (part : String) : String := Go.trimSpace (Go.trim part "\"")

def splitValues (values : String) : List String :=
  let raw := Go.trimSpace values
  if raw = "" then []
  else
    let raw := if Go.contains raw "[" then Go.trimSuffix (Go.trimPrefix raw "[") "]" else raw
    ((Go.split raw ',').map partValue).filter fun part => part ≠ ""

/-! ## Resource records -/

/-- `mdns.RR_Header`; the class is always `mdns.ClassINET`. -/
structure Header where
  name : String
  rrtype : Nat
  ttl : Nat
deriving Repr, DecidableEq

inductive RR (IP : Type) where
  | a (hdr : Header) (a : IP)
  | aaaa (hdr : Header) (aaaa : IP)
  | cname (hdr : Header) (target : String)
  | txt (hdr : Header) (txt : List String)
  | ns (hdr : Header) (ns : String)
  | mx (hdr : Header) (preference : Nat) (mx : String)
  | srv (hdr : Header) (priority weight port : Nat) (target : String)
  | caa (hdr : Header) (flag : Nat) (tag value : String)
deriving Repr, DecidableEq

inductive RRError where
  /-- `invalid A record value %q`, and the same for the other types -/
  | invalidValue (recordType value : String)
  /-- `invalid MX preference %q` -/
  | invalidPreference (part : String)
  /-- the error of `strconv.Atoi` -/
  | number (part : String) (err : Go.NumError)
  /-- `unsupported record type %q` -/
  | unsupported (recordType : String)
deriving Repr, DecidableEq

/-- What `toRR` takes from `net` and `mdns`. -/
structure Library (IP : Type) where
  parseIP : String → Option IP
  to4 : IP → Option IP
  /-- `mdns.StringToType`, 0 for other names -/
  stringToType : String → Nat

variable {IP : Type}

def header (lib : Library IP) (types : TypeNames) (record : DNSRecord) : Header where
  name := normalizeFQDN record.fqdn
  rrtype := lib.stringToType (normalizeRecordType types record.recordType)
  ttl := record.ttlSeconds

/-- A number of `strconv.Atoi`, converted to an unsigned type. -/
def number (size : Nat) (part : String) : Except RRError Nat :=
  match Go.atoi part with
  | .ok n => .ok (n % size).toNat
  | .error err => .error (.number part err)

def valueRR (lib : Library IP) (types : TypeNames) (record : DNSRecord) (value : String) :
    Except RRError (RR IP) :=
  let hdr := header lib types record
  match normalizeRecordType types record.recordType with
  | "A" =>
    match (lib.parseIP value).bind lib.to4 with
    | some ip => .ok (.a hdr ip)
    | none => .error (.invalidValue "A" value)
  | "AAAA" =>
    match lib.parseIP value with
    | some ip => .ok (.aaaa hdr ip)
    | none => .error (.invalidValue "AAAA" value)
  | "CNAME" => .ok (.cname hdr (normalizeFQDN value))
  | "TXT" => .ok (.txt hdr [value])
  | "NS" => .ok (.ns hdr (normalizeFQDN value))
  | "MX" =>
    match Go.splitN value ' ' 2 with
    | [preference, mx] =>
      match number UInt16.size (Go.trimSpace preference) with
      | .ok n => .ok (.mx hdr n (normalizeFQDN mx))
      | .error _ => .error (.invalidPreference preference)
    | _ => .error (.invalidValue "MX" value)
  | "SRV" =>
    match Go.fields value with
    | [priority, weight, port, target] => do
      let priority ← number UInt16.size priority
      let weight ← number UInt16.size weight
      let port ← number UInt16.size port
      return .srv hdr priority weight port (normalizeFQDN target)
    | _ => .error (.invalidValue "SRV" value)
  | "CAA" =>
    match Go.splitN value ' ' 3 with
    | [flag, tag, text] => do
      let flag ← number UInt8.size (Go.trimSpace flag)
      return .caa hdr flag (Go.trimSpace tag) (Go.trim (Go.trimSpace text) "\"")
    | _ => .error (.invalidValue "CAA" value)
  | _ => .error (.unsupported record.recordType)

def toRR (lib : Library IP) (types : TypeNames) (record : DNSRecord) :
    Except RRError (List (RR IP)) :=
  (splitValues record.valuesJSON).mapM (valueRR lib types record)

section Equations

variable (lib : Library IP) {types : TypeNames} {record : DNSRecord} (value : String)

theorem valueRR_a (h : normalizeRecordType types record.recordType = "A") :
    valueRR lib types record value
      = ((lib.parseIP value).bind lib.to4).elim (.error (.invalidValue "A" value))
          fun ip => .ok (.a (header lib types record) ip) := by
  rw [valueRR, h]
  cases (lib.parseIP value).bind lib.to4 <;> rfl

theorem valueRR_aaaa (h : normalizeRecordType types record.recordType = "AAAA") :
    valueRR lib types record value
      = (lib.parseIP value).elim (.error (.invalidValue "AAAA" value))
          fun ip => .ok (.aaaa (header lib types record) ip) := by
  rw [valueRR, h]
  cases lib.parseIP value <;> rfl

theorem valueRR_txt (h : normalizeRecordType types record.recordType = "TXT") :
    valueRR lib types record value = .ok (.txt (header lib types record) [value]) := by
  rw [valueRR, h]
  rfl

theorem valueRR_mx (h : normalizeRecordType types record.recordType = "MX")
    {preference mx : String} {n : Nat} (hparts : Go.splitN value ' ' 2 = [preference, mx])
    (hn : number UInt16.size (Go.trimSpace preference) = .ok n) :
    valueRR lib types record value = .ok (.mx (header lib types record) n (normalizeFQDN mx)) := by
  simp only [valueRR, h, hparts, hn]

theorem valueRR_srv (h : normalizeRecordType types record.recordType = "SRV")
    {priority weight port target : String} {p w q : Nat}
    (hfields : Go.fields value = [priority, weight, port, target])
    (hp : number UInt16.size priority = .ok p) (hw : number UInt16.size weight = .ok w)
    (hq : number UInt16.size port = .ok q) :
    valueRR lib types record value
      = .ok (.srv (header lib types record) p w q (normalizeFQDN target)) := by
  simp only [valueRR, h, hfields, hp, hw, hq]
  rfl

theorem valueRR_caa (h : normalizeRecordType types record.recordType = "CAA")
    {flag tag text : String} {n : Nat} (hparts : Go.splitN value ' ' 3 = [flag, tag, text])
    (hn : number UInt8.size (Go.trimSpace flag) = .ok n) :
    valueRR lib types record value
      = .ok (.caa (header lib types record) n (Go.trimSpace tag)
          (Go.trim (Go.trimSpace text) "\"")) := by
  simp only [valueRR, h, hparts, hn]
  rfl

theorem valueRR_unsupported (h : normalizeRecordType types record.recordType = "") :
    valueRR lib types record value = .error (.unsupported record.recordType) := by
  rw [valueRR, h]
  rfl

end Equations

/-- The records the loop makes of a value, by the type. -/
inductive Rendered (lib : Library IP) (types : TypeNames) (record : DNSRecord) (value : String) :
    RR IP → Prop
  | a {ip : IP} (htype : normalizeRecordType types record.recordType = "A")
      (hip : (lib.parseIP value).bind lib.to4 = some ip) :
      Rendered lib types record value (.a (header lib types record) ip)
  | aaaa {ip : IP} (htype : normalizeRecordType types record.recordType = "AAAA")
      (hip : lib.parseIP value = some ip) :
      Rendered lib types record value (.aaaa (header lib types record) ip)
  | cname (htype : normalizeRecordType types record.recordType = "CNAME") :
      Rendered lib types record value (.cname (header lib types record) (normalizeFQDN value))
  | txt (htype : normalizeRecordType types record.recordType = "TXT") :
      Rendered lib types record value (.txt (header lib types record) [value])
  | ns (htype : normalizeRecordType types record.recordType = "NS") :
      Rendered lib types record value (.ns (header lib types record) (normalizeFQDN value))
  | mx {preference target : String} {n : Nat}
      (htype : normalizeRecordType types record.recordType = "MX")
      (hparts : Go.splitN value ' ' 2 = [preference, target])
      (hn : number UInt16.size (Go.trimSpace preference) = .ok n) :
      Rendered lib types record value (.mx (header lib types record) n (normalizeFQDN target))
  | srv {priority weight port target : String} {p w q : Nat}
      (htype : normalizeRecordType types record.recordType = "SRV")
      (hfields : Go.fields value = [priority, weight, port, target])
      (hp : number UInt16.size priority = .ok p) (hw : number UInt16.size weight = .ok w)
      (hq : number UInt16.size port = .ok q) :
      Rendered lib types record value
        (.srv (header lib types record) p w q (normalizeFQDN target))
  | caa {flag tag text : String} {n : Nat}
      (htype : normalizeRecordType types record.recordType = "CAA")
      (hparts : Go.splitN value ' ' 3 = [flag, tag, text])
      (hn : number UInt8.size (Go.trimSpace flag) = .ok n) :
      Rendered lib types record value
        (.caa (header lib types record) n (Go.trimSpace tag) (Go.trim (Go.trimSpace text) "\""))

theorem rendered_of_valueRR {lib : Library IP} {types : TypeNames} {record : DNSRecord}
    {value : String} {rr : RR IP} (h : valueRR lib types record value = .ok rr) :
    Rendered lib types record value rr := by
  unfold valueRR at h
  dsimp only at h
  split at h
  · rename_i htype
    split at h
    · cases h
      exact .a htype (by assumption)
    · cases h
  · rename_i htype
    split at h
    · cases h
      exact .aaaa htype (by assumption)
    · cases h
  · rename_i htype
    cases h
    exact .cname htype
  · rename_i htype
    cases h
    exact .txt htype
  · rename_i htype
    cases h
    exact .ns htype
  · rename_i htype
    split at h
    · rename_i preference target hparts
      split at h
      · cases h
        exact .mx htype hparts (by assumption)
      · cases h
    · cases h
  · rename_i htype
    split at h
    · rename_i priority weight port target hfields
      obtain ⟨p, hp, h⟩ := exists_of_bind_eq_ok h
      obtain ⟨w, hw, h⟩ := exists_of_bind_eq_ok h
      obtain ⟨q, hq, h⟩ := exists_of_bind_eq_ok h
      cases h
      exact .srv htype hfields hp hw hq
    · cases h
  · rename_i htype
    split at h
    · rename_i flag tag text hparts
      obtain ⟨n, hn, h⟩ := exists_of_bind_eq_ok h
      cases h
      exact .caa htype hparts hn
    · cases h
  · cases h

theorem toRR_txt (lib : Library IP) {types : TypeNames} {record : DNSRecord}
    (htype : normalizeRecordType types record.recordType = "TXT") :
    toRR lib types record
      = .ok ((splitValues record.valuesJSON).map fun v => .txt (header lib types record) [v]) := by
  rw [toRR]
  induction splitValues record.valuesJSON with
  | nil => rfl
  | cons v vs ih =>
    rw [mapM_cons, valueRR_txt lib v htype, ih]
    rfl

/-! ## Values without quotes -/

/-- A text without commas and brackets that neither a quote nor a space
bounds. -/
structure OneValue (s : String) : Prop where
  nonempty : s ≠ ""
  plain : ∀ c ∈ s.toList, c ≠ ',' ∧ c ≠ '['
  first : ∀ c ∈ s.toList.head?, c ≠ '"' ∧ Go.isSpace c = false
  last : ∀ c ∈ s.toList.getLast?, c ≠ '"' ∧ Go.isSpace c = false

variable {s v : String} {values vs : List String} {text inner : List Char}
  {elements : List (List Char)}

theorem OneValue.toList_ne_nil (h : OneValue s) : s.toList ≠ [] :=
  fun hs => h.nonempty (String.toList_eq_nil_iff.mp hs)

theorem OneValue.trimSpace (h : OneValue s) : Go.trimSpace s = s :=
  Go.trimSpace_eq_self (fun c hc => (h.first c hc).2) fun c hc => (h.last c hc).2

theorem OneValue.trim (h : OneValue s) : Go.trim s "\"" = s := by
  have hquote : ∀ c, c ≠ '"' → "\"".toList.contains c = false := by
    intro c hc
    simpa using hc
  exact Go.trim_eq_self (fun c hc => hquote c (h.first c hc).1) fun c hc => hquote c (h.last c hc).1

theorem OneValue.partValue (h : OneValue s) : partValue s = s := by
  rw [DNS.partValue, h.trim, h.trimSpace]

theorem trimSpace_join (h : ∀ v ∈ values, OneValue v) :
    Go.trimSpace (Go.join values ',') = Go.join values ',' := by
  have hends : ∀ values : List String, values ≠ [] → (∀ v ∈ values, OneValue v) →
      (Go.join values ',').toList ≠ []
      ∧ (∀ c ∈ (Go.join values ',').toList.head?, Go.isSpace c = false)
      ∧ ∀ c ∈ (Go.join values ',').toList.getLast?, Go.isSpace c = false := by
    intro values
    induction values with
    | nil => exact fun hne => absurd rfl hne
    | cons v vs ih =>
      intro _ h
      have hv := h v mem_cons_self
      by_cases hvs : vs = []
      · have hjoin : Go.join [v] ',' = v := by simp [Go.join]
        rw [hvs, hjoin]
        exact ⟨hv.toList_ne_nil, fun c hc => (hv.first c hc).2, fun c hc => (hv.last c hc).2⟩
      · obtain ⟨hne, -, hlast⟩ := ih hvs fun w hw => h w (mem_cons_of_mem v hw)
        rw [Go.toList_join_cons v hvs]
        refine ⟨by simp, fun c hc => ?_, fun c hc => ?_⟩
        · rw [List.head?_append_of_ne_nil _ hv.toList_ne_nil] at hc
          exact (hv.first c hc).2
        · rw [append_cons, List.getLast?_append_of_ne_nil _ hne] at hc
          exact hlast c hc
  by_cases hne : values = []
  · rw [hne]
    decide
  · obtain ⟨-, hfirst, hlast⟩ := hends values hne h
    exact Go.trimSpace_eq_self hfirst hlast

theorem splitValues_join (hne : values ≠ []) (h : ∀ v ∈ values, OneValue v) :
    splitValues (Go.join values ',') = values := by
  have hsplit : Go.split (Go.join values ',') ',' = values :=
    Go.split_join (fun v hv hcomma => ((h v hv).plain _ hcomma).1 rfl) hne
  have hnonempty : Go.join values ',' ≠ "" := by
    intro hempty
    rw [hempty] at hsplit
    exact (h "" (hsplit ▸ by decide)).nonempty rfl
  have hbracket : Go.contains (Go.join values ',') "[" = false := by
    rw [Go.contains, any_eq_false]
    intro t ht hprefix
    have hmem : '[' ∈ t := (List.isPrefixOf_iff_prefix.mp hprefix).subset (by simp)
    rcases Go.mem_split ',' (((mem_tails _ _).mp ht).subset hmem) with heq | ⟨v, hv, hcv⟩
    · cases heq
    · exact ((h v (hsplit ▸ hv)).plain _ hcv).2 rfl
  have hvalues : values.map partValue = values := by
    conv_rhs => rw [← map_id values]
    exact map_congr_left fun v hv => (h v hv).partValue
  rw [splitValues, trimSpace_join h]
  simp only [if_neg hnonempty, hbracket, Bool.false_eq_true, if_false, hsplit, hvalues]
  exact filter_eq_self.mpr fun v hv => decide_eq_true (h v hv).nonempty

/-! ## One element -/

/-- A value as it is stored: not blank, without spaces around it. -/
structure Stored (v : String) : Prop where
  nonempty : v ≠ ""
  trimmed : Go.trimSpace v = v

theorem Stored.toList_ne_nil (h : Stored v) : v.toList ≠ [] :=
  fun hv => h.nonempty (String.toList_eq_nil_iff.mp hv)

theorem Stored.ends (h : Stored v) :
    (∀ c ∈ v.toList.head?, Go.isSpace c = false) ∧ ∀ c ∈ v.toList.getLast?, Go.isSpace c = false := by
  have htrim := Go.trimSpace_toList v
  rw [h.trimmed] at htrim
  constructor
  · intro c hc
    obtain ⟨cs, hcs⟩ := List.head?_eq_some_iff.mp hc
    exact Go.head_trimSpace (h.trimmed.symm ▸ hcs)
  · intro c hc
    rw [htrim] at hc
    have hne := ne_nil_of_mem (mem_of_mem_getLast? hc)
    rw [List.getLast?_eq_some_getLast hne, Option.mem_some_iff] at hc
    rw [← hc]
    exact Bool.eq_false_iff.mpr (rdropWhile_last_not Go.isSpace _ hne)

/-- A non-empty text that neither a quote nor a space bounds. -/
structure Core (core : List Char) : Prop where
  nonempty : core ≠ []
  first : ∀ c ∈ core.head?, c ≠ '"' ∧ Go.isSpace c = false
  last : ∀ c ∈ core.getLast?, c ≠ '"' ∧ Go.isSpace c = false

/-- The body of a value is what trimming leaves of it, up to the quote of
a last `\"`. -/
theorem core_of_encodesChars {body : List Char} (hv : Stored v)
    (h : Json.EncodesChars v.toList body) :
    ∃ core tail, body = core ++ tail ∧ Core core ∧ v.toList.length ≤ core.length
      ∧ (tail = [] ∨ tail = ['"'] ∧ core ≠ v.toList) := by
  have hhead : ∀ c ∈ body.head?, c ≠ '"' ∧ Go.isSpace c = false := by
    intro c hc
    obtain ⟨hquote, hc | rfl⟩ := h.head hc
    · exact ⟨hquote, hv.ends.1 c hc⟩
    · exact ⟨hquote, by decide⟩
  have hbody : body ≠ [] := by
    rintro rfl
    exact hv.toList_ne_nil (eq_nil_of_length_eq_zero (Nat.le_zero.mp h.length_le))
  obtain ⟨init, c, front, text, hinit, hfront, htext, hsplit⟩ := h.last hv.toList_ne_nil
  have hc : v.toList.getLast? = some c := by rw [hinit, List.getLast?_concat]
  -- the text of the last character decides what stands at the end
  rcases htext.raw_or_escape with ⟨rfl, hquote⟩ | hescape
  · refine ⟨body, [], by simp, ⟨hbody, hhead, ?_⟩, h.length_le, Or.inl rfl⟩
    intro d hd
    rw [hsplit, List.getLast?_concat, Option.mem_some_iff] at hd
    exact hd ▸ ⟨hquote, hv.ends.2 c hc⟩
  · by_cases hlast : text.getLast? = some '"'
    · obtain ⟨rfl, rfl⟩ := hescape.quote hlast
      have hbody' : body = (front ++ ['\\']) ++ ['"'] := by rw [hsplit]; simp
      refine ⟨front ++ ['\\'], ['"'], hbody', ⟨by simp, ?_, ?_⟩, ?_, Or.inr ⟨rfl, ?_⟩⟩
      · intro d hd
        refine hhead d ?_
        rw [hbody', List.head?_append]
        rw [Option.mem_def] at hd
        rw [hd]
        rfl
      · intro d hd
        rw [List.getLast?_concat, Option.mem_some_iff] at hd
        exact hd ▸ by decide
      · have hle := hfront.length_le
        rw [hinit, length_append, length_append]
        exact Nat.add_le_add_right hle 1
      · intro heq
        rw [← heq, List.getLast?_concat] at hc
        cases hc
    · refine ⟨body, [], by simp, ⟨hbody, hhead, ?_⟩, h.length_le, Or.inl rfl⟩
      intro d hd
      have htwo := hescape.two
      have hne : text ≠ [] := by
        rintro rfl
        cases htwo
      rw [hsplit, List.getLast?_append, List.getLast?_eq_some_getLast hne, Option.some_or,
        Option.mem_some_iff] at hd
      subst hd
      refine ⟨fun hq => hlast ?_, (hescape.plain _ (getLast_mem hne)).2⟩
      rw [List.getLast?_eq_some_getLast hne, hq]

theorem toList_partValue (part : String) :
    (partValue part).toList
      = (((part.toList.dropWhile fun c => c == '"').rdropWhile fun c => c == '"').dropWhile
          Go.isSpace).rdropWhile Go.isSpace := by
  have hquote : ("\"".toList.contains : Char → Bool) = fun c => c == '"' := by
    funext c
    by_cases hc : c = '"' <;> simp [hc]
  rw [partValue, Go.trimSpace_toList, Go.trim, String.toList_ofList, hquote]

theorem partValue_eq (left right lspace rspace : List Char) {m : List Char} (hm : m ≠ [])
    (hleft : ∀ c ∈ left, c = '"') (hright : ∀ c ∈ right, c = '"')
    (hlspace : ∀ c ∈ lspace, Go.isSpace c = true) (hrspace : ∀ c ∈ rspace, Go.isSpace c = true)
    (hfirst : ∀ c ∈ m.head?, Go.isSpace c = false ∧ (lspace = [] → c ≠ '"'))
    (hlast : ∀ c ∈ m.getLast?, Go.isSpace c = false ∧ (rspace = [] → c ≠ '"')) :
    partValue (String.ofList (left ++ (lspace ++ (m ++ rspace) ++ right))) = String.ofList m := by
  have hspace : ∀ c, Go.isSpace c = true → (c == '"') = false := by
    intro c hc
    refine beq_false_of_ne ?_
    rintro rfl
    exact absurd hc (by decide)
  have hinner : lspace ++ (m ++ rspace) ≠ [] := by simp [hm]
  rw [← String.toList_inj, toList_partValue, String.toList_ofList, String.toList_ofList,
    Go.strip_append hinner (fun c hc => by simp [hleft c hc]) (fun c hc => by simp [hright c hc]),
    Go.strip_append hm hlspace hrspace (fun c hc => (hfirst c hc).1) fun c hc => (hlast c hc).1]
  · intro c hc
    rcases lspace with _ | ⟨d, ds⟩
    · rw [nil_append, List.head?_append_of_ne_nil _ hm] at hc
      exact beq_false_of_ne ((hfirst c hc).2 rfl)
    · obtain rfl := Option.some.inj hc
      exact hspace d (hlspace d mem_cons_self)
  · intro c hc
    rcases eq_nil_or_concat rspace with rfl | ⟨ds, d, rfl⟩
    · rw [append_nil, List.getLast?_append_of_ne_nil _ hm] at hc
      exact beq_false_of_ne ((hlast c hc).2 rfl)
    · rw [concat_eq_append, ← append_assoc, ← append_assoc, List.getLast?_concat] at hc
      obtain rfl := Option.some.inj hc
      exact hspace d (hrspace d (by simp))

/-- A value between quotes, every character as itself. -/
def plainElement (v : String) : List Char := '"' :: (v.toList ++ ['"'])

theorem isSpace_of_white {cs : List Char} (h : Json.White cs) : ∀ c ∈ cs, Go.isSpace c = true := by
  have hall : [' ', '\t', '\n', '\r'].all Go.isSpace = true := by decide
  exact fun c hc => all_eq_true.mp hall c (h c hc)

theorem partValue_quoted {before core tail after : List Char} (hcore : Core core)
    (htail : ∀ c ∈ tail, c = '"') (hbefore : Json.White before) (hafter : Json.White after) :
    ∃ m, partValue (String.ofList (before ++ '"' :: (core ++ tail ++ '"' :: after)))
        = String.ofList m ∧ m ≠ []
      ∧ ((before ++ after = [] ∧ m = core) ∨ (before ++ after ≠ [] ∧ core.length < m.length)) := by
  have hspaceb := isSpace_of_white hbefore
  have hspacea := isSpace_of_white hafter
  have hquote : Go.isSpace '"' = false := by decide
  have hfirst : ∀ rest, ∀ c ∈ (core ++ rest).head?, c ≠ '"' ∧ Go.isSpace c = false := by
    intro rest c hc
    rw [List.head?_append_of_ne_nil _ hcore.nonempty] at hc
    exact hcore.first c hc
  have htail' : ∀ c ∈ tail ++ ['"'], c = '"' := by
    simpa [or_imp, forall_and] using htail
  have hone : ∀ c ∈ ['"'], c = '"' := by simp
  rcases eq_or_ne before [] with rfl | hb <;> rcases eq_or_ne after [] with rfl | ha
  · refine ⟨core, ?_, hcore.nonempty, Or.inl ⟨rfl, rfl⟩⟩
    have hpart := partValue_eq ['"'] (tail ++ ['"']) [] [] hcore.nonempty hone htail' (by simp)
      (by simp) (fun c hc => ⟨(hcore.first c hc).2, fun _ => (hcore.first c hc).1⟩)
      fun c hc => ⟨(hcore.last c hc).2, fun _ => (hcore.last c hc).1⟩
    simpa using hpart
  · refine ⟨core ++ tail ++ ['"'], ?_, by simp, Or.inr (by simp [ha])⟩
    have hpart := partValue_eq ['"'] [] [] after (m := core ++ tail ++ ['"']) (by simp) hone
      (by simp) (by simp) hspacea (fun c hc => ?_) fun c hc => ?_
    · simpa using hpart
    · rw [append_assoc] at hc
      exact ⟨(hfirst _ c hc).2, fun _ => (hfirst _ c hc).1⟩
    · rw [List.getLast?_concat, Option.mem_some_iff] at hc
      exact ⟨hc ▸ hquote, fun h => absurd h ha⟩
  · refine ⟨'"' :: core, ?_, by simp, Or.inr (by simp [hb])⟩
    have hpart := partValue_eq [] (tail ++ ['"']) before [] (m := '"' :: core) (by simp) (by simp)
      htail' hspaceb (by simp) (fun c hc => ?_) fun c hc => ?_
    · simpa using hpart
    · rw [List.head?_cons, Option.mem_some_iff] at hc
      exact ⟨hc ▸ hquote, fun h => absurd h hb⟩
    · rw [List.getLast?_cons_of_ne_nil hcore.nonempty] at hc
      exact ⟨(hcore.last c hc).2, fun _ => (hcore.last c hc).1⟩
  · refine ⟨'"' :: (core ++ tail ++ ['"']), ?_, by simp, Or.inr ⟨by simp [hb], ?_⟩⟩
    swap
    · simp only [length_cons, length_append]
      omega
    have hpart := partValue_eq [] [] before after (m := '"' :: (core ++ tail ++ ['"'])) (by simp)
      (by simp) (by simp) hspaceb hspacea (fun c hc => ?_) fun c hc => ?_
    · simpa using hpart
    · rw [List.head?_cons, Option.mem_some_iff] at hc
      exact ⟨hc ▸ hquote, fun h => absurd h hb⟩
    · rw [← cons_append, List.getLast?_concat, Option.mem_some_iff] at hc
      exact ⟨hc ▸ hquote, fun h => absurd h ha⟩

/-- What is left of an element is the value if it is written plainly, and
otherwise another text that is not empty. -/
theorem partValue_element (hv : Stored v) (h : Json.EncodesElement v text) :
    partValue (String.ofList text) ≠ ""
      ∧ (partValue (String.ofList text) = v ↔ text = plainElement v) := by
  obtain ⟨before, body, after, hbefore, hafter, hbody, rfl⟩ := h
  obtain ⟨core, tail, hcut, hcore, hlength, htail⟩ := core_of_encodesChars hv hbody
  have htail_quote : ∀ c ∈ tail, c = '"' := by
    rcases htail with rfl | ⟨rfl, -⟩ <;> simp
  obtain ⟨m, hpart, hm, hcase⟩ := partValue_quoted hcore htail_quote hbefore hafter
  rw [← hcut] at hpart
  rw [hpart]
  have hvalue : String.ofList m = v ↔ m = v.toList := by
    rw [← String.toList_inj, String.toList_ofList]
  rw [hvalue]
  refine ⟨fun hempty => hm ?_, fun hmv => ?_, fun htext => ?_⟩
  · rw [← String.toList_ofList (l := m), hempty]
    rfl
  · rcases hcase with ⟨hwhite, rfl⟩ | ⟨-, hlonger⟩
    · obtain ⟨rfl, rfl⟩ := append_eq_nil_iff.mp hwhite
      rcases htail with rfl | ⟨-, hne⟩
      · rw [plainElement, hcut, hmv, append_nil]
        rfl
      · exact absurd hmv hne
    · rw [hmv] at hlonger
      exact absurd hlength (by omega)
  · -- the body is at least as long as the value, so nothing else fits in
    have hle := hbody.length_le
    have hsize := congrArg List.length htext
    simp only [plainElement, length_append, length_cons, length_nil] at hsize
    have hwhite : before ++ after = [] := by
      rw [← length_eq_zero_iff, length_append]
      omega
    have hplain := hbody.eq_of_length (by omega)
    have htail_nil : tail = [] := by
      rw [hcut, length_append] at hsize
      rw [← length_eq_zero_iff]
      omega
    rcases hcase with ⟨-, rfl⟩ | ⟨hspaced, -⟩
    · rw [← hplain, hcut, htail_nil, append_nil]
    · exact absurd hwhite hspaced

/-! ## The whole array -/

def innerValues (inner : List Char) : List String :=
  ((inner.splitOn ',').map fun part => partValue (String.ofList part)).filter fun v => v ≠ ""

theorem toList_trimSpace_array {t : String} {before after : List Char} (hbefore : Json.White before)
    (hafter : Json.White after) (ht : t.toList = before ++ '[' :: (inner ++ ']' :: after)) :
    Go.trimSpace t = "[" ++ (String.ofList inner ++ "]") := by
  have htext : t.toList = before ++ (('[' :: (inner ++ [']'])) ++ after) := by
    rw [ht]
    simp
  rw [← String.toList_inj, Go.trimSpace_toList, htext,
    Go.strip_append (by simp) (isSpace_of_white hbefore) (isSpace_of_white hafter)]
  · simp
  · intro c hc
    rw [List.head?_cons, Option.mem_some_iff] at hc
    exact hc ▸ by decide
  · intro c hc
    rw [← cons_append, List.getLast?_concat, Option.mem_some_iff] at hc
    exact hc ▸ by decide

theorem splitValues_array {t : String} (ht : Go.trimSpace t = "[" ++ (String.ofList inner ++ "]")) :
    splitValues t = innerValues inner := by
  have hne : "[" ++ (String.ofList inner ++ "]") ≠ "" := by
    intro h
    have := congrArg String.toList h
    simp at this
  have hbracket : Go.contains ("[" ++ (String.ofList inner ++ "]")) "[" = true := by
    rw [Go.contains, any_eq_true]
    exact ⟨_, (mem_tails _ _).mpr suffix_rfl, Go.hasPrefix_append _ _⟩
  rw [splitValues]
  simp only [ht, if_neg hne, hbracket, if_true, Go.trimPrefix_append, Go.trimSuffix_append,
    Go.split, String.toList_ofList, map_map]
  rfl

/-- No value that is read back has a comma. -/
theorem comma_not_mem_innerValues (hv : v ∈ innerValues inner) : ',' ∉ v.toList := by
  obtain ⟨part, hpart, rfl⟩ := mem_map.mp (mem_filter.mp hv).1
  have hsplit : String.ofList part ∈ Go.split (String.ofList inner) ',' := by
    rw [Go.split, String.toList_ofList]
    exact mem_map_of_mem hpart
  have hcomma := Go.not_mem_of_mem_split hsplit
  rw [String.toList_ofList] at hcomma
  intro hmem
  rw [toList_partValue, String.toList_ofList] at hmem
  have hsub : ∀ (p : Char → Bool) (l : List Char), ((l.dropWhile p).rdropWhile p).Sublist l :=
    fun p l => (List.rdropWhile_prefix p _).sublist.trans (dropWhile_sublist _)
  exact hcomma (((hsub _ _).trans (hsub _ _)).subset hmem)

theorem comma_not_mem_element (hv : ',' ∉ v.toList) (h : Json.EncodesElement v text) :
    ',' ∉ text := by
  obtain ⟨before, body, after, hbefore, hafter, hbody, rfl⟩ := h
  have hwhite : ∀ cs, Json.White cs → ',' ∉ cs := by
    intro cs hcs hmem
    exact absurd (hcs _ hmem) (by decide)
  simp only [mem_append, mem_cons, not_or]
  exact ⟨hwhite before hbefore, by decide, hbody.comma_not_mem hv, by decide, hwhite after hafter⟩

theorem innerValues_white (h : Json.White inner) : innerValues inner = [] := by
  have hcomma : ',' ∉ inner := fun hmem => absurd (h _ hmem) (by decide)
  have hquote : ∀ c ∈ inner, (c == '"') = false := by
    intro c hc
    refine beq_false_of_ne ?_
    rintro rfl
    exact absurd (h _ hc) (by decide)
  have hsplit : inner.splitOn ',' = [inner] := by
    have hone : ∀ l ∈ [inner], ',' ∉ l := by simpa using hcomma
    simpa using splitOn_intercalate ',' hone (by simp)
  have hvalue : partValue (String.ofList inner) = "" := by
    have hdrop : inner.dropWhile Go.isSpace = [] := dropWhile_eq_nil_iff.mpr (isSpace_of_white h)
    have hkeep : (inner.dropWhile fun c => c == '"').rdropWhile (fun c => c == '"') = inner := by
      rcases inner with _ | ⟨c, cs⟩
      · rfl
      · rw [dropWhile_cons_of_neg (by simp [hquote c mem_cons_self])]
        refine rdropWhile_eq_self_iff.mpr fun hne => ?_
        simpa using hquote _ (getLast_mem hne)
    rw [← String.toList_inj, toList_partValue, String.toList_ofList, hkeep, hdrop]
    rfl
  rw [innerValues, hsplit]
  simp [hvalue]

section

variable (h : List.Forall₂ Json.EncodesElement vs elements)

include h

theorem map_partValue_eq_iff (hvs : ∀ v ∈ vs, Stored v) :
    (elements.map fun part => partValue (String.ofList part)) = vs
      ↔ elements = vs.map plainElement := by
  induction h with
  | nil => simp
  | cons h _ ih =>
    rw [forall_mem_cons] at hvs
    rw [map_cons, map_cons, List.cons.injEq, List.cons.injEq, ih hvs.2,
      (partValue_element hvs.1 h).2]

theorem exists_of_mem_elements (htext : text ∈ elements) :
    ∃ v ∈ vs, Json.EncodesElement v text := by
  induction h with
  | nil => cases htext
  | @cons v _ _ _ h _ ih =>
    rcases mem_cons.mp htext with rfl | htext
    · exact ⟨v, mem_cons_self, h⟩
    · obtain ⟨w, hw, hwt⟩ := ih htext
      exact ⟨w, mem_cons_of_mem _ hw, hwt⟩

theorem splitOn_elements (hne : vs ≠ []) (hcomma : ∀ v ∈ vs, ',' ∉ v.toList) :
    ([','].intercalate elements).splitOn ',' = elements := by
  refine splitOn_intercalate ',' ?_ ?_
  · intro text htext
    obtain ⟨v, hv, hvt⟩ := exists_of_mem_elements h htext
    exact comma_not_mem_element (hcomma v hv) hvt
  · rintro rfl
    exact hne (forall₂_nil_right_iff.mp h)

theorem innerValues_elements (hvs : ∀ v ∈ vs, Stored v) (hne : vs ≠ [])
    (hcomma : ∀ v ∈ vs, ',' ∉ v.toList) :
    innerValues ([','].intercalate elements) = vs ↔ elements = vs.map plainElement := by
  rw [innerValues, splitOn_elements h hne hcomma, filter_eq_self.mpr, map_partValue_eq_iff h hvs]
  intro v hv
  obtain ⟨text, htext, rfl⟩ := mem_map.mp hv
  obtain ⟨w, hw, hwt⟩ := exists_of_mem_elements h htext
  exact decide_eq_true (partValue_element (hvs w hw) hwt).1

end

theorem splitOn_plain (hne : vs ≠ []) (hcomma : ∀ v ∈ vs, ',' ∉ v.toList) :
    ([','].intercalate (vs.map plainElement)).splitOn ',' = vs.map plainElement := by
  refine splitOn_intercalate ',' ?_ (by simpa using hne)
  intro text htext
  obtain ⟨v, hv, rfl⟩ := mem_map.mp htext
  simpa [plainElement] using hcomma v hv

/-! ## Survival -/

/-- The values are read back from `t`, and a TXT record with this text has
one answer per value. -/
def Survives (lib : Library IP) (types : TypeNames) (vs : List String) (t : String) : Prop :=
  splitValues t = vs
    ∧ ∀ record : DNSRecord, normalizeRecordType types record.recordType = "TXT" →
        record.valuesJSON = t →
        toRR lib types record = .ok (vs.map fun v => .txt (header lib types record) [v])

theorem survives_iff_splitValues (lib : Library IP) (types : TypeNames) (vs : List String)
    (t : String) : Survives lib types vs t ↔ splitValues t = vs := by
  refine ⟨And.left, fun h => ⟨h, fun record htype hvalues => ?_⟩⟩
  rw [toRR_txt lib htype, hvalues, h]

/-- The array with every character as itself and no white space. -/
def plainText (vs : List String) : String :=
  "[" ++ (String.ofList ([','].intercalate (vs.map plainElement)) ++ "]")

/-- Values without commas in an array without escapes and white space. -/
def PlainlyWritten (vs : List String) (t : String) : Prop :=
  (∀ v ∈ vs, ',' ∉ v.toList) ∧ Go.trimSpace t = plainText vs

theorem splitValues_eq_iff {t : String} (hvs : ∀ v ∈ vs, Stored v) (ht : Json.EncodesStrings vs t) :
    splitValues t = vs ↔ vs = [] ∨ PlainlyWritten vs t := by
  obtain ⟨before, inner, after, hbefore, hafter, hinner, htext⟩ := ht
  have harray := toList_trimSpace_array hbefore hafter htext
  rw [splitValues_array harray]
  rcases hinner with ⟨rfl, hwhite⟩ | ⟨hne, elements, helements, rfl⟩
  · simp [innerValues_white hwhite]
  · rw [or_iff_right hne]
    constructor
    · intro h
      have hcomma : ∀ v ∈ vs, ',' ∉ v.toList := fun v hv =>
        comma_not_mem_innerValues (h.symm ▸ hv)
      refine ⟨hcomma, ?_⟩
      rw [harray, plainText, (innerValues_elements helements hvs hne hcomma).mp h]
    · rintro ⟨hcomma, hplain⟩
      rw [innerValues_elements helements hvs hne hcomma, ← splitOn_elements helements hne hcomma,
        ← splitOn_plain hne hcomma]
      rw [harray, plainText] at hplain
      have hinner := congrArg String.toList hplain
      simp only [String.toList_append, String.toList_ofList, append_cancel_left_eq,
        append_cancel_right_eq] at hinner
      rw [hinner]

/-- Stored values survive exactly if they are none, or plainly written
without commas. -/
theorem survives_iff (lib : Library IP) (types : TypeNames) (vs : List String) (t : String)
    (hvs : ∀ v ∈ vs, v ≠ "" ∧ Go.trimSpace v = v) (ht : Json.EncodesStrings vs t) :
    Survives lib types vs t ↔ vs = [] ∨ PlainlyWritten vs t := by
  rw [survives_iff_splitValues]
  exact splitValues_eq_iff (fun v hv => ⟨(hvs v hv).1, (hvs v hv).2⟩) ht

def textLibrary : Library Unit := ⟨fun _ => none, some, fun t => if t = "TXT" then 16 else 0⟩

theorem survives_policy :
    Json.EncodesStrings ["v=spf1 -all", "b"] (Json.marshal ["v=spf1 -all", "b"])
      ∧ Survives textLibrary commonTypes ["v=spf1 -all", "b"]
          (Json.marshal ["v=spf1 -all", "b"]) := by
  have hencodes := Json.encodesStrings_marshal ["v=spf1 -all", "b"]
  refine ⟨hencodes, (survives_iff textLibrary commonTypes _ _ ?_ hencodes).mpr (Or.inr ⟨?_, ?_⟩)⟩
  · decide +kernel
  · decide +kernel
  · decide +kernel

/-- A comma, an escaped quote and a space after a comma. -/
theorem values_lost :
    (Json.EncodesStrings ["a,b"] "[\"a,b\"]" ∧ splitValues "[\"a,b\"]" = ["a", "b"]
        ∧ ¬ Survives textLibrary commonTypes ["a,b"] "[\"a,b\"]")
      ∧ (Json.marshal ["0 issue \"ca\""] = "[\"0 issue \\\"ca\\\"\"]"
        ∧ splitValues (Json.marshal ["0 issue \"ca\""]) = ["0 issue \\\"ca\\"])
      ∧ Json.EncodesStrings ["a", "b"] "[\"a\", \"b\"]"
        ∧ splitValues "[\"a\", \"b\"]" = ["a", "\"b"] := by
  have hcomma : splitValues "[\"a,b\"]" = ["a", "b"] := by decide +kernel
  have hmarshal : Json.marshal ["a,b"] = "[\"a,b\"]" := by decide +kernel
  refine ⟨⟨hmarshal ▸ Json.encodesStrings_marshal ["a,b"], hcomma, fun h => ?_⟩,
    ⟨by decide +kernel, by decide +kernel⟩, ?_, by decide +kernel⟩
  · exact absurd (hcomma.symm.trans h.1) (by decide +kernel)
  · have ha : Json.EncodesChars ['a'] ['a'] :=
      .cons (.raw (by decide) (by decide) (by decide)) .nil
    have hb : Json.EncodesChars ['b'] ['b'] := .cons (.raw (by decide) (by decide) (by decide)) .nil
    refine ⟨[], "\"a\", \"b\"".toList, [], Json.white_nil, Json.white_nil,
      Or.inr ⟨by simp, ["\"a\"".toList, " \"b\"".toList], ?_, by decide +kernel⟩, by decide +kernel⟩
    exact .cons ⟨[], ['a'], [], Json.white_nil, Json.white_nil, ha, by decide +kernel⟩
      (.cons ⟨[' '], ['b'], [], by simp [Json.White], Json.white_nil, hb, by decide +kernel⟩ .nil)

end DNS

end LunaEdge
