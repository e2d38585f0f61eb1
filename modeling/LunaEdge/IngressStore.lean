import LunaEdge.GoMap
import LunaEdge.GoText
import LunaEdge.Metadata

/-!
# The ingress binding store

Host names, upstream addresses and the process-wide store of bindings
that the HTTP and the TLS engine of a slave share. The store keeps, for
each host, every binding ever put there, in order; a lookup takes the
best of them by priority and path length and looks at the request path
only to break a tie.

`normalizeHost` is applied again and again on the way of a request; it
is idempotent (`normalizeHost_idem`), because what it returns consists of
the characters of host names, on which each of its steps is the
identity.
-/

namespace LunaEdge

open List

namespace Ingress

/-! ## Host names -/

def alnum (c : Char) : Bool :=
  (Nat.ble 97 c.toNat && Nat.ble c.toNat 122) || (Nat.ble 48 c.toNat && Nat.ble c.toNat 57)

/-- The regular expression `^[a-z0-9](?:[a-z0-9-]{0,61}[a-z0-9])?$`. -/
def hostnameLabelPattern (label : String) : Bool :=
  match label.toList with
  | [] => false
  | first :: rest =>
    alnum first && match rest.getLast? with
      | none => true
      | some last =>
        rest.dropLast.all (fun c => alnum c || c = '-')
          && decide (rest.dropLast.length ≤ 61) && alnum last

/-- The part of `sanitizeHostname` after the trimming. -/
def sanitizeTrimmed (host : String) : String :=
  if host = "" then ""
  else
    let wildcard := Go.hasPrefix host "*."
    let host := Go.trimPrefix host "*."
    if host = "" || Go.contains host ".." || Go.containsAny host "/\\ " then ""
    else if !(Go.split host '.').all hostnameLabelPattern then ""
    else if wildcard then "*." ++ host
    else host

def sanitizeHostname (host : String) : String := sanitizeTrimmed (Go.trimSpace (Go.toLower host))

def normalizeHost (host : String) : String :=
  let host := Go.trimSpace (Go.toLower host)
  let host := Go.trimPrefix host "http://"
  let host := Go.trimPrefix host "https://"
  sanitizeHostname (Go.before host ':')

/-- The characters of a normalised host name. -/
def hostChar (c : Char) : Prop := alnum c = true ∨ c = '-' ∨ c = '.' ∨ c = '*'

instance : DecidablePred hostChar := fun c =>
  inferInstanceAs (Decidable (alnum c = true ∨ c = '-' ∨ c = '.' ∨ c = '*'))

theorem hostChar_toNat {c : Char} (h : hostChar c) :
    (97 ≤ c.toNat ∧ c.toNat ≤ 122) ∨ (48 ≤ c.toNat ∧ c.toNat ≤ 57) ∨ c.toNat = 45
      ∨ c.toNat = 46 ∨ c.toNat = 42 := by
  rcases h with h | rfl | rfl | rfl
  · simp only [alnum, Bool.or_eq_true, Bool.and_eq_true, Nat.ble_eq] at h
    omega
  · decide
  · decide
  · decide

theorem lowerRune_of_hostChar {c : Char} (h : hostChar c) : Go.lowerRune c = c := by
  have hc := hostChar_toNat h
  have hcode : Go.lowerCode c.toNat = c.toNat := by
    rw [Go.lowerCode, if_pos (by omega), if_neg (by omega)]
  rw [Go.lowerRune, hcode, Char.ofNat_toNat]

theorem hostChar_of_label {label : String} (h : hostnameLabelPattern label = true) :
    ∀ c ∈ label.toList, hostChar c := by
  intro c hc
  rw [hostnameLabelPattern] at h
  cases hl : label.toList with
  | nil => simp [hl] at hc
  | cons first rest =>
    rw [hl] at h hc
    simp only [Bool.and_eq_true] at h
    obtain ⟨hfirst, hrest⟩ := h
    rcases mem_cons.mp hc with rfl | hc
    · exact Or.inl hfirst
    · rw [List.getLast?_eq_some_getLast (ne_nil_of_mem hc)] at hrest
      simp only [Bool.and_eq_true, all_eq_true, Bool.or_eq_true, decide_eq_true_eq] at hrest
      obtain ⟨⟨hmiddle, -⟩, hlast⟩ := hrest
      rw [← dropLast_append_getLast (ne_nil_of_mem hc), mem_append, mem_singleton] at hc
      rcases hc with hc | hc
      · exact (hmiddle c hc).imp_right Or.inl
      · exact Or.inl (hc ▸ hlast)

/-- What the last checks of `sanitizeHostname` let through. -/
structure Sanitized (host : String) : Prop where
  checks : (host = "" || Go.contains host ".." || Go.containsAny host "/\\ ") = false
  labels : (Go.split host '.').all hostnameLabelPattern = true

variable {host : String}

theorem Sanitized.ne_empty (h : Sanitized host) : host ≠ "" := by
  intro hempty
  have hchecks := h.checks
  simp [hempty] at hchecks

theorem Sanitized.hostChars (h : Sanitized host) : ∀ c ∈ host.toList, hostChar c := by
  intro c hc
  rcases Go.mem_split '.' hc with rfl | ⟨label, hlabel, hc⟩
  · exact Or.inr (Or.inr (Or.inl rfl))
  · exact hostChar_of_label (all_eq_true.mp h.labels label hlabel) c hc

theorem sanitizeTrimmed_of_sanitized {v : String} (hne : host ≠ "")
    (hv : Go.trimPrefix host "*." = v) (h : Sanitized v) :
    sanitizeTrimmed host = if Go.hasPrefix host "*." = true then "*." ++ v else v := by
  rw [sanitizeTrimmed, if_neg hne, hv, if_neg (Bool.eq_false_iff.mp h.checks),
    if_neg (by simp [h.labels])]

theorem sanitizeTrimmed_cases (host : String) :
    sanitizeTrimmed host = ""
      ∨ (Sanitized (sanitizeTrimmed host) ∧ Go.hasPrefix (sanitizeTrimmed host) "*." = false)
      ∨ ∃ v, Sanitized v ∧ sanitizeTrimmed host = "*." ++ v := by
  obtain ⟨v, hv⟩ : ∃ v, Go.trimPrefix host "*." = v := ⟨_, rfl⟩
  by_cases hne : host = ""
  · exact Or.inl (by rw [sanitizeTrimmed, if_pos hne])
  by_cases hs : Sanitized v
  · have heq := sanitizeTrimmed_of_sanitized hne hv hs
    cases hwild : Go.hasPrefix host "*." with
    | false =>
      obtain rfl : host = v := (Go.trimPrefix_eq_self hwild).symm.trans hv
      rw [hwild, if_neg Bool.false_ne_true] at heq
      rw [heq]
      exact Or.inr (Or.inl ⟨hs, hwild⟩)
    | true =>
      rw [hwild, if_pos rfl] at heq
      exact Or.inr (Or.inr ⟨v, hs, heq⟩)
  · refine Or.inl ?_
    rw [sanitizeTrimmed, if_neg hne, hv]
    dsimp only
    split
    · rfl
    · rename_i hchecks
      have hlabels : (!(Go.split v '.').all hostnameLabelPattern) = true := by
        rw [Bool.not_eq_true']
        exact Bool.eq_false_iff.mpr fun hl => hs ⟨Bool.eq_false_iff.mpr hchecks, hl⟩
      rw [if_pos hlabels]

theorem Sanitized.hostChars_wildcard {v : String} (h : Sanitized v) :
    ∀ c ∈ ("*." ++ v).toList, hostChar c := by
  intro c hc
  rw [String.toList_append, mem_append] at hc
  rcases hc with hc | hc
  · have hstar : c = '*' ∨ c = '.' := by simpa using hc
    rcases hstar with rfl | rfl
    · exact Or.inr (Or.inr (Or.inr rfl))
    · exact Or.inr (Or.inr (Or.inl rfl))
  · exact h.hostChars c hc

theorem hostChar_of_mem_sanitizeTrimmed : ∀ c ∈ (sanitizeTrimmed host).toList, hostChar c := by
  intro c hc
  rcases sanitizeTrimmed_cases host with h | ⟨h, -⟩ | ⟨v, h, heq⟩
  · simp [h] at hc
  · exact h.hostChars c hc
  · exact h.hostChars_wildcard c (heq ▸ hc)

theorem sanitizeTrimmed_idem (host : String) :
    sanitizeTrimmed (sanitizeTrimmed host) = sanitizeTrimmed host := by
  rcases sanitizeTrimmed_cases host with h | ⟨h, hwild⟩ | ⟨v, h, heq⟩
  · rw [h]
    rfl
  · rw [sanitizeTrimmed_of_sanitized h.ne_empty (Go.trimPrefix_eq_self hwild) h, hwild,
      if_neg Bool.false_ne_true]
  · have hne : "*." ++ v ≠ "" := fun h => by
      have hl := congrArg String.toList h
      simp at hl
    rw [heq, sanitizeTrimmed_of_sanitized hne (Go.trimPrefix_append "*." v) h,
      if_pos (Go.hasPrefix_append "*." v)]

theorem sanitizeTrimmed_eq_self (hne : sanitizeTrimmed host ≠ "") :
    sanitizeTrimmed host = host := by
  unfold sanitizeTrimmed at hne ⊢
  dsimp only at hne ⊢
  split
  · rename_i hempty
    rw [hempty]
  · rename_i hempty
    rw [if_neg hempty] at hne
    split
    · rename_i hchecks
      rw [if_pos hchecks] at hne
      exact absurd rfl hne
    · rename_i hchecks
      rw [if_neg hchecks] at hne
      split
      · rename_i hlabels
        rw [if_pos hlabels] at hne
        exact absurd rfl hne
      · cases hwild : Go.hasPrefix host "*." with
        | false =>
          rw [if_neg Bool.false_ne_true]
          exact Go.trimPrefix_eq_self hwild
        | true =>
          rw [if_pos rfl]
          exact Go.append_trimPrefix hwild

theorem steps_of_hostChars (h : ∀ c ∈ host.toList, hostChar c) :
    Go.toLower host = host ∧ Go.trimSpace host = host
      ∧ (∀ p : String, ':' ∈ p.toList → Go.trimPrefix host p = host)
      ∧ Go.before host ':' = host := by
  have hcolon : ':' ∉ host.toList := fun hc => by
    have hn := hostChar_toNat (h ':' hc)
    simp at hn
  refine ⟨Go.toLower_eq_self fun c hc => lowerRune_of_hostChar (h c hc), ?_, ?_,
    Go.before_eq_self hcolon⟩
  · refine Go.trimSpace_of_no_space fun c hc => Go.isSpace_eq_false ?_
    have hn := hostChar_toNat (h c hc)
    omega
  · intro p hp
    refine Go.trimPrefix_eq_self (Bool.eq_false_iff.mpr fun hpre => ?_)
    exact hcolon (Go.mem_of_hasPrefix hpre hp)

theorem normalizeHost_of_hostChars (h : ∀ c ∈ host.toList, hostChar c) :
    normalizeHost host = sanitizeTrimmed host := by
  obtain ⟨hlower, htrim, hscheme, hbefore⟩ := steps_of_hostChars h
  rw [normalizeHost, hlower, htrim, hscheme "http://" (by decide),
    hscheme "https://" (by decide), hbefore, sanitizeHostname, hlower, htrim]

theorem exists_sanitizeTrimmed (host : String) : ∃ w, normalizeHost host = sanitizeTrimmed w := by
  rw [normalizeHost, sanitizeHostname]
  exact ⟨_, rfl⟩

theorem normalizeHost_idem (host : String) :
    normalizeHost (normalizeHost host) = normalizeHost host := by
  obtain ⟨w, hw⟩ := exists_sanitizeTrimmed host
  rw [hw, normalizeHost_of_hostChars hostChar_of_mem_sanitizeTrimmed, sanitizeTrimmed_idem]

theorem trimSpace_toLower_normalizeHost (host : String) :
    Go.trimSpace (Go.toLower (normalizeHost host)) = normalizeHost host := by
  obtain ⟨w, hw⟩ := exists_sanitizeTrimmed host
  have hchars : ∀ c ∈ (sanitizeTrimmed w).toList, hostChar c := hostChar_of_mem_sanitizeTrimmed
  obtain ⟨hlower, htrim, -⟩ := steps_of_hostChars hchars
  rw [hw, hlower, htrim]

/-! ## Bindings -/

inductive RouteKind where
  | http
  | https
  | grpc
  | tlsTerminate
  | tlsPassthrough
  | tcp
  | udp
deriving Repr, DecidableEq

def RouteKind.text : RouteKind → String
  | .http => "http"
  | .https => "https"
  | .grpc => "grpc"
  | .tlsTerminate => "tls-terminate"
  | .tlsPassthrough => "tls-passthrough"
  | .tcp => "tcp"
  | .udp => "udp"

structure BackendBinding where
  id : String
  hostname : String
  namespace_ : String := ""
  name : String := ""
  address : String := ""
  port : Nat := 0
  protocol : RouteKind
  routeVersion : Nat := 0
  path : String := ""
  priority : Int := 0
  backendRef : Option ServiceBackendRef := none
deriving Repr, DecidableEq

def buildUpstreamURL (protocol address : String) (port : Nat) : String :=
  let protocol := Go.trimSpace (Go.toLower protocol)
  let protocol := if protocol = "" then "http" else protocol
  let address := Go.trimSpace address
  if address = "" then ""
  else if Go.hasPrefix address "http://" || Go.hasPrefix address "https://" then address
  else if Go.contains address ":" then protocol ++ "://" ++ address
  else if 0 < port then protocol ++ "://" ++ address ++ ":" ++ toString port
  else protocol ++ "://" ++ address

def buildServiceAddress (name namespace_ : String) : String :=
  name ++ "." ++ namespace_ ++ ".svc.cluster.local"

def backendAddress (ref : ServiceBackendRef) : String :=
  if ref.type = .external then Go.trimSpace ref.arbitraryEndpoint
  else buildServiceAddress ref.serviceName ref.serviceNamespace

def BackendBinding.upstreamURL (binding : BackendBinding) : String :=
  buildUpstreamURL binding.protocol.text binding.address binding.port

def parseBindingPath (binding : BackendBinding) : String :=
  if binding.path = "" then "/" else binding.path

def bindingMatchesPath (binding : BackendBinding) (requestPath : String) : Bool :=
  let path := parseBindingPath binding
  if path = "/" || path = "" then true
  else if Go.len requestPath < Go.len path then false
  else Go.hasPrefix requestPath path

def betterBinding (left right : BackendBinding) (requestPath : String) : Bool :=
  if left.priority ≠ right.priority then decide (right.priority < left.priority)
  else
    let leftPath := parseBindingPath left
    let rightPath := parseBindingPath right
    if Go.len leftPath ≠ Go.len rightPath then decide (Go.len rightPath < Go.len leftPath)
    else bindingMatchesPath left requestPath && !bindingMatchesPath right requestPath

/-! ## The store -/

structure MemoryStore where
  bindings : GoMap String (List BackendBinding)

namespace MemoryStore

def new : MemoryStore := ⟨.empty⟩

/-- The bindings of a host, oldest first; none for an unknown host. -/
def ofHost (s : MemoryStore) (hostname : String) : List BackendBinding :=
  (s.bindings.get? hostname).getD []

/-- One turn of the loop of `selectLocked`. -/
def selectNext (requestPath : String) (allowed : Option (List RouteKind))
    (selected : Option BackendBinding) (candidate : BackendBinding) : Option BackendBinding :=
  if allowed.any fun kinds => candidate.protocol ∉ kinds then selected
  else if selected.all fun right => betterBinding candidate right requestPath then some candidate
  else selected

def selectLocked (s : MemoryStore) (hostname requestPath : String)
    (allowed : Option (List RouteKind)) : Option BackendBinding :=
  (s.ofHost hostname).foldl (selectNext requestPath allowed) none

def get (s : MemoryStore) (hostname requestPath : String) : Option BackendBinding :=
  s.selectLocked (normalizeHost hostname) requestPath none

def getByProtocol (s : MemoryStore) (hostname requestPath : String)
    (protocols : List RouteKind) : Option BackendBinding :=
  s.selectLocked (normalizeHost hostname) requestPath (some protocols)

def put (s : MemoryStore) (binding : BackendBinding) : MemoryStore :=
  let host := normalizeHost binding.hostname
  ⟨s.bindings.set host (s.ofHost host ++ [binding])⟩

def delete (s : MemoryStore) (hostname : String) : MemoryStore :=
  ⟨s.bindings.delete (normalizeHost hostname)⟩

def clear (_ : MemoryStore) : MemoryStore := ⟨.empty⟩

variable {s : MemoryStore} {hostname requestPath : String}

theorem ofHost_put (binding : BackendBinding) (hostname : String) :
    (s.put binding).ofHost hostname
      = s.ofHost hostname
        ++ if normalizeHost binding.hostname = hostname then [binding] else [] := by
  by_cases hh : normalizeHost binding.hostname = hostname
  · rw [if_pos hh, ofHost, put, GoMap.get?_set, if_pos hh, hh]
    rfl
  · rw [if_neg hh, append_nil, ofHost, put, GoMap.get?_set, if_neg hh, ofHost]

theorem ofHost_delete (host hostname : String) :
    (s.delete host).ofHost hostname
      = if normalizeHost host = hostname then [] else s.ofHost hostname := by
  rw [ofHost, delete, GoMap.get?_delete, apply_ite (Option.getD · [])]
  rfl

variable {binding : BackendBinding}

theorem mem_ofHost_put {b : BackendBinding} {hostname : String}
    (h : b ∈ (s.put binding).ofHost hostname) :
    b ∈ s.ofHost hostname ∨ (b = binding ∧ normalizeHost binding.hostname = hostname) := by
  rw [ofHost_put, mem_append] at h
  refine h.imp_right fun hnew => ?_
  split at hnew
  · exact ⟨mem_singleton.mp hnew, by assumption⟩
  · exact absurd hnew not_mem_nil

theorem selectNext_eq_some {allowed : Option (List RouteKind)} {selected : Option BackendBinding}
    {candidate : BackendBinding}
    (h : selectNext requestPath allowed selected candidate = some binding) :
    selected = some binding
      ∨ (binding = candidate ∧ ∀ kinds ∈ allowed, candidate.protocol ∈ kinds) := by
  rw [selectNext] at h
  split at h
  · exact Or.inl h
  · rename_i hallowed
    have hkinds : ∀ kinds ∈ allowed, candidate.protocol ∈ kinds := by
      rintro kinds rfl
      simpa using hallowed
    split at h
    · exact Or.inr ⟨(Option.some.inj h).symm, hkinds⟩
    · exact Or.inl h

theorem selectLocked_mem {allowed : Option (List RouteKind)}
    (h : s.selectLocked hostname requestPath allowed = some binding) :
    binding ∈ s.ofHost hostname ∧ ∀ kinds ∈ allowed, binding.protocol ∈ kinds := by
  -- along the loop: the selected binding is the initial one or one already met
  have hfold : ∀ (bs : List BackendBinding) (selected : Option BackendBinding),
      bs.foldl (selectNext requestPath allowed) selected = some binding →
      selected = some binding ∨ (binding ∈ bs ∧ ∀ kinds ∈ allowed, binding.protocol ∈ kinds) := by
    intro bs
    induction bs with
    | nil => exact fun selected h => Or.inl h
    | cons b bs ih =>
      intro selected h
      rcases ih _ h with hsel | ⟨hmem, hk⟩
      · rcases selectNext_eq_some hsel with hsel | ⟨rfl, hk⟩
        · exact Or.inl hsel
        · exact Or.inr ⟨mem_cons_self, hk⟩
      · exact Or.inr ⟨mem_cons_of_mem b hmem, hk⟩
  rcases hfold _ _ h with h | h
  · exact absurd h nofun
  · exact h

/-- A lookup of any kind finds a binding as soon as there is one. -/
theorem isSome_selectLocked (requestPath : String) (h : s.ofHost hostname ≠ []) :
    (s.selectLocked hostname requestPath none).isSome = true := by
  have hnext : ∀ (selected : Option BackendBinding) (candidate : BackendBinding),
      (selectNext requestPath none selected candidate).isSome = true := by
    intro selected candidate
    rw [selectNext, Option.any_none, if_neg Bool.false_ne_true]
    cases selected with
    | none => rfl
    | some right => split <;> rfl
  rw [selectLocked]
  cases hb : s.ofHost hostname using List.reverseRecOn with
  | nil => exact absurd hb h
  | append_singleton bs b => rw [foldl_append]; exact hnext _ b

end MemoryStore

end Ingress

end LunaEdge
