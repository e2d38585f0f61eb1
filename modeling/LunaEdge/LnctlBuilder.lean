import LunaEdge.GoMap
import LunaEdge.Manage

/-!
# The plan builder

`lnctl.Builder` collects the wanted state of one host name and compares it
with the state it was told exists. The plan it builds has a change for
every row that is new, differs or is no longer wanted.

What a plan leaves in the tables is said row by row: `live_endpoint`,
`live_route` and `live_backend` for layer 7, `live_wantedRoute` and
`live_backend_l4` for layer 4. None of them knows of the other rows of
the host that the tables may hold.

The bookkeeping times of a row are zero in a projection and in a row that
the builder makes, so they play no part in the comparison of endpoints,
routes and backends. DNS records are compared with their times, which the
tables leave out.
-/

namespace LunaEdge

open List

namespace Lnctl

/-! ## Names -/

/-- One pair of the `strings.NewReplacer` of `sanitizeBuilderIDPart`. -/
def replaceRune (c : Char) : List Char :=
  if c ∈ ['/', '.', ':', ' '] then ['_']
  else if c = '*' then "wildcard".toList
  else [c]

def sanitizeBuilderIDPart (value : String) : String :=
  let value := Go.trimSpace (Go.toLower value)
  let value := String.ofList (value.toList.flatMap replaceRune)
  let value := Go.trim value "_"
  if value = "" then "root" else value

def normalizeBuilderPath (path : String) : String :=
  let path := Go.trimSpace path
  if path = "" || !Go.hasPrefix path "/" then "/" else path

def defaultDNSRecordID (record : DNSRecord) : String :=
  Go.colons (["dns", sanitizeBuilderIDPart record.fqdn, sanitizeBuilderIDPart record.recordType]
    ++ if Go.trimSpace record.routingKey = "" then []
      else [sanitizeBuilderIDPart record.routingKey])

/-! ## Builders -/

structure BackendTarget where
  type : ServiceBackendType := .unset
  arbitraryEndpoint : String := ""
  serviceNamespace : String := ""
  serviceName : String := ""
  port : Nat := 0
deriving Repr, DecidableEq

structure RouteSpec where
  path : String
  backend : BackendTarget
deriving Repr, DecidableEq

structure TimedDNSRecord where
  record : DNSRecord
  createdAt : Time := 0
  updatedAt : Time := 0
deriving Repr, DecidableEq

instance : Keyed TimedDNSRecord String := ⟨(·.record.id)⟩

structure Builder where
  hostname : String
  existingProjection : Option DomainEntryProjection := none
  existingDNSRecords : List TimedDNSRecord := []
  desiredBackendType : BackendType := .unset
  desiredNeedCert : Bool := false
  desiredL4Backend : Option BackendTarget := none
  desiredRoutes : List RouteSpec := []
  desiredDNSRecords : List TimedDNSRecord := []

def newBuilder (hostname : String) : Builder := { hostname := Go.trimSpace hostname }

namespace Builder

def withExistingProjection (b : Builder) (entry : Option DomainEntryProjection) : Builder :=
  { b with existingProjection := entry }

def withExistingDNSRecords (b : Builder) (records : List TimedDNSRecord) : Builder :=
  { b with existingDNSRecords := records }

def asL4TLSPassthrough (b : Builder) (backend : BackendTarget) : Builder :=
  { b with
    desiredBackendType := .l4TLSPassthrough
    desiredNeedCert := false
    desiredL4Backend := some backend
    desiredRoutes := [] }

def asL4TLSTermination (b : Builder) (backend : BackendTarget) : Builder :=
  { b with
    desiredBackendType := .l4TLSTermination
    desiredNeedCert := true
    desiredL4Backend := some backend
    desiredRoutes := [] }

def asL7HTTP (b : Builder) : Builder :=
  { b with desiredBackendType := .l7HTTP, desiredNeedCert := false, desiredL4Backend := none }

def asL7HTTPS (b : Builder) : Builder :=
  { b with desiredBackendType := .l7HTTPS, desiredNeedCert := true, desiredL4Backend := none }

def asL7HTTPBoth (b : Builder) : Builder :=
  { b with desiredBackendType := .l7HTTPBoth, desiredNeedCert := true, desiredL4Backend := none }

def route (b : Builder) (path : String) (backend : BackendTarget) : Builder :=
  { b with desiredRoutes := b.desiredRoutes ++ [⟨normalizeBuilderPath path, backend⟩] }

def wantDNS (b : Builder) (record : TimedDNSRecord) : Builder :=
  { b with desiredDNSRecords := b.desiredDNSRecords ++ [record] }

end Builder

/-- A call on a builder before `Build`. -/
inductive BuilderCall where
  | withExistingProjection (entry : Option DomainEntryProjection)
  | withExistingDNSRecords (records : List TimedDNSRecord)
  | asL4TLSPassthrough (backend : BackendTarget)
  | asL4TLSTermination (backend : BackendTarget)
  | asL7HTTP
  | asL7HTTPS
  | asL7HTTPBoth
  | route (path : String) (backend : BackendTarget)
  | wantDNS (record : TimedDNSRecord)

def Builder.call (b : Builder) : BuilderCall → Builder
  | .withExistingProjection entry => b.withExistingProjection entry
  | .withExistingDNSRecords records => b.withExistingDNSRecords records
  | .asL4TLSPassthrough backend => b.asL4TLSPassthrough backend
  | .asL4TLSTermination backend => b.asL4TLSTermination backend
  | .asL7HTTP => b.asL7HTTP
  | .asL7HTTPS => b.asL7HTTPS
  | .asL7HTTPBoth => b.asL7HTTPBoth
  | .route path backend => b.route path backend
  | .wantDNS record => b.wantDNS record

def builderOf (hostname : String) (calls : List BuilderCall) : Builder :=
  calls.foldl Builder.call (newBuilder hostname)

theorem Builder.hostname_call (b : Builder) (c : BuilderCall) :
    (b.call c).hostname = b.hostname := by
  cases c <;> rfl

theorem hostname_builderOf (hostname : String) (calls : List BuilderCall) :
    (builderOf hostname calls).hostname = Go.trimSpace hostname := by
  suffices h : ∀ b : Builder, (calls.foldl Builder.call b).hostname = b.hostname from h _
  induction calls with
  | nil => exact fun _ => rfl
  | cons c calls ih => exact fun b => (ih (b.call c)).trans (b.hostname_call c)

/-! ## Differences -/

section Diff

variable {ρ : Type} [Keyed ρ String]

def byID (rows : List ρ) : GoMap String ρ :=
  rows.foldl (fun m item => m.set (Keyed.key item) item) .empty

/-- `serviceBackendRefChangeID`, `httpRouteChangeID` and `dnsRecordChangeID`. -/
def changeID (change : PlanChange ρ) : String :=
  match change.desired, change.current with
  | some desired, _ => Keyed.key desired
  | none, some current => Keyed.key current
  | none, none => ""

variable {rows : List ρ}

theorem key_of_get?_byID {k : String} {r : ρ} (h : (byID rows).get? k = some r) :
    r ∈ rows ∧ Keyed.key r = k := by
  rw [byID, GoMap.get?_foldl_set] at h
  obtain ⟨hr, hkey⟩ := mem_filter.mp (mem_of_getLast? h)
  exact ⟨hr, of_decide_eq_true hkey⟩

theorem mem_values_byID {r : ρ} :
    r ∈ (byID rows).values ↔ (byID rows).get? (Keyed.key r) = some r := by
  rw [GoMap.mem_values_iff]
  constructor
  · rintro ⟨k, hk⟩
    rwa [(key_of_get?_byID hk).2]
  · exact fun h => ⟨_, h⟩

theorem get?_byID_of_mem {r : ρ} (hr : r ∈ rows)
    (honly : ∀ x ∈ rows, Keyed.key x = Keyed.key r → x = r) :
    (byID rows).get? (Keyed.key r) = some r := by
  cases hget : (byID rows).get? (Keyed.key r) with
  | some x =>
    obtain ⟨hx, hkey⟩ := key_of_get?_byID hget
    rw [honly x hx hkey]
  | none =>
    rw [byID, GoMap.get?_foldl_set, List.getLast?_eq_none_iff, filter_eq_nil_iff] at hget
    exact absurd (decide_eq_true rfl) (hget r hr)

variable [DecidableEq ρ]

def wantedChange (currentMap : GoMap String ρ) (item : ρ) : Option (PlanChange ρ) :=
  match currentMap.get? (Keyed.key item) with
  | none => some { action := .create, desired := some item }
  | some currentItem =>
    if currentItem = item then none
    else some { action := .update, current := some currentItem, desired := some item }

/-- The comparison of two lists of rows. The changes are sorted by their
ids, so the order in which Go ranges over the maps does not matter. -/
def diffRows (current desired : List ρ) : List (PlanChange ρ) :=
  let currentMap := byID current
  let desiredMap := byID desired
  let wanted := desiredMap.values.filterMap (wantedChange currentMap)
  let unwanted := currentMap.values.filter fun item =>
    (desiredMap.get? (Keyed.key item)).isNone
  let removals : List (PlanChange ρ) := unwanted.map fun item =>
    { action := .delete, current := some item }
  (wanted ++ removals).insertionSort fun x y => changeID x ≤ changeID y

def diffRow (current desired : Option ρ) : List (PlanChange ρ) :=
  match current, desired with
  | none, none => []
  | none, some desired => [{ action := .create, desired := some desired }]
  | some current, none => [{ action := .delete, current := some current }]
  | some current, some desired =>
    if current = desired then []
    else [{ action := .update, current := some current, desired := some desired }]

/-- A change is for a wanted row that differs, or for a row that is not
wanted any more. -/
theorem mem_diffRows {current desired : List ρ} {change : PlanChange ρ} :
    change ∈ diffRows current desired
      ↔ (∃ item, (byID desired).get? (Keyed.key item) = some item
          ∧ wantedChange (byID current) item = some change)
        ∨ ∃ item, (byID current).get? (Keyed.key item) = some item
          ∧ (byID desired).get? (Keyed.key item) = none
          ∧ { action := .delete, current := some item } = change := by
  simp only [diffRows, mem_insertionSort, mem_append, mem_filterMap, mem_map,
    mem_filter, mem_values_byID, Option.isNone_iff_eq_none, and_assoc]

theorem wantedChange_eq_none_iff {currentMap : GoMap String ρ} {item : ρ} :
    wantedChange currentMap item = none ↔ currentMap.get? (Keyed.key item) = some item := by
  unfold wantedChange
  cases hcur : currentMap.get? (Keyed.key item) with
  | none => simp
  | some currentItem =>
    dsimp only
    split
    · rename_i heq
      simp [heq]
    · rename_i hne
      simp [hne]

theorem wantedChange_isSome {currentMap : GoMap String ρ} {item : ρ}
    (h : currentMap.get? (Keyed.key item) ≠ some item) :
    ∃ change, wantedChange currentMap item = some change :=
  Option.ne_none_iff_exists'.mp (mt wantedChange_eq_none_iff.mp h)

theorem diffRows_eq_nil_iff {current desired : List ρ} :
    diffRows current desired = []
      ↔ (∀ id item, (byID desired).get? id = some item → (byID current).get? id = some item)
        ∧ ∀ id item, (byID current).get? id = some item →
          ((byID desired).get? id).isSome = true := by
  constructor
  · intro h
    have hnone : ∀ change, change ∉ diffRows current desired := fun change hchange => by
      rw [h] at hchange
      cases hchange
    refine ⟨fun id item hitem => ?_, fun id item hitem => ?_⟩
    · obtain ⟨-, rfl⟩ := key_of_get?_byID hitem
      by_contra hne
      obtain ⟨change, hchange⟩ := wantedChange_isSome hne
      exact hnone change (mem_diffRows.mpr (Or.inl ⟨item, hitem, hchange⟩))
    · obtain ⟨-, rfl⟩ := key_of_get?_byID hitem
      by_contra hgone
      rw [Bool.not_eq_true, Option.isSome_eq_false_iff, Option.isNone_iff_eq_none] at hgone
      exact hnone _ (mem_diffRows.mpr (Or.inr ⟨item, hitem, hgone, rfl⟩))
  · rintro ⟨hwanted, hcurrent⟩
    refine eq_nil_iff_forall_not_mem.mpr fun change hchange => ?_
    rcases mem_diffRows.mp hchange with ⟨item, hitem, hsome⟩ | ⟨item, hitem, hgone, -⟩
    · rw [wantedChange_eq_none_iff.mpr (hwanted _ item hitem)] at hsome
      cases hsome
    · have hsome := hcurrent _ item hitem
      rw [hgone] at hsome
      cases hsome

omit [Keyed ρ String] in
theorem diffRow_eq_nil_iff {current desired : Option ρ} :
    diffRow current desired = [] ↔ current = desired := by
  cases current <;> cases desired <;> simp [diffRow]

end Diff

def diffDomainEndpoint (current desired : Option DomainEndpoint) :
    List (PlanChange DomainEndpoint) := diffRow current desired

def diffServiceBackendRef (current desired : Option ServiceBackendRef) :
    List (PlanChange ServiceBackendRef) := diffRow current desired

def diffServiceBackendRefs (current desired : List ServiceBackendRef) :
    List (PlanChange ServiceBackendRef) := diffRows current desired

def diffHTTPRoutes (current desired : List HTTPRoute) : List (PlanChange HTTPRoute) :=
  diffRows current desired

def diffDNSRecords (current desired : List TimedDNSRecord) : List (PlanChange TimedDNSRecord) :=
  diffRows current desired

def mapChange {σ ρ : Type} (f : σ → ρ) (change : PlanChange σ) : PlanChange ρ :=
  { action := change.action, current := change.current.map f, desired := change.desired.map f }

theorem mapChange_id {ρ : Type} (change : PlanChange ρ) : mapChange id change = change := by
  simp [mapChange]

/-! ## Plans -/

def isL7BackendType (kind : BackendType) : Bool :=
  kind = .l7HTTP || kind = .l7HTTPS || kind = .l7HTTPBoth

inductive BuildError where
  /-- `hostname is required` -/
  | hostnameRequired
  /-- `backend type is required` -/
  | backendTypeRequired
  /-- `l4 backend is required` -/
  | l4BackendRequired
  /-- `at least one l7 route is required` -/
  | l7RouteRequired
deriving Repr, DecidableEq

namespace Builder

variable (b : Builder)

def backendRefID (key : String) : String :=
  "backend:" ++ b.hostname ++ ":" ++ sanitizeBuilderIDPart key

def routeID (path : String) : String := "route:" ++ b.hostname ++ ":" ++ sanitizeBuilderIDPart path

def buildDesiredDomainEndpoint : DomainEndpoint where
  hostname := b.hostname
  needCert := b.desiredNeedCert
  backendType := b.desiredBackendType
  bindedServiceID := if b.desiredL4Backend.isSome then b.backendRefID "l4" else ""

def buildBackendRef (key : String) (target : BackendTarget) : ServiceBackendRef where
  id := b.backendRefID key
  type := if target.type = .unset then .svc else target.type
  arbitraryEndpoint := Go.trimSpace target.arbitraryEndpoint
  serviceNamespace := Go.trimSpace target.serviceNamespace
  serviceName := Go.trimSpace target.serviceName
  port := target.port

def buildRoute (spec : RouteSpec) : HTTPRoute where
  id := b.routeID spec.path
  hostname := b.hostname
  path := spec.path
  priority := Go.len spec.path
  backendRefID := b.backendRefID spec.path

def buildDesiredL7Resources : List HTTPRoute × List ServiceBackendRef :=
  (b.desiredRoutes.map b.buildRoute,
    b.desiredRoutes.map fun spec => b.buildBackendRef spec.path spec.backend)

def buildDesiredDNSRecords : List TimedDNSRecord :=
  b.desiredDNSRecords.map fun item =>
    if Go.trimSpace item.record.id = "" then
      { item with record := { item.record with id := defaultDNSRecordID item.record } }
    else item

def currentDomainEndpoint : Option DomainEndpoint :=
  b.existingProjection.map fun entry =>
    { deleted := entry.deleted
      hostname := entry.hostname
      needCert := entry.needCert
      backendType := entry.backendType
      bindedServiceID := (entry.bindedBackendRef.map (·.id)).getD "" }

def currentL4BackendRef : Option ServiceBackendRef := b.existingProjection.bind (·.bindedBackendRef)

def currentL7BackendRefs : List ServiceBackendRef :=
  match b.existingProjection with
  | none => []
  | some entry =>
    let seen := byID ((entry.httpRoutes.filterMap (·.backendRef)).filter (·.id ≠ ""))
    seen.values.insertionSort fun x y => x.id ≤ y.id

def currentHTTPRoutes : List HTTPRoute :=
  match b.existingProjection with
  | none => []
  | some entry =>
    entry.httpRoutes.map fun route =>
      { id := route.id
        hostname := entry.hostname
        path := route.path
        priority := route.priority
        backendRefID := (route.backendRef.map (·.id)).getD "" }

/-- The part of `Build` after the checks. -/
def plan : Plan where
  hostname := b.hostname
  domainEndpoints := diffDomainEndpoint b.currentDomainEndpoint (some b.buildDesiredDomainEndpoint)
  serviceBackendRefs :=
    if b.desiredBackendType.isL4 then
      diffServiceBackendRef b.currentL4BackendRef
          (b.desiredL4Backend.map (b.buildBackendRef "l4"))
        ++ b.currentL7BackendRefs.flatMap fun backend => diffServiceBackendRef (some backend) none
    else
      diffServiceBackendRefs b.currentL7BackendRefs b.buildDesiredL7Resources.2
        ++ diffServiceBackendRef b.currentL4BackendRef none
  httpRoutes :=
    if b.desiredBackendType.isL4 then diffHTTPRoutes b.currentHTTPRoutes []
    else diffHTTPRoutes b.currentHTTPRoutes b.buildDesiredL7Resources.1
  dnsRecords :=
    (diffDNSRecords b.existingDNSRecords b.buildDesiredDNSRecords).map (mapChange (·.record))

def build : Except BuildError Plan :=
  if b.hostname = "" then .error .hostnameRequired
  else if b.desiredBackendType = .unset then .error .backendTypeRequired
  else if b.desiredBackendType.isL4 && b.desiredL4Backend.isNone then .error .l4BackendRequired
  else if isL7BackendType b.desiredBackendType && b.desiredRoutes.isEmpty then
    .error .l7RouteRequired
  else .ok b.plan

theorem plan_of_build {b : Builder} {plan : Plan} (h : b.build = .ok plan) : b.plan = plan := by
  unfold build at h
  split_ifs at h
  exact Except.ok.inj h

end Builder

theorem isL4_of_isL7 {kind : BackendType} (h : isL7BackendType kind = true) :
    kind.isL4 = false := by
  cases kind with
  | l4TLSPassthrough | l4TLSTermination => cases h
  | l7HTTPS | l7HTTP | l7HTTPBoth | other _ _ => rfl

/-! ## The rows after a difference -/

section Rows

variable {ρ : Type} [Stored ρ]
  (hset : ∀ (repo : Repo) (t : Table ρ), Stored.table (Stored.setTable repo t) = t)

/-- What a change makes of the live row of a key; `none` if it is about
another key. -/
def outcome (change : PlanChange ρ) (k : String) : Option (Option ρ) :=
  match change.action with
  | .create | .update =>
    (change.desired.filter fun r => Keyed.key r = k).map fun r =>
      if Resource.deleted r then none else some (Resource.withDefaults r)
  | .delete => (change.current.filter fun r => Keyed.key r = k).map fun _ => none
  | .other _ _ => none

include hset in
theorem live?_write (repo : Repo) (change : PlanChange ρ) (k : String) :
    (Stored.table (change.write repo) : Table ρ).live? k
      = (outcome change k).getD ((Stored.table repo : Table ρ).live? k) := by
  obtain ⟨action, current, desired⟩ := change
  cases action with
  | create | update =>
    cases desired with
    | none => rfl
    | some r =>
      show (Stored.table (repo.upsertResource r) : Table ρ).live? k = _
      rw [Repo.upsertResource, hset, Table.live?_upsertResource, outcome]
      by_cases hk : Keyed.key r = k <;> simp [hk, Option.filter]
  | delete =>
    cases current with
    | none => rfl
    | some r =>
      show (Stored.table (repo.retire ρ (Keyed.key r)) : Table ρ).live? k = _
      rw [Repo.retire, hset, Table.live?_retire, outcome]
      by_cases hk : Keyed.key r = k <;> simp [hk, Option.filter]
  | other value hvalue => rfl

theorem foldl_write_frame {γ : Type} {f : Repo → γ}
    (hf : ∀ (repo : Repo) (t : Table ρ), f (Stored.setTable repo t) = f repo)
    (changes : List (PlanChange ρ)) (repo : Repo) :
    f (changes.foldl PlanChange.write repo) = f repo := by
  induction changes generalizing repo with
  | nil => rfl
  | cons change changes ih =>
    rw [foldl_cons, ih]
    obtain ⟨action, current, desired⟩ := change
    cases action with
    | create | update =>
      cases desired with
      | none => rfl
      | some r => exact hf repo _
    | delete =>
      cases current with
      | none => rfl
      | some r => exact hf repo _
    | other value hvalue => rfl

include hset in
/-- If all changes of a key have one outcome, it is the live row after them. -/
theorem live?_foldl_write {changes : List (PlanChange ρ)} {k : String} {row : Option ρ}
    (repo : Repo)
    (hall : ∀ change ∈ changes, ∀ o, outcome change k = some o → o = row)
    (hnone : (∀ change ∈ changes, outcome change k = none) →
      (Stored.table repo : Table ρ).live? k = row) :
    (Stored.table (changes.foldl PlanChange.write repo) : Table ρ).live? k = row := by
  induction changes generalizing repo with
  | nil => exact hnone fun _ h => absurd h not_mem_nil
  | cons change changes ih =>
    refine ih _ (fun c hc => hall c (mem_cons_of_mem _ hc)) fun hrest => ?_
    rw [live?_write hset]
    cases ho : outcome change k with
    | some o => exact hall change mem_cons_self o ho
    | none => exact hnone (forall_mem_cons.mpr ⟨ho, hrest⟩)

section Mapped

variable {σ : Type} [Keyed σ String] [DecidableEq σ] {f : σ → ρ}
  (hf : ∀ x, Keyed.key (f x) = Keyed.key x)
include hf

theorem outcome_of_wantedChange {currentMap : GoMap String σ} {item : σ} {change : PlanChange σ}
    (h : wantedChange currentMap item = some change) (hdel : Resource.deleted (f item) = false)
    (k : String) :
    currentMap.get? (Keyed.key item) ≠ some item
      ∧ outcome (mapChange f change) k
        = if Keyed.key item = k then some (some (Resource.withDefaults (f item))) else none := by
  unfold wantedChange at h
  cases hcur : currentMap.get? (Keyed.key item) with
  | none =>
    rw [hcur] at h
    obtain rfl := Option.some.inj h
    refine ⟨Option.some_ne_none item |>.symm, ?_⟩
    by_cases hk : Keyed.key item = k <;> simp [outcome, mapChange, Option.filter, hf, hk, hdel]
  | some currentItem =>
    rw [hcur] at h
    dsimp only at h
    split at h
    · cases h
    · rename_i hne
      obtain rfl := Option.some.inj h
      refine ⟨fun heq => hne (Option.some.inj heq), ?_⟩
      by_cases hk : Keyed.key item = k <;> simp [outcome, mapChange, Option.filter, hf, hk, hdel]

/-- The live row of a key after the changes of a comparison, with the rows
that they write. -/
def mappedRowAfter (f : σ → ρ) (current desired : List σ) (t : Table ρ) (k : String) : Option ρ :=
  match (byID desired).get? k with
  | some item =>
    if (byID current).get? k = some item then t.live? k
    else some (Resource.withDefaults (f item))
  | none => if ((byID current).get? k).isSome then none else t.live? k

section DiffRows

variable {current desired : List σ} (hdel : ∀ r ∈ desired, Resource.deleted (f r) = false)
include hdel

theorem eq_mappedRowAfter_of_outcome {t : Table ρ} {change : PlanChange ρ} {k : String}
    {o : Option ρ} (hchange : change ∈ (diffRows current desired).map (mapChange f))
    (ho : outcome change k = some o) : o = mappedRowAfter f current desired t k := by
  obtain ⟨source, hsource, rfl⟩ := mem_map.mp hchange
  rcases mem_diffRows.mp hsource with ⟨item, hitem, hwanted⟩ | ⟨item, hitem, hgone, rfl⟩
  · obtain ⟨hne, hout⟩ :=
      outcome_of_wantedChange hf hwanted (hdel item (key_of_get?_byID hitem).1) k
    rw [hout] at ho
    split at ho
    · rename_i hk
      subst hk
      rw [mappedRowAfter, hitem]
      dsimp only
      rw [if_neg hne, ← Option.some.inj ho]
    · cases ho
  · obtain ⟨r, hr, rfl⟩ := Option.map_eq_some_iff.mp ho
    obtain ⟨heq, hk⟩ := Option.filter_eq_some_iff.mp hr
    obtain rfl := Option.some.inj heq
    obtain rfl : Keyed.key item = k := (hf item).symm.trans (of_decide_eq_true hk)
    rw [mappedRowAfter, hgone, hitem]
    rfl

theorem live?_eq_mappedRowAfter (t : Table ρ) {k : String}
    (hnone : ∀ change ∈ (diffRows current desired).map (mapChange f), outcome change k = none) :
    t.live? k = mappedRowAfter f current desired t k := by
  rw [mappedRowAfter]
  cases hitem : (byID desired).get? k with
  | some item =>
    dsimp only
    split
    · rfl
    · -- a wanted row that differs has a change
      rename_i hne
      obtain ⟨hmem, rfl⟩ := key_of_get?_byID hitem
      obtain ⟨change, hwanted⟩ := wantedChange_isSome hne
      have hout := hnone _ (mem_map_of_mem (f := mapChange f)
        (mem_diffRows.mpr (Or.inl ⟨item, hitem, hwanted⟩)))
      rw [(outcome_of_wantedChange hf hwanted (hdel item hmem) _).2, if_pos rfl] at hout
      cases hout
  | none =>
    dsimp only
    split
    · -- and so has one that is not wanted any more
      rename_i hsome
      obtain ⟨item, hcur⟩ := Option.isSome_iff_exists.mp hsome
      obtain ⟨-, rfl⟩ := key_of_get?_byID hcur
      have hout := hnone _ (mem_map_of_mem (f := mapChange f)
        (mem_diffRows.mpr (Or.inr ⟨item, hcur, hitem, rfl⟩)))
      simp [outcome, mapChange, Option.filter, hf] at hout
    · rfl

include hset in
theorem live?_diffRows_map (repo : Repo) (k : String) :
    (Stored.table (((diffRows current desired).map (mapChange f)).foldl PlanChange.write repo) :
        Table ρ).live? k
      = mappedRowAfter f current desired (Stored.table repo) k :=
  live?_foldl_write hset repo (fun _ hchange _ ho => eq_mappedRowAfter_of_outcome hf hdel hchange ho)
    fun hnone => live?_eq_mappedRowAfter hf hdel _ hnone

end DiffRows

end Mapped

variable [DecidableEq ρ]

def rowAfter (current desired : List ρ) (t : Table ρ) (k : String) : Option ρ :=
  match (byID desired).get? k with
  | some item =>
    if (byID current).get? k = some item then t.live? k else some (Resource.withDefaults item)
  | none => if ((byID current).get? k).isSome then none else t.live? k

include hset

theorem live?_diffRows {current desired : List ρ}
    (hdel : ∀ r ∈ desired, Resource.deleted r = false) (repo : Repo) (k : String) :
    (Stored.table ((diffRows current desired).foldl PlanChange.write repo) : Table ρ).live? k
      = rowAfter current desired (Stored.table repo) k := by
  have h : (Stored.table (((diffRows current desired).map (mapChange id)).foldl PlanChange.write
      repo) : Table ρ).live? k = rowAfter current desired (Stored.table repo) k :=
    live?_diffRows_map hset (fun _ => rfl) hdel repo k
  rwa [map_congr_left (g := id) fun change _ => mapChange_id change, map_id] at h

theorem live?_diffRow {desired : ρ} (hdel : Resource.deleted desired = false)
    (current : Option ρ) (repo : Repo) :
    (Stored.table ((diffRow current (some desired)).foldl PlanChange.write repo) : Table ρ).live?
        (Keyed.key desired)
      = if current = some desired then (Stored.table repo : Table ρ).live? (Keyed.key desired)
        else some (Resource.withDefaults desired) := by
  cases current with
  | none =>
    rw [diffRow, foldl_cons, foldl_nil, live?_write hset]
    simp [outcome, Option.filter, hdel]
  | some current =>
    rw [diffRow]
    by_cases heq : current = desired
    · rw [if_pos heq, if_pos (congrArg some heq)]
      rfl
    · rw [if_neg heq, if_neg fun h => heq (Option.some.inj h), foldl_cons, foldl_nil,
        live?_write hset]
      simp [outcome, Option.filter, hdel]

theorem live?_diffRow_of_ne {desired : ρ} (current : Option ρ) (repo : Repo) {k : String}
    (hk : Keyed.key desired ≠ k) :
    (Stored.table ((diffRow current (some desired)).foldl PlanChange.write repo) : Table ρ).live? k
      = (Stored.table repo : Table ρ).live? k := by
  cases current with
  | none =>
    rw [diffRow, foldl_cons, foldl_nil, live?_write hset]
    simp [outcome, Option.filter, hk]
  | some current =>
    rw [diffRow]
    split
    · rfl
    · rw [foldl_cons, foldl_nil, live?_write hset]
      simp [outcome, Option.filter, hk]

theorem live?_diffRow_none (current : Option ρ) (repo : Repo) (k : String) :
    (Stored.table ((diffRow current none).foldl PlanChange.write repo) : Table ρ).live? k
      = if current.any fun r => Keyed.key r = k then none
        else (Stored.table repo : Table ρ).live? k := by
  cases current with
  | none => rfl
  | some current =>
    rw [diffRow, foldl_cons, foldl_nil, live?_write hset]
    by_cases hk : Keyed.key current = k <;> simp [outcome, Option.filter, hk]

theorem live?_flatMap_diffRow_none (current : List ρ) (repo : Repo) (k : String) :
    (Stored.table ((current.flatMap fun r => diffRow (some r) none).foldl PlanChange.write repo) :
        Table ρ).live? k
      = if current.any fun r => Keyed.key r = k then none
        else (Stored.table repo : Table ρ).live? k := by
  induction current generalizing repo with
  | nil => rfl
  | cons r current ih =>
    rw [flatMap_cons, foldl_append, ih, live?_diffRow_none hset, any_cons, Option.any_some]
    by_cases hk : Keyed.key r = k <;> simp [hk]

end Rows

/-! ## The rows after a plan -/

namespace Builder

variable (b : Builder) (repo : Repo)

/-- The endpoint is not written if the existing one is the wanted one. -/
def endpointAfter : Option DomainEndpoint :=
  if b.currentDomainEndpoint = some b.buildDesiredDomainEndpoint then
    repo.domainEndpoints.live? b.hostname
  else some b.buildDesiredDomainEndpoint

def routeAfter (id : String) : Option HTTPRoute :=
  rowAfter b.currentHTTPRoutes b.buildDesiredL7Resources.1 repo.httpRoutes id

/-- A host of layer 4 has no routes. -/
def wantedRoutes : List HTTPRoute :=
  if b.desiredBackendType.isL4 then [] else b.buildDesiredL7Resources.1

/-- The backend that was bound before goes last. -/
def backendAfter (id : String) : Option ServiceBackendRef :=
  if b.currentL4BackendRef.any fun ref => ref.id = id then none
  else rowAfter b.currentL7BackendRefs b.buildDesiredL7Resources.2 repo.serviceBackendRefs id

variable {b}

theorem domainEndpoints_plan : b.plan.domainEndpoints
    = diffRow b.currentDomainEndpoint (some b.buildDesiredDomainEndpoint) := rfl

theorem httpRoutes_plan : b.plan.httpRoutes = diffRows b.currentHTTPRoutes b.wantedRoutes := by
  rw [plan, wantedRoutes]
  split <;> rfl

theorem serviceBackendRefs_l4 (hl4 : b.desiredBackendType.isL4 = true) {target : BackendTarget}
    (htarget : b.desiredL4Backend = some target) :
    b.plan.serviceBackendRefs
      = diffRow b.currentL4BackendRef (some (b.buildBackendRef "l4" target))
        ++ b.currentL7BackendRefs.flatMap fun ref => diffRow (some ref) none := by
  rw [plan, hl4, htarget]
  rfl

theorem serviceBackendRefs_l7 (hl7 : b.desiredBackendType.isL4 = false) :
    b.plan.serviceBackendRefs
      = diffRows b.currentL7BackendRefs b.buildDesiredL7Resources.2
        ++ diffRow b.currentL4BackendRef none := by
  rw [plan, hl7]
  rfl

theorem domainEndpoints_writeRows (plan : Plan) :
    (plan.writeRows repo).domainEndpoints = repo.domainEndpoints := by
  rw [Plan.writeRows, foldl_write_frame (f := (·.domainEndpoints)) fun _ _ => rfl,
    foldl_write_frame (f := (·.domainEndpoints)) fun _ _ => rfl]

theorem live_endpoint :
    (b.plan.write repo).domainEndpoints.live? b.hostname = b.endpointAfter repo := by
  rw [Plan.write, foldl_write_frame (f := (·.domainEndpoints)) fun _ _ => rfl, endpointAfter,
    ← domainEndpoints_writeRows repo b.plan]
  exact live?_diffRow (fun _ _ => rfl) rfl b.currentDomainEndpoint (b.plan.writeRows repo)

theorem live_endpoint_of_ne {g : String} (hg : b.hostname ≠ g) :
    (b.plan.write repo).domainEndpoints.live? g = repo.domainEndpoints.live? g := by
  rw [Plan.write, foldl_write_frame (f := (·.domainEndpoints)) fun _ _ => rfl,
    ← domainEndpoints_writeRows repo b.plan]
  exact live?_diffRow_of_ne (fun _ _ => rfl) b.currentDomainEndpoint (b.plan.writeRows repo) hg

theorem live_wantedRoute (id : String) :
    (b.plan.write repo).httpRoutes.live? id
      = rowAfter b.currentHTTPRoutes b.wantedRoutes repo.httpRoutes id := by
  rw [Plan.write, foldl_write_frame (f := (·.httpRoutes)) fun _ _ => rfl,
    foldl_write_frame (f := (·.httpRoutes)) fun _ _ => rfl, Plan.writeRows,
    foldl_write_frame (f := (·.httpRoutes)) fun _ _ => rfl, httpRoutes_plan]
  refine live?_diffRows (fun _ _ => rfl) (fun r hr => ?_) repo id
  rw [wantedRoutes] at hr
  split at hr
  · cases hr
  · obtain ⟨spec, -, rfl⟩ := mem_map.mp hr
    rfl

/-- The backends are written after the routes. -/
theorem live_backendChanges (id : String) :
    (b.plan.write repo).serviceBackendRefs.live? id
      = (b.plan.serviceBackendRefs.foldl PlanChange.write
          (b.plan.httpRoutes.foldl PlanChange.write repo)).serviceBackendRefs.live? id := by
  rw [Plan.write, foldl_write_frame (f := (·.serviceBackendRefs)) fun _ _ => rfl,
    foldl_write_frame (f := (·.serviceBackendRefs)) fun _ _ => rfl, Plan.writeRows]

/-- At layer 4 the backends of the routes go last. -/
theorem live_backend_l4 (hl4 : b.desiredBackendType.isL4 = true) {target : BackendTarget}
    (htarget : b.desiredL4Backend = some target) (id : String) :
    (b.plan.write repo).serviceBackendRefs.live? id
      = if b.currentL7BackendRefs.any fun ref => ref.id = id then none
        else if b.backendRefID "l4" = id then
          if b.currentL4BackendRef = some (b.buildBackendRef "l4" target) then
            repo.serviceBackendRefs.live? id
          else some (b.buildBackendRef "l4" target).withDefaults
        else repo.serviceBackendRefs.live? id := by
  have hroutes : (b.plan.httpRoutes.foldl PlanChange.write repo).serviceBackendRefs
      = repo.serviceBackendRefs := foldl_write_frame (fun _ _ => rfl) _ _
  rw [live_backendChanges, serviceBackendRefs_l4 hl4 htarget, foldl_append, ← hroutes]
  refine (live?_flatMap_diffRow_none (fun _ _ => rfl) _ _ id).trans (if_congr Iff.rfl rfl ?_)
  by_cases hid : b.backendRefID "l4" = id
  · subst hid
    rw [if_pos rfl]
    exact live?_diffRow (fun _ _ => rfl) rfl b.currentL4BackendRef _
  · rw [if_neg hid]
    exact live?_diffRow_of_ne (fun _ _ => rfl) b.currentL4BackendRef _ hid

variable (hl7 : b.desiredBackendType.isL4 = false)
include hl7

theorem live_route (id : String) :
    (b.plan.write repo).httpRoutes.live? id = b.routeAfter repo id := by
  rw [live_wantedRoute, wantedRoutes, hl7]
  rfl

theorem live_backend (id : String) :
    (b.plan.write repo).serviceBackendRefs.live? id = b.backendAfter repo id := by
  have hroutes : (b.plan.httpRoutes.foldl PlanChange.write repo).serviceBackendRefs
      = repo.serviceBackendRefs := foldl_write_frame (fun _ _ => rfl) _ _
  rw [live_backendChanges, serviceBackendRefs_l7 hl7, foldl_append, backendAfter, ← hroutes]
  refine (live?_diffRow_none (fun _ _ => rfl) b.currentL4BackendRef _ id).trans ?_
  refine if_congr Iff.rfl rfl (live?_diffRows (fun _ _ => rfl) (fun r hr => ?_) _ id)
  obtain ⟨spec, -, rfl⟩ := mem_map.mp hr
  rfl

end Builder

end Lnctl

end LunaEdge
