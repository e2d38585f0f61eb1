import LunaEdge.PlanTargets

/-!
# Building twice

A specification is built against what the queries answer, its plan is
applied, and it is built again. Endpoint, routes and backends compare
equal then exactly if the targets were reached as specified
(`rows_unchanged_iff`): what the first plan has left undone the second
will change.

DNS records are compared with the times of their rows. The database never
stores a zero time, so a record that is wanted without times differs from
its own row whenever it is compared (`dnsRecords_unchanged_iff`). The times of
the rows are a parameter here, since the tables leave them out, and
`StoredTime` is the premise about them.
-/

namespace LunaEdge

open List

namespace Lnctl

open K8sBridge

/-! ## Endpoint, routes and backends -/

namespace Builder

def refreshed (b : Builder) (entry : Option DomainEntryProjection)
    (records : List TimedDNSRecord) : Builder :=
  (b.withExistingProjection entry).withExistingDNSRecords records

section Rows

variable {b : Builder} {repo : Repo} {entry : Option DomainEntryProjection}
  {records : List TimedDNSRecord} (hfresh : b.Fresh repo) (hbuilt : b.Built)
  (hagain : (b.refreshed entry records).Fresh (b.plan.write repo))
include hfresh hbuilt hagain

theorem currentDomainEndpoint_after :
    (b.refreshed entry records).currentDomainEndpoint
      = some { hostname := b.hostname
               needCert := b.desiredNeedCert
               backendType := b.desiredBackendType
               bindedServiceID := ((boundBackend (b.plan.write repo) b.hostname).map
                 (·.id)).getD "" } := by
  obtain ⟨de, hlive, hcert, htype, -⟩ := endpoint_after hfresh hbuilt
  obtain ⟨_, -, rfl, -, hbound⟩ := projection_eq _ hlive
  have hhost : de.hostname = b.hostname := Table.key_of_live? hlive
  have hentry : (b.refreshed entry records).existingProjection
      = some (projectionOf (b.plan.write repo) de) := by
    rw [hagain.projection]
    exact congrArg (Option.map _) hlive
  rw [currentDomainEndpoint, hentry, Option.map_some, hbound]
  simp only [projectionOf, hhost, hcert, htype]

/-- No endpoint, backend or route is changed by the second plan. -/
def RowsUnchanged (b : Builder) : Prop :=
  b.plan.domainEndpoints = [] ∧ b.plan.serviceBackendRefs = [] ∧ b.plan.httpRoutes = []

theorem rows_unchanged_l4 {target : BackendTarget} (htarget : b.desiredL4Backend = some target) :
    (b.refreshed entry records).RowsUnchanged
      ↔ shownBackend repo b.hostname (b.backendRefID "l4") = false := by
  have hl4 := hbuilt.isL4_of_some htarget
  have hbound : boundBackend (b.plan.write repo) b.hostname
      = if shownBackend repo b.hostname (b.backendRefID "l4") then none
        else some (b.buildBackendRef "l4" target) := by
    rw [boundBackend_after hfresh hbuilt, if_pos hl4, backend_after_l4 hfresh hl4 htarget,
      if_pos rfl]
  have hshown : shownRoutes (b.plan.write repo) b.hostname = [] := by
    rw [shownRoutes_after hfresh hbuilt, if_pos hl4]
  have hwanted : (b.refreshed entry records).buildDesiredDomainEndpoint
      = { hostname := b.hostname
          needCert := b.desiredNeedCert
          backendType := b.desiredBackendType
          bindedServiceID := b.backendRefID "l4" } := by
    have hif : (if b.desiredL4Backend.isSome then b.backendRefID "l4" else "")
        = b.backendRefID "l4" := by rw [htarget]; rfl
    exact congrArg (DomainEndpoint.mk _ _ _ _) hif
  constructor
  · rintro ⟨hdomain, -⟩
    rw [domainEndpoints_plan, diffRow_eq_nil_iff,
      currentDomainEndpoint_after hfresh hbuilt hagain, hwanted, hbound] at hdomain
    cases hs : shownBackend repo b.hostname (b.backendRefID "l4") with
    | false => rfl
    | true =>
      rw [hs] at hdomain
      have hid := congrArg DomainEndpoint.bindedServiceID (Option.some.inj hdomain)
      exact absurd hid.symm (backendRefID_ne_empty "l4")
  · intro hs
    rw [hs, if_neg Bool.false_ne_true] at hbound
    refine ⟨?_, ?_, ?_⟩
    · rw [domainEndpoints_plan, diffRow_eq_nil_iff,
        currentDomainEndpoint_after hfresh hbuilt hagain, hwanted, hbound]
      rfl
    · have hcurrent : (b.refreshed entry records).currentL4BackendRef
          = some (b.buildBackendRef "l4" target) := hagain.currentL4BackendRef.trans hbound
      have hnone : (b.refreshed entry records).currentL7BackendRefs = [] := by
        refine eq_nil_iff_forall_not_mem.mpr fun ref href => ?_
        obtain ⟨r, hr, -⟩ := hagain.mem_currentL7BackendRefs.mp href
        have hr : r ∈ shownRoutes (b.plan.write repo) b.hostname := hr
        rw [hshown] at hr
        cases hr
      refine (serviceBackendRefs_l4 (b := b.refreshed entry records) hl4 htarget).trans ?_
      rw [hcurrent, hnone, flatMap_nil, append_nil]
      exact diffRow_eq_nil_iff.mpr rfl
    · have hroutes : (b.refreshed entry records).currentHTTPRoutes = [] := by
        rw [hagain.currentHTTPRoutes]
        exact congrArg (List.map _) hshown
      have hwantedRoutes : (b.refreshed entry records).wantedRoutes = [] := if_pos hl4
      rw [httpRoutes_plan, hroutes, hwantedRoutes]
      rfl

section Layer7

variable (htarget : b.desiredL4Backend = none)
include htarget

omit hagain in
theorem mem_shownRoutes_after {r : HTTPRoute} :
    r ∈ shownRoutes (b.plan.write repo) b.hostname
      ↔ (∃ spec, b.kept spec = true ∧ r = b.buildRoute spec) ∨ r ∈ b.hiddenRoutes repo := by
  have hl7 := hbuilt.isL4_of_none htarget
  rw [shownRoutes_after hfresh hbuilt, if_neg (by rw [hl7]; decide),
    mem_sortedRoutes_after hfresh hbuilt, wantedRoute_iff hl7]

omit hagain in
theorem boundBackend_after_l7 : boundBackend (b.plan.write repo) b.hostname = none := by
  rw [boundBackend_after hfresh hbuilt, hbuilt.isL4_of_none htarget, if_neg Bool.false_ne_true]

variable (hids : (b.desiredRoutes.map fun spec => b.routeID spec.path).Nodup)
include hids

/-- A second plan that leaves the routes alone finds the backend of each
there, and no other route. -/
theorem holds_of_httpRoutes (hroutes : (b.refreshed entry records).plan.httpRoutes = []) :
    b.Holds repo := by
  have hl7 := hbuilt.isL4_of_none htarget
  rw [httpRoutes_plan, diffRows_eq_nil_iff] at hroutes
  rw [holds_iff_of_none htarget]
  refine ⟨fun spec hspec => ?_, eq_nil_iff_forall_not_mem.mpr fun r hr => ?_⟩
  · -- the row of the route names a backend that is there
    have hwanted := wantedRoute_routeID hl7 spec.path
    rw [of_decide_eq_true (kept_of_nodup hids hspec)] at hwanted
    obtain ⟨r, -, -, hsame⟩ := hagain.get?_currentHTTPRoutes.mp (hroutes.1 _ _ hwanted)
    have hid : ((projectedBackend (b.plan.write repo) r.backendRefID).map (·.id)).getD ""
        = b.backendRefID spec.path := congrArg HTTPRoute.backendRefID hsame
    cases href : projectedBackend (b.plan.write repo) r.backendRefID with
    | none =>
      rw [href] at hid
      exact absurd hid.symm (backendRefID_ne_empty spec.path)
    | some ref =>
      rw [href] at hid
      rw [(id_of_projectedBackend href).1.symm.trans hid, backend_after_l7 hfresh hl7] at href
      exact unbound_of_projectedAfter (Option.isSome_of_eq_some href)
  · have hshown := (mem_shownRoutes_after hfresh hbuilt htarget).mpr (Or.inr hr)
    have hsome := hroutes.2 _ _ (hagain.get?_currentHTTPRoutes.mpr ⟨r, hshown, rfl, rfl⟩)
    rw [show (byID (b.refreshed entry records).wantedRoutes).get? r.id = none from
      wantedRoute_of_hidden hr] at hsome
    cases hsome

variable (hholds : b.Holds repo)
include hholds

omit hagain hids in
theorem mem_shownRoutes_held {r : HTTPRoute} :
    r ∈ shownRoutes (b.plan.write repo) b.hostname
      ↔ ∃ spec, b.kept spec = true ∧ r = b.buildRoute spec := by
  rw [mem_shownRoutes_after hfresh hbuilt htarget, (hholds.l7 htarget).2]
  simp

omit hagain hids in
theorem projectedBackend_held {spec : RouteSpec} (hkept : b.kept spec = true) :
    projectedBackend (b.plan.write repo) (b.backendRefID spec.path)
      = some (b.buildBackendRef spec.path spec.backend) := by
  have hspec := (specOf_spec (of_decide_eq_true hkept)).1
  rw [backend_after_l7 hfresh (hbuilt.isL4_of_none htarget)]
  exact projectedAfter_of_kept hkept ((hholds.l7 htarget).1 spec hspec)

theorem serviceBackendRefs_unchanged :
    (b.refreshed entry records).plan.serviceBackendRefs = [] := by
  refine (serviceBackendRefs_l7 (b := b.refreshed entry records)
    (hbuilt.isL4_of_none htarget)).trans ?_
  rw [hagain.currentL4BackendRef, show boundBackend (b.plan.write repo)
    (b.refreshed entry records).hostname = none from boundBackend_after_l7 hfresh hbuilt htarget,
    append_eq_nil_iff]
  refine ⟨diffRows_eq_nil_iff.mpr ⟨fun id w hw => ?_, fun id ref href => ?_⟩, rfl⟩
  · obtain ⟨hmem, rfl⟩ := key_of_get?_byID hw
    obtain ⟨spec, hspec, rfl⟩ := mem_map.mp hmem
    have hkept := kept_of_nodup hids hspec
    have hroute := (mem_shownRoutes_held hfresh hbuilt htarget hholds).mpr ⟨spec, hkept, rfl⟩
    have howned := projectedBackend_held hfresh hbuilt htarget hholds hkept
    have hseen : shownBackend (b.plan.write repo) b.hostname (b.backendRefID spec.path)
        = true := shownBackend_iff.mpr ⟨⟨_, hroute, rfl⟩, _, howned⟩
    exact hagain.get?_currentL7BackendRefs.mpr ⟨hseen, howned⟩
  · obtain ⟨hs, -⟩ := hagain.get?_currentL7BackendRefs.mp href
    obtain ⟨⟨r, hr, rfl⟩, -⟩ := shownBackend_iff.mp hs
    obtain ⟨spec, hkept, rfl⟩ := (mem_shownRoutes_held hfresh hbuilt htarget hholds).mp hr
    exact wantedBackend_isSome_iff.mpr ⟨spec, (specOf_spec (of_decide_eq_true hkept)).1, rfl⟩

omit hids in
theorem httpRoutes_unchanged : (b.refreshed entry records).plan.httpRoutes = [] := by
  have hl7 := hbuilt.isL4_of_none htarget
  have hshown {r : HTTPRoute} := mem_shownRoutes_held hfresh hbuilt htarget hholds (r := r)
  rw [httpRoutes_plan]
  refine diffRows_eq_nil_iff.mpr ⟨fun id w hw => ?_, fun id x hx => ?_⟩
  · have hid : w.id = id := (wantedRoute_spec (b := b) hw).1
    obtain ⟨spec, hkept, rfl⟩ := (wantedRoute_iff hl7).mp (hid ▸ hw)
    refine hagain.get?_currentHTTPRoutes.mpr
      ⟨b.buildRoute spec, hshown.mpr ⟨spec, hkept, rfl⟩, hid, ?_⟩
    have href : ((projectedBackend (b.plan.write repo) (b.backendRefID spec.path)).map
        (·.id)).getD "" = b.backendRefID spec.path := by
      rw [projectedBackend_held hfresh hbuilt htarget hholds hkept]
      rfl
    exact congrArg (HTTPRoute.mk _ _ _ _ _) href
  · obtain ⟨r, hr, rfl, -⟩ := hagain.get?_currentHTTPRoutes.mp hx
    have hwanted : b.wantedRoute r.id = some r := (wantedRoute_iff hl7).mpr (hshown.mp hr)
    exact Option.isSome_iff_exists.mpr ⟨r, hwanted⟩

omit hholds in
theorem rows_unchanged_l7 : (b.refreshed entry records).RowsUnchanged ↔ b.Holds repo := by
  constructor
  · rintro ⟨-, -, hroutes⟩
    exact holds_of_httpRoutes hfresh hbuilt hagain htarget hids hroutes
  · intro hholds
    refine ⟨?_, serviceBackendRefs_unchanged hfresh hbuilt hagain htarget hids hholds,
      httpRoutes_unchanged hfresh hbuilt hagain htarget hholds⟩
    rw [domainEndpoints_plan, diffRow_eq_nil_iff, currentDomainEndpoint_after hfresh hbuilt hagain,
      boundBackend_after_l7 hfresh hbuilt htarget]
    have hif : "" = if b.desiredL4Backend.isSome then b.backendRefID "l4" else "" := by
      rw [htarget]
      rfl
    exact congrArg some (congrArg (DomainEndpoint.mk _ _ _ _) hif)

end Layer7

/-- The second plan changes no endpoint, backend or route exactly if the
first one leaves the targets specified. -/
theorem rows_unchanged_iff (hids : b.desiredL4Backend = none →
      (b.desiredRoutes.map fun spec => b.routeID spec.path).Nodup) :
    (b.refreshed entry records).RowsUnchanged ↔ b.Holds repo := by
  cases htarget : b.desiredL4Backend with
  | some target =>
    rw [rows_unchanged_l4 hfresh hbuilt hagain htarget, holds_iff_of_some htarget]
  | none =>
    exact rows_unchanged_l7 hfresh hbuilt hagain htarget (hids htarget)

end Rows

end Builder

/-! ## DNS records -/

/-- `ListDNSRecordsByQuestion`, with the times of the rows. -/
def listDNSRecordsByQuestion (repo : Repo) (times : String → Time × Time)
    (fqdn recordType : String) : List TimedDNSRecord :=
  let records := repo.dnsRecords.select fun r =>
    !r.deleted && (r.fqdn == fqdn && r.recordType == recordType && r.enabled)
  (records.insertionSort fun x y => x.id ≤ y.id).map fun r =>
    ⟨r, (times r.id).1, (times r.id).2⟩

/-- A time is stored as it was given, and a zero time is replaced by that of
the write. This holds of new rows; an upsert of a row that is there keeps
`created_at` and stamps `updated_at`, so it is a premise of what follows. -/
def StoredTime (given stored : Time) : Prop := if given = 0 then stored ≠ 0 else stored = given

/-- The row of a record has the values given for it. -/
structure StoredAsGiven (times : String → Time × Time) (d : TimedDNSRecord) : Prop where
  record : d.record.withDefaults = d.record
  createdAt : StoredTime d.createdAt (times d.record.id).1
  updatedAt : StoredTime d.updatedAt (times d.record.id).2

/-- A wanted record that was given with its times. -/
def Timed (d : TimedDNSRecord) : Prop :=
  d.record.deleted = false ∧ d.createdAt ≠ 0 ∧ d.updatedAt ≠ 0

variable {d : TimedDNSRecord} {times : String → Time × Time}

theorem StoredAsGiven.times_eq (h : StoredAsGiven times d) (htimed : Timed d) :
    times d.record.id = (d.createdAt, d.updatedAt) := by
  have hcreated := h.createdAt
  have hupdated := h.updatedAt
  rw [StoredTime, if_neg htimed.2.1] at hcreated
  rw [StoredTime, if_neg htimed.2.2] at hupdated
  exact Prod.ext hcreated hupdated

theorem StoredAsGiven.timed {repo : Repo} (h : StoredAsGiven times d)
    (hlive : repo.dnsRecords.live? d.record.id = some d.record)
    (htimes : times d.record.id = (d.createdAt, d.updatedAt)) : Timed d := by
  have hcreated := h.createdAt
  have hupdated := h.updatedAt
  rw [htimes] at hcreated hupdated
  refine ⟨(Table.live?_eq_some_iff.mp hlive).2, fun hzero => ?_, fun hzero => ?_⟩
  · rw [StoredTime, if_pos hzero] at hcreated
    exact hcreated hzero
  · rw [StoredTime, if_pos hzero] at hupdated
    exact hupdated hzero

theorem mem_listDNSRecordsByQuestion {repo : Repo} {fqdn recordType : String} :
    d ∈ listDNSRecordsByQuestion repo times fqdn recordType
      ↔ repo.dnsRecords.live? d.record.id = some d.record
        ∧ (d.record.fqdn = fqdn ∧ d.record.recordType = recordType ∧ d.record.enabled = true)
        ∧ times d.record.id = (d.createdAt, d.updatedAt) := by
  obtain ⟨r, created, updated⟩ := d
  rw [Table.live?_eq_some_iff, Table.find?_eq_some_iff]
  simp only [listDNSRecordsByQuestion, mem_map, mem_insertionSort, Table.select,
    mem_filter, Bool.and_eq_true, beq_iff_eq, Bool.not_eq_true', TimedDNSRecord.mk.injEq]
  constructor
  · rintro ⟨r, ⟨hmem, hdel, ⟨hfqdn, htype⟩, henabled⟩, rfl, rfl, rfl⟩
    exact ⟨⟨⟨hmem, rfl⟩, hdel⟩, ⟨hfqdn, htype, henabled⟩, rfl⟩
  · rintro ⟨⟨⟨hmem, -⟩, hdel⟩, ⟨hfqdn, htype, henabled⟩, htimes⟩
    exact ⟨r, ⟨hmem, hdel, ⟨hfqdn, htype⟩, henabled⟩, rfl, by rw [htimes], by rw [htimes]⟩

namespace Builder

def questioned (b : Builder) (repo : Repo) (times : String → Time × Time) :
    List TimedDNSRecord :=
  b.buildDesiredDNSRecords.flatMap fun d =>
    listDNSRecordsByQuestion repo times d.record.fqdn d.record.recordType

def queried (b : Builder) (repo : Repo) (times : String → Time × Time) : Builder :=
  b.refreshed (repo.getDomainEntryProjectionByDomain b.hostname).toOption
    (b.questioned repo times)

variable {b : Builder} {repo : Repo} {times times' : String → Time × Time}

theorem fresh_queried (b : Builder) (repo : Repo) (times : String → Time × Time) :
    (b.queried repo times).Fresh repo := rfl

theorem mem_questioned {d : TimedDNSRecord} :
    d ∈ b.questioned repo times
      ↔ (∃ w ∈ b.buildDesiredDNSRecords,
          d.record.fqdn = w.record.fqdn ∧ d.record.recordType = w.record.recordType)
        ∧ repo.dnsRecords.live? d.record.id = some d.record ∧ d.record.enabled = true
        ∧ times d.record.id = (d.createdAt, d.updatedAt) := by
  simp only [questioned, mem_flatMap, mem_listDNSRecordsByQuestion]
  constructor
  · rintro ⟨w, hw, hlive, ⟨hfqdn, htype, henabled⟩, htimes⟩
    exact ⟨⟨w, hw, hfqdn, htype⟩, hlive, henabled, htimes⟩
  · rintro ⟨⟨w, hw, hfqdn, htype⟩, hlive, henabled, htimes⟩
    exact ⟨w, hw, hlive, ⟨hfqdn, htype, henabled⟩, htimes⟩

theorem get?_questioned {id : String} {d : TimedDNSRecord} :
    (byID (b.questioned repo times)).get? id = some d
      ↔ d ∈ b.questioned repo times ∧ d.record.id = id := by
  constructor
  · exact key_of_get?_byID
  · rintro ⟨hmem, rfl⟩
    refine get?_byID_of_mem hmem fun x hx hkey => ?_
    obtain ⟨-, hdlive, -, hdtimes⟩ := mem_questioned.mp hmem
    obtain ⟨-, hxlive, -, hxtimes⟩ := mem_questioned.mp hx
    have hid : x.record.id = d.record.id := hkey
    rw [hid, hdlive] at hxlive
    rw [hid, hdtimes] at hxtimes
    obtain ⟨r, created, updated⟩ := d
    obtain ⟨s, created', updated'⟩ := x
    obtain rfl : r = s := Option.some.inj hxlive
    obtain ⟨rfl, rfl⟩ := Prod.mk.inj hxtimes
    rfl

theorem dnsRecord_after (hexisting : b.existingDNSRecords = b.questioned repo times)
    (hdel : ∀ d ∈ b.buildDesiredDNSRecords, d.record.deleted = false) (id : String) :
    (b.plan.write repo).dnsRecords.live? id
      = mappedRowAfter (·.record) (b.questioned repo times) b.buildDesiredDNSRecords
          repo.dnsRecords id := by
  have hrows : (b.plan.domainEndpoints.foldl PlanChange.write
      (b.plan.writeRows repo)).dnsRecords = repo.dnsRecords := by
    rw [foldl_write_frame (f := (·.dnsRecords)) fun _ _ => rfl, Plan.writeRows,
      foldl_write_frame (f := (·.dnsRecords)) fun _ _ => rfl,
      foldl_write_frame (f := (·.dnsRecords)) fun _ _ => rfl]
  rw [← hrows, ← hexisting]
  exact live?_diffRows_map (f := fun d : TimedDNSRecord => d.record) (fun _ _ => rfl)
    (fun _ => rfl) hdel _ id

/-- The second plan changes no DNS record exactly if every wanted one was
given with its times. -/
theorem dnsRecords_unchanged_iff {entry : Option DomainEntryProjection}
    (hexisting : b.existingDNSRecords = b.questioned repo times)
    (hids : (b.buildDesiredDNSRecords.map (·.record.id)).Nodup)
    (hstored : ∀ d ∈ b.buildDesiredDNSRecords, StoredAsGiven times' d) :
    (b.refreshed entry (b.questioned (b.plan.write repo) times')).plan.dnsRecords = []
      ↔ ∀ d ∈ b.buildDesiredDNSRecords, Timed d := by
  have hget : ∀ d ∈ b.buildDesiredDNSRecords,
      (byID b.buildDesiredDNSRecords).get? d.record.id = some d := fun d hd =>
    get?_byID_of_mem hd fun x hx hkey => inj_on_of_nodup_map hids hx hd hkey
  have hplan : (b.refreshed entry (b.questioned (b.plan.write repo) times')).plan.dnsRecords = []
      ↔ diffRows (b.questioned (b.plan.write repo) times') b.buildDesiredDNSRecords = [] :=
    map_eq_nil_iff
  rw [hplan, diffRows_eq_nil_iff]
  constructor
  · rintro ⟨hwanted, -⟩ d hd
    obtain ⟨hmem, -⟩ := get?_questioned.mp (hwanted _ d (hget d hd))
    obtain ⟨-, hlive, -, htimes⟩ := mem_questioned.mp hmem
    exact (hstored d hd).timed hlive htimes
  · intro htimed
    have hafter := dnsRecord_after hexisting fun d hd => (htimed d hd).1
    -- the row of a wanted record is the record
    have hlive : ∀ d ∈ b.buildDesiredDNSRecords,
        (b.plan.write repo).dnsRecords.live? d.record.id = some d.record := by
      intro d hd
      rw [hafter, mappedRowAfter, hget d hd]
      dsimp only
      split
      · rename_i hsame
        exact (mem_questioned.mp (get?_questioned.mp hsame).1).2.1
      · exact congrArg some (hstored d hd).record
    refine ⟨fun id d hd => ?_, fun id d hd => ?_⟩
    · obtain ⟨hmem, rfl⟩ := key_of_get?_byID hd
      have henabled : d.record.enabled = true :=
        (congrArg DNSRecord.enabled (hstored d hmem).record).symm
      exact get?_questioned.mpr ⟨mem_questioned.mpr ⟨⟨d, hmem, rfl, rfl⟩, hlive d hmem, henabled,
        (hstored d hmem).times_eq (htimed d hmem)⟩, rfl⟩
    · -- a row that is found and not wanted was found before, and is gone
      obtain ⟨hmem, rfl⟩ := get?_questioned.mp hd
      obtain ⟨hquestion, hrow, henabled, -⟩ := mem_questioned.mp hmem
      by_contra hnone
      rw [Bool.not_eq_true, Option.isSome_eq_false_iff, Option.isNone_iff_eq_none] at hnone
      rw [hafter, mappedRowAfter, hnone] at hrow
      dsimp only at hrow
      split at hrow
      · cases hrow
      · rename_i hunseen
        let d₀ : TimedDNSRecord := ⟨d.record, (times d.record.id).1, (times d.record.id).2⟩
        have hbefore : d₀ ∈ b.questioned repo times :=
          mem_questioned.mpr ⟨hquestion, hrow, henabled, rfl⟩
        exact hunseen (Option.isSome_iff_exists.mpr ⟨d₀, get?_questioned.mpr ⟨hbefore, rfl⟩⟩)

end Builder

def NoChange (plan : Plan) : Prop :=
  plan.dnsRecords = [] ∧ plan.domainEndpoints = [] ∧ plan.serviceBackendRefs = []
    ∧ plan.httpRoutes = []

namespace Builder

variable {b : Builder} {entry : Option DomainEntryProjection} {records : List TimedDNSRecord}

theorem build_refreshed {plan : Plan} (h : b.build = .ok plan) :
    (b.refreshed entry records).build = .ok (b.refreshed entry records).plan := by
  unfold build at h
  split_ifs at h with hhost htype hback hroutes
  exact (if_neg hhost).trans ((if_neg htype).trans ((if_neg hback).trans (if_neg hroutes)))

theorem Built.refreshed (h : b.Built) : (b.refreshed entry records).Built := ⟨h.l4, h.paths⟩

variable {repo : Repo} {times : String → Time × Time}

theorem queried_queried {repo' : Repo} {times' : String → Time × Time} :
    (b.queried repo times).queried repo' times' = b.queried repo' times' := rfl

theorem buildDesiredDNSRecords_queried :
    (b.queried repo times).buildDesiredDNSRecords = b.buildDesiredDNSRecords := rfl

theorem holds_queried {repo' : Repo} : (b.queried repo times).Holds repo' ↔ b.Holds repo' :=
  ⟨fun h => ⟨h.l4, h.l7⟩, fun h => ⟨h.l4, h.l7⟩⟩

theorem rebuilt_noChange_iff {times' : String → Time × Time} (hfresh : b.Fresh repo)
    (hexisting : b.existingDNSRecords = b.questioned repo times) (hbuilt : b.Built)
    (hroutes : b.desiredL4Backend = none → (b.desiredRoutes.map fun spec => b.routeID spec.path).Nodup)
    (hrecords : (b.buildDesiredDNSRecords.map (·.record.id)).Nodup)
    (hstored : ∀ d ∈ b.buildDesiredDNSRecords, StoredAsGiven times' d) :
    NoChange (b.queried (b.plan.write repo) times').plan
      ↔ b.Holds repo ∧ ∀ d ∈ b.buildDesiredDNSRecords, Timed d := by
  have hrows : (b.queried (b.plan.write repo) times').RowsUnchanged ↔ b.Holds repo :=
    rows_unchanged_iff hfresh hbuilt (fresh_queried b _ times') hroutes
  rw [← hrows, ← dnsRecords_unchanged_iff hexisting hrecords hstored, and_comm]
  exact Iff.rfl

end Builder

/-- A specification built again, after its plan, has nothing to change
exactly if the plan left the targets specified and every wanted DNS
record was given with the times of its row. -/
theorem rebuild_unchanged_iff (x : String) (calls : List BuilderCall) (plan : Plan)
    (range : List String → List String) (m : Master) (times times' : String → Time × Time)
    (hplan : ((builderOf x calls).queried m.repo times).build = .ok plan)
    (hroutes : (builderOf x calls).desiredL4Backend = none →
      ((builderOf x calls).desiredRoutes.map fun spec =>
        (builderOf x calls).routeID spec.path).Nodup)
    (hrecords : ((builderOf x calls).buildDesiredDNSRecords.map (·.record.id)).Nodup)
    (hstored : ∀ d ∈ (builderOf x calls).buildDesiredDNSRecords, StoredAsGiven times' d) :
    (∃ m' plan', MasterM.applyPlan range plan ⟨m, []⟩ = (.ok (), ⟨m', []⟩)
        ∧ ((builderOf x calls).queried m'.repo times').build = .ok plan' ∧ NoChange plan')
      ↔ (builderOf x calls).Holds m.repo
        ∧ ∀ d ∈ (builderOf x calls).buildDesiredDNSRecords, Timed d := by
  obtain rfl := Builder.plan_of_build hplan
  obtain ⟨m₁, hdone, hrepo⟩ :=
    MasterM.applyPlan_repo range ((builderOf x calls).queried m.repo times).plan m
  have hbuild : ((builderOf x calls).queried m₁.repo times').build
      = .ok ((builderOf x calls).queried m₁.repo times').plan :=
    Builder.build_refreshed (b := (builderOf x calls).queried m.repo times) hplan
  have hrebuilt := Builder.rebuilt_noChange_iff (b := (builderOf x calls).queried m.repo times)
    (Builder.fresh_queried _ _ _) rfl (built_builderOf x calls).refreshed hroutes hrecords hstored
  rw [← hrepo, Builder.holds_queried, Builder.queried_queried,
    Builder.buildDesiredDNSRecords_queried] at hrebuilt
  refine Iff.trans ⟨?_, fun h => ⟨m₁, _, hdone, hbuild, h⟩⟩ hrebuilt
  rintro ⟨m', plan', happly, hplan', hnone⟩
  obtain rfl : m₁ = m' := congrArg (fun o => o.2.state) (hdone.symm.trans happly)
  rwa [Except.ok.inj (hplan'.symm.trans hbuild)] at hnone

def wantedRecord : TimedDNSRecord where
  record :=
    { id := "www"
      fqdn := "app.example.com"
      recordType := "A"
      routingClass := "simple"
      ttlSeconds := 60
      valuesJSON := "[\"192.0.2.1\"]"
      enabled := true }

/-- A plan with one route, and one DNS record with its times. -/
theorem rebuild_unchanged_new :
    let b := builderOf "app.example.com" (oneRoute "/"
      ++ [.wantDNS { wantedRecord with createdAt := 1, updatedAt := 1 }])
    ∃ m' plan', MasterM.applyPlan id (b.queried newMaster.repo fun _ => (1, 1)).plan
          ⟨newMaster, []⟩ = (.ok (), ⟨m', []⟩)
      ∧ (b.queried m'.repo fun _ => (1, 1)).build = .ok plan' ∧ NoChange plan' := by
  intro b
  have hwanted : b.buildDesiredDNSRecords
      = [{ wantedRecord with createdAt := 1, updatedAt := 1 }] := by decide +kernel
  refine (rebuild_unchanged_iff "app.example.com" _ _ id newMaster _ _ rfl
    (fun _ => by decide +kernel) (by decide +kernel) fun d hd => ?_).mpr
    ⟨⟨(fun h => by cases h), fun _ => by decide +kernel⟩, fun d hd => ?_⟩
  · obtain rfl := mem_singleton.mp (hwanted ▸ hd)
    exact ⟨by decide +kernel, rfl, rfl⟩
  · obtain rfl := mem_singleton.mp (hwanted ▸ hd)
    exact ⟨rfl, by decide, by decide⟩

/-- The record is in the tables after the first plan, and the second plan
writes it again. -/
theorem stored_record_written_again :
    let b := builderOf "app.example.com" (oneRoute "/" ++ [.wantDNS wantedRecord])
    let m := (MasterM.applyPlan id (b.queried newMaster.repo fun _ => (1, 1)).plan
      ⟨newMaster, []⟩).2.state
    (b.queried newMaster.repo fun _ => (1, 1)).build.isOk = true
      ∧ wantedRecord.record.withDefaults = wantedRecord.record
      ∧ m.repo.dnsRecords.live? "www" = some wantedRecord.record
      ∧ (b.queried m.repo fun _ => (1, 1)).plan.dnsRecords.map (·.desired)
        = [some wantedRecord.record] := by
  decide +kernel

end Lnctl

end LunaEdge
