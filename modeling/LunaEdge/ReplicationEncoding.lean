import LunaEdge.Proto

/-!
# The replication encoding, there and back

Snapshots and notices with all their fields, and what is left of them
after the conversion to a protobuf message and back. Marshalling the
message is taken as the identity.

The conversions agree field by field except for `need_cert`, which the
message of a projection declares and neither direction sets
(`viaProto_eq`). The deletion flags of the certificate and of the backends
inside a projection are not declared, so a receiver sees them as false;
`declared` is the part of a value that the messages have fields for.
-/

namespace LunaEdge

/-! ## What the messages declare -/

theorem timeFromProto_timeToProto (t : Time) : timeFromProto (timeToProto t) = t := by
  unfold timeToProto
  split
  · rename_i hzero
    exact hzero.symm
  · rw [timeFromProto, Int.sub_add_cancel]
    exact Int.ediv_mul_add_emod t 1000000000

def ServiceBackendRef.declared (b : ServiceBackendRef) : ServiceBackendRef :=
  { b with deleted := false }

def CertificateRevision.declared (c : CertificateRevision) : CertificateRevision :=
  { c with deleted := false }

def HTTPRouteProjection.declared (r : HTTPRouteProjection) : HTTPRouteProjection :=
  { r with backendRef := r.backendRef.map (·.declared) }

def DomainEntryProjection.declared (p : DomainEntryProjection) : DomainEntryProjection :=
  { p with
    cert := p.cert.map (·.declared)
    httpRoutes := p.httpRoutes.map (·.declared)
    bindedBackendRef := p.bindedBackendRef.map (·.declared) }

/-- No row inside the projection is marked as deleted. -/
structure DomainEntryProjection.NestedLive (p : DomainEntryProjection) : Prop where
  cert : ∀ c ∈ p.cert, c.deleted = false
  routes : ∀ r ∈ p.httpRoutes, ∀ b ∈ r.backendRef, b.deleted = false
  binded : ∀ b ∈ p.bindedBackendRef, b.deleted = false

theorem map_eq_self_iff {α : Type} {f : α → α} {x : Option α} : x.map f = x ↔ ∀ a ∈ x, f a = a := by
  cases x <;> simp

theorem list_map_eq_self_iff {α : Type} {f : α → α} {l : List α} :
    l.map f = l ↔ ∀ a ∈ l, f a = a := by
  simpa only [List.map_id, id] using List.map_inj_left (l := l) (f := f) (g := id)

theorem ServiceBackendRef.declared_eq_iff {b : ServiceBackendRef} :
    b.declared = b ↔ b.deleted = false := by
  obtain ⟨_, _, _, _, _, _, _⟩ := b
  simp [declared, eq_comm]

theorem CertificateRevision.declared_eq_iff {c : CertificateRevision} :
    c.declared = c ↔ c.deleted = false := by
  obtain ⟨_, _, _, _, _, _, _, _, _, _, _, _⟩ := c
  simp [declared, eq_comm]

theorem HTTPRouteProjection.declared_eq_iff {r : HTTPRouteProjection} :
    r.declared = r ↔ ∀ b ∈ r.backendRef, b.deleted = false := by
  have hfield : r.declared = r ↔ r.backendRef.map (·.declared) = r.backendRef := by
    obtain ⟨_, _, _, _⟩ := r
    simp [declared]
  rw [hfield, map_eq_self_iff]
  simp only [ServiceBackendRef.declared_eq_iff]

theorem serviceBackendRef_viaProto (b : ServiceBackendRef) :
    serviceBackendRefFromProto (serviceBackendRefToProto b) = b.declared := rfl

theorem httpRouteProjection_viaProto (r : HTTPRouteProjection) :
    httpRouteProjectionFromProto (httpRouteProjectionToProto r) = r.declared := by
  simp only [httpRouteProjectionFromProto, httpRouteProjectionToProto, Option.map_map,
    HTTPRouteProjection.declared]
  rfl

theorem certificateRevision_viaProto (c : CertificateRevision) :
    certificateRevisionFromProto (certificateRevisionToProto c) = c.declared := by
  simp only [certificateRevisionFromProto, certificateRevisionToProto,
    timeFromProto_timeToProto, CertificateRevision.declared]

namespace DomainEntryProjection

variable {p : DomainEntryProjection}

/-- The flag `NeedCert` is lost, all other declared fields arrive. -/
theorem viaProto_eq (p : DomainEntryProjection) :
    p.viaProto = { p.declared with needCert := false } := by
  have hcert : certificateRevisionFromProto ∘ certificateRevisionToProto
      = CertificateRevision.declared := funext certificateRevision_viaProto
  have hroute : httpRouteProjectionFromProto ∘ httpRouteProjectionToProto
      = HTTPRouteProjection.declared := funext httpRouteProjection_viaProto
  have hbackend : serviceBackendRefFromProto ∘ serviceBackendRefToProto
      = ServiceBackendRef.declared := funext serviceBackendRef_viaProto
  simp only [viaProto, domainEntryProjectionFromProto, domainEntryProjectionToProto,
    Option.map_map, List.map_map, hcert, hroute, hbackend, declared]

theorem declared_viaProto_eq_iff : p.viaProto.declared = p.declared ↔ p.needCert = false := by
  have hdeclared : p.viaProto.declared = { p.declared with needCert := false } := by
    rw [viaProto_eq]
    simp only [declared, Option.map_map, List.map_map]
    congr 1
    refine List.map_congr_left fun r _ => ?_
    simp only [Function.comp_apply, HTTPRouteProjection.declared, Option.map_map]
    rfl
  rw [hdeclared]
  constructor
  · exact fun heq => (congrArg needCert heq).symm
  · intro hneed
    simp only [declared, hneed]

theorem declared_eq_iff : p.declared = p ↔ p.NestedLive := by
  have hfields : p.declared = p ↔ p.cert.map (·.declared) = p.cert
      ∧ p.httpRoutes.map (·.declared) = p.httpRoutes
      ∧ p.bindedBackendRef.map (·.declared) = p.bindedBackendRef := by
    constructor
    · intro heq
      exact ⟨congrArg cert heq, congrArg httpRoutes heq, congrArg bindedBackendRef heq⟩
    · rintro ⟨hcert, hroutes, hbinded⟩
      simp only [declared, hcert, hroutes, hbinded]
  rw [hfields, map_eq_self_iff, map_eq_self_iff, list_map_eq_self_iff]
  simp only [CertificateRevision.declared_eq_iff, ServiceBackendRef.declared_eq_iff,
    HTTPRouteProjection.declared_eq_iff]
  exact ⟨fun ⟨hcert, hroutes, hbinded⟩ => ⟨hcert, hroutes, hbinded⟩,
    fun ⟨hcert, hroutes, hbinded⟩ => ⟨hcert, hroutes, hbinded⟩⟩

theorem viaProto_eq_self_iff : p.viaProto = p ↔ p.needCert = false ∧ p.NestedLive := by
  rw [← declared_eq_iff, viaProto_eq]
  constructor
  · intro heq
    have hneed : p.needCert = false := (congrArg needCert heq).symm
    refine ⟨hneed, ?_⟩
    calc p.declared = { p.declared with needCert := false } := by simp only [declared, hneed]
      _ = p := heq
  · rintro ⟨hneed, heq⟩
    calc { p.declared with needCert := false } = p.declared := by simp only [declared, hneed]
      _ = p := heq

end DomainEntryProjection

/-! ## Snapshots and notices -/

namespace Replpb

structure Snapshot where
  nodeId : String
  createdAt : Option Timestamp
  dnsRecords : List DNSRecord
  domainEntries : List DomainEntryProjection
  snapshotRecordId : Nat
  last : Bool

/-- The `oneof entry` of a notice. -/
inductive Entry where
  | dnsRecord (m : DNSRecord)
  | domainEntry (m : DomainEntryProjection)

structure ChangeNotification where
  nodeId : String
  createdAt : Option Timestamp
  snapshotRecordId : Nat
  entry : Option Entry

def ChangeNotification.getDnsRecord (m : ChangeNotification) : Option DNSRecord :=
  match m.entry with
  | some (.dnsRecord r) => some r
  | _ => none

def ChangeNotification.getDomainEntry (m : ChangeNotification) : Option DomainEntryProjection :=
  match m.entry with
  | some (.domainEntry p) => some p
  | _ => none

end Replpb

namespace Replication

/-- A chunk with the fields that only the encoding reads. -/
structure Snapshot extends LunaEdge.Snapshot where
  nodeID : String
  createdAt : Time
deriving DecidableEq

structure ChangeNotification extends LunaEdge.ChangeNotification where
  nodeID : String
  createdAt : Time

def snapshotToProto (s : Snapshot) : Replpb.Snapshot where
  nodeId := s.nodeID
  createdAt := timeToProto s.createdAt
  snapshotRecordId := s.snapshotRecordID
  last := s.last
  dnsRecords := s.dnsRecords.map dnsRecordToProto
  domainEntries := s.domainEntries.map domainEntryProjectionToProto

def snapshotFromProto (m : Replpb.Snapshot) : Snapshot where
  nodeID := m.nodeId
  createdAt := timeFromProto m.createdAt
  snapshotRecordID := m.snapshotRecordId
  last := m.last
  dnsRecords := m.dnsRecords.map dnsRecordFromProto
  domainEntries := m.domainEntries.map domainEntryProjectionFromProto

/-- A domain entry is set after a DNS record and takes its place. -/
def changeNotificationToProto (c : ChangeNotification) : Replpb.ChangeNotification where
  nodeId := c.nodeID
  createdAt := timeToProto c.createdAt
  snapshotRecordId := c.snapshotRecordID
  entry :=
    match c.domainEntry, c.dnsRecord with
    | some p, _ => some (.domainEntry (domainEntryProjectionToProto p))
    | none, some r => some (.dnsRecord (dnsRecordToProto r))
    | none, none => none

def changeNotificationFromProto (m : Replpb.ChangeNotification) : ChangeNotification where
  nodeID := m.nodeId
  createdAt := timeFromProto m.createdAt
  snapshotRecordID := m.snapshotRecordId
  dnsRecord := m.getDnsRecord.map dnsRecordFromProto
  domainEntry := m.getDomainEntry.map domainEntryProjectionFromProto

/-! ### The parts that the rest of the development reads -/

/-! ### What arrives -/

def Snapshot.declared (s : Snapshot) : Snapshot :=
  { s with domainEntries := s.domainEntries.map (·.declared) }

def ChangeNotification.declared (c : ChangeNotification) : ChangeNotification :=
  { c with domainEntry := c.domainEntry.map (·.declared) }

theorem snapshot_viaProto (s : Snapshot) :
    snapshotFromProto (snapshotToProto s)
      = { s with domainEntries := s.domainEntries.map (·.viaProto) } := by
  have hrecord : dnsRecordFromProto ∘ dnsRecordToProto = id := rfl
  simp only [snapshotFromProto, snapshotToProto, List.map_map, timeFromProto_timeToProto,
    hrecord, List.map_id]
  rfl

theorem changeNotification_viaProto {c : ChangeNotification}
    (hone : (c.dnsRecord.isSome ^^ c.domainEntry.isSome) = true) :
    changeNotificationFromProto (changeNotificationToProto c)
      = { c with domainEntry := c.domainEntry.map (·.viaProto) } := by
  obtain ⟨⟨id, record, entry⟩, node, created⟩ := c
  cases entry <;> cases record
  · cases hone
  · simp only [changeNotificationFromProto, changeNotificationToProto, timeFromProto_timeToProto]
    rfl
  · simp only [changeNotificationFromProto, changeNotificationToProto, timeFromProto_timeToProto]
    rfl
  · cases hone

theorem Snapshot.with_domainEntries_inj {s : Snapshot} {l k : List DomainEntryProjection} :
    { s with domainEntries := l } = { s with domainEntries := k } ↔ l = k :=
  ⟨fun heq => congrArg (·.domainEntries) heq, fun heq => by rw [heq]⟩

theorem ChangeNotification.with_domainEntry_inj {c : ChangeNotification}
    {x y : Option DomainEntryProjection} :
    { c with domainEntry := x } = { c with domainEntry := y } ↔ x = y :=
  ⟨fun heq => congrArg (·.domainEntry) heq, fun heq => by rw [heq]⟩

/-- A snapshot, or a notice with one entry, arrives with all declared
fields exactly if no projection in it has `NeedCert` set, and arrives as it
was sent exactly if, besides, no row inside a projection is marked as
deleted. -/
theorem viaProto_faithful_iff (s : Snapshot) (c : ChangeNotification) :
    (((snapshotFromProto (snapshotToProto s)).declared = s.declared
        ↔ ∀ p ∈ s.domainEntries, p.needCert = false)
      ∧ (snapshotFromProto (snapshotToProto s) = s
        ↔ ∀ p ∈ s.domainEntries, p.needCert = false ∧ p.NestedLive))
    ∧ ((c.dnsRecord.isSome ^^ c.domainEntry.isSome) = true →
      ((changeNotificationFromProto (changeNotificationToProto c)).declared = c.declared
        ↔ ∀ p ∈ c.domainEntry, p.needCert = false)
      ∧ (changeNotificationFromProto (changeNotificationToProto c) = c
        ↔ ∀ p ∈ c.domainEntry, p.needCert = false ∧ p.NestedLive)) := by
  refine ⟨?_, fun hone => ?_⟩
  · rw [snapshot_viaProto]
    constructor
    · simp only [Snapshot.declared, List.map_map, Snapshot.with_domainEntries_inj,
        List.map_inj_left, Function.comp_apply, DomainEntryProjection.declared_viaProto_eq_iff]
    · refine (Snapshot.with_domainEntries_inj (s := s) (k := s.domainEntries)).trans ?_
      simp only [list_map_eq_self_iff, DomainEntryProjection.viaProto_eq_self_iff]
  · rw [changeNotification_viaProto hone]
    constructor
    · simp only [ChangeNotification.declared, Option.map_map,
        ChangeNotification.with_domainEntry_inj]
      cases c.domainEntry with
      | none => simp
      | some p => simp [DomainEntryProjection.declared_viaProto_eq_iff]
    · refine (ChangeNotification.with_domainEntry_inj (c := c) (y := c.domainEntry)).trans ?_
      simp only [map_eq_self_iff, DomainEntryProjection.viaProto_eq_self_iff]

def askingSnapshot : Snapshot :=
  { snapshotRecordID := 1, last := true, nodeID := "edge", createdAt := 0,
    domainEntries := [{ hostname := "a.example", needCert := true, backendType := .l7HTTPS }] }

theorem askingSnapshot_loses_needCert :
    (snapshotFromProto (snapshotToProto askingSnapshot)).declared ≠ askingSnapshot.declared
      ∧ (snapshotFromProto (snapshotToProto askingSnapshot)).domainEntries
        = [{ hostname := "a.example", needCert := false, backendType := .l7HTTPS }] := by
  decide

end Replication

end LunaEdge
