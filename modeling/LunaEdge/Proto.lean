import LunaEdge.ChangeLog

/-!
# The replication encoding

Notices and chunks cross the wire as protobuf messages. The messages are
given here with the conversions in both directions; what a slave receives
is `viaProto` of what the master sent. A DNS record crosses unchanged,
while a projection loses `NeedCert` (the message has the field, the
conversions do not use it), and the certificate and the backends in it
lose their deletion flags.

A string type is converted to the protobuf string and back by a Go type
conversion, so the message keeps the enumeration. Time stamps are
optional in a message, in seconds and nanoseconds of the Unix epoch, and
the zero time is sent as none.
-/

namespace LunaEdge

namespace Replpb

structure Timestamp where
  seconds : Int
  nanos : Int

structure DNSRecord where
  id : String
  fqdn : String
  recordType : String
  routingClass : String
  ttlSeconds : Nat
  valuesJson : String
  routingKey : String
  enabled : Bool
  deleted : Bool

structure ServiceBackendRef where
  id : String
  type : ServiceBackendType
  arbitraryEndpoint : String
  serviceNamespace : String
  serviceName : String
  port : Nat

structure HTTPRouteProjection where
  id : String
  path : String
  priority : Int
  backendRef : Option ServiceBackendRef

structure CertificateRevision where
  id : String
  hostname : String
  revision : Nat
  provider : String
  challengeType : String
  artifactBucket : String
  artifactPrefix : String
  sha256Crt : String
  sha256Key : String
  notBefore : Option Timestamp
  notAfter : Option Timestamp

structure DomainEntryProjection where
  hostname : String
  backendType : BackendType
  needCert : Bool := false
  cert : Option CertificateRevision
  httpRoutes : List HTTPRouteProjection
  bindedBackendRef : Option ServiceBackendRef
  deleted : Bool

end Replpb

/-! ## Conversions -/

/-- The Unix epoch in seconds of the zero time. -/
def unixEpoch : Int := 62135596800

def timeToProto (t : Time) : Option Replpb.Timestamp :=
  if t = 0 then none
  else some ⟨t / 1000000000 - unixEpoch, t % 1000000000⟩

def timeFromProto : Option Replpb.Timestamp → Time
  | none => 0
  | some t => (t.seconds + unixEpoch) * 1000000000 + t.nanos

def dnsRecordToProto (r : DNSRecord) : Replpb.DNSRecord where
  id := r.id
  fqdn := r.fqdn
  recordType := r.recordType
  routingClass := r.routingClass
  ttlSeconds := r.ttlSeconds
  valuesJson := r.valuesJSON
  routingKey := r.routingKey
  enabled := r.enabled
  deleted := r.deleted

def dnsRecordFromProto (m : Replpb.DNSRecord) : DNSRecord where
  deleted := m.deleted
  id := m.id
  fqdn := m.fqdn
  recordType := m.recordType
  routingClass := m.routingClass
  ttlSeconds := m.ttlSeconds
  valuesJSON := m.valuesJson
  routingKey := m.routingKey
  enabled := m.enabled

def serviceBackendRefToProto (b : ServiceBackendRef) : Replpb.ServiceBackendRef where
  id := b.id
  type := b.type
  arbitraryEndpoint := b.arbitraryEndpoint
  serviceNamespace := b.serviceNamespace
  serviceName := b.serviceName
  port := b.port

def serviceBackendRefFromProto (m : Replpb.ServiceBackendRef) : ServiceBackendRef where
  id := m.id
  type := m.type
  arbitraryEndpoint := m.arbitraryEndpoint
  serviceNamespace := m.serviceNamespace
  serviceName := m.serviceName
  port := m.port

def httpRouteProjectionToProto (r : HTTPRouteProjection) :
    Replpb.HTTPRouteProjection where
  id := r.id
  path := r.path
  priority := r.priority
  backendRef := r.backendRef.map serviceBackendRefToProto

def httpRouteProjectionFromProto (m : Replpb.HTTPRouteProjection) :
    HTTPRouteProjection where
  id := m.id
  path := m.path
  priority := m.priority
  backendRef := m.backendRef.map serviceBackendRefFromProto

def certificateRevisionToProto (c : CertificateRevision) :
    Replpb.CertificateRevision where
  id := c.id
  hostname := c.hostname
  revision := c.revision
  provider := c.provider
  challengeType := c.challengeType
  artifactBucket := c.artifactBucket
  artifactPrefix := c.artifactPrefix
  sha256Crt := c.sha256Crt
  sha256Key := c.sha256Key
  notBefore := timeToProto c.notBefore
  notAfter := timeToProto c.notAfter

def certificateRevisionFromProto (m : Replpb.CertificateRevision) :
    CertificateRevision where
  id := m.id
  hostname := m.hostname
  revision := m.revision
  provider := m.provider
  challengeType := m.challengeType
  artifactBucket := m.artifactBucket
  artifactPrefix := m.artifactPrefix
  sha256Crt := m.sha256Crt
  sha256Key := m.sha256Key
  notBefore := timeFromProto m.notBefore
  notAfter := timeFromProto m.notAfter

def domainEntryProjectionToProto (p : DomainEntryProjection) :
    Replpb.DomainEntryProjection where
  hostname := p.hostname
  backendType := p.backendType
  cert := p.cert.map certificateRevisionToProto
  httpRoutes := p.httpRoutes.map httpRouteProjectionToProto
  bindedBackendRef := p.bindedBackendRef.map serviceBackendRefToProto
  deleted := p.deleted

def domainEntryProjectionFromProto (m : Replpb.DomainEntryProjection) :
    DomainEntryProjection where
  hostname := m.hostname
  deleted := m.deleted
  backendType := m.backendType
  cert := m.cert.map certificateRevisionFromProto
  httpRoutes := m.httpRoutes.map httpRouteProjectionFromProto
  bindedBackendRef := m.bindedBackendRef.map serviceBackendRefFromProto

/-! ## There and back -/

def DomainEntryProjection.viaProto (p : DomainEntryProjection) :
    DomainEntryProjection :=
  domainEntryProjectionFromProto (domainEntryProjectionToProto p)

def DNSRecord.viaProto (r : DNSRecord) : DNSRecord := dnsRecordFromProto (dnsRecordToProto r)

def Payload.viaProto : Payload → Payload
  | .dnsRecord r => .dnsRecord r.viaProto
  | .domainEntry p => .domainEntry p.viaProto

/-- The protobuf message holds one entry, and a domain entry wins. -/
def ChangeNotification.viaProto (c : ChangeNotification) : ChangeNotification where
  snapshotRecordID := c.snapshotRecordID
  dnsRecord := if c.domainEntry.isSome then none else c.dnsRecord.map (·.viaProto)
  domainEntry := c.domainEntry.map (·.viaProto)

def Snapshot.viaProto (s : Snapshot) : Snapshot where
  snapshotRecordID := s.snapshotRecordID
  dnsRecords := s.dnsRecords.map (·.viaProto)
  domainEntries := s.domainEntries.map (·.viaProto)
  last := s.last

@[simp] theorem Payload.syncKey_viaProto (p : Payload) : p.viaProto.syncKey = p.syncKey := by
  cases p <;> rfl

@[simp] theorem Payload.deleted_viaProto (p : Payload) : p.viaProto.deleted = p.deleted := by
  cases p <;> rfl

@[simp] theorem Payload.notice_viaProto (p : Payload) (n : Nat) :
    (p.notice n).viaProto = p.viaProto.notice n := by
  cases p <;> rfl

theorem Snapshot.payloads_viaProto (s : Snapshot) :
    s.viaProto.payloads = s.payloads.map Payload.viaProto := by
  simp [Snapshot.payloads, Snapshot.viaProto, Payload.viaProto, Function.comp_def]

end LunaEdge
