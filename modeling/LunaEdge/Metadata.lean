import LunaEdge.Table

/-!
# Metadata models

The persistent models of the master database, the log of snapshot
records and the read-only projection of a domain, with the fields that
some modelled function reads. Field defaults are the zero values of Go.

The columns `created_at` and `updated_at` of every model are left out:
they are written by the ORM and dropped by the replication encoding. Only
the plan builder reads them, when it compares DNS records, and there
`TimedDNSRecord` has them. A string type whose constants the code branches on is
an enumeration with a case for any other text, since these values arrive
in request bodies and are not validated; that case excludes the spellings
of the named ones, so each text is one value.
-/

namespace LunaEdge

/-- An instant, in nanoseconds from the zero `time.Time`. -/
abbrev Time := Int

/-! ## String enumerations -/

inductive BackendType where
  | l4TLSPassthrough
  | l4TLSTermination
  | l7HTTPS
  | l7HTTP
  | l7HTTPBoth
  | other (value : String)
      (hvalue : value ∉ ["l4-tls-passthrough", "l4-tls-termination",
        "l7-https", "l7-http", "l7-http-both"])
deriving Repr, DecidableEq

/-- The two layer-4 models, which route by `binded_service_ref`. -/
def BackendType.isL4 : BackendType → Bool
  | .l4TLSPassthrough => true
  | .l4TLSTermination => true
  | _ => false

inductive ServiceBackendType where
  | svc
  | external
  | other (value : String) (hvalue : value ∉ ["SVC", "EXTERNAL"])
deriving Repr, DecidableEq

/-- The zero value of `BackendType`. -/
def BackendType.unset : BackendType := .other "" (by decide)

/-- The zero value of `ServiceBackendType`. -/
def ServiceBackendType.unset : ServiceBackendType := .other "" (by decide)

inductive SnapshotSyncType where
  | dnsRecord
  | domainEntryProjection
deriving Repr, DecidableEq

inductive SnapshotAction where
  | delete
  | upsert
deriving Repr, DecidableEq

/-! ## Rows of the master database -/

structure DNSRecord where
  deleted : Bool := false
  id : String
  fqdn : String := ""
  recordType : String := ""
  routingClass : String := ""
  ttlSeconds : Nat := 0
  valuesJSON : String := ""
  routingKey : String := ""
  enabled : Bool := false
deriving Repr, DecidableEq

structure DomainEndpoint where
  deleted : Bool := false
  hostname : String
  needCert : Bool := false
  backendType : BackendType := .unset
  bindedServiceID : String := ""
deriving Repr, DecidableEq

structure ServiceBackendRef where
  deleted : Bool := false
  id : String
  type : ServiceBackendType := .unset
  arbitraryEndpoint : String := ""
  serviceNamespace : String := ""
  serviceName : String := ""
  port : Nat := 0
deriving Repr, DecidableEq

structure HTTPRoute where
  deleted : Bool := false
  id : String
  hostname : String := ""
  path : String := ""
  priority : Int := 0
  backendRefID : String := ""
deriving Repr, DecidableEq

structure CertificateRevision where
  deleted : Bool := false
  id : String
  hostname : String := ""
  revision : Nat := 0
  provider : String := ""
  challengeType : String := ""
  artifactBucket : String := ""
  artifactPrefix : String := ""
  sha256Crt : String := ""
  sha256Key : String := ""
  notBefore : Time := 0
  notAfter : Time := 0
deriving Repr, DecidableEq

/-- One entry of the change log, with its auto-increment id. -/
structure SnapshotRecord where
  id : Nat
  syncType : SnapshotSyncType
  syncID : String
  action : SnapshotAction
deriving Repr, DecidableEq

/-! ## The projection of a domain -/

structure HTTPRouteProjection where
  id : String
  path : String := ""
  priority : Int := 0
  backendRef : Option ServiceBackendRef := none
deriving Repr, DecidableEq

structure DomainEntryProjection where
  hostname : String
  deleted : Bool := false
  needCert : Bool := false
  cert : Option CertificateRevision := none
  backendType : BackendType := .unset
  httpRoutes : List HTTPRouteProjection := []
  bindedBackendRef : Option ServiceBackendRef := none
deriving Repr, DecidableEq

/-! ## Resources

What the generic repository knows about a model: its primary key, its
logical deletion flag, its text columns by name and the column defaults
declared in the model's tags. -/

class Resource (ρ : Type) extends Keyed ρ String where
  deleted : ρ → Bool
  markDeleted : ρ → ρ
  column : String → Option (ρ → String)
  withDefaults : ρ → ρ
  primaryColumn : String
  key_markDeleted : ∀ r, key (markDeleted r) = key r := by intro; rfl
  deleted_markDeleted : ∀ r, deleted (markDeleted r) = true := by intro; rfl
  key_withDefaults : ∀ r, key (withDefaults r) = key r := by intro; rfl
  deleted_withDefaults : ∀ r, deleted (withDefaults r) = deleted r := by intro; rfl
  column_primary : column primaryColumn = some key := by rfl

/-- A zero value in a column with a `default:` tag is stored as the
default: an absent TTL becomes 60, and `Enabled = false` becomes true. -/
def DNSRecord.withDefaults (r : DNSRecord) : DNSRecord :=
  { r with
    routingClass := if r.routingClass = "" then "simple" else r.routingClass
    ttlSeconds := if r.ttlSeconds = 0 then 60 else r.ttlSeconds
    enabled := true }

def ServiceBackendRef.withDefaults (r : ServiceBackendRef) : ServiceBackendRef :=
  { r with type := if r.type = .unset then .svc else r.type }

def HTTPRoute.withDefaults (r : HTTPRoute) : HTTPRoute :=
  { r with path := if r.path = "" then "/" else r.path }

instance : Resource DNSRecord where
  key := (·.id)
  deleted := (·.deleted)
  markDeleted r := { r with deleted := true }
  column
    | "id" => some (·.id)
    | "fqdn" => some (·.fqdn)
    | "record_type" => some (·.recordType)
    | "routing_class" => some (·.routingClass)
    | "values_json" => some (·.valuesJSON)
    | "routing_key" => some (·.routingKey)
    | _ => none
  withDefaults := DNSRecord.withDefaults
  primaryColumn := "id"

/-- The primary key is `hostname`; there is no `id` column. -/
instance : Resource DomainEndpoint where
  key := (·.hostname)
  deleted := (·.deleted)
  markDeleted r := { r with deleted := true }
  column
    | "hostname" => some (·.hostname)
    | "binded_service_ref" => some (·.bindedServiceID)
    | _ => none
  withDefaults := id
  primaryColumn := "hostname"

instance : Resource ServiceBackendRef where
  key := (·.id)
  deleted := (·.deleted)
  markDeleted r := { r with deleted := true }
  column
    | "id" => some (·.id)
    | "arbitrary_endpoint" => some (·.arbitraryEndpoint)
    | "service_namespace" => some (·.serviceNamespace)
    | "service_name" => some (·.serviceName)
    | _ => none
  withDefaults := ServiceBackendRef.withDefaults
  primaryColumn := "id"

instance : Resource HTTPRoute where
  key := (·.id)
  deleted := (·.deleted)
  markDeleted r := { r with deleted := true }
  column
    | "id" => some (·.id)
    | "hostname" => some (·.hostname)
    | "path" => some (·.path)
    | "backend_ref_id" => some (·.backendRefID)
    | _ => none
  withDefaults := HTTPRoute.withDefaults
  primaryColumn := "id"

instance : Resource CertificateRevision where
  key := (·.id)
  deleted := (·.deleted)
  markDeleted r := { r with deleted := true }
  column
    | "id" => some (·.id)
    | "hostname" => some (·.hostname)
    | _ => none
  withDefaults := id
  primaryColumn := "id"

end LunaEdge
