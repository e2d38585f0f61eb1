import LunaEdge.GoMap
import LunaEdge.GoText
import LunaEdge.Master

/-!
# Synchronising materialised domains

What the Kubernetes bridges of the master share: writing the domains
materialised for a set of hosts into the repository, removing managed
domains that are gone, and reporting which hosts have changed. Both
bridges then call `OnUpdate` for each of them, which the engine wires to
`BoardcastDomainEndpointProjection`; they differ in the order.

How a bridge materialises its objects is a parameter here. The order in
which Go ranges over a map of routes is a parameter too.
-/

namespace LunaEdge

open Session

namespace K8sBridge

def normalizeHost (host : String) : String :=
  let host := Go.trimSpace (Go.toLower host)
  let host := Go.trimPrefix host "http://"
  let host := Go.trimPrefix host "https://"
  Go.trimSuffix (Go.before host ':') "."

structure DomainMaterialized where
  domain : DomainEndpoint
  backends : List ServiceBackendRef := []
  routes : List HTTPRoute := []

def managedBackend (id : String) : Bool := Go.hasPrefix id "k8s:backend:"

/-- `m[id]` for a map filled from a list: the last row of that id. -/
def lastByID {ρ : Type} (key : ρ → String) (rows : List ρ) (id : String) : Option ρ :=
  (rows.filter fun r => key r = id).getLast?

section LastByID

variable {ρ : Type} {key : ρ → String} {rows : List ρ} {id : String} {r : ρ}

theorem mem_of_lastByID (hlast : lastByID key rows id = some r) : r ∈ rows ∧ key r = id := by
  obtain ⟨hr, hkey⟩ := List.mem_filter.mp (List.mem_of_getLast? hlast)
  exact ⟨hr, of_decide_eq_true hkey⟩

theorem exists_lastByID (hr : r ∈ rows) : ∃ last, lastByID key rows (key r) = some last := by
  have hne : (rows.filter fun s => key s = key r) ≠ [] :=
    List.ne_nil_of_mem (List.mem_filter.mpr ⟨hr, decide_eq_true rfl⟩)
  exact ⟨_, List.getLast?_eq_some_getLast hne⟩

theorem lastByID_eq_none (h : ∀ r ∈ rows, key r ≠ id) : lastByID key rows id = none := by
  cases hlast : lastByID key rows id with
  | none => rfl
  | some r =>
    obtain ⟨hr, hkey⟩ := mem_of_lastByID hlast
    exact absurd hkey (h r hr)

end LastByID

def managedDomainUnchanged (existing : Option DomainEndpoint)
    (currentRoutes : List HTTPRoute) (currentBackends : List ServiceBackendRef)
    (item : DomainMaterialized) : Bool :=
  match existing with
  | none => false
  | some existing =>
    existing.hostname = item.domain.hostname
      && existing.needCert = item.domain.needCert
      && existing.backendType = item.domain.backendType
      && existing.bindedServiceID = item.domain.bindedServiceID
      && currentRoutes.length = item.routes.length
      && currentBackends.length = item.backends.length
      && (item.routes.all fun r =>
        match lastByID (·.id) currentRoutes r.id with
        | none => false
        | some current =>
          current.hostname = r.hostname && current.path = r.path
            && current.priority = r.priority && current.backendRefID = r.backendRefID)
      && (item.backends.all fun b =>
        match lastByID (·.id) currentBackends b.id with
        | none => false
        | some current =>
          current.type = b.type && current.arbitraryEndpoint = b.arbitraryEndpoint
            && current.serviceNamespace = b.serviceNamespace
            && current.serviceName = b.serviceName && current.port = b.port)

end K8sBridge

/-! ## Repository programs -/

namespace MasterM

open K8sBridge

def listHTTPRoutesByHostname (hostname : String) : MasterM (List HTTPRoute) :=
  query fun m => .ok (m.repo.listHTTPRoutesByHostname hostname)

def listServiceBindingsByHostname (hostname : String) : MasterM (List ServiceBackendRef) :=
  query fun m => .ok (m.repo.listServiceBindingsByHostname hostname)

/-- The notifier is set along with `Certs`. -/
def markCertificateDesired (hostname : String) : MasterM PUnit :=
  let hostname := Go.trimSpace (Go.toLower hostname)
  if hostname = "" then pure () else certsNotify hostname

def markIfNeedCert (domain : DomainEndpoint) : MasterM PUnit :=
  if domain.needCert then markCertificateDesired domain.hostname else pure ()

/-- `x`, or nothing when it is not found; any other error is returned. -/
def orNothing {α : Type} (x : MasterM α) : MasterM (Option α) := do
  match ← attempt x with
  | .ok a => pure (some a)
  | .error .recordNotFound => pure none
  | .error e => fail e

def dropBackend (keep : List String) (id : String) : MasterM PUnit :=
  if managedBackend id ∧ id ∉ keep then deleteResourceByField ServiceBackendRef "id" id
  else pure ()

def dropRoute (keep : List String) (route : HTTPRoute) : MasterM PUnit := do
  deleteResourceByField HTTPRoute "id" route.id
  dropBackend keep route.backendRefID

def upsertManagedDomain (range : List HTTPRoute → List HTTPRoute)
    (item : DomainMaterialized) : MasterM Bool := do
  let existing ← orNothing (getDomainEndpointByHostname item.domain.hostname)
  let currentRoutes ← orNothing (listHTTPRoutesByHostname item.domain.hostname)
  let currentRoutes := currentRoutes.getD []
  let currentBackends ← orNothing (listServiceBindingsByHostname item.domain.hostname)
  if managedDomainUnchanged existing currentRoutes (currentBackends.getD []) item then
    pure false
  else do
    upsertResource item.domain
    item.backends.forM fun b => upsertResource b
    item.routes.forM fun r => upsertResource r
    let nextRouteIDs := item.routes.map (·.id)
    let nextBackendIDs := item.backends.map (·.id)
    (range (currentRoutes.filter fun r => r.id ∉ nextRouteIDs)).forM (dropRoute nextBackendIDs)
    existing.toList.forM fun domain => dropBackend nextBackendIDs domain.bindedServiceID
    pure true

def deleteManagedDomain (hostname : String) : MasterM Bool := do
  match ← orNothing (getDomainEndpointByHostname hostname) with
  | none => pure false
  | some domain =>
    -- a failed listing is passed over
    let routes ← attempt (listHTTPRoutesByHostname domain.hostname)
    (routes.toOption.getD []).forM (dropRoute [])
    dropBackend [] domain.bindedServiceID
    deleteResourceByField DomainEndpoint "hostname" domain.hostname
    pure true

end MasterM

/-! ## Sets of hosts -/

namespace K8sBridge

structure SyncResult where
  seen : List String := []
  changedAffected : List String := []
  changedRemoved : List String := []

end K8sBridge

namespace MasterM

open K8sBridge

def syncRemovedHost (r : SyncResult) (host : String) : MasterM SyncResult := do
  let changed ← deleteManagedDomain host
  pure (if changed then { r with changedRemoved := r.changedRemoved ++ [host] } else r)

def syncAffectedHost (range : List HTTPRoute → List HTTPRoute)
    (next : GoMap String DomainMaterialized) (r : SyncResult) (host : String) :
    MasterM SyncResult := do
  match next.get? host with
  | none => syncRemovedHost r host
  | some item =>
    let changed ← upsertManagedDomain range item
    markIfNeedCert item.domain
    pure (if changed then { r with changedAffected := r.changedAffected ++ [host] } else r)

/-- The start of both loop bodies: hosts are normalised and taken once. -/
def forNewHost (body : SyncResult → String → MasterM SyncResult) (r : SyncResult)
    (host : String) : MasterM SyncResult :=
  let host := normalizeHost host
  if host = "" ∨ host ∈ r.seen then pure r
  else body { r with seen := r.seen ++ [host] } host

def syncDomainSet (range : List HTTPRoute → List HTTPRoute)
    (next : GoMap String DomainMaterialized) (affectedHosts removedHosts : List String) :
    MasterM (List String × List String) := do
  let r ← affectedHosts.foldlM (forNewHost (syncAffectedHost range next)) {}
  let r ← removedHosts.foldlM (forNewHost syncRemovedHost) r
  pure (r.changedAffected, r.changedRemoved)

end MasterM

/-! ## The bridges -/

namespace K8sBridge

inductive Kind where
  | ingress
  | gateway
deriving Repr, DecidableEq

/-- The hosts to call `OnUpdate` for: the Ingress bridge starts with the
affected ones, the Gateway bridge with the removed ones. -/
def Kind.updates (changedAffected changedRemoved : List String) : Kind → List String
  | .ingress => changedAffected ++ changedRemoved
  | .gateway => changedRemoved ++ changedAffected

end K8sBridge

namespace MasterM

open K8sBridge

def onUpdate (fqdn : String) : MasterM PUnit := boardcastDomainEndpointProjection fqdn

def syncHosts (kind : Kind) (range : List HTTPRoute → List HTTPRoute)
    (materializeByHost : List String → GoMap String DomainMaterialized)
    (affectedHosts removedHosts : List String) : MasterM PUnit := do
  let next := materializeByHost affectedHosts
  let (changedAffected, changedRemoved) ← syncDomainSet range next affectedHosts removedHosts
  (kind.updates changedAffected changedRemoved).forM onUpdate

end MasterM

end LunaEdge
