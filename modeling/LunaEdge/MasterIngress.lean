import Mathlib.Data.List.Dedup
import LunaEdge.BridgeHosts
import LunaEdge.K8sObjects

/-!
# The Ingress bridge of the master

The bridge keeps the Ingresses of its class and the Services, and writes
what it materialises from them into the repository. An event determines
the hosts to materialise again and the hosts to remove: the hosts of the
Ingress before and after, or those of the Ingresses that refer to the
Service.

Materialising ranges over a map, in an order Go leaves open; here the
order is a parameter.
-/

namespace LunaEdge

open Session

namespace K8sBridge

/-! ## Ingresses -/

def mapKeys (values : List String) : List String := values.dedup.insertionSort (· ≤ ·)

def diffKeys (oldSet newSet : List String) : List String :=
  mapKeys (oldSet.filter fun key => key ∉ newSet)

theorem mem_mapKeys {values : List String} {h : String} : h ∈ mapKeys values ↔ h ∈ values := by
  rw [mapKeys, List.mem_insertionSort, List.mem_dedup]

theorem mem_diffKeys {oldSet newSet : List String} {h : String} :
    h ∈ diffKeys oldSet newSet ↔ h ∈ oldSet ∧ h ∉ newSet := by
  rw [diffKeys, mem_mapKeys, List.mem_filter, decide_eq_true_eq]

theorem mem_targets_hostNames {h : String} {hosts : List K8s.HostName} :
    h ∈ targets (hosts.map (·.val)) ↔ h ≠ "" ∧ ∃ host ∈ hosts, host.val = h := by
  rw [mem_targets]
  simp only [List.mem_map, exists_exists_and_eq_and, K8s.HostName.normalizeHost_val]

def ruleHosts (ing : K8s.Ingress) : List String := targets (ing.rules.map fun rule => rule.host.val)

/-- `ingressTLSHostSet`. -/
def tlsHosts (ing : K8s.Ingress) : List String := targets (ing.tls.flatten.map fun host => host.val)

def ingressHosts (ing : K8s.Ingress) : List String := mapKeys (ruleHosts ing ++ tlsHosts ing)

def ingressServicePort (backend : K8s.ServiceBackend) : Nat :=
  if 0 < backend.portNumber then backend.portNumber.toNat else 80

def ingressReferencesService (ing : K8s.Ingress) (serviceName : String) : Bool :=
  if serviceName = "" then false
  else
    ing.rules.any fun rule =>
      (rule.http.getD []).any fun path =>
        path.service.any fun service => service.name.val = serviceName

def normalizeArbitraryEndpoint (value : String) : String := Go.trimSuffix (Go.trimSpace value) "."

def normalizePath (path : String) : String :=
  let path := Go.trimSpace path
  if path = "" || !Go.hasPrefix path "/" then "/" else path

theorem normalizePath_ne_empty (path : String) : normalizePath path ≠ "" := by
  unfold normalizePath
  generalize Go.trimSpace path = p
  dsimp only
  split
  · decide
  · rename_i hp
    rintro rfl
    simp at hp

/-! ## Materialising -/

structure IngressBridge where
  ingressClass : String
  ingresses : Table K8s.Ingress := .empty
  services : Table K8s.Service := .empty

def dedupBackends (item : DomainMaterialized) : DomainMaterialized :=
  let seen : GoMap String ServiceBackendRef :=
    item.backends.foldl (fun seen backend => seen.set backend.id backend) .empty
  { item with backends := seen.values.insertionSort fun a b => a.id ≤ b.id }

namespace IngressBridge

def matchesIngressClass (b : IngressBridge) (ing : K8s.Ingress) : Bool :=
  let expected := b.ingressClass
  if expected = "" then false
  else if ing.ingressClassName.getD "" ≠ "" then ing.ingressClassName.getD "" = expected
  else ing.annotations.any fun annotations =>
    (annotations.get? "kubernetes.io/ingress.class").getD "" = expected

def resolveIngressBackendServiceAddress (b : IngressBridge) (namespace_ name : K8s.ObjectName) :
    Option String :=
  match b.services.find? (K8s.objectKey namespace_ name) with
  | none => none
  | some svc =>
    if svc.type ≠ .externalName then none
    else
      let address := normalizeArbitraryEndpoint svc.externalName
      if address = "" then none else some address

/-- The fields of the ids of the path `idx` of a rule of the host. -/
def rowFields (ing : K8s.Ingress) (host : String) (idx : Nat) : List String :=
  ["ingress", ing.namespace_.val, ing.name.val, host, toString idx]

def pathBackend (b : IngressBridge) (ing : K8s.Ingress) (host : String) (idx : Nat)
    (service : K8s.ServiceBackend) : ServiceBackendRef :=
  let id := backendID (rowFields ing host idx)
  let port := ingressServicePort service
  match b.resolveIngressBackendServiceAddress ing.namespace_ service.name with
  | some resolved => { id := id, type := .external, arbitraryEndpoint := resolved, port := port }
  | none =>
    { id := id, type := .svc, serviceNamespace := ing.namespace_.val
      serviceName := service.name.val, port := port }

def pathRoute (ing : K8s.Ingress) (host : String) (idx : Nat) (path : K8s.IngressPath) :
    HTTPRoute where
  id := routeID (rowFields ing host idx)
  hostname := host
  path := normalizePath path.path
  priority := Go.len (normalizePath path.path) + if path.pathType = some .exact then 100000 else 0
  backendRefID := backendID (rowFields ing host idx)

def pathRows (b : IngressBridge) (ing : K8s.Ingress) (host : String)
    (paths : List K8s.IngressPath) : List (ServiceBackendRef × HTTPRoute) :=
  paths.zipIdx.filterMap fun (path, idx) =>
    path.service.map fun service => (b.pathBackend ing host idx service, pathRoute ing host idx path)

def ruleDomain (ing : K8s.Ingress) (host : String) : DomainEndpoint where
  hostname := host
  needCert := host ∈ tlsHosts ing
  backendType := if host ∈ tlsHosts ing then .l7HTTPS else .l7HTTP

def addRule (b : IngressBridge) (ing : K8s.Ingress) (host : String) (rule : K8s.IngressRule)
    (item : Option DomainMaterialized) : DomainMaterialized :=
  let rows := b.pathRows ing host (rule.http.getD [])
  { domain := ruleDomain ing host
    backends := (item.map (·.backends)).getD [] ++ rows.map (·.1)
    routes := (item.map (·.routes)).getD [] ++ rows.map (·.2) }

def materializeRule (b : IngressBridge) (hostSet : List String) (ing : K8s.Ingress)
    (out : GoMap String DomainMaterialized) (rule : K8s.IngressRule) :
    GoMap String DomainMaterialized :=
  let host := normalizeHost rule.host.val
  if host = "" then out
  else if host ∉ hostSet then out
  else out.set host (b.addRule ing host rule (out.get? host))

def materializeByHost (range : List K8s.Ingress → List K8s.Ingress) (b : IngressBridge)
    (hosts : List String) : GoMap String DomainMaterialized :=
  let hostSet := targets hosts
  let out := (range b.ingresses.rows).foldl
    (fun out ing => ing.rules.foldl (b.materializeRule hostSet ing) out) .empty
  out.mapValues dedupBackends

/-! ## Events -/

/-- The orders in which an event ranges over its maps. -/
structure Order where
  ingresses : List K8s.Ingress → List K8s.Ingress
  routes : List HTTPRoute → List HTTPRoute
  ingresses_perm : ∀ l, (ingresses l).Perm l
  routes_perm : ∀ l, (routes l).Perm l

inductive Event where
  | storeIngress (ing : K8s.Ingress)
  | deleteIngress (namespace_ name : K8s.ObjectName)
  | storeService (svc : K8s.Service)
  | deleteService (namespace_ name : K8s.ObjectName)

def oldHosts (b : IngressBridge) (key : String) : List String :=
  (b.ingresses.find? key).elim [] ingressHosts

def store (b : IngressBridge) : Event → IngressBridge
  | .storeIngress ing =>
    if b.matchesIngressClass ing then { b with ingresses := b.ingresses.upsert ing }
    else { b with ingresses := b.ingresses.erase (Keyed.key ing) }
  | .deleteIngress namespace_ name =>
    { b with ingresses := b.ingresses.erase (K8s.objectKey namespace_ name) }
  | .storeService svc => { b with services := b.services.upsert svc }
  | .deleteService namespace_ name =>
    { b with services := b.services.erase (K8s.objectKey namespace_ name) }

def serviceHosts (b : IngressBridge) (namespace_ name : K8s.ObjectName) : List String :=
  mapKeys ((b.ingresses.rows.filter fun ing =>
    ing.namespace_ = namespace_ && ingressReferencesService ing name.val).flatMap ingressHosts)

def affectedHosts (b : IngressBridge) : Event → List String
  | .storeIngress ing => if b.matchesIngressClass ing then ingressHosts ing else []
  | .deleteIngress _ _ => []
  | .storeService svc => b.serviceHosts svc.namespace_ svc.name
  | .deleteService namespace_ name => b.serviceHosts namespace_ name

def removedHosts (b : IngressBridge) : Event → List String
  | .storeIngress ing =>
    diffKeys (b.oldHosts (Keyed.key ing))
      (if b.matchesIngressClass ing then ingressHosts ing else [])
  | .deleteIngress namespace_ name => b.oldHosts (K8s.objectKey namespace_ name)
  | .storeService _ => []
  | .deleteService _ _ => []

def sync (b : IngressBridge) (order : Order) (e : Event) : MasterM PUnit :=
  MasterM.syncHosts .ingress order.routes ((b.store e).materializeByHost order.ingresses)
    (b.affectedHosts e) (b.removedHosts e)

def handle (b : IngressBridge) (order : Order) (e : Event) : MasterM PUnit :=
  match e with
  | .storeIngress _ | .deleteIngress _ _ => b.sync order e
  | .storeService _ | .deleteService _ _ =>
    if (b.affectedHosts e).length > 0 then b.sync order e else pure ()

end IngressBridge

end K8sBridge

end LunaEdge
