import LunaEdge.BridgeSync
import LunaEdge.IngressStore

/-!
# Kubernetes objects

The objects the bridges watch, as far as they read them. The API server
admits an object only if its names and host names are well formed; a
name here carries what of this the bridges rely on. A namespace or name
is not empty and has neither a colon nor a slash, so that the key
`namespace/name` determines both (`objectKey_inj`). A host name is
written in the characters of host names and does not end in a dot, so
that the host names the master works with are the ones of the objects
(`HostName.normalizeHost_val`).

The bridges read Gateways and their routes as nested maps; the records
here are the fields they read.
-/

namespace LunaEdge

namespace K8s

structure ObjectName where
  val : String
  nonempty : val ≠ ""
  noColon : ':' ∉ val.toList
  noSlash : '/' ∉ val.toList
deriving DecidableEq

/-- `namespace + "/" + name`. -/
def objectKey (namespace_ name : ObjectName) : String := namespace_.val ++ "/" ++ name.val

theorem objectKey_inj {namespace_ namespace' name name' : ObjectName}
    (h : objectKey namespace_ name = objectKey namespace' name') :
    namespace_ = namespace' ∧ name = name' := by
  have hlist := congrArg String.toList h
  simp only [objectKey, String.toList_append, List.append_assoc] at hlist
  obtain ⟨hns, -, hname⟩ :=
    (List.append_cons_inj_of_notMem namespace_.noSlash name.noSlash).mp hlist
  obtain ⟨ns, _, _, _⟩ := namespace_
  obtain ⟨ns', _, _, _⟩ := namespace'
  obtain ⟨n, _, _, _⟩ := name
  obtain ⟨n', _, _, _⟩ := name'
  obtain rfl : ns = ns' := String.toList_inj.mp hns
  obtain rfl : n = n' := String.toList_inj.mp hname
  exact ⟨rfl, rfl⟩

/-- Empty, or a host name with or without a wildcard. -/
structure HostName where
  val : String
  chars : ∀ c ∈ val.toList, Ingress.hostChar c
  noDot : val.toList.getLast? ≠ some '.'

/-- The host name of a text, by a check that computes. -/
def HostName.ofText (val : String)
    (h : (val.toList.all (fun c => decide (Ingress.hostChar c))
      && val.toList.getLast? != some '.') = true) : HostName where
  val := val
  chars c hc := of_decide_eq_true (List.all_eq_true.mp (Bool.and_eq_true_iff.mp h).1 c hc)
  noDot := bne_iff_ne.mp (Bool.and_eq_true_iff.mp h).2

instance : DecidableEq HostName := fun a b =>
  decidable_of_iff (a.val = b.val) ⟨fun h => by cases a; cases b; cases h; rfl, fun h => h ▸ rfl⟩

theorem HostName.normalizeHost_val (h : HostName) : K8sBridge.normalizeHost h.val = h.val := by
  obtain ⟨hlower, htrim, hscheme, hbefore⟩ := Ingress.steps_of_hostChars h.chars
  have hsuffix : Go.trimSuffix h.val "." = h.val := by
    refine Go.trimSuffix_eq_self ?_
    rintro ⟨t, ht⟩
    refine h.noDot ?_
    rw [← ht]
    exact List.getLast?_concat
  simp only [K8sBridge.normalizeHost, hlower, htrim, hscheme "http://" (by decide),
    hscheme "https://" (by decide), hbefore, hsuffix]

/-- An edge drops a host name or leaves it as it is. -/
theorem HostName.edge_normalizeHost_val (h : HostName) (hne : Ingress.normalizeHost h.val ≠ "") :
    Ingress.normalizeHost h.val = h.val := by
  rw [Ingress.normalizeHost_of_hostChars h.chars] at hne ⊢
  exact Ingress.sanitizeTrimmed_eq_self hne

theorem HostName.noColon (h : HostName) : ':' ∉ h.val.toList := by
  intro hc
  have hn := Ingress.hostChar_toNat (h.chars ':' hc)
  simp at hn

/-! ## Services -/

inductive ServiceType where
  | clusterIP
  | nodePort
  | loadBalancer
  | externalName
deriving Repr, DecidableEq

structure Service where
  namespace_ : ObjectName
  name : ObjectName
  type : ServiceType := .clusterIP
  externalName : String := ""
deriving DecidableEq

/-! ## Ingresses -/

inductive PathType where
  | exact
  | prefixed
  | implementationSpecific
deriving Repr, DecidableEq

/-- The service of a backend with its port; a named port has number 0. -/
structure ServiceBackend where
  name : ObjectName
  portNumber : Int := 0
  portName : String := ""
deriving DecidableEq

structure IngressPath where
  path : String := ""
  pathType : Option PathType := none
  service : Option ServiceBackend := none
deriving DecidableEq

structure IngressRule where
  host : HostName
  http : Option (List IngressPath) := none
deriving DecidableEq

structure Ingress where
  namespace_ : ObjectName
  name : ObjectName
  generation : Nat := 0
  ingressClassName : Option String := none
  annotations : Option (GoMap String String) := none
  rules : List IngressRule := []
  tls : List (List HostName) := []

/-- The bridges keep objects in maps from `namespace/name`. -/
instance : Keyed Ingress String := ⟨fun ing => objectKey ing.namespace_ ing.name⟩

instance : Keyed Service String := ⟨fun svc => objectKey svc.namespace_ svc.name⟩

/-! ## Gateways and their routes

An absent text of these objects reads as the empty one, an absent list as
the empty one. -/

structure Listener where
  name : String := ""
  protocol : String := ""
  hostname : HostName
  tlsMode : String := ""

structure Gateway where
  namespace_ : ObjectName
  name : ObjectName
  listeners : List Listener := []

structure ParentRef where
  name : String
  namespace_ : String := ""
  sectionName : String := ""

structure BackendRef where
  name : String := ""
  namespace_ : String := ""
  port : Int := 0

/-- The path of a match; its value and its type may be absent. -/
structure PathMatch where
  value : Option String := none
  type : Option String := none

structure HTTPRouteRule where
  pathMatches : List PathMatch := []
  backendRefs : List BackendRef := []

structure HTTPRoute where
  namespace_ : ObjectName
  name : ObjectName
  hostnames : List HostName := []
  parentRefs : List ParentRef := []
  rules : List HTTPRouteRule := []

structure TLSRoute where
  namespace_ : ObjectName
  name : ObjectName
  hostnames : List HostName := []
  parentRefs : List ParentRef := []
  /-- the backends of each rule -/
  rules : List (List BackendRef) := []

instance : Keyed Gateway String := ⟨fun gw => objectKey gw.namespace_ gw.name⟩

instance : Keyed HTTPRoute String := ⟨fun route => objectKey route.namespace_ route.name⟩

/-- What the handler of a delete is given: the object, or a
`DeletedFinalStateUnknown` with the last state of it, if one is known. -/
inductive Deleted (α : Type) where
  | object (obj : α)
  | tombstone (obj : Option α)

/-- The object `deleteByNamespaceName` takes the names of. -/
def Deleted.named {α : Type} : Deleted α → Option α
  | .object obj => some obj
  | .tombstone obj => obj

/-! ## Names for examples -/

def exampleNamespace : ObjectName := ⟨"web", by decide, by decide, by decide⟩

def exampleName : ObjectName := ⟨"edge", by decide, by decide, by decide⟩

def exampleHost : HostName := .ofText "a.example" (by decide)

end K8s

end LunaEdge
