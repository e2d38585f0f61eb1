import Mathlib.Data.List.Sort
import LunaEdge.Metadata

/-!
# The repository

The tables of the master database and the statements of the generic
repository. A logically deleted row stays in its table; every read
filters on `deleted = false`, so what a caller can see of a primary key
is `live?`. The two facts about the generic statements that later proofs
use are `live?_upsertResource` and `live?_retire`.

Rows come back in the order the statement asks for. Where a statement
leaves ties open, the model takes the order of insertion.
-/

namespace LunaEdge

inductive RepoError where
  | recordNotFound
  | noSuchColumn (field : String)
  | database (message : String)
deriving Repr, DecidableEq

/-- `gorm.ErrRecordNotFound` for an empty result. -/
def orNotFound {α : Type} : Option α → Except RepoError α
  | none => .error .recordNotFound
  | some a => .ok a

theorem orNotFound_eq_ok_iff {α : Type} {o : Option α} {a : α} :
    orNotFound o = .ok a ↔ o = some a := by
  cases o <;> simp [orNotFound]

theorem orNotFound_eq_error_iff {α : Type} {o : Option α} {e : RepoError} :
    orNotFound o = .error e ↔ o = none ∧ e = .recordNotFound := by
  cases o <;> simp [orNotFound, eq_comm]

/-! ## The generic repository -/

namespace Table

open Resource

variable {ρ : Type} [Resource ρ]

/-- The row of primary key `k`, unless it is logically deleted. -/
def live? (t : Table ρ) (k : String) : Option ρ := (t.find? k).filter fun r => !deleted r

/-- `SELECT ... WHERE deleted = false AND field = value ORDER BY key LIMIT 1`. -/
def getResourceByField (t : Table ρ) (field value : String) :
    Except RepoError ρ :=
  match column field with
  | none => .error (.noSuchColumn field)
  | some col =>
    let hits := t.select fun r => !deleted r && col r == value
    orNotFound (hits.insertionSort fun r s => Keyed.key r ≤ Keyed.key s).head?

/-- `INSERT ... ON CONFLICT DO UPDATE SET` every column. -/
def upsertResource (t : Table ρ) (model : ρ) : Table ρ := t.upsert (withDefaults model)

/-- `UPDATE ... SET deleted = true WHERE deleted = false AND col = value`. -/
def retire (t : Table ρ) (col : ρ → String) (value : String) : Table ρ :=
  t.update (fun r => !deleted r && col r == value) markDeleted key_markDeleted

def deleteResourceByField (t : Table ρ) (field value : String) :
    Except RepoError (Table ρ) :=
  match column field with
  | none => .error (.noSuchColumn field)
  | some col => .ok (t.retire col value)

variable {k : String} {t : Table ρ}

theorem live?_eq_some_iff {r : ρ} :
    t.live? k = some r ↔ t.find? k = some r ∧ deleted r = false := by
  simp [live?, Option.filter_eq_some_iff]

theorem key_of_live? {r : ρ} (h : t.live? k = some r) : Keyed.key r = k :=
  key_of_find? (live?_eq_some_iff.mp h).1

theorem live?_upsertResource (t : Table ρ) (x : ρ) (k : String) :
    (t.upsertResource x).live? k =
      if Keyed.key x = k then
        if deleted x then none else some (withDefaults x)
      else t.live? k := by
  rw [live?, upsertResource, find?_upsert, key_withDefaults]
  by_cases hk : Keyed.key x = k
  · rw [if_pos hk, if_pos hk]
    cases hd : deleted x <;> simp [Option.filter, deleted_withDefaults, hd]
  · rw [if_neg hk, if_neg hk, live?]

theorem live?_upsertResource_self (t : Table ρ) {x : ρ} (hdel : deleted x = false) :
    (t.upsertResource x).live? (Keyed.key x) = some (withDefaults x) := by
  rw [live?_upsertResource, if_pos rfl, if_neg (by simp [hdel])]

theorem live?_upsertResource_of_ne (t : Table ρ) {x : ρ} (hk : Keyed.key x ≠ k) :
    (t.upsertResource x).live? k = t.live? k := by
  rw [live?_upsertResource, if_neg hk]

theorem find?_upsertResource_of_ne (t : Table ρ) {x : ρ} (hk : Keyed.key x ≠ k) :
    (t.upsertResource x).find? k = t.find? k := by
  rw [upsertResource, find?_upsert, key_withDefaults, if_neg hk]

theorem find?_retire_of_ne (t : Table ρ) {k' : String} (hk : k ≠ k') :
    (t.retire Keyed.key k).find? k' = t.find? k' := by
  rw [retire, find?_update]
  cases hf : t.find? k' with
  | none => rfl
  | some r => simp [key_of_find? hf, Ne.symm hk]

theorem select_live (t : Table ρ) (k : String) :
    (t.select fun r => !deleted r && Keyed.key r == k) = (t.live? k).toList := by
  have hnodup : (t.select fun r => !deleted r && Keyed.key r == k).Nodup :=
    (List.Nodup.of_map _ t.nodup).filter _
  have hmem : ∀ r, r ∈ t.select (fun r => !deleted r && Keyed.key r == k)
      ↔ r ∈ (t.live? k).toList := by
    intro r
    rw [Option.mem_toList, live?_eq_some_iff, find?_eq_some_iff, select, List.mem_filter]
    simp only [Bool.and_eq_true, Bool.not_eq_eq_eq_not, Bool.not_true, beq_iff_eq]
    tauto
  cases hl : t.live? k with
  | none =>
    rw [hl] at hmem
    exact List.eq_nil_iff_forall_not_mem.mpr fun r hr => by simpa using (hmem r).mp hr
  | some x =>
    rw [hl] at hmem
    exact List.perm_singleton.mp
      ((List.perm_ext_iff_of_nodup hnodup (List.nodup_singleton x)).mpr hmem)

/-- Reading by the primary column is reading the live row of that key. -/
theorem getResourceByField_primary (t : Table ρ) (k : String) :
    t.getResourceByField (primaryColumn ρ) k = orNotFound (t.live? k) := by
  simp only [getResourceByField, column_primary, select_live]
  cases t.live? k <;> rfl

theorem deleteResourceByField_primary (t : Table ρ) (k : String) :
    t.deleteResourceByField (primaryColumn ρ) k = .ok (t.retire Keyed.key k) := by
  simp only [deleteResourceByField, column_primary]

theorem live?_retire (t : Table ρ) (k k' : String) :
    (t.retire Keyed.key k).live? k' = if k = k' then none else t.live? k' := by
  rw [live?, retire, find?_update, live?]
  cases hf : t.find? k' with
  | none => simp
  | some r =>
    have hkey := key_of_find? hf
    by_cases hk : k = k'
    · cases hd : deleted r <;>
        simp [Option.filter, hd, hkey, hk, deleted_markDeleted]
    · simp [hkey, hk, Ne.symm hk]

theorem live?_foldl_upsertResource (t : Table ρ) {rows : List ρ}
    (hdel : ∀ r ∈ rows, deleted r = false) (k : String) :
    (rows.foldl upsertResource t).live? k
      = ((rows.filter fun r => Keyed.key r = k).getLast?.map withDefaults).or (t.live? k) := by
  induction rows generalizing t with
  | nil => rfl
  | cons x rows ih =>
    rw [List.foldl_cons, ih _ fun r hr => hdel r (List.mem_cons_of_mem _ hr),
      live?_upsertResource, hdel x List.mem_cons_self, List.filter_cons]
    by_cases hk : Keyed.key x = k
    · simp only [hk, if_true, decide_true, List.getLast?_cons]
      cases (rows.filter fun r => Keyed.key r = k).getLast? <;> simp
    · simp [hk]

theorem live?_foldl_retire (t : Table ρ) (ks : List String) (k : String) :
    (ks.foldl (fun t k => t.retire Keyed.key k) t).live? k
      = if k ∈ ks then none else t.live? k := by
  induction ks generalizing t with
  | nil => rfl
  | cons k' ks ih =>
    rw [List.foldl_cons, ih, live?_retire]
    by_cases hk : k ∈ ks
    · simp [hk]
    · by_cases hk' : k' = k
      · simp [hk']
      · simp [hk, hk', Ne.symm hk']

/-- `SELECT ... WHERE deleted = false ORDER BY key`. -/
def listResource (t : Table ρ) : List ρ :=
  (t.select fun r => !deleted r).insertionSort fun r s => Keyed.key r ≤ Keyed.key s

theorem mem_listResource {r : ρ} : r ∈ t.listResource ↔ t.live? (Keyed.key r) = some r := by
  rw [listResource, List.mem_insertionSort, select, List.mem_filter, live?_eq_some_iff,
    find?_eq_some_iff]
  simp

end Table

/-! ## The tables -/

structure Repo where
  dnsRecords : Table DNSRecord
  domainEndpoints : Table DomainEndpoint
  serviceBackendRefs : Table ServiceBackendRef
  httpRoutes : Table HTTPRoute
  certificateRevisions : Table CertificateRevision

def Repo.empty : Repo where
  dnsRecords := .empty
  domainEndpoints := .empty
  serviceBackendRefs := .empty
  httpRoutes := .empty
  certificateRevisions := .empty

/-- A model with a table of its own: what `GenericRepository[M]` is
instantiated with. -/
class Stored (ρ : Type) extends Resource ρ where
  table : Repo → Table ρ
  setTable : Repo → Table ρ → Repo

instance : Stored DNSRecord where
  table := Repo.dnsRecords
  setTable repo t := { repo with dnsRecords := t }

instance : Stored DomainEndpoint where
  table := Repo.domainEndpoints
  setTable repo t := { repo with domainEndpoints := t }

instance : Stored ServiceBackendRef where
  table := Repo.serviceBackendRefs
  setTable repo t := { repo with serviceBackendRefs := t }

instance : Stored HTTPRoute where
  table := Repo.httpRoutes
  setTable repo t := { repo with httpRoutes := t }

instance : Stored CertificateRevision where
  table := Repo.certificateRevisions
  setTable repo t := { repo with certificateRevisions := t }

namespace Repo

variable {ρ : Type} [Stored ρ]

def getResourceByField (ρ : Type) [Stored ρ] (repo : Repo) (field value : String) :
    Except RepoError ρ :=
  (Stored.table repo).getResourceByField field value

def upsertResource (repo : Repo) (model : ρ) : Repo :=
  Stored.setTable repo ((Stored.table repo).upsertResource model)

def deleteResourceByField (ρ : Type) [Stored ρ] (repo : Repo)
    (field value : String) : Except RepoError Repo :=
  ((Stored.table repo : Table ρ).deleteResourceByField field value).map
    (Stored.setTable repo)

/-! ## Queries of the domain tables -/

def getDomainEndpointByHostname (repo : Repo) (hostname : String) :
    Except RepoError DomainEndpoint :=
  repo.domainEndpoints.getResourceByField "hostname" hostname

/-- `priority desc, length(path) desc, id asc`; `length` counts characters. -/
def routeOrder (a b : HTTPRoute) : Bool :=
  b.priority < a.priority
    || (a.priority == b.priority
        && (b.path.length < a.path.length
            || (a.path.length == b.path.length && a.id ≤ b.id)))

def listHTTPRoutesByHostname (repo : Repo) (hostname : String) : List HTTPRoute :=
  (repo.httpRoutes.select fun r => !r.deleted && r.hostname == hostname).insertionSort
    fun a b => routeOrder a b = true

/-- The inner join of backends and routes: a backend that two routes of
the host use comes back twice. -/
def listServiceBindingsByHostname (repo : Repo) (hostname : String) :
    List ServiceBackendRef :=
  let routes := repo.httpRoutes.select fun r => !r.deleted && r.hostname == hostname
  let joined := (repo.serviceBackendRefs.select fun b => !b.deleted).flatMap fun b =>
    (routes.filter fun r => r.backendRefID == b.id).map fun _ => b
  joined.insertionSort fun a b => a.id ≤ b.id

end Repo

end LunaEdge
