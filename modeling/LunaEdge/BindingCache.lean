import Mathlib.Data.List.Dedup
import LunaEdge.IngressCache
import LunaEdge.Runs

/-!
# Growth of the binding store

Every request that is answered with a binding puts that binding into the
store, also one that the store itself has answered, and `Put` appends. So
a host has a binding once for each request and not once for each route:
the store is free of duplicates exactly as long as no request is answered
with a route that is there already (`kept_iff`).
-/

namespace LunaEdge

open Runs List

namespace Ingress

-- host names are compared here and never computed
attribute [local irreducible] normalizeHost

/-! ## The binding of an answer -/

def projectionBinding (src : Sources) (hostname requestPath : String) (kind : RouteKind) :
    Option BackendBinding :=
  match src.slave, src.repo with
  | some read, _ | none, some read =>
    (read hostname).toOption.bind fun entry => bindingFromProjection entry requestPath kind
  | none, none => none

/-- The binding a request is answered with, if it has an upstream. -/
def answering (src : Sources) (memory : MemoryStore) (req : Request) : Option BackendBinding :=
  if req.hostname = "" then none
  else
    (((src.k8sBridge.bind fun bridge => bridge.resolve req.hostname req.path req.kind).or
      (memory.get req.hostname req.path)).or
        (projectionBinding src req.hostname req.path req.kind)).filter
      fun binding => binding.upstreamURL ≠ ""

theorem resultFromBinding_snd (memory : MemoryStore) (hostname : String)
    (binding : BackendBinding) :
    (resultFromBinding memory hostname binding).2
      = ((some binding).filter fun binding => binding.upstreamURL ≠ "").elim memory memory.put := by
  unfold resultFromBinding
  by_cases hurl : binding.upstreamURL = ""
  · simp [hurl, Option.filter]
  · simp [hurl, Option.filter]

theorem routeFromProjection_snd (src : Sources) (memory : MemoryStore)
    (hostname requestPath : String) (kind : RouteKind) :
    (routeFromProjection src memory hostname requestPath kind).2
      = ((projectionBinding src hostname requestPath kind).filter
          fun binding => binding.upstreamURL ≠ "").elim memory memory.put := by
  have hentry : ∀ entry, (resultFromProjection memory hostname requestPath kind entry).2
      = ((bindingFromProjection entry requestPath kind).filter
          fun binding => binding.upstreamURL ≠ "").elim memory memory.put := by
    intro entry
    unfold resultFromProjection
    cases bindingFromProjection entry requestPath kind with
    | none => rfl
    | some binding => exact resultFromBinding_snd memory hostname binding
  unfold routeFromProjection projectionBinding
  rcases src.slave with _ | read
  · rcases src.repo with _ | read
    · rfl
    · dsimp only
      cases read hostname with
      | error err => rfl
      | ok entry => exact hentry entry
  · dsimp only
    cases read hostname with
    | error err => rfl
    | ok entry => exact hentry entry

/-- A request puts the binding it is answered with into the store. -/
theorem routeByKind_snd (src : Sources) (memory : MemoryStore) (req : Request) :
    (routeByKind src memory req.host req.path req.kind).2
      = (answering src memory req).elim memory memory.put := by
  have hname : normalizeHost req.host = req.hostname := rfl
  unfold routeByKind answering
  rw [hname]
  by_cases hhost : req.hostname = ""
  · simp only [hhost, if_true, Option.elim_none]
  · simp only [hhost, if_false]
    cases src.k8sBridge.bind fun bridge => bridge.resolve req.hostname req.path req.kind with
    | some binding => exact resultFromBinding_snd memory req.hostname binding
    | none =>
      rw [Option.none_or]
      cases memory.get req.hostname req.path with
      | some binding => exact resultFromBinding_snd memory req.hostname binding
      | none => exact routeFromProjection_snd src memory req.hostname req.path req.kind

/-! ## Runs -/

inductive CacheEvent where
  | request (src : Sources) (req : Request)
  | refreshHost (hostname : String)
  | refreshAll

def BackendBinding.key (binding : BackendBinding) : String × RouteKind :=
  (binding.id, binding.protocol)

/-- The store, and what has been served so far, by host. -/
structure CacheRun where
  memory : MemoryStore := .new
  served : List (String × String × RouteKind) := []

namespace CacheRun

def keys (s : CacheRun) (h : String) : List (String × RouteKind) :=
  (s.memory.ofHost h).map BackendBinding.key

def routesServed (s : CacheRun) (h : String) : List (String × RouteKind) :=
  ((s.served.filter fun entry => entry.1 = h).map Prod.snd).dedup

def step (s : CacheRun) : CacheEvent → CacheRun
  | .request src req =>
    { memory := (routeByKind src s.memory req.host req.path req.kind).2
      served := s.served ++ (answering src s.memory req).toList.map fun binding =>
        (normalizeHost binding.hostname, binding.key) }
  | .refreshHost hostname => { s with memory := s.memory.delete hostname }
  | .refreshAll => { s with memory := s.memory.clear }

/-- No duplicates, and no more bindings than routes served. -/
def Kept (s : CacheRun) : Prop :=
  ∀ h, (s.keys h).Nodup ∧ (s.memory.ofHost h).length ≤ (s.routesServed h).length

/-- A request is not answered with a binding whose key its host has. -/
def Fresh (s : CacheRun) : CacheEvent → Prop
  | .request src req => ∀ binding ∈ answering src s.memory req,
    binding.key ∉ s.keys (normalizeHost binding.hostname)
  | .refreshHost _ | .refreshAll => True

def Recorded (s : CacheRun) : Prop := ∀ h, s.keys h ⊆ s.routesServed h

variable {s : CacheRun}

theorem keys_request (src : Sources) (req : Request) (h : String) :
    (s.step (.request src req)).keys h = s.keys h ++ (answering src s.memory req).elim []
      fun binding => if normalizeHost binding.hostname = h then [binding.key] else [] := by
  rw [keys, step, routeByKind_snd]
  cases answering src s.memory req with
  | none => exact (append_nil _).symm
  | some binding =>
    rw [Option.elim_some, MemoryStore.ofHost_put, map_append, Option.elim_some, keys]
    split <;> rfl

/-- A refresh leaves the bindings of a host or drops all of them. -/
theorem keys_refresh (e : CacheEvent) (he : ∀ src req, e ≠ .request src req) (h : String) :
    (s.step e).keys h = s.keys h ∨ (s.step e).keys h = [] := by
  cases e with
  | request src req => exact absurd rfl (he src req)
  | refreshHost hostname =>
    rw [keys, step, MemoryStore.ofHost_delete]
    split
    · exact Or.inr rfl
    · exact Or.inl rfl
  | refreshAll => exact Or.inr rfl

theorem Recorded.step (hs : s.Recorded) (e : CacheEvent) : (s.step e).Recorded := by
  have hmono : ∀ h key, key ∈ s.routesServed h → key ∈ (s.step e).routesServed h := by
    intro h key hkey
    rw [routesServed, mem_dedup] at hkey ⊢
    cases e with
    | request src req =>
      rw [CacheRun.step, filter_append, map_append]
      exact mem_append_left _ hkey
    | refreshHost hostname => exact hkey
    | refreshAll => exact hkey
  intro h key hkey
  cases e with
  | request src req =>
    rw [keys_request, mem_append] at hkey
    rcases hkey with hold | hnew
    · exact hmono h key (hs h hold)
    · cases hanswer : answering src s.memory req with
      | none =>
        rw [hanswer] at hnew
        cases hnew
      | some binding =>
        rw [hanswer, Option.elim_some] at hnew
        split at hnew
        · rename_i hh
          obtain rfl := mem_singleton.mp hnew
          rw [routesServed, CacheRun.step, hanswer, mem_dedup]
          simp [hh]
        · cases hnew
  | refreshHost hostname =>
    rcases keys_refresh (s := s) (.refreshHost hostname) nofun h with heq | heq
    · exact hs h (heq ▸ hkey)
    · rw [heq] at hkey
      cases hkey
  | refreshAll => cases hkey

theorem Recorded.kept (hs : s.Recorded) (hnodup : ∀ h, (s.keys h).Nodup) : s.Kept := by
  intro h
  refine ⟨hnodup h, ?_⟩
  have hle := (subperm_of_subset (hnodup h) (hs h)).length_le
  rwa [keys, length_map] at hle

theorem kept_step_iff (e : CacheEvent) (hs : s.Recorded) (hkept : s.Kept) :
    (s.step e).Kept ↔ s.Fresh e := by
  constructor
  · intro hnext
    cases e with
    | request src req =>
      intro binding hbinding hmem
      have hnodup := (hnext (normalizeHost binding.hostname)).1
      rw [keys_request, Option.mem_def.mp hbinding, Option.elim_some, if_pos rfl] at hnodup
      exact (nodup_append.mp hnodup).2.2 _ hmem _ mem_cons_self rfl
    | refreshHost hostname => exact trivial
    | refreshAll => exact trivial
  · intro hfresh
    refine (hs.step e).kept fun h => ?_
    cases e with
    | request src req =>
      rw [keys_request]
      cases hanswer : answering src s.memory req with
      | none =>
        rw [Option.elim_none, append_nil]
        exact (hkept h).1
      | some binding =>
        rw [Option.elim_some]
        split
        · rename_i hh
          refine nodup_append.mpr ⟨(hkept h).1, nodup_singleton _, ?_⟩
          rintro key hkey _ hnew rfl
          obtain rfl := mem_singleton.mp hnew
          exact hfresh binding hanswer (hh ▸ hkey)
        · rw [append_nil]
          exact (hkept h).1
    | refreshHost hostname =>
      rcases keys_refresh (s := s) (.refreshHost hostname) nofun h with heq | heq
      · exact heq ▸ (hkept h).1
      · exact heq ▸ nodup_nil
    | refreshAll => exact nodup_nil

/-- The store of an engine is free of duplicates all along, and no larger
than the number of routes served, exactly if no request is answered with a
route that its host has in the store. -/
theorem kept_iff (events : List CacheEvent) :
    Throughout step Kept {} events ↔ Along step Fresh {} events := by
  refine along_iff_throughout (J := Recorded) (fun s e hs => hs.step e)
    (fun s e hs hkept => kept_step_iff e hs hkept) (fun h => ?_) (fun h => ?_) events
  · exact nil_subset _
  · exact ⟨nodup_nil, Nat.zero_le _⟩

/-- A slave that knows `shop.example` is asked for it twice. -/
theorem second_request_duplicates :
    let src := Sources.ofSlave (LocalDB.empty.upsertDomainEntry shopEntry).getDomainEntryByHostname
    let req : Request := { host := "shop.example", path := "/" }
    let s := [CacheEvent.request src req, .request src req].foldl step {}
    s.keys "shop.example" = [("r1", .http), ("r1", .http)]
      ∧ s.routesServed "shop.example" = [("r1", .http)] ∧ ¬ s.Kept := by
  intro src req s
  have hkeys : s.keys "shop.example" = [("r1", .http), ("r1", .http)] := by decide +kernel
  refine ⟨hkeys, by decide +kernel, fun hkept => ?_⟩
  have hnodup := (hkept "shop.example").1
  rw [hkeys] at hnodup
  exact absurd hnodup (by decide)

end CacheRun

end Ingress

end LunaEdge
