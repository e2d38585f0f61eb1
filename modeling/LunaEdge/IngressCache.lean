import LunaEdge.IngressEngine
import LunaEdge.LocalStore

/-!
# The binding store in front of a projection

A sequence of requests to a slave whose local store does not change. The
first request of a host that finds a usable route leaves its binding in
the store; from then on every request of that host is answered with this
binding, whatever its path (`get_serveAll`). So the store can be observed
exactly when a later path selects another upstream or another prefix.
-/

namespace LunaEdge

namespace Ingress

structure Request where
  host : String
  path : String
  https : Bool := false
deriving Repr, DecidableEq

namespace Request

def kind (req : Request) : RouteKind := if req.https then .https else .http

def hostname (req : Request) : String := normalizeHost req.host

def withPath (req : Request) (path : String) : Request := { req with path := path }

@[simp] theorem hostname_withPath (req : Request) (path : String) :
    (req.withPath path).hostname = req.hostname := rfl

end Request

/-- The engine of a slave without a bridge serves one request. -/
def serve (db : LocalDB) (memory : MemoryStore) (req : Request) : Routed :=
  routeByKind (.ofSlave db.getDomainEntryByHostname) memory req.host req.path req.kind

def serveAll (db : LocalDB) (memory : MemoryStore) (reqs : List Request) : MemoryStore :=
  reqs.foldl (fun memory req => (serve db memory req).2) memory

/-- The part of an answer that decides where a request goes. -/
def seen (routed : Routed) : Except RouteError (Bool × String × String) :=
  routed.1.map fun r => (r.found, r.target.upstreamURL, r.target.pathPrefix)

/-- The binding of the route a request selects, if its upstream is usable. -/
def offered (db : LocalDB) (req : Request) : Option BackendBinding :=
  if req.hostname = "" then none
  else
    ((db.getDomainEntryByHostname req.hostname).toOption.bind fun entry =>
      bindingFromProjection entry req.path req.kind).filter fun b => b.upstreamURL ≠ ""

/-- The first binding the requests of a host select. -/
def firstOffered (db : LocalDB) (reqs : List Request) (hostname : String) :
    Option BackendBinding :=
  (reqs.filter fun req => req.hostname = hostname).findSome? (offered db)

theorem firstOffered_concat (db : LocalDB) (reqs : List Request) (req : Request)
    (hostname : String) :
    firstOffered db (reqs ++ [req]) hostname
      = (firstOffered db reqs hostname).or
          (if req.hostname = hostname then offered db req else none) := by
  have hlast : firstOffered db [req] hostname
      = if req.hostname = hostname then offered db req else none := by
    by_cases hh : req.hostname = hostname
    · rw [if_pos hh, firstOffered, List.filter_cons_of_pos (by simpa using hh)]
      simp
    · rw [if_neg hh, firstOffered, List.filter_cons_of_neg (by simpa using hh)]
      rfl
  rw [← hlast, firstOffered, List.filter_append, List.findSome?_append]
  rfl

variable {b : BackendBinding} {req : Request} {db : LocalDB} {reqs : List Request}
  {memory : MemoryStore}

theorem offered_spec (h : offered db req = some b) :
    req.hostname ≠ "" ∧ normalizeHost b.hostname = req.hostname ∧ b.upstreamURL ≠ "" := by
  rw [offered] at h
  split at h
  · exact absurd h nofun
  · rename_i hhost
    obtain ⟨hb, hurl⟩ := Option.filter_eq_some_iff.mp h
    obtain ⟨entry, hentry, hb⟩ := Option.bind_eq_some_iff.mp hb
    have hread : db.getDomainEntryByHostname req.hostname = .ok entry := by
      cases hr : db.getDomainEntryByHostname req.hostname with
      | error err => rw [hr] at hentry; exact absurd hentry nofun
      | ok e => rw [hr] at hentry; rw [Option.some.inj hentry]
    have hname := (hostname_of_bindingFromProjection hb).trans
      (LocalDB.hostname_of_getDomainEntryByHostname hread)
    refine ⟨hhost, ?_, of_decide_eq_true hurl⟩
    rw [hname, Request.hostname, normalizeHost_idem]

theorem firstOffered_spec {hostname : String} (h : firstOffered db reqs hostname = some b) :
    hostname ≠ "" ∧ normalizeHost b.hostname = hostname ∧ b.upstreamURL ≠ "" := by
  obtain ⟨req, hreq, hb⟩ := List.exists_of_findSome?_eq_some h
  obtain rfl : req.hostname = hostname := by simpa using (List.mem_filter.mp hreq).2
  exact offered_spec hb

/-! ## What the store holds -/

/-- After `reqs` the store has, for each host, copies of the first binding. -/
def Remembers (db : LocalDB) (reqs : List Request) (memory : MemoryStore) : Prop :=
  ∀ hostname, (∀ b ∈ memory.ofHost hostname, firstOffered db reqs hostname = some b)
    ∧ (memory.ofHost hostname = [] → firstOffered db reqs hostname = none)

theorem Remembers.get (h : Remembers db reqs memory) (req : Request) :
    memory.get req.hostname req.path = firstOffered db reqs req.hostname := by
  have hidem : normalizeHost req.hostname = req.hostname := normalizeHost_idem req.host
  rw [MemoryStore.get, hidem]
  by_cases hnil : memory.ofHost req.hostname = []
  · rw [(h req.hostname).2 hnil, MemoryStore.selectLocked, hnil]
    rfl
  · obtain ⟨b, hb⟩ := Option.isSome_iff_exists.mp
      (MemoryStore.isSome_selectLocked req.path hnil)
    rw [hb, (h req.hostname).1 b (MemoryStore.selectLocked_mem hb).1]

theorem resultFromBinding_ok {hostname : String} (h : b.upstreamURL ≠ "") :
    seen (resultFromBinding memory hostname b)
        = .ok (true, b.upstreamURL, normalizeProxyPathPrefix b.path)
      ∧ (resultFromBinding memory hostname b).2 = memory.put b := by
  rw [resultFromBinding, if_neg h]
  simp only [seen, Except.map, and_self]

/-- A request that misses the store is answered with the binding offered
to it; if there is none, it is not found or fails, and the store stays. -/
theorem routeFromProjection_cases (db : LocalDB) (hhost : req.hostname ≠ "") :
    (∃ b, offered db req = some b ∧ ∀ memory : MemoryStore,
      routeFromProjection (.ofSlave db.getDomainEntryByHostname) memory req.hostname req.path
        req.kind = resultFromBinding memory req.hostname b)
    ∨ (offered db req = none
      ∧ ∃ result : Except RouteError RouteResult, (∀ r, result = .ok r → r.found = false)
        ∧ ∀ memory : MemoryStore,
          routeFromProjection (.ofSlave db.getDomainEntryByHostname) memory req.hostname
            req.path req.kind = (result, memory)) := by
  rw [offered, if_neg hhost]
  simp only [routeFromProjection, Sources.ofSlave]
  cases hread : db.getDomainEntryByHostname req.hostname with
  | error err => exact Or.inr ⟨rfl, .error (.lookup err), by simp, fun _ => rfl⟩
  | ok entry =>
    simp only [Except.toOption, Option.bind_some, resultFromProjection]
    cases hb : bindingFromProjection entry req.path req.kind with
    | none => exact Or.inr ⟨rfl, .ok { found := false }, by simp, fun _ => rfl⟩
    | some b =>
      by_cases hurl : b.upstreamURL = ""
      · refine Or.inr ⟨by simp [hurl], .error (.noValidUpstream b.id), by simp, fun m => ?_⟩
        simp only [resultFromBinding, if_pos hurl]
      · exact Or.inl ⟨b, by simp [hurl], fun _ => rfl⟩

theorem serve_noHost (hhost : req.hostname = "") :
    serve db memory req = (.error .hostRequired, memory) :=
  routeByKind_noHost hhost

theorem serve_hit (hhost : req.hostname ≠ "") (hget : memory.get req.hostname req.path = some b) :
    serve db memory req = resultFromBinding memory req.hostname b :=
  routeByKind_hit hhost hget

theorem serve_miss (hhost : req.hostname ≠ "") (hget : memory.get req.hostname req.path = none) :
    serve db memory req
      = routeFromProjection (.ofSlave db.getDomainEntryByHostname) memory req.hostname req.path
          req.kind :=
  routeByKind_miss hhost hget

/-- A request puts the first binding of its host, its own when it is the first. -/
theorem Remembers.serve_snd (h : Remembers db reqs memory) (req : Request) :
    (serve db memory req).2
      = (firstOffered db (reqs ++ [req]) req.hostname).elim memory memory.put := by
  rw [firstOffered_concat, if_pos rfl]
  have hget := h.get req
  by_cases hhost : req.hostname = ""
  · have hnone : offered db req = none := by rw [offered, if_pos hhost]
    cases hfirst : firstOffered db reqs req.hostname with
    | some b => exact absurd hhost (firstOffered_spec hfirst).1
    | none => rw [serve_noHost hhost, hnone]; rfl
  · cases hfirst : firstOffered db reqs req.hostname with
    | some b =>
      rw [serve_hit hhost (hget.trans hfirst)]
      exact (resultFromBinding_ok (firstOffered_spec hfirst).2.2).2
    | none =>
      rw [serve_miss hhost (hget.trans hfirst), Option.none_or]
      rcases routeFromProjection_cases db hhost with ⟨b, hb, hroute⟩ | ⟨hb, result, -, hroute⟩
      · rw [hroute, hb]
        exact (resultFromBinding_ok (offered_spec hb).2.2).2
      · rw [hroute, hb]
        rfl

theorem Remembers.step (h : Remembers db reqs memory) (req : Request) :
    Remembers db (reqs ++ [req]) (serve db memory req).2 := by
  intro hostname
  obtain ⟨hall, hempty⟩ := h hostname
  rw [h.serve_snd req]
  by_cases hh : req.hostname = hostname
  · subst hh
    have hmono : ∀ b, firstOffered db reqs req.hostname = some b →
        firstOffered db (reqs ++ [req]) req.hostname = some b := by
      intro b hb
      rw [firstOffered_concat, hb, Option.some_or]
    cases hfirst : firstOffered db (reqs ++ [req]) req.hostname with
    | none =>
      refine ⟨fun b hb => ?_, fun _ => rfl⟩
      rw [← hfirst]
      exact hmono b (hall b hb)
    | some b =>
      have hput : (memory.put b).ofHost req.hostname = memory.ofHost req.hostname ++ [b] := by
        rw [MemoryStore.ofHost_put, if_pos (firstOffered_spec hfirst).2.1]
      rw [Option.elim_some, hput]
      refine ⟨fun b' hb' => ?_, by simp⟩
      rcases List.mem_append.mp hb' with hold | hnew
      · rw [← hfirst]
        exact hmono b' (hall b' hold)
      · rw [List.mem_singleton.mp hnew]
  · rw [firstOffered_concat db reqs req hostname, if_neg hh, Option.or_none]
    cases hfirst : firstOffered db (reqs ++ [req]) req.hostname with
    | none => exact ⟨hall, hempty⟩
    | some b =>
      have hne : normalizeHost b.hostname ≠ hostname := (firstOffered_spec hfirst).2.1 ▸ hh
      rw [Option.elim_some, MemoryStore.ofHost_put, if_neg hne, List.append_nil]
      exact ⟨hall, hempty⟩

theorem remembers_serveAll (db : LocalDB) (reqs : List Request) :
    Remembers db reqs (serveAll db .new reqs) := by
  induction reqs using List.reverseRecOn with
  | nil => exact fun _ => ⟨fun b hb => absurd hb List.not_mem_nil, fun _ => rfl⟩
  | append_singleton reqs req ih =>
    rw [serveAll, List.foldl_append, List.foldl_cons, List.foldl_nil]
    exact ih.step req

/-- The binding a host is answered with from its first usable route on. -/
theorem get_serveAll (db : LocalDB) (reqs : List Request) (req : Request) :
    (serveAll db .new reqs).get req.hostname req.path = firstOffered db reqs req.hostname :=
  (remembers_serveAll db reqs).get req

/-! ## Transparency -/

theorem serve_fst_of_miss (db : LocalDB) (hget : memory.get req.hostname req.path = none) :
    (serve db memory req).1 = (serve db .new req).1 := by
  by_cases hhost : req.hostname = ""
  · rw [serve_noHost hhost, serve_noHost hhost]
  · rw [serve_miss hhost hget, serve_miss hhost rfl]
    rcases routeFromProjection_cases db hhost with ⟨b, -, hroute⟩ | ⟨-, result, -, hroute⟩
    · rw [hroute, hroute, resultFromBinding_fst .new]
    · rw [hroute, hroute]

theorem seen_fresh_iff (db : LocalDB) (hhost : req.hostname ≠ "") (url pathPrefix : String) :
    seen (serve db .new req) = .ok (true, url, pathPrefix)
      ↔ ∃ b ∈ offered db req,
        b.upstreamURL = url ∧ normalizeProxyPathPrefix b.path = pathPrefix := by
  rw [serve_miss hhost rfl]
  rcases routeFromProjection_cases db hhost with
    ⟨b, hb, hroute⟩ | ⟨hb, result, hnot, hroute⟩
  · rw [hroute, (resultFromBinding_ok (offered_spec hb).2.2).1, hb]
    simp
  · rw [hroute, hb]
    refine ⟨fun h => ?_, fun ⟨b, hb, _⟩ => absurd hb nofun⟩
    cases result with
    | error err => exact absurd h nofun
    | ok r =>
      have hfound : r.found = true := (Prod.mk.inj (Except.ok.inj h)).1
      rw [hnot r rfl] at hfound
      exact absurd hfound nofun

/-- The store of bindings changes the answer to a request exactly when an
earlier request of the host has found a route and the first such route
leads elsewhere: the answer is the one of a fresh engine if and only if
the route selected for the path has the upstream and the prefix of the
first one. -/
theorem seen_serve_eq_fresh_iff (db : LocalDB) (earlier : List Request) (req : Request) :
    seen (serve db (serveAll db .new earlier) req) = seen (serve db .new req)
      ↔ ∀ first ∈ firstOffered db earlier req.hostname, ∃ b ∈ offered db req,
        b.upstreamURL = first.upstreamURL
          ∧ normalizeProxyPathPrefix b.path = normalizeProxyPathPrefix first.path := by
  have hget := get_serveAll db earlier req
  cases hfirst : firstOffered db earlier req.hostname with
  | none =>
    rw [seen, serve_fst_of_miss db (hget.trans hfirst), seen]
    simp
  | some first =>
    obtain ⟨hhost, -, hurl⟩ := firstOffered_spec hfirst
    rw [serve_hit hhost (hget.trans hfirst), (resultFromBinding_ok hurl).1, eq_comm,
      seen_fresh_iff db hhost]
    simp

def shopEntry : DomainEntryProjection where
  hostname := "shop.example"
  backendType := .l7HTTP
  httpRoutes :=
    [ { id := "r1", path := "/", backendRef := some
          { id := "b1", type := .svc, serviceNamespace := "web", serviceName := "front", port := 80 } },
      { id := "r2", path := "/api", backendRef := some
          { id := "b2", type := .svc, serviceNamespace := "web", serviceName := "api", port := 80 } }]

/-- After a request for `/`, a request for `/api` goes to the backend of `/`. -/
theorem api_request_served_by_root :
    let db := LocalDB.empty.upsertDomainEntry shopEntry
    let first : Request := { host := "shop.example", path := "/" }
    let next : Request := { host := "shop.example", path := "/api/items" }
    seen (serve db (serveAll db .new [first]) next)
        = .ok (true, "http://front.web.svc.cluster.local:80", "/")
      ∧ seen (serve db .new next) = .ok (true, "http://api.web.svc.cluster.local:80", "/api") := by
  decide +kernel

end Ingress

end LunaEdge
