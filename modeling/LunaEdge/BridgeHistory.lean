import LunaEdge.GatewayRebuild
import LunaEdge.IngressRebuild

/-!
# Histories of the bridges

The rows that a bridge manages are those of a rebuild after every event of
a run that misses no host. A rebuild reads the stored objects by their
keys and, up to the order of rows, in any order. So two such runs that end
with the same objects have left the same rows, whatever events have led
there and however the handlers ranged (`rows_of_ingresses`,
`rows_of_gateways`).
-/

namespace LunaEdge

open Runs List

theorem Table.Same.perm {ρ κ : Type} [DecidableEq κ] [Keyed ρ κ] {t u : Table ρ} (h : t.Same u) :
    t.rows.Perm u.rows := by
  refine (perm_ext_iff_of_nodup t.nodup.of_map u.nodup.of_map).mpr fun x => ?_
  have hfind := h (Keyed.key x)
  exact ⟨fun hx => mem_of_find? (hfind ▸ find?_of_mem hx),
    fun hx => mem_of_find? (hfind ▸ find?_of_mem hx)⟩

namespace K8sBridge

/-- The live rows of the three tables that the bridges write. -/
structure SameLive (repo repo' : Repo) : Prop where
  domains : ∀ h, repo.domainEndpoints.live? h = repo'.domainEndpoints.live? h
  routes : ∀ id, repo.httpRoutes.live? id = repo'.httpRoutes.live? id
  backends : ∀ id, repo.serviceBackendRefs.live? id = repo'.serviceBackendRefs.live? id

theorem Mirrors.sameLive {repo repo' : Repo} {ds ds' : Domains} (hm : Mirrors repo ds)
    (hm' : Mirrors repo' ds') (h : ∀ host, Option.Rel SameRows (ds host) (ds' host)) :
    SameLive repo repo' := by
  have hmirrors := hm.of_sameRows h hm'.managed
  exact ⟨fun h => (hmirrors.domains h).trans (hm'.domains h).symm,
    fun id => (hmirrors.routes id).trans (hm'.routes id).symm,
    fun id => (hmirrors.backends id).trans (hm'.backends id).symm⟩

-- host names are compared here and never computed
attribute [local irreducible] normalizeHost

/-! ## Ingresses -/

namespace IngressNode

open IngressBridge

structure SameObjects (b b' : IngressBridge) : Prop where
  ingresses : b.ingresses.Same b'.ingresses
  services : b.services.Same b'.services

theorem SameObjects.rebuilt {b b' : IngressBridge} (h : SameObjects b b') (hb : b.Consistent)
    (host : String) : Option.Rel SameRows (b.rebuilt b.ingresses.rows host)
      (b'.rebuilt b'.ingresses.rows host) := by
  have hresolve :
      b.resolveIngressBackendServiceAddress = b'.resolveIngressBackendServiceAddress := by
    funext namespace_ name
    rw [resolveIngressBackendServiceAddress, resolveIngressBackendServiceAddress, h.services]
  refine sameRows_rebuilt b.ingresses.nodup hb (Subset.refl _)
    (h.ingresses.perm.flatMap_right _) ?_
  simp only [IngressBridge.hostPairs, pathRows, pathBackend, hresolve]

/-- Runs of Ingress events that give up no shared host. -/
theorem rows_of_ingresses {ingressClass ingressClass' : String} {m m' : Master}
    {events events' : List (Order × Event)}
    (hrun : Along step (fun s e => s.bridge.Exclusive e.2) (start ingressClass m) events)
    (hrun' : Along step (fun s e => s.bridge.Exclusive e.2) (start ingressClass' m') events')
    (hsame : SameObjects (events.foldl step (start ingressClass m)).bridge
      (events'.foldl step (start ingressClass' m')).bridge) :
    SameLive (events.foldl step (start ingressClass m)).master.repo
      (events'.foldl step (start ingressClass' m')).master.repo := by
  have hs := hrun.invariant (I := Mirroring) (fun _ _ hs he => hs.step he)
    (mirroring_start ingressClass m)
  have hs' := hrun'.invariant (I := Mirroring) (fun _ _ hs he => hs.step he)
    (mirroring_start ingressClass' m')
  exact hs.mirrors.sameLive hs'.mirrors (hsame.rebuilt hs.consistent)

/-- The same events, with the handlers ranging the other way. -/
theorem rows_of_ingresses_reversed :
    let events := exampleStored.map fun e =>
      ((⟨reverse, reverse, reverse_perm, reverse_perm⟩ : Order), e.2)
    Along step (fun s e => s.bridge.Exclusive e.2) exampleStart events
      ∧ SameLive (exampleStored.foldl step exampleStart).master.repo
        (events.foldl step exampleStart).master.repo := by
  intro events
  have hrun : Along step (fun s e => s.bridge.Exclusive e.2)
      (start "luna" ⟨.empty, .empty, [], none⟩) exampleStored := by decide +kernel
  have hrun' : Along step (fun s e => s.bridge.Exclusive e.2)
      (start "luna" ⟨.empty, .empty, [], none⟩) events := by decide +kernel
  have hbridge : ∀ (s : IngressNode) (l : List (Order × Event)),
      (l.foldl step s).bridge = (l.map Prod.snd).foldl IngressBridge.store s.bridge := fun s l =>
    (foldl_hom IngressNode.bridge fun _ _ => rfl).symm.trans foldl_map.symm
  refine ⟨hrun', rows_of_ingresses hrun hrun' ?_⟩
  rw [hbridge, hbridge, map_map]
  exact ⟨fun _ => rfl, fun _ => rfl⟩

end IngressNode

/-! ## Gateways and their routes -/

namespace GatewayNode

open GatewayBridge

structure SameObjects (b b' : GatewayBridge) : Prop where
  gateways : b.gateways.Same b'.gateways
  httpRoutes : b.httpRoutes.Same b'.httpRoutes
  tlsRoutes : b.tlsRoutes.Same b'.tlsRoutes
  services : b.services.Same b'.services

theorem SameObjects.rebuilt {b b' : GatewayBridge} (h : SameObjects b b') (hb : b.Consistent)
    (host : String) : Option.Rel SameRows (b.rebuilt b.httpRoutes.rows b.tlsRoutes.rows host)
      (b'.rebuilt b'.httpRoutes.rows b'.tlsRoutes.rows host) := by
  by_cases hmem : host ∈ b.collectHosts
  · -- the services may as well be those of `b`
    let b₁ : GatewayBridge := { b' with services := b.services }
    have hreach : b₁.reach = b.reach := by
      funext serves parents hostnames host
      simp only [b₁, reach, h.gateways _]
    have hbackend : b'.backendRow = b₁.backendRow := by
      funext id backend
      simp only [b₁, backendRow, resolveServiceBackendRef, h.services _]
    have hsame : Option.Rel SameRows (b.rebuilt b.httpRoutes.rows b.tlsRoutes.rows host)
        (b₁.rebuilt b'.httpRoutes.rows b'.tlsRoutes.rows host) := by
      refine sameRows_rebuilt hb hmem rfl ?_ ?_
      · rw [httpAttachments, httpAttachments, hreach]
        exact attachments_perm h.httpRoutes.perm
      · rw [tlsAttachments, tlsAttachments, hreach]
        exact attachments_perm h.tlsRoutes.perm
    convert hsame using 1
    simp only [GatewayBridge.rebuilt, hostItem, httpItem, addHTTPRoute, addTLSRoute, ruleRows,
      hbackend]
    rfl
  · rw [rebuilt_eq_none (Subset.refl _) (Subset.refl _) hmem,
      rebuilt_eq_none (Subset.refl _) (Subset.refl _)]
    · exact .none
    · simpa only [mem_collectHosts, h.gateways.perm.mem_iff, h.httpRoutes.perm.mem_iff,
        h.tlsRoutes.perm.mem_iff] using hmem

/-- Runs of Gateway events that miss no host they reach. -/
theorem rows_of_gateways {m m' : Master} {deliveries deliveries' : List Delivery}
    (hrun : Along step (fun s d => s.bridge.Covered d.event) (start m) deliveries)
    (hrun' : Along step (fun s d => s.bridge.Covered d.event) (start m') deliveries')
    (hsame : SameObjects (deliveries.foldl step (start m)).bridge
      (deliveries'.foldl step (start m')).bridge) :
    SameLive (deliveries.foldl step (start m)).master.repo
      (deliveries'.foldl step (start m')).master.repo := by
  have hs := hrun.invariant (I := Mirroring) (fun _ _ hs hd => hs.step hd) (mirroring_start m)
  have hs' := hrun'.invariant (I := Mirroring) (fun _ _ hs hd => hs.step hd) (mirroring_start m')
  exact hs.mirrors.sameLive hs'.mirrors (hsame.rebuilt hs.consistent)

/-- The same events, with the handlers ranging the other way. -/
theorem rows_of_gateways_reversed :
    let deliveries := exampleStored.map fun d => (⟨d.event,
      ⟨reverse, reverse, reverse_perm, reverse_perm⟩, reverse, reverse_perm⟩ : Delivery)
    Along step (fun s d => s.bridge.Covered d.event) exampleStart deliveries
      ∧ SameLive (exampleStored.foldl step exampleStart).master.repo
        (deliveries.foldl step exampleStart).master.repo := by
  intro deliveries
  have hrun : Along step (fun s d => s.bridge.Covered d.event)
      (start ⟨.empty, .empty, [], none⟩) exampleStored := by decide +kernel
  have hrun' : Along step (fun s d => s.bridge.Covered d.event)
      (start ⟨.empty, .empty, [], none⟩) deliveries := by decide +kernel
  exact ⟨hrun', rows_of_gateways hrun hrun'
    ⟨fun _ => rfl, fun _ => rfl, fun _ => rfl, fun _ => rfl⟩⟩

end GatewayNode

end K8sBridge

end LunaEdge
