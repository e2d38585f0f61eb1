import LunaEdge.MasterIngress
import LunaEdge.Runs

/-!
# Incremental synchronisation of the Ingress bridge

After an event the bridge materialises some hosts again and removes
others. Whether the repository then holds what a rebuild from all stored
Ingresses would give depends on the hosts that Ingresses share: a host
that an Ingress gives up is removed although another Ingress still has a
rule for it.

What a host gets is a function of its contributions, the rules for it of
all stored Ingresses (`get?_materializeByHost`). An event that only gives
up hosts without a contribution leaves exactly the rebuilt rows
(`rebuilt_of_exclusive`), whatever order Go ranges in, as long as an
Ingress names a host in one rule only and Ingresses that share a host
agree on its certificate.
-/

namespace LunaEdge

open Session Runs List

namespace K8sBridge

-- host names are compared here and never computed
attribute [local irreducible] normalizeHost

/-! ## Contributions -/

namespace IngressBridge

def contributions (ings : List K8s.Ingress) (h : String) :
    List (K8s.Ingress × K8s.IngressRule) :=
  ings.flatMap fun ing =>
    (ing.rules.filter fun rule => normalizeHost rule.host.val = h).map fun rule => (ing, rule)

def hostItem (b : IngressBridge) (h : String) (cs : List (K8s.Ingress × K8s.IngressRule)) :
    Option DomainMaterialized :=
  cs.foldl (fun item c => some (b.addRule c.1 h c.2 item)) none

def hostPairs (b : IngressBridge) (h : String) (cs : List (K8s.Ingress × K8s.IngressRule)) :
    List (ServiceBackendRef × HTTPRoute) :=
  cs.flatMap fun c => b.pathRows c.1 h (c.2.http.getD [])

variable {b : IngressBridge} {h : String} {cs : List (K8s.Ingress × K8s.IngressRule)}

theorem get?_materializeRule {hostSet : List String} (hset : "" ∉ hostSet) (ing : K8s.Ingress)
    (out : GoMap String DomainMaterialized) (rule : K8s.IngressRule) :
    (b.materializeRule hostSet ing out rule).get? h
      = if h ∈ hostSet ∧ normalizeHost rule.host.val = h then
          some (b.addRule ing h rule (out.get? h))
        else out.get? h := by
  unfold materializeRule
  generalize normalizeHost rule.host.val = host
  dsimp only
  by_cases heq : host = h
  · subst heq
    by_cases hmem : host ∈ hostSet
    · have hne : host ≠ "" := fun h => hset (h ▸ hmem)
      rw [if_neg hne, if_neg (not_not.mpr hmem), GoMap.get?_set, if_pos rfl, if_pos ⟨hmem, rfl⟩]
    · rw [if_pos hmem, if_neg (c := host ∈ hostSet ∧ host = host) fun hx => hmem hx.1]
      split <;> rfl
  · rw [if_neg (c := h ∈ hostSet ∧ host = h) fun hx => heq hx.2]
    split
    · rfl
    · split
      · rfl
      · rw [GoMap.get?_set, if_neg heq]

/-- A materialised host is a function of its contributions. -/
theorem get?_materializeByHost (range : List K8s.Ingress → List K8s.Ingress)
    (hosts : List String) (h : String) :
    (b.materializeByHost range hosts).get? h
      = if h ∈ targets hosts then
          (b.hostItem h (contributions (range b.ingresses.rows) h)).map dedupBackends
        else none := by
  have hset : "" ∉ targets hosts := fun hmem => (mem_targets.mp hmem).1 rfl
  unfold materializeByHost
  dsimp only
  let addRules (item : Option DomainMaterialized) (ing : K8s.Ingress) :=
    ing.rules.foldl (fun item rule =>
      if h ∈ targets hosts ∧ normalizeHost rule.host.val = h then
        some (b.addRule ing h rule item)
      else item) item
  rw [GoMap.get?_mapValues, GoMap.get?_foldl addRules fun out ing =>
    GoMap.get?_foldl _ (get?_materializeRule hset ing) ing.rules out]
  simp only [addRules]
  by_cases hmem : h ∈ targets hosts
  · simp only [hmem, true_and, if_true, GoMap.get?_empty, hostItem, contributions,
      foldl_flatMap, foldl_map, foldl_filter, decide_eq_true_eq]
  · simp [hmem]

variable {item : DomainMaterialized} {ing : K8s.Ingress} {ings : List K8s.Ingress}
  {b' : IngressBridge} {e : Event}

theorem of_get?_materializeByHost {range : List K8s.Ingress → List K8s.Ingress}
    {hosts : List String} (hitem : (b.materializeByHost range hosts).get? h = some item) :
    h ∈ targets hosts
      ∧ ∃ raw, b.hostItem h (contributions (range b.ingresses.rows) h) = some raw
        ∧ dedupBackends raw = item := by
  rw [get?_materializeByHost] at hitem
  split at hitem
  · exact ⟨by assumption, Option.map_eq_some_iff.mp hitem⟩
  · cases hitem

theorem collects_addRule (b : IngressBridge) (h : String) :
    Collects (C := K8s.Ingress × K8s.IngressRule) (fun item c => some (b.addRule c.1 h c.2 item))
      (ruleDomain ·.1 h) fun c => b.pathRows c.1 h (c.2.http.getD []) := fun _ _ => rfl

theorem hostItem_eq_none_iff : b.hostItem h cs = none ↔ cs = [] :=
  (b.collects_addRule h).eq_none_iff

theorem of_hostItem (hitem : b.hostItem h cs = some item) :
    (∃ c, cs.getLast? = some c ∧ item.domain = ruleDomain c.1 h)
      ∧ item.backends = (b.hostPairs h cs).map (·.1)
      ∧ item.routes = (b.hostPairs h cs).map (·.2) :=
  (b.collects_addRule h).of_eq_some hitem

/-! ## Rows of a path -/

theorem rowFields_rowFields (ing : K8s.Ingress) (hcolon : ':' ∉ h.toList) (idx : Nat) :
    RowFields h (rowFields ing h idx) := by
  refine ⟨?_, rfl⟩
  intro f hf
  simp only [rowFields, mem_cons, not_mem_nil, or_false] at hf
  rcases hf with rfl | rfl | rfl | rfl | rfl
  · decide
  · exact ing.namespace_.noColon
  · exact ing.name.noColon
  · exact hcolon
  · exact Go.noColon_toString idx

theorem id_pathBackend (b : IngressBridge) (ing : K8s.Ingress) (h : String) (idx : Nat)
    (service : K8s.ServiceBackend) :
    (b.pathBackend ing h idx service).id = backendID (rowFields ing h idx) := by
  unfold pathBackend
  split <;> rfl

theorem pairOf_pathRows {paths : List K8s.IngressPath} {p : ServiceBackendRef × HTTPRoute}
    (hcolon : ':' ∉ h.toList) (hp : p ∈ b.pathRows ing h paths) : PairOf h p := by
  obtain ⟨⟨path, idx⟩, -, hsome⟩ := mem_filterMap.mp hp
  obtain ⟨service, -, rfl⟩ := Option.map_eq_some_iff.mp hsome
  have hid := b.id_pathBackend ing h idx service
  have hpath : (pathRoute ing h idx path).path ≠ "" := by
    simp only [pathRoute]
    exact normalizePath_ne_empty path.path
  refine ⟨?_, ⟨by rw [pathRoute], by rw [pathRoute], hpath⟩, rowFields ing h idx,
    rowFields_rowFields ing hcolon idx, hid, by rw [pathRoute], by rw [pathRoute]⟩
  have htype : (b.pathBackend ing h idx service).type = .external
      ∨ (b.pathBackend ing h idx service).type = .svc := by
    unfold pathBackend
    split
    · exact Or.inl rfl
    · exact Or.inr rfl
  refine ⟨?_, ?_⟩
  · unfold pathBackend
    split <;> rfl
  · rcases htype with htype | htype <;> · rw [htype]; decide

theorem rowFields_inj {ing' : K8s.Ingress} {idx idx' : Nat}
    (hfields : rowFields ing h idx = rowFields ing' h idx') :
    Keyed.key ing = Keyed.key ing' ∧ idx = idx' := by
  simp only [rowFields, List.cons.injEq, true_and, and_true] at hfields
  obtain ⟨hns, hname, hidx⟩ := hfields
  refine ⟨?_, Go.toString_inj hidx⟩
  show K8s.objectKey _ _ = K8s.objectKey _ _
  rw [K8s.objectKey, K8s.objectKey, hns, hname]

theorem routeID_rowFields_inj {ing' : K8s.Ingress} {idx idx' : Nat} (hcolon : ':' ∉ h.toList)
    (heq : routeID (rowFields ing h idx) = routeID (rowFields ing' h idx')) :
    Keyed.key ing = Keyed.key ing' ∧ idx = idx' :=
  rowFields_inj ((rowFields_rowFields ing hcolon idx).routeID_inj
    (rowFields_rowFields ing' hcolon idx') heq)

theorem id_of_mem_pathRows {paths : List K8s.IngressPath} {p : ServiceBackendRef × HTTPRoute}
    (hp : p ∈ b.pathRows ing h paths) : ∃ idx, p.2.id = routeID (rowFields ing h idx) := by
  obtain ⟨⟨path, idx⟩, -, hsome⟩ := mem_filterMap.mp hp
  obtain ⟨service, -, rfl⟩ := Option.map_eq_some_iff.mp hsome
  exact ⟨idx, rfl⟩

theorem nodup_pathRows (hcolon : ':' ∉ h.toList) (paths : List K8s.IngressPath) :
    ((b.pathRows ing h paths).map (·.2.id)).Nodup := by
  have hidx : paths.zipIdx.Pairwise fun p q => p.2 ≠ q.2 := by
    have hnodup : (paths.zipIdx.map Prod.snd).Nodup := by
      rw [zipIdx_map_snd]
      exact nodup_range'
    exact pairwise_map.mp hnodup
  refine pairwise_map.mpr (pairwise_filterMap.mpr (hidx.imp ?_))
  rintro ⟨path, idx⟩ ⟨path', idx'⟩ hne p hp q hq heq
  obtain ⟨service, -, rfl⟩ := Option.map_eq_some_iff.mp hp
  obtain ⟨service', -, rfl⟩ := Option.map_eq_some_iff.mp hq
  exact hne (routeID_rowFields_inj hcolon heq).2

theorem nodup_hostPairs (hcolon : ':' ∉ h.toList) (hcs : (cs.map (Keyed.key ·.1)).Nodup) :
    ((b.hostPairs h cs).map (·.2.id)).Nodup := by
  rw [hostPairs, map_flatMap]
  refine nodup_flatMap.mpr ⟨fun c _ => nodup_pathRows hcolon _, ?_⟩
  refine (pairwise_map.mp hcs).imp ?_
  intro c c' hne id hid hid'
  obtain ⟨p, hp, rfl⟩ := mem_map.mp hid
  obtain ⟨q, hq, heq⟩ := mem_map.mp hid'
  obtain ⟨idx, hidx⟩ := id_of_mem_pathRows hp
  obtain ⟨idx', hidx'⟩ := id_of_mem_pathRows hq
  rw [hidx, hidx'] at heq
  exact hne (routeID_rowFields_inj hcolon heq.symm).1

theorem pairOf_hostPairs (hcolon : ':' ∉ h.toList) : ∀ p ∈ b.hostPairs h cs, PairOf h p := by
  intro p hp
  obtain ⟨c, -, hp⟩ := mem_flatMap.mp hp
  exact pairOf_pathRows hcolon hp

theorem mem_dedupBackends {backend : ServiceBackendRef} :
    backend ∈ (dedupBackends item).backends
      ↔ lastByID (·.id) item.backends backend.id = some backend := by
  rw [dedupBackends, mem_insertionSort, GoMap.mem_values_iff]
  simp only [GoMap.get?_foldl_set]
  constructor
  · rintro ⟨id, hlast⟩
    have hmem : backend ∈ item.backends ∧ backend.id = id := mem_of_lastByID hlast
    rw [hmem.2]
    exact hlast
  · exact fun hlast => ⟨backend.id, hlast⟩

theorem dedupBackends_perm (hids : (item.backends.map (·.id)).Nodup) :
    (dedupBackends item).backends.Perm item.backends := by
  rw [dedupBackends]
  dsimp only
  rw [GoMap.values_foldl_set hids]
  exact perm_insertionSort _ _

theorem rows_dedupBackends (hcolon : ':' ∉ h.toList)
    (hrouteIDs : ((b.hostPairs h cs).map (·.2.id)).Nodup) (hitem : b.hostItem h cs = some item) :
    (∀ r, r ∈ (dedupBackends item).routes ↔ ∃ p ∈ b.hostPairs h cs, p.2 = r)
      ∧ (∀ backend, backend ∈ (dedupBackends item).backends
        ↔ ∃ p ∈ b.hostPairs h cs, p.1 = backend)
      ∧ ((dedupBackends item).backends.map (·.id)).Nodup := by
  obtain ⟨-, hbackends, hroutes⟩ := of_hostItem hitem
  have hids : (item.backends.map (·.id)).Nodup := by
    rw [hbackends, map_map]
    exact PairOf.nodup_backends (pairOf_hostPairs hcolon) hrouteIDs
  have hperm := dedupBackends_perm hids
  refine ⟨fun r => ?_, fun backend => ?_, (hperm.map _).nodup_iff.mpr hids⟩
  · show r ∈ item.routes ↔ _
    rw [hroutes, mem_map]
  · rw [hperm.mem_iff, hbackends, mem_map]

/-- Distinct ids of the routes are all a domain needs to be `Managed`. -/
theorem managed_of_nodup (hcolon : ':' ∉ h.toList)
    (hrouteIDs : ((b.hostPairs h cs).map (·.2.id)).Nodup) (hitem : b.hostItem h cs = some item) :
    Managed h (dedupBackends item) := by
  obtain ⟨⟨c, -, hdomain⟩, -, hr⟩ := of_hostItem hitem
  obtain ⟨hroutes, hbackends, hids⟩ := rows_dedupBackends hcolon hrouteIDs hitem
  have hd : (dedupBackends item).domain = ruleDomain c.1 h := hdomain
  refine .of_pairs (by rw [hd]; rfl) (by rw [hd]; rfl) (by rw [hd]; rfl) (pairOf_hostPairs hcolon)
    hroutes hbackends ?_ hids
  show (item.routes.map (·.id)).Nodup
  rwa [hr, map_map]

theorem managed_hostItem (hcolon : ':' ∉ h.toList) (hcs : (cs.map (Keyed.key ·.1)).Nodup)
    (hitem : b.hostItem h cs = some item) : Managed h (dedupBackends item) :=
  managed_of_nodup hcolon (nodup_hostPairs hcolon hcs) hitem

/-! ## Consistent Ingresses -/

/-- The Ingresses with a rule for a host agree on its certificate. -/
def AgreeOnTLS (b : IngressBridge) : Prop :=
  ∀ ing ∈ b.ingresses.rows, ∀ ing' ∈ b.ingresses.rows, ∀ h ∈ ruleHosts ing,
    h ∈ ruleHosts ing' → (h ∈ tlsHosts ing ↔ h ∈ tlsHosts ing')

/-- The condition under which the rebuild does not depend on the order. No
Ingress names a host in two rules, besides. -/
structure Consistent (b : IngressBridge) : Prop where
  distinct : ∀ ing ∈ b.ingresses.rows, (ruleHosts ing).Nodup
  agree : b.AgreeOnTLS

theorem mem_ruleHosts (hh : h ≠ "") :
    h ∈ ruleHosts ing ↔ ∃ rule ∈ ing.rules, normalizeHost rule.host.val = h := by
  rw [ruleHosts, mem_targets]
  simp [hh]

theorem mem_contributions {c : K8s.Ingress × K8s.IngressRule} :
    c ∈ contributions ings h ↔ c.1 ∈ ings ∧ c.2 ∈ c.1.rules ∧ normalizeHost c.2.host.val = h := by
  obtain ⟨ing, rule⟩ := c
  simp only [contributions, mem_flatMap, mem_map, mem_filter, decide_eq_true_eq, Prod.mk.injEq]
  constructor
  · rintro ⟨ing', hing, rule', ⟨hrule, hhost⟩, rfl, rfl⟩
    exact ⟨hing, hrule, hhost⟩
  · rintro ⟨hing, hrule, hhost⟩
    exact ⟨ing, hing, rule, ⟨hrule, hhost⟩, rfl, rfl⟩

theorem length_rules_le (hdistinct : (ruleHosts ing).Nodup) (hh : h ≠ "") :
    (ing.rules.filter fun rule => normalizeHost rule.host.val = h).length ≤ 1 := by
  have hcount := nodup_iff_count_le_one.mp hdistinct h
  rw [ruleHosts, targets, count_filter (by simpa using hh), map_map, List.count,
    countP_map, countP_eq_length_filter] at hcount
  refine le_trans (le_of_eq ?_) hcount
  congr 1

theorem nodup_contributions (hkeys : (ings.map Keyed.key).Nodup)
    (hdistinct : ∀ ing ∈ ings, (ruleHosts ing).Nodup) (hh : h ≠ "") :
    ((contributions ings h).map (Keyed.key ·.1)).Nodup := by
  rw [contributions, map_flatMap]
  refine nodup_flatMap.mpr ⟨fun ing hing => ?_, ?_⟩
  · rw [map_map]
    have hlen := length_rules_le (hdistinct ing hing) hh
    generalize (ing.rules.filter fun rule => normalizeHost rule.host.val = h) = rules at hlen ⊢
    rcases rules with _ | ⟨rule, _ | ⟨rule', rules⟩⟩
    · exact nodup_nil
    · exact nodup_singleton _
    · simp at hlen
  · refine (pairwise_map.mp hkeys).imp ?_
    intro ing ing' hne key hkey hkey'
    simp only [map_map, mem_map, Function.comp_apply] at hkey hkey'
    obtain ⟨-, -, rfl⟩ := hkey
    obtain ⟨-, -, heq⟩ := hkey'
    exact hne heq.symm

/-! ## The rebuild -/

def rebuilt (b : IngressBridge) (ings : List K8s.Ingress) : Domains := fun h =>
  if h = "" then none else (b.hostItem h (contributions ings h)).map dedupBackends

theorem noColon_of_contribution {c : K8s.Ingress × K8s.IngressRule} (hc : c ∈ contributions ings h) :
    ':' ∉ h.toList := by
  obtain ⟨-, -, hhost⟩ := mem_contributions.mp hc
  rw [K8s.HostName.normalizeHost_val] at hhost
  rw [← hhost]
  exact c.2.host.noColon

theorem managed_rebuilt (hkeys : (ings.map Keyed.key).Nodup)
    (hdistinct : ∀ ing ∈ ings, (ruleHosts ing).Nodup) (hitem : b.rebuilt ings h = some item) :
    Managed h item := by
  unfold rebuilt at hitem
  split at hitem
  · cases hitem
  · rename_i hh
    obtain ⟨raw, hraw, rfl⟩ := Option.map_eq_some_iff.mp hitem
    obtain ⟨c, hc, -⟩ := (of_hostItem hraw).1
    exact managed_hostItem (noColon_of_contribution (mem_of_getLast? hc))
      (nodup_contributions hkeys hdistinct hh) hraw

theorem sameRows_hostItem {cs' : List (K8s.Ingress × K8s.IngressRule)} (hcolon : ':' ∉ h.toList)
    (hkeys : (cs.map (Keyed.key ·.1)).Nodup) (hperm : cs.Perm cs')
    (hagree : ∀ c ∈ cs, ∀ c' ∈ cs, ruleDomain c.1 h = ruleDomain c'.1 h)
    (hpairs : b.hostPairs h cs = b'.hostPairs h cs) :
    Option.Rel SameRows ((b.hostItem h cs).map dedupBackends)
      ((b'.hostItem h cs').map dedupBackends) := by
  refine (b.collects_addRule h).sameRows (b'.collects_addRule h) hperm fun item item' hitem hitem' => ?_
  have hkeys' : (cs'.map (Keyed.key ·.1)).Nodup := (hperm.map _).nodup_iff.mp hkeys
  obtain ⟨⟨c, hc, hdomain⟩, -, -⟩ := of_hostItem hitem
  obtain ⟨⟨c', hc', hdomain'⟩, -, -⟩ := of_hostItem hitem'
  obtain ⟨hroutes, hbackends, -⟩ := rows_dedupBackends hcolon (nodup_hostPairs hcolon hkeys) hitem
  obtain ⟨hroutes', hbackends', -⟩ :=
    rows_dedupBackends hcolon (nodup_hostPairs hcolon hkeys') hitem'
  have hrows : ∀ p, p ∈ b.hostPairs h cs ↔ p ∈ b'.hostPairs h cs' := by
    rw [hpairs]
    exact fun p => (hperm.flatMap_right _).mem_iff
  refine ⟨?_, fun r => ?_, fun backend => ?_⟩
  · exact hdomain.trans ((hagree c (mem_of_getLast? hc) c'
      (hperm.mem_iff.mpr (mem_of_getLast? hc'))).trans hdomain'.symm)
  · simp only [hroutes, hroutes', hrows]
  · simp only [hbackends, hbackends', hrows]

theorem sameRows_rebuilt {ings' : List K8s.Ingress} (hkeys : (ings.map Keyed.key).Nodup)
    (hb : b.Consistent) (hings : ings ⊆ b.ingresses.rows)
    (hperm : (contributions ings h).Perm (contributions ings' h))
    (hpairs : b.hostPairs h (contributions ings h) = b'.hostPairs h (contributions ings h)) :
    Option.Rel SameRows (b.rebuilt ings h) (b'.rebuilt ings' h) := by
  unfold rebuilt
  by_cases hh : h = ""
  · rw [if_pos hh, if_pos hh]
    exact .none
  rw [if_neg hh, if_neg hh]
  by_cases hnil : contributions ings h = []
  · rw [hnil] at hperm ⊢
    rw [hperm.nil_eq.symm]
    exact .none
  obtain ⟨c, hc⟩ := exists_mem_of_ne_nil _ hnil
  refine sameRows_hostItem (noColon_of_contribution hc)
    (nodup_contributions hkeys (fun ing hing => hb.distinct ing (hings hing)) hh) hperm ?_ hpairs
  intro c₁ hc₁ c₂ hc₂
  obtain ⟨hing₁, hrule₁, hhost₁⟩ := mem_contributions.mp hc₁
  obtain ⟨hing₂, hrule₂, hhost₂⟩ := mem_contributions.mp hc₂
  have hiff := hb.agree c₁.1 (hings hing₁) c₂.1 (hings hing₂) h
    ((mem_ruleHosts hh).mpr ⟨c₁.2, hrule₁, hhost₁⟩) ((mem_ruleHosts hh).mpr ⟨c₂.2, hrule₂, hhost₂⟩)
  simp only [ruleDomain, hiff]

/-! ## Hosts of an event -/

theorem mem_ingressHosts : h ∈ ingressHosts ing ↔ h ∈ ruleHosts ing ∨ h ∈ tlsHosts ing := by
  rw [ingressHosts, mem_mapKeys, mem_append]

theorem host_of_mem_ingressHosts (hmem : h ∈ ingressHosts ing) : h ≠ "" ∧ normalizeHost h = h := by
  have hname : ∀ hosts : List K8s.HostName, h ∈ targets (hosts.map (·.val)) →
      h ≠ "" ∧ normalizeHost h = h := by
    intro hosts hmem
    obtain ⟨hne, host, -, rfl⟩ := mem_targets_hostNames.mp hmem
    exact ⟨hne, host.normalizeHost_val⟩
  rcases mem_ingressHosts.mp hmem with hmem | hmem
  · refine hname (ing.rules.map (·.host)) ?_
    rw [map_map]
    exact hmem
  · exact hname ing.tls.flatten hmem

theorem contributions_eq_nil (hh : h ≠ "") (hnot : h ∉ ruleHosts ing) :
    contributions [ing] h = [] := by
  refine eq_nil_iff_forall_not_mem.mpr fun c hc => hnot ?_
  obtain ⟨hing, hrule, hhost⟩ := mem_contributions.mp hc
  obtain rfl := mem_singleton.mp hing
  exact (mem_ruleHosts hh).mpr ⟨c.2, hrule, hhost⟩

theorem contributions_append (ings ings' : List K8s.Ingress) :
    contributions (ings ++ ings') h = contributions ings h ++ contributions ings' h := by
  simp [contributions]

theorem contributions_erase {t : Table K8s.Ingress} {key : String} (hh : h ≠ "")
    (hold : ∀ ing ∈ t.find? key, h ∉ ruleHosts ing) :
    (contributions t.rows h).Perm (contributions (t.erase key).rows h) := by
  refine ((t.rows_perm key).flatMap_right _).trans ?_
  show (contributions ((t.find? key).toList ++ (t.erase key).rows) h).Perm _
  rw [contributions_append]
  cases hfind : t.find? key with
  | none => exact List.Perm.refl _
  | some ing =>
    have hnil : contributions (some ing).toList h = [] := contributions_eq_nil hh (hold ing hfind)
    rw [hnil]
    exact List.Perm.refl _

theorem contributions_upsert {t : Table K8s.Ingress} (hh : h ≠ "")
    (hold : ∀ old ∈ t.find? (Keyed.key ing), h ∉ ruleHosts old) (hnew : h ∉ ruleHosts ing) :
    (contributions t.rows h).Perm (contributions (t.upsert ing).rows h) := by
  refine (contributions_erase hh hold).trans ?_
  refine List.Perm.symm (((t.rows_upsert_perm ing).flatMap_right _).trans ?_)
  show (contributions ([ing] ++ (t.erase (Keyed.key ing)).rows) h).Perm _
  rw [contributions_append, contributions_eq_nil hh hnew]
  exact List.Perm.refl _

/-- A service matters to the hosts of the Ingresses that refer to it. -/
theorem hostPairs_congr {namespace_ name : K8s.ObjectName}
    (hservices : ∀ key, K8s.objectKey namespace_ name ≠ key → b'.services.find? key = b.services.find? key)
    (hh : h ≠ "") (hnot : h ∉ b.serviceHosts namespace_ name) :
    b.hostPairs h (contributions b.ingresses.rows h)
      = b'.hostPairs h (contributions b.ingresses.rows h) := by
  refine flatMap_congr fun c hc => ?_
  obtain ⟨hing, hrule, hhost⟩ := mem_contributions.mp hc
  have hhosts : h ∈ ingressHosts c.1 :=
    mem_ingressHosts.mpr (Or.inl ((mem_ruleHosts hh).mpr ⟨c.2, hrule, hhost⟩))
  refine filterMap_congr fun ⟨path, idx⟩ hpath => ?_
  cases hservice : path.service with
  | none => simp only [hservice, Option.map_none]
  | some service =>
    have hkey : K8s.objectKey namespace_ name ≠ K8s.objectKey c.1.namespace_ service.name := by
      intro hkey
      obtain ⟨rfl, rfl⟩ := K8s.objectKey_inj hkey
      refine hnot (mem_mapKeys.mpr (mem_flatMap.mpr ⟨c.1, ?_, hhosts⟩))
      have href : ingressReferencesService c.1 service.name.val = true := by
        unfold ingressReferencesService
        rw [if_neg service.name.nonempty, any_eq_true]
        refine ⟨c.2, hrule, any_eq_true.mpr ⟨path, ?_, ?_⟩⟩
        · exact (mem_zipIdx' hpath).2 ▸ getElem_mem _
        · simp only [hservice, Option.any_some, decide_true]
      simp [hing, href]
    simp only [hservice, Option.map_some, pathBackend, resolveIngressBackendServiceAddress,
      hservices _ hkey]

/-! ## One event -/

/-- The condition on the objects before an event: it leaves them
consistent, and no stored Ingress has a rule for a host the event
removes. -/
structure Exclusive (b : IngressBridge) (e : Event) : Prop where
  consistent : (b.store e).Consistent
  removed : ∀ h ∈ b.removedHosts e, ∀ ing ∈ (b.store e).ingresses.rows, h ∉ ruleHosts ing

instance (b : IngressBridge) : Decidable b.Consistent :=
  decidable_of_iff ((∀ ing ∈ b.ingresses.rows, (ruleHosts ing).Nodup)
      ∧ ∀ ing ∈ b.ingresses.rows, ∀ ing' ∈ b.ingresses.rows, ∀ h ∈ ruleHosts ing,
        h ∈ ruleHosts ing' → (h ∈ tlsHosts ing ↔ h ∈ tlsHosts ing'))
    ⟨fun h => ⟨h.1, h.2⟩, fun h => ⟨h.1, h.2⟩⟩

instance (b : IngressBridge) (e : Event) : Decidable (b.Exclusive e) :=
  decidable_of_iff ((b.store e).Consistent
      ∧ ∀ h ∈ b.removedHosts e, ∀ ing ∈ (b.store e).ingresses.rows, h ∉ ruleHosts ing)
    ⟨fun h => ⟨h.1, h.2⟩, fun h => ⟨h.1, h.2⟩⟩

theorem host_of_event (hmem : h ∈ b.affectedHosts e ∨ h ∈ b.removedHosts e) :
    h ≠ "" ∧ normalizeHost h = h := by
  have hold : ∀ key, h ∈ b.oldHosts key → h ≠ "" ∧ normalizeHost h = h := by
    intro key hmem
    unfold oldHosts at hmem
    cases hfind : b.ingresses.find? key with
    | none => simp [hfind] at hmem
    | some ing =>
      rw [hfind] at hmem
      exact host_of_mem_ingressHosts hmem
  have hservice : ∀ namespace_ name, h ∈ b.serviceHosts namespace_ name →
      h ≠ "" ∧ normalizeHost h = h := by
    intro namespace_ name hmem
    obtain ⟨ing, -, hmem⟩ := mem_flatMap.mp (mem_mapKeys.mp hmem)
    exact host_of_mem_ingressHosts hmem
  cases e with
  | storeIngress ing =>
    rcases hmem with hmem | hmem
    · simp only [affectedHosts] at hmem
      split at hmem
      · exact host_of_mem_ingressHosts hmem
      · cases hmem
    · exact hold _ (mem_diffKeys.mp hmem).1
  | deleteIngress namespace_ name =>
    rcases hmem with hmem | hmem
    · cases hmem
    · exact hold _ hmem
  | storeService svc => exact hservice _ _ (hmem.resolve_right not_mem_nil)
  | deleteService namespace_ name => exact hservice _ _ (hmem.resolve_right not_mem_nil)

theorem rules_of_oldHosts {key : String} (hnot : h ∉ b.oldHosts key) :
    ∀ ing ∈ b.ingresses.find? key, h ∉ ruleHosts ing := by
  intro ing hing hmem
  refine hnot ?_
  rw [oldHosts, Option.mem_def.mp hing]
  exact mem_ingressHosts.mpr (Or.inl hmem)

theorem contributions_store (hh : h ≠ "") (haff : h ∉ b.affectedHosts e)
    (hrem : h ∉ b.removedHosts e) :
    (contributions b.ingresses.rows h).Perm (contributions (b.store e).ingresses.rows h) := by
  cases e with
  | storeIngress ing =>
    simp only [affectedHosts] at haff
    simp only [removedHosts, mem_diffKeys] at hrem
    simp only [store]
    have hold : h ∉ b.oldHosts (Keyed.key ing) := fun hx => hrem ⟨hx, haff⟩
    split
    · rename_i hclass
      rw [if_pos hclass] at haff
      exact contributions_upsert hh (rules_of_oldHosts hold)
        fun hx => haff (mem_ingressHosts.mpr (Or.inl hx))
    · exact contributions_erase hh (rules_of_oldHosts hold)
  | deleteIngress namespace_ name => exact contributions_erase hh (rules_of_oldHosts hrem)
  | storeService svc => exact List.Perm.refl _
  | deleteService namespace_ name => exact List.Perm.refl _

theorem hostPairs_store (hh : h ≠ "") (haff : h ∉ b.affectedHosts e) :
    b.hostPairs h (contributions b.ingresses.rows h)
      = (b.store e).hostPairs h (contributions b.ingresses.rows h) := by
  cases e with
  | storeIngress ing =>
    simp only [store]
    split <;> rfl
  | deleteIngress namespace_ name => rfl
  | storeService svc =>
    refine hostPairs_congr (fun key hkey => ?_) hh haff
    exact (b.services.find?_upsert svc key).trans (if_neg hkey)
  | deleteService namespace_ name =>
    refine hostPairs_congr (fun key hkey => ?_) hh haff
    exact (b.services.find?_erase _ key).trans (if_neg hkey)

theorem nodup_range {range : List K8s.Ingress → List K8s.Ingress}
    (hrange : ∀ l, (range l).Perm l) (b : IngressBridge) :
    ((range b.ingresses.rows).map Keyed.key).Nodup :=
  ((hrange _).map _).nodup_iff.mpr b.ingresses.nodup

theorem materializeByHost_rebuilt (range : List K8s.Ingress → List K8s.Ingress)
    {hosts : List String} (hmem : h ∈ targets hosts) :
    (b.materializeByHost range hosts).get? h = b.rebuilt (range b.ingresses.rows) h := by
  rw [get?_materializeByHost, if_pos hmem, rebuilt, if_neg (mem_targets.mp hmem).1]

theorem rebuilt_eq_none (hno : ∀ ing ∈ ings, h ∉ ruleHosts ing) : b.rebuilt ings h = none := by
  unfold rebuilt
  by_cases hh : h = ""
  · rw [if_pos hh]
  · rw [if_neg hh, Option.map_eq_none_iff, hostItem_eq_none_iff, eq_nil_iff_forall_not_mem]
    intro c hc
    obtain ⟨hing, hrule, hhost⟩ := mem_contributions.mp hc
    exact hno c.1 hing ((mem_ruleHosts hh).mpr ⟨c.2, hrule, hhost⟩)

theorem sameRows_synced (hb : b.Consistent) (he : b.Exclusive e) (order : Order) (h : String) :
    Option.Rel SameRows
      (synced (b.rebuilt b.ingresses.rows)
        ((b.store e).materializeByHost order.ingresses (b.affectedHosts e))
        (b.affectedHosts e) (b.removedHosts e) h)
      ((b.store e).rebuilt (b.store e).ingresses.rows h) := by
  have haff := mem_targets_of_hosts (h := h) fun h' hmem =>
    host_of_event (b := b) (e := e) (Or.inl hmem)
  have hrem := mem_targets_of_hosts (h := h) fun h' hmem =>
    host_of_event (b := b) (e := e) (Or.inr hmem)
  unfold synced
  split
  · -- materialised again, in the order of the event
    rename_i hmem
    rw [materializeByHost_rebuilt _ hmem]
    exact sameRows_rebuilt (nodup_range order.ingresses_perm _) he.consistent
      (order.ingresses_perm _).subset ((order.ingresses_perm _).flatMap_right _) rfl
  · rename_i hnot
    rw [haff] at hnot
    split
    · -- removed, and no Ingress has a rule for it
      rename_i hmem
      rw [rebuilt_eq_none (he.removed h (hrem.mp hmem))]
      exact .none
    · rename_i hnot'
      rw [hrem] at hnot'
      by_cases hh : h = ""
      · rw [rebuilt, rebuilt, if_pos hh, if_pos hh]
        exact .none
      · exact sameRows_rebuilt b.ingresses.nodup hb (List.Subset.refl _)
          (contributions_store hh hnot hnot') (hostPairs_store hh hnot)

theorem handle_rebuilt {m : Master} (order : Order) (hb : b.Consistent) (he : b.Exclusive e)
    (hm : Mirrors m.repo (b.rebuilt b.ingresses.rows)) :
    ∃ m', Done (b.handle order e) m () m'
      ∧ Mirrors m'.repo ((b.store e).rebuilt (b.store e).ingresses.rows) := by
  have hmanaged : ∀ h item, (b.store e).rebuilt (b.store e).ingresses.rows h = some item →
      Managed h item := fun h item hitem =>
    managed_rebuilt (b.store e).ingresses.nodup he.consistent.distinct hitem
  have hsync : ∃ m', Done (b.sync order e) m () m'
      ∧ Mirrors m'.repo ((b.store e).rebuilt (b.store e).ingresses.rows) := by
    have hnext : ∀ h item, ((b.store e).materializeByHost order.ingresses
        (b.affectedHosts e)).get? h = some item → Managed h item := by
      intro h item hitem
      rw [materializeByHost_rebuilt _ (of_get?_materializeByHost hitem).1] at hitem
      refine managed_rebuilt (nodup_range order.ingresses_perm _) (fun ing hing => ?_) hitem
      exact he.consistent.distinct ing ((order.ingresses_perm _).subset hing)
    obtain ⟨m', hdone, hm'⟩ := MasterM.syncHosts_done order.routes_perm hnext hm
    exact ⟨m', hdone, hm'.of_sameRows (sameRows_synced hb he order) hmanaged⟩
  -- a service without an Ingress that refers to it has no hosts
  have hskip : b.affectedHosts e = [] → b.removedHosts e = [] →
      Mirrors m.repo ((b.store e).rebuilt (b.store e).ingresses.rows) := by
    intro haff hrem
    refine hm.of_sameRows (fun h => ?_) hmanaged
    have hsame := sameRows_synced hb he order h
    rwa [haff, hrem] at hsame
  unfold handle
  cases e with
  | storeIngress ing => exact hsync
  | deleteIngress namespace_ name => exact hsync
  | storeService svc | deleteService namespace_ name =>
    dsimp only
    split
    · exact hsync
    · rename_i hlen
      exact ⟨m, Done.pure () m, hskip (length_eq_zero_iff.mp (by omega)) rfl⟩

theorem mirrors_rebuilt_nil (b : IngressBridge) : Mirrors Repo.empty (b.rebuilt []) := by
  refine cast (congrArg (Mirrors _) (funext fun h => ?_)) mirrors_empty
  exact (rebuilt_eq_none fun ing hing => absurd hing not_mem_nil).symm

theorem consistent_empty {b : IngressBridge} (hb : b.ingresses = .empty) : b.Consistent := by
  refine ⟨fun ing hing => ?_, fun ing hing => ?_⟩
  · rw [hb] at hing
    cases hing
  · rw [hb] at hing
    cases hing

def allHosts (b : IngressBridge) : List String := b.ingresses.rows.flatMap ingressHosts

theorem materializeByHost_allHosts (range : List K8s.Ingress → List K8s.Ingress)
    (hrange : ∀ l, (range l).Perm l) (h : String) :
    (b.materializeByHost range b.allHosts).get? h = b.rebuilt (range b.ingresses.rows) h := by
  by_cases hmem : h ∈ targets b.allHosts
  · exact materializeByHost_rebuilt range hmem
  · rw [get?_materializeByHost, if_neg hmem, rebuilt_eq_none]
    intro ing hing hrule
    have hhost := mem_ingressHosts.mpr (Or.inl hrule)
    obtain ⟨hne, hnorm⟩ := host_of_mem_ingressHosts hhost
    exact hmem (mem_targets.mpr ⟨hne, h,
      mem_flatMap.mpr ⟨ing, (hrange _).mem_iff.mp hing, hhost⟩, hnorm⟩)

end IngressBridge

/-! ## Runs -/

structure IngressNode where
  bridge : IngressBridge
  master : Master

namespace IngressNode

open IngressBridge

def start (ingressClass : String) (m : Master) : IngressNode :=
  ⟨{ ingressClass := ingressClass }, { m with repo := Repo.empty }⟩

/-- An event, with the orders its handler ranges in. -/
def step (s : IngressNode) (e : Order × Event) : IngressNode :=
  ⟨s.bridge.store e.2, (s.bridge.handle e.1 e.2 ⟨s.master, []⟩).2.state⟩

/-- The repository holds what the stored Ingresses are materialised to. -/
def Rebuilt (s : IngressNode) : Prop :=
  ∀ range : List K8s.Ingress → List K8s.Ingress, (∀ l, (range l).Perm l) →
    Holds s.master.repo (s.bridge.materializeByHost range s.bridge.allHosts)

structure Mirroring (s : IngressNode) : Prop where
  consistent : s.bridge.Consistent
  mirrors : Mirrors s.master.repo (s.bridge.rebuilt s.bridge.ingresses.rows)

theorem mirroring_start (ingressClass : String) (m : Master) : (start ingressClass m).Mirroring :=
  ⟨consistent_empty rfl, mirrors_rebuilt_nil _⟩

theorem Mirroring.step {s : IngressNode} {e : Order × Event} (hs : s.Mirroring)
    (he : s.bridge.Exclusive e.2) : (s.step e).Mirroring := by
  obtain ⟨m', hdone, hm'⟩ := handle_rebuilt e.1 hs.consistent he hs.mirrors
  refine ⟨he.consistent, ?_⟩
  rw [IngressNode.step, hdone.state_eq]
  exact hm'

theorem Mirroring.rebuilt {s : IngressNode} (hs : s.Mirroring) : s.Rebuilt := by
  intro range hrange
  have hsame : ∀ h, Option.Rel SameRows (s.bridge.rebuilt s.bridge.ingresses.rows h)
      (s.bridge.rebuilt (range s.bridge.ingresses.rows) h) := fun h =>
    sameRows_rebuilt s.bridge.ingresses.nodup hs.consistent (List.Subset.refl _)
      ((hrange _).symm.flatMap_right _) rfl
  have hm : Mirrors s.master.repo (s.bridge.rebuilt (range s.bridge.ingresses.rows)) := by
    refine hs.mirrors.of_sameRows hsame fun h item hitem => ?_
    refine managed_rebuilt (nodup_range hrange _) (fun ing hing => ?_) hitem
    exact hs.consistent.distinct ing ((hrange _).subset hing)
  exact hm.holds (materializeByHost_allHosts range hrange)

/-- Along every run of events that leave the objects consistent and remove
no host another Ingress has a rule for, the repository holds after each
event exactly the rows of the rebuild. -/
theorem rebuilt_of_exclusive (ingressClass : String) (m : Master) (events : List (Order × Event))
    (hrun : Along step (fun s e => s.bridge.Exclusive e.2) (start ingressClass m) events) :
    (events.foldl step (start ingressClass m)).Rebuilt :=
  (hrun.invariant (I := Mirroring) (fun _ _ hs he => hs.step he)
    (mirroring_start ingressClass m)).rebuilt

/-! ## Shared hosts -/

def exampleOrder : Order := ⟨id, id, List.Perm.refl, List.Perm.refl⟩

/-- An Ingress that routes `/` of `a.example` to the service of its name. -/
def exampleIngress (name : K8s.ObjectName) : K8s.Ingress where
  namespace_ := K8s.exampleNamespace
  name := name
  ingressClassName := some "luna"
  rules := [{
    host := K8s.exampleHost
    http := some [{ path := "/", service := some { name := name, portNumber := 80 } }] }]

def exampleBlue : K8s.ObjectName := ⟨"blue", by decide, by decide, by decide⟩

def exampleGreen : K8s.ObjectName := ⟨"green", by decide, by decide, by decide⟩

def exampleStart : IngressNode := start "luna" ⟨.empty, .empty, [], none⟩

/-- A second Ingress for the host is stored, and the host is rerouted. -/
def exampleStored : List (Order × Event) :=
  [(exampleOrder, .storeIngress (exampleIngress exampleBlue)),
   (exampleOrder, .storeIngress (exampleIngress exampleGreen)),
   (exampleOrder, .deleteService K8s.exampleNamespace exampleBlue)]

theorem rebuilt_of_exclusive_stored :
    Along step (fun s e => s.bridge.Exclusive e.2) exampleStart exampleStored
      ∧ (exampleStored.foldl step exampleStart).master.repo.httpRoutes.rows.length = 2
      ∧ (exampleStored.foldl step exampleStart).Rebuilt := by
  have hrun : Along step (fun s e => s.bridge.Exclusive e.2) exampleStart exampleStored := by
    decide +kernel
  exact ⟨hrun, by decide +kernel, rebuilt_of_exclusive "luna" _ exampleStored hrun⟩

/-- The Ingress `blue` is deleted, and the host is gone although `green`
has a rule for it. -/
def exampleDeleted : IngressNode :=
  step (exampleStored.foldl step exampleStart)
    (exampleOrder, .deleteIngress K8s.exampleNamespace exampleBlue)

theorem shared_host_lost :
    exampleDeleted.master.repo.domainEndpoints.live? "a.example" = none
      ∧ exampleDeleted.bridge.allHosts = ["a.example"]
      ∧ ((exampleDeleted.bridge.materializeByHost id ["a.example"]).get? "a.example").isSome = true
      ∧ ¬ exampleDeleted.Rebuilt := by
  have hlive : exampleDeleted.master.repo.domainEndpoints.live? "a.example" = none := by
    decide +kernel
  have hhosts : exampleDeleted.bridge.allHosts = ["a.example"] := by decide +kernel
  have hsome : ((exampleDeleted.bridge.materializeByHost id ["a.example"]).get?
      "a.example").isSome = true := by decide +kernel
  refine ⟨hlive, hhosts, hsome, fun hrebuilt => ?_⟩
  obtain ⟨item, hitem⟩ := Option.isSome_iff_exists.mp hsome
  have hmem := ((hrebuilt id List.Perm.refl).domains item.domain).mpr
    ⟨"a.example", item, hhosts ▸ hitem, rfl⟩
  have hname : ((exampleDeleted.bridge.materializeByHost id ["a.example"]).get?
      "a.example").map (·.domain.hostname) = some "a.example" := by decide +kernel
  rw [hitem, Option.map_some, Option.some_inj] at hname
  rw [hname, hlive] at hmem
  cases hmem

end IngressNode

end K8sBridge

end LunaEdge
