import LunaEdge.BridgeSync

/-!
# Removed hosts

What a bridge announces when it removes a host. `OnUpdate` looks the
projection up with a query that only sees live endpoints, so what it finds
is never marked deleted: whatever a bridge does, and whatever fails on the
way, the rows it appends are upserts and the entries it broadcasts are not
deleted (`UpsertsOnly`). The deletion of a removed host is therefore never
announced.
-/

namespace LunaEdge

open Session K8sBridge

/-- A deletion row and a deletion notice of `h` have come between `m` and `m'`. -/
def RemovalAnnounced (m m' : Master) (h : String) : Prop :=
  (∃ r ∈ m'.log.after m.log.lastID, r.syncID = h ∧ r.action = .delete)
  ∧ ∃ n ∈ m'.boardcasts.drop m.boardcasts.length,
      ∃ e, n.domainEntry = some e ∧ e.hostname = h ∧ e.deleted = true

/-- The rows appended between `m` and `m'` are upserts, and the entries
broadcast are not deleted. -/
structure UpsertsOnly (m m' : Master) : Prop where
  records : ∃ rs, m'.log.records = m.log.records ++ rs ∧ ∀ r ∈ rs, r.action = .upsert
  notices : ∃ ns, m'.boardcasts = m.boardcasts ++ ns
    ∧ ∀ n ∈ ns, ∀ e, n.domainEntry = some e → e.deleted = false

namespace UpsertsOnly

theorem refl (m : Master) : UpsertsOnly m m := ⟨⟨[], by simp, by simp⟩, [], by simp, by simp⟩

theorem trans (m₁ m₂ m₃ : Master) (h : UpsertsOnly m₁ m₂) (h' : UpsertsOnly m₂ m₃) :
    UpsertsOnly m₁ m₃ := by
  obtain ⟨⟨rs, hrs, hup⟩, ns, hns, hlive⟩ := h
  obtain ⟨⟨rs', hrs', hup'⟩, ns', hns', hlive'⟩ := h'
  refine ⟨⟨rs ++ rs', by rw [hrs', hrs, List.append_assoc], fun r hr => ?_⟩,
    ns ++ ns', by rw [hns', hns, List.append_assoc], fun n hn => ?_⟩
  · exact (List.mem_append.mp hr).elim (hup r) (hup' r)
  · exact (List.mem_append.mp hn).elim (hlive n) (hlive' n)

/-- Statements on the tables and notices to `Certs` announce nothing. -/
theorem of_silent {m m' : Master} (hlog : m'.log = m.log)
    (hb : m'.boardcasts = m.boardcasts) : UpsertsOnly m m' :=
  ⟨⟨[], by simp [hlog], by simp⟩, [], by simp [hb], by simp⟩

theorem not_removalAnnounced {m m' : Master} (h : UpsertsOnly m m') (host : String) :
    ¬ RemovalAnnounced m m' host := by
  rintro ⟨⟨r, hr, -, hdel⟩, -⟩
  obtain ⟨rs, hrs, hup⟩ := h.records
  rw [SnapshotLog.after_eq_drop, hrs, SnapshotLog.lastID, List.drop_left] at hr
  rw [hup r hr] at hdel
  cases hdel

end UpsertsOnly

/-! ## Programs that only announce upserts -/

namespace MasterM

abbrev Quiet {α : Type} (x : MasterM α) : Prop := Keeps UpsertsOnly x

variable {α : Type}

theorem quiet_bind {β : Type} {x : MasterM α} {f : α → MasterM β} (hx : Quiet x)
    (hf : ∀ a, Quiet (f a)) : Quiet (x >>= f) :=
  hx.bind UpsertsOnly.trans hf

theorem quiet_pure (a : α) : Quiet (pure a : MasterM α) := Keeps.pure UpsertsOnly.refl a

theorem quiet_upsertResource {ρ : Type} [Stored ρ] (r : ρ) : Quiet (upsertResource r) :=
  Keeps.update UpsertsOnly.refl fun _ => .of_silent rfl rfl

theorem quiet_deleteResourceByField (ρ : Type) [Stored ρ] (field value : String) :
    Quiet (deleteResourceByField ρ field value) := by
  refine Keeps.statement UpsertsOnly.refl fun m a m' h => ?_
  cases hd : m.repo.deleteResourceByField ρ field value with
  | error e => rw [hd] at h; cases h
  | ok repo =>
    rw [hd] at h
    cases h
    exact .of_silent rfl rfl

theorem quiet_query (f : Master → Except RepoError α) : Quiet (query f) :=
  Keeps.query UpsertsOnly.refl f

theorem quiet_orNothing {x : MasterM α} (h : Quiet x) : Quiet (orNothing x) := by
  refine quiet_bind h.attempt fun r => ?_
  rcases r with (_ | _ | _) | a
  · exact quiet_pure none
  · exact Keeps.fail UpsertsOnly.refl _
  · exact Keeps.fail UpsertsOnly.refl _
  · exact quiet_pure (some a)

theorem quiet_certsNotify (hostname : String) : Quiet (certsNotify hostname) :=
  Keeps.effect fun _ => .of_silent rfl rfl

theorem quiet_dropBackend (keep : List String) (id : String) : Quiet (dropBackend keep id) := by
  rw [dropBackend]
  split
  · exact quiet_deleteResourceByField _ _ _
  · exact quiet_pure ()

theorem quiet_dropRoute (keep : List String) (route : HTTPRoute) : Quiet (dropRoute keep route) :=
  quiet_bind (quiet_deleteResourceByField _ _ _) fun _ => quiet_dropBackend keep _

theorem quiet_forM {β : Type} {f : β → MasterM PUnit} (h : ∀ b, Quiet (f b)) (l : List β) :
    Quiet (l.forM f) :=
  Keeps.forM UpsertsOnly.refl UpsertsOnly.trans fun b _ => h b

theorem quiet_upsertManagedDomain (range : List HTTPRoute → List HTTPRoute)
    (item : DomainMaterialized) : Quiet (upsertManagedDomain range item) := by
  refine quiet_bind (quiet_orNothing (quiet_query _)) fun existing => ?_
  refine quiet_bind (quiet_orNothing (quiet_query _)) fun currentRoutes => ?_
  refine quiet_bind (quiet_orNothing (quiet_query _)) fun currentBackends => ?_
  split
  · exact quiet_pure false
  · refine quiet_bind (quiet_upsertResource _) fun _ => ?_
    refine quiet_bind (quiet_forM quiet_upsertResource _) fun _ => ?_
    refine quiet_bind (quiet_forM quiet_upsertResource _) fun _ => ?_
    refine quiet_bind (quiet_forM (quiet_dropRoute _) _) fun _ => ?_
    exact quiet_bind (quiet_forM (fun _ => quiet_dropBackend _ _) _) fun _ => quiet_pure true

theorem quiet_deleteManagedDomain (hostname : String) : Quiet (deleteManagedDomain hostname) := by
  refine quiet_bind (quiet_orNothing (quiet_query _)) fun domain => ?_
  cases domain with
  | none => exact quiet_pure false
  | some domain =>
    refine quiet_bind (quiet_query _).attempt fun routes => ?_
    refine quiet_bind (quiet_forM (quiet_dropRoute _) _) fun _ => ?_
    refine quiet_bind (quiet_dropBackend _ _) fun _ => ?_
    exact quiet_bind (quiet_deleteResourceByField _ _ _) fun _ => quiet_pure true

theorem quiet_markIfNeedCert (domain : DomainEndpoint) : Quiet (markIfNeedCert domain) := by
  rw [markIfNeedCert]
  split
  · rw [markCertificateDesired]
    split
    · exact quiet_pure ()
    · exact quiet_certsNotify _
  · exact quiet_pure ()

theorem quiet_syncRemovedHost (r : SyncResult) (host : String) : Quiet (syncRemovedHost r host) :=
  quiet_bind (quiet_deleteManagedDomain host) fun _ => quiet_pure _

theorem quiet_syncAffectedHost (range : List HTTPRoute → List HTTPRoute)
    (next : GoMap String DomainMaterialized) (r : SyncResult) (host : String) :
    Quiet (syncAffectedHost range next r host) := by
  rw [syncAffectedHost]
  cases next.get? host with
  | none => exact quiet_syncRemovedHost r host
  | some item =>
    refine quiet_bind (quiet_upsertManagedDomain range item) fun _ => ?_
    exact quiet_bind (quiet_markIfNeedCert item.domain) fun _ => quiet_pure _

theorem quiet_forNewHost {body : SyncResult → String → MasterM SyncResult}
    (h : ∀ r host, Quiet (body r host)) (r : SyncResult) (host : String) :
    Quiet (forNewHost body r host) := by
  rw [forNewHost]
  split
  · exact quiet_pure r
  · exact h _ _

theorem quiet_syncDomainSet (range : List HTTPRoute → List HTTPRoute)
    (next : GoMap String DomainMaterialized) (affectedHosts removedHosts : List String) :
    Quiet (syncDomainSet range next affectedHosts removedHosts) := by
  refine quiet_bind (Keeps.foldlM UpsertsOnly.refl UpsertsOnly.trans
    (quiet_forNewHost (quiet_syncAffectedHost range next)) affectedHosts {}) fun r => ?_
  refine quiet_bind (Keeps.foldlM UpsertsOnly.refl UpsertsOnly.trans
    (quiet_forNewHost quiet_syncRemovedHost) removedHosts r) fun r' => ?_
  exact quiet_pure _

theorem quiet_appendUpsert (k : SyncKey) : Quiet (appendSnapshotRecord k .upsert) := by
  refine Keeps.statement UpsertsOnly.refl fun m a m' h => ?_
  cases h
  exact ⟨⟨[_], rfl, by simp⟩, [], by simp, by simp⟩

theorem quiet_hubBoardcast {p : DomainEntryProjection} (hp : p.deleted = false) (n : Nat) :
    Quiet (hubBoardcast { snapshotRecordID := n, domainEntry := some p }) :=
  Keeps.effect fun m => ⟨⟨[], by simp, by simp⟩, [_], rfl, by simp [hp]⟩

/-- The projection that `OnUpdate` finds is not marked deleted. -/
theorem quiet_onUpdate (fqdn : String) : Quiet (onUpdate fqdn) := by
  intro m
  refine Within.bind (P := fun r t => t = m ∧ ∀ p, r = .ok (.ok p) → p.deleted = false)
    (Within.attempt (Within.query (fun e => ⟨rfl, by simp⟩) fun p hp => ⟨rfl, ?_⟩)) ?_ ?_
  · intro q hq
    cases hq
    exact (Repo.getDomainEntryProjectionByDomain_ok hp).2
  · rintro e t ⟨rfl, -⟩
    exact .refl _
  · rintro r t ⟨rfl, hlive⟩
    rcases r with (_ | _ | _) | p
    · exact quiet_pure () _
    · exact Keeps.fail UpsertsOnly.refl _ _
    · exact Keeps.fail UpsertsOnly.refl _ _
    · have hp : p.deleted = false := hlive p rfl
      simp only [hp, Bool.false_eq_true, if_false]
      exact quiet_bind (quiet_appendUpsert _) (quiet_hubBoardcast hp) _

end MasterM

/-! ## Removals -/

/-- Once a bridge has removed a host and `OnUpdate` has returned nil for
it, the deletion of the host is still not announced: at no point of the
calls that the bridge makes, and whatever failed in the run before. -/
theorem removal_never_announced (kind : Kind) (range : List HTTPRoute → List HTTPRoute)
    (materializeByHost : List String → GoMap String DomainMaterialized)
    (affectedHosts removedHosts : List String) {w w₁ : World RepoError Master}
    {changedAffected changedRemoved : List String}
    (hsync : MasterM.syncDomainSet range (materializeByHost affectedHosts) affectedHosts
      removedHosts w = (.ok (changedAffected, changedRemoved), w₁)) :
    ∀ updated w₂, updated <+: kind.updates changedAffected changedRemoved →
      updated.forM MasterM.onUpdate w₁ = (.ok (), w₂) →
      ∀ h ∈ changedRemoved, h ∈ updated → ¬ RemovalAnnounced w.state w₂.state h := by
  intro updated w₂ _ hnil h _ _
  have hquiet := MasterM.quiet_syncDomainSet range (materializeByHost affectedHosts)
    affectedHosts removedHosts w.state w.faults
  have hquiet' := MasterM.quiet_forM MasterM.quiet_onUpdate updated w₁.state w₁.faults
  simp only [hsync] at hquiet
  simp only [hnil] at hquiet'
  exact (UpsertsOnly.trans _ _ _ hquiet hquiet').not_removalAnnounced h

def oneEndpoint : Master :=
  ⟨Repo.empty.upsertResource ({ hostname := "a.example" } : DomainEndpoint), .empty, [], none⟩

theorem removal_never_announced_ingress :
    ∃ w₁ w₂, MasterM.syncDomainSet id .empty [] ["a.example"] ⟨oneEndpoint, []⟩
        = (.ok ([], ["a.example"]), w₁)
      ∧ ["a.example"].forM MasterM.onUpdate w₁ = (.ok (), w₂)
      ∧ ¬ RemovalAnnounced oneEndpoint w₂.state "a.example" := by
  have hsync : MasterM.syncDomainSet id .empty [] ["a.example"] ⟨oneEndpoint, []⟩
      = (.ok ([], ["a.example"]), _) := rfl
  exact ⟨_, _, hsync, rfl,
    removal_never_announced .ingress id (fun _ => .empty) [] ["a.example"] hsync
      ["a.example"] _ List.prefix_rfl rfl "a.example" (by decide) (by decide)⟩

/-- The endpoint of `a.example` is removed, `OnUpdate` returns nil, and
neither a log row nor a notice has come of it. -/
theorem removed_host_unannounced :
    ∃ w₁ w₂, MasterM.syncDomainSet id .empty [] ["a.example"] ⟨oneEndpoint, []⟩
        = (.ok ([], ["a.example"]), w₁)
      ∧ MasterM.onUpdate "a.example" w₁ = (.ok (), w₂)
      ∧ w₂.state.repo.domainEndpoints.live? "a.example" = none
      ∧ w₂.state.log.records = [] ∧ w₂.state.boardcasts = [] :=
  ⟨_, _, rfl, rfl, by decide, rfl, rfl⟩

end LunaEdge
