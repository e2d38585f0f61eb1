import LunaEdge.Manage

/-!
# A plan is applied whole or not at all

`applyPlan` runs four loops of statements in one transaction, any of which
may fail, and announces what it has noted only after the commit.
`Writes x g` says what such a part of the transaction does: however it
ends it has touched the tables and nothing else, and if it returns it has
written them as `g` does. The transaction writes the plan
(`writes_planTransaction`), so a plan that is not committed leaves the
master as it was, without a log row, a notice or a certificate
notification, and a committed one leaves the tables with its changes
applied one after another (`applyPlan_atomic`). What is announced after
the commit does not touch the tables again.
-/

namespace LunaEdge

open Session

namespace MasterM

/-! ## Programs that write the tables -/

def Writes {α : Type} (x : MasterM α) (g : Repo → Repo) : Prop :=
  ∀ m, Within x m fun r m' => ∃ repo, m' = { m with repo := repo }
    ∧ ∀ a, r = .ok a → repo = g m.repo

section Writes

variable {α β : Type} {g g' : Repo → Repo}

theorem Writes.pure (a : α) : Writes (Pure.pure a) id := fun m =>
  Within.pure ⟨m.repo, rfl, fun _ _ => rfl⟩

theorem Writes.bind {x : MasterM α} {f : α → MasterM β} (hx : Writes x g)
    (hf : ∀ a, Writes (f a) g') : Writes (x >>= f) (g' ∘ g) := by
  intro m
  refine (hx m).bind ?_ ?_
  · rintro e _ ⟨repo, rfl, -⟩
    exact ⟨repo, rfl, fun _ h => by cases h⟩
  · rintro a _ ⟨repo, rfl, hrepo⟩
    refine (hf a _).mono ?_
    rintro r _ ⟨repo', rfl, hrepo'⟩
    refine ⟨repo', rfl, fun b hb => ?_⟩
    rw [hrepo' b hb, hrepo a rfl]
    rfl

theorem Writes.upsertResource {ρ : Type} [Stored ρ] (model : ρ) :
    Writes (MasterM.upsertResource model) fun repo => repo.upsertResource model := by
  intro m
  unfold MasterM.upsertResource update
  refine Within.statement (fun e => ⟨m.repo, rfl, fun _ h => by cases h⟩) ?_
  intro a t ht
  cases ht
  exact ⟨_, rfl, fun _ _ => rfl⟩

theorem Writes.deleteResourceByField (ρ : Type) [Stored ρ] {field : String}
    (hfield : field = Resource.primaryColumn ρ) (k : String) :
    Writes (MasterM.deleteResourceByField ρ field k) fun repo => repo.retire ρ k := by
  intro m
  refine Within.statement (fun e => ⟨m.repo, rfl, fun _ h => by cases h⟩) ?_
  intro a t ht
  rw [hfield, Repo.deleteResourceByField, Table.deleteResourceByField_primary] at ht
  cases ht
  exact ⟨_, rfl, fun _ _ => rfl⟩

theorem Writes.attempt_query (f : Master → Except RepoError α) :
    Writes (attempt (query f)) id := fun m =>
  Within.attempt (Within.query (fun _ => ⟨m.repo, rfl, fun _ _ => rfl⟩)
    fun _ _ => ⟨m.repo, rfl, fun _ _ => rfl⟩)

theorem Writes.forM {f : β → MasterM PUnit} {g : Repo → β → Repo}
    (h : ∀ b, Writes (f b) fun repo => g repo b) (l : List β) :
    Writes (l.forM f) fun repo => l.foldl g repo := by
  induction l with
  | nil => exact Writes.pure ()
  | cons b l ih =>
    rw [List.forM_eq_forM, List.forM_cons]
    exact (h b).bind fun _ => ih

theorem Writes.foldlM {f : α → β → MasterM α} {g : Repo → β → Repo}
    (h : ∀ a b, Writes (f a b) fun repo => g repo b) (l : List β) (a : α) :
    Writes (l.foldlM f a) fun repo => l.foldl g repo := by
  induction l generalizing a with
  | nil => exact Writes.pure a
  | cons b l ih =>
    rw [List.foldlM_cons]
    exact (h a b).bind fun a' => ih a'

theorem Writes.transaction {x : MasterM α} (hx : Writes x g) (m : Master)
    (faults : List (Option RepoError)) :
    (∃ e faults', Session.transaction x ⟨m, faults⟩ = (.error e, ⟨m, faults'⟩))
      ∨ ∃ a faults', Session.transaction x ⟨m, faults⟩
        = (.ok a, ⟨{ m with repo := g m.repo }, faults'⟩) := by
  have hstatement : Writes (update id : MasterM Unit) id := by
    refine fun m => Within.statement (fun e => ⟨m.repo, rfl, fun _ h => by cases h⟩) ?_
    intro a t ht
    cases ht
    exact ⟨m.repo, rfl, fun _ _ => rfl⟩
  have hbody : Writes (do update id; let a ← x; update id; Pure.pure a : MasterM α) g :=
    hstatement.bind fun _ => hx.bind fun a => hstatement.bind fun _ => Writes.pure a
  obtain ⟨repo, hstate, hrepo⟩ := hbody m faults
  unfold Session.transaction
  rcases hrun : (do update id; let a ← x; update id; Pure.pure a : MasterM α) ⟨m, faults⟩ with
    ⟨e | a, w⟩
  · exact Or.inl ⟨e, w.faults, rfl⟩
  · rw [hrun] at hstate hrepo
    rw [hrepo a rfl] at hstate
    exact Or.inr ⟨a, w.faults, by rw [← hstate]⟩

end Writes

/-! ## The transaction of a plan -/

theorem writes_applyRowChange {ρ : Type} [Stored ρ] {id : ρ → String}
    (hid : ∀ r, id r = Keyed.key r) (hcol : "id" = Resource.primaryColumn ρ)
    (change : PlanChange ρ) : Writes (applyRowChange id change) fun repo => change.write repo := by
  obtain ⟨action, current, desired⟩ := change
  cases action with
  | create | update =>
    cases desired with
    | none => exact Writes.pure ()
    | some r => exact Writes.upsertResource r
  | delete =>
    cases current with
    | none => exact Writes.pure ()
    | some r =>
      simp only [applyRowChange, hid r]
      exact Writes.deleteResourceByField ρ hcol (Keyed.key r)
  | other v hv => exact Writes.pure ()

theorem writes_applyDomainEndpointChange (b : PlanBroadcasts) (change : PlanChange DomainEndpoint) :
    Writes (applyDomainEndpointChange b change) fun repo => change.write repo := by
  obtain ⟨action, current, desired⟩ := change
  cases action with
  | create | update =>
    cases desired with
    | none => exact Writes.pure b
    | some e => exact (Writes.upsertResource e).bind fun _ => Writes.pure _
  | delete =>
    cases current with
    | none => exact Writes.pure b
    | some e =>
      -- whether the projection can be read or not, the row is deleted
      exact (Writes.attempt_query _).bind fun _ =>
        (Writes.deleteResourceByField DomainEndpoint rfl e.hostname).bind fun _ =>
          Writes.pure _
  | other v hv => exact Writes.pure b

theorem writes_applyDNSRecordChange (b : PlanBroadcasts) (change : PlanChange DNSRecord) :
    Writes (applyDNSRecordChange b change) fun repo => change.write repo := by
  obtain ⟨action, current, desired⟩ := change
  cases action with
  | create | update =>
    cases desired with
    | none => exact Writes.pure b
    | some r => exact (Writes.upsertResource r).bind fun _ => Writes.pure _
  | delete =>
    cases current with
    | none => exact Writes.pure b
    | some r =>
      exact (Writes.deleteResourceByField DNSRecord rfl r.id).bind fun _ => Writes.pure _
  | other v hv => exact Writes.pure b

theorem writes_planTransaction (plan : Plan) : Writes (planTransaction plan) plan.write := by
  have hroutes := Writes.forM (writes_applyRowChange (ρ := HTTPRoute) (fun _ => rfl) rfl)
    plan.httpRoutes
  have hbackends := Writes.forM (writes_applyRowChange (ρ := ServiceBackendRef) (fun _ => rfl) rfl)
    plan.serviceBackendRefs
  have hdomains := Writes.foldlM writes_applyDomainEndpointChange plan.domainEndpoints
  have hrecords := Writes.foldlM writes_applyDNSRecordChange plan.dnsRecords
  exact hroutes.bind fun _ => hbackends.bind fun _ => (hdomains {}).bind fun b =>
    (hrecords b).bind fun b => Writes.pure { b with
      domainHosts := addTrimmed b.domainHosts plan.hostname }

/-! ## After the commit -/

def SameRepo (m m' : Master) : Prop := m'.repo = m.repo

theorem SameRepo.refl (m : Master) : SameRepo m m := rfl

theorem SameRepo.trans (m m' m'' : Master) (h : SameRepo m m') (h' : SameRepo m' m'') :
    SameRepo m m'' := Eq.trans h' h

/-- However it ends, the program leaves the tables as they are. -/
abbrev KeepsRepo {α : Type} (x : MasterM α) : Prop := Keeps SameRepo x

theorem keepsRepo_bind {α β : Type} {x : MasterM α} {f : α → MasterM β} (hx : KeepsRepo x)
    (hf : ∀ a, KeepsRepo (f a)) : KeepsRepo (x >>= f) :=
  Keeps.bind SameRepo.trans hx hf

theorem keepsRepo_notice (k : SyncKey) (action : SnapshotAction) (c : Nat → ChangeNotification) :
    KeepsRepo (appendSnapshotRecord k action >>= fun n => hubBoardcast (c n)) := by
  refine keepsRepo_bind (Keeps.statement SameRepo.refl fun m a t ht => ?_) fun n =>
    Keeps.effect fun _ => rfl
  cases ht
  rfl

theorem keepsRepo_boardcastDNSRecord (id : String) : KeepsRepo (boardcastDNSRecord id) := by
  refine keepsRepo_bind (Keeps.query SameRepo.refl _).attempt fun found => ?_
  rcases found with (_ | _ | _) | record
  · exact Keeps.pure SameRepo.refl ()
  · exact Keeps.fail SameRepo.refl _
  · exact Keeps.fail SameRepo.refl _
  · exact keepsRepo_notice _ _ _

theorem keepsRepo_boardcastDomainEndpointProjection (hostname : String) :
    KeepsRepo (boardcastDomainEndpointProjection hostname) := by
  refine keepsRepo_bind (Keeps.query SameRepo.refl _).attempt fun found => ?_
  rcases found with (_ | _ | _) | entry
  · exact Keeps.pure SameRepo.refl ()
  · exact Keeps.fail SameRepo.refl _
  · exact Keeps.fail SameRepo.refl _
  · exact keepsRepo_notice _ _ _

theorem keepsRepo_notifyCerts (hostname : String) : KeepsRepo (notifyCerts hostname) := by
  refine keepsRepo_bind (fun _ _ => rfl) fun certs => ?_
  cases certs with
  | false => exact Keeps.pure SameRepo.refl ()
  | true =>
    refine keepsRepo_bind (Keeps.query SameRepo.refl _).attempt fun found => ?_
    rcases found with (_ | _ | _) | domain
    · exact Keeps.pure SameRepo.refl ()
    · exact Keeps.fail SameRepo.refl _
    · exact Keeps.fail SameRepo.refl _
    · dsimp only
      split
      · exact Keeps.effect fun _ => rfl
      · exact Keeps.pure SameRepo.refl ()

theorem keepsRepo_forM {β : Type} {f : β → MasterM PUnit} (h : ∀ b, KeepsRepo (f b))
    (l : List β) : KeepsRepo (l.forM f) :=
  Keeps.forM SameRepo.refl SameRepo.trans fun b _ => h b

/-! ## Plans -/

def Commits (plan : Plan) (m : Master) (faults : List (Option RepoError)) : Prop :=
  ∃ broadcasts w, transaction (planTransaction plan) ⟨m, faults⟩ = (.ok broadcasts, w)

/-- Whichever statements fail: without a commit there is an error and
nothing has changed, and none of the statements has touched more than the
tables; with one the tables hold the changes of the plan. -/
theorem applyPlan_atomic (range : List String → List String) (plan : Plan) (m : Master)
    (faults : List (Option RepoError)) :
    (¬ Commits plan m faults →
        (∃ e, (applyPlan range plan ⟨m, faults⟩).1 = .error e)
          ∧ (applyPlan range plan ⟨m, faults⟩).2.state = m
          ∧ ∃ repo, (planTransaction plan ⟨m, faults⟩).2.state = { m with repo := repo })
      ∧ (Commits plan m faults →
        (applyPlan range plan ⟨m, faults⟩).2.state.repo = plan.write m.repo) := by
  rcases (writes_planTransaction plan).transaction m faults with
    ⟨e, faults', hrun⟩ | ⟨b, faults', hrun⟩
  · have happly : applyPlan range plan ⟨m, faults⟩ = (.error e, ⟨m, faults'⟩) := bind_error hrun
    obtain ⟨repo, hstate, -⟩ := writes_planTransaction plan m faults
    refine ⟨fun _ => ⟨⟨e, by rw [happly]⟩, by rw [happly], repo, hstate⟩, ?_⟩
    rintro ⟨b, w, hcommit⟩
    rw [hrun] at hcommit
    cases hcommit
  · refine ⟨fun hnot => absurd ⟨b, _, hrun⟩ hnot, fun _ => ?_⟩
    have happly : applyPlan range plan ⟨m, faults⟩ = _ := bind_ok hrun
    rw [happly]
    have hentries : KeepsRepo (b.deletedDomainEntries.forM fun entry =>
        broadcastDeletedDomainEntry entry.hostname { entry with deleted := true }) :=
      keepsRepo_forM (fun _ => keepsRepo_notice _ _ _) _
    have hrecords : KeepsRepo (b.deletedDNSRecords.forM fun record =>
        broadcastDeletedDNSRecord { record with deleted := true }) :=
      keepsRepo_forM (fun _ => keepsRepo_notice _ _ _) _
    have hhosts : KeepsRepo ((range b.domainHosts).forM fun hostname => do
        notifyCerts hostname
        boardcastDomainEndpointProjection hostname) :=
      keepsRepo_forM (fun hostname => keepsRepo_bind (keepsRepo_notifyCerts hostname) fun _ =>
        keepsRepo_boardcastDomainEndpointProjection hostname) _
    have hids : KeepsRepo ((range b.dnsRecordIDs).forM boardcastDNSRecord) :=
      keepsRepo_forM keepsRepo_boardcastDNSRecord _
    exact keepsRepo_bind hentries (fun _ => keepsRepo_bind hrecords fun _ =>
      keepsRepo_bind hhosts fun _ => hids) { m with repo := plan.write m.repo } faults'

end MasterM

end LunaEdge
