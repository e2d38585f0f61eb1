import LunaEdge.BridgeCalls

/-!
# Changes that are never published

After a call of `syncDomainSet` a bridge calls `OnUpdate` for the hosts
whose rows the call has changed. Both stop at the first failure, and
neither is undone. What has been published is recorded nowhere: the next
call compares the domains it has materialised with the rows, and a host
whose rows were written before the failure looks settled.

`Published` keeps beside the master the projection that was last handed to
a successful `OnUpdate` of each host. Whatever has failed before, a call
in which nothing fails publishes an affected host exactly if the host is
not settled when its turn comes; so a host with an unpublished projection
is published exactly if its rows still differ from its new domain
(`unpublished_published_iff`).
-/

namespace LunaEdge

open Session

namespace K8sBridge

/-- What an edge would be sent for a host. -/
def liveProjection (repo : Repo) (h : String) : Option DomainEntryProjection :=
  (repo.getDomainEntryProjectionByDomain h).toOption

/-- How far the calls of `OnUpdate` have come. -/
structure Updates where
  called : List String
  handed : List String
  world : World RepoError Master

/-- `OnUpdate` for one host after another, up to the first that fails. -/
def updateHosts : List String → World RepoError Master → Updates
  | [], w => ⟨[], [], w⟩
  | h :: hosts, w =>
    match MasterM.onUpdate h w with
    | (.error _, w) => ⟨[h], [], w⟩
    | (.ok _, w) =>
      let rest := updateHosts hosts w
      ⟨h :: rest.called, h :: rest.handed, rest.world⟩

/-- An event of a bridge, with the calls of `OnUpdate` it makes. -/
def SyncCall.publish (c : SyncCall) (w : World RepoError Master) : Updates :=
  match c.run w with
  | (.error _, w) => ⟨[], [], w⟩
  | (.ok (changedAffected, changedRemoved), w) =>
    updateHosts (c.bridge.kind.updates changedAffected changedRemoved) w

/-- A master, and the projections last handed to `OnUpdate`. -/
structure Published where
  master : Master
  handed : String → Option DomainEntryProjection

def Published.step (s : Published) (e : SyncCall × List (Option RepoError)) : Published :=
  let updates := e.1.publish ⟨s.master, e.2⟩
  { master := updates.world.state
    handed := fun h =>
      if h ∈ updates.handed then liveProjection updates.world.state.repo h else s.handed h }

/-! ## Events without failures -/

theorem updateHosts_called (hosts : List String) (m : Master) :
    (updateHosts hosts ⟨m, []⟩).called = hosts := by
  induction hosts generalizing m with
  | nil => rfl
  | cons h hosts ih =>
    have hdone := MasterM.boardcastDomainEndpointProjection_done m h
    unfold updateHosts
    rw [show MasterM.onUpdate h ⟨m, []⟩ = _ from hdone]
    exact congrArg (h :: ·) (ih _)

theorem mem_updates {kind : Kind} {changedAffected changedRemoved : List String} {h : String} :
    h ∈ kind.updates changedAffected changedRemoved ↔ h ∈ changedAffected ∨ h ∈ changedRemoved := by
  cases kind with
  | ingress => exact List.mem_append
  | gateway => exact List.mem_append.trans or_comm

/-- Without failures `OnUpdate` is called for the hosts that are not
settled at their turns. -/
theorem SyncCall.mem_called (c : SyncCall) (m : Master) (h : String) :
    h ∈ (c.publish ⟨m, []⟩).called ↔ ∃ t, (t, h) ∈ c.turns m.repo c.hosts ∧ ¬ c.Settled t h := by
  obtain ⟨changed, m', hdone, -, hchanged⟩ := c.run_done m
  unfold SyncCall.publish
  rw [show c.run ⟨m, []⟩ = _ from hdone]
  dsimp only
  rw [updateHosts_called, mem_updates, hchanged]
  simp only [SyncCall.change_fst]

/-- After any events, whatever has failed in them: a host whose projection
is not the one last handed to `OnUpdate` is published by an event that
affects it and in which nothing fails exactly if the rows it then has are
not those of its domain. -/
theorem unpublished_published_iff (start : Published)
    (events : List (SyncCall × List (Option RepoError))) (c : SyncCall) (h : String)
    (haffected : h ∈ targets c.affectedHosts) :
    (liveProjection (events.foldl Published.step start).master.repo h
        ≠ (events.foldl Published.step start).handed h →
      h ∈ (c.publish ⟨(events.foldl Published.step start).master, []⟩).called)
    ↔ liveProjection (events.foldl Published.step start).master.repo h
        = (events.foldl Published.step start).handed h
      ∨ ∀ t, (t, h) ∈ c.turns (events.foldl Published.step start).master.repo c.hosts →
        ¬ c.Settled t h := by
  generalize events.foldl Published.step start = s
  have hmem : h ∈ c.hosts := SyncCall.mem_hosts.mpr (Or.inl haffected)
  have hcalled : h ∈ (c.publish ⟨s.master, []⟩).called
      ↔ ∀ t, (t, h) ∈ c.turns s.master.repo c.hosts → ¬ c.Settled t h := by
    rw [SyncCall.mem_called]
    obtain ⟨t₀, ht₀⟩ : ∃ t, (t, h) ∈ c.turns s.master.repo c.hosts := SyncCall.exists_turn hmem
    constructor
    · rintro ⟨t, ht, hnot⟩ t' ht'
      rwa [SyncCall.turn_unique (SyncCall.nodup_foldl_takeHost _) ht' ht]
    · exact fun hall => ⟨t₀, ht₀, hall t₀ ht₀⟩
  rw [hcalled, or_iff_not_imp_left]

/-- The event of an Ingress of `a.example`, and the resync of the host. -/
def exampleUpdateCall : SyncCall := exampleIngressCall ["a.example"] []

/-- The event on empty tables, the call after `n` others failing. -/
def exampleUnpublished (n : Nat) : Published :=
  [(exampleUpdateCall, List.replicate n none ++ [some (.database "busy")])].foldl Published.step
    ⟨⟨.empty, .empty, [], none⟩, fun _ => none⟩

/-- The endpoint of the host is written and nothing else, so the resync
publishes the host. -/
theorem unpublished_published_half :
    liveProjection (exampleUnpublished 4).master.repo "a.example"
        ≠ (exampleUnpublished 4).handed "a.example"
      ∧ "a.example" ∈ (exampleUpdateCall.publish ⟨(exampleUnpublished 4).master, []⟩).called := by
  have hne : liveProjection (exampleUnpublished 4).master.repo "a.example"
      ≠ (exampleUnpublished 4).handed "a.example" := by decide +kernel
  refine ⟨hne, (unpublished_published_iff _ [(exampleUpdateCall, _)] exampleUpdateCall "a.example"
    (by decide)).mpr (Or.inr fun t ht => ?_) hne⟩
  have hhosts : exampleUpdateCall.hosts = ["a.example"] := by decide
  rw [hhosts] at ht
  obtain ⟨rfl, -⟩ := Prod.mk.inj (List.mem_singleton.mp ht)
  rw [← SyncCall.change_fst]
  decide +kernel

/-- All rows of the host are written, and `OnUpdate` fails. -/
theorem failed_update_lost :
    (exampleUpdateCall.publish ⟨⟨.empty, .empty, [], none⟩,
        List.replicate 6 none ++ [some (.database "busy")]⟩).called = ["a.example"]
      ∧ (liveProjection (exampleUnpublished 6).master.repo "a.example").isSome = true
      ∧ (exampleUnpublished 6).handed "a.example" = none
      ∧ (exampleUpdateCall.publish ⟨(exampleUnpublished 6).master, []⟩).called = [] := by
  decide +kernel

end K8sBridge

end LunaEdge
