import LunaEdge.Session
import LunaEdge.ChangeLog

/-!
# The master engine

The repository and the broadcasts as programs: every call of the
repository is a statement that may fail, and what the engine hands to the
hub, and to the certificate reconciler if it has one, is kept in order.

A broadcast looks its object up, appends a log row and hands the notice
to the hub; an object that is not found is passed over in silence. With
no failing statements it is the function `Master.boardcast`, and the
announcement of an object in hand, which is how deletions are announced,
is `Master.announce`.
-/

namespace LunaEdge

open Session List

structure Master where
  repo : Repo
  log : SnapshotLog
  /-- notices handed to the hub, oldest first -/
  boardcasts : List ChangeNotification := []
  /-- host names handed to `Certs.Notify`; `none` when `Certs` is nil -/
  certs : Option (List String) := none

abbrev MasterM : Type → Type := Prog RepoError Master

/-! ## The repository -/

namespace MasterM

def upsertResource {ρ : Type} [Stored ρ] (model : ρ) : MasterM Unit :=
  update fun m => { m with repo := m.repo.upsertResource model }

def deleteResourceByField (ρ : Type) [Stored ρ] (field value : String) : MasterM Unit :=
  statement fun m =>
    (m.repo.deleteResourceByField ρ field value).map fun repo => ((), { m with repo })

def getResourceByField (ρ : Type) [Stored ρ] (field value : String) : MasterM ρ :=
  query fun m => m.repo.getResourceByField ρ field value

def getDomainEntryProjectionByDomain (hostname : String) : MasterM DomainEntryProjection :=
  query fun m => m.repo.getDomainEntryProjectionByDomain hostname

def getDomainEndpointByHostname (hostname : String) : MasterM DomainEndpoint :=
  query fun m => m.repo.getDomainEndpointByHostname hostname

def appendSnapshotRecord (k : SyncKey) (action : SnapshotAction) : MasterM Nat :=
  statement fun m => .ok (m.log.lastID + 1, { m with log := m.log.append k action })

/-! ## The engine -/

def hubBoardcast (notification : ChangeNotification) : MasterM Unit :=
  effect fun m => { m with boardcasts := m.boardcasts ++ [notification] }

def certsNotify (hostname : String) : MasterM Unit :=
  effect fun m => { m with certs := m.certs.map (· ++ [hostname]) }

def boardcastDNSRecord (recordID : String) : MasterM Unit := do
  match ← attempt (getResourceByField DNSRecord "id" recordID) with
  | .error .recordNotFound => pure ()
  | .error e => fail e
  | .ok record =>
    let snapshotAction := if record.deleted then .delete else .upsert
    let snapshotRecordID ← appendSnapshotRecord ⟨.dnsRecord, recordID⟩ snapshotAction
    hubBoardcast { snapshotRecordID, dnsRecord := some record }

def boardcastDomainEndpointProjection (hostname : String) : MasterM Unit := do
  match ← attempt (getDomainEntryProjectionByDomain hostname) with
  | .error .recordNotFound => pure ()
  | .error e => fail e
  | .ok entry =>
    let snapshotAction := if entry.deleted then .delete else .upsert
    let snapshotRecordID ←
      appendSnapshotRecord ⟨.domainEntryProjection, hostname⟩ snapshotAction
    hubBoardcast { snapshotRecordID, domainEntry := some entry }

end MasterM

/-! ## Broadcasts without failures -/

namespace Master

/-- A log row for the object and the notice with its id. -/
def announce (m : Master) (p : Payload) : Master :=
  { m with
    log := m.log.append p.syncKey p.snapshotAction
    boardcasts := m.boardcasts ++ [p.notice (m.log.lastID + 1)] }

def announceAll (m : Master) (ps : List Payload) : Master := ps.foldl announce m

def withCerts (m : Master) (certs : Option (List String)) : Master := { m with certs }

/-- `Certs.Notify`, where there are `Certs` and the host's endpoint needs one. -/
def notifyCerts (m : Master) (hostname : String) : Master :=
  m.withCerts <| m.certs.map fun hosts =>
    match m.repo.domainEndpoints.live? hostname with
    | some domain => if domain.needCert then hosts ++ [hostname] else hosts
    | none => hosts

/-- Announce the object of `k` as the master holds it, if it does. -/
def boardcast (m : Master) (k : SyncKey) : Master := (m.repo.current k).elim m m.announce

@[simp] theorem announceAll_repo (m : Master) (ps : List Payload) :
    (m.announceAll ps).repo = m.repo := by
  induction ps generalizing m with
  | nil => rfl
  | cons p ps ih => exact ih (m.announce p)

theorem announceAll_append (m : Master) (ps qs : List Payload) :
    m.announceAll (ps ++ qs) = (m.announceAll ps).announceAll qs :=
  foldl_append

/-- Broadcasts leave the tables alone, so they announce what is there at
the start. -/
theorem foldl_boardcast (m : Master) (ks : List SyncKey) :
    ks.foldl boardcast m = m.announceAll (ks.filterMap m.repo.current) := by
  induction ks generalizing m with
  | nil => rfl
  | cons k ks ih =>
    rw [foldl_cons, filterMap_cons, boardcast]
    cases m.repo.current k with
    | none => exact ih m
    | some p => exact ih (m.announce p)

theorem announceAll_certs (m : Master) (certs : Option (List String)) (ps : List Payload) :
    (m.withCerts certs).announceAll ps = (m.announceAll ps).withCerts certs := by
  induction ps generalizing m with
  | nil => rfl
  | cons p ps ih => exact ih (m.announce p)

/-- The notices of payloads announced one after another, after id `n`. -/
def notices : Nat → List Payload → List ChangeNotification
  | _, [] => []
  | n, p :: ps => p.notice (n + 1) :: notices (n + 1) ps

theorem notices_append (n : Nat) (ps qs : List Payload) :
    notices n (ps ++ qs) = notices n ps ++ notices (n + ps.length) qs := by
  induction ps generalizing n with
  | nil => rfl
  | cons p ps ih =>
    rw [cons_append, notices, ih, notices, length_cons, Nat.add_assoc n 1,
      Nat.add_comm 1, cons_append]

theorem notices_take (n c : Nat) (ps : List Payload) :
    (notices n ps).take c = notices n (ps.take c) := by
  induction ps generalizing n c with
  | nil => simp [notices]
  | cons p ps ih =>
    cases c with
    | zero => rfl
    | succ c => rw [notices, take_succ_cons, ih, take_succ_cons, notices]

theorem boardcasts_announceAll (m : Master) (ps : List Payload) :
    (m.announceAll ps).boardcasts = m.boardcasts ++ notices m.log.lastID ps := by
  induction ps generalizing m with
  | nil => simp [announceAll, notices]
  | cons p ps ih =>
    have h := ih (m.announce p)
    simp only [announce, SnapshotLog.lastID_append, append_assoc] at h
    exact h

theorem records_announceAll (m : Master) (ps : List Payload) :
    (m.announceAll ps).log.records.map (fun r => (r.syncKey, r.action))
      = m.log.records.map (fun r => (r.syncKey, r.action))
        ++ ps.map fun p => (p.syncKey, p.snapshotAction) := by
  induction ps generalizing m with
  | nil => simp [announceAll]
  | cons p ps ih =>
    have h := ih (m.announce p)
    simp only [announce, SnapshotLog.append, map_append, append_assoc] at h
    exact h

theorem keys_announceAll (m : Master) (ps : List Payload) :
    (m.announceAll ps).log.keys = m.log.keys ++ ps.map Payload.syncKey := by
  have h := congrArg (List.map Prod.fst) (m.records_announceAll ps)
  rw [map_append, map_map, map_map, map_map] at h
  exact h

end Master

namespace MasterM

theorem forM_repo_done {β : Type} {f : β → MasterM PUnit} {g : Repo → β → Repo}
    (h : ∀ b m, Done (f b) m () { m with repo := g m.repo b }) (l : List β) (m : Master) :
    Done (l.forM f) m () { m with repo := l.foldl g m.repo } := by
  induction l generalizing m with
  | nil => exact Done.pure () m
  | cons b l ih =>
    rw [forM_eq_forM, forM_cons, foldl_cons]
    exact (h b m).bind (ih _)

theorem forM_repo_returns {E : RepoError → Prop} {β : Type} {f : β → MasterM PUnit}
    {g : Repo → β → Repo}
    (h : ∀ b m, Returns E (f b) m fun _ t => t = { m with repo := g m.repo b })
    (l : List β) (m : Master) :
    Returns E (l.forM f) m fun _ t => t = { m with repo := l.foldl g m.repo } := by
  induction l generalizing m with
  | nil => exact Returns.pure rfl
  | cons b l ih =>
    rw [forM_eq_forM, forM_cons, foldl_cons]
    refine (h b m).bind fun _ t ht => ?_
    subst ht
    exact ih _

theorem upsertResource_returns {E : RepoError → Prop} {ρ : Type} [Stored ρ] (r : ρ) (m : Master) :
    Returns E (upsertResource r) m fun _ t => t = { m with repo := m.repo.upsertResource r } :=
  Returns.update rfl

theorem boardcastDNSRecord_done (m : Master) (id : String) :
    Done (boardcastDNSRecord id) m () (m.boardcast ⟨.dnsRecord, id⟩) := by
  have hget := m.repo.getResourceByField_dnsRecord id
  rw [Master.boardcast, Repo.current_dnsRecord]
  cases hl : m.repo.dnsRecords.live? id with
  | none =>
    rw [hl] at hget
    exact (Done.attempt_query_error (s := m) hget).bind (Done.pure () m)
  | some r =>
    rw [hl] at hget
    have hid : r.id = id := Table.key_of_live? hl
    refine (Done.query (s := m) hget).attempt.bind ?_
    refine (Done.statement rfl).bind ?_
    rw [← hid]
    exact Done.effect _ _

theorem boardcastDomainEndpointProjection_done (m : Master) (h : String) :
    Done (boardcastDomainEndpointProjection h) m ()
      (m.boardcast ⟨.domainEntryProjection, h⟩) := by
  rw [Master.boardcast, Repo.current_domainEntry]
  cases hp : m.repo.getDomainEntryProjectionByDomain h with
  | error e =>
    obtain ⟨rfl, -⟩ := Repo.getDomainEntryProjectionByDomain_eq_notFound.mp hp
    exact (Done.attempt_query_error (s := m) hp).bind (Done.pure () m)
  | ok p =>
    have hh : p.hostname = h := (Repo.getDomainEntryProjectionByDomain_ok hp).1
    refine (Done.query (s := m) hp).attempt.bind ?_
    refine (Done.statement rfl).bind ?_
    rw [← hh]
    exact Done.effect _ _

end MasterM

end LunaEdge
