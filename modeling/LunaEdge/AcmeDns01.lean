import LunaEdge.Acme
import LunaEdge.Manage

/-!
# The DNS-01 challenge

The service answers a DNS-01 challenge by writing a TXT record and
calling its notifier with the host name, and takes the record back the
same way. The notifier is wired to the broadcast of the host's domain
entry, so it is the entry that enters the log, if there is one: the TXT
record is written to the tables and never announced. This holds whatever
else goes on meanwhile, other broadcasts of the host included
(`challenge_never_published`).

The call and the other broadcasts are interleaved step by step: the
write, and the three steps of a broadcast. Run alone, the steps of the
call are the program (`alone_done`).
-/

namespace LunaEdge

open Session

namespace Acme

/-- The name and the text of a challenge, from `dns01.GetChallengeInfo`. -/
structure ChallengeInfo where
  effectiveFQDN : String
  value : String

/-- `masterChallengeProvider`, with the libraries it calls. -/
structure ChallengeProvider where
  cfg : Config
  domain : DomainEndpoint
  getChallengeInfo : String → String → ChallengeInfo
  marshal : List String → String

inductive Challenge where
  | present (domain token keyAuth : String)
  | cleanup (token : String)

namespace ChallengeProvider

variable (p : ChallengeProvider)

def dns01RecordID (token : String) : String := "acme-dns01-" ++ p.domain.hostname ++ "-" ++ token

def dns01Record (domain token keyAuth : String) : DNSRecord :=
  let info := p.getChallengeInfo domain keyAuth
  { id := p.dns01RecordID token
    fqdn := info.effectiveFQDN
    recordType := "TXT"
    ttlSeconds := p.cfg.dns01TTL
    valuesJSON := p.marshal [info.value]
    routingClass := "first"
    enabled := true }

def notifier (hostname : String) : MasterM Unit :=
  MasterM.boardcastDomainEndpointProjection hostname

def presentDNS01 (domain token keyAuth : String) : MasterM Unit := do
  MasterM.upsertResource (p.dns01Record domain token keyAuth)
  notifier p.domain.hostname

def cleanupDNS01 (token : String) : MasterM Unit := do
  MasterM.deleteResourceByField DNSRecord "id" (p.dns01RecordID token)
  notifier p.domain.hostname

def program : Challenge → MasterM Unit
  | .present domain token keyAuth => p.presentDNS01 domain token keyAuth
  | .cleanup token => p.cleanupDNS01 token

def recordID : Challenge → String
  | .present _ token _ => p.dns01RecordID token
  | .cleanup token => p.dns01RecordID token

def write (repo : Repo) : Challenge → Repo
  | .present domain token keyAuth => repo.upsertResource (p.dns01Record domain token keyAuth)
  | .cleanup token => repo.retire DNSRecord (p.dns01RecordID token)

end ChallengeProvider

/-! ## Step by step -/

inductive Broadcast where
  | lookup
  | append (entry : DomainEntryProjection)
  | hub (notification : ChangeNotification)
  | returned (err : Option RepoError)

def Broadcast.step (hostname : String) (m : Master) (fault : Option RepoError) :
    Broadcast → Master × Broadcast
  | .lookup =>
    match fault.elim (m.repo.getDomainEntryProjectionByDomain hostname) .error with
    | .error .recordNotFound => (m, .returned none)
    | .error e => (m, .returned (some e))
    | .ok entry => (m, .append entry)
  | .append entry =>
    match fault with
    | some e => (m, .returned (some e))
    | none =>
      let action := if entry.deleted then .delete else .upsert
      ({ m with log := m.log.append ⟨.domainEntryProjection, hostname⟩ action },
        .hub { snapshotRecordID := m.log.lastID + 1, domainEntry := some entry })
  | .hub notification => ({ m with boardcasts := m.boardcasts ++ [notification] }, .returned none)
  | .returned err => (m, .returned err)

/-- The master, the call, which has yet to write at first, and the other
broadcasts of the host. -/
structure Scene where
  master : Master
  call : Option Broadcast
  others : List Broadcast

inductive Move where
  | call (fault : Option RepoError)
  | other (i : Nat) (fault : Option RepoError)
  | spawn
  | write (repo : Repo)

def Scene.start (m : Master) : Scene := ⟨m, none, []⟩

def Scene.move (p : ChallengeProvider) (c : Challenge) (s : Scene) : Move → Scene
  | .call fault =>
    match s.call with
    | none =>
      match fault with
      | some e => { s with call := some (.returned (some e)) }
      | none =>
        { s with master := { s.master with repo := p.write s.master.repo c }, call := some .lookup }
    | some b =>
      { s with
        master := (b.step p.domain.hostname s.master fault).1
        call := some (b.step p.domain.hostname s.master fault).2 }
  | .other i fault =>
    match s.others[i]? with
    | none => s
    | some b =>
      { s with
        master := (b.step p.domain.hostname s.master fault).1
        others := s.others.set i (b.step p.domain.hostname s.master fault).2 }
  | .spawn => { s with others := s.others ++ [.lookup] }
  | .write repo => { s with master := { s.master with repo := repo } }

/-! ## What enters the log -/

/-- Since `m` only rows of domain entries were appended. -/
def OnlyEntries (m m' : Master) : Prop :=
  ∃ new, m'.log.records = m.log.records ++ new ∧ ∀ r ∈ new, r.syncType = .domainEntryProjection

variable {m' m : Master}

theorem OnlyEntries.of_log {m'' : Master} (h : OnlyEntries m m') (hlog : m''.log = m'.log) :
    OnlyEntries m m'' := by
  unfold OnlyEntries
  rw [hlog]
  exact h

theorem OnlyEntries.append {m'' : Master} (h : OnlyEntries m m') {hostname : String}
    {action : SnapshotAction}
    (hlog : m''.log = m'.log.append ⟨.domainEntryProjection, hostname⟩ action) :
    OnlyEntries m m'' := by
  obtain ⟨new, hrecords, hnew⟩ := h
  refine ⟨new ++ [⟨m'.log.lastID + 1, .domainEntryProjection, hostname, action⟩], ?_, ?_⟩
  · rw [hlog, ← List.append_assoc, ← hrecords]
    rfl
  · intro r hr
    rcases List.mem_append.mp hr with hr | hr
    · exact hnew r hr
    · rw [List.mem_singleton.mp hr]

theorem OnlyEntries.broadcast (h : OnlyEntries m m') (hostname : String) (fault : Option RepoError)
    (b : Broadcast) : OnlyEntries m (b.step hostname m' fault).1 := by
  cases b with
  | lookup =>
    unfold Broadcast.step
    dsimp only
    split
    · exact h
    · exact h
    · exact h
  | append entry =>
    cases fault with
    | some e => exact h
    | none => exact h.append rfl
  | hub notification => exact h.of_log rfl
  | returned err => exact h

theorem OnlyEntries.move {p : ChallengeProvider} {c : Challenge} {s : Scene}
    (h : OnlyEntries m s.master) (e : Move) : OnlyEntries m (s.move p c e).master := by
  cases e with
  | call fault =>
    unfold Scene.move
    cases s.call with
    | none =>
      cases fault with
      | some e => exact h
      | none => exact h.of_log rfl
    | some b => exact h.broadcast p.domain.hostname fault b
  | other i fault =>
    unfold Scene.move
    dsimp only
    cases s.others[i]? with
    | none => exact h
    | some b => exact h.broadcast p.domain.hostname fault b
  | spawn => exact h
  | write repo => exact h.of_log rfl

/-- Since `m` a row of the challenge's record was appended; for a cleanup,
one that deletes it. -/
def Published (p : ChallengeProvider) (c : Challenge) (m m' : Master) : Prop :=
  ∃ r ∈ m'.log.records.drop m.log.records.length,
    r.syncType = .dnsRecord ∧ r.syncID = p.recordID c
      ∧ match c with
        | .present .. => True
        | .cleanup _ => r.action = .delete

theorem not_published_of_onlyEntries {p : ChallengeProvider} {c : Challenge} (h : OnlyEntries m m') :
    ¬ Published p c m m' := by
  obtain ⟨new, hrecords, hnew⟩ := h
  rintro ⟨r, hr, htype, -⟩
  rw [hrecords, List.drop_left] at hr
  rw [hnew r hr] at htype
  cases htype

def alone : List Move := [.call none, .call none, .call none, .call none]

/-- Run alone, the steps of the call are the program, which returns. -/
theorem alone_done (p : ChallengeProvider) (c : Challenge) (m : Master) :
    ∃ m', Done (p.program c) m () m'
      ∧ alone.foldl (Scene.move p c) (Scene.start m) = ⟨m', some (.returned none), []⟩ := by
  have hwrite : ∀ m', Done (ChallengeProvider.notifier p.domain.hostname)
      { m with repo := p.write m.repo c } () m' → Done (p.program c) m () m' := by
    intro m' hnotify
    cases c with
    | present domain token keyAuth => exact (MasterM.upsertResource_done m _).bind hnotify
    | cleanup token =>
      exact (MasterM.deleteResourceByField_done DNSRecord m rfl _).bind hnotify
  have hbroadcast := MasterM.boardcastDomainEndpointProjection_done
    { m with repo := p.write m.repo c } p.domain.hostname
  refine ⟨_, hwrite _ hbroadcast, ?_⟩
  rw [Master.boardcast, Repo.current_domainEntry]
  simp only [alone, List.foldl_cons, List.foldl_nil, Scene.move, Scene.start, Broadcast.step,
    Option.elim_none]
  cases hp : (p.write m.repo c).getDomainEntryProjectionByDomain p.domain.hostname with
  | error e =>
    obtain ⟨rfl, -⟩ := Repo.getDomainEntryProjectionByDomain_eq_notFound.mp hp
    rfl
  | ok entry =>
    have hh := (Repo.getDomainEntryProjectionByDomain_ok hp).1
    rw [← hh]
    rfl

/-- The call returns when nothing fails; and in no interleaving with
other broadcasts of the host and writes to the tables in which it returns
without an error has the record been announced. -/
theorem challenge_never_published (p : ChallengeProvider) (c : Challenge) (m : Master) :
    (∃ m', Done (p.program c) m () m'
        ∧ alone.foldl (Scene.move p c) (Scene.start m) = ⟨m', some (.returned none), []⟩)
      ∧ ∀ moves : List Move,
          (moves.foldl (Scene.move p c) (Scene.start m)).call = some (.returned none) →
          ¬ Published p c m (moves.foldl (Scene.move p c) (Scene.start m)).master := by
  refine ⟨alone_done p c m, ?_⟩
  intro moves _
  apply not_published_of_onlyEntries
  refine Runs.invariant (I := fun s : Scene => OnlyEntries m s.master) ?_ moves ?_
  · intro s e hs
    exact hs.move e
  · exact ⟨[], (List.append_nil _).symm, fun r hr => by cases hr⟩

def exampleProvider : ChallengeProvider where
  cfg := {}
  domain := { hostname := "edge.test", needCert := true }
  getChallengeInfo domain keyAuth := ⟨"_acme-challenge." ++ domain ++ ".", keyAuth⟩
  marshal := String.intercalate ","

def exampleChallenge : Challenge := .present "edge.test" "token" "auth"

def exampleMaster : Master := ⟨exampleRepo, .empty, [], none⟩

def examplePresented : Scene :=
  alone.foldl (Scene.move exampleProvider exampleChallenge) (Scene.start exampleMaster)

theorem challenge_never_published_present :
    ¬ Published exampleProvider exampleChallenge exampleMaster examplePresented.master :=
  (challenge_never_published exampleProvider exampleChallenge exampleMaster).2 alone (by
    obtain ⟨m', -, halone⟩ := alone_done exampleProvider exampleChallenge exampleMaster
    rw [halone])

/-- The TXT record is live, and the log has one row, for the entry of the
host. -/
theorem presented_record_unpublished :
    (examplePresented.master.repo.dnsRecords.live? "acme-dns01-edge.test-token").isSome = true
      ∧ examplePresented.master.log.keys = [⟨.domainEntryProjection, "edge.test"⟩]
      ∧ ¬ Published exampleProvider exampleChallenge exampleMaster examplePresented.master := by
  have hkeys : examplePresented.master.log.keys = [⟨.domainEntryProjection, "edge.test"⟩] := by
    decide +kernel
  refine ⟨by decide +kernel, hkeys, ?_⟩
  rintro ⟨r, hr, htype, -⟩
  have hkey : r.syncKey ∈ examplePresented.master.log.keys :=
    List.mem_map_of_mem (List.mem_of_mem_drop hr)
  rw [hkeys, List.mem_singleton] at hkey
  have htype' : r.syncType = .domainEntryProjection := congrArg SyncKey.syncType hkey
  rw [htype'] at htype
  cases htype

end Acme

end LunaEdge
