import LunaEdge.LocalStore

/-!
# The cursor and its data

`ApplySnapshot` and `ApplyChangelog` with failing statements. A
transaction issues a data statement and a cursor statement for each
object, looks at the errors of neither, and commits. So the rows become
those of the objects whose data statement succeeded
(`row_writeItems`), while one cursor statement that succeeds is enough to
move the cursor (`getSnapshotRecordID_writeItems`).

`MovesWithData` is what a slave needs: with the cursor at the id of a
call everything the call carries is in the tables, and otherwise they are
as they were. `movesWithData_iff` says for which calls and failures it
holds.
-/

namespace LunaEdge

open CursorLog

/-! ## One transaction -/

def nextFails (faults : List Bool) : Bool := faults.headD false

theorem Tx.exec_eq (tx : Tx) (statement : LocalDB → LocalDB) :
    tx.exec statement = (!nextFails tx.faults,
      { tx with
        db := if nextFails tx.faults then tx.db else statement tx.db
        faults := tx.faults.tail }) := by
  obtain ⟨db, ch, faults⟩ := tx
  rcases faults with _ | ⟨_ | _, faults⟩ <;> rfl

/-- The objects whose data statement succeeds. Two statements are issued
for each object, the data statement first. -/
def written : List Payload → List Bool → List Payload
  | [], _ => []
  | p :: ps, faults =>
    (if nextFails faults then [] else [p]) ++ written ps faults.tail.tail

def cursorRows (n : Nat) : List Payload → List Bool → List SyncStateRow
  | [], _ => []
  | p :: ps, faults =>
    (if nextFails faults.tail then [] else [p.syncState n])
      ++ cursorRows n ps faults.tail.tail

def faultsAfter : List Payload → List Bool → List Bool
  | [], faults => faults
  | _ :: ps, faults => faultsAfter ps faults.tail.tail

theorem Payload.cells_append (ps qs : List Payload) :
    Payload.cells (ps ++ qs) = Payload.cells ps ++ Payload.cells qs := List.map_append

namespace LocalDB

def writeItems (n : Nat) : List Payload → List Bool → LocalDB → LocalDB
  | [], _, db => db
  | p :: ps, faults, db =>
    let db := if nextFails faults then db else db.put p
    let db := if nextFails faults.tail then db else db.upsertSyncState (p.syncState n)
    writeItems n ps faults.tail.tail db

theorem row_writeItems (n : Nat) (ps : List Payload) (faults : List Bool) (db : LocalDB) :
    (writeItems n ps faults db).row = overlay db.row (Payload.cells (written ps faults)) := by
  induction ps generalizing faults db with
  | nil => rfl
  | cons p ps ih =>
    rw [writeItems, ih, written, Payload.cells_append, overlay_append]
    congr 1
    rw [apply_ite row, row_upsertSyncState, ite_self]
    split
    · rfl
    · exact row_put db p

theorem syncState_put (db : LocalDB) (p : Payload) : (db.put p).syncState = db.syncState := by
  cases p <;> simp only [put] <;> split <;> rfl

theorem syncState_writeItems (n : Nat) (ps : List Payload) (faults : List Bool) (db : LocalDB) :
    (writeItems n ps faults db).syncState
      = (cursorRows n ps faults).foldl Table.upsert db.syncState := by
  induction ps generalizing faults db with
  | nil => rfl
  | cons p ps ih =>
    rw [writeItems, ih, cursorRows, List.foldl_append]
    have hdata : (if nextFails faults then db else db.put p).syncState = db.syncState := by
      split
      · rfl
      · exact syncState_put db p
    split
    · rw [hdata]
      rfl
    · rw [upsertSyncState, hdata]
      rfl

theorem getSnapshotRecordID_writeItems (n : Nat) (ps : List Payload) (faults : List Bool)
    (db : LocalDB) :
    (writeItems n ps faults db).getSnapshotRecordID
      = if cursorRows n ps faults = [] then db.getSnapshotRecordID
        else max db.getSnapshotRecordID n := by
  induction ps generalizing faults db with
  | nil => rfl
  | cons p ps ih =>
    rw [writeItems, ih, cursorRows]
    have hdata : (if nextFails faults then db else db.put p).getSnapshotRecordID
        = db.getSnapshotRecordID := by
      split
      · rfl
      · exact getSnapshotRecordID_put db p
    have hrow : (p.syncState n).snapshotRecordID = n := by cases p <;> rfl
    cases nextFails faults.tail with
    | true => simp [hdata]
    | false => simp [getSnapshotRecordID_upsertSyncState, hdata, hrow]

end LocalDB

namespace Tx

theorem applyDNSRecord_db_faults (n : Nat) (tx : Tx) (r : DNSRecord) (ps : List Payload) :
    LocalDB.writeItems n ps (tx.applyDNSRecord n r).faults (tx.applyDNSRecord n r).db
        = LocalDB.writeItems n (.dnsRecord r :: ps) tx.faults tx.db
      ∧ (tx.applyDNSRecord n r).faults = tx.faults.tail.tail := by
  obtain ⟨db, ch, faults⟩ := tx
  cases hd : r.deleted <;> cases hf : nextFails faults <;>
    simp [applyDNSRecord, dealDNSRecords, updateSnapshotRecordID, exec_eq, LocalDB.writeItems,
      LocalDB.put, Payload.syncState, hd, hf]

theorem applyDomainEntry_db_faults (n : Nat) (tx : Tx) (e : DomainEntryProjection)
    (ps : List Payload) :
    LocalDB.writeItems n ps (tx.applyDomainEntry n e).faults (tx.applyDomainEntry n e).db
        = LocalDB.writeItems n (.domainEntry e :: ps) tx.faults tx.db
      ∧ (tx.applyDomainEntry n e).faults = tx.faults.tail.tail := by
  obtain ⟨db, ch, faults⟩ := tx
  cases hd : e.deleted <;> cases hf : nextFails faults <;>
    simp [applyDomainEntry, dealDomainEntries, updateSnapshotRecordID, exec_eq,
      LocalDB.writeItems, LocalDB.put, Payload.syncState, hd, hf]

theorem foldl_applyDNSRecord (n : Nat) (rs : List DNSRecord) (tx : Tx) (ps : List Payload) :
    LocalDB.writeItems n ps (rs.foldl (applyDNSRecord n) tx).faults
          (rs.foldl (applyDNSRecord n) tx).db
        = LocalDB.writeItems n (rs.map .dnsRecord ++ ps) tx.faults tx.db
      ∧ (rs.foldl (applyDNSRecord n) tx).faults = faultsAfter (rs.map .dnsRecord) tx.faults := by
  induction rs generalizing tx with
  | nil => exact ⟨rfl, rfl⟩
  | cons r rs ih =>
    obtain ⟨hdb, hfaults⟩ := ih (tx.applyDNSRecord n r)
    obtain ⟨hstep, hstepFaults⟩ := applyDNSRecord_db_faults n tx r (rs.map .dnsRecord ++ ps)
    refine ⟨hdb.trans hstep, ?_⟩
    rw [List.foldl_cons, hfaults, hstepFaults]
    rfl

theorem foldl_applyDomainEntry (n : Nat) (es : List DomainEntryProjection) (tx : Tx) :
    (es.foldl (applyDomainEntry n) tx).db
        = LocalDB.writeItems n (es.map .domainEntry) tx.faults tx.db
      ∧ (es.foldl (applyDomainEntry n) tx).faults
        = faultsAfter (es.map .domainEntry) tx.faults := by
  induction es generalizing tx with
  | nil => exact ⟨rfl, rfl⟩
  | cons e es ih =>
    obtain ⟨hdb, hfaults⟩ := ih (tx.applyDomainEntry n e)
    obtain ⟨hstep, hstepFaults⟩ := applyDomainEntry_db_faults n tx e (es.map .domainEntry)
    refine ⟨hdb.trans hstep, ?_⟩
    rw [List.foldl_cons, hfaults, hstepFaults]
    rfl

end Tx

theorem faultsAfter_append (ps qs : List Payload) (faults : List Bool) :
    faultsAfter (ps ++ qs) faults = faultsAfter qs (faultsAfter ps faults) := by
  induction ps generalizing faults with
  | nil => rfl
  | cons p ps ih => exact ih _

/-- `BEGIN` and `COMMIT` succeed, with the statements of the objects between. -/
def commits (ps : List Payload) (faults : List Bool) : Bool :=
  !nextFails faults && !nextFails (faultsAfter ps faults.tail)

theorem LocalDB.transaction_db (db : LocalDB) (faults : List Bool) (body : Tx → Tx) :
    (db.transaction faults body).db
      = if nextFails faults || nextFails (body ⟨db, [], faults.tail⟩).faults then db
        else (body ⟨db, [], faults.tail⟩).db := by
  rw [transaction, Tx.exec_eq]
  cases hbegin : nextFails faults with
  | true => rfl
  | false =>
    simp only [Bool.false_eq_true, if_false, id_eq, Bool.not_false, Tx.exec_eq, Bool.false_or]
    cases nextFails (body ⟨db, [], faults.tail⟩).faults <;> simp

theorem LocalDB.transaction_items (db : LocalDB) (n : Nat) (rs : List DNSRecord)
    (es : List DomainEntryProjection) (faults : List Bool) :
    (db.transaction faults fun tx =>
        es.foldl (Tx.applyDomainEntry n) (rs.foldl (Tx.applyDNSRecord n) tx)).db
      = if commits (rs.map .dnsRecord ++ es.map .domainEntry) faults then
          db.writeItems n (rs.map .dnsRecord ++ es.map .domainEntry) faults.tail
        else db := by
  have hrs := Tx.foldl_applyDNSRecord n rs ⟨db, [], faults.tail⟩ (es.map .domainEntry)
  have hes := Tx.foldl_applyDomainEntry n es (rs.foldl (Tx.applyDNSRecord n) ⟨db, [], faults.tail⟩)
  rw [hrs.1, hrs.2, ← faultsAfter_append] at hes
  rw [transaction_db, hes.1, hes.2, commits]
  cases nextFails faults <;>
    cases nextFails (faultsAfter (rs.map .dnsRecord ++ es.map .domainEntry) faults.tail) <;> rfl

/-! ## The two calls -/

inductive ApplyCall where
  | snapshot (s : Snapshot)
  | changelog (c : ChangeNotification)

namespace ApplyCall

def snapshotRecordID : ApplyCall → Nat
  | .snapshot s => s.snapshotRecordID
  | .changelog c => c.snapshotRecordID

def payloads : ApplyCall → List Payload
  | .snapshot s => s.payloads
  | .changelog c => c.payloads

/-- The call with the faults of its transaction. `ApplyChangelog` reads
the cursor before it opens one. -/
def apply (db : LocalDB) : ApplyCall → List Bool → Applied
  | .snapshot s, faults => db.applySnapshot s faults
  | .changelog c, faults => db.applyChangelog c (false :: faults)

/-- A notice is applied at the next id only. -/
def inOrder (db : LocalDB) : ApplyCall → Bool
  | .snapshot _ => true
  | .changelog c => c.snapshotRecordID = db.getSnapshotRecordID + 1

theorem apply_db (db : LocalDB) (call : ApplyCall) (faults : List Bool) :
    (call.apply db faults).db
      = if call.inOrder db && commits call.payloads faults then
          db.writeItems call.snapshotRecordID call.payloads faults.tail
        else db := by
  cases call with
  | snapshot s =>
    exact LocalDB.transaction_items db s.snapshotRecordID s.dnsRecords s.domainEntries faults
  | changelog c =>
    have hcall : (changelog c).apply db faults
        = if c.snapshotRecordID ≤ db.getSnapshotRecordID then ⟨db, [], none⟩
          else if db.getSnapshotRecordID + 1 < c.snapshotRecordID then
            ⟨db, [], some .snapshotOutOfOrder⟩
          else db.transaction faults fun tx =>
            c.domainEntry.toList.foldl (Tx.applyDomainEntry c.snapshotRecordID)
              (c.dnsRecord.toList.foldl (Tx.applyDNSRecord c.snapshotRecordID) tx) := rfl
    have hpayloads : (changelog c).payloads = c.dnsRecord.toList.map .dnsRecord
        ++ c.domainEntry.toList.map .domainEntry := LocalDB.payloads_toList c
    cases hin : (changelog c).inOrder db with
    | true =>
      have hid : c.snapshotRecordID = db.getSnapshotRecordID + 1 := of_decide_eq_true hin
      rw [hcall, if_neg (by omega), if_neg (by omega), hpayloads, Bool.true_and]
      exact LocalDB.transaction_items ..
    | false =>
      have hid : c.snapshotRecordID ≠ db.getSnapshotRecordID + 1 := of_decide_eq_false hin
      rw [hcall, Bool.false_and, if_neg Bool.false_ne_true]
      split_ifs
      · rfl
      · rfl
      · omega

end ApplyCall

/-! ## Moving with the data -/

/-- With the cursor at `n`, the rows are those of everything carried;
otherwise no table has changed. -/
structure MovesWithData (n : Nat) (ps : List Payload) (db db' : LocalDB) : Prop where
  moved : db'.getSnapshotRecordID = n → db'.row = overlay db.row (Payload.cells ps)
  held : db'.getSnapshotRecordID ≠ n →
    db'.row = db.row ∧ db'.syncState.Same db.syncState

/-- The objects written leave the same rows as all that are carried: where
the last object of a key was not written, the one written before it, or
the row, says the same. -/
def SameRows (rows : SyncKey → Option Payload) (ps qs : List Payload) : Prop :=
  ∀ k, overlay rows (Payload.cells ps) k = overlay rows (Payload.cells qs) k

/-- When a call moves the cursor with its data, in terms of the state
before it and of the statements that fail. -/
def ApplyCall.Safe (db : LocalDB) (call : ApplyCall) (faults : List Bool) : Prop :=
  let n := call.snapshotRecordID
  if call.inOrder db && commits call.payloads faults then
    if db.getSnapshotRecordID = n
        ∨ (db.getSnapshotRecordID < n ∧ cursorRows n call.payloads faults.tail ≠ []) then
      SameRows db.row (written call.payloads faults.tail) call.payloads
    else
      SameRows db.row (written call.payloads faults.tail) []
        ∧ ((cursorRows n call.payloads faults.tail).foldl Table.upsert db.syncState).Same
            db.syncState
  else db.getSnapshotRecordID = n → SameRows db.row [] call.payloads

theorem cursor_writeItems_eq_iff (n : Nat) (ps : List Payload) (faults : List Bool) (db : LocalDB) :
    (db.writeItems n ps faults).getSnapshotRecordID = n
      ↔ db.getSnapshotRecordID = n
        ∨ (db.getSnapshotRecordID < n ∧ cursorRows n ps faults ≠ []) := by
  rw [LocalDB.getSnapshotRecordID_writeItems]
  split_ifs with hnil
  · simp [hnil]
  · simp only [hnil, ne_eq, not_false_eq_true, and_true]
    omega

/-- A call moves the cursor with its data exactly if it is `Safe`. -/
theorem movesWithData_iff (db : LocalDB) (call : ApplyCall) (faults : List Bool) :
    MovesWithData call.snapshotRecordID call.payloads db (call.apply db faults).db
      ↔ call.Safe db faults := by
  rw [ApplyCall.apply_db, ApplyCall.Safe]
  by_cases hcommit : (call.inOrder db && commits call.payloads faults) = true
  · rw [if_pos hcommit, if_pos hcommit]
    have hcursor := cursor_writeItems_eq_iff call.snapshotRecordID call.payloads faults.tail db
    split_ifs with hat
    · constructor
      · intro h k
        rw [← h.moved (hcursor.mpr hat), LocalDB.row_writeItems]
      · intro h
        refine ⟨fun _ => ?_, fun hne => absurd (hcursor.mpr hat) hne⟩
        rw [LocalDB.row_writeItems]
        exact funext h
    · constructor
      · intro h
        obtain ⟨hrow, hsync⟩ := h.held (fun heq => hat (hcursor.mp heq))
        rw [LocalDB.row_writeItems] at hrow
        rw [LocalDB.syncState_writeItems] at hsync
        exact ⟨congrFun hrow, hsync⟩
      · rintro ⟨hrow, hsync⟩
        refine ⟨fun heq => absurd (hcursor.mp heq) hat, fun _ => ?_⟩
        rw [LocalDB.row_writeItems, LocalDB.syncState_writeItems]
        exact ⟨funext hrow, hsync⟩
  · rw [if_neg hcommit, if_neg hcommit]
    constructor
    · intro h hat k
      rw [← h.moved hat]
      rfl
    · intro h
      exact ⟨fun hat => funext (h hat), fun _ => ⟨rfl, fun _ => rfl⟩⟩

def oneRecordNotice : ChangeNotification :=
  { snapshotRecordID := 1, dnsRecord := some { id := "www" } }

/-- The data statement of the record fails and the cursor statement does
not: the call returns nil, the cursor is 1 and the record is not there. -/
theorem cursor_passes_failed_row :
    ((ApplyCall.changelog oneRecordNotice).apply .empty [false, true]).err = none
      ∧ ((ApplyCall.changelog oneRecordNotice).apply .empty [false, true]).db.getSnapshotRecordID
        = 1
      ∧ ((ApplyCall.changelog oneRecordNotice).apply .empty [false, true]).db.row
          ⟨.dnsRecord, "www"⟩ = none
      ∧ ¬ MovesWithData 1 oneRecordNotice.payloads .empty
          ((ApplyCall.changelog oneRecordNotice).apply .empty [false, true]).db := by
  have hcursor : ((ApplyCall.changelog oneRecordNotice).apply .empty
      [false, true]).db.getSnapshotRecordID = 1 := by decide +kernel
  have hrow : ((ApplyCall.changelog oneRecordNotice).apply .empty [false, true]).db.row
      ⟨.dnsRecord, "www"⟩ = none := by decide +kernel
  refine ⟨by decide +kernel, hcursor, hrow, fun h => ?_⟩
  have hmoved := congrFun (h.moved hcursor) ⟨.dnsRecord, "www"⟩
  rw [hrow] at hmoved
  revert hmoved
  decide +kernel

end LunaEdge
