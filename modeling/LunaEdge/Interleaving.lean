import LunaEdge.GetSnapshot

/-!
# Two requests at once

Two handlers of the master upsert the same object and announce it. An
announcement is three steps with no lock around them: look the object up,
append the log row, hand the notice to the hub. A connected slave that is
up to date when they start receives both notices in the order of the hub
and runs the loop of `Subscribe`.

The interleaving is a schedule of turns. What a handler's lookup sees,
and the orders of the appends and of the notices, depend on the schedule
alone; `Order` computes them, and `Tracks` says how the states of a run
follow from them. The slave ends with a stale row exactly
when a handler's lookup came before the other's upsert, while its log row
and its notice came after the other's (`interleaved_row_eq_iff`).

The slave's catch-up is one turn. It runs only when the notice with the
second id arrives first; by then both handlers have appended, and neither
the tables nor the log change any more.
-/

namespace LunaEdge

open List

/-! ## The handlers -/

inductive Who where
  | a
  | b
deriving Repr, DecidableEq

namespace Who

def other : Who → Who
  | .a => .b
  | .b => .a

@[simp] theorem other_other (w : Who) : w.other.other = w := by
  cases w <;> rfl

theorem other_ne (w : Who) : w.other ≠ w := by
  cases w <;> decide

theorem eq_other_of_ne {w x : Who} (h : x ≠ w) : x = w.other := by
  cases w <;> cases x <;> first | rfl | exact absurd rfl h

variable {l : List Who}

theorem list_cases (h : l.Nodup) : l = [] ∨ (∃ w, l = [w]) ∨ ∃ w, l = [w, w.other] := by
  match l, h with
  | [], _ => exact .inl rfl
  | [w], _ => exact .inr (.inl ⟨w, rfl⟩)
  | [w, x], h =>
    have hx : x ≠ w := fun hxw => by simp [hxw] at h
    exact .inr (.inr ⟨w, by rw [eq_other_of_ne hx]⟩)
  | w :: x :: y :: l, h =>
    cases w <;> cases x <;> cases y <;> simp at h

theorem eq_singleton {w x : Who} (h : l.Nodup) (hw : w ∈ l) (hx : x ∉ l) : l = [w] := by
  rcases list_cases h with rfl | ⟨v, rfl⟩ | ⟨v, rfl⟩
  · cases hw
  · rw [mem_singleton.mp hw]
  · cases v <;> cases x <;> simp [other] at hx

theorem eq_of_prefix_pair {l' : List Who} {w : Who} (h : l <+: l') (h' : l'.Nodup)
    (hl : l = [w, w.other]) : l' = [w, w.other] := by
  obtain ⟨t, rfl⟩ := h
  rcases list_cases h' with ht | ⟨v, ht⟩ | ⟨v, ht⟩ <;>
    simp_all

theorem eq_pair (h : l.Nodup) (hall : ∀ w, w ∈ l) : ∃ w, l = [w, w.other] := by
  rcases list_cases h with rfl | ⟨v, rfl⟩ | hpair
  · cases hall .a
  · exact absurd (mem_singleton.mp (hall v.other)) v.other_ne
  · exact hpair

theorem mem_pair (w v : Who) : v ∈ [w, w.other] := by
  cases w <;> cases v <;> decide

end Who

inductive Upsert where
  | dnsRecord (record : DNSRecord) (live : record.deleted = false)
  | domainEndpoint (endpoint : DomainEndpoint) (live : endpoint.deleted = false)

namespace Upsert

def key : Upsert → SyncKey
  | .dnsRecord record _ => ⟨.dnsRecord, record.id⟩
  | .domainEndpoint endpoint _ => ⟨.domainEntryProjection, endpoint.hostname⟩

def apply (u : Upsert) (repo : Repo) : Repo :=
  match u with
  | .dnsRecord record _ => repo.upsertResource record
  | .domainEndpoint endpoint _ => repo.upsertResource endpoint

def result (u : Upsert) (repo : Repo) : Option Payload := (u.apply repo).current u.key

theorem exists_result (u : Upsert) (repo : Repo) : ∃ p, u.result repo = some p := by
  cases u with
  | dnsRecord record live =>
    exact ⟨_, Repo.current_upsertResource_dnsRecord repo record live⟩
  | domainEndpoint endpoint live =>
    refine Option.ne_none_iff_exists'.mp fun hnone => ?_
    have hlive := Repo.live?_upsertResource_domainEndpoint repo endpoint live
    have hdead := Repo.current_domainEntry_eq_none_iff.mp hnone
    cases hlive.symm.trans hdead

theorem apply_apply {u w : Upsert} (h : u.key = w.key) (repo : Repo) :
    w.apply (u.apply repo) = w.apply repo := by
  cases u with
  | dnsRecord record live =>
    cases w with
    | domainEndpoint endpoint live' => cases h
    | dnsRecord record' live' =>
      have hid : record.id = record'.id := congrArg SyncKey.syncID h
      exact congrArg (fun t => { repo with dnsRecords := t })
        (Table.upsert_upsert (x := record.withDefaults) (y := record'.withDefaults) hid)
  | domainEndpoint endpoint live =>
    cases w with
    | dnsRecord record live' => cases h
    | domainEndpoint endpoint' live' =>
      have hhost : endpoint.hostname = endpoint'.hostname := congrArg SyncKey.syncID h
      exact congrArg (fun t => { repo with domainEndpoints := t })
        (Table.upsert_upsert (x := endpoint) (y := endpoint') hhost)

end Upsert

inductive Handler where
  | start
  | upserted
  | read (p : Payload)
  | appended (notice : ChangeNotification)
  | done

/-- The master, the notices on their way, and the slave. -/
structure Race where
  repo : Repo
  log : SnapshotLog
  handler : Who → Handler
  queue : List ChangeNotification
  cursor : Nat
  db : LocalDB

inductive Turn where
  | handler (w : Who)
  | slave
deriving Repr, DecidableEq

namespace Race

/-- Before the first turn: the slave waits with the cursor it has stored. -/
def start (repo : Repo) (log : SnapshotLog) (db : LocalDB) : Race :=
  ⟨repo, log, fun _ => .start, [], db.getSnapshotRecordID, db⟩

def goto (s : Race) (w : Who) (h : Handler) : Race :=
  { s with handler := Function.update s.handler w h }

/-- One step of a handler: its upsert, then the steps of
`BoardcastDNSRecord` or `BoardcastDomainEndpointProjection`. -/
def handlerTurn (u : Who → Upsert) (s : Race) (w : Who) : Race :=
  match s.handler w with
  | .start => { s with repo := (u w).apply s.repo }.goto w .upserted
  | .upserted =>
    match s.repo.lookup (u w).key with
    | .error _ => s.goto w .done
    | .ok p => s.goto w (.read p)
  | .read p =>
    { s with log := s.log.append (u w).key p.snapshotAction }.goto w
      (.appended (p.notice (s.log.lastID + 1)))
  | .appended notice => { s with queue := s.queue ++ [notice.viaProto] }.goto w .done
  | .done => s

/-- One round of the loop of `Subscribe`. -/
def slaveTurn (s : Race) : Race :=
  match s.queue with
  | [] => s
  | notice :: rest =>
    if notice.snapshotRecordID ≤ s.cursor then { s with queue := rest }
    else if s.cursor + 1 < notice.snapshotRecordID then
      match catchUpSnapshots s.repo s.log s.cursor s.db with
      | none => s  -- the call always ends with its last chunk
      | some db => { s with queue := rest, db := db, cursor := db.getSnapshotRecordID }
    else
      { s with
        queue := rest
        db := (s.db.applyChangelog notice []).db
        cursor := notice.snapshotRecordID }

def next (u : Who → Upsert) (s : Race) : Turn → Race
  | .handler w => s.handlerTurn u w
  | .slave => s.slaveTurn

def run (u : Who → Upsert) (schedule : List Turn) (s : Race) : Race := schedule.foldl (next u) s

end Race

/-! ## What the schedule fixes -/

/-- Who has upserted, appended and broadcast, in order; whose upsert the
lookup of a handler saw; how many notices the slave has received. -/
structure Order where
  upserts : List Who := []
  saw : Who → Option Who := fun _ => none
  appends : List Who := []
  sends : List Who := []
  received : Nat := 0

namespace Order

def turn (o : Order) (w : Who) : Order :=
  if w ∉ o.upserts then { o with upserts := o.upserts ++ [w] }
  else if o.saw w = none then
    { o with saw := Function.update o.saw w o.upserts.getLast? }
  else if w ∉ o.appends then { o with appends := o.appends ++ [w] }
  else if w ∉ o.sends then { o with sends := o.sends ++ [w] }
  else o

def next (o : Order) : Turn → Order
  | .handler w => o.turn w
  | .slave => if o.received < o.sends.length then { o with received := o.received + 1 } else o

def ofSchedule (schedule : List Turn) : Order := schedule.foldl next {}

/-- The lookup of `w` came before the other's upsert, its log row and its
notice after the other's. -/
def Overtaken (o : Order) (w : Who) : Prop :=
  o.upserts = [w, w.other] ∧ o.saw w = some w ∧ o.appends = [w.other, w] ∧ o.sends = [w.other, w]

instance (o : Order) (w : Who) : Decidable (o.Overtaken w) :=
  inferInstanceAs (Decidable (_ ∧ _ ∧ _ ∧ _))

theorem turn_cases (o : Order) (w : Who) :
    (w ∉ o.upserts ∧ o.turn w = { o with upserts := o.upserts ++ [w] })
    ∨ (w ∈ o.upserts ∧ o.saw w = none
        ∧ o.turn w = { o with saw := Function.update o.saw w o.upserts.getLast? })
    ∨ (∃ x, o.saw w = some x ∧ w ∈ o.upserts ∧ w ∉ o.appends
        ∧ o.turn w = { o with appends := o.appends ++ [w] })
    ∨ (∃ x, o.saw w = some x ∧ w ∈ o.appends ∧ w ∉ o.sends
        ∧ o.turn w = { o with sends := o.sends ++ [w] })
    ∨ (w ∈ o.sends ∧ o.turn w = o) := by
  by_cases hu : w ∈ o.upserts
  · cases hs : o.saw w with
    | none => exact .inr (.inl ⟨hu, rfl, by simp [turn, hu, hs]⟩)
    | some x =>
      by_cases ha : w ∈ o.appends
      · by_cases hd : w ∈ o.sends
        · exact .inr (.inr (.inr (.inr ⟨hd, by simp [turn, hu, hs, ha, hd]⟩)))
        · exact .inr (.inr (.inr (.inl ⟨x, rfl, ha, hd, by simp [turn, hu, hs, ha, hd]⟩)))
      · exact .inr (.inr (.inl ⟨x, rfl, hu, ha, by simp [turn, hu, hs, ha]⟩))
  · exact .inl ⟨hu, by simp [turn, hu]⟩

/-- Nothing of an order is taken back. -/
structure Extends (o o' : Order) : Prop where
  upserts : o.upserts <+: o'.upserts
  saw : ∀ w x, o.saw w = some x → o'.saw w = some x
  appends : o.appends <+: o'.appends
  sends : o.sends <+: o'.sends
  received : o'.received = o.received

theorem extends_turn (o : Order) (w : Who) : o.Extends (o.turn w) := by
  rcases turn_cases o w with ⟨-, ht⟩ | ⟨-, hs, ht⟩ | ⟨x, -, -, -, ht⟩ | ⟨x, -, -, -, ht⟩
    | ⟨-, ht⟩ <;> rw [ht]
  · exact ⟨prefix_append .., fun _ _ h => h, prefix_rfl, prefix_rfl, rfl⟩
  · refine ⟨prefix_rfl, fun v x hv => ?_, prefix_rfl, prefix_rfl, rfl⟩
    have hvw : v ≠ w := fun heq => by rw [← heq, hv] at hs; cases hs
    exact (Function.update_of_ne hvw _ o.saw).trans hv
  · exact ⟨prefix_rfl, fun _ _ h => h, prefix_append .., prefix_rfl, rfl⟩
  · exact ⟨prefix_rfl, fun _ _ h => h, prefix_rfl, prefix_append .., rfl⟩
  · exact ⟨prefix_rfl, fun _ _ h => h, prefix_rfl, prefix_rfl, rfl⟩

/-- What holds of the orders of every schedule. -/
structure Valid (o : Order) : Prop where
  upserts : o.upserts.Nodup
  appends : o.appends.Nodup
  sends : o.sends.Nodup
  saw_mem : ∀ w x, o.saw w = some x → w ∈ o.upserts
  /-- a lookup sees the last upsert, unless the other one comes after it -/
  saw_last : ∀ w x, o.saw w = some x →
    o.upserts.getLast? = some x ∨ (x = w ∧ o.upserts = [w, w.other])
  saw_of_append : ∀ w ∈ o.appends, ∃ x, o.saw w = some x
  append_of_send : ∀ w ∈ o.sends, w ∈ o.appends
  received : o.received ≤ o.sends.length

theorem valid_empty : ({} : Order).Valid := by
  refine ⟨.nil, .nil, .nil, ?_, ?_, ?_, ?_, ?_⟩ <;> simp

theorem nodup_concat {l : List Who} {w : Who} (h : l.Nodup) (hw : w ∉ l) : (l ++ [w]).Nodup :=
  nodup_append.mpr ⟨h, nodup_singleton w, fun x hx y hy => by
    rw [mem_singleton.mp hy]
    exact fun hxw => hw (hxw ▸ hx)⟩

theorem Valid.turn {o : Order} (h : o.Valid) (w : Who) : (o.turn w).Valid := by
  rcases turn_cases o w with ⟨hu, ht⟩ | ⟨hu, hs, ht⟩ | ⟨x, hs, hu, ha, ht⟩
    | ⟨x, hs, ha, hd, ht⟩ | ⟨hd, ht⟩ <;> rw [ht]
  · refine { h with
      upserts := nodup_concat h.upserts hu
      saw_mem := fun v x hv => mem_append_left _ (h.saw_mem v x hv)
      saw_last := fun v x hv => ?_ }
    -- `v` read before this upsert, so it saw its own
    have hv' := h.saw_mem v x hv
    have hone : o.upserts = [v] := Who.eq_singleton h.upserts hv' hu
    have hwv : w = v.other := Who.eq_other_of_ne fun heq => hu (heq ▸ hv')
    rcases h.saw_last v x hv with hlast | ⟨rfl, hpair⟩
    · refine .inr ⟨?_, by rw [hone, hwv]; rfl⟩
      rw [hone] at hlast
      exact (Option.some.inj hlast).symm
    · rw [hone] at hpair
      cases hpair
  · refine { h with
      saw_mem := fun v x (hv : Function.update o.saw w o.upserts.getLast? v = some x) => ?_
      saw_last := fun v x (hv : Function.update o.saw w o.upserts.getLast? v = some x) => ?_
      saw_of_append := fun v hv => ?_ }
    · by_cases hvw : v = w
      · exact hvw ▸ hu
      · exact h.saw_mem v x (by rwa [Function.update_of_ne hvw] at hv)
    · by_cases hvw : v = w
      · subst hvw
        rw [Function.update_self] at hv
        exact .inl hv
      · exact h.saw_last v x (by rwa [Function.update_of_ne hvw] at hv)
    · obtain ⟨x, hx⟩ := h.saw_of_append v hv
      exact ⟨x, ht ▸ (extends_turn o w).saw v x hx⟩
  · refine { h with
      appends := nodup_concat h.appends ha
      saw_of_append := fun v hv => ?_
      append_of_send := fun v hv => mem_append_left _ (h.append_of_send v hv) }
    rcases mem_append.mp hv with hv | hv
    · exact h.saw_of_append v hv
    · exact ⟨x, by rw [mem_singleton.mp hv, hs]⟩
  · refine { h with
      sends := nodup_concat h.sends hd
      append_of_send := fun v hv => ?_
      received := Nat.le_trans h.received (by simp) }
    rcases mem_append.mp hv with hv | hv
    · exact h.append_of_send v hv
    · rw [mem_singleton.mp hv]
      exact ha
  · exact h

theorem Valid.next {o : Order} (h : o.Valid) (t : Turn) : (o.next t).Valid := by
  cases t with
  | handler w => exact h.turn w
  | slave =>
    rw [Order.next]
    split
    · rename_i hlt
      exact { h with received := hlt }
    · exact h

end Order

/-! ## The states of a run -/

section Tracks

variable (u : Who → Upsert) (repo : Repo) (log : SnapshotLog) (K : SyncKey)

def Looked (o : Order) (w : Who) (p : Payload) : Prop :=
  ∃ x, o.saw w = some x ∧ (u x).result repo = some p

/-- The notice of `w`, with the id of its log row. -/
def NoticeOf (o : Order) (w : Who) (c : ChangeNotification) : Prop :=
  w ∈ o.appends ∧ ∃ p, Looked u repo o w p ∧ c = p.notice (log.lastID + 1 + o.appends.idxOf w)

inductive HandlerOK (o : Order) (w : Who) : Handler → Prop
  | start (hu : w ∉ o.upserts) : HandlerOK o w .start
  | upserted (hu : w ∈ o.upserts) (hs : o.saw w = none) : HandlerOK o w .upserted
  | read {p : Payload} (hp : Looked u repo o w p) (ha : w ∉ o.appends) :
      HandlerOK o w (.read p)
  | appended {c : ChangeNotification} (hc : NoticeOf u repo log o w c)
      (hd : w ∉ o.sends) : HandlerOK o w (.appended c)
  | done (hd : w ∈ o.sends) : HandlerOK o w .done

/-- The slave's progress: nothing received, the first row's notice, both
in the order of the rows, or caught up over a gap. -/
inductive Progress (o : Order) (cursor : Nat) (db : LocalDB) : Prop
  | waiting (hr : o.received = 0) (hc : cursor = log.lastID)
      (hdb : db.getSnapshotRecordID = log.lastID)
  | first {w : Who} (hr : o.received = 1) (ha : o.appends.head? = some w)
      (hs : o.sends.head? = some w) (hc : cursor = log.lastID + 1)
      (hdb : db.getSnapshotRecordID = log.lastID + 1)
  | both {w : Who} {p : Payload} (hr : o.received = 2) (ha : o.appends = [w, w.other])
      (hs : o.sends = [w, w.other]) (hp : Looked u repo o w.other p)
      (hrow : db.row K = some p.viaProto)
  | caughtUp {w x : Who} (hr : 1 ≤ o.received) (ha : o.appends = [w, w.other])
      (hs : o.sends.head? = some w.other) (hx : o.upserts.getLast? = some x)
      (hc : cursor = log.lastID + 2)
      (hrow : db.row K = ((u x).result repo).map Payload.viaProto)

structure Tracks (o : Order) (s : Race) : Prop where
  valid : o.Valid
  tables : s.repo = o.upserts.getLast?.elim repo fun x => (u x).apply repo
  records : s.log = o.appends.foldl (fun l _ => l.append K .upsert) log
  handlers : ∀ w, HandlerOK u repo log o w (s.handler w)
  queue : List.Forall₂ (fun w c => ∃ c', NoticeOf u repo log o w c' ∧ c = c'.viaProto)
    (o.sends.drop o.received) s.queue
  slave : Progress u repo log K o s.cursor s.db

variable {u repo log K} {o o' : Order} {s : Race}

variable {w : Who} {p : Payload} {h : Handler}

theorem Looked.mono (hext : o.Extends o') (h : Looked u repo o w p) : Looked u repo o' w p := by
  obtain ⟨x, hx, hp⟩ := h
  exact ⟨x, hext.saw w x hx, hp⟩

theorem NoticeOf.mono {c : ChangeNotification} (hext : o.Extends o') (h : NoticeOf u repo log o w c) :
    NoticeOf u repo log o' w c := by
  obtain ⟨hw, p, hp, rfl⟩ := h
  obtain ⟨t, ht⟩ := hext.appends
  refine ⟨ht ▸ mem_append_left t hw, p, hp.mono hext, ?_⟩
  rw [← ht, idxOf_append_of_mem hw]

theorem upserts_of_appends (h : o.Valid) (ha : o.appends = [w, w.other]) :
    ∃ v, o.upserts = [v, v.other] := by
  refine Who.eq_pair h.upserts fun v => ?_
  obtain ⟨x, hx⟩ := h.saw_of_append v (ha ▸ Who.mem_pair w v)
  exact h.saw_mem v x hx

theorem Progress.mono {cursor : Nat} {db : LocalDB} (hext : o.Extends o') (hval : o.Valid)
    (hval' : o'.Valid) (h : Progress u repo log K o cursor db) :
    Progress u repo log K o' cursor db := by
  have hhead : ∀ {l l' : List Who} {w : Who}, l <+: l' → l.head? = some w →
      l'.head? = some w := by
    rintro l l' w ⟨t, rfl⟩ hw
    rw [List.head?_append, hw]
    rfl
  cases h with
  | waiting hr hc hdb => exact .waiting (hext.received.trans hr) hc hdb
  | first hr ha hs hc hdb =>
    exact .first (hext.received.trans hr) (hhead hext.appends ha)
      (hhead hext.sends hs) hc hdb
  | both hr ha hs hp hrow =>
    exact .both (hext.received.trans hr)
      (Who.eq_of_prefix_pair hext.appends hval'.appends ha)
      (Who.eq_of_prefix_pair hext.sends hval'.sends hs) (hp.mono hext) hrow
  | caughtUp hr ha hs hx hc hrow =>
    obtain ⟨v, hv⟩ := upserts_of_appends hval ha
    have hv' := Who.eq_of_prefix_pair hext.upserts hval'.upserts hv
    exact .caughtUp (hext.received ▸ hr)
      (Who.eq_of_prefix_pair hext.appends hval'.appends ha) (hhead hext.sends hs)
      (by rw [hv', ← hv, hx]) hc hrow

/-! ### A handler's turn -/

theorem HandlerOK.turn_of_ne {v : Who} (hvw : v ≠ w) (hok : HandlerOK u repo log o v h) :
    HandlerOK u repo log (o.turn w) v h := by
  have hext := o.extends_turn w
  have hmem : (v ∈ (o.turn w).upserts ↔ v ∈ o.upserts)
      ∧ (o.turn w).saw v = o.saw v ∧ (v ∈ (o.turn w).appends ↔ v ∈ o.appends)
      ∧ (v ∈ (o.turn w).sends ↔ v ∈ o.sends) := by
    rcases Order.turn_cases o w with ⟨-, ht⟩ | ⟨-, -, ht⟩ | ⟨x, -, -, -, ht⟩
      | ⟨x, -, -, -, ht⟩ | ⟨-, ht⟩ <;> rw [ht] <;> simp [hvw]
  obtain ⟨hu, hs, ha, hd⟩ := hmem
  cases hok with
  | start h => exact .start (mt hu.mp h)
  | upserted h h' => exact .upserted (hu.mpr h) (hs.trans h')
  | read hp h => exact .read (hp.mono hext) (mt ha.mp h)
  | appended hc h => exact .appended (hc.mono hext) (mt hd.mp h)
  | done h => exact .done (hd.mpr h)

theorem Tracks.handlers_goto (ht : Tracks u repo log K o s)
    (hok : HandlerOK u repo log (o.turn w) w h) (v : Who) :
    HandlerOK u repo log (o.turn w) v (Function.update s.handler w h v) := by
  by_cases hvw : v = w
  · subst hvw
    rw [Function.update_self]
    exact hok
  · rw [Function.update_of_ne hvw]
    exact (ht.handlers v).turn_of_ne hvw

theorem Tracks.queue_mono (ht : Tracks u repo log K o s) (hext : o.Extends o')
    (hsends : o'.sends = o.sends) :
    List.Forall₂ (fun w c => ∃ c', NoticeOf u repo log o' w c' ∧ c = c'.viaProto)
      (o'.sends.drop o'.received) s.queue := by
  rw [hsends, hext.received]
  exact ht.queue.imp fun w c ⟨c', hc', hc⟩ => ⟨c', hc'.mono hext, hc⟩

theorem Tracks.lastID (ht : Tracks u repo log K o s) :
    s.log.lastID = log.lastID + o.appends.length := by
  rw [ht.records]
  induction o.appends using List.reverseRecOn with
  | nil => rfl
  | append_singleton l w ih => simp [ih]; omega

variable (hkey : ∀ w, (u w).key = K)

include hkey in
theorem getLast?_elim_apply (l : List Who) (w : Who) :
    (u w).apply (l.getLast?.elim repo fun x => (u x).apply repo) = (u w).apply repo := by
  cases l.getLast? with
  | none => rfl
  | some x => exact Upsert.apply_apply ((hkey x).trans (hkey w).symm) repo

section HandlerTurn

variable {w : Who} (ht : Tracks u repo log K o s)
include ht

include hkey in
theorem Tracks.upsert (hh : s.handler w = .start) :
    Tracks u repo log K (o.turn w) (s.handlerTurn u w) := by
  have hok := ht.handlers w
  rw [hh] at hok
  cases hok with | start hu => ?_
  have hext := o.extends_turn w
  have hval := ht.valid.turn w
  have hturn : o.turn w = { o with upserts := o.upserts ++ [w] } := by
    simp [Order.turn, hu]
  have hs : o.saw w = none := by
    cases hs : o.saw w with
    | none => rfl
    | some x => exact absurd (ht.valid.saw_mem w x hs) hu
  have hstep : s.handlerTurn u w = { s with repo := (u w).apply s.repo }.goto w .upserted := by
    simp [Race.handlerTurn, hh]
  rw [hstep]
  refine ⟨hval, ?_, ?_, ht.handlers_goto ?_, ht.queue_mono hext (by rw [hturn]),
    ht.slave.mono hext ht.valid hval⟩
  · rw [hturn]
    simp only [Race.goto, ht.tables, getLast?_elim_apply hkey, List.getLast?_append,
      List.getLast?_singleton, Option.some_or, Option.elim_some]
  · rw [hturn]
    exact ht.records
  · rw [hturn]
    exact .upserted (by simp) hs

include hkey in
theorem Tracks.lookup (hh : s.handler w = .upserted) :
    Tracks u repo log K (o.turn w) (s.handlerTurn u w) := by
  have hok := ht.handlers w
  rw [hh] at hok
  cases hok with | upserted hu hs => ?_
  have hext := o.extends_turn w
  have hval := ht.valid.turn w
  have hturn : o.turn w = { o with saw := Function.update o.saw w o.upserts.getLast? } := by
    simp [Order.turn, hu, hs]
  obtain ⟨x, hx⟩ : ∃ x, o.upserts.getLast? = some x :=
    ⟨_, List.getLast?_eq_some_getLast (ne_nil_of_mem hu)⟩
  obtain ⟨p, hp⟩ := (u x).exists_result repo
  have hlook : s.repo.lookup (u w).key = .ok p := by
    rw [Repo.lookup_eq, ht.tables, hx, hkey w, ← hkey x]
    exact congrArg orNotFound hp
  have hstep : s.handlerTurn u w = s.goto w (.read p) := by
    simp [Race.handlerTurn, hh, hlook]
  have ha : w ∉ o.appends := fun ha => by
    obtain ⟨y, hy⟩ := ht.valid.saw_of_append w ha
    rw [hs] at hy
    cases hy
  rw [hstep]
  refine ⟨hval, ?_, ?_, ht.handlers_goto ?_, ht.queue_mono hext (by rw [hturn]),
    ht.slave.mono hext ht.valid hval⟩
  · rw [hturn]; exact ht.tables
  · rw [hturn]; exact ht.records
  · rw [hturn]
    exact .read ⟨x, by simp [hx], hp⟩ ha

include hkey in
theorem Tracks.append {p : Payload} (hh : s.handler w = .read p) :
    Tracks u repo log K (o.turn w) (s.handlerTurn u w) := by
  have hok := ht.handlers w
  rw [hh] at hok
  cases hok with | read hp ha => ?_
  obtain ⟨x, hx, hres⟩ := hp
  have hext := o.extends_turn w
  have hval := ht.valid.turn w
  have hturn : o.turn w = { o with appends := o.appends ++ [w] } := by
    simp [Order.turn, ht.valid.saw_mem w x hx, hx, ha]
  have hact : p.snapshotAction = .upsert := by
    simp [Payload.snapshotAction, (Repo.current_spec hres).2]
  have hstep : s.handlerTurn u w
      = { s with log := s.log.append K .upsert }.goto w
          (.appended (p.notice (s.log.lastID + 1))) := by
    simp [Race.handlerTurn, hh, hact, hkey w]
  have hd : w ∉ o.sends := fun hd => ha (ht.valid.append_of_send w hd)
  rw [hstep]
  refine ⟨hval, ?_, ?_, ht.handlers_goto ?_, ht.queue_mono hext (by rw [hturn]),
    ht.slave.mono hext ht.valid hval⟩
  · rw [hturn]; exact ht.tables
  · rw [hturn]
    simp only [Race.goto, ht.records, foldl_append, foldl_cons, foldl_nil]
  · rw [hturn]
    refine .appended ⟨by simp, p, ⟨x, hx, hres⟩, ?_⟩ hd
    rw [ht.lastID, idxOf_append_of_notMem ha]
    simp [Nat.add_right_comm]

theorem Tracks.send {c : ChangeNotification} (hh : s.handler w = .appended c) :
    Tracks u repo log K (o.turn w) (s.handlerTurn u w) := by
  have hok := ht.handlers w
  rw [hh] at hok
  cases hok with | appended hc hd => ?_
  obtain ⟨x, hx⟩ := ht.valid.saw_of_append w hc.1
  have hext := o.extends_turn w
  have hval := ht.valid.turn w
  have hturn : o.turn w = { o with sends := o.sends ++ [w] } := by
    simp [Order.turn, ht.valid.saw_mem w x hx, hx, hc.1, hd]
  have hstep : s.handlerTurn u w = { s with queue := s.queue ++ [c.viaProto] }.goto w .done := by
    simp [Race.handlerTurn, hh]
  rw [hstep]
  refine ⟨hval, ?_, ?_, ht.handlers_goto ?_, ?_, ht.slave.mono hext ht.valid hval⟩
  · rw [hturn]; exact ht.tables
  · rw [hturn]; exact ht.records
  · rw [hturn]
    exact .done (by simp)
  · rw [hturn]
    show List.Forall₂ _ ((o.sends ++ [w]).drop o.received) (s.queue ++ [c.viaProto])
    rw [drop_append_of_le_length ht.valid.received]
    exact rel_append ht.queue (.cons ⟨c, hc, rfl⟩ .nil)

include hkey in
theorem Tracks.handlerTurn :
    Tracks u repo log K (o.turn w) (s.handlerTurn u w) := by
  cases hh : s.handler w with
  | start => exact ht.upsert hkey hh
  | upserted => exact ht.lookup hkey hh
  | read p => exact ht.append hkey hh
  | appended c => exact ht.send hh
  | done =>
    have hok := ht.handlers w
    rw [hh] at hok
    cases hok with | done hd => ?_
    have ha := ht.valid.append_of_send w hd
    obtain ⟨x, hx⟩ := ht.valid.saw_of_append w ha
    have hturn : o.turn w = o := by
      simp [Order.turn, ht.valid.saw_mem w x hx, hx, ha, hd]
    have hstep : s.handlerTurn u w = s := by
      simp [Race.handlerTurn, hh]
    rw [hturn, hstep]
    exact ht

end HandlerTurn

/-! ### The slave's turn -/

theorem row_applyPayload_self {repo : Repo} (h : repo.current K = some p) (n : Nat) (db : LocalDB) :
    (db.applyPayload n p.viaProto).row K = some p.viaProto := by
  obtain ⟨hkey, hdel⟩ := Repo.current_spec h
  rw [LocalDB.row_applyPayload, Payload.syncKey_viaProto, hkey, Function.update_self]
  simp [Payload.cell, hdel]

/-- Two rows of one object, caught up on: a single chunk with the object
twice. -/
theorem catchUpSnapshots_twice {repo : Repo} (h : repo.current K = some p) (log : SnapshotLog)
    (db : LocalDB) :
    catchUpSnapshots repo ((log.append K .upsert).append K .upsert) log.lastID db
      = some ((db.applyPayload (log.lastID + 2) p.viaProto).applyPayload
          (log.lastID + 2) p.viaProto) := by
  have hlook : repo.lookup K = .ok p := by
    rw [Repo.lookup_eq, h]
    rfl
  have hafter : ((log.append K .upsert).append K .upsert).after log.lastID
      = [⟨log.lastID + 1, K.syncType, K.syncID, .upsert⟩,
          ⟨log.lastID + 2, K.syncType, K.syncID, .upsert⟩] := by
    rw [SnapshotLog.after_eq_drop]
    simp [SnapshotLog.append, SnapshotLog.lastID]
  have hkey : ∀ id, SnapshotRecord.syncKey ⟨id, K.syncType, K.syncID, .upsert⟩ = K :=
    fun _ => rfl
  rw [catchUpSnapshots, handleGetSnapshot, hafter]
  simp only [SnapshotJob.run, hkey, hlook]
  cases p <;>
    simp [SnapshotJob.visit, SnapshotJob.add, SnapshotJob.sendChunk, SnapshotJob.chunk,
      applyChunks, LocalDB.applySnapshot_nil, Snapshot.payloads] <;> rfl

theorem idxOf_cases (hval : o.Valid) (hw : w ∈ o.appends) :
    (o.appends.head? = some w ∧ o.appends.idxOf w = 0)
      ∨ (o.appends = [w.other, w] ∧ o.appends.idxOf w = 1) := by
  rcases Who.list_cases hval.appends with ha | ⟨v, ha⟩ | ⟨v, ha⟩ <;> rw [ha] at hw ⊢
  · cases hw
  · obtain rfl := mem_singleton.mp hw
    simp
  · cases v <;> cases w <;> simp [Who.other]

section Notice

variable {p : Payload} {n : Nat} {rest : List ChangeNotification}

theorem Race.slaveTurn_old (hq : s.queue = (p.notice n).viaProto :: rest) (hn : n ≤ s.cursor) :
    s.slaveTurn = { s with queue := rest } := by
  simp [Race.slaveTurn, hq, hn]

theorem Race.slaveTurn_next (hq : s.queue = (p.notice (n + 1)).viaProto :: rest)
    (hcur : s.cursor = n) (hdb : s.db.getSnapshotRecordID = n) :
    s.slaveTurn = { s with
      queue := rest, cursor := n + 1, db := s.db.applyPayload (n + 1) p.viaProto } := by
  simp [Race.slaveTurn, hq, hcur, LocalDB.applyChangelog_notice hdb]

theorem Race.slaveTurn_gap {db : LocalDB} (hq : s.queue = (p.notice n).viaProto :: rest)
    (hn : s.cursor + 1 < n) (hdb : catchUpSnapshots s.repo s.log s.cursor s.db = some db) :
    s.slaveTurn = { s with queue := rest, db := db, cursor := db.getSnapshotRecordID } := by
  have hold : ¬ n ≤ s.cursor := by omega
  simp only [Race.slaveTurn, hq, Payload.notice_viaProto, Payload.notice_snapshotRecordID,
    if_neg hold, if_pos hn, hdb]

end Notice

/-- What a received notice leaves: the slave's progress, and the rest of the
state as it was. -/
def Received (u : Who → Upsert) (repo : Repo) (log : SnapshotLog) (K : SyncKey) (o : Order)
    (s : Race) (rest : List ChangeNotification) : Prop :=
  Progress u repo log K { o with received := o.received + 1 } s.slaveTurn.cursor s.slaveTurn.db
    ∧ s.slaveTurn = { s with
        queue := rest, cursor := s.slaveTurn.cursor, db := s.slaveTurn.db }

/-- The second row's notice comes first: both handlers have appended, and
the slave catches up on both rows at once. -/
theorem Tracks.receive_gap (hkey : ∀ w, (u w).key = K) (ht : Tracks u repo log K o s)
    {rest : List ChangeNotification} (hq : s.queue = (p.notice (log.lastID + 2)).viaProto :: rest)
    (hcur : s.cursor = log.lastID) (hdb : s.db.getSnapshotRecordID = log.lastID)
    (ha : o.appends = [w.other, w]) (hhead : o.sends.head? = some w) :
    Received u repo log K o s rest := by
  have ha' : o.appends = [w.other, w.other.other] := by rw [ha, Who.other_other]
  obtain ⟨v, hv⟩ := upserts_of_appends ht.valid ha'
  have hlast : o.upserts.getLast? = some v.other := by rw [hv]; rfl
  obtain ⟨q, hq'⟩ := (u v.other).exists_result repo
  have hrepo : s.repo.current K = some q := by
    rw [ht.tables, hlast, ← hkey v.other]
    exact hq'
  have hlog : s.log = (log.append K .upsert).append K .upsert := by
    rw [ht.records, ha]
    rfl
  have hcatch := catchUpSnapshots_twice hrepo log s.db
  rw [← hlog, ← hcur] at hcatch
  rw [Received, Race.slaveTurn_gap hq (by omega) hcatch]
  refine ⟨.caughtUp (by simp) ha' (by rw [Who.other_other]; exact hhead) hlast ?_ ?_, rfl⟩
  · simp only [LocalDB.getSnapshotRecordID_applyPayload, hdb, hcur]
    omega
  · rw [row_applyPayload_self hrepo, hq']
    rfl

/-- What the slave does with a notice, by its id and the slave's progress. -/
theorem Tracks.slave_receive (hkey : ∀ w, (u w).key = K) (ht : Tracks u repo log K o s)
    {ws : List Who} {c : ChangeNotification} {rest : List ChangeNotification}
    (hq : s.queue = c.viaProto :: rest) (hs : o.sends.drop o.received = w :: ws)
    (hc : NoticeOf u repo log o w c) : Received u repo log K o s rest := by
  obtain ⟨hw, p, ⟨x, hx, hp⟩, rfl⟩ := hc
  have hcur : ((u x).apply repo).current K = some p := by rw [← hkey x]; exact hp
  cases ht.slave with
  | waiting hr hcur' hdb =>
    have hhead : o.sends.head? = some w := by
      rw [hr, drop_zero] at hs
      rw [hs]
      rfl
    rcases idxOf_cases ht.valid hw with ⟨ha, hidx⟩ | ⟨ha, hidx⟩
    · rw [hidx] at hq
      rw [Received, Race.slaveTurn_next hq hcur' hdb]
      exact ⟨.first (by simp [hr]) ha hhead rfl
        (LocalDB.getSnapshotRecordID_applyPayload_succ hdb _), rfl⟩
    · rw [hidx] at hq
      exact ht.receive_gap hkey hq hcur' hdb ha hhead
  | first hr ha hfirst hcur' hdb =>
    rename_i v
    obtain ⟨hsends, hwv⟩ : o.sends = [v, v.other] ∧ w = v.other := by
      rw [hr] at hs
      rcases Who.list_cases ht.valid.sends with h | ⟨y, h⟩ | ⟨y, h⟩ <;>
        rw [h] at hs hfirst
      · cases hs
      · cases hs
      · cases hfirst
        cases hs
        exact ⟨h, rfl⟩
    subst hwv
    rcases idxOf_cases ht.valid hw with ⟨ha', hidx⟩ | ⟨ha', hidx⟩
    · rw [ha] at ha'
      exact absurd (Option.some.inj ha').symm v.other_ne
    · rw [hidx] at hq
      rw [Received, Race.slaveTurn_next hq hcur' hdb]
      rw [Who.other_other] at ha'
      exact ⟨.both (by simp [hr]) ha' hsends ⟨x, hx, hp⟩ (row_applyPayload_self hcur _ _), rfl⟩
  | both hr ha hs' hp hrow =>
    rw [hr, hs'] at hs
    cases hs
  | caughtUp hr ha hfirst hlast hcur' hrow =>
    have hidx : o.appends.idxOf w < 2 := by
      rw [← show o.appends.length = 2 by rw [ha]; rfl]
      exact idxOf_lt_length_of_mem hw
    rw [Received, Race.slaveTurn_old hq (by omega)]
    exact ⟨.caughtUp (by simp) ha hfirst hlast hcur' hrow, rfl⟩

theorem HandlerOK.receive {n : Nat} (hok : HandlerOK u repo log o w h) :
    HandlerOK u repo log { o with received := n } w h := by
  cases hok with
  | start hu => exact .start hu
  | upserted hu hs => exact .upserted hu hs
  | read hp ha => exact .read hp ha
  | appended hc hd => exact .appended hc hd
  | done hd => exact .done hd

theorem Tracks.slaveTurn (hkey : ∀ w, (u w).key = K) (ht : Tracks u repo log K o s) :
    Tracks u repo log K (o.next .slave) s.slaveTurn := by
  cases hq : s.queue with
  | nil =>
    have hdrop : o.sends.drop o.received = [] := by
      have := ht.queue
      rw [hq] at this
      exact forall₂_nil_right_iff.mp this
    have hnext : o.next .slave = o := by
      rw [Order.next, if_neg (by rw [drop_eq_nil_iff] at hdrop; omega)]
    have hstep : s.slaveTurn = s := by simp [Race.slaveTurn, hq]
    rw [hnext, hstep]
    exact ht
  | cons c rest =>
    have hqueue := ht.queue
    rw [hq] at hqueue
    obtain ⟨w, ws, ⟨c', hc', rfl⟩, hrest, hs⟩ := forall₂_cons_right_iff.mp hqueue
    have hlt : o.received < o.sends.length := by
      have hlen := congrArg List.length hs
      rw [length_drop, length_cons] at hlen
      omega
    have hnext : o.next .slave = { o with received := o.received + 1 } := by
      rw [Order.next, if_pos hlt]
    obtain ⟨hslave, hstep⟩ := ht.slave_receive hkey hq hs hc'
    have hval := ht.valid.next .slave
    rw [hnext] at hval ⊢
    rw [hstep]
    refine ⟨hval, ht.tables, ht.records, fun v => ?_, ?_, hslave⟩
    · exact (ht.handlers v).receive
    · have htail : o.sends.drop (o.received + 1) = ws := by
        rw [← tail_drop, hs, tail_cons]
      show List.Forall₂ _ (o.sends.drop (o.received + 1)) rest
      rw [htail]
      exact hrest

theorem Tracks.start (u : Who → Upsert) {db : LocalDB} (hdb : db.getSnapshotRecordID = log.lastID) :
    Tracks u repo log K {} (Race.start repo log db) :=
  ⟨Order.valid_empty, rfl, rfl, fun _ => .start (by simp), .nil, .waiting rfl hdb hdb⟩

theorem Tracks.run (hkey : ∀ w, (u w).key = K) (schedule : List Turn)
    (ht : Tracks u repo log K o s) :
    Tracks u repo log K (schedule.foldl Order.next o) (s.run u schedule) := by
  induction schedule generalizing o s with
  | nil => exact ht
  | cons t schedule ih =>
    cases t with
    | handler w => exact ih (ht.handlerTurn hkey)
    | slave => exact ih (ht.slaveTurn hkey)

theorem Tracks.mem_sends (ht : Tracks u repo log K o s) (hdone : s.handler w = .done) :
    w ∈ o.sends := by
  have hok := ht.handlers w
  rw [hdone] at hok
  cases hok with | done hd => exact hd

theorem Tracks.received_of_drained (ht : Tracks u repo log K o s) (hq : s.queue = []) :
    o.received = o.sends.length := by
  have hqueue := ht.queue
  rw [hq, forall₂_nil_right_iff, drop_eq_nil_iff] at hqueue
  exact Nat.le_antisymm ht.valid.received hqueue

/-- At the end the slave has the row of the last upsert, or that of an
overtaken handler. -/
theorem Tracks.final (hkey : ∀ w, (u w).key = K) (ht : Tracks u repo log K o s)
    (hdone : ∀ w, s.handler w = .done) (hq : s.queue = []) :
    ∃ x y, s.db.row K = ((u x).result repo).map Payload.viaProto
      ∧ s.repo.current K = (u y).result repo
      ∧ ((x = y ∧ ∀ w, ¬ o.Overtaken w) ∨ (x = y.other ∧ o.Overtaken x)) := by
  have hsends : ∀ w, w ∈ o.sends := fun w => ht.mem_sends (hdone w)
  have hreceived := ht.received_of_drained hq
  obtain ⟨v, hv⟩ := Who.eq_pair ht.valid.sends hsends
  rw [hv] at hreceived
  obtain ⟨z, hz⟩ := Who.eq_pair ht.valid.appends fun w =>
    ht.valid.append_of_send w (hsends w)
  obtain ⟨y, hy⟩ := upserts_of_appends ht.valid hz
  have hlast : o.upserts.getLast? = some y.other := by rw [hy]; rfl
  have hfinal : s.repo.current K = (u y.other).result repo := by
    rw [ht.tables, hlast, ← hkey y.other]
    rfl
  cases ht.slave with
  | waiting hr _ _ => rw [hr] at hreceived; cases hreceived
  | first hr _ _ _ _ => rw [hr] at hreceived; cases hreceived
  | @caughtUp w x hr ha hfirst hx hc hrow =>
    rw [hlast] at hx
    cases hx
    refine ⟨y.other, y.other, hrow, hfinal, .inl ⟨rfl, ?_⟩⟩
    -- the notices came in the order opposite to the rows
    rintro v ⟨-, -, hav, hsv⟩
    rw [hsv, List.head?_cons] at hfirst
    rw [hav] at ha
    have hw : v.other = w := (List.cons.inj ha).1
    rw [hw] at hfirst
    exact w.other_ne (Option.some.inj hfirst).symm
  | @both w p hr ha hs hp hrow =>
    obtain ⟨x, hx, hres⟩ := hp
    refine ⟨x, y.other, by rw [hrow, hres]; rfl, hfinal, ?_⟩
    rcases ht.valid.saw_last w.other x hx with hx' | ⟨rfl, hups⟩
    · -- the second row was read after both upserts
      rw [hlast] at hx'
      cases hx'
      refine .inl ⟨rfl, ?_⟩
      rintro v ⟨huv, hsaw, hav, -⟩
      rw [hav] at ha
      have hv : v = w.other := (List.cons.inj (List.cons.inj ha).2).1
      rw [← hv, hsaw] at hx
      rw [hy] at huv
      have hyv : y = v := (List.cons.inj huv).1
      rw [← hyv] at hx
      exact y.other_ne (Option.some.inj hx).symm
    · have hyw : y = w.other := by
        rw [hy] at hups
        exact (List.cons.inj hups).1
      refine .inr ⟨by rw [hyw, Who.other_other], ?_⟩
      rw [Who.other_other] at hups
      refine ⟨?_, hx, ?_, ?_⟩ <;> rw [Who.other_other] <;> assumption

end Tracks

/-! ## Lost updates -/

theorem Order.Overtaken.unique {o : Order} {w x : Who} (hw : o.Overtaken w)
    (hx : o.Overtaken x) : w = x := by
  have h := hw.1
  rw [hx.1] at h
  exact (List.cons.inj h).1.symm

/-- When both handlers are done and the slave has received both notices,
its row is the master's, except that an overtaken handler leaves its own
row there. -/
theorem interleaved_row_eq_iff (u : Who → Upsert) (hkey : (u .a).key = (u .b).key)
    (repo : Repo) (log : SnapshotLog) (db : LocalDB)
    (hdb : db.getSnapshotRecordID = log.lastID) (schedule : List Turn) {s : Race}
    (hs : s = (Race.start repo log db).run u schedule)
    (hdone : ∀ w, s.handler w = .done) (hq : s.queue = []) :
    s.db.row (u .a).key = (s.repo.current (u .a).key).map Payload.viaProto
      ↔ ¬ ∃ w, (Order.ofSchedule schedule).Overtaken w
          ∧ ((u w).result repo).map Payload.viaProto
            ≠ ((u w.other).result repo).map Payload.viaProto := by
  have hkeys : ∀ w, (u w).key = (u .a).key := fun w => by
    cases w with
    | a => rfl
    | b => exact hkey.symm
  have ht : Tracks u repo log (u .a).key (Order.ofSchedule schedule) s :=
    hs ▸ (Tracks.start u hdb).run hkeys schedule
  obtain ⟨x, y, hrow, hfinal, ⟨rfl, hnone⟩ | ⟨rfl, hover⟩⟩ := ht.final hkeys hdone hq
  · rw [hrow, hfinal]
    exact iff_of_true rfl fun ⟨w, hw, _⟩ => hnone w hw
  · rw [hrow, hfinal]
    constructor
    · rintro heq ⟨w, hw, hne⟩
      rw [hw.unique hover, Who.other_other] at hne
      exact hne heq
    · intro h
      by_contra hne
      exact h ⟨y.other, hover, by rwa [Who.other_other]⟩

def raceRecords (w : Who) : Upsert :=
  .dnsRecord
    { id := "r1", fqdn := "a.example", recordType := "A",
      valuesJSON := if w = .a then "192.0.2.1" else "192.0.2.2" } rfl

/-- One request after the other: the slave ends with the second one's row. -/
theorem interleaved_row_eq_iff_serial :
    ∃ s, s = (Race.start .empty .empty .empty).run raceRecords
        [.handler .a, .handler .a, .handler .a, .handler .a, .slave,
          .handler .b, .handler .b, .handler .b, .handler .b, .slave]
      ∧ s.db.row ⟨.dnsRecord, "r1"⟩ = (s.repo.current ⟨.dnsRecord, "r1"⟩).map Payload.viaProto := by
  refine ⟨_, rfl, (interleaved_row_eq_iff raceRecords rfl .empty .empty .empty rfl _ rfl
    (fun w => ?_) rfl).mpr ?_⟩
  · cases w <;> rfl
  · rintro ⟨w, hw, -⟩
    revert hw
    cases w <;> decide

/-- `a` looks the record up before `b` writes it, and appends and
broadcasts after `b`: the slave ends with the row of `a`, the master with
that of `b`. -/
theorem interleaved_update_lost :
    ∃ s, s = (Race.start .empty .empty .empty).run raceRecords
        [.handler .a, .handler .a, .handler .b, .handler .b, .handler .b, .handler .b,
          .handler .a, .handler .a, .slave, .slave]
      ∧ (∀ w, s.handler w = .done) ∧ s.queue = []
      ∧ s.db.row ⟨.dnsRecord, "r1"⟩ ≠ (s.repo.current ⟨.dnsRecord, "r1"⟩).map Payload.viaProto := by
  refine ⟨_, rfl, fun w => ?_, rfl, by decide⟩
  cases w <;> rfl

end LunaEdge
