import LunaEdge.HubHeap

/-!
# What a subscription gets

Since the hub refines a list of independent queues, what a subscription
received and can still receive is read off the events alone: the notices
offered to it while it was open, in their order, without those that came
when its buffer was full (`hub_runs`).

At the end the hub whose maps hold channel values (`Hub`) is shown to have
the same entries.
-/

namespace LunaEdge

open List

/-! ## Delivery -/

namespace Subscription

/-- What the consumer has received and what it can still receive. -/
def contents (s : Subscription) : List ChangeNotification := s.received ++ s.chan.buffer

/-- The notice that an event offers to an open subscription. -/
def offered? (s : Subscription) (e : HubEvent) : Option ChangeNotification :=
  if s.closed then none else e.notice? s.nodeID

def Full (s : Subscription) : Prop := s.chan.buffer.length = s.chan.cap

variable {e : HubEvent} {s : Subscription}

theorem contents_of_made? {id : Nat} (h : made? id e = some s) : s.contents = [] := by
  cases e with
  | subscribe nodeID buffer =>
    obtain rfl := Option.some.inj h
    rfl
  | _ => cases h

theorem contents_receive (s : Subscription) : s.receive.contents = s.contents := by
  show (s.received ++ s.chan.buffer.head?.toList) ++ s.chan.buffer.tail = _
  rw [contents, append_assoc]
  cases s.chan.buffer <;> rfl

theorem contents_handle_of_none (h : s.offered? e = none) (ref : Nat) :
    (s.handle ref e).contents = s.contents := by
  cases e with
  | subscribe nodeID buffer => rfl
  | unsubscribe nodeID id =>
    simp only [handle]
    split <;> rfl
  | publish nodeID notification =>
    rw [handle, if_neg]
    rintro ⟨hnode, hclosed⟩
    simp [offered?, HubEvent.notice?, hnode, hclosed] at h
  | boardcast notification =>
    rw [handle, if_neg]
    intro hclosed
    simp [offered?, HubEvent.notice?, hclosed] at h
  | receive ref' =>
    simp only [handle]
    split
    · exact s.contents_receive
    · rfl

theorem handle_of_offered {notification : ChangeNotification} (h : s.offered? e = some notification)
    (ref : Nat) : s.handle ref e = s.offer notification := by
  have hclosed : s.closed = false := by
    by_contra hc
    simp [offered?, hc] at h
  simp only [offered?, hclosed, Bool.false_eq_true, if_false] at h
  cases e with
  | publish nodeID c =>
    simp only [HubEvent.notice?] at h
    split at h
    · rename_i hnode
      rw [handle, if_pos ⟨hnode, hclosed⟩, Option.some.inj h]
    · cases h
  | boardcast c =>
    rw [handle, if_pos hclosed, Option.some.inj h]
  | _ => cases h

theorem contents_offer (s : Subscription) (notification : ChangeNotification) :
    (¬ s.Full ∧ (s.offer notification).contents = s.contents ++ [notification])
      ∨ (s.Full ∧ (s.offer notification).contents = s.contents) := by
  have hcap := s.chan.hcap
  by_cases hroom : s.chan.buffer.length < s.chan.cap
  · refine Or.inl ⟨hroom.ne, ?_⟩
    rw [contents, contents, append_assoc]
    exact congrArg _ (NoticeChan.trySend_buffer_of_lt hroom)
  · refine Or.inr ⟨by rw [Full]; omega, ?_⟩
    rw [contents, offer, NoticeChan.trySend_of_full hroom]
    rfl

end Subscription

/-- The notice that the event at a position offers to a subscription. -/
def offerAt (events : List HubEvent) (ref i : Nat) : Option ChangeNotification :=
  (subscriptions (events.take i))[ref]?.bind fun s => events[i]?.bind s.offered?

/-- All notices offered to a subscription while it is open, with the
positions of their events. -/
def offers (events : List HubEvent) (ref : Nat) : List (Nat × ChangeNotification) :=
  (List.range events.length).filterMap fun i => (offerAt events ref i).map (i, ·)

/-- The subscription held `buffer` notices when the event at this position
came. -/
def FullAt (events : List HubEvent) (ref i : Nat) : Prop :=
  ∃ s ∈ (subscriptions (events.take i))[ref]?, s.Full

/-- What a subscription got is what it was offered, without some notices
that found it full. -/
def Subscription.Delivered (events : List HubEvent) (ref : Nat) (s : Subscription) : Prop :=
  ∃ kept : Nat → Bool,
    s.contents = ((offers events ref).filter fun o => kept o.1).map (·.2)
      ∧ ∀ o ∈ offers events ref, kept o.1 = false → FullAt events ref o.1

section Concat

variable {events : List HubEvent} {e : HubEvent} {ref : Nat}

theorem subscriptions_concat :
    subscriptions (events ++ [e]) = Subscription.after (subscriptions events) e := by
  rw [subscriptions, foldl_append]
  rfl

theorem take_concat {i : Nat} (hi : i ≤ events.length) :
    (events ++ [e]).take i = events.take i := take_append_of_le_length hi

theorem offerAt_concat {i : Nat} (hi : i < events.length) :
    offerAt (events ++ [e]) ref i = offerAt events ref i := by
  rw [offerAt, offerAt, take_concat hi.le, List.getElem?_append_left hi]

theorem offerAt_length :
    offerAt (events ++ [e]) ref events.length
      = (subscriptions events)[ref]?.bind (·.offered? e) := by
  rw [offerAt, take_concat le_rfl, take_length]
  simp

theorem offers_concat :
    offers (events ++ [e]) ref = offers events ref
      ++ (((subscriptions events)[ref]?.bind (·.offered? e)).map (events.length, ·)).toList := by
  rw [offers, length_append, length_singleton, range_succ, filterMap_append, offers]
  congr 1
  · refine filterMap_congr fun i hi => ?_
    rw [offerAt_concat (mem_range.mp hi)]
  · rw [filterMap_cons, offerAt_length]
    cases (subscriptions events)[ref]?.bind (·.offered? e) <;> rfl

theorem lt_of_mem_offers {o : Nat × ChangeNotification} (ho : o ∈ offers events ref) :
    o.1 < events.length := by
  obtain ⟨i, hi, heq⟩ := mem_filterMap.mp ho
  obtain ⟨c, -, rfl⟩ := Option.map_eq_some_iff.mp heq
  exact mem_range.mp hi

theorem fullAt_concat {i : Nat} (hi : i ≤ events.length) :
    FullAt (events ++ [e]) ref i ↔ FullAt events ref i := by
  rw [FullAt, FullAt, take_concat hi]

theorem offers_eq_nil (h : (subscriptions events).length ≤ ref) : offers events ref = [] := by
  induction events using List.reverseRecOn with
  | nil => rfl
  | append_singleton events e ih =>
    have hlength := length_subscriptions_concat events e
    have hle : (subscriptions events).length ≤ ref := by omega
    rw [offers_concat, ih hle, List.getElem?_eq_none hle]
    rfl

theorem Subscription.Delivered.of_none {s s' : Subscription} (h : Subscription.Delivered events ref s)
    (hoffer : (subscriptions events)[ref]?.bind (·.offered? e) = none)
    (hs : s'.contents = s.contents) : Subscription.Delivered (events ++ [e]) ref s' := by
  obtain ⟨kept, hcontents, hfull⟩ := h
  rw [Subscription.Delivered, offers_concat, hoffer, Option.map_none, Option.toList_none, append_nil]
  refine ⟨kept, hs.trans hcontents, fun o ho hkept => ?_⟩
  exact (fullAt_concat (lt_of_mem_offers ho).le).mpr (hfull o ho hkept)

theorem Subscription.Delivered.offer {s : Subscription} {notification : ChangeNotification}
    (h : Subscription.Delivered events ref s) (hs : (subscriptions events)[ref]? = some s)
    (hoffer : s.offered? e = some notification) :
    Subscription.Delivered (events ++ [e]) ref (s.offer notification) := by
  obtain ⟨kept, hcontents, hfull⟩ := h
  -- the new notice is kept unless the subscription is full
  obtain ⟨last, hnew, hlast⟩ : ∃ last : Bool,
      (s.offer notification).contents = s.contents ++ (if last then [notification] else [])
        ∧ (last = false → s.Full) := by
    rcases s.contents_offer notification with ⟨-, hnew⟩ | ⟨hfull, hnew⟩
    · exact ⟨true, hnew, by simp⟩
    · exact ⟨false, by rw [hnew]; simp, fun _ => hfull⟩
  have hold : (offers events ref).filter (fun o => if o.1 = events.length then last else kept o.1)
      = (offers events ref).filter fun o => kept o.1 := by
    refine filter_congr fun o ho => ?_
    rw [if_neg (lt_of_mem_offers ho).ne]
  refine ⟨fun i => if i = events.length then last else kept i, ?_, ?_⟩
  · rw [hnew, hcontents, offers_concat, hs, Option.bind_some, hoffer, filter_append, hold,
      map_append]
    cases last <;> simp
  · intro o ho hkept
    rw [offers_concat, hs, Option.bind_some, hoffer, mem_append] at ho
    rcases ho with ho | ho
    · have hlt := lt_of_mem_offers ho
      dsimp only at hkept
      rw [if_neg hlt.ne] at hkept
      exact (fullAt_concat hlt.le).mpr (hfull o ho hkept)
    · obtain rfl : o = (events.length, notification) := by simpa using ho
      dsimp only at hkept
      rw [if_pos rfl] at hkept
      refine (fullAt_concat le_rfl).mpr ⟨s, ?_, hlast hkept⟩
      rw [take_length]
      exact hs

end Concat

theorem delivered_subscriptions (events : List HubEvent) {ref : Nat} {s : Subscription}
    (hs : (subscriptions events)[ref]? = some s) : Subscription.Delivered events ref s := by
  induction events using List.reverseRecOn generalizing s with
  | nil => cases hs
  | append_singleton events e ih =>
    rw [subscriptions_concat, Subscription.getElem?_after] at hs
    cases hold : (subscriptions events)[ref]? with
    | none =>
      -- made by this event
      have hle := List.getElem?_eq_none_iff.mp hold
      rw [hold] at hs
      have hnil : offers (events ++ [e]) ref = [] := by
        rw [offers_concat, offers_eq_nil hle, hold]
        rfl
      refine ⟨fun _ => true, ?_, by rw [hnil]; simp⟩
      rw [hnil]
      rw [Option.map_none, Option.none_or] at hs
      split at hs
      · exact Subscription.contents_of_made? hs
      · cases hs
    | some s₀ =>
      rw [hold, Option.map_some, Option.some_or] at hs
      obtain rfl := Option.some.inj hs
      cases hoffer : s₀.offered? e with
      | none =>
        refine (ih hold).of_none ?_ (s₀.contents_handle_of_none hoffer ref)
        rw [hold]
        exact hoffer
      | some notification =>
        rw [s₀.handle_of_offered hoffer]
        exact (ih hold).offer hold hoffer

theorem HeapHub.Consistent.nodup_ids {hub : HeapHub} (h : hub.Consistent) :
    (hub.chans.map (·.id)).Nodup := by
  have hids : hub.chans.map (·.id) = (List.range hub.chans.length).map (· + 1) := by
    refine ext_getElem? fun i => ?_
    rw [List.getElem?_map, List.getElem?_map]
    cases hs : hub.chans[i]? with
    | none =>
      rw [List.getElem?_eq_none (by simpa using List.getElem?_eq_none_iff.mp hs)]
      rfl
    | some s =>
      rw [List.getElem?_range (List.getElem?_eq_some_iff.mp hs).1]
      exact congrArg some (h.ids i s hs)
  rw [hids]
  exact nodup_range.map fun _ _ => Nat.succ.inj

/-- A run with fewer subscriptions than there are ids does not panic: no
closed channel is sent to or closed again. No id is used twice, no node is
kept without subscriptions, and every subscription got what it was offered
while it was open, in that order, except for notices that found it full. -/
theorem hub_runs (events : List HubEvent)
    (hlimit : events.countP HubEvent.isSubscribe < 18446744073709551616) :
    ∃ hub, HeapHub.run events = .ok hub ∧ (hub.chans.map (·.id)).Nodup
      ∧ (∀ nodeID nodeSubs, hub.subscribers.get? nodeID = some nodeSubs → nodeSubs.rows ≠ [])
      ∧ ∀ (ref : Nat) s, hub.chans[ref]? = some s → Subscription.Delivered events ref s := by
  obtain ⟨hub, hrun, hchans, h⟩ := HeapHub.run_refines events hlimit
  refine ⟨hub, hrun, h.nodup_ids, h.noEmpty, fun ref s hs => ?_⟩
  rw [hchans] at hs
  exact delivered_subscriptions events hs

def exampleEvents : List HubEvent :=
  [.subscribe "edge" 1, .boardcast { snapshotRecordID := 1 }, .publish "edge" { snapshotRecordID := 2 },
    .receive 0, .boardcast { snapshotRecordID := 3 }, .unsubscribe "edge" 1,
    .boardcast { snapshotRecordID := 4 }]

theorem hub_runs_exampleEvents :
    exampleEvents.countP HubEvent.isSubscribe = 1
      ∧ ∃ hub, HeapHub.run exampleEvents = .ok hub ∧ (hub.chans.map (·.id)).Nodup
        ∧ (∀ nodeID nodeSubs, hub.subscribers.get? nodeID = some nodeSubs → nodeSubs.rows ≠ [])
        ∧ ∀ (ref : Nat) s, hub.chans[ref]? = some s → Subscription.Delivered exampleEvents ref s :=
  ⟨rfl, hub_runs exampleEvents (by decide)⟩

-- the second notice found the channel full, the fourth came after the end
example : (subscriptions exampleEvents).map (·.contents)
    = [[{ snapshotRecordID := 1 }, { snapshotRecordID := 3 }]] := by decide

/-! ## The hub of channel values

`Hub` keeps the channels themselves in its maps, which shows the same as
long as nothing is published to a single node: an entry for every open
subscription, and none for a closed one (`hub_shown`). -/

namespace Subscription

variable {subs : List Subscription}

/-- The channel of a subscription, while it is open. -/
def entry (subs : List Subscription) (nodeID : String) (id : Nat) : Option NoticeChan :=
  subs[id - 1]?.bind fun s =>
    if s.nodeID = nodeID ∧ s.id = id ∧ s.closed = false then some s.chan else none

theorem entry_subscribe (nodeID : String) (buffer : Nat) (n : String) (i : Nat) :
    entry (after subs (.subscribe nodeID buffer)) n i
      = if nodeID = n ∧ subs.length + 1 = i then some (.make buffer) else entry subs n i := by
  rw [entry, entry, getElem?_after]
  cases hs : subs[i - 1]? with
  | some s =>
    have hlt := (List.getElem?_eq_some_iff.mp hs).1
    have hne : ¬ (nodeID = n ∧ subs.length + 1 = i) := by omega
    rw [Option.map_some, Option.some_or, if_neg hne]
    rfl
  | none =>
    have hle := List.getElem?_eq_none_iff.mp hs
    rw [Option.map_none, Option.none_or]
    by_cases hi : subs.length + 1 = i
    · subst hi
      simp [made?, Subscription.make]
    · rw [if_neg (c := _ ∧ _) fun h => hi h.2]
      by_cases hlast : i - 1 = subs.length
      · -- the id 0 is that of no subscription
        obtain rfl : i = 0 := by omega
        simp [made?, Subscription.make]
      · rw [if_neg hlast]

theorem entry_unsubscribe (nodeID : String) (id : Nat) (n : String) (i : Nat) :
    entry (after subs (.unsubscribe nodeID id)) n i
      = if nodeID = n ∧ id = i then none else entry subs n i := by
  rw [entry, entry, getElem?_after_of_made? fun _ => rfl]
  cases subs[i - 1]? with
  | none => simp
  | some s =>
    simp only [Option.map_some, Option.bind_some, handle]
    by_cases hs : s.nodeID = nodeID ∧ s.id = id
    · rw [if_pos hs]
      obtain ⟨rfl, rfl⟩ := hs
      simp only [close, Bool.true_eq_false, and_false, if_false]
      split
      · rfl
      · rename_i h
        rw [if_neg fun h' => h ⟨h'.1, h'.2.1⟩]
    · rw [if_neg hs]
      by_cases h : nodeID = n ∧ id = i
      · obtain ⟨rfl, rfl⟩ := h
        rw [if_neg fun h' => hs ⟨h'.1, h'.2.1⟩, if_pos ⟨rfl, rfl⟩]
      · rw [if_neg h]

theorem entry_boardcast (c : ChangeNotification) (n : String) (i : Nat) :
    entry (after subs (.boardcast c)) n i = (entry subs n i).map fun ch => ch.trySend c := by
  rw [entry, entry, getElem?_after_of_made? fun _ => rfl]
  cases subs[i - 1]? with
  | none => rfl
  | some s =>
    simp only [Option.map_some, Option.bind_some, handle, apply_ite (Option.map _), Option.map_none]
    by_cases hclosed : s.closed = false
    · rw [if_pos hclosed]
      rfl
    · rw [if_neg hclosed, if_neg fun h => hclosed h.2.2, if_neg fun h => hclosed h.2.2]

theorem entry_receive (ref : Nat) (n : String) (i : Nat) :
    entry (after subs (.receive ref)) n i
      = if ref = i - 1 then (entry subs n i).map NoticeChan.rest else entry subs n i := by
  rw [entry, entry, getElem?_after_of_made? fun _ => rfl]
  cases subs[i - 1]? with
  | none => simp
  | some s =>
    simp only [Option.map_some, Option.bind_some, handle, apply_ite (Option.map _), Option.map_none]
    by_cases href : ref = i - 1
    · rw [if_pos href, if_pos href]
      rfl
    · rw [if_neg href, if_neg href]

end Subscription

/-- The entries of the hub are the open subscriptions. -/
structure Shows (subs : List Subscription) (hub : Hub) : Prop where
  next : hub.nextID = subs.length
  chans : ∀ nodeID id, hub.chan? nodeID id = Subscription.entry subs nodeID id

theorem Shows.new : Shows [] .new := ⟨rfl, fun _ _ => rfl⟩

section Shows

variable {subs : List Subscription} {hub : Hub} (h : Shows subs hub)

include h

theorem Shows.subscribe (nodeID : String) (buffer : Nat) :
    Shows (Subscription.after subs (.subscribe nodeID buffer))
      (hub.subscribe nodeID buffer).2 where
  next := by
    rw [Subscription.length_after]
    exact congrArg (· + 1) h.next
  chans n i := by rw [Hub.chan?_subscribe, Subscription.entry_subscribe, h.next, h.chans]

theorem Shows.unsubscribe (nodeID : String) (id : Nat) :
    Shows (Subscription.after subs (.unsubscribe nodeID id)) (hub.unsubscribe nodeID id) where
  next := by
    rw [Hub.unsubscribe_eq, Subscription.length_after]
    split <;> exact h.next
  chans n i := by rw [Hub.chan?_unsubscribe, Subscription.entry_unsubscribe, h.chans]

theorem Shows.boardcast (c : ChangeNotification) :
    Shows (Subscription.after subs (.boardcast c)) (hub.boardcast c) where
  next := by
    rw [Subscription.length_after]
    exact h.next
  chans n i := by rw [Hub.chan?_boardcast, Subscription.entry_boardcast, h.chans]

theorem Shows.receive {ref : Nat} {s : Subscription} (hs : subs[ref]? = some s)
    (hid : s.id = ref + 1) :
    Shows (Subscription.after subs (.receive ref)) (hub.receive s.nodeID s.id) where
  next := by
    rw [Subscription.length_after, Hub.receive]
    split <;> exact h.next
  chans n i := by
    rw [Hub.chan?_receive, Subscription.entry_receive, h.chans]
    by_cases hi : s.nodeID = n ∧ s.id = i
    · rw [if_pos hi, if_pos (by omega)]
    · rw [if_neg hi]
      split
      · rename_i href
        rw [Subscription.entry, ← href, hs, Option.bind_some, if_neg fun h' => hi ⟨h'.1, h'.2.1⟩]
        rfl
      · rfl

end Shows

/-- The hub after an event. A consumer is named by its subscription. -/
def Hub.after (hub : Hub) (subs : List Subscription) : HubEvent → Hub
  | .subscribe nodeID buffer => (hub.subscribe nodeID buffer).2
  | .unsubscribe nodeID id => hub.unsubscribe nodeID id
  | .boardcast notification => hub.boardcast notification
  | .receive ref => subs[ref]?.elim hub fun s => hub.receive s.nodeID s.id
  | .publish _ _ => hub

/-- The hub after a run, read from its end. -/
def Hub.shown : List HubEvent → Hub
  | [] => .new
  | e :: before => (Hub.shown before).after (subscriptions before.reverse) e

theorem Shows.after {subs : List Subscription} {hub : Hub} (h : Shows subs hub) {e : HubEvent}
    (he : ∀ nodeID notification, e ≠ .publish nodeID notification)
    (hids : ∀ (i : Nat) s, subs[i]? = some s → s.id = i + 1) :
    Shows (Subscription.after subs e) (hub.after subs e) := by
  cases e with
  | subscribe nodeID buffer => exact h.subscribe nodeID buffer
  | unsubscribe nodeID id => exact h.unsubscribe nodeID id
  | publish nodeID notification => exact absurd rfl (he nodeID notification)
  | boardcast notification => exact h.boardcast notification
  | receive ref =>
    rw [Hub.after]
    cases hs : subs[ref]? with
    | some s => exact h.receive hs (hids ref s hs)
    | none =>
      -- there is no such channel, and so no entry with its id
      refine ⟨by rw [Subscription.length_after]; exact h.next, fun n i => ?_⟩
      rw [Subscription.entry_receive, Option.elim_none, h.chans]
      split
      · rename_i href
        rw [Subscription.entry, ← href, hs]
        rfl
      · rfl

/-- Along every run without a publish to a single node, the hub of shared
channels is shown by the hub of channel values. -/
theorem hub_shown (events : List HubEvent)
    (hlimit : events.countP HubEvent.isSubscribe < 18446744073709551616)
    (hpublish : ∀ nodeID notification, .publish nodeID notification ∉ events) :
    ∃ hub, HeapHub.run events = .ok hub ∧ Shows hub.chans (Hub.shown events.reverse) := by
  induction events using List.reverseRecOn with
  | nil => exact ⟨.new, rfl, .new⟩
  | append_singleton events e ih =>
    have hbefore : events.countP HubEvent.isSubscribe < 18446744073709551616 := by
      rw [countP_append] at hlimit
      omega
    obtain ⟨before, hrun, hshows⟩ := ih hbefore fun n c hmem =>
      hpublish n c (mem_append_left _ hmem)
    obtain ⟨hub, hrun', hchans, -⟩ := HeapHub.run_refines (events ++ [e]) hlimit
    obtain ⟨before', hrun₀, hchans₀, h⟩ := HeapHub.run_refines events hbefore
    obtain rfl : before' = before := Except.ok.inj (hrun₀.symm.trans hrun)
    refine ⟨hub, hrun', ?_⟩
    rw [hchans, subscriptions_concat, reverse_append, reverse_singleton, singleton_append,
      Hub.shown, reverse_reverse, ← hchans₀]
    exact hshows.after (fun n c he => hpublish n c (he ▸ by simp)) h.ids

/-- A subscription that ends with a notice in its channel. -/
theorem hub_shown_unsubscribed :
    let events : List HubEvent := [.subscribe "edge" 2, .boardcast { snapshotRecordID := 1 },
      .unsubscribe "edge" 1, .receive 0]
    ∃ hub, HeapHub.run events = .ok hub ∧ Shows hub.chans (Hub.shown events.reverse) :=
  hub_shown _ (by decide) (by simp)

end LunaEdge
