import LunaEdge.Hub
import LunaEdge.Runs

/-!
# The hub and its channels

The hub with its channels on the heap: the maps hold references, a
channel can be closed, and both a send on a closed channel and a second
close are panics. A channel outlives its subscription, since the consumer
may still drain it.

What the hub is for is said by a list of subscriptions, each with a
bounded queue of its own (`Subscription.after`): an event reaches the
queues of the open subscriptions it is addressed to, and nothing else.
The hub refines this list (`step_refines`, `run_refines`), so it never
panics.
-/

namespace LunaEdge

open List

/-- A channel, with the subscription it was made for and what its
consumer has received from it. -/
structure Subscription where
  nodeID : String
  id : Nat
  chan : NoticeChan
  closed : Bool
  received : List ChangeNotification

inductive HubPanic where
  /-- `send on closed channel` -/
  | sendOnClosedChannel
  /-- `close of closed channel` -/
  | closeOfClosedChannel
deriving Repr, DecidableEq

inductive HubEvent where
  | subscribe (nodeID : String) (buffer : Nat)
  | unsubscribe (nodeID : String) (id : Nat)
  | publish (nodeID : String) (notification : ChangeNotification)
  | boardcast (notification : ChangeNotification)
  /-- The consumer of the channel with this reference receives. -/
  | receive (ref : Nat)

/-- References are positions in `chans`; `nextID` is a `uint64`. -/
structure HeapHub where
  subscribers : GoMap String (GoMap Nat Nat)
  nextID : Nat
  chans : List Subscription

namespace Subscription

def make (nodeID : String) (id buffer : Nat) : Subscription := ⟨nodeID, id, .make buffer, false, []⟩

def offer (notification : ChangeNotification) (s : Subscription) : Subscription :=
  { s with chan := s.chan.trySend notification }

def close (s : Subscription) : Subscription := { s with closed := true }

/-- A closed channel still gives out what it holds; an empty one makes the
consumer wait. -/
def receive (s : Subscription) : Subscription :=
  { s with chan := s.chan.rest, received := s.received ++ s.chan.buffer.head?.toList }

end Subscription

/-! ## The hub -/

namespace HeapHub

def new : HeapHub := ⟨.empty, 0, []⟩

def subscribe (hub : HeapHub) (nodeID : String) (buffer : Nat) : HeapHub :=
  let id := (hub.nextID + 1) % 18446744073709551616
  { nextID := id
    subscribers := hub.subscribers.set nodeID
      ((hub.subscribers.inner nodeID).set id hub.chans.length)
    chans := hub.chans ++ [.make nodeID id buffer] }

def close (chans : List Subscription) (ref : Nat) : Except HubPanic (List Subscription) :=
  match chans[ref]? with
  | none => .ok chans
  | some s => if s.closed then .error .closeOfClosedChannel else .ok (chans.set ref s.close)

def unsubscribe (hub : HeapHub) (nodeID : String) (id : Nat) : Except HubPanic HeapHub :=
  match (hub.subscribers.inner nodeID).get? id with
  | none => .ok hub
  | some ref => do
    let chans ← close hub.chans ref
    return { hub with subscribers := hub.subscribers.deleteIn nodeID id, chans }

/-- `select { case ch <- notification: default: }` -/
def trySend (notification : ChangeNotification) (chans : List Subscription) (ref : Nat) :
    Except HubPanic (List Subscription) :=
  match chans[ref]? with
  | none => .ok chans
  | some s =>
    if s.closed then .error .sendOnClosedChannel
    else .ok (chans.set ref (s.offer notification))

def publish (hub : HeapHub) (nodeID : String) (notification : ChangeNotification) :
    Except HubPanic HeapHub := do
  let chans ← (hub.subscribers.inner nodeID).values.foldlM (trySend notification) hub.chans
  return { hub with chans }

def boardcast (hub : HeapHub) (notification : ChangeNotification) : Except HubPanic HeapHub := do
  let refs := hub.subscribers.values.flatMap GoMap.values
  let chans ← refs.foldlM (trySend notification) hub.chans
  return { hub with chans }

def step (hub : HeapHub) : HubEvent → Except HubPanic HeapHub
  | .subscribe nodeID buffer => .ok (hub.subscribe nodeID buffer)
  | .unsubscribe nodeID id => hub.unsubscribe nodeID id
  | .publish nodeID notification => hub.publish nodeID notification
  | .boardcast notification => hub.boardcast notification
  | .receive ref => .ok { hub with chans := hub.chans.modify ref (·.receive) }

def run (events : List HubEvent) : Except HubPanic HeapHub := events.foldlM step new

end HeapHub

/-! ## Subscriptions by themselves -/

/-- The notice that an event has for the subscriptions of a node. -/
def HubEvent.notice? (nodeID : String) : HubEvent → Option ChangeNotification
  | .publish nodeID' notification => if nodeID' = nodeID then some notification else none
  | .boardcast notification => some notification
  | _ => none

namespace Subscription

/-- What an event does to a subscription that was made before. -/
def handle (ref : Nat) (s : Subscription) : HubEvent → Subscription
  | .subscribe _ _ => s
  | .unsubscribe nodeID id => if s.nodeID = nodeID ∧ s.id = id then s.close else s
  | .publish nodeID notification =>
    if nodeID = s.nodeID ∧ s.closed = false then s.offer notification else s
  | .boardcast notification => if s.closed = false then s.offer notification else s
  | .receive ref' => if ref' = ref then s.receive else s

/-- The subscriptions made so far, in the order in which they were made. -/
def after (subs : List Subscription) (e : HubEvent) : List Subscription :=
  let handled := subs.mapIdx fun ref s => s.handle ref e
  match e with
  | .subscribe nodeID buffer => handled ++ [.make nodeID (subs.length + 1) buffer]
  | _ => handled

def made? (id : Nat) : HubEvent → Option Subscription
  | .subscribe nodeID buffer => some (.make nodeID id buffer)
  | _ => none

theorem getElem?_after (subs : List Subscription) (e : HubEvent) (ref : Nat) :
    (after subs e)[ref]?
      = (subs[ref]?.map fun s => s.handle ref e).or
          (if ref = subs.length then made? (subs.length + 1) e else none) := by
  have hhandled : (subs.mapIdx fun ref s => s.handle ref e)[ref]?
      = subs[ref]?.map fun s => s.handle ref e := List.getElem?_mapIdx
  cases e with
  | subscribe nodeID buffer =>
    simp only [after, made?]
    rcases Nat.lt_trichotomy ref subs.length with hlt | rfl | hgt
    · rw [List.getElem?_append_left (by simpa using hlt), hhandled, if_neg hlt.ne, Option.or_none]
    · simp
    · rw [List.getElem?_eq_none (by simp; omega), List.getElem?_eq_none (by omega), if_neg hgt.ne']
      rfl
  | _ =>
    simp only [made?, ite_self, Option.or_none]
    exact hhandled

theorem getElem?_after_of_made? {e : HubEvent} (he : ∀ id, made? id e = none)
    (subs : List Subscription) (ref : Nat) :
    (after subs e)[ref]? = subs[ref]?.map fun s => s.handle ref e := by
  rw [getElem?_after, he, ite_self, Option.or_none]

theorem handle_nodeID (ref : Nat) (s : Subscription) (e : HubEvent) :
    (s.handle ref e).nodeID = s.nodeID := by
  cases e <;> simp only [handle] <;> (try split) <;> rfl

theorem handle_id (ref : Nat) (s : Subscription) (e : HubEvent) : (s.handle ref e).id = s.id := by
  cases e <;> simp only [handle] <;> (try split) <;> rfl

end Subscription

def subscriptions (events : List HubEvent) : List Subscription := events.foldl Subscription.after []

/-! ## The hub refines the subscriptions -/

namespace HeapHub

/-- The maps list the open channels, each under its node and id. -/
structure Consistent (hub : HeapHub) : Prop where
  next : hub.nextID = hub.chans.length
  ids : ∀ (ref : Nat) s, hub.chans[ref]? = some s → s.id = ref + 1
  listed : ∀ nodeID id (ref : Nat), (hub.subscribers.inner nodeID).get? id = some ref
    ↔ ∃ s, hub.chans[ref]? = some s ∧ s.nodeID = nodeID ∧ s.id = id ∧ s.closed = false
  noEmpty : hub.subscribers.NoEmpty

variable {hub : HeapHub}

theorem Consistent.new : Consistent new where
  next := rfl
  ids _ _ hget := by cases hget
  listed _ _ _ := by simp [HeapHub.new, GoMap.inner]
  noEmpty _ _ hget := by cases hget

variable {chans : List Subscription} {f : Nat → Subscription → Subscription} {ref : Nat}
  {nodeID : String} {s : Subscription}

/-- Sends to distinct open channels: each gets the notice once, in
whatever order the references come. -/
theorem foldlM_trySend {notification : ChangeNotification} {refs : List Nat} (hnodup : refs.Nodup)
    (hopen : ∀ ref ∈ refs, ∃ s, chans[ref]? = some s ∧ s.closed = false) :
    refs.foldlM (trySend notification) chans
      = .ok (chans.mapIdx fun ref s => if ref ∈ refs then s.offer notification else s) := by
  induction refs generalizing chans with
  | nil =>
    refine congrArg Except.ok (ext_getElem? fun i => ?_)
    simp
  | cons ref refs ih =>
    obtain ⟨hnot, hnodup⟩ := nodup_cons.mp hnodup
    obtain ⟨s, hs, hclosed⟩ := hopen ref mem_cons_self
    have hsend : trySend notification chans ref = .ok (chans.set ref (s.offer notification)) := by
      rw [trySend, hs]
      simp only [hclosed, Bool.false_eq_true, if_false]
    have hrest : ∀ ref' ∈ refs, ∃ s', (chans.set ref (s.offer notification))[ref']? = some s'
        ∧ s'.closed = false := by
      intro ref' hmem
      have hne : ref ≠ ref' := fun heq => hnot (heq ▸ hmem)
      rw [List.getElem?_set_ne hne]
      exact hopen ref' (mem_cons_of_mem ref hmem)
    rw [foldlM_cons, hsend]
    refine (ih hnodup hrest).trans (congrArg Except.ok (ext_getElem? fun i => ?_))
    rw [List.getElem?_mapIdx, List.getElem?_mapIdx]
    by_cases hi : ref = i
    · subst hi
      rw [List.getElem?_set_self (List.getElem?_eq_some_iff.mp hs).1, hs]
      simp [hnot]
    · rw [List.getElem?_set_ne hi]
      simp [Ne.symm hi]

theorem mapIdx_congr {g : Nat → Subscription → Subscription}
    (h : ∀ (ref : Nat) s, chans[ref]? = some s → f ref s = g ref s) :
    chans.mapIdx f = chans.mapIdx g := by
  refine ext_getElem? fun i => ?_
  rw [List.getElem?_mapIdx, List.getElem?_mapIdx]
  cases hs : chans[i]? with
  | none => rfl
  | some s => exact congrArg some (h i s hs)

/-- A change of the channels that leaves open which are closed. -/
theorem Consistent.of_mapIdx (h : hub.Consistent)
    (hf : ∀ ref s, (f ref s).nodeID = s.nodeID ∧ (f ref s).id = s.id ∧ (f ref s).closed = s.closed) :
    Consistent { hub with chans := hub.chans.mapIdx f } where
  next := by
    rw [length_mapIdx]
    exact h.next
  ids ref s hget := by
    rw [List.getElem?_mapIdx, Option.map_eq_some_iff] at hget
    obtain ⟨s', hs', rfl⟩ := hget
    rw [(hf ref s').2.1]
    exact h.ids ref s' hs'
  listed nodeID id ref := by
    rw [h.listed]
    simp only [List.getElem?_mapIdx, Option.map_eq_some_iff]
    constructor
    · rintro ⟨s, hs, hnode, hid, hopen⟩
      obtain ⟨hnode', hid', hclosed'⟩ := hf ref s
      exact ⟨f ref s, ⟨s, hs, rfl⟩, hnode'.trans hnode, hid'.trans hid, hclosed'.trans hopen⟩
    · rintro ⟨_, ⟨s, hs, rfl⟩, hnode, hid, hopen⟩
      obtain ⟨hnode', hid', hclosed'⟩ := hf ref s
      exact ⟨s, hs, hnode'.symm.trans hnode, hid'.symm.trans hid, hclosed'.symm.trans hopen⟩
  noEmpty := h.noEmpty

theorem Consistent.listed_inj (h : hub.Consistent) {nodeID' : String} {id id' : Nat}
    (hget : (hub.subscribers.inner nodeID).get? id = some ref)
    (hget' : (hub.subscribers.inner nodeID').get? id' = some ref) :
    nodeID = nodeID' ∧ id = id' := by
  obtain ⟨s, hs, hnode, hid, -⟩ := (h.listed _ _ _).mp hget
  obtain ⟨s', hs', hnode', hid', -⟩ := (h.listed _ _ _).mp hget'
  obtain rfl : s = s' := Option.some.inj (hs.symm.trans hs')
  exact ⟨hnode.symm.trans hnode', hid.symm.trans hid'⟩

/-- A fan-out to the open channels of which `p` holds. -/
theorem foldlM_trySend_of {notification : ChangeNotification} {refs : List Nat}
    (hnodup : refs.Nodup) {p : Subscription → Prop} [DecidablePred p]
    (hrefs : ∀ ref, ref ∈ refs ↔ ∃ s, hub.chans[ref]? = some s ∧ p s ∧ s.closed = false) :
    refs.foldlM (trySend notification) hub.chans
      = .ok (hub.chans.mapIdx fun _ s =>
          if p s ∧ s.closed = false then s.offer notification else s) := by
  have hopen : ∀ ref ∈ refs, ∃ s, hub.chans[ref]? = some s ∧ s.closed = false := by
    intro ref hmem
    obtain ⟨s, hs, -, hclosed⟩ := (hrefs ref).mp hmem
    exact ⟨s, hs, hclosed⟩
  rw [foldlM_trySend hnodup hopen]
  refine congrArg Except.ok (mapIdx_congr fun ref s hs => if_congr ?_ rfl rfl)
  rw [hrefs]
  constructor
  · rintro ⟨s', hs', hp, hclosed⟩
    obtain rfl : s = s' := Option.some.inj (hs.symm.trans hs')
    exact ⟨hp, hclosed⟩
  · rintro ⟨hp, hclosed⟩
    exact ⟨s, hs, hp, hclosed⟩

/-- A step is without panic and does to the channels what it should. -/
def Refines (hub : HeapHub) (e : HubEvent) : Prop :=
  ∃ hub', hub.step e = .ok hub' ∧ hub'.chans = Subscription.after hub.chans e ∧ hub'.Consistent

theorem mapIdx_eq_self (h : ∀ (ref : Nat) s, chans[ref]? = some s → f ref s = s) :
    chans.mapIdx f = chans := by
  refine (mapIdx_congr h).trans (ext_getElem? fun i => ?_)
  simp

theorem getElem?_concat_eq_some {s' : Subscription} :
    (chans ++ [s])[ref]? = some s' ↔ chans[ref]? = some s' ∨ ref = chans.length ∧ s = s' := by
  rcases Nat.lt_trichotomy ref chans.length with hlt | rfl | hgt
  · rw [List.getElem?_append_left hlt]
    simp [hlt.ne]
  · simp
  · rw [List.getElem?_eq_none (by simp; omega), List.getElem?_eq_none (by omega)]
    simp [hgt.ne']

theorem Consistent.subscribe (h : hub.Consistent) (nodeID : String) (buffer : Nat)
    (hlimit : hub.chans.length + 1 < 18446744073709551616) :
    hub.Refines (.subscribe nodeID buffer) := by
  have hid : (hub.nextID + 1) % 18446744073709551616 = hub.chans.length + 1 := by
    rw [h.next]
    exact Nat.mod_eq_of_lt hlimit
  refine ⟨_, rfl, ?_, ?_⟩
  · show hub.chans ++ [.make nodeID ((hub.nextID + 1) % 18446744073709551616) buffer] = _
    rw [hid]
    exact congrArg (· ++ _) (mapIdx_eq_self fun _ _ _ => rfl).symm
  · rw [HeapHub.subscribe, hid]
    refine ⟨?_, fun ref s hget => ?_, fun nodeID' id ref => ?_, h.noEmpty.set _ _ _⟩
    · rw [length_append]
      rfl
    · rcases getElem?_concat_eq_some.mp hget with hold | ⟨rfl, rfl⟩
      · exact h.ids ref s hold
      · rfl
    · rw [GoMap.get?_inner_set]
      simp only [getElem?_concat_eq_some]
      split
      · rename_i heq
        obtain ⟨rfl, rfl⟩ := heq
        constructor
        · rintro ⟨rfl⟩
          exact ⟨_, Or.inr ⟨rfl, rfl⟩, rfl, rfl, rfl⟩
        · rintro ⟨s, hs | ⟨rfl, rfl⟩, -, hid', -⟩
          · -- the id is new
            have hold := h.ids ref s hs
            have hlt := (List.getElem?_eq_some_iff.mp hs).1
            omega
          · rfl
      · rename_i hne
        rw [h.listed]
        constructor
        · rintro ⟨s, hs, hrest⟩
          exact ⟨s, Or.inl hs, hrest⟩
        · rintro ⟨s, hs | ⟨rfl, rfl⟩, hnode, hid', hclosed⟩
          · exact ⟨s, hs, hnode, hid', hclosed⟩
          · exact absurd ⟨hnode, hid'⟩ hne

theorem Consistent.publish (h : hub.Consistent) (nodeID : String)
    (notification : ChangeNotification) : hub.Refines (.publish nodeID notification) := by
  have hrefs : ∀ ref, ref ∈ (hub.subscribers.inner nodeID).values
      ↔ ∃ s, hub.chans[ref]? = some s ∧ nodeID = s.nodeID ∧ s.closed = false := by
    intro ref
    simp only [GoMap.mem_values_iff, h.listed]
    constructor
    · rintro ⟨id, s, hs, hnode, -, hclosed⟩
      exact ⟨s, hs, hnode.symm, hclosed⟩
    · rintro ⟨s, hs, hnode, hclosed⟩
      exact ⟨s.id, s, hs, hnode.symm, rfl, hclosed⟩
  have hnodup : (hub.subscribers.inner nodeID).values.Nodup :=
    GoMap.nodup_values fun _ _ _ hget hget' => (h.listed_inj hget hget').2
  refine ⟨{ hub with chans := Subscription.after hub.chans (.publish nodeID notification) }, ?_,
    rfl, h.of_mapIdx fun ref s => ?_⟩
  · rw [step, HeapHub.publish, foldlM_trySend_of hnodup hrefs]
    rfl
  · refine ⟨s.handle_nodeID ref _, s.handle_id ref _, ?_⟩
    simp only [Subscription.handle]
    split <;> rfl

theorem Consistent.boardcast (h : hub.Consistent) (notification : ChangeNotification) :
    hub.Refines (.boardcast notification) := by
  have hrefs : ∀ ref, ref ∈ hub.subscribers.values.flatMap GoMap.values
      ↔ ∃ s, hub.chans[ref]? = some s ∧ True ∧ s.closed = false := by
    intro ref
    simp only [GoMap.mem_flatMap_values, h.listed]
    constructor
    · rintro ⟨_, _, s, hs, -, -, hclosed⟩
      exact ⟨s, hs, trivial, hclosed⟩
    · rintro ⟨s, hs, -, hclosed⟩
      exact ⟨s.nodeID, s.id, s, hs, rfl, rfl, hclosed⟩
  have hnodup := GoMap.nodup_flatMap_values fun _ _ _ _ _ hget hget' => h.listed_inj hget hget'
  refine ⟨{ hub with chans := Subscription.after hub.chans (.boardcast notification) }, ?_, rfl,
    h.of_mapIdx fun ref s => ?_⟩
  · rw [step, HeapHub.boardcast, foldlM_trySend_of hnodup hrefs]
    simp only [true_and]
    rfl
  · refine ⟨s.handle_nodeID ref _, s.handle_id ref _, ?_⟩
    simp only [Subscription.handle]
    split <;> rfl

theorem Consistent.receive (h : hub.Consistent) (ref : Nat) : hub.Refines (.receive ref) := by
  have hchans : hub.chans.modify ref (·.receive) = Subscription.after hub.chans (.receive ref) := by
    refine ext_getElem? fun i => ?_
    rw [List.getElem?_modify, Subscription.getElem?_after_of_made? fun _ => rfl]
    rfl
  refine ⟨_, rfl, hchans, ?_⟩
  rw [hchans]
  refine h.of_mapIdx fun ref' s => ⟨s.handle_nodeID ref' _, s.handle_id ref' _, ?_⟩
  simp only [Subscription.handle]
  split <;> rfl

theorem getElem?_after_unsubscribe {id : Nat} {s' : Subscription} :
    (Subscription.after chans (.unsubscribe nodeID id))[ref]? = some s'
      ↔ ∃ s, chans[ref]? = some s ∧ s.handle ref (.unsubscribe nodeID id) = s' := by
  rw [Subscription.getElem?_after_of_made? fun _ => rfl, Option.map_eq_some_iff]

theorem Consistent.handle_unlisted (h : hub.Consistent) {id : Nat}
    (hget : (hub.subscribers.inner nodeID).get? id = none) (hs : hub.chans[ref]? = some s) :
    s.handle ref (.unsubscribe nodeID id) = s := by
  simp only [Subscription.handle]
  split
  · rename_i heq
    cases hc : s.closed with
    | true =>
      obtain ⟨_, _, _, _, _⟩ := s
      cases hc
      rfl
    | false =>
      have hsome := (h.listed nodeID id ref).mpr ⟨s, hs, heq.1, heq.2, hc⟩
      rw [hget] at hsome
      cases hsome
  · rfl

theorem Consistent.close_eq (h : hub.Consistent) (hs : hub.chans[ref]? = some s)
    (hclosed : s.closed = false) :
    close hub.chans ref = .ok (Subscription.after hub.chans (.unsubscribe s.nodeID s.id)) := by
  rw [close, hs]
  simp only [hclosed, Bool.false_eq_true, if_false]
  refine congrArg Except.ok (ext_getElem? fun i => ?_)
  rw [Subscription.getElem?_after_of_made? fun _ => rfl]
  by_cases hi : ref = i
  · subst hi
    rw [List.getElem?_set_self (List.getElem?_eq_some_iff.mp hs).1, hs]
    simp [Subscription.handle]
  · rw [List.getElem?_set_ne hi]
    cases hi' : hub.chans[i]? with
    | none => rfl
    | some s' =>
      -- the id is that of no other channel
      have hne : s'.id ≠ s.id := by
        have h1 := h.ids ref s hs
        have h2 := h.ids i s' hi'
        omega
      simp [Subscription.handle, hne]

theorem Consistent.listed_unsubscribe (h : hub.Consistent) {nodeID' : String} {id id' : Nat} :
    (GoMap.inner (hub.subscribers.deleteIn nodeID id) nodeID').get? id' = some ref
      ↔ ∃ s, (Subscription.after hub.chans (.unsubscribe nodeID id))[ref]? = some s
        ∧ s.nodeID = nodeID' ∧ s.id = id' ∧ s.closed = false := by
  rw [GoMap.get?_inner_deleteIn]
  simp only [getElem?_after_unsubscribe]
  constructor
  · intro hlisted
    split at hlisted
    · cases hlisted
    · rename_i hne
      obtain ⟨s, hs, hnode, hid, hclosed⟩ := (h.listed _ _ _).mp hlisted
      have hsame : s.handle ref (.unsubscribe nodeID id) = s := by
        rw [Subscription.handle, if_neg]
        rintro ⟨h1, h2⟩
        exact hne ⟨h1.symm.trans hnode, h2.symm.trans hid⟩
      exact ⟨s, ⟨s, hs, hsame⟩, hnode, hid, hclosed⟩
  · rintro ⟨_, ⟨s, hs, rfl⟩, hnode, hid, hclosed⟩
    rw [s.handle_nodeID] at hnode
    rw [s.handle_id] at hid
    simp only [Subscription.handle] at hclosed
    split at hclosed
    · cases hclosed
    · rename_i hne
      rw [if_neg, h.listed]
      · exact ⟨s, hs, hnode, hid, hclosed⟩
      · rintro ⟨rfl, rfl⟩
        exact hne ⟨hnode, hid⟩

theorem Consistent.unsubscribe (h : hub.Consistent) (nodeID : String) (id : Nat) :
    hub.Refines (.unsubscribe nodeID id) := by
  rw [Refines, step, HeapHub.unsubscribe]
  cases hget : (hub.subscribers.inner nodeID).get? id with
  | none =>
    exact ⟨hub, rfl, (mapIdx_eq_self fun _ _ hs => h.handle_unlisted hget hs).symm, h⟩
  | some ref =>
    obtain ⟨s, hs, rfl, rfl, hclosed⟩ := (h.listed nodeID id ref).mp hget
    simp only [h.close_eq hs hclosed]
    refine ⟨_, rfl, rfl, h.next.trans length_mapIdx.symm, fun ref' s' hget' => ?_,
      fun _ _ _ => h.listed_unsubscribe, h.noEmpty.deleteIn s.nodeID s.id⟩
    rw [getElem?_after_unsubscribe] at hget'
    obtain ⟨s₀, hs₀, rfl⟩ := hget'
    rw [s₀.handle_id]
    exact h.ids ref' s₀ hs₀

theorem Consistent.step_refines (h : hub.Consistent) (e : HubEvent)
    (hlimit : (Subscription.after hub.chans e).length < 18446744073709551616) :
    hub.Refines e := by
  cases e with
  | subscribe nodeID buffer =>
    refine h.subscribe nodeID buffer ?_
    simpa [Subscription.after] using hlimit
  | unsubscribe nodeID id => exact h.unsubscribe nodeID id
  | publish nodeID notification => exact h.publish nodeID notification
  | boardcast notification => exact h.boardcast notification
  | receive ref => exact h.receive ref

end HeapHub

def HubEvent.isSubscribe : HubEvent → Bool
  | .subscribe _ _ => true
  | _ => false

theorem Subscription.length_after (subs : List Subscription) (e : HubEvent) :
    (after subs e).length = subs.length + if e.isSubscribe then 1 else 0 := by
  cases e <;> simp [after, HubEvent.isSubscribe]

theorem length_subscriptions_concat (events : List HubEvent) (e : HubEvent) :
    (subscriptions (events ++ [e])).length
      = (subscriptions events).length + if e.isSubscribe then 1 else 0 := by
  rw [subscriptions, foldl_append]
  exact Subscription.length_after _ e

theorem length_subscriptions (events : List HubEvent) :
    (subscriptions events).length = events.countP HubEvent.isSubscribe := by
  induction events using List.reverseRecOn with
  | nil => rfl
  | append_singleton events e ih =>
    rw [length_subscriptions_concat, ih, countP_append, countP_singleton]

/-- With fewer subscriptions than ids no run panics. -/
theorem HeapHub.run_refines (events : List HubEvent)
    (hlimit : events.countP HubEvent.isSubscribe < 18446744073709551616) :
    ∃ hub, run events = .ok hub ∧ hub.chans = subscriptions events ∧ hub.Consistent := by
  induction events using List.reverseRecOn with
  | nil => exact ⟨new, rfl, rfl, .new⟩
  | append_singleton events e ih =>
    have hlength := length_subscriptions (events ++ [e])
    obtain ⟨hub, hrun, hchans, h⟩ := ih (by rw [countP_append] at hlimit; omega)
    have hafter : Subscription.after hub.chans e = subscriptions (events ++ [e]) := by
      rw [hchans, subscriptions, subscriptions, foldl_append]
      rfl
    obtain ⟨hub', hstep, hchans', h'⟩ := h.step_refines e (by rw [hafter]; omega)
    refine ⟨hub', ?_, hchans'.trans hafter, h'⟩
    rw [run] at hrun
    rw [run, foldlM_append, hrun]
    show ([e].foldlM step hub) = _
    rw [foldlM_cons, hstep]
    rfl

end LunaEdge
