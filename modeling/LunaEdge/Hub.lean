import LunaEdge.GoMap
import LunaEdge.ChangeLog

/-!
# The hub

The hub keeps a buffered channel for every subscription of every node and
offers each broadcast notice to all of them. A send never waits: a
channel whose buffer is full drops the notice. Each operation has one
lemma about `chan?`, the channel of a subscription.
-/

namespace LunaEdge

/-- A buffered channel, oldest notice first. -/
structure NoticeChan where
  buffer : List ChangeNotification
  cap : Nat
  hcap : buffer.length ≤ cap

namespace NoticeChan

def make (cap : Nat) : NoticeChan := ⟨[], cap, Nat.zero_le cap⟩

/-- `select { case ch <- notice: default: }`. -/
def trySend (ch : NoticeChan) (notice : ChangeNotification) : NoticeChan :=
  if h : ch.buffer.length < ch.cap then
    ⟨ch.buffer ++ [notice], ch.cap, by simp only [List.length_append]; exact h⟩
  else ch

def rest (ch : NoticeChan) : NoticeChan :=
  ⟨ch.buffer.tail, ch.cap, by have := ch.hcap; simp only [List.length_tail]; omega⟩

variable {notice : ChangeNotification} {ch : NoticeChan}

theorem mem_trySend {c : ChangeNotification} (h : c ∈ (ch.trySend notice).buffer) :
    c ∈ ch.buffer ∨ c = notice := by
  rw [trySend] at h
  split at h
  · simpa using h
  · exact Or.inl h

theorem trySend_buffer_of_lt (h : ch.buffer.length < ch.cap) :
    (ch.trySend notice).buffer = ch.buffer ++ [notice] := by
  rw [trySend, dif_pos h]

theorem trySend_of_full (h : ¬ ch.buffer.length < ch.cap) : ch.trySend notice = ch := by
  rw [trySend, dif_neg h]

/-- A channel that is only sent to holds the first notices sent. -/
theorem trySend_take {l : List ChangeNotification} (notice : ChangeNotification)
    (h : ch.buffer = l.take ch.cap) :
    (ch.trySend notice).cap = ch.cap
      ∧ (ch.trySend notice).buffer = (l ++ [notice]).take ch.cap := by
  by_cases hroom : ch.buffer.length < ch.cap
  · have hlen : l.length < ch.cap := by
      rw [h, List.length_take] at hroom
      omega
    refine ⟨by rw [trySend, dif_pos hroom], ?_⟩
    rw [trySend_buffer_of_lt hroom, h, List.take_of_length_le (by omega),
      List.take_of_length_le (by simp; omega)]
  · have hlen : ch.cap ≤ l.length := by
      rw [h, List.length_take] at hroom
      omega
    rw [trySend_of_full hroom]
    exact ⟨rfl, by rw [h, List.take_append_of_le_length hlen]⟩

end NoticeChan

structure Hub where
  subscribers : GoMap String (GoMap Nat NoticeChan)
  nextID : Nat

namespace Hub

def new : Hub := ⟨.empty, 0⟩

/-- The subscriptions of a node; a missing map reads as an empty one. -/
def nodeSubs (hub : Hub) (nodeID : String) : GoMap Nat NoticeChan :=
  (hub.subscribers.get? nodeID).getD .empty

def subscribe (hub : Hub) (nodeID : String) (buffer : Nat) : Nat × Hub :=
  let id := hub.nextID + 1
  (id, { nextID := id
         subscribers := hub.subscribers.set nodeID ((hub.nodeSubs nodeID).set id (.make buffer)) })

def unsubscribe (hub : Hub) (nodeID : String) (id : Nat) : Hub :=
  match hub.subscribers.get? nodeID with
  | none => hub
  | some nodeSubs =>
    match nodeSubs.get? id with
    | none => hub
    | some _ =>
      let nodeSubs := nodeSubs.delete id
      if nodeSubs.rows.length = 0 then
        { hub with subscribers := hub.subscribers.delete nodeID }
      else { hub with subscribers := hub.subscribers.set nodeID nodeSubs }

def boardcast (hub : Hub) (notification : ChangeNotification) : Hub :=
  { hub with
    subscribers := hub.subscribers.mapValues fun nodeSubs =>
      nodeSubs.mapValues fun ch => ch.trySend notification }

def receive (hub : Hub) (nodeID : String) (id : Nat) : Hub :=
  match (hub.nodeSubs nodeID).get? id with
  | none => hub
  | some ch =>
    { hub with
      subscribers := hub.subscribers.set nodeID ((hub.nodeSubs nodeID).set id ch.rest) }

def chan? (hub : Hub) (nodeID : String) (id : Nat) : Option NoticeChan :=
  (hub.nodeSubs nodeID).get? id

/-! ## What each operation does to a channel -/

theorem chan?_subscribe (hub : Hub) (nodeID : String) (buffer : Nat) (n : String) (i : Nat) :
    (hub.subscribe nodeID buffer).2.chan? n i
      = if nodeID = n ∧ hub.nextID + 1 = i then some (.make buffer)
        else hub.chan? n i :=
  GoMap.get?_inner_set (m := hub.subscribers) nodeID n (hub.nextID + 1) i (NoticeChan.make buffer)

theorem chan?_boardcast (hub : Hub) (c : ChangeNotification) (n : String) (i : Nat) :
    (hub.boardcast c).chan? n i = (hub.chan? n i).map fun ch => ch.trySend c := by
  simp only [chan?, nodeSubs, boardcast, GoMap.get?_mapValues]
  cases hub.subscribers.get? n with
  | none => rfl
  | some m => simp [GoMap.get?_mapValues]

theorem chan?_receive (hub : Hub) (nodeID : String) (id : Nat) (n : String) (i : Nat) :
    (hub.receive nodeID id).chan? n i
      = if nodeID = n ∧ id = i then (hub.chan? n i).map NoticeChan.rest
        else hub.chan? n i := by
  rw [receive]
  cases hch : (hub.nodeSubs nodeID).get? id with
  | none =>
    by_cases h : nodeID = n ∧ id = i
    · obtain ⟨rfl, rfl⟩ := h
      simp [chan?, hch]
    · rw [if_neg h]
  | some ch =>
    refine (GoMap.get?_inner_set nodeID n id i ch.rest).trans ?_
    by_cases h : nodeID = n ∧ id = i
    · obtain ⟨rfl, rfl⟩ := h
      simp [chan?, hch]
    · rw [if_neg h, if_neg h]
      rfl

/-- The last subscription of a node takes the node's map along. -/
theorem unsubscribe_eq (hub : Hub) (nodeID : String) (id : Nat) :
    hub.unsubscribe nodeID id
      = if (hub.chan? nodeID id).isSome then
          { hub with subscribers := hub.subscribers.deleteIn nodeID id }
        else hub := by
  rw [unsubscribe, chan?, nodeSubs]
  cases hm : hub.subscribers.get? nodeID with
  | none => rfl
  | some m =>
    rw [Option.getD_some]
    cases hch : m.get? id with
    | none => simp [hch]
    | some ch =>
      simp only [hch, Option.isSome_some, if_true, GoMap.deleteIn, GoMap.inner_of_get? hm]
      split <;> rfl

theorem chan?_unsubscribe (hub : Hub) (nodeID : String) (id : Nat) (n : String) (i : Nat) :
    (hub.unsubscribe nodeID id).chan? n i
      = if nodeID = n ∧ id = i then none else hub.chan? n i := by
  rw [unsubscribe_eq]
  split
  · exact GoMap.get?_inner_deleteIn nodeID n id i
  · rename_i hnone
    by_cases h : nodeID = n ∧ id = i
    · obtain ⟨rfl, rfl⟩ := h
      rw [if_pos ⟨rfl, rfl⟩]
      simpa using hnone
    · rw [if_neg h]

end Hub

end LunaEdge
