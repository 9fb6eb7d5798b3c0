import GossipPlans.SyncService
import Mathlib.Data.Finset.Lattice.Basic
import Mathlib.Data.Fintype.Fin

/-!
# smoke: the events of an instance

Three loops and four barriers take events from one swarm. A barrier keeps its events in a buffer until it is
passed; the connection loop drops what it does not wait for, and the subscription loop panics on it. The
instances meet at the counters of the barriers, and a relation says which events may be delivered.
-/

namespace GossipPlans.Smoke

open CounterNet

inductive Local where
  | listen
  | dial
  | connected
  | subscribe
  | unsubscribe
  | allSubscribed
  | publish
  | receivedAll
  | recordSuccess
deriving DecidableEq, Repr

def startedListening : String := "Started listening"
def connectedToAPeer : String := "Connected to a peer"
def subscribedATopic : String := "Subscribed a topic"
def publishedAMessage : String := "Published a message"

abbrev Program : Type := List (Act Key Local)

def startLibp2p (n : Nat) : Program := .act .listen :: signalAndWait startedListening n

def connectToAPeer (n : Nat) : Program :=
  publishAndCollect "publish_and_collect" n ++ .act .dial :: .act .connected :: signalAndWait connectedToAPeer n

def subscribeATopic (n : Nat) : Program :=
  .act .subscribe :: .act .allSubscribed :: signalAndWait subscribedATopic n

def publishASingleMessage (n : Nat) : Program :=
  .act .publish :: .act .receivedAll :: (signalAndWait publishedAMessage n ++ [.act .recordSuccess])

/-- `main` of one of `n` instances. An instance is at `connected`, `allSubscribed` or `receivedAll` while it
waits in the loop that ends there; `receivedAll` records "Received all the published messages". -/
def main (n : Nat) : Program :=
  startLibp2p n ++ (connectToAPeer n ++ (subscribeATopic n ++ publishASingleMessage n))

def instances (n : Nat) : Fin n → Program := fun _ => main n

/-- Events of the swarm. A peer id is the number of the instance. -/
inductive Event (n : Nat) where
  | subscribed (peer : Fin n)
  | unsubscribed (peer : Fin n)
  | message (source : Fin n)
  | gossipsubNotSupported (peer : Fin n)
  | connectionEstablished (asDialer : Bool)
  | other
deriving DecidableEq, Repr

inductive Loop where
  | barrier
  | connect
  | subscribe
  | receive
deriving DecidableEq, Repr

inductive Outcome where
  | running
  | unreachable
  | failure
deriving DecidableEq, Repr

/-- The variables of `main`; `waiting` says that the test before a loop has been made, `buffer` holds the
events of a barrier, and `consumed` all events with the loop that took them. -/
structure Node (n : Nat) where
  eventSubscribed : Nat
  eventMessage : Finset (Fin n)
  allPeers : Nat
  waiting : Bool
  buffer : List (Event n)
  consumed : List (Loop × Event n)
  outcome : Outcome

variable {n : Nat}

def Node.new : Node n := ⟨0, ∅, 0, false, [], [], .running⟩

/-! ## One instance -/

def Node.record (node : Node n) : Event n → Node n
  | .subscribed _ => { node with eventSubscribed := node.eventSubscribed + 1 }
  | .message source => { node with eventMessage := insert source node.eventMessage }
  | _ => node

def Node.drive (node : Node n) : Node n := { node.buffer.foldl Node.record node with buffer := [] }

/-- A step that takes no event; the loops are left otherwise. -/
def Node.act (node : Node n) : Act Key Local → Option (Node n)
  | .act .connected => none
  | .act .allSubscribed => none
  | .act .receivedAll => none
  | .await (.state _) _ => some node.drive
  | _ => some node

/-- The test before a loop, with the number of peers that the behaviour knows; the flag says that the loop
is skipped. -/
def Node.test (node : Node n) (allPeers : Nat) : Act Key Local → Option (Node n × Bool)
  | .act .allSubscribed =>
    if node.waiting then none
    else if node.eventSubscribed < allPeers then some ({ node with allPeers := allPeers, waiting := true }, false)
    else some ({ node with allPeers := allPeers }, true)
  | .act .receivedAll =>
    if node.waiting then none
    else if node.eventMessage.card < n - 1 then some ({ node with waiting := true }, false)
    else some (node, true)
  | _ => none

def Node.take (node : Node n) (loop : Loop) (event : Event n) : Node n :=
  { node with consumed := node.consumed ++ [(loop, event)] }

/-- An event in the subscription loop; the flag says that the loop is left. -/
def Node.consumeSubscribed (node : Node n) : Event n → Node n × Bool
  | .subscribed _ =>
    if node.eventSubscribed + 1 = node.allPeers then
      ({ node with eventSubscribed := node.eventSubscribed + 1, waiting := false }, true)
    else ({ node with eventSubscribed := node.eventSubscribed + 1 }, false)
  | .unsubscribed _ => ({ node with outcome := .unreachable }, false)
  | .message _ => ({ node with outcome := .unreachable }, false)
  | .gossipsubNotSupported _ => ({ node with outcome := .unreachable }, false)
  | .connectionEstablished _ => (node, false)
  | .other => (node, false)

/-- An event in the message loop; a second message of one source is a failure. -/
def Node.consumeMessage (node : Node n) : Event n → Node n × Bool
  | .message source =>
    if source ∈ node.eventMessage then ({ node with outcome := .failure }, false)
    else if (insert source node.eventMessage).card = n - 1 then
      ({ node with eventMessage := insert source node.eventMessage, waiting := false }, true)
    else ({ node with eventMessage := insert source node.eventMessage }, false)
  | _ => (node, false)

def Node.consume (node : Node n) (event : Event n) : Act Key Local → Option (Node n × Bool)
  | .signal (.state _) => some ({ node.take .barrier event with buffer := node.buffer ++ [event] }, false)
  | .await (.state _) _ => some ({ node.take .barrier event with buffer := node.buffer ++ [event] }, false)
  | .act .connected => some (node.take .connect event, decide (event = .connectionEstablished true))
  | .act .allSubscribed => if node.waiting then some ((node.take .subscribe event).consumeSubscribed event) else none
  | .act .receivedAll => if node.waiting then some ((node.take .receive event).consumeMessage event) else none
  | _ => none

/-! ## All instances -/

structure World (n : Nat) where
  net : State (Fin n) Key
  node : Fin n → Node n

def World.init : World n := ⟨.init, fun _ => .new⟩

def World.next (w : World n) (i : Fin n) : Option (Act Key Local) := (main n)[w.net.pc i]?

def World.put (w : World n) (i : Fin n) (x : Act Key Local) (node : Node n) (leaves : Bool) : World n :=
  ⟨if leaves then ⟨Function.update w.net.pc i (w.net.pc i + 1), bump w.net.count x⟩ else w.net,
    Function.update w.node i node⟩

/-- Gossipsub delivers what was sent: a Subscribed, Unsubscribed or Message event after the call of its peer,
and all instances run gossipsub. -/
def Sent (w : World n) : Event n → Prop
  | .subscribed peer => .act .subscribe ∈ executed (instances n) w.net peer
  | .unsubscribed peer => .act .unsubscribe ∈ executed (instances n) w.net peer
  | .message source => .act .publish ∈ executed (instances n) w.net source
  | .gossipsubNotSupported _ => False
  | .connectionEstablished _ => True
  | .other => True

section
variable (D : World n → Fin n → Event n → Prop)

/-- One step of instance `i`, where `D` says which events may be delivered to it. -/
inductive Moves (w : World n) (i : Fin n) : World n → Prop
  | act {x : Act Key Local} {node : Node n} : (w.node i).outcome = .running → w.next i = some x →
      Ready w.net.count x → (w.node i).act x = some node → Moves w i (w.put i x node true)
  | test {x : Act Key Local} {node : Node n} {leaves : Bool} (allPeers : Nat) : (w.node i).outcome = .running →
      w.next i = some x → (w.node i).test allPeers x = some (node, leaves) → Moves w i (w.put i x node leaves)
  | consume {x : Act Key Local} {node : Node n} {leaves : Bool} (event : Event n) : (w.node i).outcome = .running →
      w.next i = some x → D w i event → (w.node i).consume event x = some (node, leaves) →
      Moves w i (w.put i x node leaves)

def Reaches (w : World n) : Prop := Relation.ReflTransGen (fun w w' => ∃ i, Moves D w i w') World.init w

end

/-! ## What a step changes -/

theorem Node.leaves_of_test {node node' : Node n} {allPeers : Nat} {x : Act Key Local} {leaves : Bool}
    (h : node.test allPeers x = some (node', leaves)) : ∃ a, x = .act a := by
  cases x with
  | act a => exact ⟨a, rfl⟩
  | signal s | await s k => cases h

theorem Node.leaves_of_consume {node node' : Node n} {event : Event n} {x : Act Key Local}
    (h : node.consume event x = some (node', true)) : ∃ a, x = .act a := by
  cases x with
  | act a => exact ⟨a, rfl⟩
  | signal s | await s k => cases s <;> cases h

section
variable {w : World n} {i : Fin n}

theorem next_put_of_ne {x : Act Key Local} {node : Node n} {leaves : Bool} {k : Fin n} (h : k ≠ i) :
    (w.put i x node leaves).next k = w.next k := by
  cases leaves with
  | false => rfl
  | true => simp [World.next, World.put, Function.update_of_ne h]

theorem node_put_of_ne {x : Act Key Local} {node : Node n} {leaves : Bool} {k : Fin n} (h : k ≠ i) :
    (w.put i x node leaves).node k = w.node k := Function.update_of_ne h ..

@[simp] theorem node_put {x : Act Key Local} {node : Node n} {leaves : Bool} :
    (w.put i x node leaves).node i = node := Function.update_self ..

@[simp] theorem next_put_stay {x : Act Key Local} {node : Node n} : (w.put i x node false).next i = w.next i := rfl

@[simp] theorem next_put_leave {x : Act Key Local} {node : Node n} :
    (w.put i x node true).next i = (main n)[w.net.pc i + 1]? := by
  simp [World.next, World.put]

end

theorem foldl_record (events : List (Event n)) (node : Node n) : ∃ subscribed messages,
    events.foldl Node.record node = { node with eventSubscribed := subscribed, eventMessage := messages } ∧
      ∀ source, source ∈ messages ↔ source ∈ node.eventMessage ∨ .message source ∈ events := by
  induction events generalizing node with
  | nil => exact ⟨_, _, rfl, by simp⟩
  | cons event events ih =>
    obtain ⟨subscribed, messages, heq, hmem⟩ := ih (node.record event)
    refine ⟨subscribed, messages, ?_, fun source => ?_⟩
    · rw [List.foldl_cons, heq]
      cases event <;> rfl
    · rw [hmem]
      cases event <;> simp [Node.record, or_assoc, or_left_comm]

theorem drive_eq (node : Node n) : ∃ subscribed messages,
    node.drive = { node with eventSubscribed := subscribed, eventMessage := messages, buffer := [] } ∧
      ∀ source, source ∈ messages ↔ source ∈ node.eventMessage ∨ .message source ∈ node.buffer := by
  obtain ⟨subscribed, messages, heq, hmem⟩ := foldl_record node.buffer node
  exact ⟨subscribed, messages, by rw [Node.drive, heq], hmem⟩

/-! ## Executing a schedule -/

inductive Move (n : Nat) where
  | act
  | test (allPeers : Nat)
  | consume (event : Event n)

section
variable (D : World n → Fin n → Event n → Prop) [∀ w i event, Decidable (D w i event)]

def World.move (w : World n) (i : Fin n) : Move n → Option (World n)
  | .act => do
    let x ← w.next i
    if Ready w.net.count x ∧ (w.node i).outcome = .running then
      return w.put i x (← (w.node i).act x) true
    else none
  | .test allPeers => do
    let x ← w.next i
    if (w.node i).outcome = .running then
      let (node, leaves) ← (w.node i).test allPeers x
      return w.put i x node leaves
    else none
  | .consume event => do
    let x ← w.next i
    if D w i event ∧ (w.node i).outcome = .running then
      let (node, leaves) ← (w.node i).consume event x
      return w.put i x node leaves
    else none

def World.moveAll : World n → List (Fin n × Move n) → Option (World n)
  | w, [] => some w
  | w, (i, m) :: ms => (w.move D i m).bind fun w' => World.moveAll w' ms

theorem moves_of_move {w w' : World n} {i : Fin n} {m : Move n} (h : w.move D i m = some w') : Moves D w i w' := by
  cases m with
  | act =>
    obtain ⟨x, hx, h⟩ := Option.bind_eq_some_iff.mp h
    obtain ⟨⟨hready, hrun⟩, h⟩ := Option.ite_none_right_eq_some.mp h
    obtain ⟨node, hact, h⟩ := Option.bind_eq_some_iff.mp h
    cases h
    exact .act hrun hx hready hact
  | test allPeers =>
    obtain ⟨x, hx, h⟩ := Option.bind_eq_some_iff.mp h
    obtain ⟨hrun, h⟩ := Option.ite_none_right_eq_some.mp h
    obtain ⟨⟨node, leaves⟩, htest, h⟩ := Option.bind_eq_some_iff.mp h
    cases h
    exact .test allPeers hrun hx htest
  | consume event =>
    obtain ⟨x, hx, h⟩ := Option.bind_eq_some_iff.mp h
    obtain ⟨⟨hsent, hrun⟩, h⟩ := Option.ite_none_right_eq_some.mp h
    obtain ⟨⟨node, leaves⟩, hconsume, h⟩ := Option.bind_eq_some_iff.mp h
    cases h
    exact .consume event hrun hx hsent hconsume

theorem reaches_of_moveAll : ∀ {ms : List (Fin n × Move n)} {w w' : World n}, Reaches D w →
    w.moveAll D ms = some w' → Reaches D w'
  | [], _, _, hrun, h => by cases h; exact hrun
  | (i, m) :: ms, w, w', hrun, h => by
    obtain ⟨w₁, h₁, h⟩ := Option.bind_eq_some_iff.mp h
    exact reaches_of_moveAll (hrun.tail ⟨i, moves_of_move D h₁⟩) h

end

instance decidableSent (w : World n) : (event : Event n) → Decidable (Sent w event)
  | .subscribed _ => inferInstanceAs (Decidable (_ ∈ _))
  | .unsubscribed _ => inferInstanceAs (Decidable (_ ∈ _))
  | .message _ => inferInstanceAs (Decidable (_ ∈ _))
  | .gossipsubNotSupported _ => inferInstanceAs (Decidable False)
  | .connectionEstablished _ => inferInstanceAs (Decidable True)
  | .other => inferInstanceAs (Decidable True)

end GossipPlans.Smoke
