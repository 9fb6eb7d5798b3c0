import GossipPlans.Fragment
import Mathlib.Logic.Function.Basic

/-!
# The attacker's behaviour

`MaliciousBehaviour` of the scoring and the censoring plan: it answers subscriptions with GRAFTs, and a
PRUNE with a GRAFT once the backoff and a delay have passed. `HashSetDelay` is a map from peer and topic
to a deadline in nanoseconds, which takes some delays and not others. A world adds the clock and a history of what was pushed and received.
-/

namespace GossipPlans.Malicious

/-- The backoff time for pruned peers, in seconds. -/
def pruneBackoff : Nat := 60
def pruneBackoffDelay : Nat := 5
def second : Nat := 1000000000

inductive SubscriptionAction where
  | subscribe
  | unsubscribe
deriving DecidableEq, Repr

structure Subscription where
  action : SubscriptionAction
  topicHash : String
deriving DecidableEq, Repr

inductive ControlAction where
  | iHave
  | iWant
  | graft (topicHash : String)
  | prune (topicHash : String) (backoff : Option Nat)
deriving DecidableEq, Repr

structure GossipsubRpc where
  subscriptions : List Subscription
  controlMsgs : List ControlAction
deriving DecidableEq, Repr

inductive HandlerEvent where
  | message (rpc : GossipsubRpc)
  | peerKind
deriving DecidableEq, Repr

variable {S : Schema}

/-- GRAFTs on the wire: each holds its topic. -/
structure GraftCodec (S : Schema) where
  toGraft : String → S.Body .graft
  topicId : S.Body .graft → String
  topicId_toGraft : ∀ topic, topicId (toGraft topic) = topic

/-- `GossipsubRpc::into_protobuf` of an rpc with one GRAFT for each topic: the order is kept. -/
def GraftCodec.intoProtobuf (codec : GraftCodec S) (topics : List String) : Rpc S :=
  ⟨[], [], some ⟨[], [], topics.map codec.toGraft, []⟩⟩

structure MaliciousBehaviour (S : Schema) where
  maxTransmitSize : Nat
  events : List (String × Rpc S)
  regraft : String × String → Option Nat

def MaliciousBehaviour.new (maxTransmitSize : Nat) : MaliciousBehaviour S := ⟨maxTransmitSize, [], fun _ => none⟩

def sendMessage (b : MaliciousBehaviour S) (peerId : String) (message : Rpc S) :
    Except PublishError (MaliciousBehaviour S) := do
  let messages ← fragmentMessage b.maxTransmitSize message
  .ok { b with events := b.events ++ messages.map (peerId, ·) }

/-- `if let Err(error) = self.send_message(..) { error!(..) }` -/
def sendGrafts (codec : GraftCodec S) (b : MaliciousBehaviour S) (peerId : String) (topics : List String) :
    MaliciousBehaviour S :=
  match sendMessage b peerId (codec.intoProtobuf topics) with
  | .ok b => b
  | .error _ => b

def topicsToGraft (subscriptions : List Subscription) : List String :=
  subscriptions.filterMap fun s =>
    match s.action with
    | .subscribe => some s.topicHash
    | .unsubscribe => none

def handleReceivedSubscriptions (codec : GraftCodec S) (b : MaliciousBehaviour S) (subscriptions : List Subscription)
    (propagationSource : String) : MaliciousBehaviour S :=
  if topicsToGraft subscriptions = [] then b else sendGrafts codec b propagationSource (topicsToGraft subscriptions)

def pruneMsgs (controlMsgs : List ControlAction) : List (String × Option Nat) :=
  controlMsgs.filterMap fun
    | .iHave => none
    | .iWant => none
    | .graft _ => none
    | .prune topicHash backoff => some (topicHash, backoff)

structure Delays where
  /-- `backoff + PRUNE_BACKOFF_DELAY` -/
  add : Nat → Run Nat
  /-- Whether `HashSetDelay` takes a delay in seconds from a time on. It panics for a deadline that is too far away. -/
  takes : Nat → Nat → Bool

/-- `HashSetDelay::insert_at`, up to the deadline. -/
def insertAt (takes : Nat → Nat → Bool) (now delay : Nat) : Run Nat :=
  if takes now delay then .ok (now + delay * second) else .error (.panic .invalidDeadline)

/-- Without a backoff the entry is inserted with the timeout of the table. -/
def regraftDelay (delays : Delays) : Option Nat → Run Nat
  | some backoff => delays.add backoff
  | none => .ok (pruneBackoff + pruneBackoffDelay)

def regraftDeadline (delays : Delays) (now : Nat) (backoff : Option Nat) : Run Nat := do
  let delay ← regraftDelay delays backoff
  insertAt delays.takes now delay

def handlePrune (delays : Delays) (now : Nat) (peerId : String) :
    List (String × Option Nat) → MaliciousBehaviour S → Run (MaliciousBehaviour S)
  | [], b => .ok b
  | (topicHash, backoff) :: pruneData, b => do
    let deadline ← regraftDeadline delays now backoff
    handlePrune delays now peerId pruneData
      { b with regraft := Function.update b.regraft (peerId, topicHash) (some deadline) }

def injectEvent (codec : GraftCodec S) (delays : Delays) (now : Nat) (b : MaliciousBehaviour S)
    (propagationSource : String) : HandlerEvent → Run (MaliciousBehaviour S)
  | .message rpc =>
    handlePrune delays now propagationSource (pruneMsgs rpc.controlMsgs)
      (handleReceivedSubscriptions codec b rpc.subscriptions propagationSource)
  | .peerKind => .ok b

def regraftExpired (codec : GraftCodec S) : List (String × String) → MaliciousBehaviour S → MaliciousBehaviour S
  | [], b => b
  | (peerId, topicHash) :: expired, b =>
    regraftExpired codec expired
      (sendGrafts codec { b with regraft := Function.update b.regraft (peerId, topicHash) none } peerId [topicHash])

/-- `Poll::Ready` of an event, or `Poll::Pending` after the expired entries are sent. -/
def poll (codec : GraftCodec S) (expired : List (String × String)) (b : MaliciousBehaviour S) :
    MaliciousBehaviour S × Option (String × Rpc S) :=
  match b.events with
  | event :: events => ({ b with events := events }, some event)
  | [] => (regraftExpired codec expired b, none)

/-! ## Runs -/

inductive Input where
  | injectEvent (propagationSource : String) (event : HandlerEvent)
  | poll (expired : List (String × String))
deriving DecidableEq, Repr

inductive Entry (S : Schema) where
  | pushed (time : Nat) (peerId : String) (message : Rpc S)
  | pruned (time : Nat) (peerId topicHash : String) (backoff : Option Nat)

/-- `history` begins with what happened last. -/
structure World (S : Schema) where
  now : Nat
  behaviour : MaliciousBehaviour S
  history : List (Entry S)
  returned : List (String × Rpc S)

def World.new (maxTransmitSize : Nat) : World S := ⟨0, .new maxTransmitSize, [], []⟩

def newlyPushed (before after : MaliciousBehaviour S) : List (String × Rpc S) := after.events.drop before.events.length

def record (time : Nat) (pushed : List (String × Rpc S)) (history : List (Entry S)) : List (Entry S) :=
  (pushed.map fun e => .pushed time e.1 e.2).reverse ++ history

def recordPrunes (time : Nat) (peerId : String) (prunes : List (String × Option Nat)) (history : List (Entry S)) :
    List (Entry S) :=
  (prunes.map fun p => .pruned time peerId p.1 p.2).reverse ++ history

def HandlerEvent.prunes : HandlerEvent → List (String × Option Nat)
  | .message rpc => pruneMsgs rpc.controlMsgs
  | .peerKind => []

def World.step (codec : GraftCodec S) (delays : Delays) (w : World S) (time : Nat) : Input → Run (World S)
  | .injectEvent source event => do
    let b ← GossipPlans.Malicious.injectEvent codec delays time w.behaviour source event
    .ok { w with
      now := time
      behaviour := b
      history := recordPrunes time source event.prunes (record time (newlyPushed w.behaviour b) w.history) }
  | .poll expired =>
    match GossipPlans.Malicious.poll codec expired w.behaviour with
    | (b, some event) => .ok { w with now := time, behaviour := b, returned := w.returned ++ [event] }
    | (b, none) =>
      .ok { w with now := time, behaviour := b, history := record time (newlyPushed w.behaviour b) w.history }

/-- Time does not go back. The table yields entries that are due, each once, and only when it is polled. -/
def Admissible (w : World S) (time : Nat) : Input → Prop
  | .injectEvent _ _ => w.now ≤ time
  | .poll expired =>
    w.now ≤ time ∧ (w.behaviour.events ≠ [] → expired = []) ∧ expired.Nodup ∧
      ∀ key ∈ expired, ∃ deadline ∈ w.behaviour.regraft key, deadline ≤ time

section
variable (codec : GraftCodec S) (delays : Delays) (maxTransmitSize : Nat)
  (G : World S → Nat → Input → Prop)

/-- Runs whose steps satisfy `G`, with their timed inputs and what they lead to. -/
inductive Runs : List (Nat × Input) → Run (World S) → Prop
  | init : Runs [] (.ok (World.new maxTransmitSize))
  | step {inputs : List (Nat × Input)} {w : World S} {time : Nat} {input : Input} : Runs inputs (.ok w) →
      Admissible w time input → G w time input → Runs (inputs ++ [(time, input)]) (w.step codec delays time input)

variable {codec delays maxTransmitSize G} in
theorem Runs.run {inputs : List (Nat × Input)} {outcome : Run (World S)}
    (h : Runs codec delays maxTransmitSize G inputs outcome) :
    Runs codec delays maxTransmitSize (fun _ _ _ => True) inputs outcome := by
  induction h with
  | init => exact .init
  | step _ ha _ ih => exact .step ih ha trivial

def execAll [∀ w time input, Decidable (Admissible (S := S) w time input ∧ G w time input)] :
    World S → List (Nat × Input) → Option (World S)
  | w, [] => some w
  | w, (time, input) :: inputs =>
    if Admissible w time input ∧ G w time input then
      match w.step codec delays time input with
      | .ok w' => execAll w' inputs
      | .error _ => none
    else none

end

instance (w : World S) (time : Nat) : (input : Input) → Decidable (Admissible w time input)
  | .injectEvent _ _ => inferInstanceAs (Decidable (w.now ≤ time))
  | .poll expired =>
    have : Decidable (w.behaviour.events ≠ []) :=
      decidable_of_iff (w.behaviour.events.isEmpty = false) (by simp)
    inferInstanceAs (Decidable (_ ∧ (_ → _) ∧ _ ∧ _))

theorem execAll_runs {codec : GraftCodec S} {delays : Delays} {maxTransmitSize : Nat}
    {G : World S → Nat → Input → Prop} [∀ w time input, Decidable (Admissible (S := S) w time input ∧ G w time input)] :
    ∀ {rest inputs : List (Nat × Input)} {w w' : World S}, Runs codec delays maxTransmitSize G inputs (.ok w) →
    execAll codec delays G w rest = some w' → Runs codec delays maxTransmitSize G (inputs ++ rest) (.ok w')
  | [], inputs, w, w', h, hexec => by
    cases hexec
    rwa [List.append_nil]
  | (time, input) :: rest, inputs, w, w', h, hexec => by
    unfold execAll at hexec
    split at hexec
    · rename_i hok
      cases hstep : w.step codec delays time input with
      | error e => rw [hstep] at hexec; cases hexec
      | ok w₁ =>
        rw [hstep] at hexec
        have hnext := Runs.step h hok.1 hok.2
        rw [hstep] at hnext
        rw [List.append_cons]
        exact execAll_runs hnext hexec
    · cases hexec

/-! ## GRAFTs as they are on the wire -/

/-- A GRAFT is its topic: the tag, the length and the bytes of `topic_id`. -/
def Schema.topics : Schema := ⟨fun _ => String, fun topic => framed topic.utf8ByteSize⟩

def GraftCodec.topics : GraftCodec Schema.topics := ⟨id, id, fun _ => rfl⟩

end GossipPlans.Malicious
