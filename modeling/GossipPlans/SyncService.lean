import GossipPlans.CounterNet

/-!
# The sync service

A state of the service is a counter of signals, and a topic is a counter of published items:
`signal_and_wait` increments and waits, and collecting `k` items from a topic waits until `k` items
were published, since a subscriber gets all of them.
-/

namespace GossipPlans

open CounterNet

inductive Key where
  | state (name : String)
  | topic (name : String)
deriving DecidableEq, Repr

variable {α : Type}

/-- `client.signal_and_wait(state, target)` -/
def signalAndWait (state : String) (target : Nat) : List (Act Key α) := [.signal (.state state), .await (.state state) target]

/-- `client.publish(topic, ..)`, then `count` items from `client.subscribe(topic)`. -/
def publishAndCollect (topic : String) (count : Nat) : List (Act Key α) :=
  [.signal (.topic topic), .await (.topic topic) count]

@[simp] theorem mem_signalAndWait {x : Act Key α} {state : String} {target : Nat} :
    x ∈ signalAndWait state target ↔ x = .signal (.state state) ∨ x = .await (.state state) target := by
  simp [signalAndWait]

@[simp] theorem mem_publishAndCollect {x : Act Key α} {topic : String} {count : Nat} :
    x ∈ publishAndCollect topic count ↔ x = .signal (.topic topic) ∨ x = .await (.topic topic) count := by
  simp [publishAndCollect]

@[simp] theorem sync_signalAndWait (state : String) (target : Nat) :
    sync (signalAndWait state target : List (Act Key α)) = signalAndWait state target := rfl

@[simp] theorem locals_signalAndWait (state : String) (target : Nat) :
    locals (signalAndWait state target : List (Act Key α)) = [] := rfl

@[simp] theorem signals_signalAndWait (s state : String) (target : Nat) :
    signals (.state s) (signalAndWait state target : List (Act Key α)) = if state = s then 1 else 0 := by
  by_cases h : state = s <;> simp [signalAndWait, Act.isSignal, h]

@[simp] theorem signals_publishAndCollect (s topic : String) (count : Nat) :
    signals (.state s) (publishAndCollect topic count : List (Act Key α)) = 0 := by
  simp [publishAndCollect, Act.isSignal]

@[simp] theorem signals_topic_signalAndWait (t state : String) (target : Nat) :
    signals (.topic t) (signalAndWait state target : List (Act Key α)) = 0 := by
  simp [signalAndWait, Act.isSignal]

@[simp] theorem signals_topic_publishAndCollect (t topic : String) (count : Nat) :
    signals (.topic t) (publishAndCollect topic count : List (Act Key α)) = if topic = t then 1 else 0 := by
  by_cases h : topic = t <;> simp [publishAndCollect, Act.isSignal, h]

end GossipPlans
