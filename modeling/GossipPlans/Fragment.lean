import GossipPlans.Basic

/-!
# Fragmenting an rpc

`MaliciousBehaviour::fragment_message`, the same text in the scoring and the censoring plan. The
messages inside an rpc are only measured and cloned, so a schema gives their types and lengths.
-/

namespace GossipPlans

inductive Kind where
  | subscriptions
  | publish
  | ihave
  | iwant
  | graft
  | prune
deriving DecidableEq, Repr

structure Schema where
  Body : Kind → Type
  encodedLen : {k : Kind} → Body k → Nat

variable {S : Schema}

structure ControlMessage (S : Schema) where
  ihave : List (S.Body .ihave)
  iwant : List (S.Body .iwant)
  graft : List (S.Body .graft)
  prune : List (S.Body .prune)

def ControlMessage.default : ControlMessage S := ⟨[], [], [], []⟩

structure Rpc (S : Schema) where
  subscriptions : List (S.Body .subscriptions)
  publish : List (S.Body .publish)
  control : Option (ControlMessage S)

def Rpc.new : Rpc S := ⟨[], [], none⟩

def Rpc.isNew (rpc : Rpc S) : Bool := rpc.subscriptions.isEmpty && rpc.publish.isEmpty && rpc.control.isNone

/-! ## Protobuf lengths -/

def varintLen (n : Nat) : Nat := n.log2 / 7 + 1

/-- A nested message of length `n`: its tag, its length and its body. -/
def framed (n : Nat) : Nat := 1 + varintLen n + n

def framedLen {k : Kind} (bodies : List (S.Body k)) : Nat := (bodies.map fun x => framed (S.encodedLen x)).sum

def ControlMessage.encodedLen (c : ControlMessage S) : Nat :=
  framedLen c.ihave + framedLen c.iwant + framedLen c.graft + framedLen c.prune

def Rpc.encodedLen (rpc : Rpc S) : Nat :=
  framedLen rpc.subscriptions + framedLen rpc.publish + (rpc.control.map fun c => framed c.encodedLen).getD 0

/-! ## `fragment_message` -/

inductive PublishError where
  | messageTooLarge
deriving DecidableEq, Repr

structure RpcList (S : Schema) where
  closed : List (Rpc S)
  last : Rpc S

def RpcList.toList (list : RpcList S) : List (Rpc S) := list.closed ++ [list.last]

/-- `(object_size as f64 * 1.05) as usize` -/
def withPrefix (objectSize : Nat) : Nat := 21 * objectSize / 20

def createOrAddRpc (maxTransmitSize objectSize : Nat) (list : RpcList S) : RpcList S :=
  if list.last.encodedLen + withPrefix objectSize > maxTransmitSize ∧ list.last.isNew = false then
    ⟨list.closed ++ [list.last], Rpc.new⟩
  else list

/-- Push one object to its field; a control field is pushed to `control.get_or_insert_with(..)`. -/
def Rpc.push (rpc : Rpc S) : (k : Kind) → S.Body k → Rpc S
  | .subscriptions, x => { rpc with subscriptions := rpc.subscriptions ++ [x] }
  | .publish, x => { rpc with publish := rpc.publish ++ [x] }
  | .ihave, x =>
    let c := rpc.control.getD .default
    { rpc with control := some { c with ihave := c.ihave ++ [x] } }
  | .iwant, x =>
    let c := rpc.control.getD .default
    { rpc with control := some { c with iwant := c.iwant ++ [x] } }
  | .graft, x =>
    let c := rpc.control.getD .default
    { rpc with control := some { c with graft := c.graft ++ [x] } }
  | .prune, x =>
    let c := rpc.control.getD .default
    { rpc with control := some { c with prune := c.prune ++ [x] } }

def addControl (maxTransmitSize : Nat) (k : Kind) : List (S.Body k) → RpcList S → RpcList S
  | [], list => list
  | x :: xs, list =>
    let list := createOrAddRpc maxTransmitSize (S.encodedLen x) list
    addControl maxTransmitSize k xs { list with last := list.last.push k x }

def addItems (maxTransmitSize : Nat) (k : Kind) : List (S.Body k) → RpcList S → Except PublishError (RpcList S)
  | [], list => .ok list
  | x :: xs, list =>
    if S.encodedLen x + 2 > maxTransmitSize then .error .messageTooLarge
    else
      let list := createOrAddRpc maxTransmitSize (S.encodedLen x) list
      addItems maxTransmitSize k xs { list with last := list.last.push k x }

def fragmentMessage (maxTransmitSize : Nat) (rpc : Rpc S) : Except PublishError (List (Rpc S)) :=
  if rpc.encodedLen < maxTransmitSize then .ok [rpc]
  else do
    let list ← addItems maxTransmitSize .publish rpc.publish ⟨[], Rpc.new⟩
    let list ← addItems maxTransmitSize .subscriptions rpc.subscriptions list
    match rpc.control with
    | none => .ok list.toList
    | some control =>
      if control.encodedLen + 2 > maxTransmitSize then
        let list := addControl maxTransmitSize .ihave control.ihave list
        let list := addControl maxTransmitSize .iwant control.iwant list
        let list := addControl maxTransmitSize .graft control.graft list
        let list := addControl maxTransmitSize .prune control.prune list
        .ok list.toList
      else
        let list := createOrAddRpc maxTransmitSize control.encodedLen list
        .ok { list with last := { list.last with control := some control } }.toList

end GossipPlans
