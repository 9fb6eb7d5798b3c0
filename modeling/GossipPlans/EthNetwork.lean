import GossipPlans.Topology

/-!
# eth_consensus: parameters, participants and dialing

`main` numbers the instances from 0 and drops its own entry from the collected infos;
`parse_params` splits the instances by `no_val_percentage`; `dial_peers` dials the outbound peers
of the generated topology.
-/

namespace GossipPlans

structure InstanceInfo where
  peerId : String
  multiaddr : String
deriving DecidableEq, Repr

namespace Eth

def parseParams (b : Build) (instanceCount : Nat) (instanceParams : InstanceParams) : Run (Nat × Params) := do
  let v ← required instanceParams "seed" "seed is not specified."
  let seed ← parseField v id
  let v ← required instanceParams "no_val_percentage" "`no_val_percentage` is not specified"
  let noValPercentage ← parseField v id
  let noValPercentage := min noValPercentage 100
  let v ← required instanceParams "total_validators" "`total_validators` not specified"
  let totalValidators ← parseField v fun e => "Error reading total_validators " ++ e
  let v ← required instanceParams "min_peers_per_node" "`min_peers_per_node` not specified"
  let minPeersPerNode ← parseField v id
  let v ← required instanceParams "max_peers_per_node_inclusive" "`max_peers_per_node_inclusive` not specified"
  let maxPeersPerNodeInclusive ← parseField v id
  let scaled ← usizeMul b instanceCount noValPercentage
  let totalNodesWithoutVals := scaled / 100
  let totalNodesWithVals ← usizeSub b instanceCount totalNodesWithoutVals
  let v ← required instanceParams "run" "run is not specified."
  let run ← parseField v id
  let params ← Params.new b seed totalValidators totalNodesWithVals totalNodesWithoutVals minPeersPerNode
    maxPeersPerNodeInclusive
  .ok (run, params)

/-- The network definition starts at 0 and the testground sequences start at 1. -/
def nodeIdOf (globalSeq : Nat) : Nat := globalSeq - 1

abbrev Participants := Std.TreeMap Nat InstanceInfo

def participantsOf (instanceCount nodeId : Nat) (stream : List (Nat × InstanceInfo)) : Participants :=
  .ofList ((stream.take instanceCount).filter fun e => e.1 ≠ nodeId)

structure Dial where
  node : Nat
  peer : Nat
  info : InstanceInfo
deriving DecidableEq, Repr

/-- The loop over the outbound peers: the dials made, and the panic that ended it, if any.
`accepts` says whether the swarm takes a dial. -/
def dialLoop (accepts : InstanceInfo → Bool) (nodeId : Nat) (participants : Participants) :
    List Nat → List Dial × Option Panic
  | [] => ([], none)
  | peer :: peers =>
    match participants[peer]? with
    | none => ([], some (.notParticipant nodeId peer))
    | some info =>
      if accepts info then
        let r := dialLoop accepts nodeId participants peers
        (⟨nodeId, peer, info⟩ :: r.1, r.2)
      else ([⟨nodeId, peer, info⟩], some (.dialFailed nodeId peer))

def dialPeers (accepts : InstanceInfo → Bool) (nodeId : Nat) (participants : Participants)
    (outboundPeers : OutboundPeers) : List Dial × Option Panic :=
  match outboundPeers[nodeId]? with
  | some peers => dialLoop accepts nodeId participants peers
  | none => ([], none)

end Eth

end GossipPlans
