import GossipPlans.Basic
import Mathlib.Data.Finset.Insert
import Std.Data.TreeMap

/-!
# scoring: the beacon node's event loop

The tables of received messages, `handle_gossipsub_event` with its five topics, and the branches
of `run_sim`. Calls of the gossipsub behaviour are logged in the order in which they are made.
-/

namespace GossipPlans.BeaconNode

def attestationSubnets : Nat := 4
def syncSubnets : Nat := 4
def slotsPerEpoch : Nat := 32

inductive Topic where
  | blocks
  | attestations (subnetId : Nat)
  | aggregates (subnetId : Nat)
  | syncMessages (subnetId : Nat)
  | signedContributionAndProof (subnetId : Nat)
deriving DecidableEq, Repr

abbrev Payload := Nat × Nat × String

/-- The json text of topics and payloads, as `serde_json` writes and reads it. -/
structure Codec where
  topicText : Topic → String
  parseTopic : String → Option Topic
  encode : Payload → List UInt8
  decode : List UInt8 → Option Payload

structure Message where
  topic : String
  data : List UInt8
deriving DecidableEq, Repr

inductive Event where
  | message (propagationSource messageId : String) (message : Message)
  | other
deriving DecidableEq, Repr

inductive SwarmEvent where
  | behaviour (event : Event)
  | other
deriving DecidableEq, Repr

inductive Generated where
  | beaconBlock (proposer slot : Nat) (payload : String)
  | aggregateAndProofAttestation (aggregator subnet slot : Nat) (payload : String)
  | attestation (attester subnet slot : Nat) (payload : String)
  | signedContributionAndProof (validator subnet slot : Nat) (payload : String)
  | syncCommitteeMessage (validator subnet slot : Nat) (payload : String)
deriving DecidableEq, Repr

inductive SwarmCall where
  | publish (topic : String) (data : List UInt8)
  | reportMessageValidationResult (messageId propagationSource : String)
deriving DecidableEq, Repr

abbrev Seen := Std.TreeMap Nat (Finset Nat)
abbrev Received := Std.TreeMap Nat (List Nat)

structure Network where
  receivedBeaconBlocks : Seen
  receivedAggregates : List Received
  receivedAttestations : List Seen
  receivedSyncCommitteeAggregates : List Received
  receivedSyncCommitteeMessages : List Received
  calls : List SwarmCall

def Network.new : Network where
  receivedBeaconBlocks := ∅
  receivedAggregates := List.replicate attestationSubnets ∅
  receivedAttestations := List.replicate attestationSubnets ∅
  receivedSyncCommitteeAggregates := List.replicate syncSubnets ∅
  receivedSyncCommitteeMessages := List.replicate syncSubnets ∅
  calls := []

/-! ## `handle_gossipsub_event` -/

def epochOf (slot : Nat) : Nat := slot / slotsPerEpoch

/-- `entry(epoch).or_default().insert(x)` -/
def insertSeen (table : Seen) (epoch x : Nat) : Seen := table.alter epoch fun o => some (insert x (o.getD ∅))

/-- `entry(epoch).or_default().push(x)` -/
def pushReceived (table : Received) (epoch x : Nat) : Received := table.alter epoch fun o => some (o.getD [] ++ [x])

/-- `tables.get_mut(subnet_id as usize).expect("subnet_id")`, updated in place. -/
def updateSubnet {α : Type} (tables : List α) (subnetId : Nat) (f : α → α) : Run (List α) :=
  if subnetId < tables.length then .ok (tables.modify subnetId f) else .error (.panic (.expect "subnet_id"))

def topicOf (codec : Codec) (text : String) : Run Topic :=
  match codec.parseTopic text with
  | some topic => .ok topic
  | none => .error (.panic (.expect "json deserialization of topics never fails"))

def payloadOf (codec : Codec) (data : List UInt8) : Run Payload :=
  match codec.decode data with
  | some payload => .ok payload
  | none => .error (.panic .unwrapNone)

def handleGossipsubEvent (codec : Codec) (node : Network) : Event → Run Network
  | .message _ _ message => do
    let topic ← topicOf codec message.topic
    match topic with
    | .blocks =>
      let (_, slot, _) ← payloadOf codec message.data
      .ok { node with receivedBeaconBlocks := insertSeen node.receivedBeaconBlocks (epochOf slot) slot }
    | .aggregates subnetId =>
      let (validator, slot, _) ← payloadOf codec message.data
      let tables ← updateSubnet node.receivedAggregates subnetId (pushReceived · (epochOf slot) validator)
      .ok { node with receivedAggregates := tables }
    | .attestations subnetId =>
      let (validator, slot, _) ← payloadOf codec message.data
      let tables ← updateSubnet node.receivedAttestations subnetId (insertSeen · (epochOf slot) validator)
      .ok { node with receivedAttestations := tables }
    | .signedContributionAndProof subnetId =>
      let (validator, slot, _) ← payloadOf codec message.data
      let tables ← updateSubnet node.receivedSyncCommitteeAggregates subnetId (pushReceived · (epochOf slot) validator)
      .ok { node with receivedSyncCommitteeAggregates := tables }
    | .syncMessages subnetId =>
      let (validator, slot, _) ← payloadOf codec message.data
      let tables ← updateSubnet node.receivedSyncCommitteeMessages subnetId (pushReceived · (epochOf slot) validator)
      .ok { node with receivedSyncCommitteeMessages := tables }
  | .other => .ok node

/-! ## `run_sim` -/

def Generated.topicAndPayload : Generated → Topic × Payload
  | .beaconBlock v slot payload => (.blocks, v, slot, payload)
  | .aggregateAndProofAttestation v s slot payload => (.aggregates s, v, slot, payload)
  | .attestation v s slot payload => (.attestations s, v, slot, payload)
  | .signedContributionAndProof v s slot payload => (.signedContributionAndProof s, v, slot, payload)
  | .syncCommitteeMessage v s slot payload => (.syncMessages s, v, slot, payload)

def publish (codec : Codec) (node : Network) (topic : Topic) (msg : List UInt8) : Network :=
  { node with calls := node.calls ++ [.publish (codec.topicText topic) msg] }

inductive Branch where
  | deadline
  | generated (m : Generated)
  | scoreTick
  | swarmEvent (event : SwarmEvent)
deriving DecidableEq, Repr

/-- The body of a branch; recording scores and metrics runs in tasks of its own. -/
def runBranch (codec : Codec) (node : Network) : Branch → Run Network
  | .deadline => .ok node
  | .generated m => .ok (publish codec node m.topicAndPayload.1 (codec.encode m.topicAndPayload.2))
  | .scoreTick => .ok node
  | .swarmEvent (.behaviour event) => handleGossipsubEvent codec node event
  | .swarmEvent .other => .ok node

def Branch.message? : Branch → Option (String × String)
  | .swarmEvent (.behaviour (.message propagationSource messageId _)) => some (messageId, propagationSource)
  | _ => none

inductive Ending where
  | running
  | completed
  | failed (f : Fail)
deriving DecidableEq, Repr

structure Outcome where
  node : Network
  handled : List (String × String)
  ending : Ending

def runSim (codec : Codec) : Network → List Branch → Outcome
  | node, [] => ⟨node, [], .running⟩
  | node, branch :: branches =>
    if branch = .deadline then ⟨node, [], .completed⟩
    else match runBranch codec node branch with
      | .error f => ⟨node, branch.message?.toList, .failed f⟩
      | .ok node' =>
        let o := runSim codec node' branches
        ⟨o.node, branch.message?.toList ++ o.handled, o.ending⟩

/-! ## Validation reports -/

/-- Each handled message has exactly one report, or one entry of the queue of messages to validate. -/
def Settled (handled reported queued : List (String × String)) : Prop := handled.Perm (reported ++ queued)

instance (handled reported queued : List (String × String)) : Decidable (Settled handled reported queued) :=
  inferInstanceAs (Decidable (handled.Perm _))

def SwarmCall.report? : SwarmCall → Option (String × String)
  | .reportMessageValidationResult messageId propagationSource => some (messageId, propagationSource)
  | .publish _ _ => none

def Network.reported (node : Network) : List (String × String) := node.calls.filterMap SwarmCall.report?

theorem handleGossipsubEvent_calls {codec : Codec} {node node' : Network} {event : Event}
    (h : handleGossipsubEvent codec node event = .ok node') : node'.calls = node.calls := by
  cases event with
  | other => cases h; rfl
  | message source id message =>
    obtain ⟨topic, -, h⟩ := bind_ok_iff.mp h
    cases topic with
    | blocks =>
      obtain ⟨payload, -, h⟩ := bind_ok_iff.mp h
      cases h; rfl
    | attestations subnetId | aggregates subnetId | syncMessages subnetId | signedContributionAndProof subnetId =>
      obtain ⟨payload, -, h⟩ := bind_ok_iff.mp h
      obtain ⟨tables, -, h⟩ := bind_ok_iff.mp h
      cases h; rfl

/-- **No branch reports.** -/
theorem runBranch_reported {codec : Codec} {node node' : Network} {branch : Branch}
    (h : runBranch codec node branch = .ok node') : node'.reported = node.reported := by
  cases branch with
  | deadline | scoreTick => cases h; rfl
  | generated m =>
    cases h
    simp [Network.reported, publish, SwarmCall.report?]
  | swarmEvent event =>
    cases event with
    | behaviour event => rw [Network.reported, handleGossipsubEvent_calls h]; rfl
    | other => cases h; rfl

theorem runBranch_ok (codec : Codec) (node : Network) {branch : Branch} (h : branch.message? = none) :
    ∃ node', runBranch codec node branch = .ok node' := by
  cases branch with
  | deadline | generated m | scoreTick => exact ⟨_, rfl⟩
  | swarmEvent event =>
    cases event with
    | behaviour event =>
      cases event with
      | message source id message => cases h
      | other => exact ⟨_, rfl⟩
    | other => exact ⟨_, rfl⟩

theorem runSim_reported (codec : Codec) : ∀ (branches : List Branch) (node : Network),
    (runSim codec node branches).node.reported = node.reported
  | [], _ => rfl
  | branch :: branches, node => by
    rw [runSim]
    split
    · rfl
    · split
      · rfl
      · rename_i node' h
        exact (runSim_reported codec branches node').trans (runBranch_reported h)

def beforeDeadline (branches : List Branch) : List Branch := branches.takeWhile (· ≠ .deadline)

theorem handled_eq_nil_iff (codec : Codec) : ∀ (branches : List Branch) (node : Network),
    (runSim codec node branches).handled = [] ↔ ∀ branch ∈ beforeDeadline branches, branch.message? = none
  | [], _ => by simp [runSim, beforeDeadline]
  | branch :: branches, node => by
    by_cases hd : branch = .deadline
    · simp [runSim, beforeDeadline, hd]
    have hbefore : beforeDeadline (branch :: branches) = branch :: beforeDeadline branches := by
      simp [beforeDeadline, hd]
    rw [runSim, if_neg hd, hbefore, List.forall_mem_cons]
    cases hm : branch.message? with
    | none =>
      obtain ⟨node', h⟩ := runBranch_ok codec node hm
      simp [h, handled_eq_nil_iff codec branches node']
    | some m => split <;> simp

/-- **When every handled message is reported.** In the runs that hand no message to the handler: it has
no queue of messages to validate and reports none. -/
theorem settled_iff_no_message (codec : Codec) (branches : List Branch) :
    Settled (runSim codec Network.new branches).handled (runSim codec Network.new branches).node.reported [] ↔
      ∀ branch ∈ beforeDeadline branches, branch.message? = none := by
  have hreported : (runSim codec Network.new branches).node.reported = [] := runSim_reported codec branches _
  rw [Settled, hreported, ← handled_eq_nil_iff codec branches Network.new]
  exact List.perm_nil

def Codec.oneBlock : Codec where
  topicText _ := "\"Blocks\""
  parseTopic s := if s = "\"Blocks\"" then some .blocks else none
  encode _ := [91, 51, 44, 49, 44, 34, 34, 93]
  decode data := if data = [91, 51, 44, 49, 44, 34, 34, 93] then some (3, 1, "") else none

theorem block_not_settled :
    let o := runSim Codec.oneBlock Network.new [.swarmEvent (.behaviour
      (.message "peer" "id" ⟨"\"Blocks\"", [91, 51, 44, 49, 44, 34, 34, 93]⟩)), .deadline]
    o.ending = .completed ∧ ¬ Settled o.handled o.node.reported [] := by
  decide

end GossipPlans.BeaconNode
