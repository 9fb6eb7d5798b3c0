import GossipPlans.BeaconNode
import GossipPlans.SyncService
import Mathlib.Data.Fintype.Sum

/-!
# scoring: the phases of beacon nodes and attackers

Two programs meet in two collection rounds and three barriers. The barriers separate listening,
dialing and the simulation, and no order of the steps blocks: an attacker publishes only after it has
the infos of all beacon nodes, and a beacon node publishes before it waits for anybody.
-/

namespace GossipPlans.Scoring

open CounterNet
open BeaconNode (Topic Branch attestationSubnets syncSubnets beforeDeadline)

def barrierLibp2pReady : String := "Started libp2p"
def barrierTopologyReady : String := "Topology generated"
def barrierSimulationCompleted : String := "Simulation completed"
def beaconNodeInfo : String := "beacon_node_info"
def attackerInfo : String := "attacker_info"

structure RunParameters where
  testInstanceCount : Nat
  testGroupInstanceCount : Nat
  group_le : testGroupInstanceCount ≤ testInstanceCount

def RunParameters.otherGroup (p : RunParameters) : Nat := p.testInstanceCount - p.testGroupInstanceCount

inductive Local where
  | parseTopologyParams
  | generate
  | recordTopologyBeaconNode
  | recordRunId
  | networkNew
  | listen
  | recordTopologyEdge
  | dial (nodeId : Nat)
  | dialedPeers (dialed : Nat)
  | subscribe (topic : Topic)
  | branch (b : Branch)
  | recordReceived
  | buildSwarm
  | recordTopologyAttacker
  | recordVictimId
  | recordSuccess
deriving DecidableEq, Repr

/-- `collect_attacker_info` and `collect_beacon_node_info` only read the other group's topic. -/
def collect (topic : String) (count : Nat) : List (Act Key Local) := [.await (.topic topic) count]

def dialPeers (outboundPeers : List Nat) : List Local :=
  outboundPeers.flatMap (fun nodeId => [.recordTopologyEdge, .dial nodeId]) ++ [.dialedPeers outboundPeers.length]

def subscribeTopics : List Local :=
  [.subscribe .blocks] ++
  (List.range attestationSubnets).flatMap (fun n => [.subscribe (.attestations n), .subscribe (.aggregates n)]) ++
  (List.range syncSubnets).flatMap fun n => [.subscribe (.syncMessages n), .subscribe (.signedContributionAndProof n)]

/-- The branches that the loop of `run_sim` takes, its deadline, and the records after it. -/
def runSim (branches : List Branch) : List Local :=
  (beforeDeadline branches).map .branch ++ [.branch .deadline, .recordReceived]

def beaconNodeStart (p : RunParameters) : List (Act Key Local) :=
  acts [.parseTopologyParams, .generate, .recordTopologyBeaconNode, .recordRunId] ++
  publishAndCollect beaconNodeInfo p.testGroupInstanceCount ++
  collect attackerInfo p.otherGroup ++
  acts [.networkNew, .listen]

def beaconNodeSim (p : RunParameters) (branches : List Branch) : List (Act Key Local) :=
  acts (subscribeTopics ++ runSim branches) ++ (signalAndWait barrierSimulationCompleted p.testInstanceCount ++
    acts [.recordSuccess])

def beaconNodeFromDial (p : RunParameters) (outboundPeers : List Nat) (branches : List Branch) : List (Act Key Local) :=
  acts (dialPeers outboundPeers) ++ (signalAndWait barrierTopologyReady p.testInstanceCount ++ beaconNodeSim p branches)

def beaconNodeFromReady (p : RunParameters) (outboundPeers : List Nat) (branches : List Branch) : List (Act Key Local) :=
  signalAndWait barrierLibp2pReady p.testInstanceCount ++ beaconNodeFromDial p outboundPeers branches

/-- `beacon_node::run` -/
def beaconNodeRun (p : RunParameters) (outboundPeers : List Nat) (branches : List Branch) : List (Act Key Local) :=
  beaconNodeStart p ++ beaconNodeFromReady p outboundPeers branches

def attackerFromReady (p : RunParameters) : List (Act Key Local) :=
  signalAndWait barrierTopologyReady p.testInstanceCount ++
  signalAndWait barrierSimulationCompleted p.testInstanceCount ++
  acts [.recordSuccess]

def attackerFromDial (p : RunParameters) (targetNodeId : Nat) : List (Act Key Local) :=
  acts [.recordVictimId, .recordTopologyEdge, .dial targetNodeId] ++ attackerFromReady p

def attackerCollect (p : RunParameters) : List (Act Key Local) :=
  collect beaconNodeInfo p.otherGroup ++ [.signal (.topic attackerInfo)] ++ acts [.recordTopologyAttacker]

def attackerFromCollect (p : RunParameters) (targetNodeId : Nat) : List (Act Key Local) :=
  attackerCollect p ++ (signalAndWait barrierLibp2pReady p.testInstanceCount ++ attackerFromDial p targetNodeId)

/-- `attacker::run` -/
def attackerRun (p : RunParameters) (targetNodeId : Nat) : List (Act Key Local) :=
  acts [.buildSwarm, .listen] ++ attackerFromCollect p targetNodeId

/-! ## The instances of a run -/

structure Config (beaconNodes attackers : Nat) where
  outboundPeers : Fin beaconNodes → List Nat
  branches : Fin beaconNodes → List Branch
  targetNodeId : Fin attackers → Nat

variable {beaconNodes attackers : Nat}

abbrev Instance (beaconNodes attackers : Nat) := Fin beaconNodes ⊕ Fin attackers

def beaconNodeParameters (beaconNodes attackers : Nat) : RunParameters :=
  ⟨beaconNodes + attackers, beaconNodes, Nat.le_add_right ..⟩

def attackerParameters (beaconNodes attackers : Nat) : RunParameters :=
  ⟨beaconNodes + attackers, attackers, Nat.le_add_left ..⟩

def main (c : Config beaconNodes attackers) : Instance beaconNodes attackers → List (Act Key Local)
  | .inl b => beaconNodeRun (beaconNodeParameters beaconNodes attackers) (c.outboundPeers b) (c.branches b)
  | .inr a => attackerRun (attackerParameters beaconNodes attackers) (c.targetNodeId a)

/-- `dial_peers` has returned, or the target was dialed. -/
def Dialed (c : Config beaconNodes attackers) (st : State (Instance beaconNodes attackers) Key) :
    Instance beaconNodes attackers → Prop
  | .inl b => ∀ x ∈ dialPeers (c.outboundPeers b), .act x ∈ executed (main c) st (.inl b)
  | .inr a => .act (.dial (c.targetNodeId a)) ∈ executed (main c) st (.inr a)

structure Separated (c : Config beaconNodes attackers) (st : State (Instance beaconNodes attackers) Key) : Prop where
  listen_before_dial : ∀ i nodeId, .act (.dial nodeId) ∈ executed (main c) st i →
    ∀ j, .act .listen ∈ executed (main c) st j
  dial_before_subscribe : ∀ b topic, .act (.subscribe topic) ∈ executed (main c) st (.inl b) → ∀ j, Dialed c st j
  dial_before_publish : ∀ b m, .act (.branch (.generated m)) ∈ executed (main c) st (.inl b) → ∀ j, Dialed c st j
  run_sim_before_success : ∀ i, .act .recordSuccess ∈ executed (main c) st i →
    ∀ b, .act .recordReceived ∈ executed (main c) st (.inl b)

/-! ## What comes before what in one program -/

section
variable {c : Config beaconNodes attackers} {st : State (Instance beaconNodes attackers) Key}
  {i j : Instance beaconNodes attackers}

theorem main_beaconNode (b : Fin beaconNodes) : main c (.inl b) =
    beaconNodeStart (beaconNodeParameters beaconNodes attackers) ++
      (signalAndWait barrierLibp2pReady (beaconNodes + attackers) ++ (acts (dialPeers (c.outboundPeers b)) ++
      (signalAndWait barrierTopologyReady (beaconNodes + attackers) ++ (acts (subscribeTopics ++ runSim (c.branches b)) ++
      (signalAndWait barrierSimulationCompleted (beaconNodes + attackers) ++ acts [.recordSuccess]))))) := rfl

theorem main_attacker (a : Fin attackers) : main c (.inr a) =
    acts [.buildSwarm, .listen] ++ (attackerCollect (attackerParameters beaconNodes attackers) ++
      (signalAndWait barrierLibp2pReady (beaconNodes + attackers) ++
      (acts [.recordVictimId, .recordTopologyEdge, .dial (c.targetNodeId a)] ++
      attackerFromReady (attackerParameters beaconNodes attackers)))) := rfl

theorem signals_main {s : String}
    (hs : s = barrierLibp2pReady ∨ s = barrierTopologyReady ∨ s = barrierSimulationCompleted) :
    signals (.state s) (main c i) = 1 := by
  cases i with
  | inl b =>
    rcases hs with rfl | rfl | rfl <;>
      simp [main, beaconNodeRun, beaconNodeStart, beaconNodeFromReady, beaconNodeFromDial, beaconNodeSim, collect,
        Act.isSignal, barrierLibp2pReady, barrierTopologyReady, barrierSimulationCompleted]
  | inr a =>
    rcases hs with rfl | rfl | rfl <;>
      simp [main, attackerRun, attackerFromCollect, attackerCollect, attackerFromDial, attackerFromReady, collect,
        Act.isSignal, barrierLibp2pReady, barrierTopologyReady, barrierSimulationCompleted]

theorem listening_of_started (h : .signal (.state barrierLibp2pReady) ∈ executed (main c) st j) :
    .act .listen ∈ executed (main c) st j := by
  apply executed_of_precedes _ h
  cases j with
  | inl b =>
    rw [main_beaconNode]
    apply precedes_append
    · simp [beaconNodeStart]
    · simp [beaconNodeStart, collect]
  | inr a =>
    rw [main_attacker]
    apply precedes_append
    · simp
    · simp

theorem started_of_dialed {nodeId : Nat} (h : .act (.dial nodeId) ∈ executed (main c) st i) :
    .await (.state barrierLibp2pReady) (beaconNodes + attackers) ∈ executed (main c) st i := by
  apply executed_of_precedes _ h
  cases i with
  | inl b =>
    rw [main_beaconNode]
    apply precedes_skip
    · simp [beaconNodeStart, collect]
    apply precedes_append <;> simp
  | inr a =>
    rw [main_attacker]
    apply precedes_skip
    · simp
    apply precedes_skip
    · simp [attackerCollect, collect]
    apply precedes_append <;> simp

theorem dialed_of_ready (h : .signal (.state barrierTopologyReady) ∈ executed (main c) st j) : Dialed c st j := by
  cases j with
  | inl b =>
    intro x hx
    apply executed_of_precedes _ h
    rw [main_beaconNode]
    apply precedes_skip
    · simp [beaconNodeStart, collect]
    apply precedes_skip
    · simp [barrierLibp2pReady, barrierTopologyReady]
    apply precedes_append <;> simp [hx]
  | inr a =>
    apply executed_of_precedes _ h
    rw [main_attacker]
    apply precedes_skip
    · simp
    apply precedes_skip
    · simp [attackerCollect, collect]
    apply precedes_skip
    · simp [barrierLibp2pReady, barrierTopologyReady]
    apply precedes_append <;> simp

theorem ready_of_sim {b : Fin beaconNodes} {x : Local} (hx : (∃ topic, x = .subscribe topic) ∨ ∃ m, x = .branch m)
    (h : .act x ∈ executed (main c) st (.inl b)) :
    .await (.state barrierTopologyReady) (beaconNodes + attackers) ∈ executed (main c) st (.inl b) := by
  have hstart : .act x ∉ beaconNodeStart (beaconNodeParameters beaconNodes attackers) := by
    rcases hx with ⟨topic, rfl⟩ | ⟨m, rfl⟩ <;> simp [beaconNodeStart, collect]
  have hdial : x ∉ dialPeers (c.outboundPeers b) := by
    rcases hx with ⟨topic, rfl⟩ | ⟨m, rfl⟩ <;> simp [dialPeers]
  apply executed_of_precedes _ h
  rw [main_beaconNode]
  apply precedes_skip hstart
  apply precedes_skip
  · simp
  apply precedes_skip
  · simpa using hdial
  apply precedes_append <;> simp

theorem received_of_completed {b : Fin beaconNodes}
    (h : .signal (.state barrierSimulationCompleted) ∈ executed (main c) st (.inl b)) :
    .act .recordReceived ∈ executed (main c) st (.inl b) := by
  apply executed_of_precedes _ h
  rw [main_beaconNode]
  apply precedes_skip
  · simp [beaconNodeStart, collect]
  apply precedes_skip
  · simp [barrierLibp2pReady, barrierSimulationCompleted]
  apply precedes_skip
  · simp
  apply precedes_skip
  · simp [barrierTopologyReady, barrierSimulationCompleted]
  apply precedes_append <;> simp [runSim]

theorem completed_of_success (h : .act .recordSuccess ∈ executed (main c) st i) :
    .await (.state barrierSimulationCompleted) (beaconNodes + attackers) ∈ executed (main c) st i := by
  apply executed_of_precedes _ h
  cases i with
  | inl b =>
    rw [main_beaconNode]
    apply precedes_skip
    · simp [beaconNodeStart, collect]
    apply precedes_skip
    · simp
    apply precedes_skip
    · simp [dialPeers]
    apply precedes_skip
    · simp
    apply precedes_skip
    · simp [subscribeTopics, runSim]
    apply precedes_append <;> simp
  | inr a =>
    rw [main_attacker]
    apply precedes_skip
    · simp
    apply precedes_skip
    · simp [attackerCollect, collect]
    apply precedes_skip
    · simp
    apply precedes_skip
    · simp
    apply precedes_append <;> simp [attackerParameters]

theorem signalled_of_awaited (h : Reachable (main c) st) {s : String}
    (hs : s = barrierLibp2pReady ∨ s = barrierTopologyReady ∨ s = barrierSimulationCompleted)
    (ha : .await (.state s) (beaconNodes + attackers) ∈ executed (main c) st i) (j : Instance beaconNodes attackers) :
    .signal (.state s) ∈ executed (main c) st j := by
  apply h.barrier (fun j => (signals_main hs).le) ?_ ha j
  simp

variable (c) in
/-- **The phases are separated.** For every number of beacon nodes and attackers, in every interleaving. -/
theorem phases_separated_of_reachable (h : Reachable (main c) st) : Separated c st where
  listen_before_dial _ _ hd j :=
    listening_of_started (signalled_of_awaited h (Or.inl rfl) (started_of_dialed hd) j)
  dial_before_subscribe _ topic hs j :=
    dialed_of_ready (signalled_of_awaited h (Or.inr (Or.inl rfl)) (ready_of_sim (Or.inl ⟨topic, rfl⟩) hs) j)
  dial_before_publish _ _ hp j :=
    dialed_of_ready (signalled_of_awaited h (Or.inr (Or.inl rfl)) (ready_of_sim (Or.inr ⟨_, rfl⟩) hp) j)
  run_sim_before_success _ hs b :=
    received_of_completed (signalled_of_awaited h (Or.inr (Or.inr rfl)) (completed_of_success hs) (.inl b))

/-! ## Nothing blocks -/

def rank : Key → Nat
  | .topic name => if name = beaconNodeInfo then 0 else 1
  | .state name => if name = barrierLibp2pReady then 2 else if name = barrierTopologyReady then 3 else 4

def beaconNodeSync (beaconNodes attackers : Nat) : List (Act Key Local) :=
  publishAndCollect beaconNodeInfo beaconNodes ++ collect attackerInfo attackers ++
  signalAndWait barrierLibp2pReady (beaconNodes + attackers) ++
  signalAndWait barrierTopologyReady (beaconNodes + attackers) ++
  signalAndWait barrierSimulationCompleted (beaconNodes + attackers)

def attackerSync (beaconNodes attackers : Nat) : List (Act Key Local) :=
  collect beaconNodeInfo beaconNodes ++ [.signal (.topic attackerInfo)] ++
  signalAndWait barrierLibp2pReady (beaconNodes + attackers) ++
  signalAndWait barrierTopologyReady (beaconNodes + attackers) ++
  signalAndWait barrierSimulationCompleted (beaconNodes + attackers)

theorem sync_beaconNode (b : Fin beaconNodes) : sync (main c (.inl b)) = beaconNodeSync beaconNodes attackers := by
  simp [main, beaconNodeRun, beaconNodeStart, beaconNodeFromReady, beaconNodeFromDial, beaconNodeSim,
    RunParameters.otherGroup, beaconNodeParameters]
  rfl

theorem sync_attacker (a : Fin attackers) : sync (main c (.inr a)) = attackerSync beaconNodes attackers := by
  simp [main, attackerRun, attackerFromCollect, attackerCollect, attackerFromDial, attackerFromReady,
    RunParameters.otherGroup, attackerParameters]
  rfl

theorem ordered_main (i : Instance beaconNodes attackers) : (main c i).Pairwise (Act.Ordered rank) := by
  apply pairwise_ordered_of_sync
  cases i with
  | inl b =>
    rw [sync_beaconNode]
    simp [beaconNodeSync, collect, publishAndCollect, signalAndWait, Act.Ordered, rank, beaconNodeInfo, attackerInfo,
      barrierLibp2pReady, barrierTopologyReady, barrierSimulationCompleted]
  | inr a =>
    rw [sync_attacker]
    simp [attackerSync, collect, signalAndWait, Act.Ordered, rank, beaconNodeInfo, attackerInfo,
      barrierLibp2pReady, barrierTopologyReady, barrierSimulationCompleted]

theorem sum_signals_main (s : Key) : ∑ j, signals s (main c j) =
    beaconNodes * signals s (beaconNodeSync beaconNodes attackers) +
      attackers * signals s (attackerSync beaconNodes attackers) := by
  have hb : ∀ b, signals s (main c (.inl b)) = signals s (beaconNodeSync beaconNodes attackers) := fun b => by
    rw [← signals_sync, sync_beaconNode]
  have ha : ∀ a, signals s (main c (.inr a)) = signals s (attackerSync beaconNodes attackers) := fun a => by
    rw [← signals_sync, sync_attacker]
  rw [Fintype.sum_sum_type]
  simp [hb, ha]

/-- The counts that the two programs compute from their run parameters are those of the publications. -/
theorem served_main : Served (main c) := by
  intro i s k ha
  rw [sum_signals_main]
  apply Nat.le_of_eq
  cases i with
  | inl b =>
    rw [← await_mem_sync, sync_beaconNode] at ha
    simp only [beaconNodeSync, collect, publishAndCollect, signalAndWait, List.mem_append, List.mem_cons,
      List.not_mem_nil, or_false, reduceCtorEq, false_or, Act.await.injEq] at ha
    rcases ha with (((⟨rfl, rfl⟩ | ⟨rfl, rfl⟩) | ⟨rfl, rfl⟩) | ⟨rfl, rfl⟩) | ⟨rfl, rfl⟩ <;>
      simp [beaconNodeSync, attackerSync, collect, Act.isSignal, beaconNodeInfo, attackerInfo, barrierLibp2pReady,
        barrierTopologyReady, barrierSimulationCompleted]
  | inr a =>
    rw [← await_mem_sync, sync_attacker] at ha
    simp only [attackerSync, collect, signalAndWait, List.mem_append, List.mem_cons,
      List.not_mem_nil, or_false, reduceCtorEq, false_or, Act.await.injEq] at ha
    rcases ha with ((⟨rfl, rfl⟩ | ⟨rfl, rfl⟩) | ⟨rfl, rfl⟩) | ⟨rfl, rfl⟩ <;>
      simp [beaconNodeSync, attackerSync, collect, Act.isSignal, beaconNodeInfo, attackerInfo, barrierLibp2pReady,
        barrierTopologyReady, barrierSimulationCompleted]

variable (c) in
/-- **No deadlock.** -/
theorem exists_step_of_unfinished (h : Reachable (main c) st) (hi : st.pc i < (main c i).length) :
    ∃ j st', Step (main c) j st st' :=
  h.progress ordered_main served_main hi

end

/-- Two beacon nodes, the first of which dials the second, and an attacker whose target is the second. -/
def Config.twoOne : Config 2 1 where
  outboundPeers b := if b = 0 then [1] else []
  branches _ := [.generated (.beaconBlock 3 1 ""), .deadline]
  targetNodeId _ := 1

def blocks : List (Instance 2 1 × Nat) :=
  [(.inl 0, 5), (.inl 1, 5), (.inr 0, 6), (.inl 0, 5), (.inl 1, 5), (.inr 0, 5), (.inl 0, 5), (.inl 1, 3), (.inr 0, 2),
    (.inl 0, 19)]

theorem published_two_one : ∃ st, Reachable (main Config.twoOne) st ∧
    .act (.branch (.generated (.beaconBlock 3 1 ""))) ∈ executed (main Config.twoOne) st (.inl 0) ∧
    Separated Config.twoOne st := by
  have hok : ((execAll (main Config.twoOne) (fun _ _ => True) .init
      (blocks.flatMap fun b => List.replicate b.2 b.1)).map fun st =>
      decide (.act (.branch (.generated (.beaconBlock 3 1 ""))) ∈ executed (main Config.twoOne) st (.inl 0))) = some true := by
    decide
  obtain ⟨st, hst, hpub⟩ := Option.map_eq_some_iff.mp hok
  have hrun : Reachable (main Config.twoOne) st := execAll_run hst
  exact ⟨st, hrun, of_decide_eq_true hpub, phases_separated_of_reachable Config.twoOne hrun⟩

/-- The attacker waits for the infos, and a beacon node goes on. -/
theorem blocked_attacker_two_one : ∃ st, Reachable (main Config.twoOne) st ∧
    (main Config.twoOne (.inr 0))[st.pc (.inr 0)]? = some (.await (.topic beaconNodeInfo) 2) ∧
    ∃ j st', Step (main Config.twoOne) j st st' := by
  have hok : ((execAll (main Config.twoOne) (fun _ _ => True) .init [.inr 0, .inr 0]).map fun st =>
      decide ((main Config.twoOne (.inr 0))[st.pc (.inr 0)]? = some (.await (.topic beaconNodeInfo) 2) ∧
        st.pc (.inr 0) < (main Config.twoOne (.inr 0)).length)) = some true := by
    decide
  obtain ⟨st, hst, hpc⟩ := Option.map_eq_some_iff.mp hok
  obtain ⟨hawait, hlt⟩ := of_decide_eq_true hpc
  have hrun : Reachable (main Config.twoOne) st := execAll_run hst
  exact ⟨st, hrun, hawait, exists_step_of_unfinished Config.twoOne hrun hlt⟩

end GossipPlans.Scoring
