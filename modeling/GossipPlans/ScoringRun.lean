import GossipPlans.CensorTarget
import GossipPlans.EdgeLoop
import GossipPlans.MessageAccounting
import GossipPlans.PublishAndCollect
import GossipPlans.ScoringParams
import GossipPlans.Validators

/-!
# scoring: a run with its data

Beacon nodes and attackers with what they read from the sync service and what they do with it. Once the infos have
an order, every instance is a straight-line program, so all attackers of a run attack one node, nobody crashes, and
with the data left out a run is a run of the programs of `ScoringPhases`.
-/

namespace GossipPlans.Scoring

open CounterNet (Act acts)
open LogNet (Event Logs Proc)
open PublishAndCollect (Codec Entry Process Serde Value line line_acts line_fold line_halt line_publish line_push line_run
  line_signalAndWait orCrash propagate reads silent_orCrash silent_signalAndWait valueCodec)
open BeaconNode (Branch)

/-- What an instance does, with the data that it uses. -/
inductive Effect where
  | plain (x : Local)
  | networkNew (participants : BeaconNodes) (attackers : List String)
  | recordTopologyEdge (source target : String)
  | dial (nodeId : Nat) (multiaddr : String)
  | recordVictimId (victim : Option String)
  | crash (f : Fail)

/-- What the instances of a run have in common, and what is the own of one of them. -/
structure Setup where
  build : Build
  gen : Prng
  parseF64 : String → Option UInt64
  instanceParams : InstanceParams
  infoSerde : Serde (Nat × BeaconNodeInfo)
  peerIdSerde : Serde String
  peerId : Nat → String
  multiaddr : Nat → String
  /-- `Behaviour::with_peer_score` -/
  withPeerScore : PeerScoreParams → PeerScoreThresholds → Except String Unit
  /-- `Generator::build`, for the number of validators and those of the node; the other arguments are fixed. -/
  generator : Nat → Finset Nat → Except String Unit
  /-- Whether the swarm of a node takes a dial. -/
  accepts : Nat → BeaconNodeInfo → Bool
  /-- The order in which a node reads its hash set of validators. -/
  iter : Nat → Finset Nat → List Nat
  iter_perm : ∀ nodeId vals, (iter nodeId vals : Multiset Nat) = vals.val
  codec : BeaconNode.Codec
  branches : Nat → List Branch
  recorder : Nat → BeaconNode.Recorder
  attackerPeerId : Nat → String
  /-- `Multiaddr::try_from`, from the one version of libp2p to the other. -/
  tryFrom : String → Except String Unit
  dial : Nat → String → Except String Unit

def crash (f : Fail) : Process Effect := .act (.crash f) .halt

def participantsOf (nodeId : Nat) (infos : List (Nat × BeaconNodeInfo)) : BeaconNodes :=
  .ofList (infos.filter fun e => e.1 ≠ nodeId)

def collectAttackerInfo (serde : Serde String) (p : RunParameters) (k : Run (List String) → Process Effect) :
    Process Effect :=
  .collect (.topic attackerInfo) (valueCodec serde).push k p.otherGroup 0 []

def collectInfos (serde : Serde (Nat × BeaconNodeInfo)) (p : RunParameters) (k : Run Collected → Process Effect) :
    Process Effect :=
  .collect (.topic beaconNodeInfo) (fun c value => ((valueCodec serde).decode value).map c.step) k p.otherGroup 0 .new

/-- The loop of `dial_peers`. -/
def dialEach (accepts : BeaconNodeInfo → Bool) (nodeId : Nat) (self : String) (participants : BeaconNodes)
    (rest : Process Effect) : List Nat → Process Effect
  | [] => rest
  | peer :: peers =>
    match participants[peer]? with
    | none => crash (.panic (.notParticipant nodeId peer))
    | some info => .acts [.recordTopologyEdge self info.peerId, .dial peer info.multiaddr] <|
        if accepts info then dialEach accepts nodeId self participants rest peers
        else crash (.panic (.dialFailed nodeId peer))

/-- `run_sim` from the deadline on. -/
def endSim (r : BeaconNode.Recorder) (rest : Process Effect) (node : BeaconNode.Network) : Process Effect :=
  .acts [.plain (.branch .deadline)] <|
  ((BeaconNode.recordReceived r node).mapM id) |> orCrash .crash fun _ => .acts [.plain .recordReceived] rest

/-- `run_sim`: the branches up to the deadline, and the records. -/
def simulate (codec : BeaconNode.Codec) (r : BeaconNode.Recorder) (rest : Process Effect) :
    BeaconNode.Network → List Branch → Process Effect
  | node, [] => endSim r rest node
  | node, branch :: branches =>
    if branch = .deadline then endSim r rest node
    else .acts [.plain (.branch branch)] <|
      (BeaconNode.runBranch codec node branch) |> orCrash .crash fun node => simulate codec r rest node branches

section
variable (s : Setup) (beaconNodes attackers : Nat)

def validatorSetOf (net : Network) (nodeId : Nat) : Finset Nat := (net.validatorAssignments[nodeId]?).getD ∅

def Setup.info (net : Network) (nodeId : Nat) : BeaconNodeInfo where
  peerId := s.peerId nodeId
  multiaddr := s.multiaddr nodeId
  validators := s.iter nodeId (validatorSetOf net nodeId)

def outboundPeersOf (net : Network) (nodeId : Nat) : List Nat := (net.outboundPeers[nodeId]?).getD []

/-- `beacon_node::run` from the barrier before dialing on. -/
def beaconNodeReady (b : Nat) (participants : BeaconNodes) (outboundPeers : List Nat) : Process Effect :=
  PublishAndCollect.signalAndWait barrierLibp2pReady (beaconNodes + attackers) <|
  dialEach (s.accepts b) b (s.peerId b) participants
    (.acts [.plain (.dialedPeers outboundPeers.length)] <|
      PublishAndCollect.signalAndWait barrierTopologyReady (beaconNodes + attackers) <|
      .acts (subscribeTopics.map .plain) <|
      simulate s.codec (s.recorder b)
        (PublishAndCollect.signalAndWait barrierSimulationCompleted (beaconNodes + attackers) <|
          .acts [.plain .recordSuccess] .halt)
        BeaconNode.Network.new (s.branches b))
    outboundPeers

/-- `Network::new` builds the score parameters before anything else. -/
def beaconNodeNetwork (net : Network) (b : Nat) (infos : List (Nat × BeaconNodeInfo)) (attackerIds : List String) :
    Process Effect :=
  (buildPeerScoreParams s.build s.parseF64 s.instanceParams) |> orCrash .crash fun params =>
  (expectOk "Valid peer score thresholds" (parsePeerScoreThresholds s.parseF64 s.instanceParams))
    |> orCrash .crash fun thresholds =>
  (PublishAndCollect.expectOk "Valid score params and thresholds" (s.withPeerScore params thresholds))
    |> orCrash .crash fun _ =>
  (PublishAndCollect.expectOk "need to adjust these params" (s.generator net.params.totalValidators (validatorSetOf net b)))
    |> orCrash .crash fun _ =>
  .acts [.networkNew (participantsOf b infos) attackerIds, .plain .listen] <|
  beaconNodeReady s beaconNodes attackers b (participantsOf b infos) (outboundPeersOf net b)

/-- From the infos of the beacon nodes on. -/
def beaconNodeCollected (net : Network) (b : Nat) (infos : List (Nat × BeaconNodeInfo)) : Process Effect :=
  collectAttackerInfo s.peerIdSerde (beaconNodeParameters beaconNodes attackers) <|
  orCrash .crash (beaconNodeNetwork s beaconNodes attackers net b infos)

def beaconNodeCollect (net : Network) (b : Nat) : Process Effect :=
  .acts [.plain .parseTopologyParams, .plain .generate, .plain .recordTopologyBeaconNode, .plain .recordRunId] <|
  PublishAndCollect.scoring s.infoSerde beaconNodeInfo (b, s.info net b)
    (beaconNodeParameters beaconNodes attackers).testGroupInstanceCount <|
  orCrash .crash (beaconNodeCollected s beaconNodes attackers net b)

def beaconNode (b : Nat) : Process Effect :=
  (parseTopologyParams s.build beaconNodes s.instanceParams) |> orCrash .crash fun parsed =>
  (Network.generate s.build s.gen parsed.2) |> orCrash .crash fun net =>
  beaconNodeCollect s beaconNodes attackers net b

/-- `attacker::run` from the choice of the target on. -/
def attackerReady (a : Nat) (c : Collected) : Process Effect :=
  PublishAndCollect.signalAndWait barrierLibp2pReady (beaconNodes + attackers) <|
  match c.beaconNodes[c.targetNodeId]? with
  | none => crash (.panic (.expect "The target_node_id should be in the beacon_nodes."))
  | some target =>
    -- the group sequence numbers start at 1
    .acts [.recordVictimId (if a + 1 = 1 then some target.peerId else none),
      .recordTopologyEdge (s.attackerPeerId a) target.peerId] <|
    ((s.tryFrom target.multiaddr).mapError fun _ => .panic .unwrapErr) |> orCrash .crash fun _ =>
    .acts [.dial c.targetNodeId target.multiaddr] <|
    (propagate (s.dial a target.multiaddr)) |> orCrash .crash fun _ =>
    PublishAndCollect.signalAndWait barrierTopologyReady (beaconNodes + attackers) <|
    PublishAndCollect.signalAndWait barrierSimulationCompleted (beaconNodes + attackers) <|
    .acts [.plain .recordSuccess] .halt

/-- From the infos of the beacon nodes on. -/
def attackerCollected (a : Nat) (c : Collected) : Process Effect :=
  ((valueCodec s.peerIdSerde).encode (s.attackerPeerId a)) |> orCrash .crash fun value =>
  .publish (.topic attackerInfo) value <|
  .acts [.plain .recordTopologyAttacker] <|
  attackerReady s beaconNodes attackers a c

def attacker (a : Nat) : Process Effect :=
  .acts [.plain .buildSwarm, .plain .listen] <|
  collectInfos s.infoSerde (attackerParameters beaconNodes attackers) <|
  orCrash .crash (attackerCollected s beaconNodes attackers a)

def instances : Instance beaconNodes attackers → Process Effect
  | .inl b => beaconNode s beaconNodes attackers b
  | .inr a => attacker s beaconNodes attackers a

/-! ## What a run starts from -/

/-- The parameters are accepted, their network is `net`, every beacon node gets its peer scores and its generator of
messages, no dial is refused, what is published can be read, and so can what the simulation receives. -/
structure Setup.Accepted (params : Params) (net : Network) : Prop where
  lt : beaconNodes < usizeSize
  pos : 1 ≤ beaconNodes
  parsed : ∃ run, parseTopologyParams s.build beaconNodes s.instanceParams = .ok (run, params)
  generated : Network.generate s.build s.gen params = .ok net
  scores : ∃ p t, buildPeerScoreParams s.build s.parseF64 s.instanceParams = .ok p ∧
    parsePeerScoreThresholds s.parseF64 s.instanceParams = .ok t ∧ s.withPeerScore p t = .ok ()
  generators : ∀ b < beaconNodes, s.generator net.params.totalValidators (validatorSetOf net b) = .ok ()
  accepts : ∀ b k, s.accepts b (s.info net k) = true
  dials : ∀ a k, s.tryFrom (s.multiaddr k) = .ok () ∧ s.dial a (s.multiaddr k) = .ok ()
  simulated : ∀ b < beaconNodes,
    (∀ f, (BeaconNode.runSim s.codec BeaconNode.Network.new (s.branches b)).ending ≠ .failed f) ∧
      ∃ qss, (BeaconNode.recordReceived (s.recorder b)
        (BeaconNode.runSim s.codec BeaconNode.Network.new (s.branches b)).node).mapM id = .ok qss
  infos : ∀ b < beaconNodes, ∃ v, (valueCodec s.infoSerde).encode (b, s.info net b) = .ok v ∧
    (valueCodec s.infoSerde).decode v = .ok (b, s.info net b)
  peerIds : ∀ a < attackers, ∃ v, (valueCodec s.peerIdSerde).encode (s.attackerPeerId a) = .ok v ∧
    (valueCodec s.peerIdSerde).decode v = .ok (s.attackerPeerId a)

/-! ## What the instances publish -/

variable {s beaconNodes attackers} {logs : Logs Key Entry} {params : Params} {net : Network}

theorem silent_dialEach {t : Key} {accepts : BeaconNodeInfo → Bool} {nodeId : Nat} {self : String}
    {participants : BeaconNodes} {rest : Process Effect} (h : rest.Silent t) :
    ∀ peers, (dialEach accepts nodeId self participants rest peers).Silent t
  | [] => h
  | peer :: peers => by
    rw [dialEach]
    split
    · exact trivial
    · apply LogNet.silent_acts.mpr
      split
      · exact silent_dialEach h peers
      · exact trivial

theorem silent_endSim {t : Key} {r : BeaconNode.Recorder} {rest : Process Effect} (h : rest.Silent t)
    (node : BeaconNode.Network) : (endSim r rest node).Silent t :=
  LogNet.silent_acts.mpr (silent_orCrash (fun _ => LogNet.silent_acts.mpr h) _)

theorem silent_simulate {t : Key} {codec : BeaconNode.Codec} {r : BeaconNode.Recorder} {rest : Process Effect}
    (h : rest.Silent t) : ∀ (branches : List Branch) (node : BeaconNode.Network),
      (simulate codec r rest node branches).Silent t
  | [], node => silent_endSim h node
  | branch :: branches, node => by
    rw [simulate]
    split
    · exact silent_endSim h node
    · exact LogNet.silent_acts.mpr (silent_orCrash (fun node => silent_simulate h branches node) _)

theorem silent_beaconNodeNetwork (name : String) (b : Nat) (infos : List (Nat × BeaconNodeInfo)) (ids : List String) :
    (beaconNodeNetwork s beaconNodes attackers net b infos ids).Silent (.topic name) := by
  apply silent_orCrash
  intro params
  apply silent_orCrash
  intro thresholds
  apply silent_orCrash
  intro _
  apply silent_orCrash
  intro _
  apply LogNet.silent_acts.mpr
  apply silent_signalAndWait.mpr
  apply silent_dialEach
  apply LogNet.silent_acts.mpr
  apply silent_signalAndWait.mpr
  apply LogNet.silent_acts.mpr
  apply silent_simulate
  simp [silent_signalAndWait, Proc.Silent]

theorem silent_beaconNodeCollected (name : String) (b : Nat) (infos : List (Nat × BeaconNodeInfo)) :
    (beaconNodeCollected s beaconNodes attackers net b infos).Silent (.topic name) := by
  apply LogNet.silent_collect
  apply silent_orCrash
  exact silent_beaconNodeNetwork name b infos

theorem silent_attackerReady (name : String) (a : Nat) (c : Collected) :
    (attackerReady s beaconNodes attackers a c).Silent (.topic name) := by
  apply silent_signalAndWait.mpr
  split
  · exact trivial
  · apply LogNet.silent_acts.mpr
    apply silent_orCrash
    intro _
    apply LogNet.silent_acts.mpr
    apply silent_orCrash
    intro _
    simp [silent_signalAndWait, Proc.Silent]

theorem Setup.Accepted.beaconNode_eq (h : s.Accepted beaconNodes attackers params net) (b : Nat) :
    beaconNode s beaconNodes attackers b = beaconNodeCollect s beaconNodes attackers net b := by
  obtain ⟨run, hparsed⟩ := h.parsed
  rw [beaconNode, hparsed]
  simp only [orCrash]
  rw [h.generated]

/-- A beacon node publishes its info, and nothing to the topic of the attackers. -/
theorem published_beaconNodeCollect (name : String) {b : Nat} {v : Value}
    (hv : (valueCodec s.infoSerde).encode (b, s.info net b) = .ok v) :
    (LogNet.published (.topic name) ((beaconNodeCollect s beaconNodes attackers net b).resolve logs)).Subperm
      (if name = beaconNodeInfo then [v] else []) := by
  simp only [beaconNodeCollect, LogNet.resolve_acts, LogNet.published_append, LogNet.published_acts, List.nil_append,
    PublishAndCollect.scoring]
  have hrest : ∀ r, (LogNet.published (.topic name)
      ((orCrash .crash (beaconNodeCollected s beaconNodes attackers net b) r).resolve logs)).Subperm [] := fun r => by
    rw [LogNet.published_of_silent (silent_orCrash (silent_beaconNodeCollected name b) r)]
  refine (PublishAndCollect.published_run hv hrest).trans ?_
  by_cases hname : name = beaconNodeInfo
  · subst hname
    simp [Event.items]
  · simp [Event.items, hname, Ne.symm hname]

/-- An attacker publishes its peer id, and nothing to the topic of the beacon nodes. -/
theorem published_attacker (name : String) {a : Nat} {v : Value}
    (hv : (valueCodec s.peerIdSerde).encode (s.attackerPeerId a) = .ok v) :
    (LogNet.published (.topic name) ((attacker s beaconNodes attackers a).resolve logs)).Subperm
      (if name = attackerInfo then [v] else []) := by
  simp only [attacker, LogNet.resolve_acts, LogNet.published_append, LogNet.published_acts, List.nil_append]
  apply LogNet.published_collect
  intro r
  cases r with
  | error f => exact List.nil_subperm
  | ok c =>
    simp only [orCrash, attackerCollected, hv, Proc.resolve, LogNet.published_cons, LogNet.resolve_acts,
      LogNet.published_append, LogNet.published_acts, LogNet.published_of_silent (silent_attackerReady name a c), List.append_nil]
    by_cases hname : name = attackerInfo
    · subst hname
      simp [Event.items]
    · simp [Event.items, hname, Ne.symm hname]

/-! ## Complete logs -/

/-- The orders in which the infos come on the two topics. -/
structure Orders (s : Setup) (beaconNodes attackers : Nat) (net : Network) (infos : List (Nat × BeaconNodeInfo))
    (ids : List String) : Prop where
  infos_perm : infos.Perm (published beaconNodes (s.info net))
  ids_perm : ids.Perm ((List.range attackers).map s.attackerPeerId)

/-- Both topics hold what all instances publish. -/
structure Complete (s : Setup) (beaconNodes attackers : Nat) (net : Network) (logs : Logs Key Entry)
    (infos : List (Nat × BeaconNodeInfo)) (ids : List String) : Prop extends Orders s beaconNodes attackers net infos ids where
  infos_log : (valueCodec s.infoSerde).Decodes (logs (.topic beaconNodeInfo)) infos
  ids_log : (valueCodec s.peerIdSerde).Decodes (logs (.topic attackerInfo)) ids

theorem published_eq_map_range (n : Nat) (info : Nat → BeaconNodeInfo) :
    published n info = (List.range n).map fun k => (k, info k) := by
  simp only [published, List.range'_eq_map_range, List.map_map]
  refine List.map_congr_left fun k _ => ?_
  simp [nodeIdOf]

theorem map_fin_perm {β : Type} (n : Nat) (f : Nat → β) :
    ((Finset.univ : Finset (Fin n)).toList.map fun k => f k.val).Perm ((List.range n).map f) := by
  have hperm : (Finset.univ : Finset (Fin n)).toList.Perm (List.finRange n) :=
    (List.perm_ext_iff_of_nodup (Finset.nodup_toList _) (List.nodup_finRange n)).mpr (by simp)
  have hmap := hperm.map fun k : Fin n => f k
  have hval : (List.finRange n).map (fun k : Fin n => f k) = (List.range n).map f := by
    rw [← List.map_coe_finRange_eq_range, List.map_map]
    rfl
  rwa [hval] at hmap

theorem Setup.Accepted.exists_complete (hacc : s.Accepted beaconNodes attackers params net)
    {st : LogNet.State (Instance beaconNodes attackers) Key Entry Effect}
    (h : LogNet.Reachable (instances s beaconNodes attackers) st) :
    ∃ logs infos ids, LogNet.Extends st.logs logs ∧ Complete s beaconNodes attackers net logs infos ids := by
  choose infoValue hinfo hinfo' using fun b : Fin beaconNodes => hacc.infos b b.isLt
  choose idValue hid hid' using fun a : Fin attackers => hacc.peerIds a a.isLt
  let items : Instance beaconNodes attackers → (t : Key) → List (Entry t)
    | .inl b, .topic name => if name = beaconNodeInfo then [infoValue b] else []
    | .inr a, .topic name => if name = attackerInfo then [idValue a] else []
    | _, .state _ => []
  obtain ⟨logs, hext, hcomplete⟩ := h.exists_complete (fun t => ∃ name, t = .topic name) items fun i t ht => by
    obtain ⟨name, rfl⟩ := ht
    cases i with
    | inl b =>
      rw [instances, hacc.beaconNode_eq]
      exact published_beaconNodeCollect name (hinfo b)
    | inr a => exact published_attacker name (hid a)
  have hinfos : (logs (.topic beaconNodeInfo)).Perm (Finset.univ.toList.map infoValue) := by
    rw [← Multiset.coe_eq_coe, hcomplete _ ⟨_, rfl⟩, ← PublishAndCollect.sum_singletons, Fintype.sum_sum_type]
    simp [items, beaconNodeInfo, attackerInfo]
  have hids : (logs (.topic attackerInfo)).Perm (Finset.univ.toList.map idValue) := by
    rw [← Multiset.coe_eq_coe, hcomplete _ ⟨_, rfl⟩, ← PublishAndCollect.sum_singletons, Fintype.sum_sum_type]
    simp [items, beaconNodeInfo, attackerInfo]
  obtain ⟨infos, hinfos, hinfosLog⟩ := PublishAndCollect.exists_infos hinfo' hinfos
  obtain ⟨ids, hids, hidsLog⟩ := PublishAndCollect.exists_infos hid' hids
  refine ⟨logs, infos, ids, hext, ⟨?_, hids.trans (map_fin_perm attackers s.attackerPeerId)⟩, hinfosLog, hidsLog⟩
  rw [published_eq_map_range]
  exact hinfos.trans (map_fin_perm beaconNodes fun k => (k, s.info net k))

/-! ## The programs that the instances are -/

section
variable {infos : List (Nat × BeaconNodeInfo)} {ids : List String}

def Setup.dials (s : Setup) (net : Network) (b : Nat) : List Effect :=
  (outboundPeersOf net b).flatMap fun peer => [.recordTopologyEdge (s.peerId b) (s.peerId peer), .dial peer (s.multiaddr peer)]

def beaconNodeProgram (s : Setup) (beaconNodes attackers : Nat) (net : Network) (infos : List (Nat × BeaconNodeInfo))
    (ids : List String) (b : Nat) : List (Act Key Effect) :=
  acts [.plain .parseTopologyParams, .plain .generate, .plain .recordTopologyBeaconNode, .plain .recordRunId] ++
  (.signal (.topic beaconNodeInfo) :: (reads beaconNodeInfo beaconNodes ++ (reads attackerInfo attackers ++
  (acts [.networkNew (participantsOf b infos) ids, .plain .listen] ++
  (signalAndWait barrierLibp2pReady (beaconNodes + attackers) ++
  (acts (s.dials net b) ++ (acts [.plain (.dialedPeers (outboundPeersOf net b).length)] ++
  (signalAndWait barrierTopologyReady (beaconNodes + attackers) ++
  (acts ((subscribeTopics ++ runSim (s.branches b)).map .plain) ++
  (signalAndWait barrierSimulationCompleted (beaconNodes + attackers) ++ acts [.plain .recordSuccess]))))))))))

def attackerProgram (s : Setup) (beaconNodes attackers target a : Nat) : List (Act Key Effect) :=
  acts [.plain .buildSwarm, .plain .listen] ++
  (reads beaconNodeInfo beaconNodes ++ (.signal (.topic attackerInfo) ::
  (acts [.plain .recordTopologyAttacker] ++
  (signalAndWait barrierLibp2pReady (beaconNodes + attackers) ++
  (acts [.recordVictimId (if a = 0 then some (s.peerId target) else none),
    .recordTopologyEdge (s.attackerPeerId a) (s.peerId target), .dial target (s.multiaddr target)] ++
  (signalAndWait barrierTopologyReady (beaconNodes + attackers) ++
  (signalAndWait barrierSimulationCompleted (beaconNodes + attackers) ++ acts [.plain .recordSuccess])))))))

/-- The node that all attackers choose. -/
def targetOf (infos : List (Nat × BeaconNodeInfo)) : Nat := (infos.foldl Collected.step .new).targetNodeId

def program (s : Setup) (beaconNodes attackers : Nat) (net : Network) (infos : List (Nat × BeaconNodeInfo))
    (ids : List String) : Instance beaconNodes attackers → List (Act Key Effect)
  | .inl b => beaconNodeProgram s beaconNodes attackers net infos ids b
  | .inr a => attackerProgram s beaconNodes attackers (targetOf infos) a

theorem otherGroup_beaconNode : (beaconNodeParameters beaconNodes attackers).otherGroup = attackers :=
  Nat.add_sub_cancel_left ..

theorem otherGroup_attacker : (attackerParameters beaconNodes attackers).otherGroup = beaconNodes :=
  Nat.add_sub_cancel ..

theorem getElem?_participantsOf (hinfos : infos.Perm (published beaconNodes (s.info net))) (b k : Nat) (i : BeaconNodeInfo) :
    (participantsOf b infos)[k]? = some i ↔ k < beaconNodes ∧ k ≠ b ∧ i = s.info net k := by
  have hids : (infos.map Prod.fst).Nodup := (hinfos.map _).nodup_iff.mpr (nodup_published_ids ..)
  rw [participantsOf, OrderedMap.getElem?_ofList ((List.filter_sublist.map _).nodup hids), List.mem_filter, hinfos.mem_iff,
    mem_published]
  simp only [ne_eq, decide_not, Bool.not_eq_eq_eq_not, Bool.not_true, decide_eq_false_iff_not]
  constructor
  · intro h
    exact ⟨h.1.1, h.2, h.1.2⟩
  · intro h
    exact ⟨⟨h.1, h.2.2⟩, h.2.1⟩

theorem Orders.length_infos (ho : Orders s beaconNodes attackers net infos ids) : infos.length = beaconNodes := by
  rw [ho.infos_perm.length_eq, published_eq_map_range, List.length_map, List.length_range]

theorem Orders.length_ids (ho : Orders s beaconNodes attackers net infos ids) : ids.length = attackers := by
  rw [ho.ids_perm.length_eq, List.length_map, List.length_range]

theorem Orders.target_le (ho : Orders s beaconNodes attackers net infos ids) (hpos : 1 ≤ beaconNodes) :
    targetOf infos < beaconNodes ∧
      ∀ k < beaconNodes, (s.info net k).validators.length ≤ (s.info net (targetOf infos)).validators.length :=
  chosen_new.foldl.target_le hpos ho.infos_perm

theorem Orders.getElem?_target (ho : Orders s beaconNodes attackers net infos ids) (hpos : 1 ≤ beaconNodes) :
    let c := infos.foldl Collected.step .new
    c.beaconNodes[c.targetNodeId]? = some (s.info net (targetOf infos)) := by
  intro c
  have hids : (infos.map Prod.fst).Nodup := (ho.infos_perm.map _).nodup_iff.mpr (nodup_published_ids ..)
  have hc : Chosen infos c := chosen_new.foldl
  rw [getElem?_of_chosen hc hids, ho.infos_perm.mem_iff, mem_published]
  exact ⟨(ho.target_le hpos).1, rfl⟩

theorem Setup.Accepted.outboundPeers_eq (hacc : s.Accepted beaconNodes attackers params net) (b : Nat) :
    outboundPeersOf net b = dialed (GossipPlans.dials s.gen params) b := by
  obtain ⟨st, hr, houtbound, -, -⟩ := generate_represents hacc.generated
  rw [outboundPeersOf, houtbound]
  exact outbound_eq hr b

theorem Setup.Accepted.outboundPeers_lt (hacc : s.Accepted beaconNodes attackers params net) {b peer : Nat}
    (h : peer ∈ outboundPeersOf net b) : peer < beaconNodes ∧ peer ≠ b := by
  obtain ⟨run, hparsed⟩ := hacc.parsed
  rw [hacc.outboundPeers_eq, mem_dialed] at h
  have hlt := (dials_lt _ _ h).2
  rw [parseTopologyParams_totalNodes hacc.lt hparsed] at hlt
  exact ⟨hlt, fun heq => (simple_dials s.gen params).1 _ h heq.symm⟩

theorem line_dialEach {accepts : BeaconNodeInfo → Bool} {participants : BeaconNodes} {b : Nat} {rest : Process Effect} :
    ∀ {peers : List Nat},
    (∀ peer ∈ peers, participants[peer]? = some (s.info net peer) ∧ accepts (s.info net peer) = true) →
    line logs (dialEach accepts b (s.peerId b) participants rest peers) =
      acts (peers.flatMap fun peer => [.recordTopologyEdge (s.peerId b) (s.peerId peer), .dial peer (s.multiaddr peer)]) ++
        line logs rest
  | [], _ => rfl
  | peer :: peers, h => by
    obtain ⟨⟨hpeer, haccepts⟩, h⟩ := List.forall_mem_cons.mp h
    rw [dialEach, hpeer]
    simp only [line_acts, haccepts, if_true, line_dialEach h, List.flatMap_cons, acts, List.map_append, List.append_assoc]
    rfl

theorem line_endSim {r : BeaconNode.Recorder} {rest : Process Effect} {node : BeaconNode.Network}
    (hrecord : ∃ qss, (BeaconNode.recordReceived r node).mapM id = .ok qss) :
    line logs (endSim r rest node) = acts ((runSim []).map .plain) ++ line logs rest := by
  obtain ⟨qss, hqss⟩ := hrecord
  rw [endSim, line_acts, hqss]
  simp only [orCrash, line_acts]
  rfl

theorem line_simulate {codec : BeaconNode.Codec} {r : BeaconNode.Recorder} {rest : Process Effect} :
    ∀ {branches : List Branch} {node : BeaconNode.Network},
    (∀ f, (BeaconNode.runSim codec node branches).ending ≠ .failed f) →
    (∃ qss, (BeaconNode.recordReceived r (BeaconNode.runSim codec node branches).node).mapM id = .ok qss) →
    line logs (simulate codec r rest node branches) = acts ((runSim branches).map .plain) ++ line logs rest
  | [], node, _, hrecord => line_endSim hrecord
  | branch :: branches, node, hending, hrecord => by
    rw [simulate]
    rw [BeaconNode.runSim] at hending hrecord
    by_cases hdeadline : branch = .deadline
    · subst hdeadline
      rw [if_pos rfl] at hrecord ⊢
      exact line_endSim hrecord
    · rw [if_neg hdeadline] at hending hrecord ⊢
      have hbefore : runSim (branch :: branches) = .branch branch :: runSim branches := by
        simp [runSim, BeaconNode.beforeDeadline, hdeadline]
      cases hrun : BeaconNode.runBranch codec node branch with
      | error f =>
        rw [hrun] at hending
        exact absurd rfl (hending f)
      | ok node' =>
        rw [hrun] at hending hrecord
        rw [line_acts, hbefore]
        simp only [orCrash, line_simulate hending hrecord]
        rfl

theorem line_beaconNode (hacc : s.Accepted beaconNodes attackers params net)
    (hlogs : Complete s beaconNodes attackers net logs infos ids) {b : Nat} (hb : b < beaconNodes) :
    line logs (beaconNode s beaconNodes attackers b) = beaconNodeProgram s beaconNodes attackers net infos ids b := by
  obtain ⟨v, hv, -⟩ := hacc.infos b hb
  obtain ⟨scores, thresholds, hscores, hthresholds, hwith⟩ := hacc.scores
  obtain ⟨hending, hrecord⟩ := hacc.simulated b hb
  have hpeers : ∀ peer ∈ outboundPeersOf net b, (participantsOf b infos)[peer]? = some (s.info net peer) ∧
      s.accepts b (s.info net peer) = true := by
    intro peer hpeer
    obtain ⟨hlt, hne⟩ := hacc.outboundPeers_lt hpeer
    exact ⟨(getElem?_participantsOf hlogs.infos_perm b peer _).mpr ⟨hlt, hne, rfl⟩, hacc.accepts b peer⟩
  have hcount : infos.length = (beaconNodeParameters beaconNodes attackers).testGroupInstanceCount := hlogs.length_infos
  rw [hacc.beaconNode_eq, beaconNodeCollect, line_acts, PublishAndCollect.scoring, line_run hv hlogs.infos_log hcount]
  simp only [orCrash, beaconNodeCollected]
  rw [collectAttackerInfo, otherGroup_beaconNode, line_push hlogs.ids_log hlogs.length_ids]
  simp only [orCrash, beaconNodeNetwork, hscores, hthresholds, hwith, hacc.generators b hb, expectOk,
    PublishAndCollect.expectOk, Except.mapError, line_acts, beaconNodeReady, line_signalAndWait, line_dialEach hpeers,
    line_simulate hending hrecord, line_halt, List.append_nil, beaconNodeProgram, List.map_append, acts, List.append_assoc]
  rfl

theorem line_attacker (hacc : s.Accepted beaconNodes attackers params net)
    (hlogs : Complete s beaconNodes attackers net logs infos ids) {a : Nat} (ha : a < attackers) :
    line logs (attacker s beaconNodes attackers a) =
      attackerProgram s beaconNodes attackers (targetOf infos) a := by
  obtain ⟨v, hv, -⟩ := hacc.peerIds a ha
  have htarget := hlogs.getElem?_target hacc.pos
  rw [attacker, line_acts, collectInfos, otherGroup_attacker, line_fold _ hlogs.infos_log hlogs.length_infos]
  simp only [orCrash, attackerCollected, hv, line_publish, line_acts, attackerReady, line_signalAndWait]
  rw [htarget]
  obtain ⟨htry, hdial⟩ := hacc.dials a (targetOf infos)
  simp only [Setup.info, htry, hdial, propagate, Except.mapError, line_acts, line_signalAndWait, line_halt,
    List.append_nil, attackerProgram, Nat.add_eq_right]
  rfl

end

end

/-! ## A run -/

/-- The floats of the manifest, with the bits that they stand for. -/
def floats : List (String × UInt64) :=
  [("53.7499", 0x404adffcb923a29c), ("0.01", 0x3f847ae147ae147b), ("-53.7499", 0xc04adffcb923a29c),
    ("8.0", 0x4020000000000000), ("-15.8793", 0xc02fc2339c0ebee0), ("6.0", 0x4018000000000000),
    ("0.9857", 0x3fef8adab9f559b4), ("-4000.0", 0xc0af400000000000), ("-8000.0", 0xc0bf400000000000),
    ("-16000.0", 0xc0cf400000000000), ("100.0", 0x4059000000000000), ("5.0", 0x4014000000000000),
    ("0.5", 0x3fe0000000000000), ("0.0333", 0x3fa10cb295e9e1b1), ("300.0", 0x4072c00000000000),
    ("0.8603", 0x3feb8793dd97f62b), ("0.9928", 0x3fefc504816f0069), ("46.4916", 0x40473eecbfb15b57),
    ("-0.5", 0xbfe0000000000000), ("0.9716", 0x3fef1758e219652c), ("0.6849", 0x3fe5eab367a0f909),
    ("2.0547", 0x400070068db8bac7), ("-214.9999", 0xc06adfff2e48e8a7), ("0.9971", 0x3fefe83e425aee63),
    ("16.0842", 0x4030158e219652bd), ("0.8659", 0x3febb573eab367a1), ("2.4869", 0x4003e52bd3c36113),
    ("0.9305", 0x3fedc6a7ef9db22d), ("22.0559", 0x40360e4f765fd8ae), ("2.0", 0x4000000000000000),
    ("0.0156", 0x3f8ff2e48e8a71de), ("271.3987", 0x4070f66113404ea5), ("0.9646", 0x3feede00d1b71759),
    ("0.1473", 0x3fc2dab9f559b3d0), ("-0.0156", 0xbf8ff2e48e8a71de), ("0.9910", 0x3fefb645a1cac083),
    ("5.6149", 0x401675a858793dd9), ("-6879.9999", 0xc0badffff9724745)]

def defaults (keys : List (String × Kind)) (values : List String) : InstanceParams := (keys.map Prod.fst).zip values

/-- The parameters of the manifest, less those of the topics that it disables. -/
def runParams : InstanceParams :=
  [("seed", "40"), ("no_val_percentage", "0"), ("total_validators", "200"), ("min_peers_per_node", "2"),
    ("max_peers_per_node_inclusive", "3"), ("run", "600")] ++
  defaults peerScoreKeys ["53.7499", "12", "0.01", "38400", "53.7499", "-53.7499", "8.0", "-15.8793", "6.0", "0.9857"] ++
  defaults thresholdKeys ["-4000.0", "-8000.0", "-16000.0", "100.0", "5.0"] ++
  defaults (topicScoreKeys "bb") ["0.5", "0.0333", "1", "300.0", "0.8603", "0.9928", "46.4916", "-0.5", "0.9716", "0.6849",
    "2.0547", "1", "2", "-0.5", "0.9716", "-214.9999", "0.9971"] ++
  defaults (topicScoreKeys "baap") ["0.5", "0.0333", "1", "300.0", "16.0842", "0.8659", "2.4869", "-0.5", "0.9305", "22.0559",
    "2.0", "1", "2", "-0.5", "0.9305", "-214.9999", "0.9971"] ++
  defaults (topicScoreKeys "a") ["0.0156", "0.0333", "1", "300.0", "271.3987", "0.9646", "0.1473", "-0.0156", "0.9910", "5.6149",
    "2.0", "3", "2", "-0.0156", "0.9910", "-6879.9999", "0.9971"] ++
  [("scap_enable_topic_params", "false"), ("scm_enable_topic_params", "false")]

/-- The text of an info. -/
def infoJson (x : Nat × BeaconNodeInfo) : String :=
  "[" ++ toString x.1 ++ ",\x7b\"peer_id\":\"" ++ x.2.peerId ++ "\",\"multiaddr\":\"" ++ x.2.multiaddr ++
    "\",\"validators\":" ++ toString x.2.validators ++ "\x7d]"

/-- A set in increasing order. -/
def increasing (vals : Finset Nat) : List Nat :=
  Quotient.liftOn vals.val (List.insertionSort (· ≤ ·)) fun l l' h =>
    (((List.perm_insertionSort _ l).trans h).trans (List.perm_insertionSort _ l').symm).eq_of_pairwise
      (fun _ _ _ _ => Nat.le_antisymm) (List.pairwise_insertionSort _ l) (List.pairwise_insertionSort _ l')

theorem increasing_perm (vals : Finset Nat) : (increasing vals : Multiset Nat) = vals.val := by
  obtain ⟨vals, hvals⟩ := vals
  induction vals using Quotient.inductionOn with
  | h l => exact Quotient.sound (List.perm_insertionSort _ l)

/-- The infos of two nodes that share the validators of the manifest. -/
def twoInfos : List (Nat × BeaconNodeInfo) := [nodeInfo 0 (List.range 199), nodeInfo 1 [199]]

/-- Two beacon nodes, which publish a block and receive one. -/
def Setup.two : Setup where
  build := .release
  gen := Prng.lastCuts
  parseF64 v := floats.lookup v
  instanceParams := runParams
  infoSerde := {
    toValue x := .ok (.other (infoJson x))
    fromValue v := match twoInfos.find? fun x => Value.other (infoJson x) = v with
      | some x => .ok x
      | none => .error "invalid type"
    toText x := .ok (infoJson x)
    fromText _ := .error "invalid type" }
  peerIdSerde := PublishAndCollect.quoted
  peerId nodeId := s!"peer_{nodeId}"
  multiaddr nodeId := s!"/ip4/16.0.0.{nodeId}/tcp/9000"
  withPeerScore _ _ := .ok ()
  generator totalValidators validators := if validators.card ≤ totalValidators then .ok () else .error "too many"
  accepts _ _ := true
  iter _ vals := increasing vals
  iter_perm _ vals := increasing_perm vals
  codec := .oneBlock
  branches _ := [.generated (.beaconBlock 3 1 ""),
    .swarmEvent (.behaviour (.message "peer" "id" ⟨"\"Blocks\"", [91, 51, 44, 49, 44, 34, 34, 93]⟩)), .deadline]
  recorder nodeId := ⟨s!"peer_{nodeId}", "run", fun epoch => some (384 * epoch), some⟩
  attackerPeerId a := s!"attacker_{a}"
  tryFrom _ := .ok ()
  dial _ _ := .ok ()

theorem exists_of_isOk {T : Type} : ∀ {r : Run T}, r.isOk = true → ∃ t, r = .ok t
  | .ok t, _ => ⟨t, rfl⟩

theorem two_simulated (b : Nat) :
    (∀ f, (BeaconNode.runSim .oneBlock BeaconNode.Network.new (Setup.two.branches b)).ending ≠ .failed f) ∧
      ∃ qss, (BeaconNode.recordReceived (Setup.two.recorder b)
        (BeaconNode.runSim .oneBlock BeaconNode.Network.new (Setup.two.branches b)).node).mapM id = .ok qss := by
  have hending : (BeaconNode.runSim .oneBlock BeaconNode.Network.new (Setup.two.branches 0)).ending = .completed := by
    decide +kernel
  refine ⟨fun f hf => ?_, ?_⟩
  · rw [show Setup.two.branches b = Setup.two.branches 0 from rfl, hending] at hf
    cases hf
  · exact ⟨_, rfl⟩

theorem accepted_two : ∃ params net, Setup.two.Accepted 2 2 params net := by
  have hok : ((parseTopologyParams .release 2 runParams).bind fun r =>
      (Network.generate .release Prng.lastCuts r.2).map fun net => decide (
        [(0, Setup.two.info net 0), (1, Setup.two.info net 1)] = twoInfos ∧
          ∀ b ∈ List.range 2, (validatorSetOf net b).card ≤ net.params.totalValidators)) = .ok true := by
    decide +kernel
  obtain ⟨⟨run, params⟩, hparsed, hok⟩ := bind_ok_iff.mp hok
  rcases hgen : Network.generate .release Prng.lastCuts params with f | net
  · rw [hgen] at hok
    cases hok
  rw [hgen] at hok
  obtain ⟨hinfos, hcard⟩ := of_decide_eq_true (Except.ok.inj hok)
  obtain ⟨hzero, hone⟩ : (0, Setup.two.info net 0) = nodeInfo 0 (List.range 199) ∧
      (1, Setup.two.info net 1) = nodeInfo 1 [199] := by simpa [twoInfos] using hinfos
  have hscores : (buildPeerScoreParams .release Setup.two.parseF64 runParams).isOk = true := by decide +kernel
  have hthresholds : (parsePeerScoreThresholds Setup.two.parseF64 runParams).isOk = true := by decide +kernel
  obtain ⟨scores, hscores⟩ := exists_of_isOk hscores
  obtain ⟨thresholds, hthresholds⟩ := exists_of_isOk hthresholds
  refine ⟨params, net, {
    lt := by decide
    pos := by decide
    parsed := ⟨run, hparsed⟩
    generated := hgen
    scores := ⟨scores, thresholds, hscores, hthresholds, rfl⟩
    generators := fun b hb => if_pos (hcard b (List.mem_range.mpr hb))
    accepts := fun _ _ => rfl
    dials := fun _ _ => ⟨rfl, rfl⟩
    simulated := fun b _ => two_simulated b
    infos := fun b hb => ?_
    peerIds := fun a _ => ⟨_, rfl, rfl⟩ }⟩
  rcases Nat.le_one_iff_eq_zero_or_eq_one.mp (Nat.le_of_lt_succ hb) with rfl | rfl
  · rw [hzero]
    exact ⟨.other (infoJson (nodeInfo 0 (List.range 199))), rfl, by decide +kernel⟩
  · rw [hone]
    exact ⟨.other (infoJson (nodeInfo 1 [199])), rfl, by decide +kernel⟩

end GossipPlans.Scoring
