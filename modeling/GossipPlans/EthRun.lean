import GossipPlans.EdgeLoop
import GossipPlans.EthNetworkSound
import GossipPlans.EthPhases
import GossipPlans.PublishAndCollect
import GossipPlans.Validators

/-!
# eth_consensus: a run with its data

All instances run one program, so the one that is furthest behind never waits for the others, and a run ends with the
success of all although one barrier is used twice. In between each of them has dialed what was generated, at the
addresses that the others have published.
-/

namespace GossipPlans.Eth

open CounterNet (Act acts)
open LogNet (Event Logs Proc)
open PublishAndCollect (Entry Process Serde act_not_mem_reads expectOk expectOk_ok_iff fed_call fed_signalAndWait line
  line_acts line_halt line_run line_signalAndWait orCrash reads silent_orCrash silent_signalAndWait sync_call sync_reads
  valueCodec)

/-- What an instance does, with the data that it uses. -/
inductive Effect where
  | plain (x : RunAct)
  | newNetwork (participants : Participants) (validatorSet : Finset Nat)
  | dial (d : Dial)
  | crash (f : Fail)

/-- What the instances of a run have in common, and what is the own of one of them. -/
structure Setup where
  build : Build
  gen : Prng
  instanceParams : InstanceParams
  serde : Serde (Nat × InstanceInfo)
  info : Nat → InstanceInfo
  /-- `Generator::build`, for the number of validators and those of the node; the other arguments are fixed. -/
  generator : Nat → Finset Nat → Except String Unit
  /-- Whether the swarm of a node takes a dial. -/
  accepts : Nat → InstanceInfo → Bool

section
variable (s : Setup) (n : Nat)

def validatorSetOf (net : Network) (nodeId : Nat) : Finset Nat := (net.validatorAssignments[nodeId]?).getD ∅

/-- `network::run` from the second barrier on. -/
def dialAndSimulate (r : List Dial × Option Panic) : Process Effect :=
  .acts (r.1.map .dial) <|
  match r.2 with
  | some p => .act (.crash (.panic p)) .halt
  | none =>
    .acts [.plain .dialPeers] <|
    PublishAndCollect.signalAndWait barrierTopologyReady n <|
    .acts [.plain .subscribeTopics, .plain .runSim, .plain .recordSuccess] .halt

/-- `network::run` with the topology that it generates. -/
def runNetwork (nodeId : Nat) (participants : Participants) (net : Network) : Process Effect :=
  .acts [.plain .parseParams, .plain .generate, .plain .recordInstanceInfo] <|
  (expectOk "need to adjust these params" (s.generator net.params.totalValidators (validatorSetOf net nodeId)))
    |> orCrash .crash fun _ =>
  .acts [.newNetwork participants (validatorSetOf net nodeId)] <|
  PublishAndCollect.signalAndWait barrierTopologyReady n <|
  .acts [.plain .startLibp2p] <|
  PublishAndCollect.signalAndWait barrierLibp2pReady n <|
  dialAndSimulate n (dialPeers (s.accepts nodeId) nodeId participants net.outboundPeers)

/-- `network::run` -/
def runWith (nodeId : Nat) (participants : Participants) : Process Effect :=
  (parseParams s.build n s.instanceParams) |> orCrash .crash fun parsed =>
  (Network.generate s.build s.gen parsed.2) |> orCrash .crash fun net =>
  runNetwork s n nodeId participants net

/-- `main` of the instance that the sync service has numbered `nodeId + 1`. -/
def main (nodeId : Fin n) : Process Effect :=
  PublishAndCollect.ethConsensus s.serde "node_info" (nodeId.val, s.info nodeId) n <|
  orCrash .crash fun infos => runWith s n nodeId (participantsOf n nodeId infos)

/-! ## What a run starts from -/

/-- The parameters are accepted, their network is `net`, every instance can build its generator of messages, and what is
published can be read. The swarms may refuse dials. -/
structure Setup.Configured (params : Params) (net : Network) : Prop where
  lt : n < usizeSize
  parsed : ∃ run, parseParams s.build n s.instanceParams = .ok (run, params)
  generated : Network.generate s.build s.gen params = .ok net
  generators : ∀ v < n, s.generator net.params.totalValidators (validatorSetOf net v) = .ok ()
  infos : ∀ v < n, ∃ value, (valueCodec s.serde).encode (v, s.info v) = .ok value ∧
    (valueCodec s.serde).decode value = .ok (v, s.info v)

/-- No swarm refuses a dial either. -/
structure Setup.Accepted (params : Params) (net : Network) : Prop extends Setup.Configured s n params net where
  dials : ∀ v k, s.accepts v (s.info k) = true

/-! ## The programs that the instances are -/

variable {s n} {params : Params} {net : Network} {logs : Logs Key Entry} {infos : List (Nat × InstanceInfo)}

def Setup.dials (s : Setup) (params : Params) (v : Nat) : List Dial :=
  (dialed (GossipPlans.dials s.gen params) v).map fun p => ⟨v, p, s.info p⟩

def programToListen (n : Nat) (net : Network) (infos : List (Nat × InstanceInfo)) (v : Fin n) : List (Act Key Effect) :=
  .signal (.topic "node_info") :: (reads "node_info" n ++
  (acts [.plain .parseParams, .plain .generate, .plain .recordInstanceInfo,
    .newNetwork (participantsOf n v infos) (validatorSetOf net v)] ++
  (signalAndWait barrierTopologyReady n ++ acts [.plain .startLibp2p])))

def programFromDials (s : Setup) (n : Nat) (params : Params) (v : Fin n) : List (Act Key Effect) :=
  acts ((s.dials params v).map .dial) ++ (acts [.plain .dialPeers] ++ (signalAndWait barrierTopologyReady n ++
  acts [.plain .subscribeTopics, .plain .runSim, .plain .recordSuccess]))

def program (s : Setup) (n : Nat) (params : Params) (net : Network) (infos : List (Nat × InstanceInfo)) (v : Fin n) :
    List (Act Key Effect) :=
  programToListen n net infos v ++ (signalAndWait barrierLibp2pReady n ++ programFromDials s n params v)

/-- The loop of `dial_peers` over peers that are known. -/
def tryDials (accepts : InstanceInfo → Bool) : List Dial → List Dial × Option Panic
  | [] => ([], none)
  | d :: dials =>
    if accepts d.info then
      let r := tryDials accepts dials
      (d :: r.1, r.2)
    else ([d], some (.dialFailed d.node d.peer))

/-- From the dials on, where `r` is what became of them. -/
def programAfter (n : Nat) (r : List Dial × Option Panic) : List (Act Key Effect) :=
  acts (r.1.map .dial) ++ match r.2 with
  | some p => acts [.crash (.panic p)]
  | none => acts [.plain .dialPeers] ++ (signalAndWait barrierTopologyReady n ++
    acts [.plain .subscribeTopics, .plain .runSim, .plain .recordSuccess])

/-- The program of an instance whose swarm may refuse dials. -/
def programTrying (s : Setup) (n : Nat) (params : Params) (net : Network) (infos : List (Nat × InstanceInfo)) (v : Fin n) :
    List (Act Key Effect) :=
  programToListen n net infos v ++ (signalAndWait barrierLibp2pReady n ++
  programAfter n (tryDials (s.accepts v) (s.dials params v)))

theorem silent_runNetwork (name : String) (v : Nat) (participants : Participants) (net : Network) :
    (runNetwork s n v participants net).Silent (.topic name) := by
  apply LogNet.silent_acts.mpr
  apply silent_orCrash
  intro _
  apply LogNet.silent_acts.mpr
  apply silent_signalAndWait.mpr
  apply LogNet.silent_acts.mpr
  apply silent_signalAndWait.mpr
  apply LogNet.silent_acts.mpr
  split
  · exact trivial
  · simp [silent_signalAndWait, Proc.Silent]

theorem silent_runWith (name : String) (v : Nat) (participants : Participants) :
    (runWith s n v participants).Silent (.topic name) := by
  apply silent_orCrash
  intro parsed
  apply silent_orCrash
  exact silent_runNetwork name v participants

theorem dialLoop_eq {accepts : InstanceInfo → Bool} {nodeId : Nat} {participants : Participants}
    {info : Nat → InstanceInfo} : ∀ {peers : List Nat}, (∀ p ∈ peers, participants[p]? = some (info p)) →
      dialLoop accepts nodeId participants peers = tryDials accepts (peers.map fun p => ⟨nodeId, p, info p⟩)
  | [], _ => rfl
  | p :: peers, h => by
    obtain ⟨hp, h⟩ := List.forall_mem_cons.mp h
    simp only [dialLoop, hp, List.map_cons, tryDials, dialLoop_eq h]

theorem tryDials_all {accepts : InstanceInfo → Bool} : ∀ {dials : List Dial}, (∀ d ∈ dials, accepts d.info = true) →
    tryDials accepts dials = (dials, none)
  | [], _ => rfl
  | d :: dials, h => by
    obtain ⟨hd, h⟩ := List.forall_mem_cons.mp h
    simp only [tryDials, hd, if_true, tryDials_all h]

namespace Setup.Configured

theorem dials_lt (hconf : s.Configured n params net) {v p : Nat} (h : p ∈ dialed (GossipPlans.dials s.gen params) v) :
    p < n ∧ p ≠ v := by
  obtain ⟨run, hparsed⟩ := hconf.parsed
  have hmem : (v, p) ∈ GossipPlans.dials s.gen params := by simpa [dialed] using h
  refine ⟨?_, ((simple_dials s.gen params).1 _ hmem).symm⟩
  rw [← parseParams_totalNodes hconf.lt hparsed]
  exact (GossipPlans.dials_lt s.gen params hmem).2

theorem dialPeers_eq (hconf : s.Configured n params net) (hinfos : infos.Perm (published n s.info)) (v : Nat) :
    dialPeers (s.accepts v) v (participantsOf n v infos) net.outboundPeers =
      tryDials (s.accepts v) (s.dials params v) := by
  obtain ⟨st, hr, houtbound, -, -⟩ := generate_represents hconf.generated
  rw [dialPeers, houtbound, hr.outbound]
  split
  · rename_i peers hpeers
    obtain ⟨-, heq⟩ := Option.ite_none_left_eq_some.mp hpeers
    cases heq
    exact dialLoop_eq fun p hp => getElem?_participantsOf hinfos (hconf.dials_lt hp).1 (hconf.dials_lt hp).2
  · rename_i hnone
    have hnil : dialed (GossipPlans.dials s.gen params) v = [] := by
      by_contra hne
      rw [if_neg hne] at hnone
      cases hnone
    simp [Setup.dials, hnil, tryDials]

theorem line_main (hconf : s.Configured n params net) (hinfos : infos.Perm (published n s.info))
    (hlog : (valueCodec s.serde).Decodes (logs (.topic "node_info")) infos) (v : Fin n) :
    line logs (main s n v) = programTrying s n params net infos v := by
  obtain ⟨value, hvalue, -⟩ := hconf.infos v v.isLt
  obtain ⟨run, hparsed⟩ := hconf.parsed
  have hcount : infos.length = n := by
    rw [hinfos.length_eq]
    simp [published]
  have hafter : ∀ r, line logs (dialAndSimulate n r : Process Effect) = programAfter n r := by
    intro r
    rw [dialAndSimulate, line_acts, programAfter]
    split
    · rfl
    · simp only [line_acts, line_signalAndWait, line_halt, List.append_nil]
  have hbuilt : expectOk "need to adjust these params" (s.generator net.params.totalValidators (validatorSetOf net v)) =
      .ok () := expectOk_ok_iff.mpr (hconf.generators v v.isLt)
  have hacts : ∀ rest : List (Act Key Effect), acts [.plain .parseParams, .plain .generate, .plain .recordInstanceInfo] ++
      (acts [.newNetwork (participantsOf n v infos) (validatorSetOf net v)] ++ rest) = acts [.plain .parseParams,
        .plain .generate, .plain .recordInstanceInfo, .newNetwork (participantsOf n v infos) (validatorSetOf net v)] ++ rest :=
    fun _ => rfl
  rw [main, PublishAndCollect.ethConsensus, line_run hvalue hlog hcount]
  simp only [orCrash, runWith, hparsed, hconf.generated, runNetwork, hbuilt, line_acts, line_signalAndWait, hafter, hacts,
    hconf.dialPeers_eq hinfos, programTrying, programToListen, List.append_assoc, List.cons_append]

end Setup.Configured

theorem published_eq_map_fin (info : Nat → InstanceInfo) :
    published n info = (List.finRange n).map fun v : Fin n => (v.val, info v) := by
  have hrange : (List.finRange n).map (fun v : Fin n => (v.val, info v)) = (List.range n).map fun v => (v, info v) := by
    rw [← List.map_coe_finRange_eq_range, List.map_map]
    rfl
  rw [hrange, published, List.range'_eq_map_range, List.map_map]
  refine List.map_congr_left fun v _ => ?_
  simp [nodeIdOf]

/-- What becomes of the instances: their programs, for some order of the infos. -/
theorem becomes_programTrying (hconf : s.Configured n params net) : LogNet.Becomes (main s n) fun p =>
    ∃ infos, infos.Perm (published n s.info) ∧ p = programTrying s n params net infos := by
  intro st h
  choose value hencode hdecode using fun v : Fin n => hconf.infos v v.isLt
  obtain ⟨logs, infos, hext, hinfos, hlog⟩ := PublishAndCollect.exists_complete_infos hdecode (fun v logs =>
    PublishAndCollect.published_call (hencode v) (silent_orCrash fun infos => silent_runWith _ v _)) h
  have hperm : infos.Perm (published n s.info) := by
    rw [published_eq_map_fin]
    refine hinfos.trans (((List.perm_ext_iff_of_nodup (Finset.nodup_toList _) (List.nodup_finRange n)).mpr ?_).map _)
    simp
  exact ⟨logs, hext, infos, hperm, funext fun v => hconf.line_main hperm hlog v⟩

namespace Setup.Accepted

theorem programTrying_eq (hacc : s.Accepted n params net) (v : Fin n) :
    programTrying s n params net infos v = program s n params net infos v := by
  have hall : ∀ d ∈ s.dials params v, s.accepts v d.info = true := by
    intro d hd
    obtain ⟨p, -, rfl⟩ := List.mem_map.mp hd
    exact hacc.dials v p
  rw [programTrying, tryDials_all hall]
  rfl

end Setup.Accepted

theorem becomes_program (hacc : s.Accepted n params net) : LogNet.Becomes (main s n) fun p =>
    ∃ infos, infos.Perm (published n s.info) ∧ p = program s n params net infos := by
  intro st h
  obtain ⟨logs, hext, infos, hinfos, hp⟩ := becomes_programTrying hacc.toConfigured st h
  exact ⟨logs, hext, infos, hinfos, hp.trans (funext hacc.programTrying_eq)⟩

/-! ## A run -/

/-- The text of an info. -/
def infoJson (x : Nat × InstanceInfo) : String :=
  "[" ++ toString x.1 ++ ",\x7b\"peer_id\":\"" ++ x.2.peerId ++ "\",\"multiaddr\":\"" ++ x.2.multiaddr ++ "\"\x7d]"

def infoOf (v : Nat) : InstanceInfo := ⟨"peer_" ++ toString v, "/ip4/16.0.0." ++ toString v ++ "/tcp/9000"⟩

/-- Two instances that share the validators of the manifest. -/
def Setup.two : Setup where
  build := .release
  gen := Prng.lastCuts
  instanceParams := [("seed", "40"), ("no_val_percentage", "0"), ("total_validators", "200"),
    ("min_peers_per_node", "2"), ("max_peers_per_node_inclusive", "3"), ("run", "120")]
  serde := {
    toValue x := .ok (.other (infoJson x))
    fromValue v := match [(0, infoOf 0), (1, infoOf 1)].find? fun x => PublishAndCollect.Value.other (infoJson x) = v with
      | some x => .ok x
      | none => .error "invalid type"
    toText x := .ok (infoJson x)
    fromText _ := .error "invalid type" }
  info := infoOf
  generator totalValidators validatorSet := if validatorSet.card ≤ totalValidators then .ok () else .error "too many"
  accepts _ _ := true

theorem accepted_two : ∃ params net, Setup.two.Accepted 2 params net ∧ 1 ≤ params.totalNodesWithVals := by
  have hok : ((parseParams .release 2 Setup.two.instanceParams).bind fun r =>
      (Network.generate .release Prng.lastCuts r.2).map fun net => decide (1 ≤ r.2.totalNodesWithVals ∧
        ∀ v ∈ List.range 2, (validatorSetOf net v).card ≤ net.params.totalValidators)) = .ok true := by
    decide +kernel
  obtain ⟨⟨run, params⟩, hparsed, hok⟩ := bind_ok_iff.mp hok
  rcases hgen : Network.generate .release Prng.lastCuts params with f | net
  · rw [hgen] at hok
    cases hok
  · rw [hgen] at hok
    obtain ⟨hv, hcard⟩ := of_decide_eq_true (Except.ok.inj hok)
    refine ⟨params, net, ⟨⟨by decide, ⟨run, hparsed⟩, hgen, fun v hv => if_pos (hcard v (List.mem_range.mpr hv)), fun v hv => ?_⟩,
      fun _ _ => rfl⟩, hv⟩
    rcases Nat.le_one_iff_eq_zero_or_eq_one.mp (Nat.le_of_lt_succ hv) with rfl | rfl
    · exact ⟨.other (infoJson (0, infoOf 0)), rfl, by decide +kernel⟩
    · exact ⟨.other (infoJson (1, infoOf 1)), rfl, by decide +kernel⟩

/-- Instance 0 dials, and instance 1 has started to listen. -/
theorem exists_scheduled : ∃ st d, LogNet.Reachable (main Setup.two 2) st ∧ .act (.dial d) ∈ st.trace 0 ∧
    (st.trace 1).length = 11 := by
  let schedule : List (Fin 2 × Nat) := [(0, 1), (1, 1), (0, 7), (1, 7), (0, 1), (1, 3), (0, 4)]
  have hok : ((LogNet.execAll (.init (main Setup.two 2)) (schedule.flatMap fun b => List.replicate b.2 b.1)).map
      fun st => ((st.did 0).findSome? fun e => match e with | .dial d => some d.peer | _ => none, (st.trace 1).length)) =
        some (some 1, 11) := by decide +kernel
  obtain ⟨st, hst, hlength⟩ := Option.map_eq_some_iff.mp hok
  obtain ⟨hdial, hlength⟩ := Prod.mk.inj hlength
  obtain ⟨e, he, hd⟩ := List.exists_of_findSome?_eq_some hdial
  refine ⟨st, ?_⟩
  cases e with
  | dial d => exact ⟨d, LogNet.execAll_reachable .refl hst, LogNet.mem_did.mp he, hlength⟩
  | plain _ | newNetwork _ _ | crash _ => cases hd

/-! ## Runs end -/

/-- What every program says to the sync service. -/
def syncProgram (n : Nat) : List (Act Key Effect) :=
  .signal (.topic "node_info") :: reads "node_info" n ++ signalAndWait barrierTopologyReady n ++
    signalAndWait barrierLibp2pReady n ++ signalAndWait barrierTopologyReady n

theorem sync_program (v : Fin n) : CounterNet.sync (program s n params net infos v) = syncProgram n := by
  simp [program, programToListen, programFromDials, syncProgram, sync_call, sync_reads]

/-- The second wait on the same state asks for `n` signals where every instance has made two. -/
theorem fed_syncProgram : CounterNet.Fed n (fun _ => 0) (syncProgram n) := by
  simp only [syncProgram, CounterNet.fed_append]
  exact ⟨⟨⟨fed_call _, fed_signalAndWait _⟩, fed_signalAndWait _⟩, fed_signalAndWait _⟩

/-- What instance `v` does, in this order. -/
def effects (s : Setup) (params : Params) (net : Network) (participants : Participants) (v : Nat) : List Effect :=
  [.plain .parseParams, .plain .generate, .plain .recordInstanceInfo, .newNetwork participants (validatorSetOf net v),
    .plain .startLibp2p] ++ (s.dials params v).map .dial ++
  [.plain .dialPeers, .plain .subscribeTopics, .plain .runSim, .plain .recordSuccess]

theorem locals_program (v : Fin n) :
    CounterNet.locals (program s n params net infos v) = effects s params net (participantsOf n v infos) v := by
  simp [program, programToListen, programFromDials, effects]

theorem mem_published {k : Nat} {i : InstanceInfo} : (k, i) ∈ published n s.info ↔ k < n ∧ i = s.info k := by
  simp [published_eq_map_fin, Fin.exists_iff, eq_comm]

theorem getElem?_participantsOf_iff (hinfos : infos.Perm (published n s.info)) (v k : Nat) (i : InstanceInfo) :
    (participantsOf n v infos)[k]? = some i ↔ k < n ∧ k ≠ v ∧ i = s.info k := by
  have hids : (infos.map Prod.fst).Nodup := by
    rw [(hinfos.map _).nodup_iff, published_eq_map_fin, List.map_map]
    exact (List.nodup_finRange n).map Fin.val_injective
  have hlen : infos.length = n := by
    rw [hinfos.length_eq, published_eq_map_fin, List.length_map, List.length_finRange]
  rw [participantsOf, List.take_of_length_le hlen.le, OrderedMap.getElem?_ofList ((List.filter_sublist.map _).nodup hids),
    List.mem_filter, hinfos.mem_iff, mem_published]
  simp only [decide_eq_true_eq, ne_eq]
  tauto

theorem listening_of_dialed {c : CounterNet.State (Fin n) Key}
    (hreach : CounterNet.Reachable (program s n params net infos) c) {v : Fin n} {d : Dial}
    (hd : .act (.dial d) ∈ CounterNet.executed (program s n params net infos) c v) (j : Fin n) :
    .act (.plain .startLibp2p) ∈ CounterNet.executed (program s n params net infos) c j := by
  have hawait : .await (.state barrierLibp2pReady) n ∈ CounterNet.executed (program s n params net infos) c v := by
    apply CounterNet.executed_of_precedes _ hd
    apply CounterNet.precedes_skip
    · simp [programToListen]
    apply CounterNet.precedes_append <;> simp
  have hone : ∀ j, CounterNet.signals (.state barrierLibp2pReady) (program s n params net infos j) ≤ 1 := by
    intro j
    rw [← CounterNet.signals_sync, sync_program]
    simp [syncProgram, PublishAndCollect.signals_reads, Act.isSignal, barrierLibp2pReady, barrierTopologyReady]
  apply CounterNet.executed_of_precedes _ (hreach.barrier hone (Fintype.card_fin n).le hawait j)
  apply CounterNet.precedes_append <;> simp [programToListen, reads, barrierLibp2pReady, barrierTopologyReady]

/-- **What the instances do.** Each makes its way through its list. It dials only when all listen, under the addresses
that they have published, and nobody who dials it. -/
theorem instances_dial_listeners (s : Setup) (hacc : s.Accepted n params net) (st : LogNet.State (Fin n) Key Entry Effect)
    (h : LogNet.Reachable (main s n) st) (v : Fin n) :
    (∃ participants : Participants, (∀ k i, participants[k]? = some i ↔ k < n ∧ k ≠ v ∧ i = s.info k) ∧
      st.did v <+: effects s params net participants v) ∧
    ∀ d, .act (.dial d) ∈ st.trace v → d.node = v.val ∧ d.peer < n ∧ d.peer ≠ v.val ∧ d.info = s.info d.peer ∧
      (∀ j, .act (.plain .startLibp2p) ∈ st.trace j) ∧
      ∀ j : Fin n, d.peer = j.val → ∀ d', .act (.dial d') ∈ st.trace j → d'.peer ≠ v.val := by
  obtain ⟨-, ⟨infos, hinfos, rfl⟩, c, hreach, hexec, -⟩ := (becomes_program hacc).run h
  have hdials : ∀ {v : Fin n} {d}, .act (.dial d) ∈ st.trace v → d ∈ s.dials params v := by
    intro v d hd
    have hmem := CounterNet.mem_locals.mpr (LogNet.act_mem_of_trace hexec hd)
    simpa [locals_program, effects] using hmem
  constructor
  · refine ⟨participantsOf n v infos, getElem?_participantsOf_iff hinfos v, ?_⟩
    rw [← locals_program]
    exact LogNet.did_isPrefix hexec v
  · intro d hd
    obtain ⟨p, hp, rfl⟩ := List.mem_map.mp (hdials hd)
    refine ⟨rfl, (hacc.dials_lt hp).1, (hacc.dials_lt hp).2, rfl, fun j => ?_, fun j hj d' hd' hback => ?_⟩
    · rw [← LogNet.act_mem_map, ← hexec] at hd ⊢
      exact listening_of_dialed hreach hd j
    · obtain ⟨p', hp', rfl⟩ := List.mem_map.mp (hdials hd')
      simp only at hj hback
      subst hj hback
      rw [mem_dialed] at hp hp'
      exact (simple_dials s.gen params).swap_not_mem hp hp'

theorem instances_dial_listeners_two : ∃ st d, LogNet.Reachable (main Setup.two 2) st ∧ .act (.dial d) ∈ st.trace 0 ∧
    d.peer ≠ 0 ∧ d.info = infoOf d.peer ∧ .act (.plain .startLibp2p) ∈ st.trace 1 := by
  obtain ⟨params, net, hacc, -⟩ := accepted_two
  obtain ⟨st, d, hst, hd, -⟩ := exists_scheduled
  obtain ⟨-, -, hpeer, hinfo, hlisten, -⟩ := (instances_dial_listeners Setup.two hacc st hst 0).2 d hd
  exact ⟨st, d, hst, hd, hpeer, hinfo, hlisten 1⟩

/-! ## Validators -/

theorem mem_validatorSetOf {v x : Nat} : x ∈ validatorSetOf net v ↔ Assigned net.validatorAssignments v x := by
  rw [validatorSetOf, Assigned]
  cases net.validatorAssignments[v]? with
  | none => simp
  | some assigned => simp

/-- **Every validator is hosted once.** No two instances take the same validator, whatever has happened; and when all
of them have built their network, each validator of the parameters has its instance. -/
theorem validators_hosted_once (s : Setup) (hacc : s.Accepted n params net) (hv : 1 ≤ params.totalNodesWithVals)
    (st : LogNet.State (Fin n) Key Entry Effect) (h : LogNet.Reachable (main s n) st) :
    let Hosts := fun (v : Fin n) x => ∃ ps vals, .act (.newNetwork ps vals) ∈ st.trace v ∧ x ∈ vals
    (∀ v w x, Hosts v x → Hosts w x → v = w) ∧
      ((∀ v, ∃ ps vals, .act (.newNetwork ps vals) ∈ st.trace v) →
        ∀ x, (∃ v, Hosts v x) ↔ x < params.totalValidators) := by
  intro Hosts
  obtain ⟨-, ⟨infos, hinfos, rfl⟩, c, -, hexec, -⟩ := (becomes_program hacc).run h
  obtain ⟨va, -, hnet, hshares, ⟨k, hk, hle, hnodes⟩, -⟩ := validators_partition s.build s.gen params hv
  have hassignments := hnet net hacc.generated
  have hvals : ∀ {v : Fin n} {ps vals}, .act (.newNetwork ps vals) ∈ st.trace v → vals = validatorSetOf net v := by
    intro v ps vals hnew
    have hmem := CounterNet.mem_locals.mpr (LogNet.act_mem_of_trace hexec hnew)
    rw [locals_program] at hmem
    simp only [effects, List.mem_append, List.mem_cons, List.mem_map, reduceCtorEq, List.not_mem_nil, or_false, false_or,
      Effect.newNetwork.injEq, and_false, exists_false] at hmem
    exact hmem.2
  have hhosts : ∀ {v x}, Hosts v x → Assigned va v x := by
    rintro v x ⟨ps, vals, hnew, hx⟩
    rwa [hvals hnew, mem_validatorSetOf, hassignments] at hx
  refine ⟨fun v w x hvx hwx => Fin.val_injective (hshares.disjoint v w x (hhosts hvx) (hhosts hwx)), fun hall x => ?_⟩
  rw [← hshares.covers x]
  constructor
  · rintro ⟨v, hvx⟩
    exact ⟨v, hhosts hvx⟩
  · rintro ⟨v, hvx⟩
    obtain ⟨run, hparsed⟩ := hacc.parsed
    have hlt : v < n := by
      obtain ⟨vals, hget, -⟩ := hvx
      have hmem : v ∈ va := Std.TreeMap.mem_iff_isSome_getElem?.mpr (by rw [hget]; rfl)
      rw [← parseParams_totalNodes hacc.lt hparsed]
      exact Nat.lt_of_lt_of_le ((hk v).mp hmem) (hle.trans hnodes)
    obtain ⟨ps, vals, hnew⟩ := hall ⟨v, hlt⟩
    refine ⟨⟨v, hlt⟩, ps, vals, hnew, ?_⟩
    rw [hvals hnew, mem_validatorSetOf, hassignments]
    exact hvx

theorem validators_hosted_once_two : ∃ st, LogNet.Reachable (main Setup.two 2) st ∧ (st.trace 1).length = 11 ∧
    ∀ x, ¬ ((∃ ps vals, .act (.newNetwork ps vals) ∈ st.trace 0 ∧ x ∈ vals) ∧
      ∃ ps vals, .act (.newNetwork ps vals) ∈ st.trace 1 ∧ x ∈ vals) := by
  obtain ⟨params, net, hacc, hv⟩ := accepted_two
  obtain ⟨st, -, hst, -, hlength⟩ := exists_scheduled
  refine ⟨st, hst, hlength, fun x hx => ?_⟩
  exact absurd ((validators_hosted_once Setup.two hacc hv st hst).1 0 1 x hx.1 hx.2) (by decide)

/-! ## With the data left out -/

def Effect.forget : Effect → Option RunAct
  | .plain x => some x
  | .newNetwork _ _ => some .newNetwork
  | .dial _ => none
  | .crash _ => none

/-- The phases know nothing of the infos, which are collected before. -/
def forget : Act Key Effect → Option (Act Key RunAct)
  | .act e => e.forget.map .act
  | .signal (.state name) => some (.signal (.state name))
  | .await (.state name) k => some (.await (.state name) k)
  | _ => none

def isState : Key → Bool
  | .state _ => true
  | .topic _ => false

theorem forget_projection : CounterNet.Projection isState forget where
  signal t := by cases t <;> rfl
  await {t k y} h := by
    cases t with
    | state name =>
      cases h
      exact ⟨rfl, rfl⟩
    | topic name => cases h
  act {e y} h := by
    obtain ⟨x, -, rfl⟩ := Option.map_eq_some_iff.mp h
    exact ⟨x, rfl⟩

theorem forget_acts (l : List Effect) : (acts l).filterMap forget = acts (l.filterMap Effect.forget) :=
  CounterNet.filterMap_acts (fun _ => rfl) l

theorem forget_reads (topic : String) (count : Nat) : (reads topic count).filterMap forget = [] := by
  simp [reads, forget]

theorem forget_signalAndWait (state : String) (target : Nat) :
    (signalAndWait state target).filterMap forget = signalAndWait state target := rfl

theorem forget_dials (dials : List Dial) : (dials.map Effect.dial).filterMap Effect.forget = [] := by
  simp [Effect.forget]

theorem forget_program (v : Fin n) : (program s n params net infos v).filterMap forget = run n := by
  have hsignal : ∀ p : List (Act Key Effect), (.signal (.topic "node_info") :: p).filterMap forget = p.filterMap forget :=
    fun _ => rfl
  simp only [program, programToListen, programFromDials, List.filterMap_append, forget_acts, forget_reads,
    forget_signalAndWait, forget_dials, hsignal, run, List.nil_append, List.append_assoc]
  rfl

/-- **Refinement.** A run with its data is a run of the phases. -/
theorem eth_run_refines_phases (s : Setup) (hacc : s.Accepted n params net) (st : LogNet.State (Fin n) Key Entry Effect)
    (h : LogNet.Reachable (main s n) st) :
    ∃ st' : CounterNet.State (Fin n) Key, CounterNet.Reachable (instances n) st' ∧
      ∀ v, CounterNet.executed (instances n) st' v = ((st.trace v).map Event.toAct).filterMap forget := by
  obtain ⟨-, ⟨infos, -, rfl⟩, c, hreach, hexec, -⟩ := (becomes_program hacc).run h
  have hrun : instances n = fun v => (program s n params net infos v).filterMap forget :=
    funext fun v => (forget_program v).symm
  rw [hrun]
  refine ⟨_, hreach.project forget_projection, fun v => ?_⟩
  rw [CounterNet.executed_project, hexec]

theorem eth_run_refines_phases_two : ∃ st, LogNet.Reachable (main Setup.two 2) st ∧ (st.trace 1).length = 11 ∧
    ∃ st', CounterNet.Reachable (instances 2) st' ∧
      CounterNet.executed (instances 2) st' 1 = ((st.trace 1).map Event.toAct).filterMap forget := by
  obtain ⟨params, net, hacc, -⟩ := accepted_two
  obtain ⟨st, -, hst, -, hlength⟩ := exists_scheduled
  obtain ⟨st', hreach, hexec⟩ := eth_run_refines_phases Setup.two hacc st hst
  exact ⟨st, hst, hlength, st', hreach, hexec 1⟩

end

end GossipPlans.Eth
