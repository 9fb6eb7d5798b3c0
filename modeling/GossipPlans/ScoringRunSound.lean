import GossipPlans.ScoringRun

/-!
# scoring: what holds in every run

An instance has always done the start of its program, whatever the order of the steps was. So one node is attacked,
the network is dialed as it was generated, and runs end with the success of everybody.
-/

namespace GossipPlans.Scoring

open CounterNet (Act acts)
open LogNet (Event Logs Proc)
open PublishAndCollect (Entry act_not_mem_reads locals_reads reads signals_reads sync_reads)

/-! ## What the traces of a run hold -/

section
variable {s : Setup} {beaconNodes attackers : Nat} {logs : Logs Key Entry} {params : Params} {net : Network}
  {infos : List (Nat × BeaconNodeInfo)} {ids : List String}
  {st : LogNet.State (Instance beaconNodes attackers) Key Entry Effect} {i : Instance beaconNodes attackers}

/-- What becomes of the instances: their programs, for some orders of the infos and the ids. -/
theorem becomes_program (hacc : s.Accepted beaconNodes attackers params net) :
    LogNet.Becomes (instances s beaconNodes attackers) fun p => ∃ infos ids,
      Orders s beaconNodes attackers net infos ids ∧ p = program s beaconNodes attackers net infos ids := by
  intro st h
  obtain ⟨logs, infos, ids, hext, hlogs⟩ := hacc.exists_complete h
  refine ⟨logs, hext, infos, ids, hlogs.toOrders, ?_⟩
  funext i
  cases i with
  | inl b => exact line_beaconNode hacc hlogs b.isLt
  | inr a => exact line_attacker hacc hlogs a.isLt

theorem act_mem_beaconNodeProgram {x : Effect} {b : Nat}
    (hx : .act x ∈ beaconNodeProgram s beaconNodes attackers net infos ids b) :
    (∃ l, x = .plain l) ∨ x = .networkNew (participantsOf b infos) ids ∨ x ∈ s.dials net b := by
  simp only [beaconNodeProgram, List.mem_append, List.mem_cons, CounterNet.act_mem_acts, act_not_mem_reads,
    mem_signalAndWait, reduceCtorEq, List.mem_map, List.not_mem_nil, false_or, or_false] at hx
  rcases hx with (rfl | rfl | rfl | rfl) | (rfl | rfl) | hdial | rfl | ⟨l, -, rfl⟩ | rfl
  · exact Or.inl ⟨_, rfl⟩
  · exact Or.inl ⟨_, rfl⟩
  · exact Or.inl ⟨_, rfl⟩
  · exact Or.inl ⟨_, rfl⟩
  · exact Or.inr (Or.inl rfl)
  · exact Or.inl ⟨_, rfl⟩
  · exact Or.inr (Or.inr hdial)
  · exact Or.inl ⟨_, rfl⟩
  · exact Or.inl ⟨_, rfl⟩
  · exact Or.inl ⟨_, rfl⟩

theorem act_mem_attackerProgram {x : Effect} {target a : Nat} :
    .act x ∈ attackerProgram s beaconNodes attackers target a ↔
      x ∈ [.plain .buildSwarm, .plain .listen, .plain .recordTopologyAttacker,
        .recordVictimId (if a = 0 then some (s.peerId target) else none),
        .recordTopologyEdge (s.attackerPeerId a) (s.peerId target), .dial target (s.multiaddr target),
        .plain .recordSuccess] := by
  simp only [attackerProgram, List.mem_append, List.mem_cons, CounterNet.act_mem_acts, act_not_mem_reads,
    mem_signalAndWait, reduceCtorEq, List.not_mem_nil, false_or, or_false]
  tauto

/-! ## Runs end -/

/-- What the two programs say to the sync service. -/
def syncProgram (beaconNodes attackers : Nat) : Instance beaconNodes attackers → List (Act Key Effect)
  | .inl _ => .signal (.topic beaconNodeInfo) :: (reads beaconNodeInfo beaconNodes ++ reads attackerInfo attackers) ++
    signalAndWait barrierLibp2pReady (beaconNodes + attackers) ++
    signalAndWait barrierTopologyReady (beaconNodes + attackers) ++
    signalAndWait barrierSimulationCompleted (beaconNodes + attackers)
  | .inr _ => reads beaconNodeInfo beaconNodes ++ [.signal (.topic attackerInfo)] ++
    signalAndWait barrierLibp2pReady (beaconNodes + attackers) ++
    signalAndWait barrierTopologyReady (beaconNodes + attackers) ++
    signalAndWait barrierSimulationCompleted (beaconNodes + attackers)

variable (s net infos ids) in
theorem sync_program (i : Instance beaconNodes attackers) :
    CounterNet.sync (program s beaconNodes attackers net infos ids i) = syncProgram beaconNodes attackers i := by
  have hsignal : ∀ t (p : List (Act Key Effect)), CounterNet.sync (.signal t :: p) = .signal t :: CounterNet.sync p :=
    fun _ _ => rfl
  cases i with
  | inl b => simp [program, beaconNodeProgram, syncProgram, sync_reads, hsignal]
  | inr a => simp [program, attackerProgram, syncProgram, sync_reads, hsignal]

theorem rank_topics : rank (.topic beaconNodeInfo) = 0 ∧ rank (.topic attackerInfo) = 1 := by decide

theorem rank_states : rank (.state barrierLibp2pReady) = 2 ∧ rank (.state barrierTopologyReady) = 3 ∧
    rank (.state barrierSimulationCompleted) = 4 := by decide

theorem ordered_program (i : Instance beaconNodes attackers) :
    (program s beaconNodes attackers net infos ids i).Pairwise (Act.Ordered rank) := by
  apply CounterNet.pairwise_ordered_of_sync
  rw [sync_program]
  obtain ⟨h₀, h₁⟩ := rank_topics
  obtain ⟨h₂, h₃, h₄⟩ := rank_states
  cases i with
  | inl b =>
    simp [syncProgram, List.pairwise_append, reads, List.pairwise_map, or_imp, forall_and, CounterNet.ordered_signal,
      CounterNet.ordered_await, CounterNet.ordered_await_signal, List.pairwise_of_forall, signalAndWait, h₀, h₁, h₂, h₃, h₄]
  | inr a =>
    simp [syncProgram, List.pairwise_append, reads, List.pairwise_map, or_imp, forall_and, CounterNet.ordered_signal,
      CounterNet.ordered_await, CounterNet.ordered_await_signal, List.pairwise_of_forall, signalAndWait, h₀, h₁, h₂, h₃, h₄]

theorem sum_signals_program (t : Key) :
    ∑ i, CounterNet.signals t (program s beaconNodes attackers net infos ids i) =
      ∑ i, CounterNet.signals t (syncProgram beaconNodes attackers i) :=
  Finset.sum_congr rfl fun i _ => by rw [← sync_program s net infos ids, CounterNet.signals_sync]

theorem sum_signals_topic (topic : String) :
    ∑ i, CounterNet.signals (.topic topic) (syncProgram beaconNodes attackers i) =
      (if beaconNodeInfo = topic then beaconNodes else 0) + if attackerInfo = topic then attackers else 0 := by
  simp [Fintype.sum_sum_type, syncProgram, signals_reads, Act.isSignal]

theorem sum_signals_state {state : String}
    (hstate : state = barrierLibp2pReady ∨ state = barrierTopologyReady ∨ state = barrierSimulationCompleted) :
    ∑ i, CounterNet.signals (.state state) (syncProgram beaconNodes attackers i) = beaconNodes + attackers := by
  rcases hstate with rfl | rfl | rfl <;>
    simp [Fintype.sum_sum_type, syncProgram, signals_reads, Act.isSignal, barrierLibp2pReady, barrierTopologyReady,
      barrierSimulationCompleted]

theorem served_program : CounterNet.Served (program s beaconNodes attackers net infos ids) := by
  intro i t k ha
  rw [sum_signals_program]
  rw [← CounterNet.await_mem_sync, sync_program] at ha
  have hinfos : ∀ m < beaconNodes, m + 1 ≤ ∑ i, CounterNet.signals (.topic beaconNodeInfo)
      (syncProgram beaconNodes attackers i) := by
    intro m hm
    rw [sum_signals_topic, if_pos rfl]
    exact Nat.le_add_right_of_le hm
  have hids : ∀ m < attackers, m + 1 ≤ ∑ i, CounterNet.signals (.topic attackerInfo)
      (syncProgram beaconNodes attackers i) := by
    intro m hm
    rw [sum_signals_topic, if_pos rfl]
    exact Nat.le_add_left_of_le hm
  cases i with
  | inl b =>
    simp only [syncProgram, List.mem_append, List.mem_cons, reads, List.mem_map, List.mem_range, reduceCtorEq, false_or,
      Act.await.injEq, mem_signalAndWait] at ha
    rcases ha with (((⟨m, hm, rfl, rfl⟩ | ⟨m, hm, rfl, rfl⟩) | ⟨rfl, rfl⟩) | ⟨rfl, rfl⟩) | ⟨rfl, rfl⟩
    · exact hinfos m hm
    · exact hids m hm
    all_goals rw [sum_signals_state (by simp)]
  | inr a =>
    simp only [syncProgram, List.mem_append, List.mem_cons, reads, List.mem_map, List.mem_range, reduceCtorEq, false_or,
      Act.await.injEq, mem_signalAndWait, List.not_mem_nil, or_false] at ha
    rcases ha with ((⟨m, hm, rfl, rfl⟩ | ⟨rfl, rfl⟩) | ⟨rfl, rfl⟩) | ⟨rfl, rfl⟩
    · exact hinfos m hm
    all_goals rw [sum_signals_state (by simp)]

variable (s net infos ids) in
theorem success_mem_program (i : Instance beaconNodes attackers) :
    .act (.plain .recordSuccess) ∈ program s beaconNodes attackers net infos ids i := by
  cases i with
  | inl b => simp [program, beaconNodeProgram]
  | inr a => simp [program, attackerProgram]

/-- **Every run ends, and all record success.** -/
theorem runs_end_in_success (s : Setup) (hacc : s.Accepted beaconNodes attackers params net) :
    (¬ ∃ f : Nat → LogNet.State (Instance beaconNodes attackers) Key Entry Effect,
      f 0 = .init (instances s beaconNodes attackers) ∧ ∀ k, ∃ i, LogNet.Step i (f k) (f (k + 1))) ∧
    ∀ st, LogNet.Reachable (instances s beaconNodes attackers) st →
      (∀ i f, .act (.crash f) ∉ st.trace i) ∧
      ((∀ i st', ¬ LogNet.Step i st st') → ∀ i, .act (.plain .recordSuccess) ∈ st.trace i) := by
  constructor
  · rintro ⟨f, -, hf⟩
    exact LogNet.no_infinite_run hf
  · intro st h
    obtain ⟨-, ⟨infos, ids, -, rfl⟩, c, -, hexec, hall⟩ := (becomes_program hacc).run h
    refine ⟨fun i f hcrash => ?_, fun hstuck i => ?_⟩
    · have hmem := LogNet.act_mem_of_trace hexec hcrash
      cases i with
      | inl b =>
        rcases act_mem_beaconNodeProgram hmem with ⟨l, hl⟩ | hnew | hdial
        · cases hl
        · cases hnew
        · simp [Setup.dials] at hdial
      | inr a => simpa using act_mem_attackerProgram.mp hmem
    · apply LogNet.act_mem_map.mp
      rw [hall (CounterNet.deadlockFree_of_ordered ordered_program served_program) hstuck]
      exact success_mem_program s net infos ids i

variable (s) in
/-- A run that cannot go on has done all of the programs. -/
theorem exists_complete_run (hacc : s.Accepted beaconNodes attackers params net) :
    ∃ infos ids st, Orders s beaconNodes attackers net infos ids ∧ LogNet.Reachable (instances s beaconNodes attackers) st ∧
      ∀ i, (st.trace i).map Event.toAct = program s beaconNodes attackers net infos ids i := by
  obtain ⟨st, hreach, hstuck⟩ := LogNet.exists_stuck (instances s beaconNodes attackers)
  obtain ⟨-, ⟨infos, ids, ho, rfl⟩, -, -, -, hall⟩ := (becomes_program hacc).run hreach
  exact ⟨infos, ids, st, ho, hreach, hall (CounterNet.deadlockFree_of_ordered ordered_program served_program) hstuck⟩

theorem act_mem_of_program {p : List (Act Key Effect)} (htrace : (st.trace i).map Event.toAct = p) {x : Effect}
    (hx : .act x ∈ p) : .act x ∈ st.trace i :=
  LogNet.act_mem_map.mp (htrace ▸ hx)

theorem runs_end_in_success_two : ∃ st, LogNet.Reachable (instances Setup.two 2 2) st ∧
    ∀ i, .act (.plain .recordSuccess) ∈ st.trace i ∧ ∀ f, .act (.crash f) ∉ st.trace i := by
  obtain ⟨params, net, hacc⟩ := accepted_two
  obtain ⟨st, hst, hstuck⟩ := LogNet.exists_stuck (instances Setup.two 2 2)
  obtain ⟨hcrash, hsuccess⟩ := (runs_end_in_success Setup.two hacc).2 st hst
  exact ⟨st, hst, fun i => ⟨hsuccess hstuck i, hcrash i⟩⟩

/-! ## Attackers -/

/-- Those who have validators have at most the target's number of them. -/
theorem Setup.Accepted.total_le (hacc : s.Accepted beaconNodes attackers params net)
    (hv : 1 ≤ params.totalNodesWithVals) {target : Nat}
    (hmax : ∀ k < beaconNodes, (s.info net k).validators.length ≤ (s.info net target).validators.length) :
    params.totalValidators ≤ params.totalNodesWithVals * (s.info net target).validators.length := by
  obtain ⟨run, hparsed⟩ := hacc.parsed
  have hnodes := parseTopologyParams_totalNodes hacc.lt hparsed
  obtain ⟨cuts, hc⟩ := cutsOf_ok s.build s.gen (Or.inl hv)
  obtain ⟨va, hva, htoList⟩ := assignValidators_spec hc
  have heq := validatorAssignments_of_generate hva hacc.generated
  have hlength := length_pieces hv hc
  have hcard : ∀ k, (s.info net k).validators.length = ((va[k]?).getD ∅).card := by
    intro k
    have h := congrArg Multiset.card (s.iter_perm k ((net.validatorAssignments[k]?).getD ∅))
    rw [← heq]
    exact (Multiset.coe_card _).symm.trans h
  have hle : ∀ x ∈ (OrderedMap.values va).map Finset.card, x ≤ (s.info net target).validators.length := by
    intro x hx
    simp only [OrderedMap.values, List.map_map, List.mem_map, Function.comp_apply, Prod.exists] at hx
    obtain ⟨k, vals, hmem, rfl⟩ := hx
    have hget := Std.TreeMap.mem_toList_iff_getElem?_eq_some.mp hmem
    have hk : k < beaconNodes := by
      rw [getElem?_of_pieces htoList, Option.map_eq_some_iff] at hget
      obtain ⟨p, hp, -⟩ := hget
      have hlt := (List.getElem?_eq_some_iff.mp hp).1
      have hwith := params.withVals_le
      omega
    have h := hmax k hk
    rwa [hcard k, hget] at h
  have hsum := List.sum_le_card_nsmul _ _ hle
  rw [(partition_of_cuts hc htoList).1, smul_eq_mul] at hsum
  refine hsum.trans (Nat.mul_le_mul_right _ ?_)
  rw [List.length_map, OrderedMap.values, List.length_map, htoList, List.length_map, List.length_zipIdx, hlength]
  omega

/-- **One victim.** -/
theorem one_victim (s : Setup) (hacc : s.Accepted beaconNodes attackers params net)
    (st : LogNet.State (Instance beaconNodes attackers) Key Entry Effect)
    (h : LogNet.Reachable (instances s beaconNodes attackers) st) :
    ∃ target < beaconNodes,
      (∀ k < beaconNodes, (s.info net k).validators.length ≤ (s.info net target).validators.length) ∧
      (1 ≤ params.totalNodesWithVals →
        params.totalValidators ≤ params.totalNodesWithVals * (s.info net target).validators.length) ∧
      ∀ a : Fin attackers,
        (∀ k addr, .act (.dial k addr) ∈ st.trace (.inr a) → k = target ∧ addr = s.multiaddr target) ∧
        (∀ x y, .act (.recordTopologyEdge x y) ∈ st.trace (.inr a) → x = s.attackerPeerId a ∧ y = s.peerId target) ∧
        ∀ v, .act (.recordVictimId v) ∈ st.trace (.inr a) → v = if a.val = 0 then some (s.peerId target) else none := by
  obtain ⟨-, ⟨infos, ids, ho, rfl⟩, c, -, hexec, -⟩ := (becomes_program hacc).run h
  obtain ⟨hlt, hmax⟩ := ho.target_le hacc.pos
  have hmem : ∀ (a : Fin attackers) x, .act x ∈ st.trace (.inr a) →
      .act x ∈ attackerProgram s beaconNodes attackers (targetOf infos) a := fun _ _ hx =>
    LogNet.act_mem_of_trace hexec hx
  refine ⟨targetOf infos, hlt, hmax, fun hv => hacc.total_le hv hmax, fun a => ⟨?_, ?_, ?_⟩⟩
  · intro k addr hx
    simpa using act_mem_attackerProgram.mp (hmem a _ hx)
  · intro x y hx
    simpa using act_mem_attackerProgram.mp (hmem a _ hx)
  · intro v hx
    simpa using act_mem_attackerProgram.mp (hmem a _ hx)

theorem one_victim_two : ∃ st, LogNet.Reachable (instances Setup.two 2 2) st ∧ ∃ target < 2, ∀ a : Fin 2,
    (∃ k, .act (.dial k (Setup.two.multiaddr k)) ∈ st.trace (.inr a)) ∧
      ∀ k addr, .act (.dial k addr) ∈ st.trace (.inr a) → k = target := by
  obtain ⟨params, net, hacc⟩ := accepted_two
  obtain ⟨infos, ids, st, -, hst, htrace⟩ := exists_complete_run Setup.two hacc
  obtain ⟨target, hlt, -, -, hvictim⟩ := one_victim Setup.two hacc st hst
  refine ⟨st, hst, target, hlt, fun a => ⟨⟨targetOf infos, ?_⟩, fun k addr hd => ((hvictim a).1 k addr hd).1⟩⟩
  exact act_mem_of_program (htrace (.inr a)) (act_mem_attackerProgram.mpr (by simp))

/-! ## Beacon nodes -/

/-- What an instance does with data that others have published. -/
def Effect.data? : Effect → Option Effect
  | .plain _ => none
  | e => some e

theorem filterMap_plain (l : List Local) : (l.map Effect.plain).filterMap Effect.data? = [] := by
  simp [Effect.data?]

theorem filterMap_dials (b : Nat) : (s.dials net b).filterMap Effect.data? = s.dials net b := by
  simp [Setup.dials, List.filterMap_flatMap, Effect.data?]

theorem data_beaconNodeProgram (b : Nat) :
    (CounterNet.locals (beaconNodeProgram s beaconNodes attackers net infos ids b)).filterMap Effect.data? =
      .networkNew (participantsOf b infos) ids :: s.dials net b := by
  simp only [beaconNodeProgram, CounterNet.locals_append, CounterNet.locals_acts, CounterNet.locals_signal, locals_reads,
    locals_signalAndWait, List.filterMap_append, filterMap_plain, filterMap_dials]
  simp [List.filterMap_cons, Effect.data?]

/-- **The network is dialed.** -/
theorem beacon_nodes_dial_the_network (s : Setup) (hacc : s.Accepted beaconNodes attackers params net)
    (st : LogNet.State (Instance beaconNodes attackers) Key Entry Effect)
    (h : LogNet.Reachable (instances s beaconNodes attackers) st) :
    ∃ ids : List String, ids.Perm ((List.range attackers).map s.attackerPeerId) ∧ ∀ b : Fin beaconNodes,
      (∃ participants : BeaconNodes,
        (∀ k i, participants[k]? = some i ↔ k < beaconNodes ∧ k ≠ b ∧ i = s.info net k) ∧
        (st.did (.inl b)).filterMap Effect.data? <+: .networkNew participants ids :: s.dials net b) ∧
      (outboundPeersOf net b).Nodup ∧
      ∀ peer ∈ outboundPeersOf net b, peer < beaconNodes ∧ peer ≠ b ∧ b.val ∉ outboundPeersOf net peer := by
  obtain ⟨-, ⟨infos, ids, ho, rfl⟩, c, -, hexec, -⟩ := (becomes_program hacc).run h
  refine ⟨ids, ho.ids_perm, fun b => ⟨⟨participantsOf b infos, ?_, ?_⟩, ?_, fun peer hpeer => ?_⟩⟩
  · exact getElem?_participantsOf ho.infos_perm b
  · rw [← data_beaconNodeProgram]
    exact (LogNet.did_isPrefix hexec _).filterMap _
  · rw [hacc.outboundPeers_eq]
    exact nodup_dialed (simple_dials s.gen params).nodup _
  · obtain ⟨hlt, hne⟩ := hacc.outboundPeers_lt hpeer
    refine ⟨hlt, hne, fun hback => ?_⟩
    rw [hacc.outboundPeers_eq, mem_dialed] at hpeer hback
    exact (simple_dials s.gen params).swap_not_mem hpeer hback

theorem beacon_nodes_dial_the_network_two : ∃ net st, LogNet.Reachable (instances Setup.two 2 2) st ∧
    .act (.plain .recordSuccess) ∈ st.trace (.inl 0) ∧ ∃ participants : BeaconNodes, ∃ ids, (∀ k, k ∈ participants ↔ k = 1) ∧
      (st.did (.inl 0)).filterMap Effect.data? <+: .networkNew participants ids :: Setup.two.dials net 0 := by
  obtain ⟨params, net, hacc⟩ := accepted_two
  obtain ⟨infos, ids', st, -, hst, htrace⟩ := exists_complete_run Setup.two hacc
  obtain ⟨ids, -, hnodes⟩ := beacon_nodes_dial_the_network Setup.two hacc st hst
  obtain ⟨⟨participants, hget, hdata⟩, -⟩ := hnodes 0
  have hsuccess := act_mem_of_program (htrace (.inl 0)) (success_mem_program Setup.two net infos ids' (.inl 0))
  refine ⟨net, st, hst, hsuccess, participants, ids, fun k => ?_, hdata⟩
  rw [Std.TreeMap.mem_iff_isSome_getElem?, Option.isSome_iff_exists]
  simp only [hget, Fin.val_zero, exists_and_left, exists_eq, and_true]
  omega

/-! ## With the data left out -/

def Effect.forget : Effect → Option Local
  | .plain x => some x
  | .networkNew _ _ => some .networkNew
  | .recordTopologyEdge _ _ => some .recordTopologyEdge
  | .dial nodeId _ => some (.dial nodeId)
  | .recordVictimId _ => some .recordVictimId
  | .crash _ => none

/-- A collection round waits once, for its last item. -/
def forget (beaconNodes attackers : Nat) : Act Key Effect → Option (Act Key Local)
  | .act e => e.forget.map .act
  | .signal k => some (.signal k)
  | .await (.state name) k => some (.await (.state name) k)
  | .await (.topic name) k =>
    if k = (if name = beaconNodeInfo then beaconNodes else attackers) then some (.await (.topic name) k) else none

theorem forget_projection : CounterNet.Projection (fun _ => true) (forget beaconNodes attackers) where
  signal _ := rfl
  await {t k y} h := by
    refine ⟨rfl, ?_⟩
    cases t with
    | state name =>
      cases h
      rfl
    | topic name =>
      by_cases hk : k = if name = beaconNodeInfo then beaconNodes else attackers
      · rw [forget, if_pos hk] at h
        cases h
        rfl
      · rw [forget, if_neg hk] at h
        cases h
  act {e y} h := by
    obtain ⟨x, -, rfl⟩ := Option.map_eq_some_iff.mp h
    exact ⟨x, rfl⟩

theorem forget_acts (l : List Effect) :
    (acts l).filterMap (forget beaconNodes attackers) = acts (l.filterMap Effect.forget) :=
  CounterNet.filterMap_acts (fun _ => rfl) l

theorem forget_plain (l : List Local) : (l.map Effect.plain).filterMap Effect.forget = l := by
  rw [List.filterMap_map]
  exact List.filterMap_some

theorem forget_signalAndWait (state : String) (target : Nat) :
    (signalAndWait state target).filterMap (forget beaconNodes attackers) = signalAndWait state target := rfl

theorem forget_signal (t : Key) (p : List (Act Key Effect)) : (.signal t :: p).filterMap (forget beaconNodes attackers) =
    .signal t :: p.filterMap (forget beaconNodes attackers) := rfl

theorem forget_reads {topic : String} {count : Nat} (hpos : 1 ≤ count)
    (hcount : count = if topic = beaconNodeInfo then beaconNodes else attackers) :
    (reads topic count).filterMap (forget beaconNodes attackers) = [.await (.topic topic) count] := by
  apply PublishAndCollect.filterMap_reads hpos
  · intro k hk
    rw [forget, if_neg (hcount ▸ hk)]
  · rw [forget, if_pos hcount]

theorem forget_dials (b : Nat) : (s.dials net b).filterMap Effect.forget =
    (outboundPeersOf net b).flatMap fun nodeId => [.recordTopologyEdge, .dial nodeId] := by
  simp [Setup.dials, List.filterMap_flatMap, Effect.forget]

/-- The configuration of `ScoringPhases` that a run has. -/
def Setup.config (s : Setup) (beaconNodes attackers : Nat) (net : Network) (target : Nat) :
    Config beaconNodes attackers where
  outboundPeers b := outboundPeersOf net b
  branches b := s.branches b
  targetNodeId _ := target

theorem forget_program (hpos : 1 ≤ beaconNodes) (hattackers : 1 ≤ attackers) (i : Instance beaconNodes attackers) :
    (program s beaconNodes attackers net infos ids i).filterMap (forget beaconNodes attackers) =
      main (s.config beaconNodes attackers net (targetOf infos)) i := by
  have hinfos : (reads beaconNodeInfo beaconNodes).filterMap (forget beaconNodes attackers) =
      [.await (.topic beaconNodeInfo) beaconNodes] := forget_reads hpos (by simp)
  have hids : (reads attackerInfo attackers).filterMap (forget beaconNodes attackers) =
      [.await (.topic attackerInfo) attackers] := forget_reads hattackers (by simp [beaconNodeInfo, attackerInfo])
  cases i with
  | inl b =>
    simp only [program, beaconNodeProgram, List.filterMap_append, forget_acts, forget_plain, forget_signal, hinfos, hids,
      forget_signalAndWait, forget_dials]
    rw [main_beaconNode]
    simp only [beaconNodeStart, publishAndCollect, collect, dialPeers, otherGroup_beaconNode, acts, List.map_append,
      List.append_assoc]
    rfl
  | inr a =>
    simp only [program, attackerProgram, List.filterMap_append, forget_acts, forget_signal, hinfos, forget_signalAndWait]
    rw [main_attacker]
    simp only [attackerCollect, collect, otherGroup_attacker, attackerFromReady, List.append_assoc]
    rfl

/-- A run of the programs is one of the phases. -/
theorem refines {p : Instance beaconNodes attackers → List (Act Key Effect)}
    {c : CounterNet.State (Instance beaconNodes attackers) Key} (hpos : 1 ≤ beaconNodes) (hattackers : 1 ≤ attackers)
    (hp : p = program s beaconNodes attackers net infos ids) (hreach : CounterNet.Reachable p c)
    (hexec : ∀ i, CounterNet.executed p c i = (st.trace i).map Event.toAct) :
    ∃ st', CounterNet.Reachable (main (s.config beaconNodes attackers net (targetOf infos))) st' ∧
      ∀ i, CounterNet.executed (main (s.config beaconNodes attackers net (targetOf infos))) st' i =
        ((st.trace i).map Event.toAct).filterMap (forget beaconNodes attackers) := by
  have hmain : main (s.config beaconNodes attackers net (targetOf infos)) = fun i =>
      (p i).filterMap (forget beaconNodes attackers) := by
    rw [hp]
    exact funext fun i => (forget_program hpos hattackers i).symm
  rw [hmain]
  refine ⟨_, hreach.project forget_projection, fun i => ?_⟩
  rw [CounterNet.executed_project, hexec]

/-- **Refinement.** A run with its data is a run of the phases, with the network that was generated and one target. -/
theorem run_refines_phases (s : Setup) (hacc : s.Accepted beaconNodes attackers params net) (hattackers : 1 ≤ attackers)
    (st : LogNet.State (Instance beaconNodes attackers) Key Entry Effect)
    (h : LogNet.Reachable (instances s beaconNodes attackers) st) :
    ∃ target < beaconNodes, ∃ st' : CounterNet.State (Instance beaconNodes attackers) Key,
      CounterNet.Reachable (main (s.config beaconNodes attackers net target)) st' ∧
      ∀ i, CounterNet.executed (main (s.config beaconNodes attackers net target)) st' i =
        ((st.trace i).map Event.toAct).filterMap (forget beaconNodes attackers) := by
  obtain ⟨p, ⟨infos, ids, ho, hp⟩, c, hreach, hexec, -⟩ := (becomes_program hacc).run h
  exact ⟨targetOf infos, (ho.target_le hacc.pos).1, refines hacc.pos hattackers hp hreach hexec⟩

theorem run_refines_phases_two : ∃ st, LogNet.Reachable (instances Setup.two 2 2) st ∧
    .act (.plain .recordSuccess) ∈ st.trace (.inl 0) ∧ ∃ c : Config 2 2, ∃ st', CounterNet.Reachable (main c) st' ∧
      ∀ i, CounterNet.executed (main c) st' i = ((st.trace i).map Event.toAct).filterMap (forget 2 2) := by
  obtain ⟨params, net, hacc⟩ := accepted_two
  obtain ⟨infos, ids, st, -, hst, htrace⟩ := exists_complete_run Setup.two hacc
  obtain ⟨target, -, st', hreach, hexec⟩ := run_refines_phases Setup.two hacc (by decide) st hst
  have hsuccess := act_mem_of_program (htrace (.inl 0)) (success_mem_program Setup.two net infos ids (.inl 0))
  exact ⟨st, hst, hsuccess, _, st', hreach, hexec⟩

/-! ## The simulation -/

theorem exists_forget {p : List (Act Key Effect)} {x : Local}
    (hx : .act x ∈ p.filterMap (forget beaconNodes attackers)) : ∃ e, e.forget = some x ∧ .act e ∈ p := by
  obtain ⟨y, hy, hx⟩ := List.mem_filterMap.mp hx
  cases y with
  | act e =>
    obtain ⟨x', hx', heq⟩ := Option.map_eq_some_iff.mp hx
    cases heq
    exact ⟨e, hx', hy⟩
  | signal t => cases hx
  | await t k => cases (forget_projection.await hx).2

theorem act_mem_forget {p : List (Act Key Effect)} {e : Effect} {x : Local} (hx : e.forget = some x) (he : .act e ∈ p) :
    .act x ∈ p.filterMap (forget beaconNodes attackers) :=
  List.mem_filterMap.mpr ⟨.act e, he, by rw [forget, hx]; rfl⟩

theorem dial_of_forget {e : Effect} {k : Nat} (he : e.forget = some (.dial k)) : e = .plain (.dial k) ∨ ∃ addr, e = .dial k addr := by
  cases e with
  | plain x =>
    cases he
    exact Or.inl rfl
  | dial nodeId addr =>
    cases he
    exact Or.inr ⟨addr, rfl⟩
  | networkNew _ _ | recordTopologyEdge _ _ | recordVictimId _ | crash _ => cases he

theorem dial_mem_beaconNodeProgram {e : Effect} {b k : Nat} (he : e.forget = some (.dial k))
    (hmem : .act e ∈ beaconNodeProgram s beaconNodes attackers net infos ids b) : e = .dial k (s.multiaddr k) := by
  rcases dial_of_forget he with rfl | ⟨addr, rfl⟩
  · simp [beaconNodeProgram, subscribeTopics, runSim, Setup.dials] at hmem
  · rcases act_mem_beaconNodeProgram hmem with ⟨l, hl⟩ | hnew | hdial
    · cases hl
    · cases hnew
    · simp only [Setup.dials, List.mem_flatMap, List.mem_cons, List.not_mem_nil, or_false, reduceCtorEq, false_or,
        Effect.dial.injEq] at hdial
      obtain ⟨peer, -, rfl, rfl⟩ := hdial
      rfl

/-- **The simulation starts on the whole network.** -/
theorem simulation_on_whole_network (s : Setup) (hacc : s.Accepted beaconNodes attackers params net)
    (hattackers : 1 ≤ attackers) (st : LogNet.State (Instance beaconNodes attackers) Key Entry Effect)
    (h : LogNet.Reachable (instances s beaconNodes attackers) st) :
    ∃ target < beaconNodes,
      (∀ i nodeId addr, .act (.dial nodeId addr) ∈ st.trace i → ∀ j, .act (.plain .listen) ∈ st.trace j) ∧
      ∀ b x, (∃ topic, x = .subscribe topic) ∨ (∃ m, x = .branch (.generated m)) →
        .act (.plain x) ∈ st.trace (.inl b) →
        (∀ b' peer, peer ∈ outboundPeersOf net b'.val → .act (.dial peer (s.multiaddr peer)) ∈ st.trace (.inl b')) ∧
        ∀ a, .act (.dial target (s.multiaddr target)) ∈ st.trace (.inr a) := by
  obtain ⟨p, ⟨infos, ids, ho, hp⟩, c, hreach, hexec, -⟩ := (becomes_program hacc).run h
  obtain ⟨st', hreach', hexec'⟩ := refines hacc.pos hattackers hp hreach hexec
  subst hp
  have hto : ∀ {i e x}, e.forget = some x → .act e ∈ st.trace i →
      .act x ∈ CounterNet.executed (main (s.config beaconNodes attackers net (targetOf infos))) st' i := by
    intro i e x hx he
    rw [hexec']
    exact act_mem_forget hx (LogNet.act_mem_map.mpr he)
  have hfrom : ∀ {i x}, .act x ∈ CounterNet.executed (main (s.config beaconNodes attackers net (targetOf infos))) st' i →
      ∃ e, e.forget = some x ∧ .act e ∈ st.trace i := by
    intro i x hx
    rw [hexec'] at hx
    obtain ⟨e, he, hmem⟩ := exists_forget hx
    exact ⟨e, he, LogNet.act_mem_map.mp hmem⟩
  refine ⟨targetOf infos, (ho.target_le hacc.pos).1, fun i nodeId addr hd j => ?_, fun b x hx hsim => ?_⟩
  · have hstarted := started_of_dialed (hto (rfl : (Effect.dial nodeId addr).forget = some (.dial nodeId)) hd)
    have hlisten := listening_of_started (signalled_of_awaited hreach' (Or.inl rfl) hstarted j)
    obtain ⟨e, he, hmem⟩ := hfrom hlisten
    cases e with
    | plain x =>
      cases he
      exact hmem
    | networkNew _ _ | recordTopologyEdge _ _ | dial _ _ | recordVictimId _ | crash _ => cases he
  · have hready := ready_of_sim (hx.imp id fun hm => hm.elim fun m hm => ⟨_, hm⟩) (hto rfl hsim)
    have hdialed := fun j => dialed_of_ready (signalled_of_awaited hreach' (Or.inr (Or.inl rfl)) hready j)
    constructor
    · intro b' peer hpeer
      obtain ⟨e, he, hmem⟩ := hfrom (hdialed (.inl b') (.dial peer) (by simp [dialPeers, Setup.config, hpeer]))
      have heq := dial_mem_beaconNodeProgram he (LogNet.act_mem_of_trace hexec hmem)
      exact heq ▸ hmem
    · intro a
      obtain ⟨e, he, hmem⟩ := hfrom (hdialed (.inr a))
      have hin := act_mem_attackerProgram.mp (LogNet.act_mem_of_trace hexec hmem)
      rcases dial_of_forget he with rfl | ⟨addr, rfl⟩
      · simp at hin
      · obtain ⟨-, rfl⟩ : _ ∧ addr = s.multiaddr (targetOf infos) := by simpa using hin
        exact hmem

/-- Node 0 has subscribed, so both attackers have dialed. -/
theorem simulation_on_whole_network_two : ∃ st, LogNet.Reachable (instances Setup.two 2 2) st ∧
    .act (.plain (.subscribe .blocks)) ∈ st.trace (.inl 0) ∧
    ∃ target, ∀ a, .act (.dial target (Setup.two.multiaddr target)) ∈ st.trace (.inr a) := by
  obtain ⟨params, net, hacc⟩ := accepted_two
  obtain ⟨infos, ids, st, -, hst, htrace⟩ := exists_complete_run Setup.two hacc
  obtain ⟨target, -, -, hsim⟩ := simulation_on_whole_network Setup.two hacc (by decide) st hst
  have hsubscribe : .act (.plain (.subscribe .blocks)) ∈ st.trace (.inl 0) :=
    act_mem_of_program (htrace (.inl 0)) (by simp [program, beaconNodeProgram, subscribeTopics])
  exact ⟨st, hst, hsubscribe, target, (hsim 0 _ (Or.inl ⟨_, rfl⟩) hsubscribe).2⟩

end

end GossipPlans.Scoring
