import GossipPlans.EthRun

/-!
# eth_consensus: runs in which an instance panics

A refused dial is a panic, between two waits on the same state. The second wait is over when the first one is, so the
others do not notice that an instance is gone: each of them ends as its own dials do (`refused_dials_stay_alone`). A
generator of messages that cannot be built is a panic in front of the first wait, where all others stay
(`unbuilt_generator_stalls`).
-/

namespace GossipPlans.Eth

open CounterNet (Act acts)
open PublishAndCollect (Entry act_not_mem_reads expectOk_ok_iff fed_call held_orCrash held_run held_signalAndWait orCrash
  reads sync_call sync_reads valueCodec)

/-! ## What becomes of the dials -/

theorem tryDials_spec {accepts : InstanceInfo → Bool} : ∀ dials : List Dial,
    ((tryDials accepts dials).2 = none ↔ ∀ d ∈ dials, accepts d.info = true) ∧
      ∀ p, (tryDials accepts dials).2 = some p → ∃ d ∈ dials, accepts d.info = false ∧ p = .dialFailed d.node d.peer
  | [] => by simp [tryDials]
  | d :: dials => by
    obtain ⟨hnone, hsome⟩ := @tryDials_spec accepts dials
    rw [tryDials]
    split
    · rename_i hd
      refine ⟨by simp [hd, hnone], fun p hp => ?_⟩
      obtain ⟨d', hd', hrefused⟩ := hsome p hp
      exact ⟨d', List.mem_cons_of_mem _ hd', hrefused⟩
    · rename_i hd
      have hfalse : accepts d.info = false := by simpa using hd
      refine ⟨by simp [hfalse], fun p hp => ?_⟩
      cases hp
      exact ⟨d, List.mem_cons_self .., hfalse, rfl⟩

/-! ## What the programs say to the sync service -/

section
variable {s : Setup} {n : Nat} {params : Params} {net : Network} {infos : List (Nat × InstanceInfo)}

def syncToDials (n : Nat) : List (Act Key Effect) :=
  .signal (.topic "node_info") :: reads "node_info" n ++ signalAndWait barrierTopologyReady n ++
    signalAndWait barrierLibp2pReady n

theorem fed_syncToDials : CounterNet.Fed n (fun _ => 0) (syncToDials n) :=
  (CounterNet.fed_append.mp (fed_syncProgram (n := n))).1

theorem sync_programTrying (v : Fin n) : CounterNet.sync (programTrying s n params net infos v) =
    syncToDials n ++ CounterNet.sync (programAfter n (tryDials (s.accepts v) (s.dials params v))) := by
  simp [programTrying, programToListen, syncToDials, sync_call, sync_reads]

/-- The state that is waited for at the end has all its signals at the start. -/
theorem await_mem_programAfter {r : List Dial × Option Panic} {t : Key} {k : Nat}
    (h : .await t k ∈ CounterNet.sync (programAfter n r)) :
    k ≤ n * CounterNet.signals t (syncToDials n : List (Act Key Effect)) := by
  have hmem := (List.mem_filter.mp h).1
  rw [programAfter] at hmem
  split at hmem
  · simp at hmem
  · obtain ⟨rfl, rfl⟩ : t = .state barrierTopologyReady ∧ k = n := by simpa [signalAndWait] using hmem
    apply Nat.le_mul_of_pos_right
    exact List.countP_pos_iff.mpr ⟨.signal (.state barrierTopologyReady), by simp [syncToDials, signalAndWait], by simp [Act.isSignal]⟩

theorem deadlockFree_programTrying : CounterNet.DeadlockFree (programTrying s n params net infos) := by
  apply CounterNet.deadlockFree_of_common (p := syncToDials n)
  · intro v
    rw [Fintype.card_fin]
    exact ⟨_, sync_programTrying v, fun _ _ => await_mem_programAfter⟩
  · rw [Fintype.card_fin]
    exact fed_syncToDials

theorem crash_mem_programTrying {v : Fin n} {f : Fail} : .act (.crash f) ∈ programTrying s n params net infos v ↔
    ∃ p, (tryDials (s.accepts v) (s.dials params v)).2 = some p ∧ f = .panic p := by
  rw [programTrying, programAfter]
  split
  · rename_i p hp
    simp [programToListen, signalAndWait, hp]
  · rename_i hp
    simp [programToListen, signalAndWait, hp]

theorem success_mem_programTrying {v : Fin n} : .act (.plain .recordSuccess) ∈ programTrying s n params net infos v ↔
    (tryDials (s.accepts v) (s.dials params v)).2 = none := by
  rw [programTrying, programAfter]
  split
  · rename_i p hp
    simp [programToListen, signalAndWait, hp]
  · rename_i hp
    simp [programToListen, signalAndWait, hp]

/-! ## Runs -/

/-- Of the two instances the first is refused its dials. -/
def Setup.refusing : Setup := { Setup.two with accepts := fun v _ => v ≠ 0 }

end

/-! ## Generators that are not built -/

/-- What an instance does up to the first wait. -/
def Effect.Early : Effect → Prop
  | .plain x => x ∈ [.parseParams, .generate, .recordInstanceInfo]
  | .newNetwork _ _ | .crash _ => True
  | .dial _ => False

/-- Instance `v` does not get a generator of messages, if it gets that far. -/
def Setup.Unbuilt (s : Setup) (n : Nat) (v : Fin n) : Prop := ∀ run params net,
  parseParams s.build n s.instanceParams = .ok (run, params) → Network.generate s.build s.gen params = .ok net →
    s.generator net.params.totalValidators (validatorSetOf net v) ≠ .ok ()

section
variable {s : Setup} {n : Nat} {v : Fin n} {logs : LogNet.Logs Key Entry}

theorem held_main (hunbuilt : s.Unbuilt n v) (w : Fin n) :
    (main s n w).Held logs (.state barrierTopologyReady) n Effect.Early (if w = v then 0 else 1) := by
  have hcrash : ∀ f, (Effect.crash f).Early := fun _ => trivial
  refine held_run nofun fun r _ => held_orCrash hcrash fun infos _ => ?_
  refine held_orCrash hcrash fun parsed hparsed => held_orCrash hcrash fun net hnet => ?_
  refine LogNet.held_acts.mpr ⟨by simp [Effect.Early], held_orCrash hcrash fun _ hbuilt => ?_⟩
  refine LogNet.held_acts.mpr ⟨by simp [Effect.Early], held_signalAndWait (fun _ => ?_) fun hne => absurd rfl hne⟩
  rw [if_neg]
  rintro rfl
  exact hunbuilt _ _ net hparsed hnet (expectOk_ok_iff.mp hbuilt)

/-- **One generator stops all.** When one instance does not get its generator of messages, no instance ever listens, dials
or records success. -/
theorem unbuilt_generator_stalls (s : Setup) (v : Fin n) (hunbuilt : s.Unbuilt n v)
    (st : LogNet.State (Fin n) Key Entry Effect) (h : LogNet.Reachable (main s n) st) :
    ∀ w x, .act x ∈ st.trace w → x.Early := by
  apply h.held (t := .state barrierTopologyReady) (k := n) (P := fun _ => Effect.Early)
    (n := fun w => if w = v then 0 else 1) (held_main hunbuilt)
  calc ∑ w, (if w = v then 0 else 1) < ∑ _w : Fin n, 1 :=
        Finset.sum_lt_sum (fun w _ => by split <;> omega) ⟨v, Finset.mem_univ v, by simp⟩
    _ = n := by simp

/-- The first of the two instances does not get a generator. -/
def Setup.unbuilt : Setup :=
  { Setup.two with generator := fun _ validators => if 0 ∈ validators then .error "" else .ok () }

theorem unbuilt_generator_stalls_two : ∃ st, LogNet.Reachable (main Setup.unbuilt 2) st ∧ (st.trace 1).length = 8 ∧
    ∀ w x, .act x ∈ st.trace w → x.Early := by
  let schedule : List (Fin 2 × Nat) := [(0, 1), (1, 1), (0, 6), (1, 7)]
  have hok : ((LogNet.execAll (.init (main Setup.unbuilt 2)) (schedule.flatMap fun b => List.replicate b.2 b.1)).map
      fun st => (st.trace 1).length) = some 8 := by decide +kernel
  obtain ⟨st, hst, hlength⟩ := Option.map_eq_some_iff.mp hok
  have hreach := LogNet.execAll_reachable .refl hst
  refine ⟨st, hreach, hlength, unbuilt_generator_stalls Setup.unbuilt 0 (fun run params net hparsed hnet => ?_) st hreach⟩
  have hvalidator : ((parseParams .release 2 Setup.two.instanceParams).bind fun r =>
      (Network.generate .release Prng.lastCuts r.2).map fun net => decide (0 ∈ validatorSetOf net 0)) = .ok true := by
    decide +kernel
  obtain ⟨r, hr, hmap⟩ := bind_ok_iff.mp hvalidator
  obtain rfl : r = (run, params) := Except.ok.inj (hr.symm.trans hparsed)
  have hnet : Network.generate .release Prng.lastCuts params = .ok net := hnet
  rw [hnet] at hmap
  have hmem : 0 ∈ validatorSetOf net 0 := of_decide_eq_true (Except.ok.inj hmap)
  simp [Setup.unbuilt, hmem]

end

end GossipPlans.Eth
