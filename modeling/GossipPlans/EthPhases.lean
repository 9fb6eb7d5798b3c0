import GossipPlans.SyncService

/-!
# eth_consensus: the phases of a run

The run waits for all instances before it dials and before it subscribes. The second wait uses the
state that all instances have already signalled once, so it does not wait (`exists_early_subscriber`).
-/

namespace GossipPlans.Eth

open CounterNet

def barrierLibp2pReady : String := "Started libp2p"
def barrierTopologyReady : String := "Topology generated"

inductive RunAct where
  | parseParams
  | generate
  | recordInstanceInfo
  | newNetwork
  | startLibp2p
  | dialPeers
  | subscribeTopics
  | runSim
  | recordSuccess
deriving DecidableEq, Repr

/-- `network::run` of one of `n` instances. A local step that fails ends the run there. -/
def run (n : Nat) : List (Act Key RunAct) :=
  [.act .parseParams, .act .generate, .act .recordInstanceInfo, .act .newNetwork] ++
  signalAndWait barrierTopologyReady n ++
  [.act .startLibp2p] ++
  signalAndWait barrierLibp2pReady n ++
  [.act .dialPeers] ++
  signalAndWait barrierTopologyReady n ++
  [.act .subscribeTopics, .act .runSim, .act .recordSuccess]

def instances (n : Nat) : Fin n → List (Act Key RunAct) := fun _ => run n

/-- Nobody subscribes or publishes before everybody has dialed. -/
def Separated (n : Nat) (st : State (Fin n) Key) : Prop :=
  ∀ i, .act .subscribeTopics ∈ executed (instances n) st i ∨ .act .runSim ∈ executed (instances n) st i →
    ∀ j, .act .dialPeers ∈ executed (instances n) st j

/-! ## Positions in the program -/

section
variable {n : Nat} {st : State (Fin n) Key}

theorem pc_of_subscribed {i : Fin n}
    (h : .act .subscribeTopics ∈ executed (instances n) st i ∨ .act .runSim ∈ executed (instances n) st i) :
    12 ≤ st.pc i := by
  by_contra hlt
  have hsub := (List.take_sublist_take_left (l := run n) (by omega : st.pc i ≤ 12)).subset
  rcases h with h | h
  · have := hsub h
    simp [run, signalAndWait] at this
  · have := hsub h
    simp [run, signalAndWait] at this

theorem dialed_of_pc {j : Fin n} (h : 10 ≤ st.pc j) : .act .dialPeers ∈ executed (instances n) st j := by
  apply (List.take_sublist_take_left (l := run n) h).subset
  simp [run, signalAndWait]

theorem signals_run (n : Nat) : signals (.state barrierTopologyReady) (run n) = 2 := rfl

theorem pc_of_signalled_twice {j : Fin n}
    (h : signals (.state barrierTopologyReady) (executed (instances n) st j) = 2) : 10 ≤ st.pc j := by
  by_contra hlt
  have hle := signals_take_mono (.state barrierTopologyReady) (run n) (by omega : st.pc j ≤ 9)
  have hone : signals (.state barrierTopologyReady) ((run n).take 9) = 1 := rfl
  rw [hone] at hle
  exact absurd (h.symm.le.trans hle) (by decide)

end

/-! ## What the second wait on one state misses -/

/-- The wait after `dial_peers` is passed only once all instances have signalled its state twice. -/
def WaitsForAll (n : Nat) (i : Fin n) (st : State (Fin n) Key) : Prop :=
  .act .dialPeers ∈ executed (instances n) st i → (run n)[st.pc i]? = some (.await (.state barrierTopologyReady) n) →
    2 * n ≤ st.count (.state barrierTopologyReady)

/-- The run invariant: whoever is past the last wait was there when the counter held all second signals. -/
theorem counted_of_pc {n : Nat} {st : State (Fin n) Key} (h : RunWith (instances n) (WaitsForAll n) .init st) :
    ∀ i, 12 ≤ st.pc i → 2 * n ≤ st.count (.state barrierTopologyReady) := by
  induction h with
  | refl => intro i hi; simp [State.init] at hi
  | @tail st₁ st₂ _ hstep ih =>
    obtain ⟨j, hstep, hwait⟩ := hstep
    obtain ⟨x, -, hc, -, -⟩ := hstep.executed_eq
    intro i hi
    refine Nat.le_trans ?_ (hc ▸ le_bump st₁.count x _)
    obtain ⟨hx, hr⟩ := hstep
    by_cases hij : i = j
    · subst hij
      simp only [Function.update_self] at hi
      rcases Nat.lt_or_ge (st₁.pc i) 12 with hlt | hge
      · have h11 : st₁.pc i = 11 := by omega
        apply hwait (dialed_of_pc (by omega))
        rw [h11]; rfl
      · exact ih i hge
    · simp only [Function.update_of_ne hij] at hi
      exact ih i hi

theorem separated_of_waitsForAll {n : Nat} {st : State (Fin n) Key}
    (h : RunWith (instances n) (WaitsForAll n) .init st) : Separated n st := by
  intro i hi j
  have hcount := counted_of_pc h i (pc_of_subscribed hi)
  apply dialed_of_pc
  apply pc_of_signalled_twice
  exact Reachable.all_signalled h.run (fun _ => (signals_run n).le) (by rwa [Fintype.card_fin]) j

theorem exists_early_subscriber {n : Nat} (hn : 2 ≤ n) : ∃ st, Reachable (instances n) st ∧ ¬ Separated n st := by
  have hlen : ∀ i : Fin n, (instances n i).length = 15 := fun _ => rfl
  obtain ⟨st₁, hrun₁, hpc₁⟩ := run_all (instances n) 0 5 (fun _ => pc_init _) (by omega)
    (fun i => by rw [hlen]; omega) fun i => by simp [instances, run, signalAndWait, Ready]
  have hcount₁ : st₁.count (.state barrierTopologyReady) = n := by
    rw [Reachable.count_const (m := 1) hrun₁ fun i => by rw [executed, hpc₁]; rfl, Fintype.card_fin, Nat.one_mul]
  obtain ⟨st₂, hrun₂, hpc₂⟩ := run_all (instances n) 5 8 hpc₁ (by omega)
    (fun i => by rw [hlen]; omega) fun i => by simp [instances, run, signalAndWait, Ready, hcount₁]
  have hreach₂ : Reachable (instances n) st₂ := hrun₁.trans hrun₂
  have hcount₂ : ∀ s, s = barrierTopologyReady ∨ s = barrierLibp2pReady → st₂.count (.state s) = n := by
    intro s hs
    have hone : ∀ i : Fin n, signals (.state s) (executed (instances n) st₂ i) = 1 := by
      intro i
      rw [executed, hpc₂]
      rcases hs with rfl | rfl <;> rfl
    rw [hreach₂.count_const hone, Fintype.card_fin, Nat.one_mul]
  obtain ⟨st₃, hrun₃, hpc₃, -⟩ := run_block (instances n) ⟨0, by omega⟩ 5 st₂ (by rw [hpc₂, hlen]; omega) (by
    rw [hpc₂]
    simp [instances, run, signalAndWait, Ready, hcount₂])
  refine ⟨st₃, hreach₂.trans hrun₃, fun hsep => ?_⟩
  have hdialed := hsep ⟨0, by omega⟩ (Or.inl ?_) ⟨1, by omega⟩
  · rw [executed, hpc₃, Function.update_of_ne (by simp), hpc₂] at hdialed
    simp [instances, run, signalAndWait] at hdialed
  · rw [executed, hpc₃, Function.update_self, hpc₂]
    simp [instances, run, signalAndWait]

/-- **When the phases are separated.** In the runs that pass the last wait only after the second signals of
all; and for every number of instances from 2 on there is a run that does not. -/
theorem phases_separated (n : Nat) :
    (∀ st, RunWith (instances n) (WaitsForAll n) .init st → Separated n st) ∧
      (2 ≤ n → ∃ st, Reachable (instances n) st ∧ ¬ Separated n st) :=
  ⟨fun _ h => separated_of_waitsForAll h, exists_early_subscriber⟩

instance (n : Nat) (i : Fin n) (st : State (Fin n) Key) : Decidable (WaitsForAll n i st) := by
  unfold WaitsForAll; infer_instance

theorem phases_separated_two : ∃ st, RunWith (instances 2) (WaitsForAll 2) .init st ∧
    .act .subscribeTopics ∈ executed (instances 2) st 0 ∧ Separated 2 st := by
  have hok : ((execAll (instances 2) (WaitsForAll 2) .init ((List.replicate 13 [0, 1]).flatten)).map
      fun st => decide (.act .subscribeTopics ∈ executed (instances 2) st 0)) = some true := by decide
  obtain ⟨st, hst, hsub⟩ := Option.map_eq_some_iff.mp hok
  have hrun := execAll_run hst
  exact ⟨st, hrun, of_decide_eq_true hsub, (phases_separated 2).1 st hrun⟩

/-- Two instances: one subscribes while the other has yet to dial. -/
theorem early_subscriber_two : ¬ ∀ st, Reachable (instances 2) st → Separated 2 st := by
  intro h
  obtain ⟨st, hreach, hnot⟩ := exists_early_subscriber (n := 2) (Nat.le_refl 2)
  exact hnot (h st hreach)

end GossipPlans.Eth
