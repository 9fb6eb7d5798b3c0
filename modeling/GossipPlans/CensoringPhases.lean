import GossipPlans.Censoring
import GossipPlans.SyncService
import Mathlib.Data.Fintype.Fin

/-!
# censoring: who dials before whom listens

Attackers wait for all instances between listening and dialing. Honest nodes dial right after they
listen, so a dialed node need not listen yet (`dial_after_listen_iff`).
-/

namespace GossipPlans.Censoring

open CounterNet

def barrierStartedLibp2p : String := "Started libp2p"
def barrierWarmup : String := "Warmup"
def barrierDone : String := "Done"
def publishAndCollectTopic : String := "publish_and_collect"

inductive Local (ι : Type) where
  | recordInstanceInfo
  | listen
  | dial (peer : ι)
  | spawn
  | subscribe
  | warmup
  | startPublishing
  | stopPublishing
  | recordMetrics
  | recordSuccess
deriving DecidableEq, Repr

/-- The instances of a run. `stream i` is the order in which `i` collects the infos, `shuffle i` the
permutation drawn with the seed of `i`. -/
structure Config (ι : Type) where
  role : ι → Role
  groupSeq : ι → Nat
  instanceParams : ι → InstanceParams
  stream : ι → List ι
  stream_nodup : ∀ i, (stream i).Nodup
  mem_stream : ∀ i j, j ∈ stream i
  shuffle : ι → List ι → List ι
  shuffle_perm : ∀ i l, (shuffle i l).Perm l

section
variable {ι : Type} [Fintype ι] [DecidableEq ι] (c : Config ι)

def Config.participants (i : ι) : List ι := (c.stream i).erase i

def honestAfterDials (i : ι) : List (Act Key (Local ι)) :=
  [.act .spawn] ++
  signalAndWait barrierStartedLibp2p (Fintype.card ι) ++
  [.act .subscribe, .act .warmup] ++
  signalAndWait barrierWarmup (Fintype.card ι) ++
  (if (c.role i).isPublisher then [.act .startPublishing, .act .stopPublishing] else []) ++
  signalAndWait barrierDone (Fintype.card ι) ++
  [.act .recordMetrics, .act .recordSuccess]

/-- `honest::run` from the selection of peers on. A panic ends the program. -/
def honestAfterStart (i : ι) (params : TestParams) : List (Act Key (Local ι)) :=
  match peersToConnect c.role (c.shuffle i) (c.participants i) params.peersToConnect with
  | .error _ => []
  | .ok peers => peers.map (fun p => .act (.dial p)) ++ honestAfterDials c i

def honestRun (i : ι) : List (Act Key (Local ι)) :=
  .act .recordInstanceInfo ::
  match TestParams.new (c.instanceParams i) with
  | .error _ => []
  | .ok params =>
    match publishInterval params.messageRate with
    | .error _ => []
    | .ok _ => .act .listen :: honestAfterStart c i params

/-- `attacker::run` from the choice of the victim on: the publisher with group sequence number 1. -/
def attackerAfterStart (i : ι) : List (Act Key (Local ι)) :=
  match (c.participants i).find? fun p => (c.role p).isPublisher && c.groupSeq p == 1 with
  | none => []
  | some victim =>
    [.act (.dial victim)] ++
    signalAndWait barrierWarmup (Fintype.card ι) ++
    signalAndWait barrierDone (Fintype.card ι) ++
    [.act .recordSuccess]

def attackerRun (i : ι) : List (Act Key (Local ι)) :=
  [.act .listen] ++ signalAndWait barrierStartedLibp2p (Fintype.card ι) ++ attackerAfterStart c i

def main (i : ι) : List (Act Key (Local ι)) :=
  publishAndCollect publishAndCollectTopic (Fintype.card ι) ++
  match c.role i with
  | .publisher | .lurker => honestRun c i
  | .attacker => attackerRun c i

def DialAfterListen (st : State ι Key) : Prop :=
  ∀ i j, .act (.dial j) ∈ executed (main c) st i → .act .listen ∈ executed (main c) st j

/-! ## What the programs look like -/

def Config.otherHonest (i : ι) : Finset ι := Finset.univ.filter fun j => j ≠ i ∧ (c.role j).isHonest

/-- The set-up of `i` leads to dials: its parameters are valid and name at least one peer and no more
peers than there are. -/
def Config.Dials (i : ι) : Prop :=
  ∃ params, TestParams.new (c.instanceParams i) = .ok params ∧ (1 ≤ params.messageRate ∧ params.messageRate ≤ 1000) ∧
    1 ≤ params.peersToConnect ∧ params.peersToConnect ≤ (c.otherHonest i).card

variable {c}

def Config.candidates (c : Config ι) (i : ι) : List ι :=
  c.shuffle i ((c.participants i).filter fun p => (c.role p).isHonest)

theorem candidates_perm (i : ι) : (c.candidates i).Perm (c.otherHonest i).toList := by
  refine (c.shuffle_perm i _).trans ((List.perm_ext_iff_of_nodup (((c.stream_nodup i).erase i).filter _)
    (Finset.nodup_toList _)).mpr fun j => ?_)
  rw [List.mem_filter, (c.stream_nodup i).mem_erase_iff]
  simp [Config.otherHonest, c.mem_stream]

theorem length_candidates (i : ι) : (c.candidates i).length = (c.otherHonest i).card := by
  rw [(candidates_perm i).length_eq, Finset.length_toList]

theorem peersToConnect_ok_iff {i : ι} {amount : Nat} {peers : List ι} :
    peersToConnect c.role (c.shuffle i) (c.participants i) amount = .ok peers ↔
      amount ≤ (c.otherHonest i).card ∧ peers = (c.candidates i).take amount := by
  have hlen := length_candidates (c := c) i
  unfold Config.candidates at hlen ⊢
  unfold peersToConnect sliceTo
  rw [hlen]
  split
  · rename_i h; simp [h, eq_comm]
  · rename_i h; simp [h]

theorem honestRun_cases (i : ι) :
    (∀ x ∈ honestRun c i, x = .act .recordInstanceInfo ∨ x = .act .listen) ∨
      ∃ peers, honestRun c i = [.act .recordInstanceInfo, .act .listen] ++ peers.map (fun p => .act (.dial p)) ++
        honestAfterDials c i ∧ (peers ≠ [] → c.Dials i) := by
  unfold honestRun
  cases hparams : TestParams.new (c.instanceParams i) with
  | error e => exact Or.inl (by simp)
  | ok params =>
    cases hinterval : publishInterval params.messageRate with
    | error e => simp [hinterval]
    | ok period =>
      simp only [hinterval, honestAfterStart]
      cases hpeers : peersToConnect c.role (c.shuffle i) (c.participants i) params.peersToConnect with
      | error e => exact Or.inl (by simp)
      | ok peers =>
        obtain ⟨hle, hp⟩ := peersToConnect_ok_iff.mp hpeers
        refine Or.inr ⟨peers, rfl, fun hne => ⟨params, hparams, (publishInterval_ok_iff.mp hinterval).1, ?_, hle⟩⟩
        apply Nat.pos_of_ne_zero
        intro h0
        apply hne
        rw [hp, h0, List.take_zero]

theorem main_of_honest {i : ι} (hh : (c.role i).isHonest = true) :
    main c i = publishAndCollect publishAndCollectTopic (Fintype.card ι) ++ honestRun c i := by
  unfold main
  cases hr : c.role i with
  | publisher | lurker => rfl
  | attacker => rw [hr] at hh; cases hh

theorem main_of_attacker {i : ι} (hh : (c.role i).isHonest = false) :
    main c i = publishAndCollect publishAndCollectTopic (Fintype.card ι) ++ attackerRun c i := by
  unfold main
  cases hr : c.role i with
  | attacker => rfl
  | publisher | lurker => rw [hr] at hh; cases hh

theorem main_of_dials {i : ι} (hh : (c.role i).isHonest = true) (hd : c.Dials i) : ∃ j rest, j ≠ i ∧ main c i =
    publishAndCollect publishAndCollectTopic (Fintype.card ι) ++
      [.act .recordInstanceInfo, .act .listen, .act (.dial j)] ++ rest := by
  obtain ⟨params, hparams, hrate, hpos, hle⟩ := hd
  have hinterval := publishInterval_ok_iff.mpr ⟨hrate, rfl⟩
  have hpeers := peersToConnect_ok_iff.mpr ⟨hle, rfl⟩
  rcases hl : (c.candidates i).take params.peersToConnect with _ | ⟨j, js⟩
  · have hlen := congrArg List.length hl
    rw [List.length_take, length_candidates, List.length_nil] at hlen
    omega
  · have hj : j ∈ (c.otherHonest i).toList :=
      (candidates_perm i).mem_iff.mp (List.mem_of_mem_take (hl ▸ List.mem_cons_self ..))
    simp only [Config.otherHonest, Finset.mem_toList, Finset.mem_filter] at hj
    refine ⟨j, js.map (fun p => .act (.dial p)) ++ honestAfterDials c i, hj.2.1, ?_⟩
    rw [hl] at hpeers
    simp only [main_of_honest hh, honestRun, hparams, hinterval, honestAfterStart, hpeers, List.map_cons,
      List.cons_append, List.append_assoc, List.nil_append]

/-! ## Who signals, and what came before -/

theorem signals_attackerAfterStart (i : ι) : signals (.state barrierStartedLibp2p) (attackerAfterStart c i) = 0 := by
  unfold attackerAfterStart
  split <;> simp [Act.isSignal, barrierStartedLibp2p, barrierWarmup, barrierDone]

omit [DecidableEq ι] in
theorem signals_honestAfterDials (i : ι) : signals (.state barrierStartedLibp2p) (honestAfterDials c i) = 1 := by
  unfold honestAfterDials
  split <;> simp [Act.isSignal, barrierStartedLibp2p, barrierWarmup, barrierDone]

theorem signals_main (i : ι) : signals (.state barrierStartedLibp2p) (main c i) ≤ 1 := by
  cases hh : (c.role i).isHonest with
  | true =>
    rw [main_of_honest hh]
    rcases honestRun_cases (c := c) i with h | ⟨peers, h, -⟩
    · have hzero : signals (.state barrierStartedLibp2p) (honestRun c i) = 0 :=
        List.countP_eq_zero.mpr fun x hx => by rcases h x hx with rfl | rfl <;> simp [Act.isSignal]
      simp [hzero]
    · simp [h, signals_acts, signals_honestAfterDials, Act.isSignal]
  | false =>
    rw [main_of_attacker hh, attackerRun]
    simp [signals_attackerAfterStart, Act.isSignal]

theorem listen_of_started {st : State ι Key} {j : ι}
    (h : .signal (.state barrierStartedLibp2p) ∈ executed (main c) st j) : .act .listen ∈ executed (main c) st j := by
  cases hh : (c.role j).isHonest with
  | true =>
    rcases honestRun_cases (c := c) j with hrun | ⟨peers, hrun, -⟩
    · have hmem := List.mem_of_mem_take h
      rw [main_of_honest hh, List.mem_append] at hmem
      rcases hmem with hmem | hmem
      · simp [publishAndCollect] at hmem
      · rcases hrun _ hmem with h | h <;> cases h
    · apply executed_of_precedes _ h
      rw [main_of_honest hh, hrun, List.append_assoc]
      apply precedes_skip
      · simp [publishAndCollect]
      apply precedes_append <;> simp
  | false =>
    apply executed_of_precedes _ h
    rw [main_of_attacker hh, attackerRun, List.append_assoc]
    apply precedes_skip
    · simp [publishAndCollect]
    apply precedes_append <;> simp

theorem waited_of_dialed {st : State ι Key} {i j : ι} (hh : (c.role i).isHonest = false)
    (h : .act (.dial j) ∈ executed (main c) st i) :
    .await (.state barrierStartedLibp2p) (Fintype.card ι) ∈ executed (main c) st i := by
  apply executed_of_precedes _ h
  rw [main_of_attacker hh, attackerRun]
  apply precedes_skip
  · simp [publishAndCollect]
  apply precedes_append <;> simp

theorem dials_of_dialed {st : State ι Key} {i j : ι} (hh : (c.role i).isHonest = true)
    (h : .act (.dial j) ∈ executed (main c) st i) : c.Dials i := by
  have hmem := List.mem_of_mem_take h
  rw [main_of_honest hh, List.mem_append] at hmem
  rcases hmem with hmem | hmem
  · simp [publishAndCollect] at hmem
  rcases honestRun_cases (c := c) i with hrun | ⟨peers, hrun, hdials⟩
  · rcases hrun _ hmem with h | h <;> cases h
  · apply hdials
    intro hnil
    rw [hrun, hnil] at hmem
    simp only [List.map_nil, List.append_nil, honestAfterDials] at hmem
    split at hmem <;> simp at hmem

theorem exists_early_dial {i : ι} (hh : (c.role i).isHonest = true) (hd : c.Dials i) :
    ∃ st, Reachable (main c) st ∧ ¬ DialAfterListen c st := by
  obtain ⟨j, rest, hji, hmain⟩ := main_of_dials hh hd
  obtain ⟨st₁, hrun₁, hpc₁⟩ := run_all (main c) 0 1 (fun _ => pc_init _) (by omega)
    (fun k => by unfold main; simp [publishAndCollect]) fun k => by unfold main; simp [publishAndCollect, Ready]
  have hcount : st₁.count (.topic publishAndCollectTopic) = Fintype.card ι := by
    rw [Reachable.count_const (m := 1) hrun₁ fun k => ?_, Nat.one_mul]
    rw [executed, hpc₁]
    unfold main
    simp [publishAndCollect, Act.isSignal]
  obtain ⟨st₂, hrun₂, hpc₂, -⟩ := run_block (main c) i 4 st₁
    (by rw [hpc₁, hmain]; simp [publishAndCollect]) (by
      rw [hpc₁, hmain]
      simp [publishAndCollect, Ready, hcount])
  refine ⟨st₂, hrun₁.trans hrun₂, fun hafter => ?_⟩
  have hlisten := hafter i j (by
    rw [executed, hpc₂, Function.update_self, hpc₁, hmain]
    simp [publishAndCollect])
  rw [executed, hpc₂, Function.update_of_ne hji, hpc₁] at hlisten
  unfold main at hlisten
  simp [publishAndCollect] at hlisten

variable (c) in
/-- **When no instance is dialed before it listens.** In the configurations in which no honest node dials:
its parameters are invalid, or name no peer, or more peers than there are. -/
theorem dial_after_listen_iff : (∀ st, Reachable (main c) st → DialAfterListen c st) ↔
    ∀ i, (c.role i).isHonest = true → ¬ c.Dials i := by
  constructor
  · intro hall i hh hd
    obtain ⟨st, hreach, hnot⟩ := exists_early_dial hh hd
    exact hnot (hall st hreach)
  · intro hnone st hreach i j hdial
    cases hh : (c.role i).isHonest with
    | true => exact absurd (dials_of_dialed hh hdial) (hnone i hh)
    | false =>
      exact listen_of_started (hreach.barrier signals_main (Nat.le_refl _) (waited_of_dialed hh hdial) j)

end

def Config.three : Config (Fin 3) where
  role i := if i = 0 then .publisher else if i = 1 then .lurker else .attacker
  groupSeq _ := 1
  instanceParams _ := [("peers_to_connect", "1"), ("message_rate", "100"), ("warmup", "5"), ("run", "120")]
  stream _ := [0, 1, 2]
  stream_nodup _ := by decide
  mem_stream _ := by decide
  shuffle _ l := l
  shuffle_perm _ l := .refl l

/-- The publisher dials the lurker before the lurker listens. -/
theorem early_dial_three : ¬ ∀ st, Reachable (main Config.three) st → DialAfterListen Config.three st := by
  intro h
  obtain ⟨st, hreach, hnot⟩ := exists_early_dial (c := Config.three) (i := 0) rfl
    ⟨⟨1, 100, 5, 120⟩, by decide, by decide, by decide, by decide⟩
  exact hnot (h st hreach)

end GossipPlans.Censoring
