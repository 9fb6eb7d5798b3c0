import GossipPlans.ScoringRun

/-!
# scoring: runs with parameters that are rejected

Attackers do not look at the parameters. When the beacon nodes fail on them, the attackers wait at the first barrier
for good, so nobody dials and nobody succeeds (`rejected_runs_stall`).
-/

namespace GossipPlans.Scoring

open PublishAndCollect (Entry Process held_orCrash held_signalAndWait orCrash valueCodec)

section
variable (s : Setup) (beaconNodes attackers : Nat)

/-- No beacon node gets all that it needs for its network. -/
def Setup.Rejected : Prop := ∀ parsed net, parseTopologyParams s.build beaconNodes s.instanceParams = .ok parsed →
  Network.generate s.build s.gen parsed.2 = .ok net → ∀ b < beaconNodes, ∀ params thresholds,
    buildPeerScoreParams s.build s.parseF64 s.instanceParams = .ok params →
    parsePeerScoreThresholds s.parseF64 s.instanceParams = .ok thresholds → s.withPeerScore params thresholds = .ok () →
    s.generator net.params.totalValidators (validatorSetOf net b) ≠ .ok ()

/-- What an instance does before the first barrier; beacon nodes would start to listen after that. -/
def Effect.Early : Instance beaconNodes attackers → Effect → Prop
  | .inl _, .plain x => x ∈ [.parseTopologyParams, .generate, .recordTopologyBeaconNode, .recordRunId]
  | .inr _, .plain x => x ∈ [.buildSwarm, .listen, .recordTopologyAttacker]
  | _, .crash _ => True
  | _, _ => False

variable {s beaconNodes attackers} {logs : LogNet.Logs Key Entry}

theorem held_beaconNode (hrej : s.Rejected beaconNodes) (b : Fin beaconNodes) :
    (beaconNode s beaconNodes attackers b).Held logs (.state barrierLibp2pReady) (beaconNodes + attackers)
      (Effect.Early beaconNodes attackers (.inl b)) 0 := by
  have hcrash : ∀ f, Effect.Early beaconNodes attackers (.inl b) (.crash f) := fun _ => trivial
  apply held_orCrash hcrash
  intro parsed hparsed
  apply held_orCrash hcrash
  intro net hnet
  have hnetwork : ∀ infos ids, (beaconNodeNetwork s beaconNodes attackers net b infos ids).Held logs
      (.state barrierLibp2pReady) (beaconNodes + attackers) (Effect.Early beaconNodes attackers (.inl b)) 0 := by
    intro infos ids
    apply held_orCrash hcrash
    intro params hparams
    apply held_orCrash hcrash
    intro thresholds hthresholds
    rw [expectOk_ok_iff] at hthresholds
    apply held_orCrash hcrash
    intro _ hwith
    rw [PublishAndCollect.expectOk_ok_iff] at hwith
    apply held_orCrash hcrash
    intro _ hgenerator
    rw [PublishAndCollect.expectOk_ok_iff] at hgenerator
    exact absurd hgenerator (hrej parsed net hparsed hnet b b.isLt params thresholds hparams hthresholds hwith)
  apply LogNet.held_acts.mpr
  refine ⟨by simp [Effect.Early], ?_⟩
  rw [PublishAndCollect.scoring, PublishAndCollect.run]
  have hcollected : ∀ r, (orCrash .crash (beaconNodeCollected s beaconNodes attackers net b) r).Held logs
      (.state barrierLibp2pReady) (beaconNodes + attackers) (Effect.Early beaconNodes attackers (.inl b)) 0 := by
    intro r
    apply held_orCrash hcrash
    intro infos _
    apply LogNet.held_collect
    intro ids _
    exact held_orCrash hcrash fun ids _ => hnetwork infos ids
  split
  · exact hcollected _
  · exact LogNet.held_collect fun r _ => hcollected r

theorem held_attacker (a : Fin attackers) :
    (attacker s beaconNodes attackers a).Held logs (.state barrierLibp2pReady) (beaconNodes + attackers)
      (Effect.Early beaconNodes attackers (.inr a)) 1 := by
  have hcrash : ∀ f, Effect.Early beaconNodes attackers (.inr a) (.crash f) := fun _ => trivial
  apply LogNet.held_acts.mpr
  refine ⟨by simp [Effect.Early], ?_⟩
  apply LogNet.held_collect
  intro r _
  apply held_orCrash hcrash
  intro c _
  apply held_orCrash hcrash
  intro value _
  apply LogNet.held_acts.mpr
  refine ⟨by simp [Effect.Early], ?_⟩
  exact held_signalAndWait (fun _ => Nat.le_refl 1) fun hne => absurd rfl hne

/-- **Rejected runs stall.** Whatever the order of the steps is, no instance does anything but prepare itself or crash:
nobody builds a network, dials, subscribes or records success. -/
theorem rejected_runs_stall (s : Setup) (hrej : s.Rejected beaconNodes) (hpos : 1 ≤ beaconNodes)
    (st : LogNet.State (Instance beaconNodes attackers) Key Entry Effect)
    (h : LogNet.Reachable (instances s beaconNodes attackers) st) :
    ∀ i x, .act x ∈ st.trace i → Effect.Early beaconNodes attackers i x := by
  apply h.held (t := .state barrierLibp2pReady) (k := beaconNodes + attackers) (P := Effect.Early beaconNodes attackers)
    (n := Sum.elim (fun _ => 0) fun _ => 1)
  · intro i
    cases i with
    | inl b => exact held_beaconNode hrej b
    | inr a => exact held_attacker a
  · simp only [Fintype.sum_sum_type, Sum.elim_inl, Sum.elim_inr, Finset.sum_const_zero, Finset.sum_const, Finset.card_univ,
      Fintype.card_fin, smul_eq_mul, mul_one]
    omega

/-- The thresholds are missing. -/
def Setup.incomplete : Setup :=
  { Setup.two with instanceParams := runParams.filter fun e => e.1 ∉ thresholdKeys.map Prod.fst }

theorem rejected_runs_stall_two : ∃ st, LogNet.Reachable (instances Setup.incomplete 2 2) st ∧
    (∀ i st', ¬ LogNet.Step i st st') ∧ ∀ i x, .act x ∈ st.trace i → Effect.Early 2 2 i x := by
  obtain ⟨st, hst, hstuck⟩ := LogNet.exists_stuck (instances Setup.incomplete 2 2)
  have hrej : Setup.incomplete.Rejected 2 := by
    intro parsed net _ _ b _ params thresholds _ hthresholds
    have hfails : (parsePeerScoreThresholds Setup.incomplete.parseF64 Setup.incomplete.instanceParams).isOk = false := by
      decide +kernel
    rw [hthresholds] at hfails
    cases hfails
  exact ⟨st, hst, hstuck, rejected_runs_stall Setup.incomplete hrej (by decide) st hst⟩

end

end GossipPlans.Scoring
