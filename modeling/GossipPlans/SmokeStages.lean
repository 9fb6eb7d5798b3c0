import GossipPlans.SmokeRun

/-!
# smoke: runs in which something fails

An instance whose parameters are bad, or whose swarm refuses a dial, a subscription or a message, is gone without a word.
The others are held at the barrier that it does not reach, so whoever gets further knows that nobody has failed before
(`stages_need_all`).
-/

namespace GossipPlans.SmokeRun

open LogNet (Logs Proc)
open PublishAndCollect (Entry Process expectOk_ok_iff held_orCrash held_run held_signalAndWait orCrash propagate_ok_iff
  textCodec)
open Smoke (connectedToAPeer peerAddr publishedAMessage startedListening subscribedATopic)

/-- The number of barriers that an instance has passed when it does this. -/
def Effect.stage : Effect → Nat
  | .crash _ => 0
  | .dial _ => 1
  | .plain .listen => 0
  | .plain .dial | .plain .connected => 1
  | .plain .subscribe | .plain .unsubscribe | .plain .allSubscribed => 2
  | .plain .publish | .plain .receivedAll => 3
  | .plain .recordSuccess => 4

def barrierOf : Nat → String
  | 0 => startedListening
  | 1 => connectedToAPeer
  | 2 => subscribedATopic
  | _ => publishedAMessage

section
variable {ι : Type} [Fintype ι]

/-- What an instance must not fail at between two barriers, where the addresses that it collects are in `logs`. -/
def Setup.Passes (s : Setup ι) (logs : Logs Key Entry) (i : ι) : Nat → Prop
  | 0 => ∃ len, historyLength (s.instanceParams i) = .ok len ∧ s.build len = .ok ()
  | 1 => ∃ participants addrs addr,
    (textCodec s.serde).Returns logs "publish_and_collect" (s.multiaddr i) (Fintype.card ι) participants ∧
      others s.tryFrom participants (s.multiaddr i) = .ok addrs ∧
      peerAddr s.shuffle (Fintype.card ι) participants (s.multiaddr i) = .ok addr ∧ s.dial i addr = .ok ()
  | 2 => s.subscribe i = .ok ()
  | _ => s.publish i = .ok ()

variable {s : Setup ι} {logs : Logs Key Entry} {i : ι} {q n : Nat}

theorem barrierOf_inj {q' : Nat} (hq : q < 4) (hq' : q' < 4) (h : barrierOf q' = barrierOf q) : q' = q := by
  have hnodup : ((List.range 4).map barrierOf).Nodup := by decide
  exact List.inj_on_of_nodup_map hnodup (List.mem_range.mpr hq') (List.mem_range.mpr hq) h

theorem held_stage (q' : Nat) (hq : q < 4) (hq' : q' ≤ q) {rest : Process Effect} (hhere : q' = q → 1 ≤ n)
    (hon : q' + 1 ≤ q → rest.Held logs (.state (barrierOf q)) (Fintype.card ι) (fun x => x.stage ≤ q) n) :
    (PublishAndCollect.signalAndWait (barrierOf q') (Fintype.card ι) rest).Held logs (.state (barrierOf q))
      (Fintype.card ι) (fun x => x.stage ≤ q) n := by
  apply held_signalAndWait
  · exact fun h => hhere (barrierOf_inj hq (by omega) h)
  · exact fun h => hon (Nat.lt_of_le_of_ne hq' fun heq => h (congrArg barrierOf heq))

theorem held_connected (hq : q < 4) (hpos : 1 ≤ q) (hn : s.Passes logs i q → 1 ≤ n) (hdial : s.Passes logs i 1) :
    (connected s i).Held logs (.state (barrierOf q)) (Fintype.card ι) (fun x => x.stage ≤ q) n := by
  have hcrash : ∀ f, (Effect.crash f).stage ≤ q := fun _ => Nat.zero_le q
  refine LogNet.held_acts.mpr ⟨by simpa [Effect.stage] using hpos, ?_⟩
  refine held_stage 1 hq hpos (fun h => hn (h ▸ hdial)) fun h => ?_
  refine LogNet.held_acts.mpr ⟨by simpa [Effect.stage] using h, held_orCrash hcrash fun _ hsubscribe => ?_⟩
  have hsubscribe : s.Passes logs i 2 := propagate_ok_iff.mp hsubscribe
  refine LogNet.held_acts.mpr ⟨by simpa [Effect.stage] using h, ?_⟩
  refine held_stage 2 hq h (fun h => hn (h ▸ hsubscribe)) fun h => ?_
  refine LogNet.held_acts.mpr ⟨by simpa [Effect.stage] using h, held_orCrash hcrash fun _ hpublish => ?_⟩
  have hpublish : s.Passes logs i 3 := propagate_ok_iff.mp hpublish
  refine LogNet.held_acts.mpr ⟨by simpa [Effect.stage] using h, ?_⟩
  exact held_stage 3 hq h (fun h => hn (h ▸ hpublish)) fun h => absurd h (by omega)

theorem held_main (hq : q < 4) (hn : s.Passes logs i q → 1 ≤ n) :
    (main s i).Held logs (.state (barrierOf q)) (Fintype.card ι) (fun x => x.stage ≤ q) n := by
  have hcrash : ∀ f, (Effect.crash f).stage ≤ q := fun _ => Nat.zero_le q
  refine held_orCrash hcrash fun len hlen => held_orCrash hcrash fun _ hbuild => ?_
  have hparams : s.Passes logs i 0 := ⟨len, hlen, expectOk_ok_iff.mp hbuild⟩
  refine LogNet.held_acts.mpr ⟨by simp [Effect.stage], ?_⟩
  refine held_stage 0 hq (Nat.zero_le q) (fun h => hn (h ▸ hparams)) fun h => ?_
  refine held_run nofun fun r hr => held_orCrash hcrash fun participants hparticipants => ?_
  refine held_orCrash hcrash fun addrs haddrs => held_orCrash hcrash fun addr haddr => ?_
  refine LogNet.held_acts.mpr ⟨by simpa [Effect.stage] using h, held_orCrash hcrash fun _ hdial => ?_⟩
  exact held_connected hq h hn
    ⟨participants, addrs, addr, hr participants hparticipants, haddrs, haddr, propagate_ok_iff.mp hdial⟩

variable [DecidableEq ι]

/-- **A stage needs all.** Whatever fails where, an instance gets past a barrier only if what must not fail in front of it
has gone well at every instance; at the second one, with the addresses that are on the topic. -/
theorem stages_need_all (s : Setup ι) (st : LogNet.State ι Key Entry Effect) (h : LogNet.Reachable (main s) st) (i : ι)
    (x : Effect) (hx : .act x ∈ st.trace i) : ∀ q < x.stage, ∀ j, s.Passes st.logs j q := by
  intro q hq j
  have hle : x.stage ≤ 4 := by
    cases x with
    | plain x => cases x <;> simp [Effect.stage]
    | dial _ | crash _ => simp [Effect.stage]
  by_contra hno
  have hheld := h.held (t := .state (barrierOf q)) (k := Fintype.card ι) (P := fun _ x => x.stage ≤ q)
    (n := fun i => if i = j then 0 else 1)
  refine absurd (hheld (fun i => held_main (by omega) fun hpasses => ?_) ?_ i x hx) (by omega)
  · rw [if_neg]
    rintro rfl
    exact hno hpasses
  · rw [← Finset.card_univ, Finset.card_eq_sum_ones]
    exact Finset.sum_lt_sum (fun i _ => by split <;> omega) ⟨j, Finset.mem_univ j, by simp⟩

theorem stages_need_all_three : ∃ st, LogNet.Reachable (main Setup.three) st ∧ .act (.plain .subscribe) ∈ st.trace 0 ∧
    ∀ q < 2, ∀ j, Setup.three.Passes st.logs j q := by
  obtain ⟨st, -, hst, -, hsub⟩ := exists_scheduled
  exact ⟨st, hst, hsub, stages_need_all Setup.three st hst 0 _ hsub⟩

end

end GossipPlans.SmokeRun
