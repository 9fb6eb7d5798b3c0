import GossipPlans.CensoringRun
import Mathlib.Data.Set.List

/-!
# censoring: runs with the data left out

A run with its data is a run of the programs of `CensoringPhases`, which dial instances instead of their infos. Where
something fails that only the data shows, the run stops early.
-/

namespace GossipPlans.CensoringRun

open Censoring (Local Role TestParams barrierDone barrierStartedLibp2p barrierWarmup peersToConnect
  publishAndCollectTopic publishInterval)
open CounterNet (Act acts)
open LogNet (Event Logs)
open PublishAndCollect (Entry line line_acts line_signalAndWait orCrash reads)

/-- The order in which the infos of all instances come. -/
structure Stream (ι : Type) where
  order : List ι
  nodup : order.Nodup
  mem : ∀ i, i ∈ order

section
variable {ι : Type} (s : Setup ι) (t : Stream ι)

/-- Whom an info is about. -/
def Setup.who (info : InstanceInfo) : Option ι := t.order.find? fun i => s.peerId i = info.peerId

def Local.forget (who : InstanceInfo → Option ι) : Local InstanceInfo → Option (Local ι)
  | .recordInstanceInfo => some .recordInstanceInfo
  | .listen => some .listen
  | .dial peer => (who peer).map .dial
  | .spawn => some .spawn
  | .subscribe => some .subscribe
  | .warmup => some .warmup
  | .startPublishing => some .startPublishing
  | .stopPublishing => some .stopPublishing
  | .recordMetrics => some .recordMetrics
  | .recordSuccess => some .recordSuccess

def Effect.forget (who : InstanceInfo → Option ι) : Effect → Option (Local ι)
  | .plain x => Local.forget who x
  | .newNetwork _ => none
  | .crash _ => none

/-- A collection round waits once, for its last item. -/
def forget (who : InstanceInfo → Option ι) (count : Nat) : Act Key Effect → Option (Act Key (Local ι))
  | .act e => (e.forget who).map .act
  | .signal k => some (.signal k)
  | .await (.state name) k => some (.await (.state name) k)
  | .await (.topic name) k => if k = count then some (.await (.topic name) k) else none

variable {s t} {role : ι → Role} {who : InstanceInfo → Option ι} {count : Nat}

variable (who count) in
theorem forget_projection : CounterNet.Projection (fun _ => true) (forget who count) where
  signal _ := rfl
  await {t k y} h := by
    refine ⟨rfl, ?_⟩
    cases t with
    | state name =>
      cases h
      rfl
    | topic name =>
      obtain ⟨-, h⟩ := Option.ite_none_right_eq_some.mp h
      cases h
      rfl
  act {e y} h := by
    obtain ⟨x, -, rfl⟩ := Option.map_eq_some_iff.mp h
    exact ⟨x, rfl⟩

/-! ## Infos and instances -/

theorem Setup.Accepted.who_info (hacc : s.Accepted role) (i : ι) : s.who t (s.info i (role i)) = some i := by
  cases hfind : s.who t (s.info i (role i)) with
  | none =>
    have hno := List.find?_eq_none.mp hfind i (t.mem i)
    simp [Setup.info] at hno
  | some j =>
    unfold Setup.who at hfind
    have hj := List.find?_some hfind
    rw [hacc.peerIds (of_decide_eq_true hj)]

/-- Infos are those of the instances they are about. -/
theorem Setup.Accepted.map_who (hacc : s.Accepted role) : ∀ {infos : List InstanceInfo},
    (∀ x ∈ infos, ∃ i, x = s.info i (role i)) → (infos.filterMap (s.who t)).map (fun i => s.info i (role i)) = infos
  | [], _ => rfl
  | x :: infos, h => by
    obtain ⟨⟨i, rfl⟩, hrest⟩ := List.forall_mem_cons.mp h
    rw [List.filterMap_cons_some (hacc.who_info i), List.map_cons, hacc.map_who hrest]

theorem Setup.Accepted.filterMap_who (hacc : s.Accepted role) (l : List ι) :
    (l.map fun i => s.info i (role i)).filterMap (s.who t) = l := by
  rw [List.filterMap_map]
  refine (List.filterMap_congr fun i _ => hacc.who_info i).trans ?_
  exact List.filterMap_some

/-- The configuration of `CensoringPhases` that a run has. -/
def Setup.config (s : Setup ι) (hacc : s.Accepted role) (t : Stream ι) : Censoring.Config ι where
  role := role
  groupSeq := s.groupSeq
  instanceParams := s.instanceParams
  stream _ := t.order
  stream_nodup _ := t.nodup
  mem_stream _ := t.mem
  shuffle i l := (s.shuffle (s.globalSeq i) (l.map fun j => s.info j (role j))).filterMap (s.who t)
  shuffle_perm i l := by
    have hperm := (s.shuffle_perm (s.globalSeq i) (l.map fun j => s.info j (role j))).filterMap (s.who t)
    rwa [hacc.filterMap_who] at hperm

section
variable (hacc : s.Accepted role)

theorem Setup.config_role : (s.config hacc t).role = role := rfl

theorem Setup.config_groupSeq : (s.config hacc t).groupSeq = s.groupSeq := rfl

theorem Setup.config_instanceParams : (s.config hacc t).instanceParams = s.instanceParams := rfl

theorem Setup.config_participants [DecidableEq ι] (i : ι) : (s.config hacc t).participants i = t.order.erase i := rfl

end

/-- The infos of a run come in the order of some stream. -/
theorem exists_stream [Fintype ι] (hacc : s.Accepted role) {infos : List InstanceInfo}
    (h : infos.Perm (publishedInfos s role)) : ∃ t : Stream ι, infos = t.order.map fun i => s.info i (role i) := by
  have hinj : Function.Injective fun i => s.info i (role i) := fun i j hij =>
    hacc.peerIds (congrArg InstanceInfo.peerId hij)
  obtain ⟨order, rfl⟩ : infos ∈ Set.range (List.map fun i => s.info i (role i)) := by
    rw [Set.range_list_map]
    intro x hx
    obtain ⟨i, -, hi⟩ := List.mem_map.mp (h.mem_iff.mp hx)
    exact ⟨i, hi⟩
  have hperm : order.Perm Finset.univ.toList := (List.map_perm_map_iff hinj).mp h
  exact ⟨⟨order, hperm.nodup_iff.mpr (Finset.nodup_toList _), fun i => hperm.mem_iff.mpr (by simp)⟩, rfl⟩

theorem removeSelf_map [DecidableEq ι] (hacc : s.Accepted role) (i : ι) :
    removeSelf (s.peerId i) (t.order.map fun j => s.info j (role j)) =
      .ok ((t.order.erase i).map fun j => s.info j (role j)) := by
  have hpos : (t.order.map fun j => s.info j (role j)).findIdx? (fun x => x.peerId = s.peerId i) = t.order.idxOf? i := by
    rw [List.findIdx?_map, List.idxOf?]
    congr 1
    funext j
    simp only [Function.comp_apply, Setup.info, hacc.peerIds.eq_iff, Bool.beq_eq_decide_eq]
  rw [removeSelf, hpos, List.erase_eq_eraseIdx]
  cases hidx : t.order.idxOf? i with
  | none => exact absurd (t.mem i) (List.idxOf?_eq_none_iff.mp hidx)
  | some pos => simp [List.eraseIdx_map]

/-! ## The programs with the data left out -/

theorem forget_acts (l : List Effect) :
    (acts l).filterMap (forget who count) = acts (l.filterMap (Effect.forget who)) :=
  CounterNet.filterMap_acts (fun _ => rfl) l

theorem forget_signalAndWait (state : String) (target : Nat) :
    (signalAndWait state target).filterMap (forget who count) = signalAndWait state target := rfl

theorem forget_reads (topic : String) (hpos : 1 ≤ count) :
    (reads topic count).filterMap (forget who count) = [.await (.topic topic) count] := by
  apply PublishAndCollect.filterMap_reads hpos
  · intro k hk
    rw [forget, if_neg hk]
  · rw [forget, if_pos rfl]

variable (s who) in
/-- What the data can still stop after the last barrier. -/
theorem forget_atLast (i : ι) (r : Role) :
    (s.atLast i r).filterMap (Effect.forget who) <+: [.recordMetrics, .recordSuccess] := by
  unfold Setup.atLast
  cases s.metricQueries i r with
  | ok queries => exact List.prefix_refl _
  | error f => exact List.nil_prefix

theorem forget_dials (hacc : s.Accepted role) (peers : List ι) :
    ((peers.map fun j => s.info j (role j)).map fun p => Effect.plain (.dial p)).filterMap (Effect.forget (s.who t)) =
      peers.map .dial := by
  simp [List.filterMap_map, Function.comp_def, Effect.forget, Local.forget, hacc.who_info]

theorem peersToConnect_map (hacc : s.Accepted role) (i : ι) (participants : List ι) (amount : Nat) :
    peersToConnect InstanceInfo.role (s.shuffle (s.globalSeq i)) (participants.map fun j => s.info j (role j)) amount =
      (peersToConnect role ((s.config hacc t).shuffle i) participants amount).map
        (List.map fun j => s.info j (role j)) := by
  have hfilter : (participants.map fun j => s.info j (role j)).filter (fun p => p.role.isHonest) =
      (participants.filter fun j => (role j).isHonest).map fun j => s.info j (role j) := List.filter_map
  have hshuffle : s.shuffle (s.globalSeq i) ((participants.filter fun j => (role j).isHonest).map fun j => s.info j (role j)) =
      ((s.config hacc t).shuffle i (participants.filter fun j => (role j).isHonest)).map fun j => s.info j (role j) := by
    refine (hacc.map_who fun x hx => ?_).symm
    obtain ⟨j, -, rfl⟩ := List.mem_map.mp ((s.shuffle_perm _ _).mem_iff.mp hx)
    exact ⟨j, rfl⟩
  simp only [peersToConnect, hfilter, hshuffle, sliceTo, List.length_map]
  split <;> simp [Except.map, List.map_take]

variable (s role) in
theorem victimOf_map (participants : List ι) : victimOf (participants.map fun j => s.info j (role j)) =
    match participants.find? fun j => (role j).isPublisher && s.groupSeq j == 1 with
    | none => .error (.panic (.expect "publisher should exists"))
    | some victim => .ok (s.info victim (role victim)) := by
  unfold victimOf
  rw [List.find?_map]
  have hsame : ((fun x : InstanceInfo => x.role.isPublisher && x.groupSeq == 1) ∘ fun j => s.info j (role j)) =
      fun j => (role j).isPublisher && s.groupSeq j == 1 := rfl
  rw [hsame]
  cases participants.find? fun j => (role j).isPublisher && s.groupSeq j == 1 <;> rfl

section
variable [Fintype ι] [DecidableEq ι] {i : ι}

omit [DecidableEq ι] in
theorem forget_honestToDone (hacc : s.Accepted role) (i : ι) (names : Names) (peers : List ι) :
    (honestToDone (Fintype.card ι) (role i) names (peers.map fun j => s.info j (role j)) ++
      (signalAndWait barrierDone (Fintype.card ι) ++ acts (s.atLast i (role i)))).filterMap (forget (s.who t) count) <+:
    .act .recordInstanceInfo :: .act .listen :: (peers.map (fun p => .act (.dial p)) ++
      Censoring.honestAfterDials (s.config hacc t) i) := by
  have hpublishing : (if (role i).isPublisher then [.plain .startPublishing, .plain .stopPublishing] else []).filterMap
      (Effect.forget (s.who t)) = if (role i).isPublisher then [.startPublishing, .stopPublishing] else [] := by
    split <;> rfl
  obtain ⟨rest, hrest⟩ := forget_atLast s (s.who t) i (role i)
  refine ⟨acts rest, ?_⟩
  have hlast : (acts ((s.atLast i (role i)).filterMap (Effect.forget (s.who t))) ++ acts rest : List (Act Key (Local ι))) =
      acts [.recordMetrics, .recordSuccess] := by
    rw [← hrest, acts, acts, acts, List.map_append]
  simp only [honestToDone, List.filterMap_append, forget_acts, forget_signalAndWait, forget_dials hacc, hpublishing,
    List.append_assoc, hlast, Censoring.honestAfterDials, Setup.config_role]
  by_cases hpublisher : (role i).isPublisher = true
  · simp [hpublisher, acts, Effect.forget, Local.forget, List.filterMap_cons, Function.comp_def]
  · simp [hpublisher, acts, Effect.forget, Local.forget, List.filterMap_cons, Function.comp_def]

variable (count) in
theorem forget_honestRun (hacc : s.Accepted role) (logs : Logs Key Entry) (i : ι) :
    (line logs (honestRun s i (role i) ((t.order.erase i).map fun j => s.info j (role j)))).filterMap
      (forget (s.who t) count) <+: Censoring.honestRun (s.config hacc t) i := by
  rw [Censoring.honestRun, Setup.config_instanceParams]
  cases hparams : TestParams.new (s.instanceParams i) with
  | error f =>
    simp only [honestRun, line_acts, hparams, orCrash]
    exact List.prefix_refl _
  | ok params =>
    simp only
    cases hinterval : publishInterval params.messageRate with
    | error f =>
      simp only [honestRun, line_acts, hparams, hinterval, orCrash]
      exact List.prefix_refl _
    | ok period =>
      simp only [Censoring.honestAfterStart, Setup.config_participants, Setup.config_role]
      have hmap := peersToConnect_map (t := t) hacc i (t.order.erase i) params.peersToConnect
      cases hpeers : peersToConnect role ((s.config hacc t).shuffle i) (t.order.erase i) params.peersToConnect with
      | error f =>
        rw [hpeers] at hmap
        simp only [honestRun, line_acts, hparams, hinterval, orCrash]
        rw [hmap]
        exact List.prefix_refl _
      | ok peers =>
        rw [hpeers] at hmap
        have hrate := (Censoring.publishInterval_ok_iff.mp hinterval).1
        have hdial : ∀ peer ∈ peers.map (fun j => s.info j (role j)), s.dial i peer = .ok () := by
          intro peer hpeer
          obtain ⟨j, -, rfl⟩ := List.mem_map.mp hpeer
          exact hacc.dials i j
        rw [line_honestRun_of_ok logs (role i) hparams hrate hmap hdial]
        exact forget_honestToDone ..

variable (count) in
theorem forget_attackerRun (hacc : s.Accepted role) (logs : Logs Key Entry) (i : ι) :
    (line logs (attackerRun s i ((t.order.erase i).map fun j => s.info j (role j)))).filterMap (forget (s.who t) count) =
      Censoring.attackerRun (s.config hacc t) i := by
  rw [Censoring.attackerRun, Censoring.attackerAfterStart, Setup.config_participants, Setup.config_role,
    Setup.config_groupSeq]
  have hmap := victimOf_map s role (t.order.erase i)
  cases hvictim : (t.order.erase i).find? fun j => (role j).isPublisher && s.groupSeq j == 1 with
  | none =>
    rw [hvictim] at hmap
    simp only [attackerRun, line_acts, line_signalAndWait, hmap, orCrash]
    rfl
  | some victim =>
    rw [hvictim] at hmap
    rw [line_attackerRun_of_ok logs hmap (hacc.dials i victim)]
    have hdial : Effect.forget (s.who t) (.plain (.dial (s.info victim (role victim)))) = some (.dial victim) := by
      rw [Effect.forget, Local.forget, hacc.who_info, Option.map_some]
    simp only [attackerToDone, List.filterMap_append, forget_acts, forget_signalAndWait, List.filterMap_cons, hdial]
    simp [acts, Effect.forget, Local.forget]

/-- What is left of a program is the start of that of the phases. -/
theorem forget_program (hacc : s.Accepted role) (logs : Logs Key Entry) (i : ι) :
    (program s role logs (t.order.map fun j => s.info j (role j)) i).filterMap (forget (s.who t) (Fintype.card ι)) <+:
      Censoring.main (s.config hacc t) i := by
  have hpos : 1 ≤ Fintype.card ι := Fintype.card_pos_iff.mpr ⟨i⟩
  have hsignal : ∀ p : List (Act Key Effect), (.signal (.topic publishAndCollectTopic) :: p).filterMap
      (forget (s.who t) (Fintype.card ι)) = .signal (.topic publishAndCollectTopic) ::
        p.filterMap (forget (s.who t) (Fintype.card ι)) := fun _ => rfl
  rw [program, hsignal, List.filterMap_append, forget_reads _ hpos, collected, removeSelf_map hacc, orCrash,
    Censoring.main, Setup.config_role]
  refine (List.prefix_append_right_inj (publishAndCollect publishAndCollectTopic (Fintype.card ι))).mpr ?_
  have hhonest := forget_honestRun (t := t) (Fintype.card ι) hacc logs i
  have hattacker := forget_attackerRun (t := t) (Fintype.card ι) hacc logs i
  cases hrole : role i with
  | publisher | lurker =>
    rw [hrole] at hhonest
    exact hhonest
  | attacker =>
    refine ⟨[], ?_⟩
    rw [List.append_nil]
    exact hattacker

/-- **Refinement.** A run with its data is a run of the phases. -/
theorem censoring_run_refines_phases (s : Setup ι) (hacc : s.Accepted role) (st : LogNet.State ι Key Entry Effect)
    (h : LogNet.Reachable (main s) st) : ∃ t : Stream ι, ∃ st' : CounterNet.State ι Key,
      CounterNet.Reachable (Censoring.main (s.config hacc t)) st' ∧
      ∀ i, CounterNet.executed (Censoring.main (s.config hacc t)) st' i =
        ((st.trace i).map Event.toAct).filterMap (forget (s.who t) (Fintype.card ι)) := by
  obtain ⟨p, ⟨logs, infos, hinfos, hp⟩, c, hreach, hexec, -⟩ := (becomes_program hacc).run h
  have hp : p = program s role logs infos := hp
  obtain ⟨t, rfl⟩ := exists_stream hacc hinfos
  subst hp
  have hproject := hreach.project (forget_projection (s.who t) (Fintype.card ι))
  refine ⟨t, _, hproject.of_isPrefix fun i => forget_program hacc logs i, fun i => ?_⟩
  rw [CounterNet.executed_of_isPrefix (fun j => forget_program hacc logs j) hproject.pc_le, CounterNet.executed_project,
    hexec]

theorem censoring_run_refines_phases_four : ∃ st, LogNet.Reachable (main Setup.four) st ∧
    .act (.plain .recordSuccess) ∈ st.trace 0 ∧ ∃ c : Censoring.Config (Fin 4), c.role = roleOf ∧
    ∃ st', CounterNet.Reachable (Censoring.main c) st' ∧ .act .recordSuccess ∈ CounterNet.executed (Censoring.main c) st' 0 := by
  obtain ⟨st, -, hst, hsuccess, -⟩ := exists_scheduled
  obtain ⟨t, st', hreach, hexec⟩ := censoring_run_refines_phases Setup.four accepted_four st hst
  refine ⟨st, hst, hsuccess, _, rfl, st', hreach, ?_⟩
  rw [hexec]
  exact List.mem_filterMap.mpr ⟨_, LogNet.act_mem_map.mpr hsuccess, rfl⟩

end

end

end GossipPlans.CensoringRun
