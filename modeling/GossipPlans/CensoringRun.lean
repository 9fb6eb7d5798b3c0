import GossipPlans.CensoringPhases
import GossipPlans.Maps
import GossipPlans.MetricsSound
import GossipPlans.PrefixCode
import GossipPlans.PublishAndCollect

/-!
# censoring: a run with its data

Honest nodes and attackers with the infos that they collect. An instance that fails in its set-up never signals the
last barrier, so nobody succeeds where one set-up fails; past that barrier only the metrics of a node can fail.
-/

namespace GossipPlans.CensoringRun

open Censoring (Local Role TestParams announced barrierDone barrierStartedLibp2p barrierWarmup peersToConnect
  publishAndCollectTopic publishInterval)
open CounterNet (Act acts)
open LogNet (Event Logs Proc)
open Metrics (MetricSet Recorder WriteQuery)
open PublishAndCollect (Entry Process Serde act_not_mem_reads does_orCrash does_signalAndWait fed_call fed_signalAndWait
  line line_acts line_halt line_run line_signalAndWait locals_reads orCrash propagate reads silent_orCrash
  silent_signalAndWait signals_reads sync_call sync_reads textCodec)

/-- `From<&str> for Role` -/
def Role.ofTestGroupId (testGroupId : String) : Run Role :=
  if testGroupId = "publishers" then .ok .publisher
  else if testGroupId = "lurkers" then .ok .lurker
  else if testGroupId = "attackers" then .ok .attacker
  else .error (.panic .unreachable)

def Role.debug : Role → String
  | .publisher => "Publisher"
  | .lurker => "Lurker"
  | .attacker => "Attacker"

structure InstanceInfo where
  globalSeq : Nat
  groupSeq : Nat
  peerId : String
  multiaddr : String
  role : Role
deriving DecidableEq, Repr

def InstanceInfo.name (info : InstanceInfo) : String := Role.debug info.role ++ toString info.groupSeq

/-- The names of the other instances by their peer ids. -/
abbrev Names := Std.TreeMap String String

/-- What an instance does, with the data that it uses. -/
inductive Effect where
  | plain (x : Local InstanceInfo)
  | newNetwork (participants : Names)
  | crash (f : Fail)

def Effect.dialed? : Effect → Option InstanceInfo
  | .plain (.dial peer) => some peer
  | _ => none

structure Setup (ι : Type) where
  testGroupId : ι → String
  globalSeq : ι → Nat
  groupSeq : ι → Nat
  peerId : ι → String
  multiaddr : ι → String
  instanceParams : ι → InstanceParams
  serde : Serde InstanceInfo
  /-- `shuffle` with the generator of a seed. -/
  shuffle : Nat → List InstanceInfo → List InstanceInfo
  shuffle_perm : ∀ seed honest, (shuffle seed honest).Perm honest
  dial : ι → InstanceInfo → Except String Unit
  testStartTime : Nat
  testRun : String
  /-- `encode`, for the registry of an instance when its run is over. -/
  encoded : ι → Except String MetricSet

/-- Removes the info about myself. -/
def removeSelf (peerId : String) (infos : List InstanceInfo) : Run (List InstanceInfo) :=
  match infos.findIdx? fun i => i.peerId = peerId with
  | none => .error (.panic (.expect "Should have info about myself"))
  | some pos => .ok (infos.eraseIdx pos)

/-- `peer_to_instance_name` -/
def namesOf (participants : List InstanceInfo) : Names :=
  participants.foldl (fun names info => names.insert info.peerId info.name) ∅

def victimOf (participants : List InstanceInfo) : Run InstanceInfo :=
  match participants.find? fun info => info.role.isPublisher && info.groupSeq == 1 with
  | none => .error (.panic (.expect "publisher should exists"))
  | some victim => .ok victim

def addScore (participants : Names) (query : WriteQuery) (e : String × UInt64) : Run WriteQuery :=
  match participants[e.1]? with
  | none => .error (.panic .unwrapNone)
  | some name => .ok (query.addField name (.float e.2))

/-- `record_peer_scores`, where `scores` are those of the peers that gossipsub knows. -/
def recordPeerScores (r : Recorder) (participants : Names) (scores : List (String × UInt64)) : Run (Option WriteQuery) :=
  if scores = [] then .ok none
  else (scores.foldlM (addScore participants) (r.query "scores")).map some

section
variable {ι : Type} [Fintype ι] (s : Setup ι)

def Setup.info (i : ι) (role : Role) : InstanceInfo where
  globalSeq := s.globalSeq i
  groupSeq := s.groupSeq i
  peerId := s.peerId i
  multiaddr := s.multiaddr i
  role := role

/-- The points of the registry of an honest node. -/
def Setup.metricQueries (i : ι) (role : Role) : Run (List WriteQuery) := do
  let metricSet ← propagate (s.encoded i)
  Metrics.recordMetrics .censoring ⟨s.testStartTime, s.peerId i, (s.info i role).name, s.testRun⟩ metricSet

/-- Dials one after another; a `DialError` ends the run. -/
def dialEach (i : ι) (rest : Process Effect) : List InstanceInfo → Process Effect
  | [] => rest
  | peer :: peers => .act (.plain (.dial peer)) <|
    match s.dial i peer with
    | .error e => .act (.crash (.err e)) .halt
    | .ok _ => dialEach i rest peers

/-- `honest::run` past the last barrier. -/
def honestDone (i : ι) (role : Role) : Process Effect :=
  (s.metricQueries i role) |> orCrash .crash fun _ =>
  .acts [.plain .recordMetrics, .plain .recordSuccess] .halt

/-- `honest::run` from the first barrier on. -/
def honestStarted (i : ι) (role : Role) (params : TestParams) : Process Effect :=
  PublishAndCollect.signalAndWait barrierStartedLibp2p (Fintype.card ι) <|
  .acts [.plain .subscribe, .plain .warmup] <|
  PublishAndCollect.signalAndWait barrierWarmup (Fintype.card ι) <|
  (announced role params) |> orCrash .crash fun _ =>
  .acts (if role.isPublisher then [.plain .startPublishing, .plain .stopPublishing] else []) <|
  PublishAndCollect.signalAndWait barrierDone (Fintype.card ι) (honestDone s i role)

def honestRun (i : ι) (role : Role) (participants : List InstanceInfo) : Process Effect :=
  .acts [.plain .recordInstanceInfo] <|
  (TestParams.new (s.instanceParams i)) |> orCrash .crash fun params =>
  (publishInterval params.messageRate) |> orCrash .crash fun _ =>
  .acts [.newNetwork (namesOf participants), .plain .listen] <|
  (peersToConnect InstanceInfo.role (s.shuffle (s.globalSeq i)) participants params.peersToConnect) |> orCrash .crash fun peers =>
  dialEach s i (.acts [.plain .spawn] (honestStarted s i role params)) peers

def attackerRun (i : ι) (participants : List InstanceInfo) : Process Effect :=
  .acts [.plain .listen] <|
  PublishAndCollect.signalAndWait barrierStartedLibp2p (Fintype.card ι) <|
  (victimOf participants) |> orCrash .crash fun victim =>
  dialEach s i (PublishAndCollect.signalAndWait barrierWarmup (Fintype.card ι) <|
    PublishAndCollect.signalAndWait barrierDone (Fintype.card ι) <|
    .acts [.plain .recordSuccess] .halt) [victim]

def runAs (i : ι) (role : Role) (participants : List InstanceInfo) : Process Effect :=
  match role with
  | .publisher | .lurker => honestRun s i role participants
  | .attacker => attackerRun s i participants

/-- `main` once the infos are there. -/
def collected (i : ι) (role : Role) (infos : List InstanceInfo) : Process Effect :=
  (removeSelf (s.peerId i) infos) |> orCrash .crash (runAs s i role)

def main (i : ι) : Process Effect :=
  (Role.ofTestGroupId (s.testGroupId i)) |> orCrash .crash fun role =>
  PublishAndCollect.censoring s.serde (s.info i role) (Fintype.card ι) <|
  orCrash .crash (collected s i role)

end

/-! ## What a run starts from -/

section
variable {ι : Type}

/-- All are in one of the three groups, peer ids are distinct, what is published can be read, and swarms take all dials. -/
structure Setup.Accepted (s : Setup ι) (role : ι → Role) : Prop where
  roles : ∀ i, Role.ofTestGroupId (s.testGroupId i) = .ok (role i)
  peerIds : Function.Injective s.peerId
  infos : ∀ i, ∃ value, (textCodec s.serde).encode (s.info i (role i)) = .ok value ∧
    (textCodec s.serde).decode value = .ok (s.info i (role i))
  dials : ∀ i j, s.dial i (s.info j (role j)) = .ok ()

end

/-! ## What becomes of the instances -/

section
variable {ι : Type} [Fintype ι] [DecidableEq ι] {s : Setup ι} {role : ι → Role} {logs : Logs Key Entry}
  {infos participants : List InstanceInfo} {i j : ι}

omit [Fintype ι] [DecidableEq ι] in
theorem silent_dialEach {t : Key} {rest : Process Effect} (h : rest.Silent t) : ∀ peers, (dialEach s i rest peers).Silent t
  | [] => h
  | peer :: peers => by
    rw [dialEach]
    split
    · exact trivial
    · exact silent_dialEach h peers

omit [Fintype ι] [DecidableEq ι] in
theorem silent_honestDone (name : String) (i : ι) (r : Role) : (honestDone s i r).Silent (.topic name) := by
  apply silent_orCrash
  simp [Proc.Silent]

omit [DecidableEq ι] in
theorem silent_honestStarted (name : String) (i : ι) (r : Role) (params : TestParams) :
    (honestStarted s i r params).Silent (.topic name) := by
  apply silent_signalAndWait.mpr
  apply LogNet.silent_acts.mpr
  apply silent_signalAndWait.mpr
  apply silent_orCrash
  intro total
  apply LogNet.silent_acts.mpr
  apply silent_signalAndWait.mpr
  exact silent_honestDone name i r

omit [DecidableEq ι] in
theorem silent_honestRun (name : String) (i : ι) (r : Role) (participants : List InstanceInfo) :
    (honestRun s i r participants).Silent (.topic name) := by
  apply LogNet.silent_acts.mpr
  apply silent_orCrash
  intro params
  apply silent_orCrash
  intro period
  apply LogNet.silent_acts.mpr
  apply silent_orCrash
  intro peers
  apply silent_dialEach
  exact LogNet.silent_acts.mpr (silent_honestStarted name i r params)

omit [DecidableEq ι] in
theorem silent_attackerRun (name : String) (i : ι) (participants : List InstanceInfo) :
    (attackerRun s i participants).Silent (.topic name) := by
  apply LogNet.silent_acts.mpr
  apply silent_signalAndWait.mpr
  apply silent_orCrash
  intro victim
  apply silent_dialEach
  simp [silent_signalAndWait, Proc.Silent]

omit [DecidableEq ι] in
theorem silent_collected (name : String) (i : ι) (r : Role) (infos : List InstanceInfo) :
    (collected s i r infos).Silent (.topic name) := by
  apply silent_orCrash
  intro participants
  cases r with
  | publisher | lurker => exact silent_honestRun name i _ participants
  | attacker => exact silent_attackerRun name i participants

/-- What all publish, in some order. -/
noncomputable def publishedInfos (s : Setup ι) (role : ι → Role) : List InstanceInfo :=
  Finset.univ.toList.map fun i => s.info i (role i)

theorem becomes_program (hacc : s.Accepted role) : LogNet.Becomes (main s) fun p => ∃ logs infos,
    infos.Perm (publishedInfos s role) ∧ p = fun i => .signal (.topic publishAndCollectTopic) ::
      (reads publishAndCollectTopic (Fintype.card ι) ++ line logs (collected s i (role i) infos)) := by
  intro st h
  choose value hencode hdecode using hacc.infos
  have hmain : main s = fun i => PublishAndCollect.run (textCodec s.serde) publishAndCollectTopic (s.info i (role i))
      (Fintype.card ι) (orCrash .crash (collected s i (role i))) := by
    funext i
    rw [main, hacc.roles i]
    rfl
  rw [hmain] at h ⊢
  obtain ⟨logs, infos, hext, hinfos, hlog⟩ := PublishAndCollect.exists_complete_infos hdecode (fun i logs =>
    PublishAndCollect.published_call (hencode i) (silent_orCrash fun infos => silent_collected _ i _ infos)) h
  refine ⟨logs, hext, logs, infos, hinfos, funext fun i => ?_⟩
  exact line_run (hencode i) hlog (PublishAndCollect.length_of_perm hinfos)

/-! ## The participants of an instance -/

/-- Whatever the order of the infos is, the own one is found and the others are left. -/
theorem exists_participants (hacc : s.Accepted role) (hinfos : infos.Perm (publishedInfos s role)) (i : ι) :
    ∃ participants, removeSelf (s.peerId i) infos = .ok participants ∧
      participants.Perm ((Finset.univ.erase i).toList.map fun j => s.info j (role j)) := by
  have hself : s.info i (role i) ∈ infos := hinfos.mem_iff.mpr (List.mem_map.mpr ⟨i, by simp, rfl⟩)
  cases hpos : infos.findIdx? fun x => x.peerId = s.peerId i with
  | none => simpa [Setup.info] using List.findIdx?_eq_none_iff.mp hpos _ hself
  | some pos =>
    obtain ⟨hlt, hget, -⟩ := List.findIdx?_eq_some_iff_getElem.mp hpos
    have hmem := hinfos.mem_iff.mp (List.getElem_mem hlt)
    obtain ⟨j, -, hj⟩ := List.mem_map.mp hmem
    have hji : j = i := hacc.peerIds (by simpa [← hj, Setup.info] using hget)
    subst hji
    refine ⟨infos.eraseIdx pos, by rw [removeSelf, hpos], ?_⟩
    have hall : (Finset.univ : Finset ι).toList.Perm (j :: (Finset.univ.erase j).toList) :=
      (List.perm_ext_iff_of_nodup (Finset.nodup_toList _) (List.nodup_cons.mpr ⟨by simp, Finset.nodup_toList _⟩)).mpr
        fun k => by simp [eq_or_ne]
    have hperm := (List.getElem_cons_eraseIdx_perm hlt).trans (hinfos.trans (hall.map _))
    rw [← hj] at hperm
    exact (List.perm_cons _).mp hperm

section
variable {participants : List InstanceInfo}

/-- `participants` are the infos of the others. -/
def Others (s : Setup ι) (role : ι → Role) (i : ι) (participants : List InstanceInfo) : Prop :=
  participants.Perm ((Finset.univ.erase i).toList.map fun j => s.info j (role j))

theorem Others.mem_iff (ho : Others s role i participants) {x : InstanceInfo} :
    x ∈ participants ↔ ∃ j, j ≠ i ∧ x = s.info j (role j) := by
  rw [List.Perm.mem_iff ho]
  simp [eq_comm]

theorem Others.nodup_peerIds (hacc : s.Accepted role) (ho : Others s role i participants) :
    (participants.map InstanceInfo.peerId).Nodup := by
  rw [(List.Perm.map _ ho).nodup_iff, List.map_map]
  exact (Finset.nodup_toList _).map hacc.peerIds

theorem Others.getElem?_namesOf (hacc : s.Accepted role) (ho : Others s role i participants) (p name : String) :
    (namesOf participants)[p]? = some name ↔ ∃ j, j ≠ i ∧ p = s.peerId j ∧ name = (s.info j (role j)).name := by
  have hfold : namesOf participants = (participants.map fun info => (info.peerId, info.name)).foldl
      (fun names e => names.insert e.1 e.2) ∅ := by
    rw [namesOf, List.foldl_map]
  have hkeys : ((participants.map fun info => (info.peerId, info.name)).map Prod.fst).Nodup := by
    rw [List.map_map]
    exact ho.nodup_peerIds hacc
  rw [hfold, OrderedMap.getElem?_foldl_insert _ hkeys]
  simp only [Std.TreeMap.getElem?_emptyc, reduceCtorEq, and_false, or_false, List.mem_map, Prod.mk.injEq, ho.mem_iff]
  constructor
  · rintro ⟨x, ⟨j, hj, rfl⟩, rfl, rfl⟩
    exact ⟨j, hj, rfl, rfl⟩
  · rintro ⟨j, hj, rfl, rfl⟩
    exact ⟨_, ⟨j, hj, rfl⟩, rfl, rfl⟩

/-- The names that peers are recorded under are distinct when the numbers within the groups are. -/
theorem name_injective {a b : InstanceInfo} (h : a.name = b.name) : a.role = b.role ∧ a.groupSeq = b.groupSeq := by
  have hchars : ∀ x : InstanceInfo, x.name.toList = (Role.debug x.role).toList ++ Nat.toDigits 10 x.groupSeq := fun x => by
    simp [InstanceInfo.name]
  have heq := congrArg String.toList h
  rw [hchars, hchars] at heq
  -- the first letter tells the role
  have hrole : a.role = b.role := by
    have hhead := congrArg List.head? heq
    cases ha : a.role <;> cases hb : b.role <;> simp [ha, hb, Role.debug] at hhead ⊢
  rw [hrole] at heq
  exact ⟨hrole, PrefixCode.toDigits_inj (List.append_cancel_left heq)⟩

end

/-! ## Set-ups that go through -/

def Setup.otherHonest (role : ι → Role) (i : ι) : Finset ι := Finset.univ.filter fun j => j ≠ i ∧ (role j).isHonest

/-- The parameters of an honest node are those of a set-up that completes; an attacker has a victim. -/
def Setup.Ready (s : Setup ι) (role : ι → Role) (i : ι) : Prop :=
  match role i with
  | .attacker => ∃ j, role j = .publisher ∧ s.groupSeq j = 1
  | _ => ∃ params, TestParams.new (s.instanceParams i) = .ok params ∧
    (1 ≤ params.messageRate ∧ params.messageRate ≤ 1000) ∧ params.peersToConnect ≤ (Setup.otherHonest role i).card

/-- The metrics of an honest node can be recorded. -/
def Setup.Recorded (s : Setup ι) (role : ι → Role) (i : ι) : Prop :=
  (role i).isHonest = true → ∃ queries, s.metricQueries i (role i) = .ok queries

/-- What is left to an honest node after the last barrier. -/
def Setup.atLast (s : Setup ι) (i : ι) (r : Role) : List Effect :=
  match s.metricQueries i r with
  | .ok _ => [.plain .recordMetrics, .plain .recordSuccess]
  | .error f => [.crash f]

/-- `honest::run` of a node that dials `peers`, up to the last barrier. -/
def honestToDone (n : Nat) (role : Role) (names : Names) (peers : List InstanceInfo) : List (Act Key Effect) :=
  acts [.plain .recordInstanceInfo] ++ (acts [.newNetwork names, .plain .listen] ++
  (acts (peers.map fun p => .plain (.dial p)) ++ (acts [.plain .spawn] ++
  (signalAndWait barrierStartedLibp2p n ++ (acts [.plain .subscribe, .plain .warmup] ++ (signalAndWait barrierWarmup n ++
  acts (if role.isPublisher then [.plain .startPublishing, .plain .stopPublishing] else [])))))))

def attackerToDone (n : Nat) (victim : InstanceInfo) : List (Act Key Effect) :=
  acts [.plain .listen] ++ (signalAndWait barrierStartedLibp2p n ++ (acts [.plain (.dial victim)] ++
  signalAndWait barrierWarmup n))

theorem Others.length_honest (ho : Others s role i participants) :
    (participants.filter fun p => p.role.isHonest).length = (Setup.otherHonest role i).card := by
  have hperm := List.Perm.filter (fun p : InstanceInfo => p.role.isHonest) ho
  rw [hperm.length_eq, List.filter_map, List.length_map, ← Finset.length_toList]
  have hsame : ((Finset.univ.erase i).toList.filter fun j => (role j).isHonest).Perm (Setup.otherHonest role i).toList :=
    (List.perm_ext_iff_of_nodup ((Finset.nodup_toList _).filter _) (Finset.nodup_toList _)).mpr fun j => by
      simp [Setup.otherHonest]
  exact hsame.length_eq

omit [Fintype ι] [DecidableEq ι] in
theorem peersToConnect_ok_iff {amount seed : Nat} {peers : List InstanceInfo} :
    peersToConnect InstanceInfo.role (s.shuffle seed) participants amount = .ok peers ↔
      amount ≤ (participants.filter fun p => p.role.isHonest).length ∧
        peers = (s.shuffle seed (participants.filter fun p => p.role.isHonest)).take amount := by
  have hlen := (s.shuffle_perm seed (participants.filter fun p => p.role.isHonest)).length_eq
  unfold peersToConnect sliceTo
  rw [hlen]
  split
  · rename_i h
    simp [h, eq_comm]
  · rename_i h
    simp [h]

omit [Fintype ι] [DecidableEq ι] in
theorem line_dialEach {rest : Process Effect} : ∀ {peers : List InstanceInfo},
    (∀ peer ∈ peers, s.dial i peer = .ok ()) →
      line logs (dialEach s i rest peers) = acts (peers.map fun p => .plain (.dial p)) ++ line logs rest
  | [], _ => rfl
  | peer :: peers, h => by
    obtain ⟨hpeer, h⟩ := List.forall_mem_cons.mp h
    rw [dialEach, hpeer]
    exact congrArg (.act (.plain (.dial peer)) :: ·) (line_dialEach h)

theorem Others.dial_ok (hacc : s.Accepted role) (ho : Others s role i participants) {peers : List InstanceInfo}
    (hpeers : ∀ peer ∈ peers, peer ∈ participants) : ∀ peer ∈ peers, s.dial i peer = .ok () := by
  intro peer hpeer
  obtain ⟨j, -, rfl⟩ := ho.mem_iff.mp (hpeers peer hpeer)
  exact hacc.dials i j

theorem Others.peersToConnect_ok (ho : Others s role i participants) (hacc : s.Accepted role) {amount seed : Nat}
    (hle : amount ≤ (Setup.otherHonest role i).card) : ∃ peers,
      peersToConnect InstanceInfo.role (s.shuffle seed) participants amount = .ok peers ∧ peers.length = amount ∧
      peers.Nodup ∧ ∀ p ∈ peers, p ∈ participants ∧ p.role.isHonest = true := by
  have hperm := s.shuffle_perm seed (participants.filter fun p => p.role.isHonest)
  have hlen : amount ≤ (participants.filter fun p => p.role.isHonest).length := ho.length_honest ▸ hle
  have hnodup : participants.Nodup := (ho.nodup_peerIds hacc).of_map
  refine ⟨_, peersToConnect_ok_iff.mpr ⟨hlen, rfl⟩, ?_, ?_, fun p hp => ?_⟩
  · rw [List.length_take, hperm.length_eq, Nat.min_eq_left hlen]
  · exact (List.take_sublist _ _).nodup (hperm.nodup_iff.mpr (hnodup.filter _))
  · exact List.mem_filter.mp (hperm.mem_iff.mp (List.mem_of_mem_take hp))

theorem exists_announced (r : Role) {params : TestParams} (hrate : 1 ≤ params.messageRate ∧ params.messageRate ≤ 1000) :
    ∃ total, announced r params = .ok total := by
  have hpos : params.messageRate ≠ 0 := by omega
  have hperiod : 1000 / params.messageRate ≠ 0 := fun h => by
    have := (Censoring.period_eq_zero_iff hpos).mp h
    omega
  unfold announced
  split
  · simp [Censoring.totalExpectedMessages, Censoring.quotient, hpos, hperiod, bind, Except.bind, Except.map]
  · exact ⟨none, rfl⟩

omit [Fintype ι] [DecidableEq ι] in
theorem line_honestDone (i : ι) (r : Role) : line logs (honestDone s i r) = acts (s.atLast i r) := by
  unfold honestDone Setup.atLast
  cases s.metricQueries i r with
  | ok queries => simp only [orCrash, line_acts, line_halt, List.append_nil]
  | error f => rfl

variable (logs) in
omit [DecidableEq ι] in
theorem line_honestRun_of_ok (r : Role) {params : TestParams} {peers : List InstanceInfo}
    (hparams : TestParams.new (s.instanceParams i) = .ok params)
    (hrate : 1 ≤ params.messageRate ∧ params.messageRate ≤ 1000)
    (hpeers : peersToConnect InstanceInfo.role (s.shuffle (s.globalSeq i)) participants params.peersToConnect = .ok peers)
    (hdial : ∀ peer ∈ peers, s.dial i peer = .ok ()) :
    line logs (honestRun s i r participants) = honestToDone (Fintype.card ι) r (namesOf participants) peers ++
      (signalAndWait barrierDone (Fintype.card ι) ++ acts (s.atLast i r)) := by
  have hinterval : publishInterval params.messageRate = .ok (1000 / params.messageRate) :=
    Censoring.publishInterval_ok_iff.mpr ⟨hrate, rfl⟩
  obtain ⟨total, htotal⟩ := exists_announced r hrate
  simp only [honestRun, line_acts, hparams, hinterval, orCrash]
  rw [hpeers]
  simp only [line_dialEach hdial, honestStarted, line_acts, line_signalAndWait, htotal, line_honestDone, orCrash,
    honestToDone, List.append_assoc]

variable (logs) in
theorem line_honestRun (hacc : s.Accepted role) (ho : Others s role i participants) (r : Role) {params : TestParams}
    (hparams : TestParams.new (s.instanceParams i) = .ok params)
    (hrate : 1 ≤ params.messageRate ∧ params.messageRate ≤ 1000)
    (hle : params.peersToConnect ≤ (Setup.otherHonest role i).card) : ∃ peers : List InstanceInfo,
      peers.length = params.peersToConnect ∧ peers.Nodup ∧ (∀ p ∈ peers, p ∈ participants ∧ p.role.isHonest = true) ∧
      line logs (honestRun s i r participants) = honestToDone (Fintype.card ι) r (namesOf participants) peers ++
        (signalAndWait barrierDone (Fintype.card ι) ++ acts (s.atLast i r)) := by
  obtain ⟨peers, hpeers, hlen, hnodup, hmem⟩ := ho.peersToConnect_ok hacc hle
  have hdial := ho.dial_ok hacc fun p hp => (hmem p hp).1
  exact ⟨peers, hlen, hnodup, hmem, line_honestRun_of_ok logs r hparams hrate hpeers hdial⟩

omit [Fintype ι] [DecidableEq ι] in
theorem mem_of_victimOf {victim : InstanceInfo} (h : victimOf participants = .ok victim) :
    victim ∈ participants ∧ victim.role = .publisher ∧ victim.groupSeq = 1 := by
  unfold victimOf at h
  split at h
  · cases h
  · rename_i hfind
    obtain rfl := Except.ok.inj h
    have hvictim := List.find?_some hfind
    simp only [Bool.and_eq_true, beq_iff_eq, Censoring.Role.isPublisher_iff] at hvictim
    exact ⟨List.mem_of_find?_eq_some hfind, hvictim⟩

theorem Others.victimOf_ok (ho : Others s role i participants) (hrole : role i = .attacker)
    (h : ∃ j, role j = .publisher ∧ s.groupSeq j = 1) : ∃ victim, victimOf participants = .ok victim ∧
      victim ∈ participants ∧ victim.role = .publisher ∧ victim.groupSeq = 1 := by
  obtain ⟨j, hpublisher, hseq⟩ := h
  have hj : s.info j (role j) ∈ participants := ho.mem_iff.mpr ⟨j, fun heq => by simp [heq, hrole] at hpublisher, rfl⟩
  rcases hvictim : victimOf participants with f | victim
  · unfold victimOf at hvictim
    split at hvictim
    · rename_i hfind
      have hno := List.find?_eq_none.mp hfind _ hj
      simp [Setup.info, hpublisher, hseq, Role.isPublisher] at hno
    · cases hvictim
  · exact ⟨victim, rfl, mem_of_victimOf hvictim⟩

variable (logs) in
omit [DecidableEq ι] in
theorem line_attackerRun_of_ok {victim : InstanceInfo} (hvictim : victimOf participants = .ok victim)
    (hdial : s.dial i victim = .ok ()) : line logs (attackerRun s i participants) =
      attackerToDone (Fintype.card ι) victim ++
        (signalAndWait barrierDone (Fintype.card ι) ++ acts [.plain .recordSuccess]) := by
  have hdial : ∀ peer ∈ [victim], s.dial i peer = .ok () := by simpa using hdial
  simp only [attackerRun, line_acts, line_signalAndWait, hvictim, orCrash, line_dialEach hdial, line_halt, List.append_nil,
    attackerToDone, List.map_cons, List.map_nil, List.append_assoc]

variable (logs) in
theorem line_attackerRun (hacc : s.Accepted role) (ho : Others s role i participants) (hrole : role i = .attacker)
    (h : ∃ j, role j = .publisher ∧ s.groupSeq j = 1) : ∃ victim ∈ participants, victim.role = .publisher ∧
      victim.groupSeq = 1 ∧ line logs (attackerRun s i participants) = attackerToDone (Fintype.card ι) victim ++
        (signalAndWait barrierDone (Fintype.card ι) ++ acts [.plain .recordSuccess]) := by
  obtain ⟨victim, hvictim, hmem, hpublisher, hseq⟩ := ho.victimOf_ok hrole h
  have hdial := ho.dial_ok hacc (show ∀ peer ∈ [victim], peer ∈ participants by simpa using hmem) victim (by simp)
  exact ⟨victim, hmem, hpublisher, hseq, line_attackerRun_of_ok logs hvictim hdial⟩

/-- What an instance does not do before the last barrier when its set-up goes through. -/
def Effect.Last (x : Effect) : Prop := x = .plain .recordSuccess ∨ ∃ f, x = .crash f

/-- What a set-up that goes through leads to: `toDone`, the last barrier and `fin`. -/
structure Finishes (s : Setup ι) (role : ι → Role) (i : ι) (toDone : List (Act Key Effect)) (fin : List Effect) : Prop where
  sync : CounterNet.sync toDone = signalAndWait barrierStartedLibp2p (Fintype.card ι) ++ signalAndWait barrierWarmup (Fintype.card ι)
  last : ∀ x : Effect, x.Last → .act x ∉ toDone
  success : .plain .recordSuccess ∈ fin ↔ s.Recorded role i
  crash : ∀ f, .crash f ∈ fin → ¬ s.Recorded role i

omit [DecidableEq ι] in
theorem finishes_honest {r : Role} (hrole : role i = r) (hhonest : r.isHonest = true) (names : Names)
    (peers : List InstanceInfo) : Finishes s role i (honestToDone (Fintype.card ι) r names peers) (s.atLast i r) where
  sync := by simp [honestToDone]
  last x hx := by
    unfold honestToDone
    rcases hx with rfl | ⟨f, rfl⟩ <;> split <;> simp
  success := by
    unfold Setup.Recorded Setup.atLast
    rw [hrole]
    cases s.metricQueries i r <;> simp [hhonest]
  crash f := by
    unfold Setup.Recorded Setup.atLast
    rw [hrole]
    cases s.metricQueries i r <;> simp [hhonest]

omit [DecidableEq ι] in
theorem finishes_attacker (hrole : role i = .attacker) (victim : InstanceInfo) :
    Finishes s role i (attackerToDone (Fintype.card ι) victim) [.plain .recordSuccess] where
  sync := by simp [attackerToDone]
  last x hx := by rcases hx with rfl | ⟨f, rfl⟩ <;> simp [attackerToDone]
  success := by simp [Setup.Recorded, hrole, Role.isHonest]
  crash f := by simp

variable (logs) in
theorem line_of_ready (hacc : s.Accepted role) (hinfos : infos.Perm (publishedInfos s role)) (h : s.Ready role i) :
    ∃ toDone fin, Finishes s role i toDone fin ∧
      line logs (collected s i (role i) infos) = toDone ++ (signalAndWait barrierDone (Fintype.card ι) ++ acts fin) := by
  obtain ⟨participants, hself, ho⟩ := exists_participants hacc hinfos i
  have ho : Others s role i participants := ho
  rw [collected, hself]
  unfold Setup.Ready at h
  cases hrole : role i with
  | attacker =>
    rw [hrole] at h
    obtain ⟨victim, -, -, -, hline⟩ := line_attackerRun logs hacc ho hrole h
    exact ⟨_, _, finishes_attacker hrole victim, hline⟩
  | publisher | lurker =>
    rw [hrole] at h
    obtain ⟨params, hparams, hrate, hle⟩ := h
    obtain ⟨peers, -, -, -, hline⟩ := line_honestRun logs hacc ho (role i) hparams hrate hle
    rw [hrole] at hline
    exact ⟨_, _, finishes_honest hrole rfl _ peers, hline⟩

/-- Nothing that follows the set-up. -/
def Effect.Early (x : Effect) : Prop := x.dialed? = none ∧ x ≠ .plain .spawn ∧ x ≠ .plain .recordSuccess

/-- A process that ends before the last barrier and before it dials. -/
def Stops (p : Process Effect) : Prop := p.Silent (.state barrierDone) ∧ p.Does Effect.Early

theorem stops_crash (f : Fail) : Stops (.act (.crash f) .halt) := ⟨trivial, ⟨rfl, nofun, nofun⟩, trivial⟩

theorem stops_acts {l : List Effect} {p : Process Effect} (hl : ∀ x ∈ l, x.Early) (h : Stops p) : Stops (.acts l p) :=
  ⟨LogNet.silent_acts.mpr h.1, LogNet.does_acts.mpr ⟨hl, h.2⟩⟩

theorem stops_started {n : Nat} {p : Process Effect} (h : Stops p) :
    Stops (PublishAndCollect.signalAndWait barrierStartedLibp2p n p) := by
  refine ⟨⟨?_, h.1⟩, h.2⟩
  simp [barrierStartedLibp2p, barrierDone]

theorem Others.stops_honestRun (ho : Others s role i participants) (r : Role)
    (h : ¬ ∃ params, TestParams.new (s.instanceParams i) = .ok params ∧
      (1 ≤ params.messageRate ∧ params.messageRate ≤ 1000) ∧ params.peersToConnect ≤ (Setup.otherHonest role i).card) :
    Stops (honestRun s i r participants) := by
  unfold honestRun
  apply stops_acts (by simp [Effect.Early, Effect.dialed?])
  rcases hparams : TestParams.new (s.instanceParams i) with f | params
  · exact stops_crash f
  rw [orCrash]
  rcases hinterval : publishInterval params.messageRate with f | period
  · exact stops_crash f
  rw [orCrash]
  apply stops_acts (by simp [Effect.Early, Effect.dialed?])
  rcases hpeers : peersToConnect InstanceInfo.role (s.shuffle (s.globalSeq i)) participants params.peersToConnect with f | peers
  · exact stops_crash f
  · have hrate := (Censoring.publishInterval_ok_iff.mp hinterval).1
    have hle := (peersToConnect_ok_iff.mp hpeers).1
    rw [ho.length_honest] at hle
    exact absurd ⟨params, hparams, hrate, hle⟩ h

theorem Others.stops_attackerRun (ho : Others s role i participants)
    (h : ¬ ∃ j, role j = .publisher ∧ s.groupSeq j = 1) : Stops (attackerRun s i participants) := by
  unfold attackerRun
  apply stops_acts (by simp [Effect.Early, Effect.dialed?])
  apply stops_started
  rcases hvictim : victimOf participants with f | victim
  · exact stops_crash f
  · obtain ⟨hmem, hrole, hseq⟩ := mem_of_victimOf hvictim
    obtain ⟨j, -, rfl⟩ := ho.mem_iff.mp hmem
    exact absurd ⟨j, hrole, hseq⟩ h

/-- Whatever it is that fails: it fails before the last barrier. -/
theorem stops_of_not_ready (hacc : s.Accepted role) (hinfos : infos.Perm (publishedInfos s role)) (h : ¬ s.Ready role i) :
    Stops (collected s i (role i) infos) := by
  obtain ⟨participants, hself, ho⟩ := exists_participants hacc hinfos i
  have ho : Others s role i participants := ho
  rw [collected, hself]
  unfold Setup.Ready at h
  cases hrole : role i with
  | publisher | lurker =>
    rw [hrole] at h
    exact ho.stops_honestRun _ h
  | attacker =>
    rw [hrole] at h
    exact ho.stops_attackerRun h

/-! ## A run -/

/-- The text of an info. -/
def infoJson (info : InstanceInfo) : String :=
  "\x7b\"global_seq\":" ++ toString info.globalSeq ++ ",\"group_seq\":" ++ toString info.groupSeq ++ ",\"peer_id\":\"" ++
    info.peerId ++ "\",\"multiaddr\":\"" ++ info.multiaddr ++ "\",\"role\":\"" ++ Role.debug info.role ++ "\"\x7d"

/-- Two publishers, a lurker and an attacker. -/
def roleOf : Fin 4 → Role
  | 0 | 1 => .publisher
  | 2 => .lurker
  | 3 => .attacker

def infoOf (i : Fin 4) : InstanceInfo :=
  ⟨i + 1, if i = 1 then 2 else 1, s!"peer_{i}", s!"/ip4/16.0.0.{i}/tcp/9000", roleOf i⟩

def Setup.four : Setup (Fin 4) where
  testGroupId i := (Role.debug (roleOf i)).toLower ++ "s"
  globalSeq i := (infoOf i).globalSeq
  groupSeq i := (infoOf i).groupSeq
  peerId i := (infoOf i).peerId
  multiaddr i := (infoOf i).multiaddr
  instanceParams _ := Censoring.manifestParams "2" "100"
  serde := {
    toValue info := .ok (.other (infoJson info))
    fromValue _ := .error "invalid type"
    toText info := .ok (infoJson info)
    fromText text := match (List.finRange 4).find? fun i => infoJson (infoOf i) = text with
      | some i => .ok (infoOf i)
      | none => .error "invalid type" }
  shuffle _ honest := honest.reverse
  shuffle_perm _ := List.reverse_perm
  dial _ _ := .ok ()
  testStartTime := 0
  testRun := "run"
  encoded _ := .ok Metrics.twoTopics

theorem accepted_four : Setup.four.Accepted roleOf where
  roles := by decide +kernel
  peerIds := by
    rw [Function.Injective]
    decide +kernel
  infos i := by
    refine ⟨.string (infoJson (infoOf i)), by revert i; decide +kernel, by revert i; decide +kernel⟩
  dials _ _ := rfl

/-- The honest nodes have dialed, the attacker too, and publisher 0 is done. -/
theorem exists_scheduled : ∃ st names, LogNet.Reachable (main Setup.four) st ∧
    .act (.plain .recordSuccess) ∈ st.trace 0 ∧ .act (.newNetwork names) ∈ st.trace 0 ∧
    (st.did 0).filterMap Effect.dialed? = [infoOf 2, infoOf 1] ∧ (st.did 3).filterMap Effect.dialed? = [infoOf 0] := by
  let schedule : List (Fin 4 × Nat) := [(0, 2), (1, 3), (2, 4), (3, 7), (0, 10), (1, 9), (2, 12), (3, 3), (0, 4), (1, 8),
    (2, 2), (3, 2), (0, 7)]
  have hok : ((LogNet.execAll (.init (main Setup.four)) (schedule.flatMap fun b => List.replicate b.2 b.1)).map fun st =>
      ((st.did 0).any fun e => match e with | .plain .recordSuccess => true | _ => false,
        (st.did 0).any fun e => match e with | .newNetwork _ => true | _ => false,
        (st.did 0).filterMap Effect.dialed?, (st.did 3).filterMap Effect.dialed?)) =
      some (true, true, [infoOf 2, infoOf 1], [infoOf 0]) := by decide +kernel
  obtain ⟨st, hst, hok⟩ := Option.map_eq_some_iff.mp hok
  simp only [Prod.mk.injEq, List.any_eq_true] at hok
  obtain ⟨⟨success, hsuccess, heq⟩, ⟨new, hnew, heq'⟩, hdialed, hdialed'⟩ := hok
  split at heq
  · split at heq'
    · rename_i names
      exact ⟨st, names, LogNet.execAll_reachable .refl hst, LogNet.mem_did.mp hsuccess, LogNet.mem_did.mp hnew, hdialed,
        hdialed'⟩
    · cases heq'
  · cases heq

/-! ## All or none -/

theorem ready_of_signalled (hacc : s.Accepted role) (hinfos : infos.Perm (publishedInfos s role))
    (h : .signal (.state barrierDone) ∈ line logs (collected s i (role i) infos)) : s.Ready role i := by
  by_contra hno
  exact LogNet.signal_not_mem_of_silent logs (stops_of_not_ready hacc hinfos hno).1 h

theorem ready_of_success (hacc : s.Accepted role) (hinfos : infos.Perm (publishedInfos s role))
    (h : .act (.plain .recordSuccess) ∈ line logs (collected s i (role i) infos)) : s.Ready role i := by
  by_contra hno
  exact ((stops_of_not_ready hacc hinfos hno).2.of_mem (LogNet.act_mem_map.mp h)).2.2 rfl

def program (s : Setup ι) (role : ι → Role) (logs : Logs Key Entry) (infos : List InstanceInfo) (i : ι) :
    List (Act Key Effect) :=
  .signal (.topic publishAndCollectTopic) ::
    (reads publishAndCollectTopic (Fintype.card ι) ++ line logs (collected s i (role i) infos))

theorem signals_program_le (hacc : s.Accepted role) (hinfos : infos.Perm (publishedInfos s role)) (i : ι) :
    CounterNet.signals (.state barrierDone) (program s role logs infos i) ≤ 1 := by
  have hstart : CounterNet.signals (.state barrierDone) (program s role logs infos i) =
      CounterNet.signals (.state barrierDone) (line logs (collected s i (role i) infos)) := by
    simp [program, signals_reads, Act.isSignal]
  rw [hstart]
  by_cases hready : s.Ready role i
  · obtain ⟨toDone, fin, hfin, hline⟩ := line_of_ready logs hacc hinfos hready
    rw [hline, ← CounterNet.signals_sync, CounterNet.sync_append, hfin.sync]
    simp [barrierStartedLibp2p, barrierWarmup, barrierDone]
  · refine (Nat.le_of_eq ?_).trans (Nat.zero_le 1)
    by_contra hne
    exact hready (ready_of_signalled hacc hinfos (CounterNet.mem_of_signals_pos (Nat.pos_of_ne_zero hne)))

theorem awaited_of_last (hacc : s.Accepted role) (hinfos : infos.Perm (publishedInfos s role)) (hready : s.Ready role i)
    {c : CounterNet.State ι Key} {x : Effect} (hx : x.Last)
    (h : .act x ∈ CounterNet.executed (program s role logs infos) c i) :
    .await (.state barrierDone) (Fintype.card ι) ∈ CounterNet.executed (program s role logs infos) c i := by
  obtain ⟨toDone, fin, hfin, hline⟩ := line_of_ready logs hacc hinfos hready
  apply CounterNet.executed_of_precedes _ h
  have hprogram : program s role logs infos i = (.signal (.topic publishAndCollectTopic) ::
      (reads publishAndCollectTopic (Fintype.card ι) ++ toDone)) ++ (signalAndWait barrierDone (Fintype.card ι) ++ acts fin) := by
    rw [program, hline, List.cons_append, List.append_assoc]
  rw [hprogram]
  apply CounterNet.precedes_skip
  · simp [hfin.last x hx]
  · apply CounterNet.precedes_append <;> simp

/-- Who gets to the last barrier does so with everybody. -/
theorem all_ready_of_last (hacc : s.Accepted role) (hinfos : infos.Perm (publishedInfos s role)) (hready : s.Ready role i)
    {c : CounterNet.State ι Key} (hreach : CounterNet.Reachable (program s role logs infos) c) {x : Effect} (hx : x.Last)
    (h : .act x ∈ CounterNet.executed (program s role logs infos) c i) : ∀ j, s.Ready role j := by
  intro j
  have hsignal := hreach.barrier (signals_program_le hacc hinfos) (Nat.le_refl _) (awaited_of_last hacc hinfos hready hx h) j
  have hmem := List.mem_of_mem_take hsignal
  apply ready_of_signalled hacc hinfos
  simpa [program, reads] using hmem

omit [DecidableEq ι] in
theorem last_mem_fin {toDone : List (Act Key Effect)} {fin : List Effect} (hfin : Finishes s role i toDone fin)
    (hline : line logs (collected s i (role i) infos) = toDone ++ (signalAndWait barrierDone (Fintype.card ι) ++ acts fin))
    {x : Effect} (hx : x.Last) : .act x ∈ program s role logs infos i ↔ x ∈ fin := by
  rw [program, hline]
  simp [hfin.last x hx]

/-- What every instance says to the sync service if its set-up goes through. -/
def syncProgram (n : Nat) : List (Act Key Effect) :=
  .signal (.topic publishAndCollectTopic) :: reads publishAndCollectTopic n ++ signalAndWait barrierStartedLibp2p n ++
    signalAndWait barrierWarmup n ++ signalAndWait barrierDone n

theorem fed_syncProgram (n : Nat) : CounterNet.Fed n (fun _ => 0) (syncProgram n) := by
  simp only [syncProgram, CounterNet.fed_append]
  exact ⟨⟨⟨fed_call _, fed_signalAndWait _⟩, fed_signalAndWait _⟩, fed_signalAndWait _⟩

theorem sync_program (hacc : s.Accepted role) (hinfos : infos.Perm (publishedInfos s role)) (h : s.Ready role i) :
    CounterNet.sync (program s role logs infos i) = syncProgram (Fintype.card ι) := by
  obtain ⟨toDone, fin, hfin, hline⟩ := line_of_ready logs hacc hinfos h
  rw [program, hline]
  simp [syncProgram, sync_call, sync_reads, hfin.sync]

theorem recorded_four (i : Fin 4) : Setup.four.Recorded roleOf i := fun _ => ⟨_, rfl⟩

end

end GossipPlans.CensoringRun
