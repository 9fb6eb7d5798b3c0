import GossipPlans.CensoringRun

/-!
# censoring: connections and scores

Whom the instances of a run dial, and the names under which an honest node records the scores of its peers.
-/

namespace GossipPlans.CensoringRun

open Censoring (Role TestParams barrierDone)
open CounterNet (acts)
open LogNet (Logs)
open Metrics (Recorder WriteQuery)
open PublishAndCollect (Entry Process does_orCrash does_signalAndWait line locals_reads orCrash)

section
variable {ι : Type} [Fintype ι] [DecidableEq ι] {s : Setup ι} {role : ι → Role} {logs : Logs Key Entry}
  {infos participants : List InstanceInfo} {i : ι}

/-! ## Who dials whom -/

/-- The numbers that the sync service hands out within a group. -/
def Setup.Numbered (s : Setup ι) (role : ι → Role) : Prop :=
  ∀ i j, role i = role j → s.groupSeq i = s.groupSeq j → i = j

/-- What may be dialed by `i`. -/
def Setup.Target (s : Setup ι) (role : ι → Role) (i : ι) (peer : InstanceInfo) : Prop :=
  ∃ j, j ≠ i ∧ peer = s.info j (role j) ∧ (role j).isHonest = true ∧
    (role i = .attacker → role j = .publisher ∧ s.groupSeq j = 1)

/-- The `effects` dial `peers`, and an honest node dials all of them before it spawns its network. -/
structure Dials (s : Setup ι) (role : ι → Role) (i : ι) (effects : List Effect) (peers : List InstanceInfo) : Prop where
  dialed : effects.filterMap Effect.dialed? = peers
  nodup : peers.Nodup
  targets : ∀ peer ∈ peers, s.Target role i peer
  attacker : role i = .attacker → peers.length ≤ 1
  spawned : .plain .spawn ∈ effects → (∃ before after, effects = before ++ .plain .spawn :: after ∧
    .plain .spawn ∉ before ∧ before.filterMap Effect.dialed? = peers) ∧
    ∀ params, TestParams.new (s.instanceParams i) = .ok params → peers.length = params.peersToConnect

omit [Fintype ι] [DecidableEq ι] in
theorem dials_of_early {effects : List Effect} (h : ∀ x ∈ effects, x.Early) : Dials s role i effects [] where
  dialed := List.filterMap_eq_nil_iff.mpr fun x hx => (h x hx).1
  nodup := List.nodup_nil
  targets := nofun
  attacker _ := Nat.zero_le 1
  spawned hspawn := absurd rfl (h _ hspawn).2.1

omit [Fintype ι] [DecidableEq ι] in
theorem filterMap_dialed (peers : List InstanceInfo) :
    (peers.map fun p => Effect.plain (.dial p)).filterMap Effect.dialed? = peers := by
  rw [List.filterMap_map]
  exact List.filterMap_some

theorem dials_attacker (ho : Others s role i participants) {victim : InstanceInfo}
    (hmem : victim ∈ participants) (hpublisher : victim.role = .publisher) (hseq : victim.groupSeq = 1) :
    Dials s role i [.plain .listen, .plain (.dial victim), .plain .recordSuccess] [victim] where
  dialed := rfl
  nodup := List.nodup_singleton victim
  targets := by
    obtain ⟨j, hji, rfl⟩ := ho.mem_iff.mp hmem
    have hj : role j = .publisher := hpublisher
    intro peer hpeer
    exact ⟨j, hji, List.mem_singleton.mp hpeer, by rw [hj]; rfl, fun _ => ⟨hj, hseq⟩⟩
  attacker _ := Nat.le_refl 1
  spawned hspawn := by simp at hspawn

theorem dials_honest (ho : Others s role i participants) {params : TestParams} {names : Names} {peers : List InstanceInfo}
    {after : List Effect} (hrole : role i ≠ .attacker) (hparams : TestParams.new (s.instanceParams i) = .ok params)
    (hlen : peers.length = params.peersToConnect) (hnodup : peers.Nodup)
    (hmem : ∀ p ∈ peers, p ∈ participants ∧ p.role.isHonest = true) (hafter : after.filterMap Effect.dialed? = []) :
    Dials s role i ([.plain .recordInstanceInfo, .newNetwork names, .plain .listen] ++
      peers.map (fun p => .plain (.dial p)) ++ .plain .spawn :: after) peers where
  dialed := by
    have hrest : (Effect.plain .spawn :: after).filterMap Effect.dialed? = [] := hafter
    rw [List.filterMap_append, List.filterMap_append, filterMap_dialed, hrest]
    exact List.append_nil peers
  nodup := hnodup
  targets peer hpeer := by
    obtain ⟨hin, hhonest⟩ := hmem peer hpeer
    obtain ⟨j, hji, rfl⟩ := ho.mem_iff.mp hin
    exact ⟨j, hji, rfl, hhonest, fun hattacker => absurd hattacker hrole⟩
  attacker hattacker := absurd hattacker hrole
  spawned _ := by
    refine ⟨⟨_, _, rfl, by simp, ?_⟩, fun params' hparams' => ?_⟩
    · rw [List.filterMap_append, filterMap_dialed]
      rfl
    · cases hparams.symm.trans hparams'
      exact hlen

def afterSpawn (s : Setup ι) (i : ι) (role : Role) : List Effect :=
  [.plain .subscribe, .plain .warmup] ++ (if role.isPublisher then [.plain .startPublishing, .plain .stopPublishing] else []) ++
    s.atLast i role

omit [Fintype ι] [DecidableEq ι] in
theorem dialed_afterSpawn (i : ι) (r : Role) : (afterSpawn s i r).filterMap Effect.dialed? = [] := by
  unfold afterSpawn Setup.atLast
  cases s.metricQueries i r <;> cases r <;> rfl

omit [Fintype ι] [DecidableEq ι] in
theorem locals_honest (n : Nat) (i : ι) (r : Role) (names : Names) (peers : List InstanceInfo) :
    CounterNet.locals (honestToDone n r names peers ++ (signalAndWait barrierDone n ++ acts (s.atLast i r))) =
      [.plain .recordInstanceInfo, .newNetwork names, .plain .listen] ++ peers.map (fun p => .plain (.dial p)) ++
        .plain .spawn :: afterSpawn s i r := by
  simp [honestToDone, afterSpawn]

variable (logs) in
theorem exists_dials (hacc : s.Accepted role) (hinfos : infos.Perm (publishedInfos s role)) (i : ι) :
    ∃ peers, Dials s role i (CounterNet.locals (line logs (collected s i (role i) infos))) peers := by
  by_cases hready : s.Ready role i
  · obtain ⟨participants, hself, ho⟩ := exists_participants hacc hinfos i
    have ho : Others s role i participants := ho
    rw [collected, hself]
    unfold Setup.Ready at hready
    cases hrole : role i with
    | attacker =>
      rw [hrole] at hready
      obtain ⟨victim, hmem, hpublisher, hseq, hline⟩ := line_attackerRun logs hacc ho hrole hready
      refine ⟨[victim], ?_⟩
      show Dials s role i (CounterNet.locals (line logs (attackerRun s i participants))) [victim]
      rw [hline]
      simpa [attackerToDone] using dials_attacker ho hmem hpublisher hseq
    | publisher | lurker =>
      rw [hrole] at hready
      obtain ⟨params, hparams, hrate, hle⟩ := hready
      obtain ⟨peers, hlen, hnodup, hmem, hline⟩ := line_honestRun logs hacc ho (role i) hparams hrate hle
      rw [hrole] at hline
      refine ⟨peers, ?_⟩
      rw [orCrash, runAs, hline]
      rw [locals_honest]
      exact dials_honest ho (by simp [hrole]) hparams hlen hnodup hmem (dialed_afterSpawn ..)
  · refine ⟨[], dials_of_early fun x hx => ?_⟩
    exact (stops_of_not_ready hacc hinfos hready).2.of_mem (LogNet.act_mem_map.mp (CounterNet.mem_locals.mp hx))

omit [DecidableEq ι] in
theorem locals_program (s : Setup ι) (role : ι → Role) (logs : Logs Key Entry) (infos : List InstanceInfo) (i : ι) :
    CounterNet.locals (program s role logs infos i) = CounterNet.locals (line logs (collected s i (role i) infos)) := by
  simp [program, locals_reads]

def dialedBy (st : LogNet.State ι Key Entry Effect) (i : ι) : List InstanceInfo := (st.did i).filterMap Effect.dialed?

/-- **Who dials whom.** An honest node dials other honest nodes, each once, and as many as its parameters say before its
network runs; whatever the order of the infos, all attackers dial the one publisher with number 1, and nobody dials an
attacker. -/
theorem attackers_dial_one_publisher (s : Setup ι) (hacc : s.Accepted role) (hnum : s.Numbered role)
    (st : LogNet.State ι Key Entry Effect) (h : LogNet.Reachable (main s) st) (i : ι) :
    (dialedBy st i).Nodup ∧
    (∀ peer ∈ dialedBy st i, ∃ j, j ≠ i ∧ peer = s.info j (role j) ∧ (role j).isHonest = true) ∧
    (∀ params, .act (.plain .spawn) ∈ st.trace i → TestParams.new (s.instanceParams i) = .ok params →
      (dialedBy st i).length = params.peersToConnect) ∧
    ∀ victim, role victim = .publisher → s.groupSeq victim = 1 → role i = .attacker →
      dialedBy st i <+: [s.info victim (role victim)] := by
  obtain ⟨p, ⟨logs, infos, hinfos, hp⟩, c, -, hexec, -⟩ := (becomes_program hacc).run h
  have hp : p = program s role logs infos := hp
  subst hp
  obtain ⟨peers, hdials⟩ := exists_dials logs hacc hinfos i
  have hdid : st.did i <+: CounterNet.locals (line logs (collected s i (role i) infos)) := by
    rw [← locals_program]
    exact LogNet.did_isPrefix hexec i
  have hfront : dialedBy st i <+: peers := by
    rw [← hdials.dialed]
    exact hdid.filterMap _
  refine ⟨hfront.sublist.nodup hdials.nodup, fun peer hpeer => ?_, fun params hspawn hparams => ?_, ?_⟩
  · obtain ⟨j, hji, heq, hhonest, -⟩ := hdials.targets peer (hfront.subset hpeer)
    exact ⟨j, hji, heq, hhonest⟩
  · have hspawn := LogNet.mem_did.mpr hspawn
    obtain ⟨⟨before, after, heq, hnot, hbefore⟩, hlen⟩ := hdials.spawned (hdid.subset hspawn)
    rw [← hlen params hparams]
    apply Nat.le_antisymm hfront.length_le
    -- what was done before the network was spawned includes all dials
    have hstart : before <+: st.did i := by
      rw [heq] at hdid
      refine (List.prefix_or_prefix_of_prefix (List.prefix_append _ _) hdid).resolve_right fun hle => ?_
      exact hnot (hle.subset hspawn)
    rw [← hbefore]
    exact (hstart.filterMap _).length_le
  · intro victim hpublisher hseq hrole
    refine hfront.trans ?_
    rcases hpeers : peers with _ | ⟨peer, others⟩
    · exact List.nil_prefix
    · have hone := hdials.attacker hrole
      obtain ⟨j, -, heq, -, hj⟩ := hdials.targets peer (by simp [hpeers])
      obtain ⟨hj, hjseq⟩ := hj hrole
      have hsame : j = victim := hnum j victim (hj.trans hpublisher.symm) (hjseq.trans hseq.symm)
      have hnil : others = [] := by simpa [hpeers] using hone
      subst hsame hnil
      rw [heq]

theorem attackers_dial_one_publisher_four : ∃ st, LogNet.Reachable (main Setup.four) st ∧
    dialedBy st 3 ≠ [] ∧ dialedBy st 3 <+: [infoOf 0] := by
  obtain ⟨st, names, hst, -, -, -, hdialed⟩ := exists_scheduled
  refine ⟨st, hst, fun hnil => List.cons_ne_nil _ _ (hdialed.symm.trans hnil), ?_⟩
  exact (attackers_dial_one_publisher Setup.four accepted_four (by unfold Setup.Numbered; decide +kernel) st hst 3).2.2.2 0 rfl
    rfl rfl

/-! ## The recorded scores -/

def scoreField (names : Names) (e : String × UInt64) : Option (String × Metrics.Field) :=
  names[e.1]?.map fun name => (name, .float e.2)

theorem foldlM_addScore_ok_iff {names : Names} : ∀ {scores : List (String × UInt64)} {query result : WriteQuery},
    scores.foldlM (addScore names) query = .ok result ↔ (∀ e ∈ scores, ∃ name, names[e.1]? = some name) ∧
      result = { query with fields := query.fields ++ scores.filterMap (scoreField names) }
  | [], query, result => by
    show Except.ok query = Except.ok result ↔ _
    simp only [List.filterMap_nil, List.append_nil, List.not_mem_nil, false_implies, implies_true, true_and, Except.ok.injEq]
    exact eq_comm
  | e :: scores, query, result => by
    rw [List.foldlM_cons, List.filterMap_cons, List.forall_mem_cons]
    cases hname : names[e.1]? with
    | none => simp [addScore, scoreField, hname, bind, Except.bind]
    | some name =>
      have hadd : addScore names query e = .ok (query.addField name (.float e.2)) := by simp only [addScore, hname]
      have hfield : scoreField names e = some (name, .float e.2) := by simp only [scoreField, hname, Option.map_some]
      rw [hadd, hfield]
      show scores.foldlM (addScore names) _ = .ok result ↔ _
      rw [foldlM_addScore_ok_iff]
      simp [WriteQuery.addField]

theorem recordPeerScores_ok_iff {r : Recorder} {names : Names} {scores : List (String × UInt64)} {q : Option WriteQuery} :
    recordPeerScores r names scores = .ok q ↔ (∀ e ∈ scores, ∃ name, names[e.1]? = some name) ∧
      q = if scores = [] then none else some { r.query "scores" with fields := scores.filterMap (scoreField names) } := by
  unfold recordPeerScores
  by_cases hnil : scores = []
  · simp [hnil, eq_comm]
  · rw [if_neg hnil, if_neg hnil]
    have hfields : (r.query "scores").fields = [] := rfl
    constructor
    · intro h
      obtain ⟨query, hquery, rfl⟩ := map_ok_iff.mp h
      obtain ⟨hknown, rfl⟩ := foldlM_addScore_ok_iff.mp hquery
      exact ⟨hknown, by rw [hfields, List.nil_append]⟩
    · rintro ⟨hknown, rfl⟩
      refine map_ok_iff.mpr ⟨_, foldlM_addScore_ok_iff.mpr ⟨hknown, rfl⟩, ?_⟩
      rw [hfields, List.nil_append]

section
variable {names : Names} {scores : List (String × UInt64)}

theorem length_scoreFields (h : ∀ e ∈ scores, ∃ name, names[e.1]? = some name) :
    (scores.filterMap (scoreField names)).length = scores.length := by
  rw [List.filterMap_length_eq_length]
  intro e he
  obtain ⟨name, hname⟩ := h e he
  simp [scoreField, hname]

theorem mem_scoreFields {name : String} {bits : UInt64} : (name, .float bits) ∈ scores.filterMap (scoreField names) ↔
    ∃ peer, (peer, bits) ∈ scores ∧ names[peer]? = some name := by
  rw [List.mem_filterMap]
  constructor
  · rintro ⟨⟨peer, bits'⟩, hmem, hfield⟩
    obtain ⟨name', hname, heq⟩ := Option.map_eq_some_iff.mp hfield
    cases heq
    exact ⟨peer, hmem, hname⟩
  · rintro ⟨peer, hmem, hname⟩
    exact ⟨_, hmem, Option.map_eq_some_iff.mpr ⟨_, hname, rfl⟩⟩

/-- Peers of different names have different fields. -/
theorem nodup_scoreFields (hinj : ∀ (p p' name : String), names[p]? = some name → names[p']? = some name → p = p')
    (h : (scores.map Prod.fst).Nodup) : ((scores.filterMap (scoreField names)).map Prod.fst).Nodup := by
  have hnames : (scores.filterMap (scoreField names)).map Prod.fst = (scores.map Prod.fst).filterMap fun p => names[p]? := by
    rw [List.map_filterMap, List.filterMap_map]
    congr 1
    funext e
    simp only [scoreField, Function.comp_apply, Option.map_map]
    exact Option.map_id'
  rw [hnames]
  exact h.filterMap hinj

end

/-- A network is built with no other names than these. -/
def Effect.BuiltWith (names : Names) (x : Effect) : Prop := ∀ names', x = .newNetwork names' → names' = names

omit [Fintype ι] [DecidableEq ι] in
theorem does_dialEach {P : Effect → Prop} {rest : Process Effect} (hdial : ∀ peer, P (.plain (.dial peer)))
    (hcrash : ∀ f, P (.crash f)) (h : rest.Does P) : ∀ peers, (dialEach s i rest peers).Does P
  | [] => h
  | peer :: peers => by
    rw [dialEach]
    refine ⟨hdial peer, ?_⟩
    split
    · exact ⟨hcrash _, trivial⟩
    · exact does_dialEach hdial hcrash h peers

omit [DecidableEq ι] in
theorem built_honestRun (i : ι) (r : Role) (participants : List InstanceInfo) :
    (honestRun s i r participants).Does (Effect.BuiltWith (namesOf participants)) := by
  have hcrash : ∀ f, Effect.BuiltWith (namesOf participants) (.crash f) := fun _ _ => nofun
  refine LogNet.does_acts.mpr ⟨by simp [Effect.BuiltWith], ?_⟩
  refine does_orCrash (fun f _ => hcrash f) fun params _ => ?_
  refine does_orCrash (fun f _ => hcrash f) fun period _ => ?_
  refine LogNet.does_acts.mpr ⟨by simp [Effect.BuiltWith], ?_⟩
  refine does_orCrash (fun f _ => hcrash f) fun peers _ => ?_
  refine does_dialEach (fun _ _ => nofun) hcrash (LogNet.does_acts.mpr ⟨by simp [Effect.BuiltWith], ?_⟩) peers
  refine does_signalAndWait.mpr (LogNet.does_acts.mpr ⟨by simp [Effect.BuiltWith], ?_⟩)
  refine does_signalAndWait.mpr (does_orCrash (fun f _ => hcrash f) fun total _ => ?_)
  refine LogNet.does_acts.mpr ⟨?_, does_signalAndWait.mpr (does_orCrash (fun f _ => hcrash f) fun queries _ => ?_)⟩
  · split <;> simp [Effect.BuiltWith]
  · exact LogNet.does_acts.mpr ⟨by simp [Effect.BuiltWith], trivial⟩

omit [DecidableEq ι] in
theorem built_attackerRun (names : Names) (i : ι) (participants : List InstanceInfo) :
    (attackerRun s i participants).Does (Effect.BuiltWith names) := by
  have hcrash : ∀ f, Effect.BuiltWith names (.crash f) := fun _ _ => nofun
  refine LogNet.does_acts.mpr ⟨by simp [Effect.BuiltWith], does_signalAndWait.mpr ?_⟩
  refine does_orCrash (fun f _ => hcrash f) fun victim _ => ?_
  refine does_dialEach (fun _ _ => nofun) hcrash ?_ [victim]
  exact does_signalAndWait.mpr (does_signalAndWait.mpr (LogNet.does_acts.mpr ⟨by simp [Effect.BuiltWith], trivial⟩))

theorem exists_others_of_newNetwork (hacc : s.Accepted role) (hinfos : infos.Perm (publishedInfos s role)) {names : Names}
    (h : .act (.newNetwork names) ∈ line logs (collected s i (role i) infos)) :
    ∃ participants, Others s role i participants ∧ names = namesOf participants := by
  obtain ⟨participants, hself, ho⟩ := exists_participants hacc hinfos i
  refine ⟨participants, ho, ?_⟩
  have hbuilt : (runAs s i (role i) participants).Does (Effect.BuiltWith (namesOf participants)) := by
    cases role i with
    | publisher | lurker => exact built_honestRun i _ participants
    | attacker => exact built_attackerRun _ i participants
  rw [collected, hself] at h
  exact hbuilt.of_mem (LogNet.act_mem_map.mp h) names rfl

section
variable {scores : List (String × UInt64)}

/-- The peers that have a name are the other instances. -/
theorem Others.exists_name_iff (hacc : s.Accepted role) (ho : Others s role i participants) (p : String) :
    (∃ name, (namesOf participants)[p]? = some name) ↔ ∃ j, j ≠ i ∧ p = s.peerId j := by
  simp only [ho.getElem?_namesOf hacc]
  constructor
  · rintro ⟨name, j, hj, hp, -⟩
    exact ⟨j, hj, hp⟩
  · rintro ⟨j, hj, hp⟩
    exact ⟨_, j, hj, hp, rfl⟩

theorem Others.name_inj (hacc : s.Accepted role) (hnum : s.Numbered role) (ho : Others s role i participants)
    (p p' name : String) (hp : (namesOf participants)[p]? = some name) (hp' : (namesOf participants)[p']? = some name) :
    p = p' := by
  obtain ⟨j, -, rfl, rfl⟩ := (ho.getElem?_namesOf hacc _ _).mp hp
  obtain ⟨k, -, rfl, hname⟩ := (ho.getElem?_namesOf hacc _ _).mp hp'
  obtain ⟨hrole, hseq⟩ := name_injective hname
  rw [hnum j k hrole hseq]

theorem Others.mem_scoreFields (hacc : s.Accepted role) (ho : Others s role i participants) {name : String} {bits : UInt64} :
    (name, .float bits) ∈ scores.filterMap (scoreField (namesOf participants)) ↔
      ∃ j, j ≠ i ∧ name = (s.info j (role j)).name ∧ (s.peerId j, bits) ∈ scores := by
  rw [CensoringRun.mem_scoreFields]
  constructor
  · rintro ⟨peer, hmem, hname⟩
    obtain ⟨j, hj, rfl, rfl⟩ := (ho.getElem?_namesOf hacc _ _).mp hname
    exact ⟨j, hj, rfl, hmem⟩
  · rintro ⟨j, hj, rfl, hmem⟩
    exact ⟨_, hmem, (ho.getElem?_namesOf hacc _ _).mpr ⟨j, hj, rfl, rfl⟩⟩

end

/-- **Scores under names.** A network fails on its scores exactly if one of the peers is not in the test. Otherwise it
records a point unless there are no scores, with one field for each of them, under the name of the instance that it is
about; scores of different peers never share a field. -/
theorem scores_recorded_by_name (s : Setup ι) (hacc : s.Accepted role) (hnum : s.Numbered role)
    (st : LogNet.State ι Key Entry Effect) (h : LogNet.Reachable (main s) st) (i : ι) (names : Names)
    (hnew : .act (.newNetwork names) ∈ st.trace i) (r : Recorder) (scores : List (String × UInt64)) :
    ((∃ q, recordPeerScores r names scores = .ok q) ↔ ∀ e ∈ scores, ∃ j, j ≠ i ∧ e.1 = s.peerId j) ∧
    ∀ q, recordPeerScores r names scores = .ok q → (q = none ↔ scores = []) ∧ ∀ query, q = some query →
      query = { r.query "scores" with fields := scores.filterMap (scoreField names) } ∧
      query.fields.length = scores.length ∧
      ((scores.map Prod.fst).Nodup → (query.fields.map Prod.fst).Nodup) ∧
      ∀ name bits, (name, .float bits) ∈ query.fields ↔
        ∃ j, j ≠ i ∧ name = (s.info j (role j)).name ∧ (s.peerId j, bits) ∈ scores := by
  obtain ⟨p, ⟨logs, infos, hinfos, hp⟩, c, -, hexec, -⟩ := (becomes_program hacc).run h
  have hmem : .act (.newNetwork names) ∈ line logs (collected s i (role i) infos) := by
    have hmem := LogNet.act_mem_of_trace hexec hnew
    rw [hp] at hmem
    simpa using hmem
  obtain ⟨participants, ho, rfl⟩ := exists_others_of_newNetwork hacc hinfos hmem
  refine ⟨?_, fun q hq => ?_⟩
  · simp only [recordPeerScores_ok_iff, ← ho.exists_name_iff hacc]
    exact ⟨fun ⟨_, hq⟩ => hq.1, fun hall => ⟨_, hall, rfl⟩⟩
  obtain ⟨hall, rfl⟩ := recordPeerScores_ok_iff.mp hq
  refine ⟨by simp, fun query hquery => ?_⟩
  split at hquery
  · cases hquery
  cases hquery
  refine ⟨rfl, length_scoreFields hall, fun hnodup => ?_, fun name bits => ho.mem_scoreFields hacc⟩
  exact nodup_scoreFields (ho.name_inj hacc hnum) hnodup

theorem scores_recorded_by_name_four : ∃ st names, LogNet.Reachable (main Setup.four) st ∧
    .act (.newNetwork names) ∈ st.trace 0 ∧
    ∃ query, recordPeerScores ⟨0, "peer_0", "Publisher1", "run"⟩ names [("peer_1", 0), ("peer_3", 1)] = .ok (some query) ∧
      query.fields.length = 2 ∧ ("Publisher2", .float 0) ∈ query.fields ∧ ("Attacker1", .float 1) ∈ query.fields := by
  obtain ⟨st, names, hst, -, hnew, -⟩ := exists_scheduled
  have hnum : Setup.four.Numbered roleOf := by
    unfold Setup.Numbered
    decide +kernel
  obtain ⟨hok, hpoint⟩ := scores_recorded_by_name Setup.four accepted_four hnum st hst 0 names hnew
    ⟨0, "peer_0", "Publisher1", "run"⟩ [("peer_1", 0), ("peer_3", 1)]
  obtain ⟨q, hq⟩ := hok.mpr fun e he => by
    simp only [List.mem_cons, List.not_mem_nil, or_false] at he
    rcases he with rfl | rfl
    · exact ⟨1, by decide, by decide +kernel⟩
    · exact ⟨3, by decide, by decide +kernel⟩
  obtain ⟨hnone, hsome⟩ := hpoint q hq
  cases q with
  | none => cases hnone.mp rfl
  | some query =>
    obtain ⟨-, hlength, -, hfields⟩ := hsome query rfl
    refine ⟨st, names, hst, hnew, query, hq, hlength, ?_, ?_⟩
    · exact (hfields _ _).mpr ⟨1, by decide, by decide +kernel, by decide +kernel⟩
    · exact (hfields _ _).mpr ⟨3, by decide, by decide +kernel, by decide +kernel⟩

end

end GossipPlans.CensoringRun
