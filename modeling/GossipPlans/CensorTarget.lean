import GossipPlans.Maps
import GossipPlans.ScoringPhases

/-!
# scoring: the target of the attackers

Each attacker collects the infos of the beacon nodes and picks the first one, in the order of its stream,
with the largest number of validators. Among several largest ones the order decides.
-/

namespace GossipPlans.Scoring

structure BeaconNodeInfo where
  peerId : String
  multiaddr : String
  validators : List Nat
deriving DecidableEq, Repr

abbrev BeaconNodes := Std.TreeMap Nat BeaconNodeInfo

structure Collected where
  numVals : Nat
  targetNodeId : Nat
  beaconNodes : BeaconNodes

def Collected.new : Collected := ⟨0, 0, ∅⟩

def Collected.step (c : Collected) (item : Nat × BeaconNodeInfo) : Collected :=
  let c := if item.2.validators.length > c.numVals then
      { c with numVals := item.2.validators.length, targetNodeId := item.1 }
    else c
  { c with beaconNodes := c.beaconNodes.insert item.1 item.2 }

def collectLoop : Nat → List (Nat × BeaconNodeInfo) → Collected → Run Collected
  | 0, _, c => .ok c
  | _ + 1, [], _ => .error (.panic .unreachable)
  | n + 1, item :: stream, c => collectLoop n stream (c.step item)

def collectBeaconNodeInfo (p : RunParameters) (stream : List (Nat × BeaconNodeInfo)) : Run (Nat × BeaconNodes) := do
  let c ← collectLoop p.otherGroup stream .new
  .ok (c.targetNodeId, c.beaconNodes)

/-- What an attacker does with its target: the peer id it records as the victim, the one it draws an edge
to, and the address it dials. -/
structure Attack where
  victim : Option String
  edge : String
  dialed : String
deriving DecidableEq, Repr

/-- `record_victim_id` writes for the attacker with group sequence number 1 only. -/
def attack (groupSeq : Nat) (p : RunParameters) (stream : List (Nat × BeaconNodeInfo)) : Run Attack := do
  let (targetNodeId, beaconNodes) ← collectBeaconNodeInfo p stream
  match beaconNodes[targetNodeId]? with
  | none => .error (.panic (.expect "The target_node_id should be in the beacon_nodes."))
  | some target =>
    .ok { victim := if groupSeq = 1 then some target.peerId else none, edge := target.peerId, dialed := target.multiaddr }

/-- In any two orders the infos lead to one target, and the recorded victim is the node that is attacked. -/
def SingleTarget (p : RunParameters) (infos : List (Nat × BeaconNodeInfo)) : Prop :=
  ∀ stream stream', stream.Perm infos → stream'.Perm infos →
    (collectBeaconNodeInfo p stream).map Prod.fst = (collectBeaconNodeInfo p stream').map Prod.fst ∧
    ∀ groupSeq a a', attack 1 p stream = .ok a → attack groupSeq p stream' = .ok a' →
      a.dialed = a'.dialed ∧ a.victim = some a'.edge

/-! ## The loop -/

/-- A node with validators, and no fewer than any other. -/
def Largest (infos : List (Nat × BeaconNodeInfo)) (a : Nat × BeaconNodeInfo) : Prop :=
  a ∈ infos ∧ 0 < a.2.validators.length ∧ ∀ b ∈ infos, b.2.validators.length ≤ a.2.validators.length

/-- The loop invariant. -/
structure Chosen (seen : List (Nat × BeaconNodeInfo)) (c : Collected) : Prop where
  beaconNodes : c.beaconNodes = seen.foldl (fun m item => m.insert item.1 item.2) ∅
  target : (c.numVals = 0 ∧ c.targetNodeId = 0 ∧ ∀ b ∈ seen, b.2.validators.length = 0) ∨
    ∃ a, Largest seen a ∧ c.numVals = a.2.validators.length ∧ c.targetNodeId = a.1

theorem chosen_new : Chosen [] .new := ⟨rfl, Or.inl ⟨rfl, rfl, by simp⟩⟩

theorem Chosen.step {seen : List (Nat × BeaconNodeInfo)} {c : Collected} (h : Chosen seen c)
    (item : Nat × BeaconNodeInfo) : Chosen (seen ++ [item]) (c.step item) := by
  have hmap : (c.step item).beaconNodes = c.beaconNodes.insert item.1 item.2 := by
    unfold Collected.step
    split <;> rfl
  refine ⟨by rw [hmap, h.beaconNodes, List.foldl_append]; rfl, ?_⟩
  by_cases hgt : item.2.validators.length > c.numVals
  · have hle : ∀ b ∈ seen, b.2.validators.length ≤ c.numVals := by
      intro b hb
      rcases h.target with ⟨-, -, hnone⟩ | ⟨a, ha, hn, -⟩
      · rw [hnone b hb]; exact Nat.zero_le _
      · exact hn ▸ ha.2.2 b hb
    refine Or.inr ⟨item, ⟨by simp, by omega, fun b hb => ?_⟩, ?_, ?_⟩
    · rcases List.mem_append.mp hb with hb | hb
      · exact Nat.le_trans (hle b hb) hgt.le
      · rw [List.mem_singleton.mp hb]
    · simp [Collected.step, hgt]
    · simp [Collected.step, hgt]
  · have hsame : (c.step item).numVals = c.numVals ∧ (c.step item).targetNodeId = c.targetNodeId := by
      simp [Collected.step, hgt]
    rw [hsame.1, hsame.2]
    rcases h.target with ⟨hn, ht, hnone⟩ | ⟨a, ha, hn, ht⟩
    · refine Or.inl ⟨hn, ht, fun b hb => ?_⟩
      rcases List.mem_append.mp hb with hb | hb
      · exact hnone b hb
      · rw [List.mem_singleton.mp hb]
        omega
    · refine Or.inr ⟨a, ⟨List.mem_append_left _ ha.1, ha.2.1, fun b hb => ?_⟩, hn, ht⟩
      rcases List.mem_append.mp hb with hb | hb
      · exact ha.2.2 b hb
      · rw [List.mem_singleton.mp hb]
        omega

theorem Chosen.foldl : ∀ {stream seen : List (Nat × BeaconNodeInfo)} {c : Collected}, Chosen seen c →
    Chosen (seen ++ stream) (stream.foldl Collected.step c)
  | [], _, _, h => by rwa [List.append_nil]
  | item :: stream, seen, c, h => by
    rw [List.foldl_cons, List.append_cons]
    exact (h.step item).foldl

theorem collectLoop_eq : ∀ (stream : List (Nat × BeaconNodeInfo)) (c : Collected),
    collectLoop stream.length stream c = .ok (stream.foldl Collected.step c)
  | [], _ => rfl
  | item :: stream, c => collectLoop_eq stream (c.step item)

theorem Largest.perm {infos infos' : List (Nat × BeaconNodeInfo)} {a : Nat × BeaconNodeInfo} (h : Largest infos a)
    (hp : infos.Perm infos') : Largest infos' a :=
  ⟨hp.mem_iff.mp h.1, h.2.1, fun b hb => h.2.2 b (hp.mem_iff.mpr hb)⟩

/-! ## When the order does not matter -/

section
variable {p : RunParameters} {infos : List (Nat × BeaconNodeInfo)}

theorem collect_eq (hn : p.otherGroup = infos.length) {stream : List (Nat × BeaconNodeInfo)} (hp : stream.Perm infos) :
    ∃ c, Chosen stream c ∧ collectBeaconNodeInfo p stream = .ok (c.targetNodeId, c.beaconNodes) := by
  refine ⟨_, chosen_new.foldl, ?_⟩
  rw [collectBeaconNodeInfo, hn, ← hp.length_eq, collectLoop_eq]; rfl

theorem getElem?_of_chosen {stream : List (Nat × BeaconNodeInfo)} {c : Collected} (h : Chosen stream c)
    (hids : (stream.map Prod.fst).Nodup) {k : Nat} {info : BeaconNodeInfo} :
    c.beaconNodes[k]? = some info ↔ (k, info) ∈ stream := by
  rw [h.beaconNodes, OrderedMap.getElem?_foldl_insert _ hids]
  simp

theorem attack_eq (hn : p.otherGroup = infos.length) (hids : (infos.map Prod.fst).Nodup)
    {stream : List (Nat × BeaconNodeInfo)} (hp : stream.Perm infos) {groupSeq : Nat} {a : Attack}
    (ha : attack groupSeq p stream = .ok a) : ∃ id info, (collectBeaconNodeInfo p stream).map Prod.fst = .ok id ∧
      (id, info) ∈ infos ∧ a = ⟨if groupSeq = 1 then some info.peerId else none, info.peerId, info.multiaddr⟩ := by
  obtain ⟨c, hc, hok⟩ := collect_eq hn hp
  rw [attack, hok] at ha
  simp only [bind, Except.bind] at ha
  split at ha
  · cases ha
  · rename_i info hinfo
    refine ⟨c.targetNodeId, info, by rw [hok]; rfl, ?_, (Except.ok.inj ha).symm⟩
    exact hp.mem_iff.mp ((getElem?_of_chosen hc ((hp.map _).nodup_iff.mpr hids)).mp hinfo)

theorem unique_of_nodup (hids : (infos.map Prod.fst).Nodup) {id : Nat} {info info' : BeaconNodeInfo}
    (h : (id, info) ∈ infos) (h' : (id, info') ∈ infos) : info = info' :=
  congrArg Prod.snd (List.inj_on_of_nodup_map hids h h' rfl)

theorem singleTarget_of_unique (hn : p.otherGroup = infos.length) (hids : (infos.map Prod.fst).Nodup)
    (hu : ∀ a b, Largest infos a → Largest infos b → a.1 = b.1) : SingleTarget p infos := by
  intro stream stream' hp hp'
  obtain ⟨c, hc, hok⟩ := collect_eq hn hp
  obtain ⟨c', hc', hok'⟩ := collect_eq hn hp'
  have htarget : c.targetNodeId = c'.targetNodeId := by
    rcases hc.target with ⟨-, ht, hnone⟩ | ⟨a, ha, -, ht⟩
    · rcases hc'.target with ⟨-, ht', -⟩ | ⟨a', ha', -, -⟩
      · rw [ht, ht']
      · have hzero := hnone a' (hp.mem_iff.mpr (hp'.mem_iff.mp ha'.1))
        exact absurd ha'.2.1 (by omega)
    · rcases hc'.target with ⟨-, -, hnone⟩ | ⟨a', ha', -, ht'⟩
      · have hzero := hnone a (hp'.mem_iff.mpr (hp.mem_iff.mp ha.1))
        exact absurd ha.2.1 (by omega)
      · rw [ht, ht', hu a a' (ha.perm hp) (ha'.perm hp')]
  have hsame : (collectBeaconNodeInfo p stream).map Prod.fst = (collectBeaconNodeInfo p stream').map Prod.fst := by
    rw [hok, hok']
    exact congrArg Except.ok htarget
  refine ⟨hsame, fun groupSeq a a' ha ha' => ?_⟩
  obtain ⟨id, info, hid, hmem, rfl⟩ := attack_eq hn hids hp ha
  obtain ⟨id', info', hid', hmem', rfl⟩ := attack_eq hn hids hp' ha'
  rw [hid, hid'] at hsame
  cases hsame
  rw [unique_of_nodup hids hmem hmem']
  exact ⟨rfl, rfl⟩

theorem foldl_target : ∀ {stream : List (Nat × BeaconNodeInfo)} {c : Collected},
    (∀ b ∈ stream, b.2.validators.length ≤ c.numVals) → (stream.foldl Collected.step c).targetNodeId = c.targetNodeId
  | [], _, _ => rfl
  | item :: stream, c, h => by
    obtain ⟨hitem, h⟩ := List.forall_mem_cons.mp h
    have hsame : (c.step item).numVals = c.numVals ∧ (c.step item).targetNodeId = c.targetNodeId := by
      simp [Collected.step, Nat.not_lt.mpr hitem]
    rw [List.foldl_cons, foldl_target (by rwa [hsame.1]), hsame.2]

theorem collect_first (hn : p.otherGroup = infos.length) {a : Nat × BeaconNodeInfo} (ha : Largest infos a) :
    ∃ stream, stream.Perm infos ∧ (collectBeaconNodeInfo p stream).map Prod.fst = .ok a.1 := by
  obtain ⟨s, t, hst⟩ := List.append_of_mem ha.1
  have hp : (a :: (s ++ t)).Perm infos := by
    rw [hst]
    exact List.perm_middle.symm
  refine ⟨a :: (s ++ t), hp, ?_⟩
  rw [collectBeaconNodeInfo, hn, ← hp.length_eq, collectLoop_eq]
  have hstep : (Collected.new.step a).numVals = a.2.validators.length ∧ (Collected.new.step a).targetNodeId = a.1 := by
    simp [Collected.step, Collected.new, ha.2.1]
  have htarget : ((s ++ t).foldl Collected.step (Collected.new.step a)).targetNodeId = a.1 := by
    refine (foldl_target fun b hb => ?_).trans hstep.2
    rw [hstep.1]
    exact ha.2.2 b (hp.mem_iff.mp (List.mem_cons_of_mem a hb))
  exact congrArg Except.ok htarget

/-- **When all attackers have one target.** Exactly when no two nodes share the largest number of validators,
nodes without validators aside. -/
theorem singleTarget_iff (hn : p.otherGroup = infos.length) (hids : (infos.map Prod.fst).Nodup) :
    SingleTarget p infos ↔ ∀ a b, Largest infos a → Largest infos b → a.1 = b.1 := by
  refine ⟨fun h a b ha hb => ?_, singleTarget_of_unique hn hids⟩
  obtain ⟨stream, hp, hstream⟩ := collect_first hn ha
  obtain ⟨stream', hp', hstream'⟩ := collect_first hn hb
  have hsame := (h stream stream' hp hp').1
  rw [hstream, hstream'] at hsame
  exact Except.ok.inj hsame

/-! ## The infos of the beacon nodes -/

/-- `client.group_seq() as usize - 1` -/
def nodeIdOf (groupSeq : Nat) : Nat := groupSeq - 1

/-- What the beacon nodes publish, each once. -/
def published (n : Nat) (info : Nat → BeaconNodeInfo) : List (Nat × BeaconNodeInfo) :=
  (List.range' 1 n).map fun groupSeq => (nodeIdOf groupSeq, info (nodeIdOf groupSeq))

theorem mem_published {n : Nat} {info : Nat → BeaconNodeInfo} {k : Nat} {i : BeaconNodeInfo} :
    (k, i) ∈ published n info ↔ k < n ∧ i = info k := by
  simp only [published, List.mem_map, List.mem_range'_1, nodeIdOf, Prod.mk.injEq]
  constructor
  · intro h
    obtain ⟨seq, hseq, rfl, rfl⟩ := h
    exact ⟨by omega, rfl⟩
  · intro h
    obtain ⟨hk, rfl⟩ := h
    exact ⟨k + 1, by omega, rfl, rfl⟩

theorem nodup_published_ids (n : Nat) (info : Nat → BeaconNodeInfo) : ((published n info).map Prod.fst).Nodup := by
  rw [published, List.map_map]
  apply List.Nodup.map_on _ List.nodup_range'
  intro a ha b hb hab
  have ha := List.mem_range'_1.mp ha
  have hb := List.mem_range'_1.mp hb
  simp only [Function.comp_apply, nodeIdOf] at hab
  omega

/-- The default target is the id of a beacon node, so it is right as long as no node with validators was seen. -/
theorem Chosen.target_le {n : Nat} (hn : 1 ≤ n) {info : Nat → BeaconNodeInfo} {stream : List (Nat × BeaconNodeInfo)}
    (hp : stream.Perm (published n info)) {c : Collected} (h : Chosen stream c) :
    c.targetNodeId < n ∧ ∀ k < n, (info k).validators.length ≤ (info c.targetNodeId).validators.length := by
  have hmem : ∀ k < n, (k, info k) ∈ stream := fun k hk => hp.mem_iff.mpr (mem_published.mpr ⟨hk, rfl⟩)
  rcases h.target with ⟨-, ht, hnone⟩ | ⟨a, ha, -, ht⟩
  · rw [ht]
    refine ⟨hn, fun k hk => ?_⟩
    rw [hnone _ (hmem k hk)]
    exact Nat.zero_le _
  · obtain ⟨hlt, hinfo⟩ := mem_published.mp (hp.mem_iff.mp ha.1)
    rw [ht, ← hinfo]
    exact ⟨hlt, fun k hk => ha.2.2 _ (hmem k hk)⟩

/-- **The target is found.** Whatever the order in which the infos of `n ≥ 1` beacon nodes arrive, the map holds
each of them, the target is one with the largest number of validators, and no attacker fails on it. -/
theorem target_found {n : Nat} (hn : 1 ≤ n) (hgroup : p.otherGroup = n) (info : Nat → BeaconNodeInfo)
    (stream : List (Nat × BeaconNodeInfo)) (hp : stream.Perm (published n info)) :
    ∃ target beaconNodes, collectBeaconNodeInfo p stream = .ok (target, beaconNodes) ∧
      (∀ k i, beaconNodes[k]? = some i ↔ k < n ∧ i = info k) ∧ target < n ∧
      (∀ k < n, (info k).validators.length ≤ (info target).validators.length) ∧
      ∀ groupSeq, attack groupSeq p stream =
        .ok ⟨if groupSeq = 1 then some (info target).peerId else none, (info target).peerId, (info target).multiaddr⟩ := by
  obtain ⟨c, hc, hok⟩ := collect_eq (p := p) (by simp [published, hgroup]) hp
  have hids : (stream.map Prod.fst).Nodup := (hp.map _).nodup_iff.mpr (nodup_published_ids n info)
  have hget : ∀ k i, c.beaconNodes[k]? = some i ↔ k < n ∧ i = info k := fun k i =>
    (getElem?_of_chosen hc hids).trans (hp.mem_iff.trans mem_published)
  obtain ⟨hlt, hmax⟩ := hc.target_le hn hp
  refine ⟨c.targetNodeId, c.beaconNodes, hok, hget, hlt, hmax, fun groupSeq => ?_⟩
  have htarget := (hget c.targetNodeId (info c.targetNodeId)).mpr ⟨hlt, rfl⟩
  rw [attack, hok]
  simp only [bind, Except.bind]
  rw [htarget]

end

def nodeInfo (nodeId : Nat) (validators : List Nat) : Nat × BeaconNodeInfo :=
  (nodeId, ⟨s!"peer_{nodeId}", s!"/ip4/16.0.0.{nodeId}/tcp/9000", validators⟩)

/-- Nobody has validators, and node 1 is heard first: the target is node 0. -/
theorem target_found_two : ∃ target beaconNodes, collectBeaconNodeInfo (attackerParameters 2 3)
    [nodeInfo 1 [], nodeInfo 0 []] = .ok (target, beaconNodes) ∧ target < 2 := by
  obtain ⟨target, nodes, hok, -, hlt, -⟩ := target_found (p := attackerParameters 2 3) (n := 2) (by decide) (by decide)
    (fun k => (nodeInfo k []).2) [nodeInfo 1 [], nodeInfo 0 []] (.swap ..)
  exact ⟨target, nodes, hok, hlt⟩

theorem singleTarget_two : SingleTarget (attackerParameters 2 3) [nodeInfo 0 [0, 2], nodeInfo 1 [1]] := by
  refine (singleTarget_iff (by decide) (by decide)).mpr fun a b ha hb => ?_
  have hzero : ∀ c, Largest [nodeInfo 0 [0, 2], nodeInfo 1 [1]] c → c.1 = 0 := by
    intro c hc
    rcases List.mem_pair.mp hc.1 with rfl | rfl
    · rfl
    · exact absurd (hc.2.2 _ (List.mem_cons_self ..)) (by decide)
  rw [hzero a ha, hzero b hb]

theorem two_targets : ¬ ∀ (p : RunParameters) (infos : List (Nat × BeaconNodeInfo)), p.otherGroup = infos.length →
    (infos.map Prod.fst).Nodup → SingleTarget p infos := by
  intro h
  have hsame := (h (attackerParameters 2 3) [nodeInfo 0 [0], nodeInfo 1 [1]] (by decide) (by decide)
    [nodeInfo 0 [0], nodeInfo 1 [1]] [nodeInfo 1 [1], nodeInfo 0 [0]] (.refl _) (.swap ..)).1
  exact absurd hsame (by decide)

end GossipPlans.Scoring
