import GossipPlans.EthNetworkSound
import GossipPlans.FirstError
import GossipPlans.MessageIds
import GossipPlans.ScoringPhases

/-!
# scoring: the parameters

Every parameter is looked up and parsed by `get_param`, so each parser of the plan fails with an error about the
first of its keys that is missing or malformed. `build_peer_score_params` enters the parameters of each kind of
topic under the hashes of its subnets.
-/

namespace GossipPlans.Scoring

open BeaconNode (Topic attestationSubnets syncSubnets slotsPerEpoch)
open FirstError

def slot : Nat := 12

/-! ## `get_param` -/

def missing (k : String) : String := s!"{k} is not specified."
def malformed (k : String) : String := s!"Failed to parse instance_param. key: {k}"

section
variable {T : Type}

def getParam (parse : String → Option T) (k : String) (instanceParams : InstanceParams) : Run T :=
  match instanceParams.lookup k with
  | none => .error (.err (missing k))
  | some v => match parse v with
    | none => .error (.err (malformed k))
    | some t => .ok t

def parseU64 (v : String) : Option Nat := (parseUint v).toOption

def parseBool (v : String) : Option Bool :=
  if v = "true" then some true else if v = "false" then some false else none

/-- What reading a key checks. -/
def check (parse : String → Option T) (instanceParams : InstanceParams) (k : String) : Run Unit :=
  (getParam parse k instanceParams).map fun _ => ()

variable {parse : String → Option T} {instanceParams : InstanceParams} {k : String}

theorem reports_getParam : Reports (getParam parse k instanceParams) [check parse instanceParams k] := reports_self _

end

/-! ## `parse_topology_params` and `NetworkParams::new` -/

def parseTopologyParams (b : Build) (totalNodes : Nat) (instanceParams : InstanceParams) : Run (Nat × Params) := do
  let seed ← getParam parseU64 "seed" instanceParams
  let noValPercentage ← getParam parseU64 "no_val_percentage" instanceParams
  let noValPercentage := min noValPercentage 100
  let totalValidators ← getParam parseU64 "total_validators" instanceParams
  let minPeersPerNode ← getParam parseU64 "min_peers_per_node" instanceParams
  let maxPeersPerNodeInclusive ← getParam parseU64 "max_peers_per_node_inclusive" instanceParams
  let scaled ← usizeMul b totalNodes noValPercentage
  let totalNodesWithoutVals := scaled / 100
  let totalNodesWithVals ← usizeSub b totalNodes totalNodesWithoutVals
  let run ← getParam parseU64 "run" instanceParams
  let params ← Params.new b seed totalValidators totalNodesWithVals totalNodesWithoutVals minPeersPerNode
    maxPeersPerNodeInclusive
  .ok (run, params)

/-- The nodes are the instances of the group. -/
theorem parseTopologyParams_totalNodes {b : Build} {n run : Nat} {instanceParams : InstanceParams} {params : Params}
    (hn : n < usizeSize) (h : parseTopologyParams b n instanceParams = .ok (run, params)) : params.totalNodes = n := by
  simp only [parseTopologyParams, bind_ok_iff] at h
  obtain ⟨seed, -, pct, -, tv, -, lo, -, hi, -, scaled, hscaled, wv, hwv, _, -, p, hp, hok⟩ := h
  cases hok
  have hle : scaled / 100 ≤ n := by
    have hmul : n * min pct 100 ≤ n * 100 := Nat.mul_le_mul_left n (Nat.min_le_right _ _)
    unfold usizeMul overflow at hscaled
    split at hscaled
    · cases hscaled
      omega
    · cases b with
      | debug => cases hscaled
      | release =>
        cases hscaled
        have := Nat.mod_le (n * min pct 100) usizeSize
        omega
  rw [usizeSub_ok hle] at hwv
  cases hwv
  rw [Params.new_totalNodes hp (by omega), Nat.sub_add_cancel hle]

structure NetworkParams where
  latency : Nat
  bandwidth : Nat
deriving DecidableEq, Repr

/-- `Uniform::new(low, high)` panics on an empty range, and `sample low high` is what is drawn from it. -/
def sampleUniform (sample : Nat → Nat → Nat) (low high : Nat) : Run Nat :=
  if low < high then .ok (sample low high)
  else .error (.panic (.expect "Uniform::new called with `low >= high`"))

def drawLatency (sample : Nat → Nat → Nat) (latency latencyMax : Nat) : Run Nat :=
  if latency < latencyMax then sampleUniform sample latency latencyMax else .ok latency

def NetworkParams.new (sample : Nat → Nat → Nat) (instanceParams : InstanceParams) : Run NetworkParams := do
  let latency ← getParam parseU64 "latency" instanceParams
  let latencyMax ← getParam parseU64 "latency_max" instanceParams
  let latency ← drawLatency sample latency latencyMax
  let bandwidth ← getParam parseU64 "bandwidth" instanceParams
  .ok ⟨latency, bandwidth⟩

/-! ## Peer scores: a 64-bit float is given by its bits, a duration by its seconds -/

structure PeerScoreThresholds where
  gossipThreshold : UInt64
  publishThreshold : UInt64
  graylistThreshold : UInt64
  acceptPxThreshold : UInt64
  opportunisticGraftThreshold : UInt64
deriving DecidableEq, Repr

structure TopicScoreParams where
  topicWeight : UInt64
  timeInMeshWeight : UInt64
  timeInMeshQuantum : Nat
  timeInMeshCap : UInt64
  firstMessageDeliveriesWeight : UInt64
  firstMessageDeliveriesDecay : UInt64
  firstMessageDeliveriesCap : UInt64
  meshMessageDeliveriesWeight : UInt64
  meshMessageDeliveriesDecay : UInt64
  meshMessageDeliveriesThreshold : UInt64
  meshMessageDeliveriesCap : UInt64
  meshMessageDeliveriesActivation : Nat
  meshMessageDeliveriesWindow : Nat
  meshFailurePenaltyWeight : UInt64
  meshFailurePenaltyDecay : UInt64
  invalidMessageDeliveriesWeight : UInt64
  invalidMessageDeliveriesDecay : UInt64
deriving DecidableEq, Repr

/-- The fields that the plan sets; the others are those of `PeerScoreParams::default()`. -/
structure PeerScoreParams where
  topics : Std.TreeMap String TopicScoreParams
  topicScoreCap : UInt64
  decayInterval : Nat
  decayToZero : UInt64
  retainScore : Nat
  appSpecificWeight : UInt64
  ipColocationFactorWeight : UInt64
  ipColocationFactorThreshold : UInt64
  behaviourPenaltyWeight : UInt64
  behaviourPenaltyThreshold : UInt64
  behaviourPenaltyDecay : UInt64

section
variable (b : Build) (parseF64 : String → Option UInt64)

def parsePeerScoreThresholds (instanceParams : InstanceParams) : Run PeerScoreThresholds := do
  let gossipThreshold ← getParam parseF64 "gossip_threshold" instanceParams
  let publishThreshold ← getParam parseF64 "publish_threshold" instanceParams
  let graylistThreshold ← getParam parseF64 "graylist_threshold" instanceParams
  let acceptPxThreshold ← getParam parseF64 "accept_px_threshold" instanceParams
  let opportunisticGraftThreshold ← getParam parseF64 "opportunistic_graft_threshold" instanceParams
  .ok { gossipThreshold, publishThreshold, graylistThreshold, acceptPxThreshold, opportunisticGraftThreshold }

def parsePeerScoreParams (instanceParams : InstanceParams) : Run PeerScoreParams := do
  let topicScoreCap ← getParam parseF64 "topic_score_cap" instanceParams
  let decayInterval ← getParam parseU64 "decay_interval" instanceParams
  let decayToZero ← getParam parseF64 "decay_to_zero" instanceParams
  let retainScore ← getParam parseU64 "retain_score" instanceParams
  let appSpecificWeight ← getParam parseF64 "app_specific_weight" instanceParams
  let ipColocationFactorWeight ← getParam parseF64 "ip_colocation_factor_weight" instanceParams
  let ipColocationFactorThreshold ← getParam parseF64 "ip_colocation_factor_threshold" instanceParams
  let behaviourPenaltyWeight ← getParam parseF64 "behaviour_penalty_weight" instanceParams
  let behaviourPenaltyThreshold ← getParam parseF64 "behaviour_penalty_threshold" instanceParams
  let behaviourPenaltyDecay ← getParam parseF64 "behaviour_penalty_decay" instanceParams
  .ok { topics := ∅, topicScoreCap, decayInterval, decayToZero, retainScore, appSpecificWeight,
        ipColocationFactorWeight, ipColocationFactorThreshold, behaviourPenaltyWeight, behaviourPenaltyThreshold,
        behaviourPenaltyDecay }

/-- `Duration::from_secs(unit * n)` -/
def scaledParam (b : Build) (unit : Nat) (k : String) (instanceParams : InstanceParams) : Run Nat := do
  let n ← getParam parseU64 k instanceParams
  usizeMul b unit n

def parseTopicScoreParams (pre : String) (instanceParams : InstanceParams) : Run TopicScoreParams := do
  let topicWeight ← getParam parseF64 s!"{pre}_topic_weight" instanceParams
  let timeInMeshWeight ← getParam parseF64 s!"{pre}_time_in_mesh_weight" instanceParams
  let timeInMeshQuantum ← scaledParam b slot s!"{pre}_time_in_mesh_quantum" instanceParams
  let timeInMeshCap ← getParam parseF64 s!"{pre}_time_in_mesh_cap" instanceParams
  let firstMessageDeliveriesWeight ← getParam parseF64 s!"{pre}_first_message_deliveries_weight" instanceParams
  let firstMessageDeliveriesDecay ← getParam parseF64 s!"{pre}_first_message_deliveries_decay" instanceParams
  let firstMessageDeliveriesCap ← getParam parseF64 s!"{pre}_first_message_deliveries_cap" instanceParams
  let meshMessageDeliveriesWeight ← getParam parseF64 s!"{pre}_mesh_message_deliveries_weight" instanceParams
  let meshMessageDeliveriesDecay ← getParam parseF64 s!"{pre}_mesh_message_deliveries_decay" instanceParams
  let meshMessageDeliveriesThreshold ← getParam parseF64 s!"{pre}_mesh_message_deliveries_threshold" instanceParams
  let meshMessageDeliveriesCap ← getParam parseF64 s!"{pre}_mesh_message_deliveries_cap" instanceParams
  let meshMessageDeliveriesActivation ←
    scaledParam b (slot * slotsPerEpoch) s!"{pre}_mesh_message_deliveries_activation" instanceParams
  let meshMessageDeliveriesWindow ← getParam parseU64 s!"{pre}_mesh_message_deliveries_window" instanceParams
  let meshFailurePenaltyWeight ← getParam parseF64 s!"{pre}_mesh_failure_penalty_weight" instanceParams
  let meshFailurePenaltyDecay ← getParam parseF64 s!"{pre}_mesh_failure_penalty_decay" instanceParams
  let invalidMessageDeliveriesWeight ← getParam parseF64 s!"{pre}_invalid_message_deliveries_weight" instanceParams
  let invalidMessageDeliveriesDecay ← getParam parseF64 s!"{pre}_invalid_message_deliveries_decay" instanceParams
  .ok { topicWeight, timeInMeshWeight, timeInMeshQuantum, timeInMeshCap, firstMessageDeliveriesWeight,
        firstMessageDeliveriesDecay, firstMessageDeliveriesCap, meshMessageDeliveriesWeight,
        meshMessageDeliveriesDecay, meshMessageDeliveriesThreshold, meshMessageDeliveriesCap,
        meshMessageDeliveriesActivation, meshMessageDeliveriesWindow, meshFailurePenaltyWeight,
        meshFailurePenaltyDecay, invalidMessageDeliveriesWeight, invalidMessageDeliveriesDecay }

abbrev TopicTable := Std.TreeMap String TopicScoreParams

/-- `.expect(msg)` -/
def expectOk {T : Type} (msg : String) : Run T → Run T
  | .ok t => .ok t
  | .error (.err _) => .error (.panic (.expect msg))
  | .error (.panic p) => .error (.panic p)

/-- The hash of an `IdentTopic` is its text. -/
def getHash (topic : Topic) : String := topicText topic

/-- The two kinds of topics that are scored only if a parameter says so. -/
def insertEnabled (pre : String) (topic : Nat → Topic) (instanceParams : InstanceParams) (topics : TopicTable) :
    Run TopicTable := do
  let enabled ← expectOk "Valid param" (getParam parseBool s!"{pre}_enable_topic_params" instanceParams)
  if enabled then
    let params ← expectOk "Valid topic params" (parseTopicScoreParams b parseF64 pre instanceParams)
    .ok ((List.range syncSubnets).foldl (fun topics n => topics.insert (getHash (topic n)) params) topics)
  else .ok topics

def buildPeerScoreParams (instanceParams : InstanceParams) : Run PeerScoreParams := do
  let params ← expectOk "Valid peer score params" (parsePeerScoreParams parseF64 instanceParams)
  let blocks ← expectOk "Valid topic params" (parseTopicScoreParams b parseF64 "bb" instanceParams)
  let topics := params.topics.insert (getHash .blocks) blocks
  let aggregates ← expectOk "Valid topic params" (parseTopicScoreParams b parseF64 "baap" instanceParams)
  let attestations ← expectOk "Valid topic params" (parseTopicScoreParams b parseF64 "a" instanceParams)
  let topics := (List.range attestationSubnets).foldl (fun topics n =>
    (topics.insert (getHash (.aggregates n)) aggregates).insert (getHash (.attestations n)) attestations) topics
  let topics ← insertEnabled b parseF64 "scap" .signedContributionAndProof instanceParams topics
  let topics ← insertEnabled b parseF64 "scm" .syncMessages instanceParams topics
  .ok { params with topics }

/-! ## The keys in the order in which they are read -/

/-- A number with a unit has to fit with it. -/
inductive Kind where
  | f64
  | u64
  | scaled (unit : Nat)
  | bool
deriving DecidableEq, Repr

def checkKey (instanceParams : InstanceParams) : String × Kind → Run Unit
  | (k, .f64) => check parseF64 instanceParams k
  | (k, .u64) => check parseU64 instanceParams k
  | (k, .scaled unit) => (scaledParam b unit k instanceParams).map fun _ => ()
  | (k, .bool) => check parseBool instanceParams k

def thresholdKeys : List (String × Kind) :=
  [("gossip_threshold", .f64), ("publish_threshold", .f64), ("graylist_threshold", .f64),
    ("accept_px_threshold", .f64), ("opportunistic_graft_threshold", .f64)]

def peerScoreKeys : List (String × Kind) :=
  [("topic_score_cap", .f64), ("decay_interval", .u64), ("decay_to_zero", .f64), ("retain_score", .u64),
    ("app_specific_weight", .f64), ("ip_colocation_factor_weight", .f64), ("ip_colocation_factor_threshold", .f64),
    ("behaviour_penalty_weight", .f64), ("behaviour_penalty_threshold", .f64), ("behaviour_penalty_decay", .f64)]

def topicScoreKeys (pre : String) : List (String × Kind) :=
  [(s!"{pre}_topic_weight", .f64), (s!"{pre}_time_in_mesh_weight", .f64), (s!"{pre}_time_in_mesh_quantum", .scaled slot),
    (s!"{pre}_time_in_mesh_cap", .f64), (s!"{pre}_first_message_deliveries_weight", .f64),
    (s!"{pre}_first_message_deliveries_decay", .f64), (s!"{pre}_first_message_deliveries_cap", .f64),
    (s!"{pre}_mesh_message_deliveries_weight", .f64), (s!"{pre}_mesh_message_deliveries_decay", .f64),
    (s!"{pre}_mesh_message_deliveries_threshold", .f64), (s!"{pre}_mesh_message_deliveries_cap", .f64),
    (s!"{pre}_mesh_message_deliveries_activation", .scaled (slot * slotsPerEpoch)), (s!"{pre}_mesh_message_deliveries_window", .u64),
    (s!"{pre}_mesh_failure_penalty_weight", .f64), (s!"{pre}_mesh_failure_penalty_decay", .f64),
    (s!"{pre}_invalid_message_deliveries_weight", .f64), (s!"{pre}_invalid_message_deliveries_decay", .f64)]

def networkKeys : List (String × Kind) := [("latency", .u64), ("latency_max", .u64), ("bandwidth", .u64)]

/-- Whether a kind of topic is enabled, as far as its parameter can be read. -/
def enabled (pre : String) (instanceParams : InstanceParams) : Bool :=
  instanceParams.lookup s!"{pre}_enable_topic_params" = some "true"

/-- Keys whose errors are turned into a panic. -/
def expecting (msg : String) (keys : List (String × Kind)) : List (String × String × Kind) := keys.map fun key => (msg, key)

def enabledChecks (pre : String) (instanceParams : InstanceParams) : List (String × String × Kind) :=
  ("Valid param", s!"{pre}_enable_topic_params", .bool) ::
    if enabled pre instanceParams then expecting "Valid topic params" (topicScoreKeys pre) else []

/-- What `build_peer_score_params` reads, each key with the text of the panic. -/
def buildChecks (instanceParams : InstanceParams) : List (String × String × Kind) :=
  expecting "Valid peer score params" peerScoreKeys ++ expecting "Valid topic params" (topicScoreKeys "bb") ++
    expecting "Valid topic params" (topicScoreKeys "baap") ++ expecting "Valid topic params" (topicScoreKeys "a") ++
    enabledChecks "scap" instanceParams ++ enabledChecks "scm" instanceParams

/-- Everything is read in the order of the keys, and the first bad one is reported. -/
def ReadsKeys {T : Type} (r : Run T) (instanceParams : InstanceParams) (keys : List (String × Kind)) : Prop :=
  Reports r (keys.map (checkKey b parseF64 instanceParams))

variable {b parseF64} {instanceParams : InstanceParams}

theorem readsKeys_ok {T : Type} (t : T) : ReadsKeys b parseF64 (.ok t) instanceParams [] := reports_ok t

theorem ReadsKeys.cons {T U : Type} {x : Run T} {f : T → Run U} {key : String × Kind} {keys : List (String × Kind)}
    (hx : ReadsKeys b parseF64 x instanceParams [key]) (hf : ∀ t, ReadsKeys b parseF64 (f t) instanceParams keys) :
    ReadsKeys b parseF64 (x >>= f) instanceParams (key :: keys) :=
  Reports.bind hx fun t _ => hf t

theorem readsKeys_f64 (k : String) : ReadsKeys b parseF64 (getParam parseF64 k instanceParams) instanceParams [(k, .f64)] :=
  reports_getParam

theorem readsKeys_u64 (k : String) : ReadsKeys b parseF64 (getParam parseU64 k instanceParams) instanceParams [(k, .u64)] :=
  reports_getParam

theorem readsKeys_scaled (unit : Nat) (k : String) :
    ReadsKeys b parseF64 (scaledParam b unit k instanceParams) instanceParams [(k, .scaled unit)] :=
  reports_self _

theorem readsKeys_thresholds : ReadsKeys b parseF64 (parsePeerScoreThresholds parseF64 instanceParams) instanceParams
    thresholdKeys := by
  unfold parsePeerScoreThresholds thresholdKeys
  repeat
    refine (readsKeys_f64 _).cons fun _ => ?_
  exact readsKeys_ok _

theorem readsKeys_peerScoreParams : ReadsKeys b parseF64 (parsePeerScoreParams parseF64 instanceParams) instanceParams
    peerScoreKeys := by
  unfold parsePeerScoreParams peerScoreKeys
  repeat
    first
    | refine (readsKeys_f64 _).cons fun _ => ?_
    | refine (readsKeys_u64 _).cons fun _ => ?_
  exact readsKeys_ok _

theorem readsKeys_topicScoreParams (pre : String) :
    ReadsKeys b parseF64 (parseTopicScoreParams b parseF64 pre instanceParams) instanceParams (topicScoreKeys pre) := by
  unfold parseTopicScoreParams topicScoreKeys
  repeat
    first
    | refine (readsKeys_f64 _).cons fun _ => ?_
    | refine (readsKeys_scaled ..).cons fun _ => ?_
    | refine (readsKeys_u64 _).cons fun _ => ?_
  exact readsKeys_ok _

theorem drawLatency_spec {sample : Nat → Nat → Nat} (hsample : ∀ low high, low < high → low ≤ sample low high ∧
    sample low high < high) (latency latencyMax : Nat) : ∃ drawn, drawLatency sample latency latencyMax = .ok drawn ∧
      latency ≤ drawn ∧ (drawn = latency ∨ drawn < latencyMax) := by
  unfold drawLatency
  split
  · rename_i h
    exact ⟨sample latency latencyMax, if_pos h, (hsample _ _ h).1, Or.inr (hsample _ _ h).2⟩
  · exact ⟨latency, rfl, Nat.le_refl _, Or.inl rfl⟩

theorem readsKeys_networkParams {sample : Nat → Nat → Nat} (hsample : ∀ low high, low < high → low ≤ sample low high ∧
    sample low high < high) :
    ReadsKeys b parseF64 (NetworkParams.new sample instanceParams) instanceParams networkKeys := by
  unfold NetworkParams.new networkKeys
  refine (readsKeys_u64 _).cons fun latency => (readsKeys_u64 _).cons fun latencyMax => ?_
  obtain ⟨drawn, hdrawn, -⟩ := drawLatency_spec hsample latency latencyMax
  rw [hdrawn]
  exact (readsKeys_u64 _).cons fun _ => readsKeys_ok _

/-! ## What the parsers report -/

/-- With overflow checks a number has to fit with its unit. -/
def Kind.accepts (b : Build) (parseF64 : String → Option UInt64) : Kind → String → Bool
  | .f64, v => (parseF64 v).isSome
  | .u64, v => (parseU64 v).isSome
  | .scaled unit, v => match parseU64 v with
    | none => false
    | some n => unit * n < usizeSize ∨ b = .release
  | .bool, v => (parseBool v).isSome

/-- What is wrong with a text that is not accepted. -/
def Kind.complaint (k v : String) : Kind → Fail
  | .scaled _ => match parseU64 v with
    | none => .err (malformed k)
    | some _ => .panic .mulOverflow
  | _ => .err (malformed k)

/-- The key is given, with a text that its kind accepts. -/
def ValidKey (b : Build) (parseF64 : String → Option UInt64) (instanceParams : InstanceParams) (key : String × Kind) : Prop :=
  ∃ v, instanceParams.lookup key.1 = some v ∧ key.2.accepts b parseF64 v = true

/-- The error about a key that is not valid. -/
def complaint (instanceParams : InstanceParams) (key : String × Kind) : Fail :=
  match instanceParams.lookup key.1 with
  | none => .err (missing key.1)
  | some v => key.2.complaint key.1 v

variable (b parseF64 instanceParams) in
theorem decides_checkKey :
    Decides (checkKey b parseF64 instanceParams) (ValidKey b parseF64 instanceParams) (complaint instanceParams) := by
  suffices hcases : ∀ key, (ValidKey b parseF64 instanceParams key ∧ checkKey b parseF64 instanceParams key = .ok ()) ∨
      (¬ ValidKey b parseF64 instanceParams key ∧
        checkKey b parseF64 instanceParams key = .error (complaint instanceParams key)) from
    ⟨fun hvalid => ((hcases _).resolve_right fun h => h.1 hvalid).2,
      fun hvalid => ((hcases _).resolve_left fun h => hvalid h.1).2⟩
  rintro ⟨k, kind⟩
  unfold ValidKey complaint
  cases hlookup : instanceParams.lookup k with
  | none => cases kind <;> simp [checkKey, check, scaledParam, getParam, hlookup, Bind.bind, Except.bind, Except.map]
  | some v =>
    cases kind with
    | f64 => cases hv : parseF64 v <;> simp [checkKey, check, getParam, hlookup, hv, Kind.accepts, Kind.complaint, Except.map]
    | u64 => cases hv : parseU64 v <;> simp [checkKey, check, getParam, hlookup, hv, Kind.accepts, Kind.complaint, Except.map]
    | bool => cases hv : parseBool v <;> simp [checkKey, check, getParam, hlookup, hv, Kind.accepts, Kind.complaint, Except.map]
    | scaled unit =>
      cases hv : parseU64 v with
      | none => simp [checkKey, scaledParam, getParam, hlookup, hv, Kind.accepts, Kind.complaint, Bind.bind, Except.bind,
          Except.map]
      | some n =>
        by_cases hfits : unit * n < usizeSize
        · simp [checkKey, scaledParam, getParam, hlookup, hv, Kind.accepts, usizeMul, hfits, Bind.bind, Except.bind, Except.map]
        · cases b <;> simp [checkKey, scaledParam, getParam, hlookup, hv, Kind.accepts, Kind.complaint, usizeMul, hfits,
            overflow, Bind.bind, Except.bind, Except.map]

/-- A parser that succeeds exactly when all its keys are valid, and else complains about the first that is not. -/
structure ChecksInOrder {T : Type} (b : Build) (parseF64 : String → Option UInt64) (instanceParams : InstanceParams) (r : Run T)
    (keys : List (String × Kind)) : Prop where
  ok_iff : (∃ t, r = .ok t) ↔ ∀ key ∈ keys, ValidKey b parseF64 instanceParams key
  error_iff f : r = .error f ↔ ∃ pre key post, keys = pre ++ key :: post ∧
    (∀ k ∈ pre, ValidKey b parseF64 instanceParams k) ∧ ¬ ValidKey b parseF64 instanceParams key ∧
    f = complaint instanceParams key

theorem ReadsKeys.checksInOrder {T : Type} {r : Run T} {keys : List (String × Kind)}
    (h : ReadsKeys b parseF64 r instanceParams keys) : ChecksInOrder b parseF64 instanceParams r keys where
  ok_iff := (decides_checkKey ..).reports_ok_iff h
  error_iff _ := (decides_checkKey ..).reports_error_iff h

/-- **Errors name the first bad parameter.** In the order of the struct's fields, for every prefix, in both builds. -/
theorem parsers_check_in_order (b : Build) (parseF64 : String → Option UInt64) (sample : Nat → Nat → Nat)
    (hsample : ∀ low high, low < high → low ≤ sample low high ∧ sample low high < high) (instanceParams : InstanceParams) :
    ChecksInOrder b parseF64 instanceParams (parsePeerScoreThresholds parseF64 instanceParams) thresholdKeys ∧
    ChecksInOrder b parseF64 instanceParams (parsePeerScoreParams parseF64 instanceParams) peerScoreKeys ∧
    (∀ pre, ChecksInOrder b parseF64 instanceParams (parseTopicScoreParams b parseF64 pre instanceParams)
      (topicScoreKeys pre)) ∧
    ChecksInOrder b parseF64 instanceParams (NetworkParams.new sample instanceParams) networkKeys :=
  ⟨readsKeys_thresholds.checksInOrder, readsKeys_peerScoreParams.checksInOrder,
    fun pre => (readsKeys_topicScoreParams pre).checksInOrder, (readsKeys_networkParams hsample).checksInOrder⟩

theorem parsers_check_in_order_two : ChecksInOrder .debug (fun _ => none) [("latency", "5"), ("latency_max", "10")]
    (NetworkParams.new (fun low _ => low) [("latency", "5"), ("latency_max", "10")]) networkKeys :=
  (parsers_check_in_order .debug (fun _ => none) (fun low _ => low) (fun low _ h => ⟨Nat.le_refl low, h⟩) _).2.2.2

/-! ## The table of scored topics -/

theorem expectOk_ok_iff {T : Type} {msg : String} {r : Run T} {t : T} : expectOk msg r = .ok t ↔ r = .ok t := by
  rcases r with (e | p) | t' <;> simp [expectOk]

/-- What becomes of an error where a value is expected; a panic stays. -/
def expectFail (msg : String) : Fail → Fail
  | .err _ => .panic (.expect msg)
  | .panic p => .panic p

theorem expectOk_error (msg : String) (f : Fail) : (expectOk msg (.error f) : Run Unit) = .error (expectFail msg f) := by
  cases f <;> rfl

theorem verdict_expectOk (msg : String) : ∀ checks : List (Run Unit),
    verdict (checks.map (expectOk msg)) = expectOk msg (verdict checks)
  | [] => rfl
  | .ok _ :: checks => verdict_expectOk msg checks
  | .error (.err _) :: _ | .error (.panic _) :: _ => rfl

variable (b parseF64 instanceParams) in
def checkExpecting (c : String × String × Kind) : Run Unit := expectOk c.1 (checkKey b parseF64 instanceParams c.2)

variable (b parseF64 instanceParams) in
theorem decides_checkExpecting : Decides (checkExpecting b parseF64 instanceParams)
    (fun c => ValidKey b parseF64 instanceParams c.2) fun c => expectFail c.1 (complaint instanceParams c.2) where
  ok hvalid := by rw [checkExpecting, (decides_checkKey ..).ok hvalid]; rfl
  error hvalid := by rw [checkExpecting, (decides_checkKey ..).error hvalid, expectOk_error]

theorem ReadsKeys.expectOk {T : Type} {r : Run T} {keys : List (String × Kind)} (msg : String)
    (h : ReadsKeys b parseF64 r instanceParams keys) :
    Reports (expectOk msg r) ((expecting msg keys).map (checkExpecting b parseF64 instanceParams)) := by
  have hmap : (expecting msg keys).map (checkExpecting b parseF64 instanceParams) =
      (keys.map (checkKey b parseF64 instanceParams)).map (Scoring.expectOk msg) := by
    rw [expecting, List.map_map, List.map_map]
    rfl
  unfold ReadsKeys Reports at *
  rw [hmap, verdict_expectOk, ← h]
  rcases r with (e | p) | t <;> rfl

theorem enabled_of_ok {pre : String} {e : Bool} (h : getParam parseBool s!"{pre}_enable_topic_params" instanceParams = .ok e) :
    e = enabled pre instanceParams := by
  unfold getParam at h
  unfold enabled
  cases hv : instanceParams.lookup s!"{pre}_enable_topic_params" with
  | none =>
    rw [hv] at h
    cases h
  | some v =>
    simp only [hv, parseBool] at h
    by_cases htrue : v = "true"
    · simp only [htrue, if_true, Except.ok.injEq] at h
      simp [htrue, ← h]
    · by_cases hfalse : v = "false"
      · subst hfalse
        simp only [htrue, if_false, if_true, Except.ok.injEq] at h
        simp [← h]
      · simp [htrue, hfalse] at h

theorem reports_insertEnabled (pre : String) (topic : Nat → Topic) (topics : TopicTable) :
    Reports (insertEnabled b parseF64 pre topic instanceParams topics)
      ((enabledChecks pre instanceParams).map (checkExpecting b parseF64 instanceParams)) := by
  have hbool : ReadsKeys b parseF64 (getParam parseBool s!"{pre}_enable_topic_params" instanceParams) instanceParams
      [(s!"{pre}_enable_topic_params", .bool)] := reports_getParam
  unfold insertEnabled enabledChecks
  refine (hbool.expectOk "Valid param").bind fun e he => ?_
  rw [enabled_of_ok (expectOk_ok_iff.mp he)]
  split
  · rw [← List.append_nil (List.map ..)]
    exact ((readsKeys_topicScoreParams pre).expectOk _).bind fun _ _ => reports_ok _
  · exact reports_ok _

variable (b parseF64 instanceParams) in
theorem reports_build : Reports (buildPeerScoreParams b parseF64 instanceParams)
    ((buildChecks instanceParams).map (checkExpecting b parseF64 instanceParams)) := by
  unfold buildPeerScoreParams buildChecks
  rw [← List.append_nil (_ ++ _)]
  simp only [List.map_append, List.append_assoc]
  apply (readsKeys_peerScoreParams.expectOk _).bind
  intro params _
  apply ((readsKeys_topicScoreParams _).expectOk _).bind
  intro blocks _
  apply ((readsKeys_topicScoreParams _).expectOk _).bind
  intro aggregates _
  apply ((readsKeys_topicScoreParams _).expectOk _).bind
  intro attestations _
  apply (reports_insertEnabled ..).bind
  intro topics _
  apply (reports_insertEnabled ..).bind
  exact fun _ _ => reports_ok _

/-- The prefix of the parameters for a topic. -/
def prefixOf : Topic → String
  | .blocks => "bb"
  | .aggregates _ => "baap"
  | .attestations _ => "a"
  | .signedContributionAndProof _ => "scap"
  | .syncMessages _ => "scm"

/-- The topics that get an entry. -/
def Scored (instanceParams : InstanceParams) : Topic → Prop
  | .blocks => True
  | .aggregates n | .attestations n => n < attestationSubnets
  | .signedContributionAndProof n => n < syncSubnets ∧ enabled "scap" instanceParams = true
  | .syncMessages n => n < syncSubnets ∧ enabled "scm" instanceParams = true

def insertEntries (topics : TopicTable) (entries : List (Topic × TopicScoreParams)) : TopicTable :=
  (entries.map fun e => (getHash e.1, e.2)).foldl (fun m p => m.insert p.1 p.2) topics

theorem insertEntries_append (topics : TopicTable) (l l' : List (Topic × TopicScoreParams)) :
    insertEntries topics (l ++ l') = insertEntries (insertEntries topics l) l' := by
  simp [insertEntries]

theorem getHash_inj {t t' : Topic} (h : getHash t = getHash t') : t = t' :=
  topicText_prefix_free ((congrArg String.toList h) ▸ List.prefix_refl (topicText t).toList)

theorem getElem?_insertEntries {entries : List (Topic × TopicScoreParams)} (hn : (entries.map Prod.fst).Nodup)
    {hash : String} {params : TopicScoreParams} :
    (insertEntries ∅ entries)[hash]? = some params ↔ ∃ t, (t, params) ∈ entries ∧ getHash t = hash := by
  have hnodup : ((entries.map fun e => (getHash e.1, e.2)).map Prod.fst).Nodup := by
    rw [List.map_map]
    have hmap : entries.map (Prod.fst ∘ fun e => (getHash e.1, e.2)) = (entries.map Prod.fst).map getHash := by
      rw [List.map_map]
      rfl
    rw [hmap]
    exact hn.map fun _ _ => getHash_inj
  rw [insertEntries, OrderedMap.getElem?_foldl_insert _ hnodup]
  simp [Prod.ext_iff, and_left_comm, and_comm]

/-- What an enabled kind enters. -/
def enabledEntries (topic : Nat → Topic) (params : Option TopicScoreParams) : List (Topic × TopicScoreParams) :=
  match params with
  | none => []
  | some params => (List.range syncSubnets).map fun n => (topic n, params)

theorem insertEnabled_spec {pre : String} {topic : Nat → Topic} {topics topics' : TopicTable}
    (h : insertEnabled b parseF64 pre topic instanceParams topics = .ok topics') :
    ∃ params : Option TopicScoreParams, topics' = insertEntries topics (enabledEntries topic params) ∧
      (enabled pre instanceParams = true ↔ params.isSome) ∧
      ∀ p ∈ params, parseTopicScoreParams b parseF64 pre instanceParams = .ok p := by
  obtain ⟨e, he, h⟩ := bind_ok_iff.mp h
  rw [enabled_of_ok (expectOk_ok_iff.mp he)] at h
  split at h
  · rename_i henabled
    obtain ⟨params, hparams, hok⟩ := bind_ok_iff.mp h
    cases hok
    refine ⟨some params, ?_, by simp [henabled], fun p hp => ?_⟩
    · simp [insertEntries, enabledEntries, List.foldl_map]
    · cases hp
      exact expectOk_ok_iff.mp hparams
  · rename_i henabled
    cases h
    exact ⟨none, by simp [insertEntries, enabledEntries], by simp [henabled], by simp⟩

theorem mem_enabledEntries {topic : Nat → Topic} {params : Option TopicScoreParams} {t : Topic} {p : TopicScoreParams} :
    (t, p) ∈ enabledEntries topic params ↔ p ∈ params ∧ ∃ n < syncSubnets, topic n = t := by
  cases params with
  | none => simp [enabledEntries]
  | some params =>
    simp only [enabledEntries, List.mem_map, List.mem_range, Prod.mk.injEq, Option.mem_some_iff]
    constructor
    · intro h
      obtain ⟨n, hn, rfl, rfl⟩ := h
      exact ⟨rfl, n, hn, rfl⟩
    · intro h
      obtain ⟨rfl, n, hn, rfl⟩ := h
      exact ⟨n, hn, rfl, rfl⟩

/-- Everything that `build_peer_score_params` enters, in this order. -/
def entries (blocks aggregates attestations : TopicScoreParams) (scap scm : Option TopicScoreParams) :
    List (Topic × TopicScoreParams) :=
  [(.blocks, blocks)] ++ (List.range attestationSubnets).flatMap (fun n => [(.aggregates n, aggregates),
    (.attestations n, attestations)]) ++ enabledEntries .signedContributionAndProof scap ++ enabledEntries .syncMessages scm

theorem nodup_entries (blocks aggregates attestations : TopicScoreParams) (scap scm : Option TopicScoreParams) :
    ((entries blocks aggregates attestations scap scm).map Prod.fst).Nodup := by
  cases scap <;> cases scm <;> simp [entries, enabledEntries, attestationSubnets, syncSubnets, List.range_succ]

theorem build_spec {params : PeerScoreParams} (h : buildPeerScoreParams b parseF64 instanceParams = .ok params) :
    ∃ blocks aggregates attestations scap scm,
      params.topics = insertEntries ∅ (entries blocks aggregates attestations scap scm) ∧
      parseTopicScoreParams b parseF64 "bb" instanceParams = .ok blocks ∧
      parseTopicScoreParams b parseF64 "baap" instanceParams = .ok aggregates ∧
      parseTopicScoreParams b parseF64 "a" instanceParams = .ok attestations ∧
      ((enabled "scap" instanceParams = true ↔ scap.isSome) ∧
        ∀ p ∈ scap, parseTopicScoreParams b parseF64 "scap" instanceParams = .ok p) ∧
      (enabled "scm" instanceParams = true ↔ scm.isSome) ∧
        ∀ p ∈ scm, parseTopicScoreParams b parseF64 "scm" instanceParams = .ok p := by
  simp only [buildPeerScoreParams, bind_ok_iff, expectOk_ok_iff] at h
  obtain ⟨base, hbase, blocks, hblocks, aggregates, haggregates, attestations, hattestations, topics₁, h₁, topics₂, h₂,
    hok⟩ := h
  obtain ⟨scap, rfl, hscap⟩ := insertEnabled_spec h₁
  obtain ⟨scm, rfl, hscm⟩ := insertEnabled_spec h₂
  cases hok
  refine ⟨blocks, aggregates, attestations, scap, scm, ?_, hblocks, haggregates, hattestations, hscap, hscm⟩
  have hempty : base.topics = ∅ := by
    simp only [parsePeerScoreParams, bind_ok_iff] at hbase
    obtain ⟨_, -, _, -, _, -, _, -, _, -, _, -, _, -, _, -, _, -, _, -, hok⟩ := hbase
    cases hok
    rfl
  simp only [hempty, entries, insertEntries_append]
  simp [insertEntries, List.map_flatMap, List.foldl_flatMap]

theorem mem_entries_iff {blocks aggregates attestations : TopicScoreParams} {scap scm : Option TopicScoreParams} {t : Topic}
    {p : TopicScoreParams} : (t, p) ∈ entries blocks aggregates attestations scap scm ↔
      match t with
      | .blocks => p = blocks
      | .aggregates n => n < attestationSubnets ∧ p = aggregates
      | .attestations n => n < attestationSubnets ∧ p = attestations
      | .signedContributionAndProof n => n < syncSubnets ∧ p ∈ scap
      | .syncMessages n => n < syncSubnets ∧ p ∈ scm := by
  rw [entries, List.mem_append, List.mem_append, List.mem_append, mem_enabledEntries, mem_enabledEntries]
  cases t <;> simp [eq_comm, and_comm]

theorem mem_iff_of_enabled {params : Option TopicScoreParams} {pre : String} {p : TopicScoreParams}
    (henabled : enabled pre instanceParams = true ↔ params.isSome)
    (hparse : ∀ p ∈ params, parseTopicScoreParams b parseF64 pre instanceParams = .ok p) :
    p ∈ params ↔ enabled pre instanceParams = true ∧ parseTopicScoreParams b parseF64 pre instanceParams = .ok p := by
  constructor
  · intro hp
    exact ⟨henabled.mpr (Option.isSome_of_mem hp), hparse p hp⟩
  · rintro ⟨hon, hp⟩
    obtain ⟨q, hq⟩ := Option.isSome_iff_exists.mp (henabled.mp hon)
    rw [hparse q hq] at hp
    rw [hq, Except.ok.inj hp]
    rfl

/-- The parameters of a topic are those under the prefix of its kind. -/
theorem getElem?_topics {params : PeerScoreParams} (h : buildPeerScoreParams b parseF64 instanceParams = .ok params)
    (hash : String) (p : TopicScoreParams) : params.topics[hash]? = some p ↔
      ∃ t, Scored instanceParams t ∧ getHash t = hash ∧
        parseTopicScoreParams b parseF64 (prefixOf t) instanceParams = .ok p := by
  obtain ⟨blocks, aggregates, attestations, scap, scm, htopics, hblocks, haggregates, hattestations, hscap, hscm⟩ :=
    build_spec h
  rw [htopics, getElem?_insertEntries (nodup_entries ..)]
  apply exists_congr
  intro t
  rw [mem_entries_iff, and_left_comm, and_comm (a := getHash t = hash)]
  apply and_congr_left
  intro _
  cases t with
  | blocks => simp [Scored, prefixOf, hblocks, eq_comm]
  | aggregates n => simp [Scored, prefixOf, haggregates, eq_comm]
  | attestations n => simp [Scored, prefixOf, hattestations, eq_comm]
  | signedContributionAndProof n => simp only [Scored, prefixOf, mem_iff_of_enabled hscap.1 hscap.2, and_assoc]
  | syncMessages n => simp only [Scored, prefixOf, mem_iff_of_enabled hscm.1 hscm.2, and_assoc]

theorem subscribe_mem_iff {t : Topic} : .subscribe t ∈ subscribeTopics ↔
    match t with
    | .blocks => True
    | .aggregates n | .attestations n => n < attestationSubnets
    | .signedContributionAndProof n | .syncMessages n => n < syncSubnets := by
  cases t <;> simp [subscribeTopics]

/-- **Who is scored how.** The build succeeds exactly when all its keys are valid, and panics else over the first that is
not, with the text that stands with it, or with an overflow. The table that it builds maps the hash of each scored topic
to the parameters under the prefix of its kind, and holds nothing else; every scored topic is one that the node
subscribes to, and with both switches on there is no other. -/
theorem built_peer_scores (b : Build) (parseF64 : String → Option UInt64) (instanceParams : InstanceParams) :
    ((∃ params, buildPeerScoreParams b parseF64 instanceParams = .ok params) ↔
      ∀ c ∈ buildChecks instanceParams, ValidKey b parseF64 instanceParams c.2) ∧
    (∀ f, buildPeerScoreParams b parseF64 instanceParams = .error f ↔
      ∃ pre c post, buildChecks instanceParams = pre ++ c :: post ∧
        (∀ c ∈ pre, ValidKey b parseF64 instanceParams c.2) ∧ ¬ ValidKey b parseF64 instanceParams c.2 ∧
        f = expectFail c.1 (complaint instanceParams c.2)) ∧
    (∀ params, buildPeerScoreParams b parseF64 instanceParams = .ok params → ∀ hash p, params.topics[hash]? = some p ↔
      ∃ t, Scored instanceParams t ∧ getHash t = hash ∧
        parseTopicScoreParams b parseF64 (prefixOf t) instanceParams = .ok p) ∧
    (∀ t, Scored instanceParams t → .subscribe t ∈ subscribeTopics) ∧
    (enabled "scap" instanceParams = true → enabled "scm" instanceParams = true →
      ∀ t, .subscribe t ∈ subscribeTopics → Scored instanceParams t) := by
  have hreports := reports_build b parseF64 instanceParams
  have hdecides := decides_checkExpecting b parseF64 instanceParams
  refine ⟨hdecides.reports_ok_iff hreports, fun f => hdecides.reports_error_iff hreports, fun params h => getElem?_topics h,
    fun t ht => ?_, fun hscap hscm t ht => ?_⟩
  · rw [subscribe_mem_iff]
    cases t with
    | blocks => trivial
    | aggregates n | attestations n => exact ht
    | signedContributionAndProof n | syncMessages n => exact ht.1
  · rw [subscribe_mem_iff] at ht
    cases t with
    | blocks => trivial
    | aggregates n | attestations n => exact ht
    | signedContributionAndProof n => exact ⟨ht, hscap⟩
    | syncMessages n => exact ⟨ht, hscm⟩

end

end GossipPlans.Scoring
