import GossipPlans.Basic
import Mathlib.Data.Finset.Union

/-!
# Recording metrics

The query builders of the eth_consensus and censoring plans and the dispatch on family names of
`record_metrics` and of the end of the censoring run. A 64-bit float is given by its bits.
-/

namespace GossipPlans.Metrics

/-! ## The OpenMetrics data model -/

structure Label where
  name : String
  value : String
deriving DecidableEq, Repr

structure Bucket where
  count : Nat
  upperBound : UInt64
deriving DecidableEq, Repr

inductive GaugeValue where
  | intValue (i : Int)
  | doubleValue (f : UInt64)
deriving DecidableEq, Repr

inductive CounterTotal where
  | intValue (i : Nat)
  | doubleValue (f : UInt64)
deriving DecidableEq, Repr

inductive Value where
  | gaugeValue (value : Option GaugeValue)
  | counterValue (total : Option CounterTotal)
  | histogramValue (buckets : List Bucket)
  | otherValue
deriving DecidableEq, Repr

structure MetricPoint where
  value : Option Value
deriving DecidableEq, Repr

structure Metric where
  labels : List Label
  metricPoints : List MetricPoint
deriving DecidableEq, Repr

structure MetricFamily where
  name : String
  metrics : List Metric
deriving DecidableEq, Repr

abbrev MetricSet := List MetricFamily

/-! ## Queries -/

inductive Field where
  | signed (i : Int)
  | unsigned (n : Nat)
  | float (bits : UInt64)
deriving DecidableEq, Repr

structure WriteQuery where
  measurement : String
  timestamp : Nat
  tags : List (String × String)
  fields : List (String × Field)
deriving DecidableEq, Repr

def WriteQuery.new (timestamp : Nat) (measurement : String) : WriteQuery := ⟨measurement, timestamp, [], []⟩

def WriteQuery.addTag (q : WriteQuery) (name value : String) : WriteQuery := { q with tags := q.tags ++ [(name, value)] }

def WriteQuery.addField (q : WriteQuery) (name : String) (field : Field) : WriteQuery :=
  { q with fields := q.fields ++ [(name, field)] }

def tagInstancePeerId : String := "instance_peer_id"
def tagInstanceName : String := "instance_name"
def tagRunId : String := "run_id"

structure Recorder where
  timestamp : Nat
  peerId : String
  name : String
  runId : String
deriving DecidableEq, Repr

def Recorder.query (r : Recorder) (measurement : String) : WriteQuery :=
  (((WriteQuery.new r.timestamp measurement).addTag tagInstancePeerId r.peerId).addTag tagInstanceName r.name).addTag
    tagRunId r.runId

def WriteQuery.addLabels (q : WriteQuery) (labels : List Label) : WriteQuery :=
  labels.foldl (fun q l => q.addTag l.name l.value) q

/-! ## The value of a metric -/

def pointValue (metric : Metric) : Run Value :=
  if metric.metricPoints.length ≠ 1 then .error (.panic .assertFailed)
  else match metric.metricPoints.head? with
    | none => .error (.panic .unwrapNone)
    | some point => match point.value with
      | none => .error (.panic .unwrapNone)
      | some value => .ok value

def getGaugeValue (metric : Metric) : Run (Option Int × Option UInt64) := do
  match ← pointValue metric with
  | .gaugeValue (some (.intValue i)) => .ok (some i, none)
  | .gaugeValue (some (.doubleValue f)) => .ok (none, some f)
  | _ => .error (.panic .unreachable)

def getCounterValue (metric : Metric) : Run (Option Nat × Option UInt64) := do
  match ← pointValue metric with
  | .counterValue (some (.intValue i)) => .ok (some i, none)
  | .counterValue (some (.doubleValue f)) => .ok (none, some f)
  | _ => .error (.panic .unreachable)

def getHistogramValue (metric : Metric) : Run (List Bucket) := do
  match ← pointValue metric with
  | .histogramValue buckets => .ok buckets
  | _ => .error (.panic .unreachable)

/-- `.0.expect("should have int value")` -/
def expectInt {α : Type} (value : Option α × Option UInt64) : Run α :=
  match value.1 with
  | some i => .ok i
  | none => .error (.panic (.expect "should have int value"))

/-! ## The query builders -/

def counterQuery (r : Recorder) (name : String) (metric : Metric) : Run WriteQuery := do
  let value ← getCounterValue metric
  let count ← expectInt value
  .ok (((r.query name).addField "count" (.unsigned count)).addLabels metric.labels)

def queriesForCounter (r : Recorder) (family : MetricFamily) : Run (List WriteQuery) :=
  family.metrics.mapM (counterQuery r family.name)

def gaugeQuery (r : Recorder) (name fieldName : String) (metric : Metric) : Run WriteQuery := do
  let value ← getGaugeValue metric
  let i ← expectInt value
  .ok (((r.query name).addField fieldName (.signed i)).addLabels metric.labels)

def queriesForGauge (r : Recorder) (family : MetricFamily) (fieldName : String) : Run (List WriteQuery) :=
  family.metrics.mapM (gaugeQuery r family.name fieldName)

def bucketQuery (r : Recorder) (name : String) (metric : Metric) (bucket : Bucket) : WriteQuery :=
  (((r.query name).addField "count" (.unsigned bucket.count)).addField "upper_bound" (.float bucket.upperBound)).addLabels
    metric.labels

def histogramQueries (r : Recorder) (name : String) (metric : Metric) : Run (List WriteQuery) := do
  let buckets ← getHistogramValue metric
  .ok (buckets.map (bucketQuery r name metric))

def queriesForHistogram (r : Recorder) (family : MetricFamily) : Run (List WriteQuery) := do
  let queries ← family.metrics.mapM (histogramQueries r family.name)
  .ok queries.flatten

def matchesLabels (metric m2 : Metric) : Bool :=
  metric.labels.all fun label => m2.labels.any fun l => l.name = label.name ∧ l.value = label.value

def otherValue (family2 : MetricFamily) (metric : Metric) : Run (Option Nat) :=
  match family2.metrics.find? (matchesLabels metric) with
  | none => .ok none
  | some m2 => do
    let value ← getCounterValue m2
    .ok value.1

def joinQuery (r : Recorder) (family2 : MetricFamily) (name : String) (predicate : Nat → Nat → Nat)
    (metric : Metric) : Run (List WriteQuery) := do
  let value ← getCounterValue metric
  let current ← expectInt value
  let other ← otherValue family2 metric
  match other with
  | none => .ok []
  | some other =>
    .ok [((r.query name).addField "count" (.unsigned (predicate current other))).addLabels metric.labels]

def queriesForCounterJoin (r : Recorder) (family1 family2 : MetricFamily) (name : String)
    (predicate : Nat → Nat → Nat) : Run (List WriteQuery) := do
  let queries ← family1.metrics.mapM (joinQuery r family2 name predicate)
  .ok queries.flatten

/-! ## Dispatch on the family's name -/

inductive Handling where
  | gauge (fieldName : String)
  | counter
  | histogram
  | skip
deriving DecidableEq, Repr

inductive Plan where
  | ethConsensus
  | censoring
deriving DecidableEq, Repr

/-- The names both plans record; another name is `unreachable!`. -/
def recordedHandling (name : String) : Option Handling :=
  if name = "topic_subscription_status" then some (.gauge "status")
  else if name = "topic_peers_counts" then some (.gauge "count")
  else if name ∈ ["invalid_messages_per_topic", "accepted_messages_per_topic", "ignored_messages_per_topic",
    "rejected_messages_per_topic"] then some .counter
  else if name = "mesh_peer_counts" then some (.gauge "count")
  else if name ∈ ["mesh_peer_inclusion_events", "mesh_peer_churn_events"] then some .counter
  else if name ∈ ["topic_msg_sent_counts", "topic_msg_published", "topic_msg_sent_bytes",
    "topic_msg_recv_counts_unfiltered", "topic_msg_recv_counts", "topic_msg_recv_bytes"] then some .counter
  else if name = "score_per_mesh" then some .histogram
  else if name = "scoring_penalties" then some .counter
  else if name = "peers_per_protocol" then some (.gauge "peers")
  else if name = "heartbeat_duration" then some .histogram
  else if name ∈ ["topic_iwant_msgs", "memcache_misses"] then some .counter
  else none

/-- eth_consensus also knows four names that it does not record. -/
def handling : Plan → String → Option Handling
  | .ethConsensus, name =>
    if name ∈ ["publish_messages_dropped_per_topic", "forward_messages_dropped_per_topic", "priority_queue_size",
      "non_priority_queue_size"] then some .skip
    else recordedHandling name
  | .censoring, name => recordedHandling name

def queriesFor (plan : Plan) (r : Recorder) (family : MetricFamily) : Run (List WriteQuery) :=
  match handling plan family.name with
  | some (.gauge fieldName) => queriesForGauge r family fieldName
  | some .counter => queriesForCounter r family
  | some .histogram => queriesForHistogram r family
  | some .skip => .ok []
  | none => .error (.panic .unreachable)

def queriesForDuplicates (r : Recorder) (metricSet : MetricSet) : Run (List WriteQuery) :=
  match metricSet.find? (·.name = "topic_msg_recv_counts_unfiltered") with
  | none => .ok []
  | some recvdUnfiltered =>
    match metricSet.find? (·.name = "topic_msg_recv_counts") with
    | none => .ok []
    | some recvd => queriesForCounterJoin r recvdUnfiltered recvd "topic_msg_recv_duplicates" fun a b => a - b

def recordMetrics (plan : Plan) (r : Recorder) (metricSet : MetricSet) : Run (List WriteQuery) := do
  let queries ← metricSet.mapM (queriesFor plan r)
  match plan with
  | .censoring => .ok queries.flatten
  | .ethConsensus =>
    let duplicates ← queriesForDuplicates r metricSet
    .ok (queries.flatten ++ duplicates)

end GossipPlans.Metrics
