import GossipPlans.CounterJoin

/-!
# scoring: which points of a recording overwrite each other

The scoring plan records counters only, so unlike in the other plans no two points of a recording are the same
(`samples_distinct`).
-/

namespace GossipPlans.Metrics.Scoring

/-! ## `record_metrics` -/

def counterQuery (r : Recorder) (name : String) (metric : Metric) : Run WriteQuery := do
  let value ← getCounterValue metric
  let count ← expectInt value
  .ok (((r.query name).addField "count" (.unsigned count)).addLabels metric.labels)

def queriesForCounter (r : Recorder) (family : MetricFamily) : Run (List WriteQuery) :=
  family.metrics.mapM (counterQuery r family.name)

/-- Whether the families of a name are recorded; another name is `unreachable!`. -/
def isRecorded (name : String) : Option Bool :=
  if name ∈ ["topic_subscription_status", "topic_peers_counts"] then some false
  else if name ∈ ["invalid_messages_per_topic", "accepted_messages_per_topic", "ignored_messages_per_topic",
    "rejected_messages_per_topic"] then some true
  else if name ∈ ["publish_messages_dropped_per_topic", "forward_messages_dropped_per_topic"] then some false
  else if name = "mesh_peer_counts" then some false
  else if name ∈ ["mesh_peer_inclusion_events", "mesh_peer_churn_events"] then some true
  else if name ∈ ["topic_msg_sent_counts", "topic_msg_published", "topic_msg_sent_bytes",
    "topic_msg_recv_counts_unfiltered", "topic_msg_recv_counts", "topic_msg_recv_bytes"] then some true
  else if name = "score_per_mesh" then some false
  else if name = "scoring_penalties" then some true
  else if name ∈ ["peers_per_protocol", "heartbeat_duration"] then some false
  else if name ∈ ["topic_iwant_msgs", "memcache_misses"] then some true
  else if name ∈ ["priority_queue_size", "non_priority_queue_size"] then some false
  else none

def queriesFor (r : Recorder) (family : MetricFamily) : Run (List WriteQuery) :=
  match isRecorded family.name with
  | some true => queriesForCounter r family
  | some false => .ok []
  | none => .error (.panic .unreachable)

def queriesForDuplicates (r : Recorder) (metricSet : MetricSet) : Run (List WriteQuery) :=
  match metricSet.find? (·.name = "topic_msg_recv_counts_unfiltered") with
  | none => .ok []
  | some recvdUnfiltered =>
    match metricSet.find? (·.name = "topic_msg_recv_counts") with
    | none => .ok []
    | some recvd => queriesForCounterJoin r recvdUnfiltered recvd "topic_msg_recv_counts_duplicates" fun a b => a - b

def recordMetrics (r : Recorder) (metricSet : MetricSet) : Run (List WriteQuery) := do
  let queries ← metricSet.mapM (queriesFor r)
  let duplicates ← queriesForDuplicates r metricSet
  .ok (queries.flatten ++ duplicates)

/-! ## Points of one measurement -/

/-- The identity of a point with the labels of a metric. -/
def identityAt (base : WriteQuery) (metric : Metric) : String × Nat × Finset (String × String) :=
  (base.measurement, base.timestamp, base.tags.toFinset ∪ metric.labelSet)

theorem identity_labelled (base : WriteQuery) (field : String) (value : Field) (metric : Metric) :
    ((base.addField field value).addLabels metric.labels).identity = identityAt base metric := by
  rw [addLabels_eq, WriteQuery.identity, identityAt]
  simp only [WriteQuery.addField, List.toFinset_append]
  rfl

theorem labelSet_of_identityAt {base : WriteQuery} {a b : Metric} (ha : ∀ l ∈ a.labels, l.name ∉ base.tags.map Prod.fst)
    (hb : ∀ l ∈ b.labels, l.name ∉ base.tags.map Prod.fst) (h : identityAt base a = identityAt base b) :
    a.labelSet = b.labelSet := by
  have hdisj : ∀ {m : Metric}, (∀ l ∈ m.labels, l.name ∉ base.tags.map Prod.fst) → Disjoint base.tags.toFinset m.labelSet := by
    intro m hm
    rw [Finset.disjoint_left]
    intro t ht hmem
    obtain ⟨l, hl, rfl⟩ := List.mem_map.mp (List.mem_toFinset.mp hmem)
    exact hm l hl (List.mem_map_of_mem (List.mem_toFinset.mp ht))
  have hunion : base.tags.toFinset ∪ a.labelSet = base.tags.toFinset ∪ b.labelSet := congrArg (fun i => i.2.2) h
  rw [← (hdisj ha).sup_sdiff_cancel_left, ← (hdisj hb).sup_sdiff_cancel_left]
  exact congrArg (· \ base.tags.toFinset) hunion

theorem counterQuery_builds (r : Recorder) (name : String) :
    Builds (counterQuery r name) (Typed .counter) WriteQuery.identity (identityAt (r.query name)) where
  ok metric h := by
    obtain ⟨n, hn⟩ := h
    obtain ⟨value, hvalue, hcount⟩ := bind_ok_iff.mp (counterInt_ok_iff.mpr hn)
    exact ⟨_, bind_ok_iff.mpr ⟨value, hvalue, bind_ok_iff.mpr ⟨n, hcount, rfl⟩⟩⟩
  spec metric q h := by
    obtain ⟨value, hvalue, h⟩ := bind_ok_iff.mp h
    obtain ⟨n, hcount, h⟩ := bind_ok_iff.mp h
    cases h
    exact ⟨⟨n, counterInt_ok_iff.mp (bind_ok_iff.mpr ⟨value, hvalue, hcount⟩)⟩, identity_labelled _ _ _ metric⟩

theorem joinMetric_builds (base : WriteQuery) {family2 : MetricFamily} (predicate : Nat → Nat → Nat)
    (h2 : ∀ metric ∈ family2.metrics, Typed .counter metric) :
    Builds (joinMetric base family2 predicate) (Typed .counter) (List.map WriteQuery.identity)
      fun metric => if Joins family2 metric then [identityAt base metric] else [] where
  ok metric h := by
    obtain ⟨n, hn⟩ := h
    obtain ⟨value, hvalue, hcount⟩ := bind_ok_iff.mp (counterInt_ok_iff.mpr hn)
    obtain ⟨o, ho, -⟩ := otherValue_typed h2 metric
    cases o with
    | none => exact ⟨_, bind_ok_iff.mpr ⟨value, hvalue, bind_ok_iff.mpr ⟨n, hcount, bind_ok_iff.mpr ⟨none, ho, rfl⟩⟩⟩⟩
    | some other =>
      exact ⟨_, bind_ok_iff.mpr ⟨value, hvalue, bind_ok_iff.mpr ⟨n, hcount, bind_ok_iff.mpr ⟨some other, ho, rfl⟩⟩⟩⟩
  spec metric qs h := by
    obtain ⟨value, hvalue, h⟩ := bind_ok_iff.mp h
    obtain ⟨n, hcount, h⟩ := bind_ok_iff.mp h
    obtain ⟨o, ho, h⟩ := bind_ok_iff.mp h
    refine ⟨⟨n, counterInt_ok_iff.mp (bind_ok_iff.mpr ⟨value, hvalue, hcount⟩)⟩, ?_⟩
    obtain ⟨o', ho', hjoins⟩ := otherValue_typed h2 metric
    cases ho.symm.trans ho'
    cases o with
    | none =>
      cases h
      rw [← hjoins]
      rfl
    | some other =>
      cases h
      rw [← hjoins]
      exact congrArg (· :: []) (identity_labelled base _ _ metric)

/-! ## A whole recording -/

/-- The names are known, and what is recorded are integer counters. -/
def RecordableFamily (family : MetricFamily) : Prop :=
  ∃ recorded, isRecorded family.name = some recorded ∧ (recorded = true → ∀ metric ∈ family.metrics, Typed .counter metric)

def familyIdentities (r : Recorder) (family : MetricFamily) : List (String × Nat × Finset (String × String)) :=
  if isRecorded family.name = some true then family.metrics.map (identityAt (r.query family.name)) else []

theorem queriesFor_builds (r : Recorder) :
    Builds (queriesFor r) RecordableFamily (List.map WriteQuery.identity) (familyIdentities r) where
  ok family h := by
    obtain ⟨recorded, hrecorded, htyped⟩ := h
    rw [queriesFor, hrecorded]
    cases recorded with
    | true => exact (counterQuery_builds r family.name).mapM.ok _ (htyped rfl)
    | false => exact ⟨[], rfl⟩
  spec family qs h := by
    unfold queriesFor at h
    split at h
    · rename_i hrecorded
      obtain ⟨htyped, hview⟩ := (counterQuery_builds r family.name).mapM.spec _ _ h
      exact ⟨⟨true, hrecorded, fun _ => htyped⟩, by rw [familyIdentities, if_pos hrecorded]; exact hview⟩
    · rename_i hrecorded
      cases h
      refine ⟨⟨false, hrecorded, nofun⟩, ?_⟩
      rw [familyIdentities, if_neg (by simp [hrecorded])]
      rfl
    · cases h

structure Distinct (metricSet : MetricSet) : Prop where
  families : (metricSet.map (·.name)).Nodup
  metrics : ∀ family ∈ metricSet, (family.metrics.map Metric.labelSet).Nodup
  labels : ∀ family ∈ metricSet, ∀ metric ∈ family.metrics, ∀ l ∈ metric.labels, l.name ∉ [tagPeerId, tagRunId]

theorem name_of_measurement {name name' : String} (h : "scoring_" ++ name = "scoring_" ++ name') : name = name' := by
  have hchars := congrArg String.toList h
  rw [String.toList_append, String.toList_append] at hchars
  exact String.toList_inj.mp (List.append_cancel_left hchars)

section
variable {metricSet : MetricSet} (h : Distinct metricSet) (r : Recorder)
include h

theorem Distinct.pairwise_identity {family : MetricFamily} (hf : family ∈ metricSet) (name : String) :
    family.metrics.Pairwise fun a b => identityAt (r.query name) a ≠ identityAt (r.query name) b := by
  have hfree : ∀ m ∈ family.metrics, ∀ l ∈ m.labels, l.name ∉ (r.query name).tags.map Prod.fst := h.labels family hf
  have hsets := List.pairwise_map.mp (h.metrics family hf)
  exact hsets.imp_of_mem fun ha hb hne heq => hne (labelSet_of_identityAt (hfree _ ha) (hfree _ hb) heq)

theorem Distinct.nodup_families : (metricSet.flatMap (familyIdentities r)).Nodup := by
  have hname : ∀ {family x}, x ∈ familyIdentities r family → x.1 = "scoring_" ++ family.name := by
    intro family x hx
    unfold familyIdentities at hx
    split at hx
    · obtain ⟨metric, -, rfl⟩ := List.mem_map.mp hx
      rfl
    · cases hx
  rw [List.nodup_flatMap]
  refine ⟨fun family hf => ?_, ?_⟩
  · unfold familyIdentities
    split
    · exact List.pairwise_map.mpr (h.pairwise_identity r hf family.name)
    · exact List.nodup_nil
  · refine (List.pairwise_map.mp h.families).imp fun hne x hx hy => hne ?_
    exact name_of_measurement ((hname hx).symm.trans (hname hy))

omit h in
theorem counters_of_recordable (hr : ∀ family ∈ metricSet, RecordableFamily family) {name : String} {family : MetricFamily}
    (hname : isRecorded name = some true) (hf : metricSet.find? (·.name = name) = some family) :
    ∀ metric ∈ family.metrics, Typed .counter metric := by
  obtain ⟨recorded, hrecorded, htyped⟩ := hr family (List.mem_of_find?_eq_some hf)
  have heq : family.name = name := by simpa using List.find?_some hf
  rw [heq, hname] at hrecorded
  exact htyped (Option.some.inj hrecorded).symm

theorem Distinct.duplicates_spec (hr : ∀ family ∈ metricSet, RecordableFamily family) :
    (∃ qs, queriesForDuplicates r metricSet = .ok qs) ∧
      ∀ qs, queriesForDuplicates r metricSet = .ok qs → (qs.map WriteQuery.identity).Nodup ∧
        ∀ x ∈ qs.map WriteQuery.identity, x.1 = "scoring_topic_msg_recv_counts_duplicates" := by
  unfold queriesForDuplicates
  cases hf₁ : metricSet.find? (·.name = "topic_msg_recv_counts_unfiltered") with
  | none => exact ⟨⟨[], rfl⟩, fun qs hqs => by cases hqs; simp⟩
  | some family1 =>
    cases hf₂ : metricSet.find? (·.name = "topic_msg_recv_counts") with
    | none => exact ⟨⟨[], rfl⟩, fun qs hqs => by cases hqs; simp⟩
    | some family2 =>
      have hjoin := (joinMetric_builds (r.query "topic_msg_recv_counts_duplicates") (fun a b => a - b)
        (counters_of_recordable hr (by decide) hf₂)).flatten
      refine ⟨hjoin.ok _ (counters_of_recordable hr (by decide) hf₁), fun qs hqs => ?_⟩
      obtain ⟨-, hview⟩ := hjoin.spec _ _ hqs
      rw [hview, flatMap_ite_singleton]
      refine ⟨List.pairwise_map.mpr ?_, fun x hx => ?_⟩
      · exact (h.pairwise_identity r (List.mem_of_find?_eq_some hf₁) _).filter _
      · obtain ⟨metric, -, rfl⟩ := List.mem_map.mp hx
        rfl

/-- **No sample overwrites another.** Where the names are known and the recorded families are integer counters the plan
records without a panic, and all points differ. -/
theorem samples_distinct : ((∃ qs, recordMetrics r metricSet = .ok qs) ↔ ∀ family ∈ metricSet, RecordableFamily family) ∧
    ∀ qs, recordMetrics r metricSet = .ok qs → (qs.map WriteQuery.identity).Nodup := by
  have hbuilds := (queriesFor_builds r).mapM
  refine ⟨⟨?_, fun hr => ?_⟩, ?_⟩
  · rintro ⟨qs, hqs⟩
    obtain ⟨qss, hqss, -⟩ := bind_ok_iff.mp hqs
    exact (hbuilds.spec _ _ hqss).1
  · obtain ⟨qss, hqss⟩ := hbuilds.ok _ hr
    obtain ⟨dups, hdups⟩ := (h.duplicates_spec r hr).1
    exact ⟨_, bind_ok_iff.mpr ⟨qss, hqss, bind_ok_iff.mpr ⟨dups, hdups, rfl⟩⟩⟩
  · intro qs hqs
    obtain ⟨qss, hqss, hqs⟩ := bind_ok_iff.mp hqs
    obtain ⟨dups, hdups, hqs⟩ := bind_ok_iff.mp hqs
    cases hqs
    obtain ⟨hr, hview⟩ := hbuilds.spec _ _ hqss
    obtain ⟨hnodup, hmeasurement⟩ := (h.duplicates_spec r hr).2 dups hdups
    have hflat : qss.flatten.map WriteQuery.identity = metricSet.flatMap (familyIdentities r) := by
      rw [List.map_flatten, hview, List.flatMap_def]
    rw [List.map_append, hflat]
    refine List.nodup_append.mpr ⟨h.nodup_families r, hnodup, fun x hx y hy hxy => ?_⟩
    -- the joined measurement is not the name of a family
    obtain ⟨family, hf, hx⟩ := List.mem_flatMap.mp hx
    obtain ⟨recorded, hrecorded, -⟩ := hr family hf
    unfold familyIdentities at hx
    split at hx
    · obtain ⟨metric, -, rfl⟩ := List.mem_map.mp hx
      have hname : "scoring_" ++ family.name = "scoring_" ++ "topic_msg_recv_counts_duplicates" := by
        rw [← hxy] at hy
        exact hmeasurement _ hy
      have hnone : isRecorded "topic_msg_recv_counts_duplicates" = none := by decide
      rw [name_of_measurement hname, hnone] at hrecorded
      cases hrecorded
    · cases hx

end

/-- A histogram with two buckets is left out, and a counter is joined with another. -/
theorem samples_distinct_two :
    let metricSet : MetricSet := [⟨"heartbeat_duration", [⟨[], [⟨some (.histogramValue [⟨7, 0⟩, ⟨9, 1⟩])⟩]⟩]⟩,
      ⟨"topic_msg_recv_counts_unfiltered", [received [⟨"hash", "a"⟩] 5]⟩,
      ⟨"topic_msg_recv_counts", [received [⟨"hash", "a"⟩] 3]⟩]
    ∃ qs, recordMetrics ⟨0, "peer", "run"⟩ metricSet = .ok qs ∧ qs.length = 3 ∧ (qs.map WriteQuery.identity).Nodup := by
  intro metricSet
  have h : Distinct metricSet := ⟨by decide, by decide, by decide⟩
  exact ⟨_, rfl, rfl, (samples_distinct h ⟨0, "peer", "run"⟩).2 _ rfl⟩

end GossipPlans.Metrics.Scoring
