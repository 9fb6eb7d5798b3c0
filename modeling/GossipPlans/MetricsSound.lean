import GossipPlans.Metrics
import Mathlib.Data.List.Nodup

/-!
# Which points of one recording overwrite each other

A point is identified by measurement, timestamp and tag set. The buckets of a histogram differ only
in their fields, so they are one point (`histogramQueries_builds`); all other points of a recording
differ in the family or in the labels (`identities_nodup_iff`).
-/

namespace GossipPlans.Metrics

/-! ## Calls that succeed on a known domain -/

section
variable {α β γ : Type}

/-- `f` returns a value exactly on `P`, and `view` of the value is `g`. -/
structure Builds (f : α → Run β) (P : α → Prop) (view : β → γ) (g : α → γ) : Prop where
  ok : ∀ a, P a → ∃ b, f a = .ok b
  spec : ∀ a b, f a = .ok b → P a ∧ view b = g a

theorem Builds.mapM {f : α → Run β} {P : α → Prop} {view : β → γ} {g : α → γ} (h : Builds f P view g) :
    Builds (List.mapM f) (fun l => ∀ a ∈ l, P a) (List.map view) (List.map g) where
  ok l hl := by
    induction l with
    | nil => exact ⟨[], rfl⟩
    | cons a l ih =>
      obtain ⟨b, hb⟩ := h.ok a (hl a (List.mem_cons_self ..))
      obtain ⟨bs, hbs⟩ := ih fun x hx => hl x (List.mem_cons_of_mem _ hx)
      exact ⟨b :: bs, by rw [List.mapM_cons, hb, hbs]; rfl⟩
  spec l bs hbs := by
    induction l generalizing bs with
    | nil => cases hbs; exact ⟨nofun, rfl⟩
    | cons a l ih =>
      rw [List.mapM_cons] at hbs
      obtain ⟨b, hb, hbs⟩ := bind_ok_iff.mp hbs
      obtain ⟨bs, hl, hbs⟩ := bind_ok_iff.mp hbs
      cases hbs
      obtain ⟨ha, hv⟩ := h.spec a b hb
      obtain ⟨hl, hvs⟩ := ih bs hl
      exact ⟨List.forall_mem_cons.mpr ⟨ha, hl⟩, by rw [List.map_cons, List.map_cons, hv, hvs]⟩

theorem Builds.flatten {f : α → Run (List β)} {P : α → Prop} {view : β → γ} {g : α → List γ}
    (h : Builds f P (List.map view) g) :
    Builds (fun l => do let bs ← List.mapM f l; .ok bs.flatten) (fun l => ∀ a ∈ l, P a) (List.map view)
      (List.flatMap g) where
  ok l hl := by
    obtain ⟨bs, hbs⟩ := h.mapM.ok l hl
    exact ⟨bs.flatten, by simp only [hbs]; rfl⟩
  spec l bs hbs := by
    obtain ⟨bss, hm, hbs⟩ := bind_ok_iff.mp hbs
    cases hbs
    obtain ⟨hl, hv⟩ := h.mapM.spec l bss hm
    exact ⟨hl, by rw [List.map_flatten, hv, List.flatMap_def]⟩

end

/-! ## The identity of a point -/

def WriteQuery.identity (q : WriteQuery) : String × Nat × Finset (String × String) :=
  (q.measurement, q.timestamp, q.tags.toFinset)

def Metric.labelSet (metric : Metric) : Finset (String × String) :=
  (metric.labels.map fun l => (l.name, l.value)).toFinset

def Recorder.tagSet (r : Recorder) : Finset (String × String) :=
  {(tagInstancePeerId, r.peerId), (tagInstanceName, r.name), (tagRunId, r.runId)}

def identityOf (r : Recorder) (measurement : String) (metric : Metric) : String × Nat × Finset (String × String) :=
  (measurement, r.timestamp, r.tagSet ∪ metric.labelSet)

theorem addLabels_eq (labels : List Label) (q : WriteQuery) :
    q.addLabels labels = { q with tags := q.tags ++ labels.map fun l => (l.name, l.value) } := by
  induction labels generalizing q with
  | nil => simp [WriteQuery.addLabels]
  | cons l labels ih =>
    have hcons : q.addLabels (l :: labels) = (q.addTag l.name l.value).addLabels labels := rfl
    rw [hcons, ih]
    simp [WriteQuery.addTag]

theorem identity_addLabels (r : Recorder) (measurement : String) (metric : Metric) {q : WriteQuery}
    (hm : q.measurement = measurement) (ht : q.timestamp = r.timestamp) (hq : q.tags = (r.query measurement).tags) :
    (q.addLabels metric.labels).identity = identityOf r measurement metric := by
  rw [addLabels_eq, WriteQuery.identity, identityOf]
  simp only [hm, ht, hq, List.toFinset_append]
  rfl

/-! ## What the builders accept and emit -/

def Typed : Handling → Metric → Prop
  | .gauge _, metric => ∃ i, metric.metricPoints = [⟨some (.gaugeValue (some (.intValue i)))⟩]
  | .counter, metric => ∃ n, metric.metricPoints = [⟨some (.counterValue (some (.intValue n)))⟩]
  | .histogram, metric => ∃ buckets, metric.metricPoints = [⟨some (.histogramValue buckets)⟩]
  | .skip, _ => True

def Metric.bucketCount (metric : Metric) : Nat :=
  match metric.metricPoints with
  | [⟨some (.histogramValue buckets)⟩] => buckets.length
  | _ => 0

def pointsOf : Handling → Metric → Nat
  | .gauge _, _ => 1
  | .counter, _ => 1
  | .histogram, metric => metric.bucketCount
  | .skip, _ => 0

theorem pointValue_ok_iff {metric : Metric} {value : Value} :
    pointValue metric = .ok value ↔ metric.metricPoints = [⟨some value⟩] := by
  obtain ⟨labels, points⟩ := metric
  unfold pointValue
  match points with
  | [] => simp
  | [⟨none⟩] => simp
  | [⟨some v⟩] => simp
  | _ :: _ :: _ => simp

theorem counterInt_ok_iff {metric : Metric} {n : Nat} : (getCounterValue metric >>= expectInt) = .ok n ↔
    metric.metricPoints = [⟨some (.counterValue (some (.intValue n)))⟩] := by
  simp only [bind_ok_iff, getCounterValue, pointValue_ok_iff]
  constructor
  · intro h
    obtain ⟨value, ⟨v, hv, hvalue⟩, hn⟩ := h
    split at hvalue <;> cases hvalue <;> cases hn
    exact hv
  · exact fun h => ⟨_, ⟨_, h, rfl⟩, rfl⟩

theorem gaugeInt_ok_iff {metric : Metric} {i : Int} : (getGaugeValue metric >>= expectInt) = .ok i ↔
    metric.metricPoints = [⟨some (.gaugeValue (some (.intValue i)))⟩] := by
  simp only [bind_ok_iff, getGaugeValue, pointValue_ok_iff]
  constructor
  · intro h
    obtain ⟨value, ⟨v, hv, hvalue⟩, hn⟩ := h
    split at hvalue <;> cases hvalue <;> cases hn
    exact hv
  · exact fun h => ⟨_, ⟨_, h, rfl⟩, rfl⟩

theorem getHistogramValue_ok_iff {metric : Metric} {buckets : List Bucket} : getHistogramValue metric = .ok buckets ↔
    metric.metricPoints = [⟨some (.histogramValue buckets)⟩] := by
  simp only [getHistogramValue, bind_ok_iff, pointValue_ok_iff]
  constructor
  · intro h
    obtain ⟨v, hv, hvalue⟩ := h
    split at hvalue <;> cases hvalue
    exact hv
  · exact fun h => ⟨_, h, rfl⟩

section
variable (r : Recorder) (name : String)

theorem intQuery_builds {α : Type} {value : Metric → Run (Option α × Option UInt64)} {P : Metric → α → Prop}
    (hvalue : ∀ {metric a}, (value metric >>= expectInt) = .ok a ↔ P metric a) (fieldName : String)
    (toField : α → Field) :
    Builds (fun metric => do
        let v ← value metric
        let a ← expectInt v
        .ok (((r.query name).addField fieldName (toField a)).addLabels metric.labels))
      (fun metric => ∃ a, P metric a) WriteQuery.identity (identityOf r name) where
  ok metric h := by
    obtain ⟨a, ha⟩ := h
    obtain ⟨v, hv, hi⟩ := bind_ok_iff.mp (hvalue.mpr ha)
    exact ⟨_, bind_ok_iff.mpr ⟨v, hv, bind_ok_iff.mpr ⟨a, hi, rfl⟩⟩⟩
  spec metric q h := by
    obtain ⟨v, hv, h⟩ := bind_ok_iff.mp h
    obtain ⟨a, hi, h⟩ := bind_ok_iff.mp h
    cases h
    exact ⟨⟨a, hvalue.mp (bind_ok_iff.mpr ⟨v, hv, hi⟩)⟩, identity_addLabels r name metric rfl rfl rfl⟩

theorem counterQuery_builds :
    Builds (counterQuery r name) (Typed .counter) WriteQuery.identity (identityOf r name) :=
  intQuery_builds r name counterInt_ok_iff "count" .unsigned

theorem gaugeQuery_builds (fieldName : String) :
    Builds (gaugeQuery r name fieldName) (Typed (.gauge fieldName)) WriteQuery.identity (identityOf r name) :=
  intQuery_builds r name gaugeInt_ok_iff fieldName .signed

/-- The buckets of one metric share one identity. -/
theorem histogramQueries_builds : Builds (histogramQueries r name) (Typed .histogram) (List.map WriteQuery.identity)
    fun metric => List.replicate metric.bucketCount (identityOf r name metric) where
  ok metric h := by
    obtain ⟨buckets, hb⟩ := h
    exact ⟨_, bind_ok_iff.mpr ⟨buckets, getHistogramValue_ok_iff.mpr hb, rfl⟩⟩
  spec metric qs h := by
    obtain ⟨buckets, hb, h⟩ := bind_ok_iff.mp h
    cases h
    have hpoints := getHistogramValue_ok_iff.mp hb
    refine ⟨⟨buckets, hpoints⟩, ?_⟩
    rw [Metric.bucketCount, hpoints, List.map_map]
    exact List.eq_replicate_iff.mpr ⟨by simp, fun x hx => by
      obtain ⟨bucket, -, rfl⟩ := List.mem_map.mp hx
      exact identity_addLabels r name metric rfl rfl rfl⟩

end

def RecordableFamily (plan : Plan) (family : MetricFamily) : Prop :=
  ∃ h, handling plan family.name = some h ∧ ∀ metric ∈ family.metrics, Typed h metric

def familyIdentities (plan : Plan) (r : Recorder) (family : MetricFamily) :
    List (String × Nat × Finset (String × String)) :=
  family.metrics.flatMap fun metric =>
    List.replicate (((handling plan family.name).map fun h => pointsOf h metric).getD 0) (identityOf r family.name metric)

theorem flatMap_replicate_one {α β : Type} (l : List α) (f : α → β) : (l.flatMap fun a => List.replicate 1 (f a)) = l.map f := by
  induction l with
  | nil => rfl
  | cons a l ih => rw [List.flatMap_cons, ih]; rfl

theorem queriesFor_builds (plan : Plan) (r : Recorder) :
    Builds (queriesFor plan r) (RecordableFamily plan) (List.map WriteQuery.identity) (familyIdentities plan r) where
  ok family h := by
    obtain ⟨h, hh, ht⟩ := h
    rw [queriesFor, hh]
    cases h with
    | gauge fieldName => exact (gaugeQuery_builds r family.name fieldName).mapM.ok _ ht
    | counter => exact (counterQuery_builds r family.name).mapM.ok _ ht
    | histogram => exact (histogramQueries_builds r family.name).flatten.ok _ ht
    | skip => exact ⟨[], rfl⟩
  spec family qs hqs := by
    unfold queriesFor at hqs
    unfold RecordableFamily familyIdentities
    cases hh : handling plan family.name with
    | none => rw [hh] at hqs; cases hqs
    | some h =>
      rw [hh] at hqs
      simp only [Option.map_some, Option.getD_some]
      cases h with
      | gauge fieldName =>
        obtain ⟨ht, hv⟩ := (gaugeQuery_builds r family.name fieldName).mapM.spec _ _ hqs
        exact ⟨⟨_, rfl, ht⟩, hv.trans (flatMap_replicate_one _ _).symm⟩
      | counter =>
        obtain ⟨ht, hv⟩ := (counterQuery_builds r family.name).mapM.spec _ _ hqs
        exact ⟨⟨_, rfl, ht⟩, hv.trans (flatMap_replicate_one _ _).symm⟩
      | histogram =>
        obtain ⟨ht, hv⟩ := (histogramQueries_builds r family.name).flatten.spec _ _ hqs
        exact ⟨⟨_, rfl, ht⟩, hv⟩
      | skip =>
        cases hqs
        exact ⟨⟨_, rfl, fun _ _ => trivial⟩, by simp [pointsOf]⟩

/-! ## The join -/

def Joins (family2 : MetricFamily) (metric : Metric) : Bool := (family2.metrics.find? (matchesLabels metric)).isSome

theorem flatMap_ite_singleton {α β : Type} (p : α → Bool) (f : α → β) (l : List α) :
    (l.flatMap fun a => if p a then [f a] else []) = (l.filter p).map f := by
  induction l with
  | nil => rfl
  | cons a l ih =>
    rw [List.flatMap_cons, ih, List.filter_cons]
    split <;> rfl

theorem otherValue_typed {family2 : MetricFamily} (h2 : ∀ metric ∈ family2.metrics, Typed .counter metric)
    (metric : Metric) : ∃ o, otherValue family2 metric = .ok o ∧ o.isSome = Joins family2 metric := by
  unfold otherValue Joins
  cases hf : family2.metrics.find? (matchesLabels metric) with
  | none => exact ⟨none, rfl, rfl⟩
  | some m2 =>
    obtain ⟨n, hn⟩ := h2 m2 (List.mem_of_find?_eq_some hf)
    obtain ⟨value, hv, hi⟩ := bind_ok_iff.mp (counterInt_ok_iff.mpr hn)
    refine ⟨value.1, by simp only [hv]; rfl, ?_⟩
    unfold expectInt at hi
    cases hval : value.1 with
    | none => rw [hval] at hi; cases hi
    | some n => rfl

theorem joinQuery_builds (r : Recorder) {family2 : MetricFamily} (name : String) (predicate : Nat → Nat → Nat)
    (h2 : ∀ metric ∈ family2.metrics, Typed .counter metric) :
    Builds (joinQuery r family2 name predicate) (Typed .counter) (List.map WriteQuery.identity)
      fun metric => if Joins family2 metric then [identityOf r name metric] else [] where
  ok metric h := by
    obtain ⟨n, hn⟩ := h
    obtain ⟨value, hv, hi⟩ := bind_ok_iff.mp (counterInt_ok_iff.mpr hn)
    obtain ⟨o, ho, -⟩ := otherValue_typed h2 metric
    simp only [joinQuery, hv, hi, ho, Bind.bind, Except.bind]
    cases o with
    | none => exact ⟨_, rfl⟩
    | some other => exact ⟨_, rfl⟩
  spec metric qs h := by
    obtain ⟨value, hv, h⟩ := bind_ok_iff.mp h
    obtain ⟨n, hi, h⟩ := bind_ok_iff.mp h
    obtain ⟨o, ho, h⟩ := bind_ok_iff.mp h
    refine ⟨⟨n, counterInt_ok_iff.mp (bind_ok_iff.mpr ⟨value, hv, hi⟩)⟩, ?_⟩
    obtain ⟨o', ho', hj⟩ := otherValue_typed h2 metric
    rw [ho] at ho'
    cases ho'
    cases o with
    | none => cases h; rw [← hj]; rfl
    | some other => cases h; rw [← hj]; exact congrArg (· :: []) (identity_addLabels r name metric rfl rfl rfl)

/-! ## A whole recording -/

def Recordable (plan : Plan) (metricSet : MetricSet) : Prop := ∀ family ∈ metricSet, RecordableFamily plan family

structure Distinct (metricSet : MetricSet) : Prop where
  families : (metricSet.map (·.name)).Nodup
  metrics : ∀ family ∈ metricSet, (family.metrics.map Metric.labelSet).Nodup
  labels : ∀ family ∈ metricSet, ∀ metric ∈ family.metrics, ∀ l ∈ metric.labels,
    l.name ∉ [tagInstancePeerId, tagInstanceName, tagRunId]

theorem identityOf_inj {r : Recorder} {name : String} {a b : Metric}
    (ha : ∀ l ∈ a.labels, l.name ∉ [tagInstancePeerId, tagInstanceName, tagRunId])
    (hb : ∀ l ∈ b.labels, l.name ∉ [tagInstancePeerId, tagInstanceName, tagRunId])
    (h : identityOf r name a = identityOf r name b) : a.labelSet = b.labelSet := by
  have hdisj : ∀ m : Metric, (∀ l ∈ m.labels, l.name ∉ [tagInstancePeerId, tagInstanceName, tagRunId]) →
      ∀ t ∈ m.labelSet, t ∉ r.tagSet := by
    intro m hm t ht hr
    obtain ⟨l, hl, rfl⟩ := List.mem_map.mp (List.mem_toFinset.mp ht)
    apply hm l hl
    simp only [Recorder.tagSet, Finset.mem_insert, Finset.mem_singleton, Prod.mk.injEq] at hr
    simp only [List.mem_cons, List.not_mem_nil, or_false]
    rcases hr with h | h | h
    · exact Or.inl h.1
    · exact Or.inr (Or.inl h.1)
    · exact Or.inr (Or.inr h.1)
  have hset : r.tagSet ∪ a.labelSet = r.tagSet ∪ b.labelSet := congrArg (fun i => i.2.2) h
  ext t
  constructor
  · intro ht
    have hmem : t ∈ r.tagSet ∪ b.labelSet := hset ▸ Finset.mem_union_right _ ht
    exact (Finset.mem_union.mp hmem).resolve_left (hdisj a ha t ht)
  · intro ht
    have hmem : t ∈ r.tagSet ∪ a.labelSet := hset.symm ▸ Finset.mem_union_right _ ht
    exact (Finset.mem_union.mp hmem).resolve_left (hdisj b hb t ht)

section
variable {metricSet : MetricSet} (h : Distinct metricSet) (plan : Plan) (r : Recorder)
include h

theorem Distinct.pairwise_identity {family : MetricFamily} (hf : family ∈ metricSet) (name : String) :
    family.metrics.Pairwise fun a b => identityOf r name a ≠ identityOf r name b := by
  have hp := List.pairwise_map.mp (h.metrics family hf)
  exact hp.imp_of_mem fun ha hb hne heq => hne (identityOf_inj (h.labels family hf _ ha) (h.labels family hf _ hb) heq)

theorem Distinct.nodup_family_iff {family : MetricFamily} (hf : family ∈ metricSet) :
    (familyIdentities plan r family).Nodup ↔
      (handling plan family.name = some .histogram → ∀ metric ∈ family.metrics, metric.bucketCount ≤ 1) := by
  rw [familyIdentities, List.nodup_flatMap]
  have hdisj : family.metrics.Pairwise (Function.onFun List.Disjoint fun metric =>
      List.replicate (((handling plan family.name).map fun h => pointsOf h metric).getD 0) (identityOf r family.name metric)) := by
    refine (h.pairwise_identity r hf family.name).imp fun hne x hx hy => hne ?_
    exact (List.mem_replicate.mp hx).2.symm.trans (List.mem_replicate.mp hy).2
  simp only [hdisj, and_true, List.nodup_replicate]
  cases hh : handling plan family.name with
  | none => simp
  | some hd => cases hd <;> simp [pointsOf]

theorem Distinct.nodup_families_iff : (metricSet.flatMap (familyIdentities plan r)).Nodup ↔
    ∀ family ∈ metricSet, handling plan family.name = some .histogram →
      ∀ metric ∈ family.metrics, metric.bucketCount ≤ 1 := by
  rw [List.nodup_flatMap]
  have hname : ∀ {family x}, x ∈ familyIdentities plan r family → x.1 = family.name := by
    intro family x hx
    obtain ⟨metric, -, hx⟩ := List.mem_flatMap.mp hx
    rw [(List.mem_replicate.mp hx).2]; rfl
  have hdisj : metricSet.Pairwise (Function.onFun List.Disjoint (familyIdentities plan r)) :=
    (List.pairwise_map.mp h.families).imp fun hne x hx hy => hne ((hname hx).symm.trans (hname hy))
  simp only [hdisj, and_true]
  exact forall₂_congr fun family hf => h.nodup_family_iff plan r hf

theorem Distinct.duplicates_spec (hr : Recordable .ethConsensus metricSet) :
    (∃ qs, queriesForDuplicates r metricSet = .ok qs) ∧
      ∀ qs, queriesForDuplicates r metricSet = .ok qs → (qs.map WriteQuery.identity).Nodup ∧
        ∀ x ∈ qs.map WriteQuery.identity, x.1 = "topic_msg_recv_duplicates" := by
  have htyped : ∀ {name family}, handling .ethConsensus name = some .counter →
      metricSet.find? (·.name = name) = some family → ∀ metric ∈ family.metrics, Typed .counter metric := by
    intro name family hh hf
    obtain ⟨hd, hhd, ht⟩ := hr family (List.mem_of_find?_eq_some hf)
    have hname : family.name = name := by simpa using List.find?_some hf
    rw [hname, hh] at hhd
    cases hhd
    exact ht
  unfold queriesForDuplicates
  cases hf₁ : metricSet.find? (·.name = "topic_msg_recv_counts_unfiltered") with
  | none => exact ⟨⟨[], rfl⟩, fun qs hqs => by cases hqs; simp⟩
  | some family1 =>
    cases hf₂ : metricSet.find? (·.name = "topic_msg_recv_counts") with
    | none => exact ⟨⟨[], rfl⟩, fun qs hqs => by cases hqs; simp⟩
    | some family2 =>
      have hjoin := (joinQuery_builds r "topic_msg_recv_duplicates" (fun a b => a - b)
        (htyped (by decide) hf₂)).flatten
      refine ⟨hjoin.ok _ (htyped (by decide) hf₁), fun qs hqs => ?_⟩
      obtain ⟨-, hv⟩ := hjoin.spec _ _ hqs
      rw [hv, flatMap_ite_singleton]
      refine ⟨List.pairwise_map.mpr ?_, fun x hx => ?_⟩
      · exact (h.pairwise_identity r (List.mem_of_find?_eq_some hf₁) _).filter _
      · obtain ⟨metric, -, rfl⟩ := List.mem_map.mp hx
        rfl

theorem recordMetrics_ok (hr : Recordable plan metricSet) : ∃ qs, recordMetrics plan r metricSet = .ok qs := by
  obtain ⟨qss, hq⟩ := (queriesFor_builds plan r).mapM.ok _ hr
  cases plan with
  | censoring => exact ⟨qss.flatten, bind_ok_iff.mpr ⟨qss, hq, rfl⟩⟩
  | ethConsensus =>
    obtain ⟨dups, hd⟩ := (h.duplicates_spec r hr).1
    exact ⟨qss.flatten ++ dups, bind_ok_iff.mpr ⟨qss, hq, bind_ok_iff.mpr ⟨dups, hd, rfl⟩⟩⟩

theorem recordMetrics_spec {qs : List WriteQuery} (hqs : recordMetrics plan r metricSet = .ok qs) :
    Recordable plan metricSet ∧ ((qs.map WriteQuery.identity).Nodup ↔
      (metricSet.flatMap (familyIdentities plan r)).Nodup) := by
  obtain ⟨qss, hq, hrest⟩ := bind_ok_iff.mp hqs
  obtain ⟨hr, hv⟩ := (queriesFor_builds plan r).mapM.spec _ _ hq
  have hflat : qss.flatten.map WriteQuery.identity = metricSet.flatMap (familyIdentities plan r) := by
    rw [List.map_flatten, hv, List.flatMap_def]
  refine ⟨hr, ?_⟩
  cases plan with
  | censoring => cases hrest; rw [hflat]
  | ethConsensus =>
    obtain ⟨dups, hd, hrest⟩ := bind_ok_iff.mp hrest
    cases hrest
    obtain ⟨hnodup, hmeas⟩ := (h.duplicates_spec r hr).2 dups hd
    rw [List.map_append, hflat, List.nodup_append]
    refine ⟨fun hn => hn.1, fun hn => ⟨hn, hnodup, fun x hx y hy hxy => ?_⟩⟩
    -- no family with a known name is called like the joined measurement
    obtain ⟨family, hf, hx⟩ := List.mem_flatMap.mp hx
    obtain ⟨metric, -, hx⟩ := List.mem_flatMap.mp hx
    obtain ⟨hd, hhd, -⟩ := hr family hf
    have hname : family.name = "topic_msg_recv_duplicates" := by
      have := hmeas y hy
      rwa [← hxy, (List.mem_replicate.mp hx).2] at this
    have hnone : handling .ethConsensus "topic_msg_recv_duplicates" = none := by decide
    rw [hname, hnone] at hhd
    cases hhd

/-- **When no recorded sample overwrites another.** For the metric sets a plan records without a panic:
when no recorded histogram has two buckets. -/
theorem identities_nodup_iff :
    (∀ qs, recordMetrics plan r metricSet = .ok qs → (qs.map WriteQuery.identity).Nodup) ↔
      (Recordable plan metricSet → ∀ family ∈ metricSet, handling plan family.name = some .histogram →
        ∀ metric ∈ family.metrics, metric.bucketCount ≤ 1) := by
  rw [← h.nodup_families_iff plan r]
  constructor
  · intro hall hr
    obtain ⟨qs, hqs⟩ := recordMetrics_ok h plan r hr
    exact (recordMetrics_spec h plan r hqs).2.mp (hall qs hqs)
  · intro hcond qs hqs
    obtain ⟨hr, hiff⟩ := recordMetrics_spec h plan r hqs
    exact hiff.mpr (hcond hr)

end

def counterOf (labels : List Label) (n : Nat) : Metric := ⟨labels, [⟨some (.counterValue (some (.intValue n)))⟩]⟩

/-- Received messages of two topics, and a histogram that has one bucket. -/
def twoTopics : MetricSet :=
  [⟨"topic_msg_recv_counts_unfiltered", [counterOf [⟨"hash", "a"⟩] 9, counterOf [⟨"hash", "b"⟩] 7]⟩,
    ⟨"topic_msg_recv_counts", [counterOf [⟨"hash", "a"⟩] 5, counterOf [⟨"hash", "b"⟩] 7]⟩,
    ⟨"heartbeat_duration", [⟨[], [⟨some (.histogramValue [⟨7, 0⟩])⟩]⟩]⟩]

-- five samples and, of each topic, the duplicates: seven points
theorem identities_nodup_two_topics : ∃ qs, recordMetrics .ethConsensus ⟨0, "peer", "0", "run"⟩ twoTopics = .ok qs ∧
    qs.length = 7 ∧ (qs.map WriteQuery.identity).Nodup :=
  have hdistinct : Distinct twoTopics := ⟨by decide, by decide, by decide⟩
  have honeBucket : ∀ family ∈ twoTopics, handling .ethConsensus family.name = some .histogram →
      ∀ metric ∈ family.metrics, metric.bucketCount ≤ 1 := by decide
  ⟨_, rfl, rfl, (identities_nodup_iff hdistinct .ethConsensus ⟨0, "peer", "0", "run"⟩).mpr (fun _ => honeBucket) _ rfl⟩

/-- Two buckets of one histogram: both plans write them to one point. -/
theorem buckets_collide :
    Distinct [⟨"heartbeat_duration", [⟨[], [⟨some (.histogramValue [⟨7, 0⟩, ⟨9, 1⟩])⟩]⟩]⟩] ∧
      ∀ plan, ∃ qs, recordMetrics plan ⟨0, "peer", "0", "run"⟩
        [⟨"heartbeat_duration", [⟨[], [⟨some (.histogramValue [⟨7, 0⟩, ⟨9, 1⟩])⟩]⟩]⟩] = .ok qs ∧
          ¬ (qs.map WriteQuery.identity).Nodup := by
  refine ⟨⟨by decide, by decide, by decide⟩, fun plan => ?_⟩
  cases plan with
  | ethConsensus => exact ⟨_, rfl, by decide⟩
  | censoring => exact ⟨_, rfl, by decide⟩

end GossipPlans.Metrics
