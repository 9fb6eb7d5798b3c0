import GossipPlans.MetricsSound
import Mathlib.Data.List.Find
import Mathlib.Data.List.Forall2

/-!
# Joining two counter families

`queries_for_counter_join` takes the first metric of the other family that has all labels of a metric. When
all metrics have the same label names, each once, that metric has the same label set, so the join is a lookup
by label set (`counterJoin_eq`) and neither order matters.
-/

namespace GossipPlans.Metrics

def joinMetric (base : WriteQuery) (family2 : MetricFamily) (predicate : Nat → Nat → Nat) (metric : Metric) :
    Run (List WriteQuery) := do
  let value ← getCounterValue metric
  let current ← expectInt value
  let other ← otherValue family2 metric
  match other with
  | none => .ok []
  | some other => .ok [(base.addField "count" (.unsigned (predicate current other))).addLabels metric.labels]

/-- The text that both plans share; `base` is the query with the plan's measurement and tags. -/
def counterJoin (base : WriteQuery) (family1 family2 : MetricFamily) (predicate : Nat → Nat → Nat) :
    Run (List WriteQuery) := do
  let queries ← family1.metrics.mapM (joinMetric base family2 predicate)
  .ok queries.flatten

theorem queriesForCounterJoin_eq (r : Recorder) (family1 family2 : MetricFamily) (name : String)
    (predicate : Nat → Nat → Nat) :
    queriesForCounterJoin r family1 family2 name predicate = counterJoin (r.query name) family1 family2 predicate := rfl

namespace Scoring

def tagPeerId : String := "peer_id"

structure Recorder where
  timestamp : Nat
  peerId : String
  runId : String
deriving DecidableEq, Repr

/-- `format!("{}_{name}", env!("CARGO_PKG_NAME"))` -/
def Recorder.query (r : Recorder) (name : String) : WriteQuery :=
  ((WriteQuery.new r.timestamp ("scoring_" ++ name)).addTag tagPeerId r.peerId).addTag tagRunId r.runId

def queriesForCounterJoin (r : Recorder) (family1 family2 : MetricFamily) (name : String)
    (predicate : Nat → Nat → Nat) : Run (List WriteQuery) :=
  counterJoin (r.query name) family1 family2 predicate

end Scoring

/-! ## Families that can be compared -/

def Metric.labelNames (metric : Metric) : List String := metric.labels.map Label.name

/-- The integer of a counter with one point. -/
def Metric.counterInt (metric : Metric) : Nat :=
  match metric.metricPoints with
  | [⟨some (.counterValue (some (.intValue n)))⟩] => n
  | _ => 0

/-- Integer counters whose metrics all have the same label names, each once; no label set twice in a family. -/
structure Comparable (family1 family2 : MetricFamily) : Prop where
  typed : ∀ m ∈ family1.metrics ++ family2.metrics, Typed .counter m
  once : ∀ m ∈ family1.metrics ++ family2.metrics, m.labelNames.Nodup
  names : ∀ m ∈ family1.metrics ++ family2.metrics, ∀ m' ∈ family1.metrics ++ family2.metrics,
    ∀ name, name ∈ m.labelNames ↔ name ∈ m'.labelNames
  distinct1 : (family1.metrics.map Metric.labelSet).Nodup
  distinct2 : (family2.metrics.map Metric.labelSet).Nodup

def Occurs (family : MetricFamily) (metric : Metric) : Prop := ∃ m ∈ family.metrics, m.labelSet = metric.labelSet

instance (family : MetricFamily) (metric : Metric) : Decidable (Occurs family metric) :=
  inferInstanceAs (Decidable (∃ m ∈ family.metrics, m.labelSet = metric.labelSet))

/-- The query for `metric`, joined with the metric of `family2` at the same label set. -/
structure Emitted (base : WriteQuery) (family2 : MetricFamily) (predicate : Nat → Nat → Nat) (metric : Metric)
    (q : WriteQuery) : Prop where
  measurement : q.measurement = base.measurement
  timestamp : q.timestamp = base.timestamp
  tags : q.tags = base.tags ++ metric.labels.map fun l => (l.name, l.value)
  count : ∃ m ∈ family2.metrics, m.labelSet = metric.labelSet ∧
    q.fields = base.fields ++ [("count", .unsigned (predicate metric.counterInt m.counterInt))]

structure SameMetric (metric metric' : Metric) : Prop where
  labels : metric.labels.Perm metric'.labels
  points : metric.metricPoints = metric'.metricPoints

structure SameQuery (q q' : WriteQuery) : Prop where
  measurement : q.measurement = q'.measurement
  timestamp : q.timestamp = q'.timestamp
  tags : q.tags.Perm q'.tags
  fields : q.fields = q'.fields

structure ExactJoin (base : WriteQuery) (predicate : Nat → Nat → Nat)
    (join : MetricFamily → MetricFamily → Run (List WriteQuery)) : Prop where
  emits : ∀ family1 family2, Comparable family1 family2 → ∃ qs, join family1 family2 = .ok qs ∧
    List.Forall₂ (Emitted base family2 predicate) (family1.metrics.filter fun m => Occurs family2 m) qs
  order : ∀ family1 family2 family1' family2' reordered, Comparable family1 family2 →
    List.Forall₂ SameMetric family1.metrics family1'.metrics → reordered.Perm family2.metrics →
    List.Forall₂ SameMetric reordered family2'.metrics →
    ∃ qs qs', join family1 family2 = .ok qs ∧ join family1' family2' = .ok qs' ∧ List.Forall₂ SameQuery qs qs'

/-! ## The first hit has the same label set -/

theorem mem_labelSet {metric : Metric} {name value : String} :
    (name, value) ∈ metric.labelSet ↔ ∃ l ∈ metric.labels, l.name = name ∧ l.value = value := by
  simp [Metric.labelSet]

theorem matchesLabels_iff {metric m2 : Metric} : matchesLabels metric m2 = true ↔ metric.labelSet ⊆ m2.labelSet := by
  simp only [matchesLabels, List.all_eq_true, List.any_eq_true, decide_eq_true_eq]
  constructor
  · intro h t ht
    obtain ⟨name, value⟩ := t
    obtain ⟨l, hl, rfl, rfl⟩ := mem_labelSet.mp ht
    exact mem_labelSet.mpr (h l hl)
  · intro h l hl
    exact mem_labelSet.mp (h (mem_labelSet.mpr ⟨l, hl, rfl, rfl⟩))

/-- A name occurs once, so its value in the larger set is the one in the smaller set. -/
theorem labelSet_eq_of_subset {a b : Metric} (hnames : ∀ name, name ∈ a.labelNames ↔ name ∈ b.labelNames)
    (honce : b.labelNames.Nodup) (hsub : a.labelSet ⊆ b.labelSet) : a.labelSet = b.labelSet := by
  apply Finset.Subset.antisymm hsub
  intro t ht
  obtain ⟨name, value⟩ := t
  obtain ⟨l, hl, rfl, rfl⟩ := mem_labelSet.mp ht
  obtain ⟨l', hl', hname⟩ := List.mem_map.mp ((hnames l.name).mpr (List.mem_map_of_mem hl))
  obtain ⟨l'', hl'', hname'', hvalue''⟩ := mem_labelSet.mp (hsub (mem_labelSet.mpr ⟨l', hl', rfl, rfl⟩))
  have heq : l'' = l := List.inj_on_of_nodup_map honce hl'' hl (hname''.trans hname)
  rw [← heq, hname'', hvalue'']
  exact mem_labelSet.mpr ⟨l', hl', rfl, rfl⟩

theorem Comparable.matches_iff {family1 family2 : MetricFamily} (h : Comparable family1 family2) {m m2 : Metric}
    (hm : m ∈ family1.metrics) (hm2 : m2 ∈ family2.metrics) : matchesLabels m m2 = decide (m2.labelSet = m.labelSet) := by
  have hm := List.mem_append_left family2.metrics hm
  have hm2 := List.mem_append_right family1.metrics hm2
  rw [Bool.eq_iff_iff, matchesLabels_iff, decide_eq_true_eq]
  constructor
  · exact fun hsub => (labelSet_eq_of_subset (h.names m hm m2 hm2) (h.once m2 hm2) hsub).symm
  · exact fun heq => heq ▸ Finset.Subset.refl _

/-! ## The join is a lookup by label set -/

def valueAt (family : MetricFamily) (labels : Finset (String × String)) : Option Nat :=
  (family.metrics.find? fun m => m.labelSet = labels).map Metric.counterInt

def joined (base : WriteQuery) (predicate : Nat → Nat → Nat) (metric : Metric) (other : Nat) : WriteQuery :=
  (base.addField "count" (.unsigned (predicate metric.counterInt other))).addLabels metric.labels

theorem valueAt_eq_some_iff {family : MetricFamily} (h : (family.metrics.map Metric.labelSet).Nodup)
    {labels : Finset (String × String)} {n : Nat} :
    valueAt family labels = some n ↔ ∃ m ∈ family.metrics, m.labelSet = labels ∧ m.counterInt = n := by
  rw [valueAt, Option.map_eq_some_iff]
  constructor
  · intro hn
    obtain ⟨m, hm, hn⟩ := hn
    exact ⟨m, List.mem_of_find?_eq_some hm, by simpa using List.find?_some hm, hn⟩
  · intro hn
    obtain ⟨m, hm, rfl, hn⟩ := hn
    cases hfind : family.metrics.find? fun m' => m'.labelSet = m.labelSet with
    | none => exact absurd (List.find?_eq_none.mp hfind m hm) (by simp)
    | some m' =>
      have hset : m'.labelSet = m.labelSet := by simpa using List.find?_some hfind
      rw [List.inj_on_of_nodup_map h (List.mem_of_find?_eq_some hfind) hm hset]
      exact ⟨m, rfl, hn⟩

theorem getCounterValue_typed {metric : Metric} (h : Typed .counter metric) :
    getCounterValue metric = .ok (some metric.counterInt, none) := by
  obtain ⟨n, hn⟩ := h
  rw [getCounterValue, pointValue_ok_iff.mpr hn, Metric.counterInt, hn]
  rfl

section
variable {family1 family2 : MetricFamily}

theorem Comparable.otherValue_eq (h : Comparable family1 family2) {m : Metric} (hm : m ∈ family1.metrics) :
    otherValue family2 m = .ok (valueAt family2 m.labelSet) := by
  rw [otherValue, valueAt, List.find?_congr fun m2 hm2 => h.matches_iff hm hm2]
  cases hfind : family2.metrics.find? fun m2 => m2.labelSet = m.labelSet with
  | none => rfl
  | some m2 =>
    have hm2 := List.mem_append_right family1.metrics (List.mem_of_find?_eq_some hfind)
    simp only [getCounterValue_typed (h.typed m2 hm2)]
    rfl

theorem Comparable.joinMetric_eq (h : Comparable family1 family2) (base : WriteQuery) (predicate : Nat → Nat → Nat)
    {m : Metric} (hm : m ∈ family1.metrics) :
    joinMetric base family2 predicate m = .ok ((valueAt family2 m.labelSet).map (joined base predicate m)).toList := by
  rw [joinMetric, getCounterValue_typed (h.typed m (List.mem_append_left _ hm))]
  simp only [expectInt, h.otherValue_eq hm, Bind.bind, Except.bind]
  cases valueAt family2 m.labelSet with
  | none => rfl
  | some other => rfl

theorem Comparable.counterJoin_eq (h : Comparable family1 family2) (base : WriteQuery) (predicate : Nat → Nat → Nat) :
    counterJoin base family1 family2 predicate =
      .ok (family1.metrics.filterMap fun m => (valueAt family2 m.labelSet).map (joined base predicate m)) := by
  rw [counterJoin, mapM_ok fun m hm => h.joinMetric_eq base predicate hm, List.filterMap_eq_flatMap_toList,
    List.flatMap_def]
  rfl

/-! ## What is emitted -/

theorem forall₂_filterMap {α β : Type} {f : α → Option β} {R : α → β → Prop} {p : α → Bool} : ∀ {l : List α},
    (∀ a ∈ l, p a = (f a).isSome) → (∀ a ∈ l, ∀ b, f a = some b → R a b) →
    List.Forall₂ R (l.filter p) (l.filterMap f)
  | [], _, _ => .nil
  | a :: l, hp, hR => by
    have ih := forall₂_filterMap (fun x hx => hp x (List.mem_cons_of_mem _ hx))
      fun x hx => hR x (List.mem_cons_of_mem _ hx)
    have ha := hp a (List.mem_cons_self ..)
    cases hf : f a with
    | none =>
      rw [hf] at ha
      simpa [hf, ha] using ih
    | some b =>
      rw [hf] at ha
      simpa [hf, ha] using ⟨hR a (List.mem_cons_self ..) b hf, ih⟩

theorem Comparable.emits (h : Comparable family1 family2) (base : WriteQuery) (predicate : Nat → Nat → Nat) :
    List.Forall₂ (Emitted base family2 predicate) (family1.metrics.filter fun m => Occurs family2 m)
      (family1.metrics.filterMap fun m => (valueAt family2 m.labelSet).map (joined base predicate m)) := by
  apply forall₂_filterMap
  · intro m _
    rw [Option.isSome_map, Bool.eq_iff_iff, decide_eq_true_eq, Option.isSome_iff_exists]
    simp only [valueAt_eq_some_iff h.distinct2, Occurs]
    constructor
    · intro ho
      obtain ⟨m2, hm2, hset⟩ := ho
      exact ⟨_, m2, hm2, hset, rfl⟩
    · intro hv
      obtain ⟨_, m2, hm2, hset, -⟩ := hv
      exact ⟨m2, hm2, hset⟩
  · intro m _ q hq
    obtain ⟨other, hother, rfl⟩ := Option.map_eq_some_iff.mp hq
    obtain ⟨m2, hm2, hset, rfl⟩ := (valueAt_eq_some_iff h.distinct2).mp hother
    rw [joined, addLabels_eq]
    exact ⟨rfl, rfl, rfl, m2, hm2, hset, rfl⟩

/-! ## Orders -/

theorem SameMetric.labelSet_eq {m m' : Metric} (h : SameMetric m m') : m'.labelSet = m.labelSet :=
  List.toFinset_eq_of_perm _ _ (h.labels.map _).symm

theorem SameMetric.counterInt_eq {m m' : Metric} (h : SameMetric m m') : m'.counterInt = m.counterInt := by
  rw [Metric.counterInt, Metric.counterInt, h.points]

theorem exists_of_forall₂ {α β : Type} {R : α → β → Prop} {l : List α} {l' : List β} (h : List.Forall₂ R l l') {b : β}
    (hb : b ∈ l') : ∃ a ∈ l, R a b := by
  induction h with
  | nil => cases hb
  | cons hab _ ih =>
    rcases List.mem_cons.mp hb with rfl | hb
    · exact ⟨_, List.mem_cons_self .., hab⟩
    · obtain ⟨a, ha, hab⟩ := ih hb
      exact ⟨a, List.mem_cons_of_mem _ ha, hab⟩

theorem labelSets_eq {l l' : List Metric} (h : List.Forall₂ SameMetric l l') :
    l'.map Metric.labelSet = l.map Metric.labelSet := by
  induction h with
  | nil => rfl
  | cons hsame _ ih => rw [List.map_cons, List.map_cons, ih, hsame.labelSet_eq]

variable {family1' family2' : MetricFamily} {reordered : List Metric}

theorem Comparable.reorder (h : Comparable family1 family2) (h₁ : List.Forall₂ SameMetric family1.metrics family1'.metrics)
    (hp : reordered.Perm family2.metrics) (h₂ : List.Forall₂ SameMetric reordered family2'.metrics) :
    Comparable family1' family2' := by
  have hback : ∀ m' ∈ family1'.metrics ++ family2'.metrics, ∃ m ∈ family1.metrics ++ family2.metrics, SameMetric m m' := by
    intro m' hm'
    rcases List.mem_append.mp hm' with hm' | hm'
    · obtain ⟨m, hm, hsame⟩ := exists_of_forall₂ h₁ hm'
      exact ⟨m, List.mem_append_left _ hm, hsame⟩
    · obtain ⟨m, hm, hsame⟩ := exists_of_forall₂ h₂ hm'
      exact ⟨m, List.mem_append_right _ (hp.mem_iff.mp hm), hsame⟩
  have hnames : ∀ {m m' : Metric}, SameMetric m m' → m.labelNames.Perm m'.labelNames := fun hsame => hsame.labels.map _
  constructor
  case typed =>
    intro m' hm'
    obtain ⟨m, hm, hsame⟩ := hback m' hm'
    obtain ⟨n, hn⟩ := h.typed m hm
    exact ⟨n, hsame.points ▸ hn⟩
  case once =>
    intro m' hm'
    obtain ⟨m, hm, hsame⟩ := hback m' hm'
    exact (hnames hsame).nodup_iff.mp (h.once m hm)
  case names =>
    intro a' ha' b' hb' name
    obtain ⟨a, ha, hsa⟩ := hback a' ha'
    obtain ⟨b, hb, hsb⟩ := hback b' hb'
    rw [← (hnames hsa).mem_iff, ← (hnames hsb).mem_iff]
    exact h.names a ha b hb name
  case distinct1 => rw [labelSets_eq h₁]; exact h.distinct1
  case distinct2 => rw [labelSets_eq h₂]; exact ((hp.map _).nodup_iff).mpr h.distinct2

theorem valueAt_reorder (hp : reordered.Perm family2.metrics) (h₂ : List.Forall₂ SameMetric reordered family2'.metrics)
    (hn : (family2.metrics.map Metric.labelSet).Nodup) (labels : Finset (String × String)) :
    valueAt family2' labels = valueAt family2 labels := by
  have hn' : (family2'.metrics.map Metric.labelSet).Nodup := by
    rw [labelSets_eq h₂]
    exact ((hp.map _).nodup_iff).mpr hn
  apply Option.ext
  intro n
  rw [valueAt_eq_some_iff hn', valueAt_eq_some_iff hn]
  constructor
  · intro h
    obtain ⟨m', hm', hset, hint⟩ := h
    obtain ⟨m, hm, hsame⟩ := exists_of_forall₂ h₂ hm'
    exact ⟨m, hp.mem_iff.mp hm, hsame.labelSet_eq.symm.trans hset, hsame.counterInt_eq.symm.trans hint⟩
  · intro h
    obtain ⟨m, hm, hset, hint⟩ := h
    obtain ⟨m', hm', hsame⟩ := exists_of_forall₂ h₂.flip (hp.mem_iff.mpr hm)
    exact ⟨m', hm', hsame.labelSet_eq.trans hset, hsame.counterInt_eq.trans hint⟩

theorem sameQuery_joined (base : WriteQuery) (predicate : Nat → Nat → Nat) {m m' : Metric} (h : SameMetric m m')
    (other : Nat) : SameQuery (joined base predicate m other) (joined base predicate m' other) := by
  rw [joined, joined, addLabels_eq, addLabels_eq, h.counterInt_eq]
  exact ⟨rfl, rfl, (h.labels.map _).append_left _, rfl⟩

theorem sameQueries (base : WriteQuery) (predicate : Nat → Nat → Nat) (value : Finset (String × String) → Option Nat)
    {l l' : List Metric} (h : List.Forall₂ SameMetric l l') :
    List.Forall₂ SameQuery (l.filterMap fun m => (value m.labelSet).map (joined base predicate m))
      (l'.filterMap fun m => (value m.labelSet).map (joined base predicate m)) := by
  apply List.rel_filterMap (R := SameMetric) _ h
  intro m m' hsame
  show Option.Rel SameQuery ((value m.labelSet).map (joined base predicate m))
    ((value m'.labelSet).map (joined base predicate m'))
  rw [hsame.labelSet_eq]
  cases value m.labelSet with
  | none => exact .none
  | some other => exact .some (sameQuery_joined base predicate hsame other)

end

theorem exactJoin_counterJoin (base : WriteQuery) (predicate : Nat → Nat → Nat) :
    ExactJoin base predicate fun family1 family2 => counterJoin base family1 family2 predicate := by
  constructor
  case emits =>
    intro family1 family2 h
    exact ⟨_, h.counterJoin_eq base predicate, h.emits base predicate⟩
  case order =>
    intro family1 family2 family1' family2' reordered h h₁ hp h₂
    refine ⟨_, _, h.counterJoin_eq base predicate, (h.reorder h₁ hp h₂).counterJoin_eq base predicate, ?_⟩
    simp only [valueAt_reorder hp h₂ h.distinct2]
    exact sameQueries base predicate (valueAt family2) h₁

/-- **The join is exact** in both plans: a query for each metric whose label set the other family has too, in
order, with the counts of the two metrics of that label set, whatever the order of metrics and labels. -/
theorem counterJoin_exact :
    (∀ (r : Recorder) (name : String) (predicate : Nat → Nat → Nat), ExactJoin (r.query name) predicate
      fun family1 family2 => queriesForCounterJoin r family1 family2 name predicate) ∧
    ∀ (r : Scoring.Recorder) (name : String) (predicate : Nat → Nat → Nat), ExactJoin (r.query name) predicate
      fun family1 family2 => Scoring.queriesForCounterJoin r family1 family2 name predicate := by
  refine ⟨fun r name predicate => ?_, fun r name predicate => exactJoin_counterJoin (r.query name) predicate⟩
  simp only [queriesForCounterJoin_eq]
  exact exactJoin_counterJoin (r.query name) predicate

def received (labels : List Label) (n : Nat) : Metric := ⟨labels, [⟨some (.counterValue (some (.intValue n)))⟩]⟩

/-- The labels of topic `a` come in two orders, and topic `b` has been received unfiltered only. -/
theorem counterJoin_exact_two : ∃ qs, queriesForCounterJoin ⟨0, "peer", "0", "run"⟩
    ⟨"unfiltered", [received [⟨"hash", "a"⟩, ⟨"kind", "x"⟩] 7, received [⟨"hash", "b"⟩, ⟨"kind", "x"⟩] 1]⟩
    ⟨"counts", [received [⟨"kind", "x"⟩, ⟨"hash", "a"⟩] 3]⟩ "duplicates" (fun a b => a - b) = .ok qs ∧ qs.length = 1 := by
  have hcomparable : Comparable
      ⟨"unfiltered", [received [⟨"hash", "a"⟩, ⟨"kind", "x"⟩] 7, received [⟨"hash", "b"⟩, ⟨"kind", "x"⟩] 1]⟩
      ⟨"counts", [received [⟨"kind", "x"⟩, ⟨"hash", "a"⟩] 3]⟩ := by
    have hnames : ∀ m ∈ [received [⟨"hash", "a"⟩, ⟨"kind", "x"⟩] 7, received [⟨"hash", "b"⟩, ⟨"kind", "x"⟩] 1,
        received [⟨"kind", "x"⟩, ⟨"hash", "a"⟩] 3], ∀ name, name ∈ m.labelNames ↔ name = "hash" ∨ name = "kind" := by
      rw [List.forall_mem_cons, List.forall_mem_cons, List.forall_mem_singleton]
      refine ⟨?_, ?_, ?_⟩
      · simp [received, Metric.labelNames]
      · simp [received, Metric.labelNames]
      · simp [received, Metric.labelNames, or_comm]
    constructor
    case typed => simp [received, Typed]
    case once => decide
    case names => exact fun m hm m' hm' name => (hnames m hm name).trans (hnames m' hm' name).symm
    case distinct1 => decide
    case distinct2 => decide
  obtain ⟨qs, hqs, hall⟩ := (counterJoin_exact.1 ⟨0, "peer", "0", "run"⟩ "duplicates" fun a b => a - b).emits _ _ hcomparable
  exact ⟨qs, hqs, hall.length_eq.symm.trans (by decide)⟩

end GossipPlans.Metrics
