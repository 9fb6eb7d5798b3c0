import GossipPlans.MessageAccounting
import GossipPlans.MetricsSound
import GossipPlans.PrefixCode

/-!
# scoring: the records of what was received

Five functions of a beacon node record what it received when the simulation is over. Together they write one
point for each topic and epoch with a delivery, and no two of these points are the same (`results_exact`).
-/

namespace GossipPlans.BeaconNode

open Metrics (Builds WriteQuery)
open OrderedMap (Tally)

/-! ## What a beacon node records of each topic -/

def Topic.measurement : Topic → String
  | .blocks => "scoring_beacon_block"
  | .attestations subnetId => s!"scoring_attestations_{subnetId}"
  | .aggregates subnetId => perEpoch "aggregates" subnetId
  | .signedContributionAndProof subnetId => perEpoch "sync_committee_aggregates" subnetId
  | .syncMessages subnetId => perEpoch "sync_committee_messages" subnetId
where
  perEpoch (measurement : String) (subnetId : Nat) : String := s!"scoring_{measurement}_{subnetId}"

/-- The topics of each part of the records. -/
def recordedTopics : List (List Topic) :=
  [[.blocks], (List.range attestationSubnets).map .attestations, (List.range attestationSubnets).map .aggregates,
    (List.range syncSubnets).map .signedContributionAndProof, (List.range syncSubnets).map .syncMessages]

def counts {β : Type} (count : β → Nat) (table : Std.TreeMap Nat β) : List (Nat × Nat) :=
  table.toList.map fun p => (p.1, count p.2)

def countsOf (node : Network) : Topic → List (Nat × Nat)
  | .blocks => counts Finset.card node.receivedBeaconBlocks
  | .attestations s => (node.receivedAttestations[s]?.map (counts Finset.card)).getD []
  | .aggregates s => (node.receivedAggregates[s]?.map (counts List.length)).getD []
  | .signedContributionAndProof s => (node.receivedSyncCommitteeAggregates[s]?.map (counts List.length)).getD []
  | .syncMessages s => (node.receivedSyncCommitteeMessages[s]?.map (counts List.length)).getD []

def entriesOf (node : Network) (topic : Topic) : List (String × Nat × Nat) :=
  (countsOf node topic).map fun entry => (topic.measurement, entry)

def Recorder.point (r : Recorder) (entry : String × Nat × Nat) : Run WriteQuery := r.query entry.1 entry.2

theorem perSubnet_eq {β : Type} (r : Recorder) {n : Nat} {tables : List (Std.TreeMap Nat β compare)} (hlen : tables.length = n)
    (count : β → Nat) (measurement : Nat → String) :
    (perSubnet n tables fun s table => r.queries (measurement s) (counts count table)) =
      ((List.range n).flatMap fun s => ((tables[s]?.map (counts count)).getD []).map fun entry =>
        (measurement s, entry)).mapM r.point := by
  rw [mapM_flatMap, perSubnet]
  congr 1
  apply mapM_congr
  intro s hs
  rw [List.getElem?_eq_getElem (by rw [hlen]; exact List.mem_range.mp hs), List.mapM_map]
  rfl

/-- The parts of the records are the points of their topics. -/
theorem recordReceived_eq_points {node : Network} {sent : List Generated} (h : Accounts node sent) (r : Recorder) :
    recordReceived r node = (recordedTopics.map fun topics => topics.flatMap (entriesOf node)).map (List.mapM r.point) := by
  have hblocks : recordReceivedBeaconBlocks r node = ([Topic.blocks].flatMap (entriesOf node)).mapM r.point := by
    rw [List.flatMap_singleton, entriesOf, List.mapM_map]
    rfl
  have hattestations := perSubnet_eq r h.attestations.1 Finset.card (fun s => (Topic.attestations s).measurement)
  have haggregates := perSubnet_eq r h.aggregates.1 List.length (fun s => (Topic.aggregates s).measurement)
  have hcontributions :=
    perSubnet_eq r h.syncAggregates.1 List.length (fun s => (Topic.signedContributionAndProof s).measurement)
  have hmessages := perSubnet_eq r h.syncMessages.1 List.length (fun s => (Topic.syncMessages s).measurement)
  simp only [recordedTopics, List.map_cons, List.map_nil, List.flatMap_map]
  unfold recordReceived
  rw [hblocks]
  congr 1
  exact congrArg₂ _ hattestations (congrArg₂ _ haggregates (congrArg₂ _ hcontributions (congrArg₂ _ hmessages rfl)))

/-! ## What was delivered of each topic -/

def Topic.find : Topic → Generated → Option (Nat × Nat)
  | .blocks => Generated.block?
  | .attestations s => Generated.attester? s
  | .aggregates s => Generated.aggregator? s
  | .signedContributionAndProof s => Generated.contributor? s
  | .syncMessages s => Generated.syncMember? s

/-- Slots with a block and attesters are counted once, the other messages as often as they are delivered. -/
def Topic.count (sent : List Generated) (epoch : Nat) (topic : Topic) : Nat :=
  match topic with
  | .blocks | .attestations _ => (delivered topic.find sent epoch).toFinset.card
  | .aggregates _ | .signedContributionAndProof _ | .syncMessages _ => (delivered topic.find sent epoch).length

section
variable {β : Type} {g : List Nat → β} {count : β → Nat} (hcount : ∀ l, count (g l) = 0 ↔ l = [])
include hcount

theorem mem_counts {table : Std.TreeMap Nat β compare} {values : Nat → List Nat} (h : Tally g table values)
    {epoch n : Nat} : (epoch, n) ∈ counts count table ↔ n = count (g (values epoch)) ∧ n ≠ 0 := by
  have hentry : (epoch, n) ∈ counts count table ↔ ∃ b, table[epoch]? = some b ∧ count b = n := by
    rw [counts, List.mem_map]
    constructor
    · intro he
      obtain ⟨⟨epoch', b⟩, hb, heq⟩ := he
      cases heq
      exact ⟨b, Std.TreeMap.mem_toList_iff_getElem?_eq_some.mp hb, rfl⟩
    · intro he
      obtain ⟨b, hb, rfl⟩ := he
      exact ⟨(epoch, b), Std.TreeMap.mem_toList_iff_getElem?_eq_some.mpr hb, rfl⟩
  rw [hentry, h epoch]
  by_cases hnil : values epoch = []
  · have hzero := (hcount (values epoch)).mpr hnil
    rw [if_pos hnil]
    constructor
    · intro he
      obtain ⟨b, hb, -⟩ := he
      cases hb
    · intro he
      exact absurd (he.1.trans hzero) he.2
  · rw [if_neg hnil]
    constructor
    · intro he
      obtain ⟨b, hb, rfl⟩ := he
      cases hb
      exact ⟨rfl, fun hzero => hnil ((hcount _).mp hzero)⟩
    · intro he
      exact ⟨_, rfl, he.1.symm⟩

theorem Tallies.mem_counts {tables : List (Std.TreeMap Nat β compare)} {subnets : Nat}
    {pick : Nat → Generated → Option (Nat × Nat)} {sent : List Generated} (h : Tallies g tables subnets pick sent)
    {s epoch n : Nat} (hs : s < subnets) : (epoch, n) ∈ (tables[s]?.map (counts count)).getD [] ↔
      n = count (g (delivered (pick s) sent epoch)) ∧ n ≠ 0 := by
  have htable := List.getElem?_eq_getElem (h.1 ▸ hs)
  rw [htable, Option.map_some, Option.getD_some]
  exact BeaconNode.mem_counts hcount (h.2 s _ htable)

end

theorem mem_countsOf {node : Network} {sent : List Generated} (h : Accounts node sent) {topic : Topic}
    (ht : topic ∈ recordedTopics.flatten) {epoch n : Nat} :
    (epoch, n) ∈ countsOf node topic ↔ n = topic.count sent epoch ∧ n ≠ 0 := by
  have hset : ∀ l : List Nat, l.toFinset.card = 0 ↔ l = [] := fun l => by rw [Finset.card_eq_zero, List.toFinset_eq_empty_iff]
  have hlist : ∀ l : List Nat, (id l).length = 0 ↔ l = [] := fun l => List.length_eq_zero_iff
  cases topic with
  | blocks => exact mem_counts hset h.blocks
  | attestations s => exact h.attestations.mem_counts hset (by simpa [recordedTopics] using ht)
  | aggregates s => exact h.aggregates.mem_counts hlist (by simpa [recordedTopics] using ht)
  | signedContributionAndProof s => exact h.syncAggregates.mem_counts hlist (by simpa [recordedTopics] using ht)
  | syncMessages s => exact h.syncMessages.mem_counts hlist (by simpa [recordedTopics] using ht)

theorem measurement_inj {topic topic' : Topic} (h : topic ∈ recordedTopics.flatten) (h' : topic' ∈ recordedTopics.flatten)
    (heq : topic.measurement = topic'.measurement) : topic = topic' := by
  have hnodup : (recordedTopics.flatten.map Topic.measurement).Nodup := by decide
  exact List.inj_on_of_nodup_map hnodup h h' heq

/-! ## The records -/

/-- The identity of a point but for its time. -/
def series (q : WriteQuery) : String × Finset (String × String) := (q.measurement, q.tags.toFinset)

def Recorder.tagSet (r : Recorder) (epoch : Nat) : Finset (String × String) :=
  {("peer_id", r.peerId), ("run_id", r.testRun), ("epoch", toString epoch)}

theorem Recorder.point_builds (r : Recorder) :
    Builds r.point (fun entry => ∃ timestamp, r.timestamp entry.2.1 = .ok timestamp) series
      fun entry => (entry.1, r.tagSet entry.2.1) where
  ok entry h := by
    obtain ⟨timestamp, h⟩ := h
    exact ⟨_, bind_ok_iff.mpr ⟨timestamp, h, rfl⟩⟩
  spec entry q h := by
    obtain ⟨timestamp, ht, h⟩ := bind_ok_iff.mp h
    cases h
    exact ⟨⟨timestamp, ht⟩, rfl⟩

theorem Recorder.tagSet_inj (r : Recorder) {epoch epoch' : Nat} (h : r.tagSet epoch = r.tagSet epoch') : epoch = epoch' := by
  have hmem : ("epoch", toString epoch) ∈ r.tagSet epoch' := by
    rw [← h]
    simp [Recorder.tagSet]
  have htext : toString epoch = toString epoch' := by simpa [Recorder.tagSet] using hmem
  apply PrefixCode.toDigits_inj
  have hchars := congrArg String.toList htext
  simpa using hchars

theorem nodup_epochs_counts {β : Type} (count : β → Nat) (table : Std.TreeMap Nat β compare) :
    ((counts count table).map Prod.fst).Nodup := by
  have hkeys : (counts count table).map Prod.fst = table.keys := by
    rw [counts, List.map_map, ← Std.TreeMap.map_fst_toList_eq_keys]
    rfl
  rw [hkeys]
  exact Std.TreeMap.nodup_keys

theorem nodup_epochs (node : Network) (topic : Topic) : ((countsOf node topic).map Prod.fst).Nodup := by
  have hsubnet : ∀ {β : Type} (count : β → Nat) (table : Option (Std.TreeMap Nat β compare)),
      (((table.map (counts count)).getD []).map Prod.fst).Nodup := by
    intro β count table
    cases table with
    | none => exact List.nodup_nil
    | some table => exact nodup_epochs_counts count table
  cases topic with
  | blocks => exact nodup_epochs_counts ..
  | attestations s | aggregates s | signedContributionAndProof s | syncMessages s => exact hsubnet ..

theorem nodup_series (r : Recorder) (node : Network) : ((recordedTopics.flatten.flatMap (entriesOf node)).map
    fun entry => (entry.1, r.tagSet entry.2.1)).Nodup := by
  have htopics : recordedTopics.flatten.Nodup := by decide
  rw [List.map_flatMap, List.nodup_flatMap]
  refine ⟨fun topic _ => ?_, ?_⟩
  · rw [entriesOf, List.map_map]
    refine List.pairwise_map.mpr ((List.pairwise_map.mp (nodup_epochs node topic)).imp fun hne heq => hne ?_)
    exact r.tagSet_inj (Prod.mk.inj heq).2
  · refine htopics.imp_of_mem fun {topic topic'} ht ht' hne x hx hx' => hne (measurement_inj ht ht' ?_)
    simp only [entriesOf, List.map_map, List.mem_map, Function.comp_apply] at hx hx'
    obtain ⟨entry, -, rfl⟩ := hx
    obtain ⟨entry', -, heq⟩ := hx'
    exact (Prod.mk.inj heq).1.symm

/-- **The records are what was delivered.** There is one point for each topic and epoch of which something was delivered,
with the count, and no point overwrites another; nothing is recorded of a part with an epoch that has no time. -/
theorem results_exact (codec : Codec) (deliveries : List Delivery)
    (hpublished : ∀ d ∈ deliveries, d.sent.Published codec d.message) (hread : ∀ d ∈ deliveries, codec.ReadsBack d.sent)
    (hrange : ∀ d ∈ deliveries, d.sent.InRange) (r : Recorder) :
    let sent := deliveries.map Delivery.sent
    ∃ node, deliver codec Network.new deliveries = .ok node ∧
      ((∃ qss : List (List WriteQuery), recordReceived r node = qss.map .ok) ↔
        ∀ topic ∈ recordedTopics.flatten, ∀ epoch, topic.count sent epoch ≠ 0 → ∃ timestamp, r.timestamp epoch = .ok timestamp) ∧
      ∀ qss : List (List WriteQuery), recordReceived r node = qss.map .ok → (qss.flatten.map WriteQuery.identity).Nodup ∧
        ∀ q, q ∈ qss.flatten ↔ ∃ topic ∈ recordedTopics.flatten, ∃ epoch, topic.count sent epoch ≠ 0 ∧
          r.query topic.measurement (epoch, topic.count sent epoch) = .ok q := by
  intro sent
  obtain ⟨node, hok, h⟩ := deliver_accounts accounts_new fun d hd => ⟨hpublished d hd, hread d hd, hrange d hd⟩
  rw [List.nil_append] at h
  have hparts := recordReceived_eq_points h r
  have hflat : (recordedTopics.map fun topics => topics.flatMap (entriesOf node)).flatten =
      recordedTopics.flatten.flatMap (entriesOf node) := by
    simp [List.flatMap_def, List.map_flatten, List.flatten_flatten, Function.comp_def]
  have hentry : ∀ entry, entry ∈ recordedTopics.flatten.flatMap (entriesOf node) ↔
      ∃ topic ∈ recordedTopics.flatten, ∃ epoch, topic.count sent epoch ≠ 0 ∧
        entry = (topic.measurement, epoch, topic.count sent epoch) := by
    intro entry
    simp only [List.mem_flatMap, entriesOf, List.mem_map]
    constructor
    · rintro ⟨topic, ht, ⟨epoch, n⟩, hn, rfl⟩
      obtain ⟨rfl, hne⟩ := (mem_countsOf h ht).mp hn
      exact ⟨topic, ht, epoch, hne, rfl⟩
    · rintro ⟨topic, ht, epoch, hne, rfl⟩
      exact ⟨topic, ht, _, (mem_countsOf h ht).mpr ⟨rfl, hne⟩, rfl⟩
  refine ⟨node, hok, ?_, fun qss hqss => ?_⟩
  · constructor
    · rintro ⟨qss, hqss⟩ topic ht epoch hne
      have hall := map_mapM_flatten.mp ⟨qss, hparts.symm.trans hqss, rfl⟩
      rw [hflat] at hall
      exact (r.point_builds.mapM.spec _ _ hall).1 _ ((hentry _).mpr ⟨topic, ht, epoch, hne, rfl⟩)
    · intro htimes
      obtain ⟨qs, hqs⟩ := r.point_builds.mapM.ok (recordedTopics.flatten.flatMap (entriesOf node)) (by
        intro entry hmem
        obtain ⟨topic, ht, epoch, hne, rfl⟩ := (hentry entry).mp hmem
        exact htimes topic ht epoch hne)
      rw [← hflat] at hqs
      obtain ⟨qss, hqss, -⟩ := map_mapM_flatten.mpr hqs
      exact ⟨qss, hparts.trans hqss⟩
  · have hall := map_mapM_flatten.mp ⟨qss, hparts.symm.trans hqss, rfl⟩
    rw [hflat] at hall
    constructor
    · have hseries := nodup_series r node
      rw [← (r.point_builds.mapM.spec _ _ hall).2] at hseries
      refine List.pairwise_map.mpr ((List.pairwise_map.mp hseries).imp fun hne heq => hne ?_)
      exact congrArg (fun i => (i.1, i.2.2)) heq
    · intro q
      rw [mem_of_mapM hall q]
      constructor
      · rintro ⟨entry, hmem, hq⟩
        obtain ⟨topic, ht, epoch, hne, rfl⟩ := (hentry entry).mp hmem
        exact ⟨topic, ht, epoch, hne, hq⟩
      · rintro ⟨topic, ht, epoch, hne, hq⟩
        exact ⟨_, (hentry _).mpr ⟨topic, ht, epoch, hne, rfl⟩, hq⟩

/-- An attestation that two peers deliver, and an aggregate. -/
theorem results_exact_small : ∃ (node : Network) (qss : List (List WriteQuery)),
    deliver Codec.small Network.new Delivery.small = .ok node ∧
    recordReceived ⟨"peer", "run", fun epoch => some (384 * epoch), some⟩ node = qss.map .ok ∧
      (qss.flatten.map WriteQuery.identity).Nodup := by
  obtain ⟨node, hok, hrecords, hdistinct⟩ := results_exact Codec.small Delivery.small Delivery.small_published
    (by unfold Codec.ReadsBack; decide) (by simp [Delivery.small, Generated.InRange, attestationSubnets]) ⟨"peer", "run", fun epoch => some (384 * epoch), some⟩
  obtain ⟨qss, hqss⟩ := hrecords.mpr fun _ _ epoch _ => ⟨384 * epoch, rfl⟩
  exact ⟨node, qss, hok, hqss, (hdistinct qss hqss).1⟩

end GossipPlans.BeaconNode
