import GossipPlans.BeaconNode
import GossipPlans.Maps
import GossipPlans.Metrics
import Mathlib.Order.Interval.Finset.Nat

/-!
# scoring: accounting for the received messages

The publish branch of `run_sim` and `handle_gossipsub_event` are two matches over the same five kinds of
messages. They agree on topic, payload and table, so the tables hold what was delivered, and the counts
that are recorded do not depend on the order. A `HashMap` is read in the order of its keys.
-/

namespace GossipPlans.BeaconNode

open OrderedMap (Tally)
open Metrics (WriteQuery)

/-! ## The records at the end of `run_sim` -/

/-- `startOf` is `slot_clock.start_of(epoch.start_slot(SLOTS_PER_EPOCH))` in seconds, and `timestampOpt` is
`Local.timestamp_opt`. -/
structure Recorder where
  peerId : String
  testRun : String
  startOf : Nat → Option Nat
  timestampOpt : Nat → Option Nat

def Recorder.timestamp (r : Recorder) (epoch : Nat) : Run Nat :=
  match r.startOf epoch with
  | none => .error (.panic .unwrapNone)
  | some duration =>
    match r.timestampOpt duration with
    | none => .error (.panic (.expect "datetime"))
    | some timestamp => .ok timestamp

def Recorder.query (r : Recorder) (measurement : String) (entry : Nat × Nat) : Run WriteQuery := do
  let timestamp ← r.timestamp entry.1
  .ok (((((WriteQuery.new timestamp measurement).addTag "peer_id" r.peerId).addTag "run_id" r.testRun).addTag "epoch"
    (toString entry.1)).addField "count" (.unsigned entry.2))

def Recorder.queries (r : Recorder) (measurement : String) (counts : List (Nat × Nat)) : Run (List WriteQuery) :=
  counts.mapM (r.query measurement)

def perSubnet {α : Type} (subnets : Nat) (tables : List α) (f : Nat → α → Run (List WriteQuery)) :
    Run (List WriteQuery) := do
  let queries ← (List.range subnets).mapM fun subnetId =>
    match tables[subnetId]? with
    | none => .error (.panic (.expect "subnet_id"))
    | some table => f subnetId table
  .ok queries.flatten

def recordReceivedBeaconBlocks (r : Recorder) (node : Network) : Run (List WriteQuery) :=
  r.queries "scoring_beacon_block" (node.receivedBeaconBlocks.toList.map fun p => (p.1, p.2.card))

def recordReceivedAttestations (r : Recorder) (node : Network) : Run (List WriteQuery) :=
  perSubnet attestationSubnets node.receivedAttestations fun subnetId table =>
    r.queries s!"scoring_attestations_{subnetId}" (table.toList.map fun p => (p.1, p.2.card))

def recordReceivedMessageCountPerEpoch (r : Recorder) (measurement : String) (subnets : Nat) (messages : List Received) :
    Run (List WriteQuery) :=
  perSubnet subnets messages fun subnetId table =>
    r.queries s!"scoring_{measurement}_{subnetId}" (table.toList.map fun p => (p.1, p.2.length))

/-- What `run_sim` records once its loop is left, each part on its own. -/
def recordReceived (r : Recorder) (node : Network) : List (Run (List WriteQuery)) :=
  [recordReceivedBeaconBlocks r node, recordReceivedAttestations r node,
    recordReceivedMessageCountPerEpoch r "aggregates" attestationSubnets node.receivedAggregates,
    recordReceivedMessageCountPerEpoch r "sync_committee_aggregates" syncSubnets node.receivedSyncCommitteeAggregates,
    recordReceivedMessageCountPerEpoch r "sync_committee_messages" syncSubnets node.receivedSyncCommitteeMessages]

/-! ## Deliveries -/

def Generated.message (codec : Codec) (m : Generated) : Message :=
  ⟨codec.topicText m.topicAndPayload.1, codec.encode m.topicAndPayload.2⟩

theorem runBranch_generated (codec : Codec) (node : Network) (m : Generated) : runBranch codec node (.generated m) =
    .ok { node with calls := node.calls ++ [.publish (m.message codec).topic (m.message codec).data] } := rfl

/-- The publish branch of some node publishes `message` for `m`. -/
def Generated.Published (codec : Codec) (m : Generated) (message : Message) : Prop :=
  ∃ node node', runBranch codec node (.generated m) = .ok node' ∧
    node'.calls = node.calls ++ [.publish message.topic message.data]

theorem Generated.published_iff {codec : Codec} {m : Generated} {message : Message} :
    m.Published codec message ↔ message = m.message codec := by
  constructor
  · rintro ⟨node, node', hrun, hcalls⟩
    rw [runBranch_generated] at hrun
    cases hrun
    have hcall := List.append_cancel_left hcalls
    simp only [List.cons.injEq, SwarmCall.publish.injEq, and_true] at hcall
    obtain ⟨topic, data⟩ := message
    obtain ⟨rfl, rfl⟩ := hcall
    rfl
  · rintro rfl
    exact ⟨Network.new, _, runBranch_generated codec Network.new m, rfl⟩

/-- What a peer hands on: `message`, which was published for `sent`. -/
structure Delivery where
  propagationSource : String
  messageId : String
  sent : Generated
  message : Message
deriving DecidableEq, Repr

def Delivery.event (d : Delivery) : Event := .message d.propagationSource d.messageId d.message

def deliver (codec : Codec) : Network → List Delivery → Run Network
  | node, [] => .ok node
  | node, d :: deliveries => do
    let node ← handleGossipsubEvent codec node d.event
    deliver codec node deliveries

/-- The receiver reads the topic and the payload that were sent. -/
def Codec.ReadsBack (codec : Codec) (m : Generated) : Prop :=
  codec.parseTopic (codec.topicText m.topicAndPayload.1) = some m.topicAndPayload.1 ∧
    codec.decode (codec.encode m.topicAndPayload.2) = some m.topicAndPayload.2

def Generated.InRange : Generated → Prop
  | .beaconBlock _ _ _ => True
  | .aggregateAndProofAttestation _ subnet _ _ => subnet < attestationSubnets
  | .attestation _ subnet _ _ => subnet < attestationSubnets
  | .signedContributionAndProof _ subnet _ _ => subnet < syncSubnets
  | .syncCommitteeMessage _ subnet _ _ => subnet < syncSubnets

/-! ## What was delivered -/

def Generated.block? : Generated → Option (Nat × Nat)
  | .beaconBlock _ slot _ => some (slot, slot)
  | _ => none

def Generated.aggregator? (subnetId : Nat) : Generated → Option (Nat × Nat)
  | .aggregateAndProofAttestation aggregator subnet slot _ => if subnet = subnetId then some (slot, aggregator) else none
  | _ => none

def Generated.attester? (subnetId : Nat) : Generated → Option (Nat × Nat)
  | .attestation attester subnet slot _ => if subnet = subnetId then some (slot, attester) else none
  | _ => none

def Generated.contributor? (subnetId : Nat) : Generated → Option (Nat × Nat)
  | .signedContributionAndProof validator subnet slot _ => if subnet = subnetId then some (slot, validator) else none
  | _ => none

def Generated.syncMember? (subnetId : Nat) : Generated → Option (Nat × Nat)
  | .syncCommitteeMessage validator subnet slot _ => if subnet = subnetId then some (slot, validator) else none
  | _ => none

def ofEpoch (epoch : Nat) (entry : Nat × Nat) : Option Nat :=
  if epochOf entry.1 = epoch then some entry.2 else none

/-- The values that `pick` finds in messages of `epoch`, in the order of the messages. -/
def delivered (pick : Generated → Option (Nat × Nat)) (sent : List Generated) (epoch : Nat) : List Nat :=
  sent.filterMap fun m => (pick m).bind (ofEpoch epoch)

/-- One table for each subnet, of what `pick` finds for it. -/
def Tallies {β : Type} (g : List Nat → β) (tables : List (Std.TreeMap Nat β)) (subnets : Nat)
    (pick : Nat → Generated → Option (Nat × Nat)) (sent : List Generated) : Prop :=
  tables.length = subnets ∧ ∀ s table, tables[s]? = some table → Tally g table (delivered (pick s) sent)

/-- The tables hold what was delivered: sets of slots and attesters, lists of the other validators. -/
structure Accounts (node : Network) (sent : List Generated) : Prop where
  blocks : Tally List.toFinset node.receivedBeaconBlocks (delivered Generated.block? sent)
  aggregates : Tallies id node.receivedAggregates attestationSubnets Generated.aggregator? sent
  attestations : Tallies List.toFinset node.receivedAttestations attestationSubnets Generated.attester? sent
  syncAggregates : Tallies id node.receivedSyncCommitteeAggregates syncSubnets Generated.contributor? sent
  syncMessages : Tallies id node.receivedSyncCommitteeMessages syncSubnets Generated.syncMember? sent

/-! ## One delivery -/

@[simp] theorem delivered_append (pick : Generated → Option (Nat × Nat)) (sent sent' : List Generated) (epoch : Nat) :
    delivered pick (sent ++ sent') epoch = delivered pick sent epoch ++ delivered pick sent' epoch :=
  List.filterMap_append ..

theorem delivered_single {pick : Generated → Option (Nat × Nat)} {m : Generated} {slot x : Nat}
    (h : pick m = some (slot, x)) (epoch : Nat) :
    delivered pick [m] epoch = if epochOf slot = epoch then [x] else [] := by
  by_cases he : epochOf slot = epoch <;> simp [delivered, h, ofEpoch, he]

theorem delivered_skip {pick : Generated → Option (Nat × Nat)} {m : Generated} (h : pick m = none) (epoch : Nat) :
    delivered pick [m] epoch = [] := by
  simp [delivered, h]

theorem insert_toFinset (x : Nat) (l : List Nat) : insert x l.toFinset = (l ++ [x]).toFinset := by
  ext y
  simp

section
variable {β : Type} {g : List Nat → β} {tables : List (Std.TreeMap Nat β)} {subnets : Nat}
  {pick : Nat → Generated → Option (Nat × Nat)} {sent : List Generated} {m : Generated}

theorem Tallies.record (push : Nat → β → β) (hg : ∀ x l, push x (g l) = g (l ++ [x]))
    (h : Tallies g tables subnets pick sent) {subnet slot x : Nat} (hs : subnet < subnets)
    (hm : ∀ s, pick s m = if subnet = s then some (slot, x) else none) :
    ∃ tables', updateSubnet tables subnet
      (fun table => table.alter (epochOf slot) fun o => some (push x (o.getD (g [])))) = .ok tables' ∧
      Tallies g tables' subnets pick (sent ++ [m]) := by
  refine ⟨_, if_pos (by rw [h.1]; exact hs), ?_, fun s table ht => ?_⟩
  · rw [List.length_modify, h.1]
  rw [List.getElem?_modify, Option.map_eq_map] at ht
  obtain ⟨table₀, ht₀, rfl⟩ := Option.map_eq_some_iff.mp ht
  by_cases hss : subnet = s
  · subst hss
    rw [if_pos rfl]
    apply (h.2 subnet table₀ ht₀).alter hg
    intro epoch
    rw [delivered_append, delivered_single (by rw [hm, if_pos rfl])]
  · rw [if_neg hss]
    intro epoch
    rw [delivered_append, delivered_skip (by rw [hm, if_neg hss]), List.append_nil]
    exact h.2 s table₀ ht₀ epoch

theorem Tallies.skip (h : Tallies g tables subnets pick sent) (hm : ∀ s, pick s m = none) :
    Tallies g tables subnets pick (sent ++ [m]) := by
  refine ⟨h.1, fun s table ht epoch => ?_⟩
  rw [delivered_append, delivered_skip (hm s), List.append_nil]
  exact h.2 s table ht epoch

end

section
variable {subnets : Nat} {pick : Nat → Generated → Option (Nat × Nat)} {sent : List Generated} {m : Generated}
  {subnet slot x : Nat}

theorem Tallies.push {tables : List Received} (h : Tallies id tables subnets pick sent) (hs : subnet < subnets)
    (hm : ∀ s, pick s m = if subnet = s then some (slot, x) else none) :
    ∃ tables', updateSubnet tables subnet (pushReceived · (epochOf slot) x) = .ok tables' ∧
      Tallies id tables' subnets pick (sent ++ [m]) :=
  h.record (fun x l => l ++ [x]) (fun _ _ => rfl) hs hm

theorem Tallies.insert {tables : List Seen} (h : Tallies List.toFinset tables subnets pick sent) (hs : subnet < subnets)
    (hm : ∀ s, pick s m = if subnet = s then some (slot, x) else none) :
    ∃ tables', updateSubnet tables subnet (insertSeen · (epochOf slot) x) = .ok tables' ∧
      Tallies List.toFinset tables' subnets pick (sent ++ [m]) :=
  h.record Insert.insert insert_toFinset hs hm

end

theorem skip_block {table : Seen} {sent : List Generated} {m : Generated}
    (h : Tally List.toFinset table (delivered Generated.block? sent)) (hm : m.block? = none) :
    Tally List.toFinset table (delivered Generated.block? (sent ++ [m])) := by
  intro epoch
  rw [h epoch, delivered_append, delivered_skip hm, List.append_nil]

theorem payloadOf_read {codec : Codec} {m : Generated} (h : codec.ReadsBack m) :
    payloadOf codec (m.message codec).data = .ok m.topicAndPayload.2 := by
  rw [payloadOf, Generated.message, h.2]

theorem topicOf_read {codec : Codec} {m : Generated} (h : codec.ReadsBack m) :
    topicOf codec (m.message codec).topic = .ok m.topicAndPayload.1 := by
  rw [topicOf, Generated.message, h.1]

/-- One delivery goes to the one table of its kind and subnet. -/
theorem handleGossipsubEvent_accounts {codec : Codec} {node : Network} {sent : List Generated} (d : Delivery)
    (h : Accounts node sent) (hpublished : d.sent.Published codec d.message) (hread : codec.ReadsBack d.sent)
    (hrange : d.sent.InRange) :
    ∃ node', handleGossipsubEvent codec node d.event = .ok node' ∧ Accounts node' (sent ++ [d.sent]) := by
  obtain ⟨source, messageId, m, message⟩ := d
  have hmessage : message = m.message codec := Generated.published_iff.mp hpublished
  subst hmessage
  have ht := topicOf_read hread
  have hp := payloadOf_read hread
  cases m with
  | beaconBlock proposer slot payload =>
    refine ⟨_, bind_ok_iff.mpr ⟨_, ht, bind_ok_iff.mpr ⟨_, hp, rfl⟩⟩, ?_, h.aggregates.skip fun _ => rfl,
      h.attestations.skip fun _ => rfl, h.syncAggregates.skip fun _ => rfl, h.syncMessages.skip fun _ => rfl⟩
    apply h.blocks.alter insert_toFinset
    intro epoch
    rw [delivered_append, delivered_single rfl]; rfl
  | aggregateAndProofAttestation aggregator subnet slot payload =>
    obtain ⟨tables, hok, htables⟩ := h.aggregates.push hrange
      (m := .aggregateAndProofAttestation aggregator subnet slot payload) fun _ => rfl
    exact ⟨_, bind_ok_iff.mpr ⟨_, ht, bind_ok_iff.mpr ⟨_, hp, bind_ok_iff.mpr ⟨_, hok, rfl⟩⟩⟩, skip_block h.blocks rfl,
      htables, h.attestations.skip fun _ => rfl, h.syncAggregates.skip fun _ => rfl, h.syncMessages.skip fun _ => rfl⟩
  | attestation attester subnet slot payload =>
    obtain ⟨tables, hok, htables⟩ := h.attestations.insert hrange
      (m := .attestation attester subnet slot payload) fun _ => rfl
    exact ⟨_, bind_ok_iff.mpr ⟨_, ht, bind_ok_iff.mpr ⟨_, hp, bind_ok_iff.mpr ⟨_, hok, rfl⟩⟩⟩, skip_block h.blocks rfl,
      h.aggregates.skip fun _ => rfl, htables, h.syncAggregates.skip fun _ => rfl, h.syncMessages.skip fun _ => rfl⟩
  | signedContributionAndProof validator subnet slot payload =>
    obtain ⟨tables, hok, htables⟩ := h.syncAggregates.push hrange
      (m := .signedContributionAndProof validator subnet slot payload) fun _ => rfl
    exact ⟨_, bind_ok_iff.mpr ⟨_, ht, bind_ok_iff.mpr ⟨_, hp, bind_ok_iff.mpr ⟨_, hok, rfl⟩⟩⟩, skip_block h.blocks rfl,
      h.aggregates.skip fun _ => rfl, h.attestations.skip fun _ => rfl, htables, h.syncMessages.skip fun _ => rfl⟩
  | syncCommitteeMessage validator subnet slot payload =>
    obtain ⟨tables, hok, htables⟩ := h.syncMessages.push hrange
      (m := .syncCommitteeMessage validator subnet slot payload) fun _ => rfl
    exact ⟨_, bind_ok_iff.mpr ⟨_, ht, bind_ok_iff.mpr ⟨_, hp, bind_ok_iff.mpr ⟨_, hok, rfl⟩⟩⟩, skip_block h.blocks rfl,
      h.aggregates.skip fun _ => rfl, h.attestations.skip fun _ => rfl, h.syncAggregates.skip fun _ => rfl, htables⟩

/-! ## All deliveries -/

theorem deliver_accounts {codec : Codec} : ∀ {deliveries : List Delivery} {node : Network} {sent : List Generated},
    Accounts node sent →
    (∀ d ∈ deliveries, d.sent.Published codec d.message ∧ codec.ReadsBack d.sent ∧ d.sent.InRange) →
    ∃ node', deliver codec node deliveries = .ok node' ∧ Accounts node' (sent ++ deliveries.map Delivery.sent)
  | [], node, sent, h, _ => ⟨node, rfl, by rwa [List.map_nil, List.append_nil]⟩
  | d :: deliveries, node, sent, h, hall => by
    obtain ⟨⟨hpublished, hread, hrange⟩, hall⟩ := List.forall_mem_cons.mp hall
    obtain ⟨node₁, hok₁, h₁⟩ := handleGossipsubEvent_accounts d h hpublished hread hrange
    obtain ⟨node₂, hok₂, h₂⟩ := deliver_accounts h₁ hall
    refine ⟨node₂, bind_ok_iff.mpr ⟨node₁, hok₁, hok₂⟩, ?_⟩
    rwa [List.map_cons, List.append_cons]

theorem tallies_new {β : Type} (g : List Nat → β) (subnets : Nat) (pick : Nat → Generated → Option (Nat × Nat)) :
    Tallies g (List.replicate subnets ∅) subnets pick [] := by
  refine ⟨List.length_replicate, fun s table ht => ?_⟩
  rw [List.eq_of_mem_replicate (List.mem_of_getElem? ht)]
  exact Tally.empty g

theorem accounts_new : Accounts Network.new [] :=
  ⟨Tally.empty _, tallies_new .., tallies_new .., tallies_new .., tallies_new ..⟩

theorem card_le_of_delivered_block (sent : List Generated) (epoch : Nat) :
    (delivered Generated.block? sent epoch).toFinset.card ≤ slotsPerEpoch := by
  have hsub : (delivered Generated.block? sent epoch).toFinset ⊆
      Finset.Ico (slotsPerEpoch * epoch) (slotsPerEpoch * epoch + slotsPerEpoch) := by
    intro slot hslot
    obtain ⟨m, -, hm⟩ := List.mem_filterMap.mp (List.mem_toFinset.mp hslot)
    obtain ⟨entry, hentry, hof⟩ := Option.bind_eq_some_iff.mp hm
    cases m with
    | beaconBlock proposer slot' payload =>
      cases hentry
      unfold ofEpoch at hof
      split at hof
      · rename_i he
        cases hof
        simp only [epochOf, slotsPerEpoch] at he
        rw [Finset.mem_Ico, slotsPerEpoch]
        omega
      · cases hof
    | _ => cases hentry
  have hcard := Finset.card_le_card hsub
  rw [Nat.card_Ico] at hcard
  omega

/-! ## The counts -/

theorem perSubnet_congr {α : Type} {subnets : Nat} {tables tables' : List α} {f : Nat → α → Run (List WriteQuery)}
    (hlen : tables.length = tables'.length)
    (h : ∀ s table table', tables[s]? = some table → tables'[s]? = some table' → f s table = f s table') :
    perSubnet subnets tables f = perSubnet subnets tables' f := by
  unfold perSubnet
  congr 2
  funext s
  cases ht : tables[s]? with
  | none =>
    rw [List.getElem?_eq_none_iff] at ht
    rw [List.getElem?_eq_none (hlen ▸ ht)]
  | some table =>
    have hs : s < tables'.length := hlen ▸ (List.getElem?_eq_some_iff.mp ht).1
    have ht' := List.getElem?_eq_getElem hs
    rw [ht']
    exact h s table _ ht ht'

theorem delivered_perm {sent sent' : List Generated} (h : sent.Perm sent') (pick : Generated → Option (Nat × Nat))
    (epoch : Nat) : (delivered pick sent epoch).Perm (delivered pick sent' epoch) :=
  h.filterMap _

theorem card_toFinset_perm {l l' : List Nat} (h : l.Perm l') : l.toFinset.card = l'.toFinset.card := by
  rw [List.toFinset_eq_of_perm _ _ h]

section
variable {node node' : Network} {sent sent' : List Generated}

theorem perSubnet_tallies {β : Type} {g : List Nat → β} {tables tables' : List (Std.TreeMap Nat β)} {subnets : Nat}
    {pick : Nat → Generated → Option (Nat × Nat)} (h : Tallies g tables subnets pick sent)
    (h' : Tallies g tables' subnets pick sent') (hp : sent.Perm sent') {count : β → Nat}
    (hcount : ∀ {l l' : List Nat}, l.Perm l' → count (g l) = count (g l')) (r : Recorder) (measurement : Nat → String)
    (n : Nat) :
    (perSubnet n tables fun s table => r.queries (measurement s) (table.toList.map fun p => (p.1, count p.2))) =
      perSubnet n tables' fun s table => r.queries (measurement s) (table.toList.map fun p => (p.1, count p.2)) := by
  apply perSubnet_congr (by rw [h.1, h'.1])
  intro s table table' ht ht'
  rw [(h.2 s table ht).counts_eq (h'.2 s table' ht') count hcount (delivered_perm hp (pick s))]

theorem messageCounts_eq {tables tables' : List Received} {subnets : Nat}
    {pick : Nat → Generated → Option (Nat × Nat)} (h : Tallies id tables subnets pick sent)
    (h' : Tallies id tables' subnets pick sent') (hp : sent.Perm sent') (r : Recorder) (measurement : String) :
    recordReceivedMessageCountPerEpoch r measurement subnets tables =
      recordReceivedMessageCountPerEpoch r measurement subnets tables' :=
  perSubnet_tallies h h' hp (fun hl => hl.length_eq) r (fun s => s!"scoring_{measurement}_{s}") subnets

theorem recordReceived_eq (h : Accounts node sent) (h' : Accounts node' sent') (hp : sent.Perm sent') (r : Recorder) :
    recordReceived r node = recordReceived r node' := by
  have hblocks : recordReceivedBeaconBlocks r node = recordReceivedBeaconBlocks r node' := by
    rw [recordReceivedBeaconBlocks, h.blocks.counts_eq h'.blocks Finset.card card_toFinset_perm
      (delivered_perm hp Generated.block?), recordReceivedBeaconBlocks]
  have hattestations : recordReceivedAttestations r node = recordReceivedAttestations r node' :=
    perSubnet_tallies h.attestations h'.attestations hp card_toFinset_perm r (fun s => s!"scoring_attestations_{s}") _
  unfold recordReceived
  rw [hblocks, hattestations, messageCounts_eq h.aggregates h'.aggregates hp,
    messageCounts_eq h.syncAggregates h'.syncAggregates hp, messageCounts_eq h.syncMessages h'.syncMessages hp]

end

/-- **Every delivery is accounted for.** No delivery of what the publish branch publishes fails, the tables hold
exactly what was delivered, and every order of the deliveries leads to the same records. -/
theorem deliveries_accounted (codec : Codec) (deliveries : List Delivery)
    (hpublished : ∀ d ∈ deliveries, d.sent.Published codec d.message)
    (hread : ∀ d ∈ deliveries, codec.ReadsBack d.sent) (hrange : ∀ d ∈ deliveries, d.sent.InRange) :
    ∃ node, deliver codec Network.new deliveries = .ok node ∧ Accounts node (deliveries.map Delivery.sent) ∧
      (∀ (epoch : Nat) (slots : Finset Nat), node.receivedBeaconBlocks[epoch]? = some slots → slots.card ≤ slotsPerEpoch) ∧
      ∀ deliveries', deliveries'.Perm deliveries → ∃ node', deliver codec Network.new deliveries' = .ok node' ∧
        ∀ r, recordReceived r node' = recordReceived r node := by
  have hall : ∀ d ∈ deliveries, d.sent.Published codec d.message ∧ codec.ReadsBack d.sent ∧ d.sent.InRange :=
    fun d hd => ⟨hpublished d hd, hread d hd, hrange d hd⟩
  obtain ⟨node, hok, haccounts⟩ := deliver_accounts accounts_new hall
  rw [List.nil_append] at haccounts
  refine ⟨node, hok, haccounts, ?_, ?_⟩
  · intro epoch slots hslots
    rw [haccounts.blocks epoch] at hslots
    split at hslots
    · cases hslots
    · cases hslots
      exact card_le_of_delivered_block ..
  · intro deliveries' hp
    obtain ⟨node', hok', haccounts'⟩ := deliver_accounts accounts_new fun d hd => hall d (hp.mem_iff.mp hd)
    rw [List.nil_append] at haccounts'
    exact ⟨node', hok', recordReceived_eq haccounts' haccounts (hp.map _)⟩

/-- `serde_json` on the topics and the payload of the deliveries below. -/
def Codec.small : Codec where
  topicText
    | .attestations s => "\x7b\"Attestations\":" ++ toString s ++ "\x7d"
    | .aggregates s => "\x7b\"Aggregates\":" ++ toString s ++ "\x7d"
    | _ => ""
  parseTopic text :=
    if text = "\x7b\"Attestations\":2\x7d" then some (.attestations 2)
    else if text = "\x7b\"Aggregates\":3\x7d" then some (.aggregates 3) else none
  encode _ := [91, 55, 44, 51, 51, 44, 34, 34, 93]
  decode data := if data = [91, 55, 44, 51, 51, 44, 34, 34, 93] then some (7, 33, "") else none

def Delivery.small : List Delivery :=
  [⟨"a", "1", .attestation 7 2 33 "", ⟨"\x7b\"Attestations\":2\x7d", [91, 55, 44, 51, 51, 44, 34, 34, 93]⟩⟩,
    ⟨"b", "1", .attestation 7 2 33 "", ⟨"\x7b\"Attestations\":2\x7d", [91, 55, 44, 51, 51, 44, 34, 34, 93]⟩⟩,
    ⟨"b", "2", .aggregateAndProofAttestation 7 3 33 "", ⟨"\x7b\"Aggregates\":3\x7d", [91, 55, 44, 51, 51, 44, 34, 34, 93]⟩⟩]

theorem Delivery.small_published : ∀ d ∈ Delivery.small, d.sent.Published Codec.small d.message := by
  simp only [Generated.published_iff]
  decide

theorem small_accounted : ∃ node, deliver Codec.small Network.new Delivery.small = .ok node ∧
    Accounts node (Delivery.small.map Delivery.sent) := by
  obtain ⟨node, hok, haccounts, -⟩ := deliveries_accounted Codec.small Delivery.small
    Delivery.small_published (by unfold Codec.ReadsBack; decide)
    (by simp [Delivery.small, Generated.InRange, attestationSubnets])
  exact ⟨node, hok, haccounts⟩

end GossipPlans.BeaconNode
