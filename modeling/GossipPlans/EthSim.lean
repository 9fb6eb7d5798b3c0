import GossipPlans.DelayQueue
import GossipPlans.MessageIds

/-!
# eth_consensus: the queue of messages to validate

A gossipsub message is queued with a random delay and reported as valid when the queue yields it. The
branches of `run_sim` interleave in any order; times are nanoseconds. Calls of the gossipsub behaviour are
logged with their time.
-/

namespace GossipPlans.EthSim

open BeaconNode (Message Event SwarmEvent SwarmCall)
open Eth (Topic)

def millisecond : Nat := 1000000

/-- What one call of `thread_rng()` draws from `gen_range(0..bound)`. -/
structure ThreadRng where
  genRange : Nat → Nat
  genRange_lt : ∀ bound, 0 < bound → genRange bound < bound

structure Network where
  messagesToValidate : DelayQueue.Queue (String × String)
  calls : List (Nat × SwarmCall)

def Network.new : Network := ⟨[], []⟩

/-- The exclusive upper bound of the delay, in milliseconds. -/
def delayBound (msgSize : Nat) : Nat :=
  if msgSize ≤ 300 then 50
  else if msgSize ≤ 600 then 80
  else 500

def customValidation (now : Nat) (rng : ThreadRng) (net : Network) (messageId peerId : String) (msgSize : Nat) : Network :=
  { net with messagesToValidate := net.messagesToValidate ++
      [⟨(messageId, peerId), now, rng.genRange (delayBound msgSize) * millisecond⟩] }

def handleSwarmEvent (now : Nat) (rng : ThreadRng) (net : Network) : SwarmEvent → Network
  | .behaviour (.message propagationSource messageId message) =>
    customValidation now rng net messageId propagationSource message.data.length
  | _ => net

def publish (now : Nat) (net : Network) (topic : Topic) (validator : UInt64) (payload : List UInt8) : Network :=
  let message := Eth.outgoing topic validator payload
  { net with calls := net.calls ++ [(now, .publish message.topic message.data)] }

/-! ## `run_sim` -/

inductive Generated where
  | beaconBlock (proposer slot : UInt64)
  | aggregateAndProofAttestation (aggregator subnet slot : UInt64)
  | attestation (attester subnet slot : UInt64)
  | signedContributionAndProof (validator subnet slot : UInt64)
  | syncCommitteeMessage (validator subnet slot : UInt64)
deriving DecidableEq, Repr

def Generated.topicAndValidator : Generated → Topic × UInt64
  | .beaconBlock v _ => (.blocks, v)
  | .aggregateAndProofAttestation v _ _ => (.aggregates, v)
  | .attestation v s _ => (.attestations s, v)
  | .signedContributionAndProof v s _ => (.signedContributionAndProof s, v)
  | .syncCommitteeMessage v s _ => (.syncMessages s, v)

inductive Branch where
  | deadline
  | generated (m : Generated) (payload : List UInt8)
  | metricsTick
  | influxDbHandle
  | swarmEvent (event : SwarmEvent) (rng : ThreadRng)
  | expired (k : Nat)

/-- The body of a branch. Without queued messages the last branch is disabled. -/
def runBranch (now : Nat) (net : Network) : Branch → Option Network
  | .deadline => some net
  | .generated m payload => some (publish now net m.topicAndValidator.1 m.topicAndValidator.2 payload)
  | .metricsTick => some net
  | .influxDbHandle => some net
  | .swarmEvent event rng => some (handleSwarmEvent now rng net event)
  | .expired k =>
    if net.messagesToValidate.isEmpty then none
    else match DelayQueue.expire net.messagesToValidate now k with
      | none => none
      | some (x, queue) =>
        let (messageId, peerId) := x.value
        some ⟨queue, net.calls ++ [(now, .reportMessageValidationResult messageId peerId)]⟩

structure Loop where
  now : Nat
  running : Bool
  network : Network

def Loop.new : Loop := ⟨0, true, .new⟩

def step (l : Loop) (e : Nat × Branch) : Option Loop :=
  if l.running ∧ l.now ≤ e.1 then
    (runBranch e.1 l.network e.2).map fun net => ⟨e.1, match e.2 with | .deadline => false | _ => true, net⟩
  else none

def runSim : Loop → List (Nat × Branch) → Option Loop
  | l, [] => some l
  | l, e :: es => (step l e).bind fun l => runSim l es

/-! ## Accounting -/

def handled : Nat × Branch → Option (String × String)
  | (_, .swarmEvent (.behaviour (.message propagationSource messageId _)) _) => some (messageId, propagationSource)
  | _ => none

/-- What a step puts in the queue: a handled message, with the time and the delay drawn for it. -/
def inserted : Nat × Branch → Option (DelayQueue.Entry (String × String))
  | (now, .swarmEvent (.behaviour (.message propagationSource messageId message)) rng) =>
    some ⟨(messageId, propagationSource), now, rng.genRange (delayBound message.data.length) * millisecond⟩
  | _ => none

def Network.reports (net : Network) : List (Nat × (String × String)) :=
  net.calls.filterMap fun c => c.2.report?.map (c.1, ·)

/-- Each report is that of an entry which the queue has yielded. -/
structure Accounted (es : List (Nat × Branch)) (net : Network)
    (yielded : List (Nat × DelayQueue.Entry (String × String))) : Prop where
  accounts : DelayQueue.Accounts (es.filterMap inserted) yielded net.messagesToValidate
  reports : net.reports = yielded.map fun y => (y.1, y.2.value)

/-- At a point of the loop: every handled message is still queued or was reported, each as often as it was handled,
no report came before the delay drawn for its message had passed, and all delays are below 500 ms. -/
structure Conserved (es : List (Nat × Branch)) (net : Network) : Prop where
  messages : (es.filterMap handled).Perm (net.messagesToValidate.map (·.value) ++ net.reports.map Prod.snd)
  delays : ∃ yielded, Accounted es net yielded
  bounded : ∀ x ∈ es.filterMap inserted, x.delay < 500 * millisecond

theorem handled_eq (e : Nat × Branch) : handled e = (inserted e).map (·.value) := by
  obtain ⟨now, branch⟩ := e
  cases branch with
  | swarmEvent event rng =>
    cases event with
    | behaviour event => cases event <;> rfl
    | other => rfl
  | deadline | generated m payload | metricsTick | influxDbHandle | expired k => rfl

theorem delayBound_spec (msgSize : Nat) : 0 < delayBound msgSize ∧ delayBound msgSize ≤ 500 := by
  unfold delayBound
  split_ifs <;> omega

theorem delay_lt {e : Nat × Branch} {x : DelayQueue.Entry (String × String)} (h : inserted e = some x) :
    x.delay < 500 * millisecond := by
  unfold inserted at h
  split at h
  · rename_i now source id message rng
    cases h
    obtain ⟨hpos, hle⟩ := delayBound_spec message.data.length
    exact Nat.mul_lt_mul_of_pos_right (Nat.lt_of_lt_of_le (rng.genRange_lt _ hpos) hle) (by decide)
  · cases h

/-! ## One step -/

theorem step_eq_some {l l' : Loop} {e : Nat × Branch} (h : step l e = some l') :
    l.now ≤ e.1 ∧ runBranch e.1 l.network e.2 = some l'.network := by
  unfold step at h
  split at h
  · rename_i hguard
    obtain ⟨net, hnet, rfl⟩ := Option.map_eq_some_iff.mp h
    exact ⟨hguard.2, hnet⟩
  · cases h

/-- What a branch does to the queue and to the reports: it inserts, it moves an entry that is due from the one to
the other, or it leaves both as they are. -/
theorem runBranch_cases {now : Nat} {net net' : Network} {branch : Branch} (h : runBranch now net branch = some net') :
    (net'.messagesToValidate = net.messagesToValidate ++ (inserted (now, branch)).toList ∧ net'.reports = net.reports) ∨
      (inserted (now, branch) = none ∧ ∃ k x,
        DelayQueue.expire net.messagesToValidate now k = some (x, net'.messagesToValidate) ∧
        net'.reports = net.reports ++ [(now, x.value)]) := by
  cases branch with
  | deadline | metricsTick | influxDbHandle =>
    cases h
    exact Or.inl ⟨(List.append_nil _).symm, rfl⟩
  | generated m payload =>
    cases h
    exact Or.inl ⟨(List.append_nil _).symm, by simp [publish, Network.reports, SwarmCall.report?]⟩
  | swarmEvent event rng =>
    cases h
    refine Or.inl ⟨?_, ?_⟩
    · cases event with
      | behaviour event =>
        cases event with
        | message source id message => rfl
        | other => exact (List.append_nil _).symm
      | other => exact (List.append_nil _).symm
    · cases event with
      | behaviour event => cases event <;> rfl
      | other => rfl
  | expired k =>
    simp only [runBranch] at h
    split at h
    · cases h
    · split at h
      · cases h
      · rename_i x queue hexpire
        cases h
        exact Or.inr ⟨rfl, k, x, hexpire, by simp [Network.reports, SwarmCall.report?]⟩

theorem Accounted.step {es : List (Nat × Branch)} {l l' : Loop} {e : Nat × Branch}
    {yielded : List (Nat × DelayQueue.Entry (String × String))} (h : Accounted es l.network yielded)
    (hstep : step l e = some l') : ∃ yielded', Accounted (es ++ [e]) l'.network yielded' := by
  obtain ⟨-, hbranch⟩ := step_eq_some hstep
  rcases runBranch_cases hbranch with ⟨hqueue, hreports⟩ | ⟨hnone, k, x, hexpire, hreports⟩
  · refine ⟨yielded, ?_, hreports.trans h.reports⟩
    rw [List.filterMap_append, hqueue]
    cases hi : inserted e with
    | none => simpa [hi] using h.accounts
    | some x => simpa [hi] using h.accounts.insert x
  · refine ⟨yielded ++ [(e.1, x)], ?_, by rw [hreports, h.reports, List.map_append]; rfl⟩
    rw [List.filterMap_append, List.filterMap_cons_none hnone, List.filterMap_nil, List.append_nil]
    exact h.accounts.expire hexpire

/-! ## Every run -/

theorem accounted_new : Accounted [] Network.new [] := ⟨DelayQueue.accounts_nil, rfl⟩

theorem Accounted.run : ∀ {es seen : List (Nat × Branch)} {l l' : Loop}
    {yielded : List (Nat × DelayQueue.Entry (String × String))}, Accounted seen l.network yielded →
    runSim l es = some l' → ∃ yielded', Accounted (seen ++ es) l'.network yielded'
  | [], _, _, _, yielded, h, hrun => by
    cases hrun
    exact ⟨yielded, by rwa [List.append_nil]⟩
  | e :: es, seen, l, l', _, h, hrun => by
    obtain ⟨l₁, hstep, hrun⟩ := Option.bind_eq_some_iff.mp hrun
    obtain ⟨yielded₁, h₁⟩ := h.step hstep
    rw [List.append_cons]
    exact h₁.run hrun

/-- **The validation queue conserves messages**, at every point of the loop, in every interleaving of its branches
and for all delays drawn. -/
theorem messages_conserved {es : List (Nat × Branch)} {l : Loop} (h : runSim .new es = some l) :
    Conserved es l.network := by
  obtain ⟨yielded, hacc⟩ := accounted_new.run h
  rw [List.nil_append] at hacc
  constructor
  case messages =>
    have hhandled : es.filterMap handled = (es.filterMap inserted).map (·.value) := by
      rw [List.map_filterMap]
      exact List.filterMap_congr fun e _ => handled_eq e
    rw [hhandled, hacc.reports]
    have hperm := hacc.accounts.conserved.map (·.value)
    simpa [Function.comp_def] using hperm
  case delays => exact ⟨yielded, hacc⟩
  case bounded =>
    intro x hx
    obtain ⟨e, -, hx⟩ := List.mem_filterMap.mp hx
    exact delay_lt hx

/-- A draw of `n`, or of the largest number below the bound. -/
def ThreadRng.draws (n : Nat) : ThreadRng := ⟨fun bound => min n (bound - 1), fun _ _ => by omega⟩

/-- One message comes twice, with delays of 10 ms and 5 ms, and the second is reported after 7 ms. -/
def twice : List (Nat × Branch) :=
  [(0, .swarmEvent (.behaviour (.message "peer" "id" ⟨"Blocks", []⟩)) (.draws 10)),
    (2 * millisecond, .swarmEvent (.behaviour (.message "peer" "id" ⟨"Blocks", []⟩)) (.draws 5)),
    (7 * millisecond, .expired 1)]

theorem messages_conserved_twice : ∃ l, runSim .new twice = some l ∧
    l.network.reports = [(7 * millisecond, ("id", "peer"))] ∧ Conserved twice l.network :=
  ⟨_, rfl, rfl, messages_conserved rfl⟩

end GossipPlans.EthSim
