import GossipPlans.Basic
import GossipPlans.Cuts
import GossipPlans.Maps
import Mathlib.Data.Finset.Max
import Mathlib.Data.Finset.Sort

/-!
# Generating a network: validators and topology

`gen_topology`: the parameters, the validator assignment by random cuts, the random connection
loop, and the checks of `Network::new`. Every random choice is a field of `Prng`. Node ids and
validator ids are `usize`, here `Nat`.
-/

namespace GossipPlans

open OrderedMap (values)

structure RangeInclusive where
  start : Nat
  last : Nat
deriving DecidableEq, Repr

def RangeInclusive.isEmpty (r : RangeInclusive) : Bool := r.last < r.start

/-- Private fields and one constructor: a value of this type was accepted by `Params.new`. -/
structure Params where
  seed : Nat
  totalValidators : Nat
  totalNodesWithVals : Nat
  totalNodes : Nat
  connectionsRange : RangeInclusive
  withVals_le : totalNodesWithVals ≤ totalNodes
  nodes_pos : 0 < totalNodes
  validators_pos : 0 < totalValidators
  range_nonempty : connectionsRange.isEmpty = false
deriving DecidableEq

def Params.new (b : Build) (seed totalValidators totalNodesWithVals totalNodesWithoutVals
    minPeersPerNode maxPeersPerNodeInclusive : Nat) : Run Params := do
  let totalNodes ← usizeAdd b totalNodesWithVals totalNodesWithoutVals
  if h₁ : totalNodes < totalNodesWithVals then .error (.err "bad number of nodes with validators")
  else if h₂ : totalNodes = 0 then .error (.err "Empty network")
  else if h₃ : totalValidators = 0 then .error (.err "no validators in the network")
  else if h₄ : (RangeInclusive.mk minPeersPerNode maxPeersPerNodeInclusive).isEmpty then
    .error (.err "bad connection range")
  else .ok {
    seed, totalValidators, totalNodesWithVals, totalNodes
    connectionsRange := ⟨minPeersPerNode, maxPeersPerNodeInclusive⟩
    withVals_le := Nat.le_of_not_lt h₁
    nodes_pos := Nat.pos_of_ne_zero h₂
    validators_pos := Nat.pos_of_ne_zero h₃
    range_nonempty := by simpa using h₄ }

/-- One outcome of the generator seeded for a run: what each call draws, and nothing but what
the documentation of `rand` promises about it. -/
structure Prng where
  /-- `validators.choose_multiple(&mut gen, amount)` -/
  chooseMultiple : List Nat → Nat → List Nat
  choose_subperm : ∀ l k, (chooseMultiple l k).Subperm l
  choose_length : ∀ l k, (chooseMultiple l k).length = min k l.length
  /-- `all_validators.shuffle(&mut gen)` -/
  shuffleValidators : List Nat → List Nat
  shuffleValidators_perm : ∀ l, (shuffleValidators l).Perm l
  /-- The `p`-th `gen_range(lo..=hi)`. -/
  genRange : Nat → Nat → Nat → Nat
  genRange_mem : ∀ p lo hi, lo ≤ hi → lo ≤ genRange p lo hi ∧ genRange p lo hi ≤ hi
  /-- `all_connections.shuffle(&mut gen)` -/
  shuffleConnections : List (Nat × Nat) → List (Nat × Nat)
  shuffleConnections_perm : ∀ l, (shuffleConnections l).Perm l
  /-- The `k`-th `gen_ratio(3, 5)`. -/
  genRatio : Nat → Bool

/-- The outcome that offers the pairs in a given order and draws the largest targets. -/
def Prng.ofOrder (order : List (Nat × Nat)) : Prng where
  chooseMultiple l k := l.take k
  choose_subperm l k := (List.take_sublist k l).subperm
  choose_length l k := List.length_take
  shuffleValidators l := l
  shuffleValidators_perm l := .refl l
  genRange _ lo hi := if lo ≤ hi then hi else lo
  genRange_mem _ lo hi h := by rw [if_pos h]; exact ⟨h, Nat.le_refl _⟩
  shuffleConnections l := if order.reverse.Perm l then order.reverse else l
  shuffleConnections_perm l := by
    split
    · assumption
    · exact .refl l
  genRatio _ := true

abbrev ValidatorAssignments := Std.TreeMap Nat (Finset Nat)
abbrev OutboundPeers := Std.TreeMap Nat (List Nat)

structure Network where
  params : Params
  validatorAssignments : ValidatorAssignments
  outboundPeers : OutboundPeers

/-! ## `Network::new` -/

/-- `{:?}` of the difference of two hash sets, here in increasing order; the real order is unspecified. -/
def debugDifference (s : Finset Nat) : String :=
  "[" ++ ", ".intercalate ((s.sort (· ≤ ·)).map toString) ++ "]"

def connectedPeers (outboundPeers : OutboundPeers) : Finset Nat :=
  (outboundPeers.toList.flatMap fun e => e.2 ++ [e.1]).toFinset

def assignedVals (validatorAssignments : ValidatorAssignments) : Finset Nat :=
  (values validatorAssignments).foldr (· ∪ ·) ∅

def Network.new (params : Params) (validatorAssignments : ValidatorAssignments)
    (outboundPeers : OutboundPeers) : Run Network :=
  let totalVals := ((values validatorAssignments).map Finset.card).sum
  if totalVals ≠ params.totalValidators then
    .error (.err (s!"the number of assigned validators does not match the expected number. " ++
      s!"Found {totalVals}, expected {params.totalValidators}"))
  else
    let assigned := assignedVals validatorAssignments
    if assigned.card ≠ totalVals then .error (.err "a validator id was assigned more than once")
    else if h : assigned.Nonempty then
      -- `total_validators - 1` does not underflow: `validators_pos`
      if assigned.max' h ≠ params.totalValidators - 1 then
        .error (.err "validator ids do not cover the expected range (wrong max)")
      else if assigned.min' h ≠ 0 then
        .error (.err "validator ids do not cover the expected range (wrong min)")
      else
        let connected := connectedPeers outboundPeers
        let expected := Finset.range params.totalNodes
        if connected ≠ expected then
          .error (.err ("set of dialed peers and expected peers differ: missing " ++
            debugDifference (expected \ connected)))
        else .ok { params, validatorAssignments, outboundPeers }
    else .error (.panic (.expect "total_validators > 0"))

/-! ## Validators: random cuts of a shuffled list -/

def slice {α : Type} (xs : List α) (start stop : Nat) : Run (List α) :=
  if start ≤ stop ∧ stop ≤ xs.length then .ok (Cuts.piece xs (start, stop))
  else .error (.panic .sliceIndex)

def assignCut (allValidators : List Nat) (e : (Nat × Nat) × Nat) : Run (Nat × Finset Nat) := do
  let assigned ← slice allValidators e.1.1 e.1.2
  .ok (e.2, assigned.toFinset)

def cutsOf (b : Build) (gen : Prng) (params : Params) : Run (List Nat) := do
  let amount ← usizeSub b params.totalNodesWithVals 1
  let cuts := gen.chooseMultiple (List.range params.totalValidators) amount
  .ok ((cuts ++ [params.totalValidators, 0]).insertionSort (· ≤ ·))

def assignValidators (b : Build) (gen : Prng) (params : Params) : Run ValidatorAssignments := do
  let cuts ← cutsOf b gen params
  let allValidators := gen.shuffleValidators (List.range params.totalValidators)
  let assigned ← (Cuts.windows2 cuts).zipIdx.mapM (assignCut allValidators)
  .ok (.ofList assigned)

/-! ## Connections: the random edge loop -/

/-- What the connection loop has built: for each node the expected number of connections and
its connections so far, outbound ones marked `true`. -/
structure Topology where
  topology : Std.TreeMap Nat (Nat × Std.TreeMap Nat Bool)
  outboundPeers : OutboundPeers
  draws : Nat

def allConnections (totalNodes : Nat) : List (Nat × Nat) :=
  (List.range totalNodes).flatMap fun i =>
    (List.range' (i + 1) (totalNodes - (i + 1))).map fun j => (i, j)

def expectConnections (gen : Prng) (range : RangeInclusive) :
    List Nat → Topology → Run Topology
  | [], st => .ok st
  | p :: ps, st =>
    if range.isEmpty then .error (.panic .emptyRange)
    else
      let numPeers := gen.genRange p range.start range.last
      expectConnections gen range ps { st with topology := st.topology.insert p (numPeers, ∅) }

/-- `topology.get_mut(&a).unwrap().1.insert(b, isOutbound)` -/
def addConnection (topology : Std.TreeMap Nat (Nat × Std.TreeMap Nat Bool)) (a b : Nat)
    (isOutbound : Bool) : Std.TreeMap Nat (Nat × Std.TreeMap Nat Bool) :=
  topology.modify a fun e => (e.1, e.2.insert b isOutbound)

/-- `outbound_peers.entry(a).or_default().push(b)` -/
def pushOutbound (outboundPeers : OutboundPeers) (a b : Nat) : OutboundPeers :=
  outboundPeers.alter a fun o => some (o.getD [] ++ [b])

def connectPair (gen : Prng) (st : Topology) (a b : Nat) : Run Topology :=
  match st.topology[a]? with
  | none => .error (.panic .unwrapNone)
  | some (expected, current) =>
    if expected ≤ current.size then .ok st
    else match st.topology[b]? with
      | none => .error (.panic .unwrapNone)
      | some (expected, current) =>
        if expected ≤ current.size then .ok st
        else
          let fromAToB := gen.genRatio st.draws
          .ok {
            topology := addConnection (addConnection st.topology a b fromAToB) b a (!fromAToB)
            outboundPeers :=
              if fromAToB then pushOutbound st.outboundPeers a b else pushOutbound st.outboundPeers b a
            draws := st.draws + 1 }

def connectLoop (gen : Prng) : List (Nat × Nat) → Topology → Run Topology
  | [], st => .ok st
  | (a, b) :: rest, st => do
    let st ← connectPair gen st a b
    connectLoop gen rest st

def buildTopology (gen : Prng) (params : Params) : Run Topology := do
  let st ← expectConnections gen params.connectionsRange (List.range params.totalNodes) ⟨∅, ∅, 0⟩
  -- `pop` takes the pairs from the end of the shuffled vector
  connectLoop gen (gen.shuffleConnections (allConnections params.totalNodes)).reverse st

/-- The pairs of nodes are collected by pushes, which double the capacity. That is above `isize::MAX` bytes for the same
numbers of nodes as the pairs themselves are. -/
def Network.generate (b : Build) (gen : Prng) (params : Params) : Run Network := do
  withCapacity 8 params.totalValidators
  let validatorAssignments ← assignValidators b gen params
  withCapacity 16 (allConnections params.totalNodes).length
  let st ← buildTopology gen params
  match Network.new params validatorAssignments st.outboundPeers with
  | .error (.err e) => .error (.err ("Network generation failed: " ++ e))
  | r => r

end GossipPlans
