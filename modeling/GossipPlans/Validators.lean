import GossipPlans.EthNetworkSound

/-!
# Which node gets which validators

The cuts are drawn from the validator ids, so they can repeat an end or be fewer than asked for. The
pieces between them still share out all validators (`validators_partition`). A drawn cut `0` leaves
the first node without validators (`hasValidators_iff_lt`), and with no node to have validators
the number of cuts underflows (`completes_iff`).
-/

namespace GossipPlans

open Cuts

def hasValidators (va : ValidatorAssignments) (node : Nat) : Bool :=
  match va[node]? with
  | some assigned => assigned ≠ ∅
  | none => false

def Assigned (va : ValidatorAssignments) (node val : Nat) : Prop := ∃ assigned, va[node]? = some assigned ∧ val ∈ assigned

/-- The assigned sets are pairwise disjoint and their union is `0..total_validators`. -/
structure SharesOut (params : Params) (va : ValidatorAssignments) : Prop where
  disjoint : ∀ i j x, Assigned va i x → Assigned va j x → i = j
  covers : ∀ x, (∃ i, Assigned va i x) ↔ x < params.totalValidators

theorem mem_assignedVals {va : ValidatorAssignments} {x : Nat} : x ∈ assignedVals va ↔ ∃ i, Assigned va i x := by
  rw [assignedVals, OrderedMap.mem_foldr_union]
  simp only [OrderedMap.values, List.mem_map, Prod.exists, Std.TreeMap.mem_toList_iff_getElem?_eq_some, Assigned]
  constructor
  · intro h
    obtain ⟨s, ⟨i, s, hi, rfl⟩, hx⟩ := h
    exact ⟨i, s, hi, hx⟩
  · intro h
    obtain ⟨i, s, hi, hx⟩ := h
    exact ⟨s, ⟨i, s, hi, rfl⟩, hx⟩

/-- Counting the assigned validators with and without repetition is enough to see a partition. -/
theorem partition_iff_sharesOut {params : Params} {va : ValidatorAssignments} :
    Partition params va ↔ SharesOut params va := by
  have hcovers : assignedVals va = Finset.range params.totalValidators ↔
      ∀ x, (∃ i, Assigned va i x) ↔ x < params.totalValidators := by
    simp only [Finset.ext_iff, mem_assignedVals, Finset.mem_range]
  have hdisjoint : (OrderedMap.values va).Pairwise Disjoint ↔
      ∀ i j x, Assigned va i x → Assigned va j x → i = j := by
    rw [OrderedMap.pairwise_disjoint_values]
    constructor
    · intro h i j x hi hj
      obtain ⟨s, hi, hs⟩ := hi
      obtain ⟨t, hj, ht⟩ := hj
      exact h i j s t x hi hj hs ht
    · exact fun h i j s t x hi hj hs ht => h i j x ⟨s, hi, hs⟩ ⟨t, hj, ht⟩
  rw [← OrderedMap.card_foldr_union_eq_iff] at hdisjoint
  constructor
  · intro h
    refine ⟨hdisjoint.mp ?_, hcovers.mp h.2⟩
    rw [h.1, ← assignedVals, h.2, Finset.card_range]
  · intro h
    have heq := hcovers.mpr h.covers
    refine ⟨?_, heq⟩
    rw [← hdisjoint.mpr h.disjoint, ← assignedVals, heq, Finset.card_range]

theorem validatorAssignments_of_generate {b : Build} {gen : Prng} {params : Params} {va : ValidatorAssignments}
    (hva : assignValidators b gen params = .ok va) {net : Network} (h : Network.generate b gen params = .ok net) :
    net.validatorAssignments = va := by
  obtain ⟨cuts, hc, -⟩ := bind_ok_iff.mp hva
  obtain ⟨va', st, hva', -, -, -, hg⟩ := generate_of_cuts hc (fits_of_generate h)
  rw [hg] at h
  split at h
  · cases h
    exact Except.ok.inj (hva'.symm.trans hva)
  · cases h

section
variable {b : Build} {gen : Prng} {params : Params}

theorem getElem?_of_pieces {va : ValidatorAssignments} {ps : List (List Nat)}
    (h : va.toList = ps.zipIdx.map fun e => (e.2, e.1.toFinset)) (i : Nat) : va[i]? = ps[i]?.map List.toFinset := by
  apply Option.ext
  intro s
  rw [← Std.TreeMap.mem_toList_iff_getElem?_eq_some, h, List.mem_map, Option.map_eq_some_iff]
  constructor
  · intro h
    obtain ⟨⟨p, j⟩, hp, heq⟩ := h
    obtain ⟨rfl, rfl⟩ := Prod.mk.inj heq
    exact ⟨p, List.mem_zipIdx_iff_getElem?.mp hp, rfl⟩
  · intro h
    obtain ⟨p, hp, rfl⟩ := h
    exact ⟨(p, i), List.mem_zipIdx_iff_getElem?.mpr hp, rfl⟩

theorem length_pieces {cuts : List Nat} (hv : 1 ≤ params.totalNodesWithVals) (h : cutsOf b gen params = .ok cuts) :
    (pieces gen params cuts).length = min (params.totalNodesWithVals - 1) params.totalValidators + 1 := by
  rw [pieces, List.length_map, length_windows2, length_cutsOf (usizeSub_ok hv) h]
  rfl

theorem length_shuffled (gen : Prng) (params : Params) :
    (gen.shuffleValidators (List.range params.totalValidators)).length = params.totalValidators := by
  rw [(gen.shuffleValidators_perm _).length_eq, List.length_range]

end

/-- **Validator assignment is a partition.** The assigned sets are disjoint and make up `0..total_validators`,
their keys are an initial segment of at most `total_nodes_with_vals` ids, and every slice is in bounds. -/
theorem validators_partition (b : Build) (gen : Prng) (params : Params) (hv : 1 ≤ params.totalNodesWithVals) :
    ∃ va, assignValidators b gen params = .ok va ∧
      (∀ net, Network.generate b gen params = .ok net → net.validatorAssignments = va) ∧ SharesOut params va ∧
      (∃ k, (∀ i, i ∈ va ↔ i < k) ∧ k ≤ params.totalNodesWithVals ∧ params.totalNodesWithVals ≤ params.totalNodes) ∧
      ∀ cuts, cutsOf b gen params = .ok cuts → ∀ w ∈ windows2 cuts,
        w.1 ≤ w.2 ∧ w.2 ≤ (gen.shuffleValidators (List.range params.totalValidators)).length := by
  obtain ⟨cuts, hc⟩ := cutsOf_ok b gen (Or.inl hv)
  obtain ⟨va, hva, htoList⟩ := assignValidators_spec hc
  refine ⟨va, hva, fun net hnet => validatorAssignments_of_generate hva hnet,
    partition_iff_sharesOut.mp (partition_of_cuts hc htoList), ?_, fun cuts hc w hw => ?_⟩
  · refine ⟨(pieces gen params cuts).length, fun i => ?_, ?_, params.withVals_le⟩
    · rw [Std.TreeMap.mem_iff_isSome_getElem?, getElem?_of_pieces htoList, Option.isSome_map]
      simp
    · rw [length_pieces hv hc]
      omega
  · obtain ⟨hs, -, -, hle⟩ := cutsOf_spec hc
    rw [length_shuffled]
    exact windows2_bounds hs hle w hw

/-- Three nodes share two validators: the cuts `0`, `0`, `1`, `2` leave the first of them nothing. -/
theorem validators_partition_three : ∃ va, assignValidators .release (Prng.ofOrder [])
    ⟨1, 2, 3, 3, ⟨1, 1⟩, by decide, by decide, by decide, by decide⟩ = .ok va ∧
    SharesOut ⟨1, 2, 3, 3, ⟨1, 1⟩, by decide, by decide, by decide, by decide⟩ va := by
  obtain ⟨va, hva, -, hshares, -⟩ := validators_partition .release (Prng.ofOrder [])
    ⟨1, 2, 3, 3, ⟨1, 1⟩, by decide, by decide, by decide, by decide⟩ (by decide)
  exact ⟨va, hva, hshares⟩

/-! ## Nodes without validators -/

/-- `all_validators.choose_multiple(&mut gen, params.total_nodes_with_vals - 1)` -/
def drawnCuts (gen : Prng) (params : Params) : List Nat :=
  gen.chooseMultiple (List.range params.totalValidators) (params.totalNodesWithVals - 1)

section
variable {b : Build} {gen : Prng} {params : Params}

theorem nodup_cuts_iff {cuts : List Nat} (hv : 1 ≤ params.totalNodesWithVals) (h : cutsOf b gen params = .ok cuts) :
    cuts.Nodup ↔ 0 ∉ drawnCuts gen params := by
  have hpos := params.validators_pos
  rw [cutsOf, usizeSub_ok hv] at h
  have hsort : (drawnCuts gen params ++ [params.totalValidators, 0]).insertionSort (· ≤ ·) = cuts := Except.ok.inj h
  have hdrawn : (drawnCuts gen params).Nodup := by
    obtain ⟨l, hperm, hsub⟩ := gen.choose_subperm (List.range params.totalValidators) (params.totalNodesWithVals - 1)
    exact hperm.nodup_iff.mp (List.nodup_range.sublist hsub)
  have hlt : params.totalValidators ∉ drawnCuts gen params := by
    intro hm
    have := (gen.choose_subperm _ _).subset hm
    simp at this
  rw [← hsort, (List.perm_insertionSort _ _).nodup_iff, List.nodup_append]
  simp only [hdrawn, true_and]
  constructor
  · intro hd hm
    exact hd.2 0 hm 0 (by simp) rfl
  · intro hm
    refine ⟨by simp; omega, fun a ha c hc hac => ?_⟩
    subst hac
    rcases List.mem_cons.mp hc with rfl | hc
    · exact hlt ha
    · rw [List.mem_singleton] at hc
      exact hm (hc ▸ ha)

theorem hasValidators_iff {cuts : List Nat} (h : cutsOf b gen params = .ok cuts) {va : ValidatorAssignments}
    (hva : va.toList = (pieces gen params cuts).zipIdx.map fun e => (e.2, e.1.toFinset)) (i : Nat) :
    hasValidators va i ↔ ∃ w, (windows2 cuts)[i]? = some w ∧ w.1 < w.2 := by
  obtain ⟨hs, -, -, hle⟩ := cutsOf_spec h
  rw [hasValidators, getElem?_of_pieces hva, pieces, List.getElem?_map]
  cases hw : (windows2 cuts)[i]? with
  | none => simp
  | some w =>
    have hbound := windows2_bounds hs hle w (List.mem_of_getElem? hw)
    have hlen : (piece (gen.shuffleValidators (List.range params.totalValidators)) w).length = w.2 - w.1 := by
      apply length_piece
      rw [length_shuffled]
      exact hbound.2
    have hne : piece (gen.shuffleValidators (List.range params.totalValidators)) w ≠ [] ↔ w.1 < w.2 := by
      rw [← List.length_pos_iff, hlen, Nat.sub_pos_iff_lt]
    simp [hne]

end

/-- **Who has validators.** The first `total_nodes_with_vals` nodes and no others, unless a cut is drawn at `0`. -/
theorem hasValidators_iff_lt (b : Build) (gen : Prng) (params : Params) (hv : 1 ≤ params.totalNodesWithVals)
    (hle : params.totalNodesWithVals ≤ params.totalValidators) :
    ∃ va, assignValidators b gen params = .ok va ∧
      (∀ net, Network.generate b gen params = .ok net → net.validatorAssignments = va) ∧
      ((∀ i, hasValidators va i ↔ i < params.totalNodesWithVals) ∧
        ((Finset.range params.totalNodes).filter fun i => hasValidators va i).card = params.totalNodesWithVals ↔
          0 ∉ drawnCuts gen params) := by
  obtain ⟨cuts, hc⟩ := cutsOf_ok b gen (Or.inl hv)
  obtain ⟨va, hva, htoList⟩ := assignValidators_spec hc
  have hlen : (windows2 cuts).length = params.totalNodesWithVals := by
    have := length_pieces hv hc
    rw [pieces, List.length_map] at this
    omega
  have hhas := hasValidators_iff hc htoList
  refine ⟨va, hva, fun net hnet => validatorAssignments_of_generate hva hnet, ?_⟩
  rw [← nodup_cuts_iff hv hc, ← windows2_lt_iff (cutsOf_spec hc).1]
  constructor
  · intro hall w hw
    obtain ⟨i, hi⟩ := List.getElem?_of_mem hw
    have hin : i < params.totalNodesWithVals := hlen ▸ (List.getElem?_eq_some_iff.mp hi).1
    obtain ⟨w', hw', hlt⟩ := (hhas i).mp ((hall.1 i).mpr hin)
    rw [hi] at hw'
    cases hw'
    exact hlt
  · intro hall
    have hiff : ∀ i, hasValidators va i ↔ i < params.totalNodesWithVals := by
      intro i
      rw [hhas, ← hlen]
      constructor
      · intro h
        obtain ⟨w, hw, -⟩ := h
        exact (List.getElem?_eq_some_iff.mp hw).1
      · intro hi
        exact ⟨_, List.getElem?_eq_getElem hi, hall _ (List.getElem_mem hi)⟩
    refine ⟨hiff, ?_⟩
    have hset : (Finset.range params.totalNodes).filter (fun i => hasValidators va i) =
        Finset.range params.totalNodesWithVals := by
      ext i
      rw [Finset.mem_filter, Finset.mem_range, Finset.mem_range, hiff]
      exact ⟨fun h => h.2, fun h => ⟨Nat.lt_of_lt_of_le h params.withVals_le, h⟩⟩
    rw [hset, Finset.card_range]

/-- The outcome that draws the last validators as cuts. -/
def Prng.lastCuts : Prng :=
  { Prng.ofOrder [] with
    chooseMultiple l k := l.drop (l.length - k)
    choose_subperm l k := (List.drop_sublist _ l).subperm
    choose_length l k := by rw [List.length_drop]; omega }

/-- Two nodes, three validators, and the cut drawn is `2`. -/
theorem hasValidators_iff_lt_two : ∃ va, assignValidators .release Prng.lastCuts
    ⟨1, 3, 2, 2, ⟨1, 1⟩, by decide, by decide, by decide, by decide⟩ = .ok va ∧ ∀ i, hasValidators va i ↔ i < 2 := by
  obtain ⟨va, hva, -, hall⟩ := hasValidators_iff_lt .release Prng.lastCuts
    ⟨1, 3, 2, 2, ⟨1, 1⟩, by decide, by decide, by decide, by decide⟩ (by decide) (by decide)
  exact ⟨va, hva, (hall.mpr (by decide)).1⟩

/-- Two nodes, two validators, and the cut drawn is `0`: node 0 gets none, and the network is accepted. -/
theorem node_without_validators :
    (Network.generate .release (Prng.ofOrder []) ⟨1, 2, 2, 2, ⟨1, 1⟩, by decide, by decide, by decide, by decide⟩).map
      (fun net => (hasValidators net.validatorAssignments 0, hasValidators net.validatorAssignments 1)) =
        .ok (false, true) := by decide

/-! ## Networks without validating nodes -/

theorem completes_of_cuts {b : Build} {gen : Prng} {params : Params} (hv : 1 ≤ params.totalNodesWithVals)
    (hfits : params.Fits) : Completes (Network.generate b gen params) := by
  obtain ⟨cuts, hc⟩ := cutsOf_ok b gen (Or.inl hv)
  obtain ⟨va, st, -, -, -, -, hg⟩ := generate_of_cuts hc hfits
  intro p hp
  rw [hg] at hp
  split at hp
  · cases hp
  · cases hp

/-- **When generation completes.** Whatever is drawn and however the plan is built, exactly with a node to have
validators and with room for the vectors: `total_nodes_with_vals - 1` and the two `collect`s are the only operations of
`generate` that can fail. -/
theorem completes_iff (gen : Prng) (params : Params) :
    (∀ b, Completes (Network.generate b gen params)) ↔ 1 ≤ params.totalNodesWithVals ∧ params.Fits := by
  constructor
  · intro h
    have hfits : params.Fits := by
      by_contra hfits
      obtain ⟨p, hp⟩ := generate_of_not_fits .debug gen hfits
      exact h .debug p hp
    refine ⟨?_, hfits⟩
    by_contra hv
    have hsub : cutsOf .debug gen params = .error (.panic .subOverflow) := by
      rw [cutsOf, usizeSub, if_neg hv]
      rfl
    apply h .debug .subOverflow
    rw [Network.generate, (fits_iff.mp hfits).1, assignValidators, hsub]
    rfl
  · intro h b
    exact completes_of_cuts h.1 h.2

/-- One instance and `no_val_percentage = 100`: `parse_params` accepts it and the generator panics. -/
theorem no_validating_node : ∃ run params, Eth.parseParams .debug 1 [("seed", "40"), ("no_val_percentage", "100"),
    ("total_validators", "200"), ("min_peers_per_node", "2"), ("max_peers_per_node_inclusive", "3"), ("run", "120")] =
      .ok (run, params) ∧ ∀ gen, Network.generate .debug gen params = .error (.panic .subOverflow) := by
  refine ⟨120, ⟨40, 200, 0, 1, ⟨2, 3⟩, by decide, by decide, by decide, by decide⟩, by decide, fun gen => ?_⟩
  rw [Network.generate, (fits_iff.mp (by decide)).1]
  rfl

end GossipPlans
