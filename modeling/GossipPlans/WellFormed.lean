import GossipPlans.Validators

/-!
# What `Network::new` accepts

The checks count the validators with and without repetition and compare the largest and the smallest id.
Distinct ids below a bound that are as many as the bound are all of them, so this says that the nodes share
out the validators.
-/

namespace GossipPlans

/-- `v` dials or is dialed. -/
def Mentioned (outboundPeers : OutboundPeers) (v : Nat) : Prop :=
  ∃ a peers, outboundPeers[a]? = some peers ∧ (v = a ∨ v ∈ peers)

structure WellFormed (params : Params) (va : ValidatorAssignments) (outboundPeers : OutboundPeers) : Prop where
  validators : SharesOut params va
  nodes : ∀ v, Mentioned outboundPeers v ↔ v < params.totalNodes

theorem mem_connectedPeers_iff {outboundPeers : OutboundPeers} {v : Nat} :
    v ∈ connectedPeers outboundPeers ↔ Mentioned outboundPeers v := by
  simp only [connectedPeers, List.mem_toFinset, List.mem_flatMap, List.mem_append, List.mem_singleton, Prod.exists,
    Std.TreeMap.mem_toList_iff_getElem?_eq_some, Mentioned]
  simp only [or_comm]

theorem connectedPeers_eq_range_iff {outboundPeers : OutboundPeers} {n : Nat} :
    connectedPeers outboundPeers = Finset.range n ↔ ∀ v, Mentioned outboundPeers v ↔ v < n := by
  simp only [Finset.ext_iff, mem_connectedPeers_iff, Finset.mem_range]

theorem eq_range_of_max {s : Finset Nat} {n : Nat} (hpos : 0 < n) (hcard : s.card = n) (h : s.Nonempty)
    (hmax : s.max' h = n - 1) : s = Finset.range n := by
  apply Finset.eq_of_subset_of_card_le
  · intro x hx
    have := Finset.le_max' s x hx
    rw [Finset.mem_range]
    omega
  · rw [Finset.card_range, hcard]

section
variable (params : Params) (va : ValidatorAssignments) (outboundPeers : OutboundPeers)

/-- A call reports an error, or all checks have passed. -/
theorem new_cases : (∃ msg, Network.new params va outboundPeers = .error (.err msg)) ∨
    Network.new params va outboundPeers = .ok ⟨params, va, outboundPeers⟩ ∧ Partition params va ∧
      connectedPeers outboundPeers = Finset.range params.totalNodes := by
  simp only [Network.new]
  by_cases htotal : ((OrderedMap.values va).map Finset.card).sum ≠ params.totalValidators
  · rw [if_pos htotal]
    exact Or.inl ⟨_, rfl⟩
  rw [if_neg htotal]
  by_cases hcard : (assignedVals va).card ≠ ((OrderedMap.values va).map Finset.card).sum
  · rw [if_pos hcard]
    exact Or.inl ⟨_, rfl⟩
  rw [if_neg hcard]
  simp only [ne_eq, not_not] at htotal hcard
  -- with as many ids as `total_validators` the `expect` does not fail
  have hne : (assignedVals va).Nonempty := by
    rw [← Finset.card_pos, hcard, htotal]
    exact params.validators_pos
  rw [dif_pos hne]
  by_cases hmax : (assignedVals va).max' hne ≠ params.totalValidators - 1
  · rw [if_pos hmax]
    exact Or.inl ⟨_, rfl⟩
  rw [if_neg hmax]
  by_cases hmin : (assignedVals va).min' hne ≠ 0
  · rw [if_pos hmin]
    exact Or.inl ⟨_, rfl⟩
  rw [if_neg hmin]
  by_cases hnodes : connectedPeers outboundPeers ≠ Finset.range params.totalNodes
  · rw [if_pos hnodes]
    exact Or.inl ⟨_, rfl⟩
  · rw [if_neg hnodes]
    simp only [ne_eq, not_not] at hmax hnodes
    exact Or.inr ⟨rfl, ⟨htotal, eq_range_of_max params.validators_pos (hcard.trans htotal) hne hmax⟩, hnodes⟩

end

end GossipPlans
