import GossipPlans.EdgeLoop
import GossipPlans.Saturation

/-!
# The generated topology is maximal

A pair is popped once. It is connected then or has an end that has reached its drawn number of
peers, and nodes never lose connections. So the nodes below their number form a clique, and a clique
of `k` nodes needs `k - 1` connections at each of them.
-/

namespace GossipPlans

open DegreeCap

/-- Not skipped by `current.len() >= *expected`. -/
def Topology.belowTarget (st : Topology) (v : Nat) : Bool :=
  match st.topology[v]? with
  | some (expected, current) => current.size < expected
  | none => false

def Topology.unsaturated (st : Topology) (n : Nat) : Finset Nat := (Finset.range n).filter fun v => st.belowTarget v

theorem buildTopology_none {gen : Prng} {params : Params} {st : Topology} (h : buildTopology gen params = .ok st)
    {v : Nat} (hv : params.totalNodes ≤ v) : st.topology[v]? = none := by
  obtain ⟨st₀, h₀, -, hnone⟩ := expectConnections_represents gen params
  simp only [buildTopology, h₀] at h
  exact (topology_connectLoop h).mpr (hnone v hv)

theorem isSome_link {E : List (Nat × Nat)} {a b : Nat} : (link E a b).isSome ↔ Linked E a b := by
  unfold link Linked
  split_ifs <;> simp_all

section
variable {gen : Prng} {params : Params} {st : Topology}

theorem belowTarget_iff (hr : Represents (target gen params) params.totalNodes st (dials gen params))
    (hnone : ∀ v, params.totalNodes ≤ v → st.topology[v]? = none) (v : Nat) :
    st.belowTarget v = true ↔ v < params.totalNodes ∧ deg (dials gen params) v < target gen params v := by
  unfold Topology.belowTarget
  by_cases hv : v < params.totalNodes
  · obtain ⟨conns, ht, hsize, -⟩ := hr.node v hv
    simp [ht, hsize, hv]
  · simp [hnone v (Nat.le_of_not_lt hv), hv]

theorem linked_of_belowTarget (hr : Represents (target gen params) params.totalNodes st (dials gen params))
    (hnone : ∀ v, params.totalNodes ≤ v → st.topology[v]? = none) {a b : Nat} (hab : a ≠ b)
    (ha : st.belowTarget a) (hb : st.belowTarget b) : Linked (dials gen params) a b := by
  obtain ⟨han, ha⟩ := (belowTarget_iff hr hnone a).mp ha
  obtain ⟨hbn, hb⟩ := (belowTarget_iff hr hnone b).mp hb
  rcases dials_maximal gen params han hbn hab with h | h | h
  · exact h
  · exact absurd ha (Nat.not_lt.mpr h)
  · exact absurd hb (Nat.not_lt.mpr h)

end

/-- **Maximality.** Two nodes below their drawn number of peers are connected, so at most
`max_peers_per_node_inclusive` nodes are below it. -/
theorem unsaturated_connected (gen : Prng) (params : Params) :
    ∃ st, buildTopology gen params = .ok st ∧
      (∀ v < params.totalNodes, st.topology[v]?.map Prod.fst = some (target gen params v)) ∧
      (∀ a b, a ≠ b → st.belowTarget a → st.belowTarget b →
        (st.connection a b).isSome ∧ (b ∈ st.outbound a ∨ a ∈ st.outbound b)) ∧
      (st.unsaturated params.totalNodes).card ≤ params.connectionsRange.last := by
  obtain ⟨st, hst, hr⟩ := buildTopology_represents gen params
  have hnone : ∀ v, params.totalNodes ≤ v → st.topology[v]? = none := fun v hv => buildTopology_none hst hv
  refine ⟨st, hst, fun v hv => ?_, fun a b hab ha hb => ?_, ?_⟩
  · obtain ⟨conns, ht, -⟩ := hr.node v hv
    rw [ht]
    rfl
  · have hlinked := linked_of_belowTarget hr hnone hab ha hb
    rw [connection_eq hr hnone fun e he => dials_lt gen params he, isSome_link, outbound_eq hr, outbound_eq hr,
      mem_dialed, mem_dialed]
    exact ⟨hlinked, hlinked⟩
  · have hbelow : ∀ v ∈ st.unsaturated params.totalNodes, st.belowTarget v :=
      fun v hv => (Finset.mem_filter.mp hv).2
    rcases (st.unsaturated params.totalNodes).eq_empty_or_nonempty with h | ⟨v, hv⟩
    · simp [h]
    · have hclique := card_clique_le (simple_dials gen params) (fun a ha b hb hab =>
        linked_of_belowTarget hr hnone hab (hbelow a ha) (hbelow b hb)) hv
      have hdeg := ((belowTarget_iff hr hnone v).mp (hbelow v hv)).2
      have hlast := (target_mem gen params v).2
      omega

end GossipPlans
