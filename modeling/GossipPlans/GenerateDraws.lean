import GossipPlans.GenerateSound

/-!
# Draws that connect all nodes, and parameters for which there are none

When the largest number of peers leaves a node alone whatever is drawn (`not_all_connected`), no
outcome of the generator yields a network. Otherwise offering a path through all nodes first does
(`all_connected_pathFirst`).
-/

namespace GossipPlans

open DegreeCap

/-! ## When no draw connects all nodes -/

theorem not_all_connected {gen : Prng} {params : Params}
    (h : params.connectionsRange.last = 0 ∨ params.totalNodes = 1 ∨
      params.connectionsRange.last = 1 ∧ params.totalNodes % 2 = 1) :
    ¬ ∀ v < params.totalNodes, 0 < deg (dials gen params) v := by
  intro hall
  have hle : ∀ v, deg (dials gen params) v ≤ params.connectionsRange.last :=
    fun v => (deg_dials_le gen params v).trans (target_mem gen params v).2
  rcases h with h | h | ⟨h, hodd⟩
  · have := hall 0 params.nodes_pos
    have := hle 0
    omega
  · obtain ⟨u, hu⟩ := deg_pos_iff.mp (hall 0 params.nodes_pos)
    have hlt := (linked_dials_lt gen params hu).2
    rw [h, Nat.lt_one_iff] at hlt
    exact (simple_dials gen params).not_linked_self 0 (hlt ▸ hu)
  · -- every node has exactly one edge, so the number of nodes is even
    have hsum : ∑ v ∈ Finset.range params.totalNodes, deg (dials gen params) v = params.totalNodes := by
      rw [Finset.sum_congr rfl (g := fun _ => 1) fun v hv => ?_]
      · simp
      · have := hall v (Finset.mem_range.mp hv)
        have := hle v
        omega
    rw [sum_deg fun e he => ⟨Finset.mem_range.mpr (dials_lt gen params he).1,
      Finset.mem_range.mpr (dials_lt gen params he).2, (simple_dials gen params).1 e he⟩] at hsum
    omega

/-! ## Draws that connect all nodes otherwise -/

def pathFirst (n : Nat) : List (Nat × Nat) :=
  path (n - 1) ++ (allConnections n).filter fun e => e.2 ≠ e.1 + 1

theorem mem_path {k : Nat} {e : Nat × Nat} : e ∈ path k ↔ e.2 = e.1 + 1 ∧ e.1 < k := by
  obtain ⟨a, c⟩ := e
  simp only [path, List.mem_map, List.mem_range, Prod.mk.injEq]
  constructor
  · intro h
    obtain ⟨i, hi, rfl, rfl⟩ := h
    exact ⟨rfl, hi⟩
  · intro h
    obtain ⟨rfl, hi⟩ := h
    exact ⟨a, hi, rfl, rfl⟩

theorem pathFirst_perm (n : Nat) : (pathFirst n).Perm (allConnections n) := by
  have hnodup : (path (n - 1)).Nodup := List.nodup_range.map fun a c h => (Prod.mk.inj h).1
  refine (List.perm_ext_iff_of_nodup ?_ (nodup_allConnections n)).mpr fun e => ?_
  · refine List.nodup_append.mpr ⟨hnodup, (nodup_allConnections n).filter _, fun a ha c hc hac => ?_⟩
    have := (List.mem_filter.mp hc).2
    simp only [decide_eq_true_eq] at this
    exact this (hac ▸ (mem_path.mp ha).1)
  · simp only [pathFirst, List.mem_append, List.mem_filter, decide_eq_true_eq, mem_path, mem_allConnections]
    omega

theorem deg_pathFirst_pos {c n : Nat} (hn : 2 ≤ n) (hc : 2 ≤ c ∨ c = 1 ∧ n % 2 = 0) (dir : Nat → Bool) :
    ∀ v < n, 0 < deg (greedy (fun _ => c) dir (pathFirst n) []) v := by
  intro v hv
  rw [pathFirst, greedy_append]
  refine Nat.lt_of_lt_of_le ?_ (deg_le_greedy _ _ _ _ v)
  obtain ⟨hcov, -, hend⟩ := path_covers c (by omega) dir (n - 1)
  rcases Nat.lt_or_ge v (n - 1) with h | h
  · exact hcov v h
  · have : v = n - 1 := by omega
    rw [this, hend]
    split <;> omega

theorem all_connected_pathFirst {params : Params} (hn : 2 ≤ params.totalNodes)
    (hlast : 2 ≤ params.connectionsRange.last ∨
      params.connectionsRange.last = 1 ∧ params.totalNodes % 2 = 0) :
    ∀ v < params.totalNodes, 0 < deg (dials (Prng.ofOrder (pathFirst params.totalNodes)) params) v := by
  have htarget : target (Prng.ofOrder (pathFirst params.totalNodes)) params = fun _ => params.connectionsRange.last :=
    funext fun _ => if_pos params.range_le
  have hoffer : offered (Prng.ofOrder (pathFirst params.totalNodes)) params = pathFirst params.totalNodes := by
    have hperm := (pathFirst_perm params.totalNodes).symm.trans (List.reverse_perm _).symm
    simp only [offered, Prng.ofOrder, if_pos hperm.symm, List.reverse_reverse]
  rw [dials, htarget, hoffer]
  exact deg_pathFirst_pos hn hlast _

end GossipPlans
