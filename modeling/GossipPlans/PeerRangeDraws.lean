import GossipPlans.PeerRange

/-!
# Draws that leave a node below the range

Every saturated graph on the nodes is the topology of some draws (`exists_low_of_graph`). For a
smallest number of two the graph is a ring with two nodes beside it or one node on it. From three on,
a regular topology is switched to one in which a single node misses two peers.
-/

namespace GossipPlans

open DegreeCap

/-- The outcome that offers the pairs in a given order and draws given numbers of peers. -/
def Prng.ofDraws (order : List (Nat × Nat)) (targets : Nat → Nat) : Prng :=
  { Prng.ofOrder order with
    genRange := fun p lo hi => max lo (min hi (targets p))
    genRange_mem := fun _ _ _ h => ⟨Nat.le_max_left _ _, Nat.max_le.mpr ⟨h, Nat.min_le_left _ _⟩⟩ }

section
variable {params : Params}

theorem target_ofDraws {order : List (Nat × Nat)} {targets : Nat → Nat}
    (ht : ∀ v, params.connectionsRange.start ≤ targets v ∧ targets v ≤ params.connectionsRange.last) :
    target (Prng.ofDraws order targets) params = targets := by
  funext v
  have := ht v
  show max _ (min _ _) = _
  omega

theorem dials_ofDraws {order : List (Nat × Nat)} {targets : Nat → Nat}
    (hperm : order.Perm (allConnections params.totalNodes))
    (ht : ∀ v, params.connectionsRange.start ≤ targets v ∧ targets v ≤ params.connectionsRange.last) :
    dials (Prng.ofDraws order targets) params = greedy targets (fun _ => true) order [] := by
  have hoffer : offered (Prng.ofDraws order targets) params = order := by
    have hrev := (List.reverse_perm order).trans hperm
    simp only [offered, Prng.ofDraws, Prng.ofOrder, if_pos hrev, List.reverse_reverse]
  rw [dials, target_ofDraws ht, hoffer]
  rfl

theorem linked_allConnections {n a b : Nat} (ha : a < n) (hb : b < n) (hab : a ≠ b) :
    Linked (allConnections n) a b := by
  rcases Nat.lt_or_gt_of_ne hab with h | h
  · exact Or.inl (mem_allConnections.mpr ⟨h, hb⟩)
  · exact Or.inr (mem_allConnections.mpr ⟨h, ha⟩)

theorem simple_allConnections (n : Nat) : Simple (allConnections n) :=
  simple_of_lt (nodup_allConnections n) fun _ he => (mem_allConnections.mp he).1

/-- The topology misses the range at some node, and yet no node is isolated. -/
def MissesRange (gen : Prng) (params : Params) : Prop :=
  (∀ v < params.totalNodes, 0 < deg (dials gen params) v) ∧
    ∃ v < params.totalNodes, deg (dials gen params) v < params.connectionsRange.start

theorem exists_low_of_graph (G : SimpleGraph Nat) (targets : Nat → Nat)
    (ht : ∀ v, params.connectionsRange.start ≤ targets v ∧ targets v ≤ params.connectionsRange.last)
    (hcap : ∀ v < params.totalNodes, valency (Finset.range params.totalNodes) G v ≤ targets v)
    (hsat : ∀ a < params.totalNodes, ∀ b < params.totalNodes, a ≠ b → ¬ G.Adj a b →
      targets a ≤ valency (Finset.range params.totalNodes) G a ∨ targets b ≤ valency (Finset.range params.totalNodes) G b)
    (hpos : ∀ v < params.totalNodes, 0 < valency (Finset.range params.totalNodes) G v)
    (hlow : ∃ v < params.totalNodes, valency (Finset.range params.totalNodes) G v < params.connectionsRange.start) :
    ∃ gen, MissesRange gen params := by
  have hdeg : ∀ v < params.totalNodes,
      deg (dials (Prng.ofDraws (firstOf G (allConnections params.totalNodes)) targets) params) v =
        valency (Finset.range params.totalNodes) G v := by
    intro v hv
    rw [dials_ofDraws (firstOf_perm G _) ht]
    apply deg_firstOf (simple_allConnections params.totalNodes)
    · intro e he
      obtain ⟨h₁, h₂⟩ := mem_allConnections.mp he
      exact ⟨Finset.mem_range.mpr (h₁.trans h₂), Finset.mem_range.mpr h₂⟩
    · exact fun a ha b hb => linked_allConnections (Finset.mem_range.mp ha) (Finset.mem_range.mp hb)
    · exact fun v hv => hcap v (Finset.mem_range.mp hv)
    · exact fun a ha b hb => hsat a (Finset.mem_range.mp ha) b (Finset.mem_range.mp hb)
    · exact Finset.mem_range.mpr hv
  obtain ⟨v, hv, hlow⟩ := hlow
  refine ⟨Prng.ofDraws (firstOf G (allConnections params.totalNodes)) targets, fun u hu => ?_, v, hv, ?_⟩
  · rw [hdeg u hu]
    exact hpos u hu
  · rwa [hdeg v hv]

/-! ## At least three peers: switching -/

theorem valency_fromRel {E : List (Nat × Nat)} {n v : Nat} (hE : Simple E) (hn : ∀ u, Linked E v u → u < n) :
    valency (Finset.range n) (SimpleGraph.fromRel fun a b => (a, b) ∈ E) v = deg E v := by
  classical
  rw [deg_eq_card hE fun u hu => Finset.mem_range.mpr (hn u hu), valency]
  congr 1
  ext u
  simp only [Finset.mem_filter, SimpleGraph.fromRel_adj]
  apply and_congr_right
  intro _
  constructor
  · exact fun h => h.2
  · intro h
    refine ⟨fun heq => ?_, h⟩
    subst heq
    exact hE.not_linked_self v h

/-- All nodes but one have all peers, so no pair of nodes has room at both ends. -/
theorem exists_low_of_regular {gen : Prng} (h₃ : 3 ≤ params.connectionsRange.start)
    (hn : params.connectionsRange.start + 2 ≤ params.totalNodes)
    (hreg : ∀ v < params.totalNodes, deg (dials gen params) v = params.connectionsRange.start) :
    ∃ gen, MissesRange gen params := by
  have hval : ∀ v ∈ Finset.range params.totalNodes, valency (Finset.range params.totalNodes)
      (SimpleGraph.fromRel fun a b => (a, b) ∈ dials gen params) v = params.connectionsRange.start := by
    intro v hv
    rw [← hreg v (Finset.mem_range.mp hv)]
    apply valency_fromRel (simple_dials gen params)
    intro u hu
    exact (linked_dials_lt gen params hu).2
  obtain ⟨G, v, hv, hdrop, hkeep⟩ := exists_switch (by omega) hval (by rwa [Finset.card_range])
  have hfull : ∀ u < params.totalNodes, u ≠ v →
      valency (Finset.range params.totalNodes) G u = params.connectionsRange.start :=
    fun u hu huv => hkeep u (Finset.mem_range.mpr hu) huv
  apply exists_low_of_graph G fun _ => params.connectionsRange.start
  · exact fun _ => ⟨Nat.le_refl _, params.range_le⟩
  · intro u hu
    by_cases huv : u = v
    · subst huv
      omega
    · exact Nat.le_of_eq (hfull u hu huv)
  · intro a ha b hb hab _
    by_cases hav : a = v
    · exact Or.inr (Nat.le_of_eq (hfull b hb fun h => hab (hav.trans h.symm)).symm)
    · exact Or.inl (Nat.le_of_eq (hfull a ha hav).symm)
  · intro u hu
    by_cases huv : u = v
    · subst huv
      omega
    · rw [hfull u hu huv]
      omega
  · exact ⟨v, Finset.mem_range.mp hv, by omega⟩

theorem exists_low_of_three (h₃ : 3 ≤ params.connectionsRange.start)
    (hn : params.connectionsRange.start + 2 ≤ params.totalNodes) : ∃ gen, MissesRange gen params := by
  have ht : ∀ v : Nat, params.connectionsRange.start ≤ (fun _ => params.connectionsRange.start) v ∧
      (fun _ => params.connectionsRange.start) v ≤ params.connectionsRange.last := fun _ => ⟨Nat.le_refl _, params.range_le⟩
  have hpos : ∀ v < params.totalNodes,
      0 < deg (dials (Prng.ofDraws (pathFirst params.totalNodes) fun _ => params.connectionsRange.start) params) v := by
    rw [dials_ofDraws (pathFirst_perm _) ht]
    exact deg_pathFirst_pos (by omega) (Or.inl (by omega)) _
  by_cases hreg : ∀ v < params.totalNodes,
      deg (dials (Prng.ofDraws (pathFirst params.totalNodes) fun _ => params.connectionsRange.start) params) v =
        params.connectionsRange.start
  · exact exists_low_of_regular h₃ hn hreg
  · simp only [not_forall] at hreg
    obtain ⟨v, hv, hne⟩ := hreg
    have hle := deg_dials_le (Prng.ofDraws (pathFirst params.totalNodes) fun _ => params.connectionsRange.start) params v
    rw [target_ofDraws ht] at hle
    exact ⟨_, hpos, v, hv, Nat.lt_of_le_of_ne hle hne⟩

/-! ## Two peers: a ring -/

/-- A ring of the nodes below `m`, and an edge between the last two nodes. -/
def ringAndEdge (m n : Nat) : SimpleGraph Nat :=
  SimpleGraph.fromRel fun a b => (b = a + 1 ∧ (b < m ∨ b + 1 = n)) ∨ (a = 0 ∧ b + 1 = m)

theorem ringAndEdge_adj {m n a b : Nat} : (ringAndEdge m n).Adj a b ↔ a ≠ b ∧
    (((b = a + 1 ∧ (b < m ∨ b + 1 = n)) ∨ (a = 0 ∧ b + 1 = m)) ∨
      (a = b + 1 ∧ (a < m ∨ a + 1 = n)) ∨ (b = 0 ∧ a + 1 = m)) := by
  rw [ringAndEdge, SimpleGraph.fromRel_adj]

theorem valency_of_set {n v : Nat} {G : SimpleGraph Nat} (s : Finset Nat) (h : ∀ u, u ∈ s ↔ u < n ∧ G.Adj v u) :
    valency (Finset.range n) G v = s.card := by
  classical
  rw [valency]
  congr 1
  ext u
  rw [Finset.mem_filter, Finset.mem_range, h]

theorem valency_ring {m n v : Nat} (hm : 3 ≤ m) (hmn : m < n) (hv : v < m) (hlast : v + 1 = m → m + 1 < n) :
    valency (Finset.range n) (ringAndEdge m n) v = 2 := by
  by_cases h₀ : v = 0
  · rw [valency_of_set {1, m - 1}, Finset.card_pair (by omega)]
    intro u
    simp only [Finset.mem_insert, Finset.mem_singleton, ringAndEdge_adj]
    omega
  by_cases h₁ : v + 1 = m
  · rw [valency_of_set {v - 1, 0}, Finset.card_pair (by omega)]
    intro u
    simp only [Finset.mem_insert, Finset.mem_singleton, ringAndEdge_adj]
    omega
  · rw [valency_of_set {v - 1, v + 1}, Finset.card_pair (by omega)]
    intro u
    simp only [Finset.mem_insert, Finset.mem_singleton, ringAndEdge_adj]
    omega

theorem valency_last {m n : Nat} (hm : 3 ≤ m) (hmn : m < n) :
    valency (Finset.range n) (ringAndEdge m n) (n - 1) = 1 := by
  rw [valency_of_set {n - 2}, Finset.card_singleton]
  intro u
  simp only [Finset.mem_singleton, ringAndEdge_adj]
  omega

theorem exists_low_beside_ring (h₂ : params.connectionsRange.start = 2) (hn : 5 ≤ params.totalNodes) :
    ∃ gen, MissesRange gen params := by
  have hring : ∀ v, v + 2 < params.totalNodes →
      valency (Finset.range params.totalNodes) (ringAndEdge (params.totalNodes - 2) params.totalNodes) v = 2 :=
    fun v hv => valency_ring (by omega) (by omega) (by omega) (by omega)
  have hlast := valency_last (m := params.totalNodes - 2) (n := params.totalNodes) (by omega) (by omega)
  have hnext : valency (Finset.range params.totalNodes) (ringAndEdge (params.totalNodes - 2) params.totalNodes)
      (params.totalNodes - 2) = 1 := by
    rw [valency_of_set {params.totalNodes - 1}, Finset.card_singleton]
    intro u
    simp only [Finset.mem_singleton, ringAndEdge_adj]
    omega
  have hcases : ∀ v < params.totalNodes,
      v + 2 < params.totalNodes ∨ v = params.totalNodes - 2 ∨ v = params.totalNodes - 1 := by omega
  apply exists_low_of_graph (ringAndEdge (params.totalNodes - 2) params.totalNodes) fun _ => 2
  · exact fun _ => ⟨Nat.le_of_eq h₂, h₂ ▸ params.range_le⟩
  · intro v hv
    rcases hcases v hv with h | rfl | rfl
    · exact Nat.le_of_eq (hring v h)
    · omega
    · omega
  · intro a ha b hb hab hno
    by_cases har : a + 2 < params.totalNodes
    · exact Or.inl (Nat.le_of_eq (hring a har).symm)
    by_cases hbr : b + 2 < params.totalNodes
    · exact Or.inr (Nat.le_of_eq (hring b hbr).symm)
    · rw [ringAndEdge_adj] at hno
      omega
  · intro v hv
    rcases hcases v hv with h | rfl | rfl
    · rw [hring v h]
      omega
    · omega
    · omega
  · exact ⟨params.totalNodes - 1, by omega, by omega⟩

theorem exists_low_on_ring (h₂ : params.connectionsRange.start = 2) (h₃ : 3 ≤ params.connectionsRange.last)
    (hn : 4 ≤ params.totalNodes) : ∃ gen, MissesRange gen params := by
  have hring : ∀ v, v + 2 < params.totalNodes →
      valency (Finset.range params.totalNodes) (ringAndEdge (params.totalNodes - 1) params.totalNodes) v = 2 :=
    fun v hv => valency_ring (by omega) (by omega) (by omega) (by omega)
  have hlast := valency_last (m := params.totalNodes - 1) (n := params.totalNodes) (by omega) (by omega)
  have hthree : valency (Finset.range params.totalNodes) (ringAndEdge (params.totalNodes - 1) params.totalNodes)
      (params.totalNodes - 2) = 3 := by
    rw [valency_of_set {0, params.totalNodes - 3, params.totalNodes - 1}, Finset.card_eq_three.mpr]
    · exact ⟨0, params.totalNodes - 3, params.totalNodes - 1, by omega, by omega, by omega, rfl⟩
    · intro u
      simp only [Finset.mem_insert, Finset.mem_singleton, ringAndEdge_adj]
      omega
  have hcases : ∀ v < params.totalNodes,
      v + 2 < params.totalNodes ∨ v = params.totalNodes - 2 ∨ v = params.totalNodes - 1 := by omega
  apply exists_low_of_graph (ringAndEdge (params.totalNodes - 1) params.totalNodes)
    fun v => if v = params.totalNodes - 2 then 3 else 2
  · intro v
    split <;> omega
  · intro v hv
    rcases hcases v hv with h | rfl | rfl
    · rw [hring v h]
      split <;> omega
    · rw [hthree, if_pos rfl]
    · rw [hlast]
      split <;> omega
  · intro a ha b hb hab _
    have hfull : ∀ v, v + 1 < params.totalNodes → (if v = params.totalNodes - 2 then 3 else 2) ≤
        valency (Finset.range params.totalNodes) (ringAndEdge (params.totalNodes - 1) params.totalNodes) v := by
      intro v hv
      by_cases h : v = params.totalNodes - 2
      · rw [if_pos h, h, hthree]
      · rw [if_neg h, hring v (by omega)]
    by_cases ha' : a + 1 < params.totalNodes
    · exact Or.inl (hfull a ha')
    · exact Or.inr (hfull b (by omega))
  · intro v hv
    rcases hcases v hv with h | rfl | rfl
    · rw [hring v h]
      omega
    · omega
    · omega
  · exact ⟨params.totalNodes - 1, by omega, by omega⟩

end

/-- **When the range is kept.** With an attainable range, the networks that `generate` returns all have
between `min_peers_per_node` and `max_peers_per_node_inclusive` connections at each node exactly when there is no room
for the vectors, so that none is returned, for a smallest number of at most one and for the two kinds of forced graph. -/
theorem keepsPeerRange_iff (b : Build) (params : Params) (hv : 1 ≤ params.totalNodesWithVals)
    (hmax : params.connectionsRange.last < params.totalNodes) : KeepsPeerRange b params ↔
      ¬ params.Fits ∨ params.connectionsRange.start ≤ 1 ∨ params.connectionsRange.start = params.connectionsRange.last ∧
        (params.totalNodes = params.connectionsRange.last + 1 ∨ params.connectionsRange.last = 2 ∧ params.totalNodes = 4) := by
  rw [keepsPeerRange_iff_deg hv]
  apply or_congr_right
  have hle := params.range_le
  constructor
  · intro h
    by_contra hne
    have hmiss : ∃ gen, MissesRange gen params := by
      by_cases h₂ : params.connectionsRange.start = 2
      · by_cases h₃ : 3 ≤ params.connectionsRange.last
        · exact exists_low_on_ring h₂ h₃ (by omega)
        · exact exists_low_beside_ring h₂ (by omega)
      · exact exists_low_of_three (by omega) (by omega)
    obtain ⟨gen, hall, v, hvn, hlow⟩ := hmiss
    exact absurd (h gen hall v hvn) (Nat.not_le.mpr hlow)
  · intro h gen hall v hvn
    rcases h with h | ⟨heq, h | ⟨h₂, h⟩⟩
    · exact h.trans (hall v hvn)
    · exact complete_keeps heq h hvn
    · exact four_keeps heq h₂ h hall hvn

theorem keepsPeerRange_four :
    KeepsPeerRange .release ⟨1, 2, 1, 4, ⟨2, 2⟩, by decide, by decide, by decide, by decide⟩ :=
  (keepsPeerRange_iff .release ⟨1, 2, 1, 4, ⟨2, 2⟩, by decide, by decide, by decide, by decide⟩ (by decide)
    (by decide)).mpr (by decide)

/-- All pairs of five nodes, a triangle and the pair of the other two first. -/
def triangleFirst : List (Nat × Nat) :=
  [(0, 1), (1, 2), (0, 2), (3, 4), (0, 3), (0, 4), (1, 3), (1, 4), (2, 3), (2, 4)]

/-- The parameters of the README, two to three peers: nodes 3 and 4 end with one. -/
theorem readme_misses_range : ∃ params net, Params.new .release 40 200 2 3 2 3 = .ok params ∧
    Network.generate .release (Prng.ofDraws triangleFirst fun _ => 2) params = .ok net ∧
    net.connections 3 = 1 ∧ ¬ KeepsPeerRange .release params := by
  refine ⟨⟨40, 200, 2, 5, ⟨2, 3⟩, by decide, by decide, by decide, by decide⟩, ?_⟩
  obtain ⟨hconn, hnet⟩ := generate_connections .release (Prng.ofDraws triangleFirst fun _ => 2)
    ⟨40, 200, 2, 5, ⟨2, 3⟩, by decide, by decide, by decide, by decide⟩ (by decide)
  obtain ⟨net, hnet⟩ := hnet (by decide) (by decide)
  have hone : net.connections 3 = 1 := ((hconn net hnet).2 3).trans (by decide)
  refine ⟨net, by decide, hnet, hone, fun h => ?_⟩
  have hlow := (h _ net hnet 3 (by decide)).1
  rw [hone] at hlow
  exact absurd hlow (by decide)

end GossipPlans
