import GossipPlans.TopologySound
import GossipPlans.GenerateSound

/-!
# The connection loop after every iteration

What the loop has built when `k` pairs have been popped is what greedy selection keeps of these `k` pairs: a
prefix of the dials, so it has their properties, and both structures of the loop are read off from it.
-/

namespace GossipPlans

open DegreeCap

/-- `topology`, `outbound_peers` when `k` pairs have been popped. -/
def afterIterations (gen : Prng) (params : Params) (k : Nat) : Run Topology := do
  let st ← expectConnections gen params.connectionsRange (List.range params.totalNodes) ⟨∅, ∅, 0⟩
  connectLoop gen ((gen.shuffleConnections (allConnections params.totalNodes)).reverse.take k) st

namespace Topology

/-- `topology[a][b]` -/
def connection (st : Topology) (a b : Nat) : Option Bool := st.topology[a]?.bind fun e => e.2[b]?

/-- `outbound_peers[a]` -/
def outbound (st : Topology) (a : Nat) : List Nat := st.outboundPeers[a]?.getD []

end Topology

structure EdgeInvariant (gen : Prng) (params : Params) (st : Topology) : Prop where
  symmetric : ∀ a b, st.connection b a = (st.connection a b).map fun isOutbound => !isOutbound
  irreflexive : ∀ a, st.connection a a = none
  nodes : ∀ a, st.topology[a]? ≠ none → a < params.totalNodes
  ends : ∀ a b, st.connection a b ≠ none → a < params.totalNodes ∧ b < params.totalNodes
  dialers : ∀ a, st.outboundPeers[a]? ≠ none → a < params.totalNodes
  dialed_iff : ∀ a b, b ∈ st.outbound a ↔ st.connection a b = some true
  dialed_once : ∀ a b, b ∈ st.outbound a → (st.outbound a).count b = 1
  one_side : ∀ a b, b ∈ st.outbound a → a ∉ st.outbound b
  within_target : ∀ a < params.totalNodes, ∃ conns, st.topology[a]? = some (target gen params a, conns) ∧
    conns.size ≤ target gen params a ∧ conns.size ≤ params.connectionsRange.last
  handshake : 2 * ∑ a ∈ Finset.range params.totalNodes, (st.outbound a).length =
    ∑ a ∈ Finset.range params.totalNodes, st.connections a

/-! ## The nodes are those of the start -/

theorem topology_connectPair {gen : Prng} {st st' : Topology} {a b : Nat} (h : connectPair gen st a b = .ok st')
    (v : Nat) : st'.topology[v]? = none ↔ st.topology[v]? = none := by
  unfold connectPair at h
  split at h
  · cases h
  split at h
  · cases h; rfl
  split at h
  · cases h
  split at h
  · cases h; rfl
  · cases h
    simp only [getElem?_addConnection]
    split_ifs <;> simp_all

theorem topology_connectLoop {gen : Prng} {v : Nat} : ∀ {es : List (Nat × Nat)} {st st' : Topology},
    connectLoop gen es st = .ok st' → (st'.topology[v]? = none ↔ st.topology[v]? = none)
  | [], st, st', h => by cases h; rfl
  | (a, b) :: es, st, st', h => by
    obtain ⟨st₁, h₁, h⟩ := bind_ok_iff.mp h
    rw [topology_connectLoop h, topology_connectPair h₁]

theorem connectLoop_append (gen : Prng) : ∀ (es fs : List (Nat × Nat)) (st : Topology),
    connectLoop gen (es ++ fs) st = connectLoop gen es st >>= connectLoop gen fs
  | [], fs, st => rfl
  | (a, b) :: es, fs, st => by
    simp only [List.cons_append, connectLoop, connectLoop_append gen es fs, bind_assoc]

/-! ## Reading the structures off the dials -/

theorem link_swap {E : List (Nat × Nat)} (hE : Simple E) (a b : Nat) :
    link E b a = (link E a b).map fun isOutbound => !isOutbound := by
  by_cases hab : (a, b) ∈ E
  · simp [link, hab, hE.swap_not_mem hab]
  · by_cases hba : (b, a) ∈ E
    · simp [link, hab, hba]
    · simp [link, hab, hba]

theorem link_eq_some_true {E : List (Nat × Nat)} {a b : Nat} : link E a b = some true ↔ (a, b) ∈ E := by
  unfold link
  split_ifs <;> simp_all

theorem linked_of_link_ne_none {E : List (Nat × Nat)} {a b : Nat} (h : link E a b ≠ none) : Linked E a b := by
  by_contra hne
  exact h (link_eq_none hne)

theorem mem_dialed {E : List (Nat × Nat)} {a b : Nat} : b ∈ dialed E a ↔ (a, b) ∈ E := by
  simp [dialed]

theorem nodup_dialed {E : List (Nat × Nat)} (hE : E.Nodup) (a : Nat) : (dialed E a).Nodup := by
  apply (hE.filter _).map_on
  intro d hd e he hsnd
  have hd := (List.mem_filter.mp hd).2
  have he := (List.mem_filter.mp he).2
  simp only [decide_eq_true_eq] at hd he
  exact Prod.ext (hd.trans he.symm) hsnd

theorem sum_length_dialed {S : Finset Nat} {E : List (Nat × Nat)} (hE : ∀ e ∈ E, e.1 ∈ S) :
    ∑ a ∈ S, (dialed E a).length = E.length := by
  have hcount : ∀ a, (dialed E a).length = Multiset.count a (E.map Prod.fst : Multiset Nat) := by
    intro a
    rw [dialed, List.length_map, ← List.countP_eq_length_filter, Multiset.coe_count, List.count, List.countP_map]
    rfl
  rw [Finset.sum_congr rfl fun a _ => hcount a, Multiset.sum_count_eq_card]
  · simp
  · intro a ha
    obtain ⟨e, he, rfl⟩ := List.mem_map.mp (Multiset.mem_coe.mp ha)
    exact hE e he

section
variable {gen : Prng} {params : Params} {st : Topology} {E : List (Nat × Nat)}

theorem connection_eq (h : Represents (target gen params) params.totalNodes st E)
    (hnone : ∀ v, params.totalNodes ≤ v → st.topology[v]? = none)
    (hlt : ∀ e ∈ E, e.1 < params.totalNodes ∧ e.2 < params.totalNodes) (a b : Nat) :
    st.connection a b = link E a b := by
  rcases Nat.lt_or_ge a params.totalNodes with ha | ha
  · obtain ⟨conns, ht, -, hl⟩ := h.node a ha
    rw [Topology.connection, ht]
    exact hl b
  · have hlink : ¬ Linked E a b := by
      intro hlinked
      rcases hlinked with hm | hm
      · exact absurd (hlt _ hm).1 (Nat.not_lt.mpr ha)
      · exact absurd (hlt _ hm).2 (Nat.not_lt.mpr ha)
    rw [Topology.connection, hnone a ha, link_eq_none hlink]
    rfl

theorem outbound_eq (h : Represents (target gen params) params.totalNodes st E) (a : Nat) :
    st.outbound a = dialed E a := by
  rw [Topology.outbound, h.outbound]
  split_ifs with hnil
  · exact hnil.symm
  · rfl

theorem sum_outbound (h : Represents (target gen params) params.totalNodes st E)
    (hlt : ∀ e ∈ E, e.1 < params.totalNodes ∧ e.2 < params.totalNodes) :
    ∑ a ∈ Finset.range params.totalNodes, (st.outbound a).length = E.length := by
  rw [Finset.sum_congr rfl fun a _ => by rw [outbound_eq h]]
  apply sum_length_dialed
  exact fun e he => Finset.mem_range.mpr (hlt e he).1

theorem sum_connections (h : Represents (target gen params) params.totalNodes st E)
    (hlt : ∀ e ∈ E, e.1 < params.totalNodes ∧ e.2 < params.totalNodes) (hE : Simple E) :
    ∑ a ∈ Finset.range params.totalNodes, st.connections a = 2 * E.length := by
  rw [Finset.sum_congr rfl fun a ha => h.connections (Finset.mem_range.mp ha)]
  apply sum_deg
  exact fun e he => ⟨Finset.mem_range.mpr (hlt e he).1, Finset.mem_range.mpr (hlt e he).2, hE.1 e he⟩

/-- What holds of a topology that represents some of the dials, in the order in which they are made. -/
theorem edgeInvariant_of_prefix (h : Represents (target gen params) params.totalNodes st E)
    (hnone : ∀ v, params.totalNodes ≤ v → st.topology[v]? = none) (hE : E <+: dials gen params) :
    EdgeInvariant gen params st := by
  have hsimple := (simple_dials gen params).sublist hE.sublist
  have hlt : ∀ e ∈ E, e.1 < params.totalNodes ∧ e.2 < params.totalNodes := fun e he => dials_lt gen params (hE.subset he)
  have hconnection := connection_eq h hnone hlt
  have hends : ∀ a b, Linked E a b → a < params.totalNodes ∧ b < params.totalNodes := by
    intro a b hlinked
    rcases hlinked with hm | hm
    · exact hlt _ hm
    · exact (hlt _ hm).symm
  have hdegree : ∀ a, deg E a ≤ target gen params a := fun a =>
    (hE.sublist.countP_le).trans (deg_dials_le gen params a)
  constructor
  case symmetric =>
    intro a b
    rw [hconnection, hconnection, link_swap hsimple]
  case irreflexive =>
    intro a
    rw [hconnection]
    apply link_eq_none
    intro hlinked
    rcases hlinked with hm | hm <;> exact hsimple.1 _ hm rfl
  case nodes =>
    intro a ha
    by_contra hge
    exact ha (hnone a (Nat.le_of_not_lt hge))
  case ends =>
    intro a b hab
    rw [hconnection] at hab
    exact hends a b (linked_of_link_ne_none hab)
  case dialers =>
    intro a ha
    rw [h.outbound] at ha
    obtain ⟨b, hb⟩ := List.exists_mem_of_ne_nil _ fun hnil => ha (if_pos hnil)
    exact (hlt _ (mem_dialed.mp hb)).1
  case dialed_iff =>
    intro a b
    rw [outbound_eq h, hconnection, mem_dialed, link_eq_some_true]
  case dialed_once =>
    intro a b hb
    rw [outbound_eq h] at hb ⊢
    exact List.count_eq_one_of_mem (nodup_dialed hsimple.nodup a) hb
  case one_side =>
    intro a b hb ha
    rw [outbound_eq h, mem_dialed] at ha hb
    exact hsimple.swap_not_mem hb ha
  case within_target =>
    intro a ha
    obtain ⟨conns, ht, hsize, -⟩ := h.node a ha
    refine ⟨conns, ht, ?_, ?_⟩
    · rw [hsize]; exact hdegree a
    · rw [hsize]; exact (hdegree a).trans (target_mem gen params a).2
  case handshake =>
    rw [sum_outbound h hlt, sum_connections h hlt hsimple]

end

/-- **The invariant of the connection loop.** It holds after any number of iterations, none of which fails, and
the rest of the pairs leads from there to the topology that is built. -/
theorem edge_loop_invariant (gen : Prng) (params : Params) (k : Nat) :
    ∃ st, afterIterations gen params k = .ok st ∧ EdgeInvariant gen params st ∧
      connectLoop gen ((offered gen params).drop k) st = buildTopology gen params := by
  obtain ⟨st₀, h₀, hr₀, hnone₀⟩ := expectConnections_represents gen params
  have hsub : ∀ e ∈ (offered gen params).take k, e ∈ offered gen params := fun e he => List.mem_of_mem_take he
  have hsimple := (simple_offered gen params).sublist (List.take_sublist k _)
  obtain ⟨st, h, hr⟩ := connectLoop_represents gen ((offered gen params).take k) hr₀ hsimple
    fun e he => offered_new (hsub e he)
  have hprefix : greedy (target gen params) gen.genRatio ((offered gen params).take k) [] <+: dials gen params := by
    rw [dials, ← List.take_append_drop k (offered gen params), greedy_append, List.take_append_drop]
    exact prefix_greedy _ _ _ _
  refine ⟨st, ?_, edgeInvariant_of_prefix hr (fun v hv => (topology_connectLoop h).mpr (hnone₀ v hv)) hprefix, ?_⟩
  · simp only [afterIterations, h₀]; exact h
  · have hloop := connectLoop_append gen ((offered gen params).take k) ((offered gen params).drop k) st₀
    rw [List.take_append_drop, h] at hloop
    simp only [buildTopology, h₀]
    exact hloop.symm

end GossipPlans
