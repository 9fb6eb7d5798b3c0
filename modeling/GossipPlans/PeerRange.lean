import GossipPlans.GenerateDraws
import GossipPlans.EdgeLoop
import GossipPlans.Saturation

/-!
# When every accepted network keeps the range of peers

`generate` returns a network when no node is isolated, and warns when a node has fewer peers than
the range allows. For a smallest number of at least two there is an order of the pairs that leaves
such a node, unless the graph is forced: `hi + 1` nodes with `hi` peers each, and four nodes with two.
-/

namespace GossipPlans

open DegreeCap

def Network.outbound (net : Network) (a : Nat) : List Nat := net.outboundPeers[a]?.getD []

/-- The connections of a node in a generated network, outbound and inbound. -/
def Network.connections (net : Network) (v : Nat) : Nat :=
  (net.outbound v).length + ∑ a ∈ Finset.range net.params.totalNodes, (net.outbound a).count v

/-- Every network that `generate` returns, whatever is drawn, has the number of connections asked for. -/
def KeepsPeerRange (b : Build) (params : Params) : Prop :=
  ∀ gen net, Network.generate b gen params = .ok net → ∀ v < params.totalNodes,
    params.connectionsRange.start ≤ net.connections v ∧ net.connections v ≤ params.connectionsRange.last

/-! ## Connections are degrees -/

theorem deg_eq_outbound_add_inbound {S : Finset Nat} {v : Nat} : ∀ {E : List (Nat × Nat)},
    (∀ e ∈ E, e.1 ∈ S ∧ e.1 ≠ e.2) → deg E v = (dialed E v).length + ∑ a ∈ S, (dialed E a).count v
  | [], _ => by simp [dialed]
  | e :: E, h => by
    have hcons : ∀ a, dialed (e :: E) a = if e.1 = a then e.2 :: dialed E a else dialed E a := by
      intro a
      by_cases ha : e.1 = a <;> simp [dialed, ha]
    have hcount : ∀ a, (dialed (e :: E) a).count v =
        (dialed E a).count v + if e.1 = a then (if e.2 = v then 1 else 0) else 0 := by
      intro a
      rw [hcons]
      by_cases ha : e.1 = a
      · by_cases hb : e.2 = v <;> simp [ha, hb]
      · simp [ha]
    obtain ⟨hS, hne⟩ := h e (List.mem_cons_self ..)
    rw [deg_cons, deg_eq_outbound_add_inbound fun d hd => h d (List.mem_cons_of_mem _ hd), hcons,
      Finset.sum_congr rfl fun a _ => hcount a, Finset.sum_add_distrib, Finset.sum_ite_eq, if_pos hS]
    by_cases h₁ : e.1 = v
    · have h₂ : ¬ e.2 = v := fun h₂ => hne (h₁.trans h₂.symm)
      simp [h₁, h₂]
      omega
    · by_cases h₂ : e.2 = v <;> simp [h₁, h₂]
      omega

section
variable {b : Build} {gen : Prng} {params : Params}

theorem connections_of_represents {st : Topology} (va : ValidatorAssignments)
    (hr : Represents (target gen params) params.totalNodes st (dials gen params)) (v : Nat) :
    (Network.mk params va st.outboundPeers).connections v = deg (dials gen params) v := by
  have hout : ∀ a, (Network.mk params va st.outboundPeers).outbound a = dialed (dials gen params) a := fun a =>
    outbound_eq hr a
  simp only [Network.connections, hout]
  rw [deg_eq_outbound_add_inbound]
  exact fun e he => ⟨Finset.mem_range.mpr (dials_lt gen params he).1, (simple_dials gen params).1 e he⟩

theorem generate_connections (b : Build) (gen : Prng) (params : Params) (hv : 1 ≤ params.totalNodesWithVals) :
    (∀ net, Network.generate b gen params = .ok net → (∀ v < params.totalNodes, 0 < deg (dials gen params) v) ∧
      ∀ v, net.connections v = deg (dials gen params) v) ∧
    (params.Fits → (∀ v < params.totalNodes, 0 < deg (dials gen params) v) →
      ∃ net, Network.generate b gen params = .ok net) := by
  obtain ⟨cuts, hc⟩ := cutsOf_ok b gen (Or.inl hv)
  constructor
  · intro net hnet
    obtain ⟨va, st, -, -, -, hr, hg⟩ := generate_of_cuts hc (fits_of_generate hnet)
    rw [hg] at hnet
    split at hnet
    · rename_i hall
      cases hnet
      exact ⟨hall, connections_of_represents va hr⟩
    · cases hnet
  · intro hfits hall
    obtain ⟨va, st, -, -, -, -, hg⟩ := generate_of_cuts hc hfits
    exact ⟨_, hg.trans (if_pos hall)⟩

theorem keepsPeerRange_iff_deg (hv : 1 ≤ params.totalNodesWithVals) : KeepsPeerRange b params ↔
    ¬ params.Fits ∨ ∀ gen, (∀ v < params.totalNodes, 0 < deg (dials gen params) v) →
      ∀ v < params.totalNodes, params.connectionsRange.start ≤ deg (dials gen params) v := by
  constructor
  · intro h
    refine or_iff_not_imp_left.mpr fun hfits gen hall v hvn => ?_
    obtain ⟨hconn, hnet⟩ := generate_connections b gen params hv
    obtain ⟨net, hnet⟩ := hnet (not_not.mp hfits) hall
    rw [← (hconn net hnet).2 v]
    exact (h gen net hnet v hvn).1
  · intro h gen net hnet v hvn
    have h := h.resolve_left (not_not_intro (fits_of_generate hnet))
    obtain ⟨hall, hconn⟩ := (generate_connections b gen params hv).1 net hnet
    rw [hconn]
    exact ⟨h gen hall v hvn, (deg_dials_le gen params v).trans (target_mem gen params v).2⟩

/-! ## Forced graphs -/

theorem deg_dials_eq_card (v : Nat) :
    deg (dials gen params) v = ((Finset.range params.totalNodes).filter (Linked (dials gen params) v)).card := by
  apply deg_eq_card (simple_dials gen params)
  intro u hu
  exact Finset.mem_range.mpr (linked_dials_lt gen params hu).2

theorem linked_subset {u v : Nat} (huv : ¬ Linked (dials gen params) u v) :
    (Finset.range params.totalNodes).filter (Linked (dials gen params) u) ⊆
      ((Finset.range params.totalNodes).erase u).erase v := by
  intro w hw
  obtain ⟨hwn, hlinked⟩ := Finset.mem_filter.mp hw
  refine Finset.mem_erase.mpr ⟨fun h => huv (h ▸ hlinked), Finset.mem_erase.mpr ⟨fun h => ?_, hwn⟩⟩
  exact (simple_dials gen params).not_linked_self u (h ▸ hlinked)

theorem card_others {n u v : Nat} (hu : u < n) (hv : v < n) (huv : u ≠ v) :
    (((Finset.range n).erase u).erase v).card + 2 = n := by
  rw [Finset.card_erase_of_mem (Finset.mem_erase.mpr ⟨huv.symm, Finset.mem_range.mpr hv⟩),
    Finset.card_erase_of_mem (Finset.mem_range.mpr hu), Finset.card_range]
  omega

theorem target_eq (h : params.connectionsRange.start = params.connectionsRange.last) (v : Nat) :
    target gen params v = params.connectionsRange.start := by
  have := target_mem gen params v
  omega

/-- A node without a connection to one that is below the range has all its peers. -/
theorem full_of_stranger (h : params.connectionsRange.start = params.connectionsRange.last) {u v : Nat}
    (hu : u < params.totalNodes) (hv : v < params.totalNodes) (huv : u ≠ v)
    (hlow : deg (dials gen params) v < params.connectionsRange.start) (hno : ¬ Linked (dials gen params) u v) :
    params.connectionsRange.start ≤ deg (dials gen params) u := by
  rcases dials_maximal gen params hu hv huv with hlinked | hfull | hfull
  · exact absurd hlinked hno
  · rwa [target_eq h] at hfull
  · rw [target_eq h] at hfull
    omega

theorem complete_keeps (h : params.connectionsRange.start = params.connectionsRange.last)
    (hn : params.totalNodes = params.connectionsRange.last + 1) {v : Nat} (hv : v < params.totalNodes) :
    params.connectionsRange.start ≤ deg (dials gen params) v := by
  by_contra hlow
  apply hlow
  have hsub : (Finset.range params.totalNodes).erase v ⊆
      (Finset.range params.totalNodes).filter (Linked (dials gen params) v) := by
    intro u hu
    obtain ⟨huv, hu⟩ := Finset.mem_erase.mp hu
    refine Finset.mem_filter.mpr ⟨hu, linked_comm.mp ?_⟩
    by_contra hno
    have hfull := full_of_stranger h (Finset.mem_range.mp hu) hv huv (Nat.lt_of_not_le hlow) hno
    have hcard := Finset.card_le_card (linked_subset hno)
    rw [← deg_dials_eq_card] at hcard
    have := card_others (Finset.mem_range.mp hu) hv huv
    omega
  have hcard := Finset.card_le_card hsub
  rw [Finset.card_erase_of_mem (Finset.mem_range.mpr hv), Finset.card_range, ← deg_dials_eq_card] at hcard
  omega

/-- Four nodes with two peers each: the one peer of a node below the range would have three. -/
theorem four_keeps (h : params.connectionsRange.start = params.connectionsRange.last)
    (h₂ : params.connectionsRange.last = 2) (hn : params.totalNodes = 4)
    (hall : ∀ v < params.totalNodes, 0 < deg (dials gen params) v) {v : Nat} (hv : v < params.totalNodes) :
    params.connectionsRange.start ≤ deg (dials gen params) v := by
  by_contra hlow
  have hone : deg (dials gen params) v = 1 := by
    have := hall v hv
    omega
  rw [deg_dials_eq_card] at hone
  obtain ⟨a, ha⟩ := Finset.card_eq_one.mp hone
  obtain ⟨han, hva⟩ := Finset.mem_filter.mp (ha ▸ Finset.mem_singleton_self a)
  have hsub : (Finset.range params.totalNodes).erase a ⊆
      (Finset.range params.totalNodes).filter (Linked (dials gen params) a) := by
    intro w hw
    obtain ⟨hwa, hw⟩ := Finset.mem_erase.mp hw
    refine Finset.mem_filter.mpr ⟨hw, linked_comm.mp ?_⟩
    by_cases hwv : w = v
    · exact hwv ▸ hva
    · have hno : ¬ Linked (dials gen params) w v := by
        intro hlinked
        have := Finset.mem_filter.mpr ⟨hw, linked_comm.mp hlinked⟩
        rw [ha, Finset.mem_singleton] at this
        exact hwa this
      have hfull := full_of_stranger h (Finset.mem_range.mp hw) hv hwv (Nat.lt_of_not_le hlow) hno
      have hothers := card_others (Finset.mem_range.mp hw) hv hwv
      rw [deg_dials_eq_card] at hfull
      have heq := Finset.eq_of_subset_of_card_le (linked_subset hno) (by omega)
      have hav : a ≠ v := by
        intro h
        exact (simple_dials gen params).not_linked_self v (h ▸ hva)
      have hmem := Finset.mem_erase.mpr ⟨hav, Finset.mem_erase.mpr ⟨hwa.symm, han⟩⟩
      rw [← heq] at hmem
      exact (Finset.mem_filter.mp hmem).2
  have hcard := Finset.card_le_card hsub
  rw [Finset.card_erase_of_mem han, Finset.card_range, ← deg_dials_eq_card] at hcard
  have hle := deg_dials_le gen params a
  rw [target_eq h] at hle
  omega

end

end GossipPlans
