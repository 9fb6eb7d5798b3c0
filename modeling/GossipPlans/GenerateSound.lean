import GossipPlans.TopologySound
import Mathlib.Algebra.BigOperators.Intervals

/-!
# What `Network::generate` accepts

The random cuts give every validator to exactly one node, so the validator checks of
`Network::new` pass on generated data, and `generate` reports an error only for an isolated node. It panics
when there are so many validators or nodes that a vector would be too large.
-/

namespace GossipPlans

open DegreeCap Cuts
open OrderedMap (values)

/-! ## Accepted parameters -/

theorem Params.new_fields {b : Build} {seed tv wv wov lo hi : Nat} {params : Params}
    (h : Params.new b seed tv wv wov lo hi = .ok params) :
    usizeAdd b wv wov = .ok params.totalNodes ∧ params.totalNodesWithVals = wv ∧
      params.connectionsRange = ⟨lo, hi⟩ := by
  obtain ⟨total, htotal, h⟩ := bind_ok_iff.mp h
  split at h; · cases h
  split at h; · cases h
  split at h; · cases h
  split at h; · cases h
  cases h; exact ⟨htotal, rfl, rfl⟩

theorem Params.new_totalNodes {b : Build} {seed tv wv wov lo hi : Nat} {params : Params}
    (h : Params.new b seed tv wv wov lo hi = .ok params) (hlt : wv + wov < usizeSize) :
    params.totalNodes = wv + wov := by
  have htotal := (Params.new_fields h).1
  rw [usizeAdd_ok hlt] at htotal
  exact (Except.ok.inj htotal).symm

theorem Params.new_ok (b : Build) (seed : Nat) {tv wv wov lo hi : Nat} (hlt : wv + wov < usizeSize)
    (hn : 0 < wv + wov) (hv : 0 < tv) (hr : lo ≤ hi) :
    ∃ params, Params.new b seed tv wv wov lo hi = .ok params ∧ params.totalNodes = wv + wov ∧
      params.totalNodesWithVals = wv ∧ params.connectionsRange = ⟨lo, hi⟩ ∧ params.totalValidators = tv := by
  have hr' : ¬ (RangeInclusive.mk lo hi).isEmpty = true := by simpa [RangeInclusive.isEmpty] using hr
  simp only [Params.new, usizeAdd_ok hlt, Bind.bind, Except.bind]
  rw [dif_neg (by omega), dif_neg (by omega), dif_neg (by omega), dif_neg hr']
  exact ⟨_, rfl, rfl, rfl, rfl, rfl⟩

theorem Params.new_err (b : Build) (seed : Nat) {tv wv wov lo hi : Nat} (hlt : wv + wov < usizeSize)
    (h : wv + wov = 0 ∨ tv = 0 ∨ hi < lo) : ∃ e, Params.new b seed tv wv wov lo hi = .error (.err e) := by
  simp only [Params.new, usizeAdd_ok hlt, Bind.bind, Except.bind]
  rw [dif_neg (by omega)]
  split; · exact ⟨_, rfl⟩
  split; · exact ⟨_, rfl⟩
  split; · exact ⟨_, rfl⟩
  rename_i hr
  simp only [RangeInclusive.isEmpty, decide_eq_true_eq] at hr
  omega

theorem Params.new_overflow (seed tv lo hi : Nat) {wv wov : Nat} (hw : wov < usizeSize)
    (hge : usizeSize ≤ wv + wov) (hwv : wv < usizeSize) :
    (∃ e, Params.new .release seed tv wv wov lo hi = .error (.err e)) ∧
      Params.new .debug seed tv wv wov lo hi = .error (.panic .addOverflow) := by
  have hmod : (wv + wov) % usizeSize < wv := by
    rw [Nat.mod_eq_sub_mod hge, Nat.mod_eq_of_lt (by omega)]; omega
  constructor
  · simp only [Params.new, usizeAdd, if_neg (Nat.not_lt.mpr hge), overflow, Bind.bind, Except.bind]
    rw [dif_pos hmod]
    exact ⟨_, rfl⟩
  · simp only [Params.new, usizeAdd, if_neg (Nat.not_lt.mpr hge), overflow, Bind.bind, Except.bind]

/-! ## The validator assignment -/

section
variable {b : Build} {gen : Prng} {params : Params}

theorem cutsOf_spec {cuts : List Nat} (h : cutsOf b gen params = .ok cuts) :
    cuts.Pairwise (· ≤ ·) ∧ 0 ∈ cuts ∧ params.totalValidators ∈ cuts ∧ ∀ c ∈ cuts, c ≤ params.totalValidators := by
  obtain ⟨amount, -, h⟩ := bind_ok_iff.mp h
  simp only [Except.ok.injEq] at h
  have hp := List.perm_insertionSort (· ≤ ·)
    (gen.chooseMultiple (List.range params.totalValidators) amount ++ [params.totalValidators, 0])
  rw [h] at hp
  refine ⟨h ▸ List.pairwise_insertionSort _ _, hp.mem_iff.mpr (by simp), hp.mem_iff.mpr (by simp), fun c hc => ?_⟩
  rcases List.mem_append.mp (hp.mem_iff.mp hc) with hc | hc
  · have := (gen.choose_subperm _ _).subset hc
    exact Nat.le_of_lt (List.mem_range.mp this)
  · simp only [List.mem_cons, List.not_mem_nil, or_false] at hc
    omega

theorem length_cutsOf {amount : Nat} {cuts : List Nat} (ha : usizeSub b params.totalNodesWithVals 1 = .ok amount)
    (h : cutsOf b gen params = .ok cuts) : cuts.length = min amount params.totalValidators + 2 := by
  obtain ⟨amount', ha', h⟩ := bind_ok_iff.mp h
  rw [ha] at ha'; cases ha'
  simp only [Except.ok.injEq] at h
  rw [← h, List.length_insertionSort, List.length_append, gen.choose_length]
  simp

def pieces (gen : Prng) (params : Params) (cuts : List Nat) : List (List Nat) :=
  (windows2 cuts).map (piece (gen.shuffleValidators (List.range params.totalValidators)))

theorem flatten_pieces_perm {cuts : List Nat} (h : cutsOf b gen params = .ok cuts) :
    (pieces gen params cuts).flatten.Perm (List.range params.totalValidators) := by
  obtain ⟨hs, h₀, hn, hle⟩ := cutsOf_spec h
  have hperm := gen.shuffleValidators_perm (List.range params.totalValidators)
  have hlen : (gen.shuffleValidators (List.range params.totalValidators)).length = params.totalValidators := by
    rw [hperm.length_eq, List.length_range]
  rw [pieces, flatten_pieces_all _ hs h₀ (hlen.symm ▸ hn) (hlen.symm ▸ hle)]
  exact hperm

theorem assignValidators_spec {cuts : List Nat} (h : cutsOf b gen params = .ok cuts) :
    ∃ va, assignValidators b gen params = .ok va ∧
      va.toList = (pieces gen params cuts).zipIdx.map fun e => (e.2, e.1.toFinset) := by
  obtain ⟨hs, -, -, hle⟩ := cutsOf_spec h
  have hlen : (gen.shuffleValidators (List.range params.totalValidators)).length = params.totalValidators := by
    rw [(gen.shuffleValidators_perm _).length_eq, List.length_range]
  have hm := mapM_ok (l := (windows2 cuts).zipIdx)
    (f := assignCut (gen.shuffleValidators (List.range params.totalValidators)))
    (g := fun e => (e.2, (piece (gen.shuffleValidators (List.range params.totalValidators)) e.1).toFinset)) <| by
      intro e he
      have hw := windows2_bounds hs hle e.1 (List.fst_mem_of_mem_zipIdx he)
      rw [assignCut, slice, if_pos ⟨hw.1, hlen.symm ▸ hw.2⟩]
      rfl
  refine ⟨_, by rw [assignValidators, h]; simp only [Bind.bind, Except.bind]; rw [hm], ?_⟩
  rw [OrderedMap.toList_ofList]
  · rw [pieces, List.zipIdx_map, List.map_map]; rfl
  · refine List.pairwise_map.mpr (List.Pairwise.imp (R := fun a b => a.2 < b.2) (fun h => ?_) ?_)
    · exact Nat.compare_eq_lt.mpr h
    · rw [← List.pairwise_map, List.zipIdx_map_snd]
      exact List.pairwise_lt_range'

theorem values_of_toList {va : ValidatorAssignments} {ps : List (List Nat)}
    (h : va.toList = ps.zipIdx.map fun e => (e.2, e.1.toFinset)) : values va = ps.map List.toFinset := by
  rw [values, h, List.map_map]
  conv_rhs => rw [← List.zipIdx_map_fst 0 ps, List.map_map]
  rfl

end

theorem sum_card_toFinset : ∀ {ps : List (List Nat)}, ps.flatten.Nodup →
    ((ps.map List.toFinset).map Finset.card).sum = ps.flatten.length
  | [], _ => rfl
  | p :: ps, h => by
    rw [List.flatten_cons, List.nodup_append] at h
    simp only [List.map_cons, List.sum_cons, List.flatten_cons, List.length_append]
    rw [sum_card_toFinset h.2.1, List.toFinset_card_of_nodup h.1]

theorem foldr_union_toFinset (ps : List (List Nat)) :
    (ps.map List.toFinset).foldr (· ∪ ·) ∅ = ps.flatten.toFinset := by
  induction ps with
  | nil => rfl
  | cons p ps ih => simp [ih, List.toFinset_append]

/-! ## The checks of `Network::new` -/

def Partition (params : Params) (va : ValidatorAssignments) : Prop :=
  ((values va).map Finset.card).sum = params.totalValidators ∧ assignedVals va = Finset.range params.totalValidators

theorem Network.new_of_partition {params : Params} {va : ValidatorAssignments} (h : Partition params va)
    (outboundPeers : OutboundPeers) : Network.new params va outboundPeers =
      if connectedPeers outboundPeers = Finset.range params.totalNodes then .ok ⟨params, va, outboundPeers⟩
      else .error (.err ("set of dialed peers and expected peers differ: missing " ++
        debugDifference (Finset.range params.totalNodes \ connectedPeers outboundPeers))) := by
  have hv := params.validators_pos
  unfold Network.new
  simp only [h.1, h.2, Finset.card_range, ne_eq, not_true_eq_false, if_false]
  have hne : (Finset.range params.totalValidators).Nonempty := Finset.nonempty_range_iff.mpr (by omega)
  have hmax : (Finset.range params.totalValidators).max' hne = params.totalValidators - 1 := by
    refine le_antisymm (Finset.max'_le _ _ _ fun x hx => ?_) (Finset.le_max' _ _ ?_)
    · have := Finset.mem_range.mp hx; omega
    · exact Finset.mem_range.mpr (by omega)
  have hmin : (Finset.range params.totalValidators).min' hne = 0 :=
    Nat.le_zero.mp (Finset.min'_le _ _ (Finset.mem_range.mpr hv))
  rw [dif_pos hne, if_neg (by simpa using hmax), if_neg (by simpa using hmin)]
  split <;> simp_all

section
variable {b : Build} {gen : Prng} {params : Params}

theorem partition_of_cuts {cuts : List Nat} (h : cutsOf b gen params = .ok cuts) {va : ValidatorAssignments}
    (hva : va.toList = (pieces gen params cuts).zipIdx.map fun e => (e.2, e.1.toFinset)) : Partition params va := by
  have hp := flatten_pieces_perm h
  rw [Partition, assignedVals, values_of_toList hva, foldr_union_toFinset,
    sum_card_toFinset (hp.nodup_iff.mpr List.nodup_range), hp.length_eq, List.length_range]
  exact ⟨rfl, by rw [List.toFinset_eq_of_perm _ _ hp]; ext; simp⟩

/-! ## Who is connected -/

theorem mem_connectedPeers {st : Topology} {cap : Nat → Nat} {n : Nat} {E : List (Nat × Nat)}
    (h : Represents cap n st E) (v : Nat) : v ∈ connectedPeers st.outboundPeers ↔ 0 < deg E v := by
  have hmem : ∀ a l, (a, l) ∈ st.outboundPeers.toList ↔ dialed E a ≠ [] ∧ l = dialed E a := by
    intro a l
    rw [Std.TreeMap.mem_toList_iff_getElem?_eq_some, h.outbound]
    split <;> simp_all [eq_comm]
  have hd : ∀ a u, u ∈ dialed E a ↔ (a, u) ∈ E := by
    intro a u; simp [dialed]
  simp only [connectedPeers, List.mem_toFinset, List.mem_flatMap, List.mem_append, List.mem_singleton, deg_pos_iff]
  constructor
  · intro h
    obtain ⟨⟨a, l⟩, hal, hv⟩ := h
    obtain ⟨hne, rfl⟩ := (hmem a l).mp hal
    rcases hv with hv | rfl
    · exact ⟨a, Or.inr ((hd a v).mp hv)⟩
    · obtain ⟨u, hu⟩ := List.exists_mem_of_ne_nil _ hne
      exact ⟨u, Or.inl ((hd _ u).mp hu)⟩
  · intro h
    obtain ⟨u, hu | hu⟩ := h
    · exact ⟨(v, dialed E v), (hmem v _).mpr ⟨List.ne_nil_of_mem ((hd v u).mpr hu), rfl⟩, Or.inr rfl⟩
    · exact ⟨(u, dialed E u), (hmem u _).mpr ⟨List.ne_nil_of_mem ((hd u v).mpr hu), rfl⟩, Or.inl ((hd u v).mpr hu)⟩

theorem connectedPeers_eq_range {st : Topology} (h : Represents (target gen params) params.totalNodes st (dials gen params)) :
    connectedPeers st.outboundPeers = Finset.range params.totalNodes ↔
      ∀ v < params.totalNodes, 0 < deg (dials gen params) v := by
  constructor
  · intro he v hv
    exact (mem_connectedPeers h v).mp (he ▸ Finset.mem_range.mpr hv)
  · intro hall
    ext v
    rw [mem_connectedPeers h, Finset.mem_range]
    exact ⟨lt_of_deg_pos gen params, hall v⟩

/-! ## The vectors that are collected -/

theorem length_allConnections (n : Nat) : 2 * (allConnections n).length = n * (n - 1) := by
  have hlength : (allConnections n).length = ∑ i ∈ Finset.range n, (n - 1 - i) := by
    rw [allConnections, List.length_flatMap]
    refine (congrArg List.sum (List.map_congr_left fun i _ => ?_)).trans (b := ((List.range n).map (n - 1 - ·)).sum) rfl
    rw [List.length_map, List.length_range', Nat.sub_sub, Nat.add_comm]
  rw [hlength, Finset.sum_range_reflect (fun i => i) n, Nat.mul_comm, Finset.sum_range_id_mul_two]

/-- The vectors of all validators and of all pairs of nodes have at most `isize::MAX` bytes. -/
def Params.Fits (params : Params) : Prop := params.totalValidators ≤ isizeMax / 8 ∧ params.totalNodes ≤ 2 ^ 30

instance (params : Params) : Decidable params.Fits := inferInstanceAs (Decidable (_ ∧ _))

theorem withCapacity_ok_iff {size length : Nat} {u : Unit} : withCapacity size length = .ok u ↔ length * size ≤ isizeMax := by
  unfold withCapacity
  split
  · rename_i h
    exact iff_of_true rfl h
  · rename_i h
    exact iff_of_false nofun h

theorem withCapacity_error {size length : Nat} (h : withCapacity size length ≠ .ok ()) :
    withCapacity size length = .error (.panic .capacityOverflow) := by
  rw [ne_eq, withCapacity_ok_iff] at h
  exact if_neg h

theorem fits_iff : params.Fits ↔ withCapacity 8 params.totalValidators = .ok () ∧
    withCapacity 16 (allConnections params.totalNodes).length = .ok () := by
  have hlength := length_allConnections params.totalNodes
  rw [withCapacity_ok_iff, withCapacity_ok_iff, Params.Fits, Nat.le_div_iff_mul_le (by decide)]
  apply and_congr_right'
  rcases le_or_gt params.totalNodes (2 ^ 30) with hle | hlt
  · have hmul := Nat.mul_le_mul hle (Nat.sub_le_sub_right hle 1)
    refine iff_of_true hle ?_
    unfold isizeMax
    omega
  · have hmul := Nat.mul_le_mul (Nat.succ_le_of_lt hlt) (Nat.sub_le_sub_right (Nat.succ_le_of_lt hlt) 1)
    refine iff_of_false (Nat.not_le.mpr hlt) (Nat.not_le.mpr ?_)
    unfold isizeMax
    omega

/-- Whoever gets past both vectors has room for them. -/
theorem fits_of_collected {α β : Type} {x : Run α} {f : α → Run β} {r : β} (h : (do
    withCapacity 8 params.totalValidators
    let a ← x
    withCapacity 16 (allConnections params.totalNodes).length
    f a) = .ok r) : params.Fits := by
  obtain ⟨_, hvalidators, h⟩ := bind_ok_iff.mp h
  obtain ⟨_, -, h⟩ := bind_ok_iff.mp h
  obtain ⟨_, hconnections, -⟩ := bind_ok_iff.mp h
  exact fits_iff.mpr ⟨hvalidators, hconnections⟩

theorem fits_of_generate {net : Network} (h : Network.generate b gen params = .ok net) : params.Fits :=
  fits_of_collected h

/-- Once the cuts are drawn, `generate` either returns the network of the drawn topology or
reports the ids that topology misses. -/
theorem generate_of_cuts {cuts : List Nat} (h : cutsOf b gen params = .ok cuts) (hfits : params.Fits) :
    ∃ va st, assignValidators b gen params = .ok va ∧ buildTopology gen params = .ok st ∧
      va.toList = ((pieces gen params cuts).zipIdx.map fun e => (e.2, e.1.toFinset)) ∧
      Represents (target gen params) params.totalNodes st (dials gen params) ∧
      Network.generate b gen params =
        if ∀ v < params.totalNodes, 0 < deg (dials gen params) v then .ok ⟨params, va, st.outboundPeers⟩
        else .error (.err ("Network generation failed: " ++
          ("set of dialed peers and expected peers differ: missing " ++
            debugDifference (Finset.range params.totalNodes \ connectedPeers st.outboundPeers)))) := by
  obtain ⟨va, hva, hl⟩ := assignValidators_spec h
  obtain ⟨st, hst, hr⟩ := buildTopology_represents gen params
  refine ⟨va, st, hva, hst, hl, hr, ?_⟩
  have hnew := Network.new_of_partition (partition_of_cuts h hl) st.outboundPeers
  obtain ⟨hvalidators, hconnections⟩ := fits_iff.mp hfits
  simp only [Network.generate, hvalidators, hconnections, hva, hst, Bind.bind, Except.bind, hnew]
  by_cases hc : connectedPeers st.outboundPeers = Finset.range params.totalNodes
  · rw [if_pos hc, if_pos ((connectedPeers_eq_range hr).mp hc)]
  · rw [if_neg hc, if_neg fun hall => hc ((connectedPeers_eq_range hr).mpr hall)]

variable (b gen) in
theorem cutsOf_ok (hv : 1 ≤ params.totalNodesWithVals ∨ b = .release) : ∃ cuts, cutsOf b gen params = .ok cuts := by
  rcases Nat.lt_or_ge params.totalNodesWithVals 1 with h | h
  · obtain rfl := hv.resolve_left (by omega)
    rw [cutsOf, usizeSub, if_neg (by omega)]; exact ⟨_, rfl⟩
  · rw [cutsOf, usizeSub_ok h]; exact ⟨_, rfl⟩

end

theorem generate_represents {b : Build} {gen : Prng} {params : Params} {net : Network}
    (h : Network.generate b gen params = .ok net) :
    ∃ st, Represents (target gen params) params.totalNodes st (dials gen params) ∧
      net.outboundPeers = st.outboundPeers ∧ (∀ v < params.totalNodes, 0 < deg (dials gen params) v) ∧
      Partition params net.validatorAssignments := by
  have hcuts : ∃ cuts, cutsOf b gen params = .ok cuts := by
    obtain ⟨_, -, h⟩ := bind_ok_iff.mp h
    obtain ⟨va, hva, -⟩ := bind_ok_iff.mp h
    obtain ⟨cuts, hc, -⟩ := bind_ok_iff.mp hva
    exact ⟨cuts, hc⟩
  obtain ⟨cuts, hc⟩ := hcuts
  obtain ⟨va, st, -, -, hva, hr, hg⟩ := generate_of_cuts hc (fits_of_generate h)
  rw [hg] at h
  split at h
  · rename_i hall; cases h; exact ⟨st, hr, rfl, hall, partition_of_cuts hc hva⟩
  · cases h

/-! ## Isolated nodes -/

def Topology.connections (st : Topology) (v : Nat) : Nat :=
  match st.topology[v]? with
  | some (_, conns) => conns.size
  | none => 0

def Topology.isolated (st : Topology) (n : Nat) : Finset Nat := (Finset.range n).filter fun v => st.connections v = 0

theorem Represents.connections {cap : Nat → Nat} {n : Nat} {st : Topology} {E : List (Nat × Nat)}
    (h : Represents cap n st E) {v : Nat} (hv : v < n) : st.connections v = deg E v := by
  obtain ⟨conns, ht, hs, -⟩ := h.node v hv
  rw [Topology.connections, ht]; exact hs

theorem card_isolated_le_one {gen : Prng} {params : Params} {st : Topology}
    (h : Represents (target gen params) params.totalNodes st (dials gen params))
    (hmin : 1 ≤ params.connectionsRange.start) : (st.isolated params.totalNodes).card ≤ 1 := by
  apply Finset.card_le_one.mpr
  intro a ha c hc
  by_contra hac
  simp only [Topology.isolated, Finset.mem_filter, Finset.mem_range] at ha hc
  rw [h.connections ha.1] at ha
  rw [h.connections hc.1] at hc
  have hta := (target_mem gen params a).1
  have htc := (target_mem gen params c).1
  rcases dials_maximal gen params ha.1 hc.1 hac with hj | hj | hj
  · have := deg_pos_iff.mpr ⟨c, hj⟩; omega
  · omega
  · omega

theorem isolated_eq_empty_iff {cap : Nat → Nat} {n : Nat} {st : Topology} {E : List (Nat × Nat)}
    (h : Represents cap n st E) : st.isolated n = ∅ ↔ ∀ v < n, 0 < deg E v := by
  simp only [Topology.isolated, Finset.filter_eq_empty_iff, Finset.mem_range]
  apply forall₂_congr
  intro v hv
  rw [h.connections hv]; omega

/-- The topology at the end of the connection loop, if the call gets there. -/
def finalTopology (b : Build) (gen : Prng) (params : Params) : Run Topology := do
  withCapacity 8 params.totalValidators
  let _ ← assignValidators b gen params
  withCapacity 16 (allConnections params.totalNodes).length
  buildTopology gen params

theorem finalTopology_eq {b : Build} {gen : Prng} {params : Params} {va : ValidatorAssignments}
    (hva : assignValidators b gen params = .ok va) (hfits : params.Fits) :
    finalTopology b gen params = buildTopology gen params := by
  obtain ⟨hvalidators, hconnections⟩ := fits_iff.mp hfits
  simp only [finalTopology, hvalidators, hconnections, hva, Bind.bind, Except.bind]

theorem fits_of_finalTopology {b : Build} {gen : Prng} {params : Params} {st : Topology}
    (h : finalTopology b gen params = .ok st) : params.Fits :=
  fits_of_collected h

theorem cutsOf_error {b : Build} {gen : Prng} {params : Params} {f : Fail} (h : cutsOf b gen params = .error f) :
    f = .panic .subOverflow := by
  cases hamount : usizeSub b params.totalNodesWithVals 1 with
  | ok amount =>
    rw [cutsOf, hamount] at h
    cases h
  | error f' =>
    rw [cutsOf, hamount] at h
    cases h
    unfold usizeSub overflow at hamount
    split at hamount
    · cases hamount
    · cases b
      · cases hamount
        rfl
      · cases hamount

/-- Without room for the vectors the call panics. -/
theorem generate_of_not_fits (b : Build) (gen : Prng) {params : Params} (h : ¬ params.Fits) :
    ∃ p, Network.generate b gen params = .error (.panic p) := by
  rw [fits_iff, not_and_or] at h
  by_cases hvalidators : withCapacity 8 params.totalValidators = .ok ()
  · have hconnections := withCapacity_error (h.resolve_left (not_not_intro hvalidators))
    cases hcuts : cutsOf b gen params with
    | error f =>
      obtain rfl := cutsOf_error hcuts
      exact ⟨_, by simp only [Network.generate, hvalidators, assignValidators, hcuts, Bind.bind, Except.bind]; rfl⟩
    | ok cuts =>
      obtain ⟨va, hva, -⟩ := assignValidators_spec hcuts
      exact ⟨_, by simp only [Network.generate, hvalidators, hva, hconnections, Bind.bind, Except.bind]; rfl⟩
  · have hpanic := withCapacity_error hvalidators
    exact ⟨_, by simp only [Network.generate, hpanic, Bind.bind, Except.bind]; rfl⟩

section
variable {gen : Prng} {params : Params} {st : Topology}
  (hr : Represents (target gen params) params.totalNodes st (dials gen params))
include hr

theorem connections_pos_iff : (∀ v < params.totalNodes, 1 ≤ st.connections v) ↔
    ∀ v < params.totalNodes, 0 < deg (dials gen params) v :=
  forall₂_congr fun v hv => by rw [hr.connections hv]; rfl

theorem card_isolated_eq_one_iff (hmin : 1 ≤ params.connectionsRange.start) :
    (st.isolated params.totalNodes).card = 1 ↔ ¬ ∀ v < params.totalNodes, 0 < deg (dials gen params) v := by
  have hle := card_isolated_le_one hr hmin
  rw [← isolated_eq_empty_iff hr, ← Finset.card_eq_zero]
  omega

end

/-- **Which networks `generate` returns.** Exactly those whose final topology has no isolated node; and when every node
wants a peer at most one node is isolated, so an error means exactly one. A call that does not get to the end of the
loop has no room for its vectors. -/
theorem generate_ok_iff_no_isolated (b : Build) (gen : Prng) (params : Params)
    (hv : 1 ≤ params.totalNodesWithVals) :
    ((∃ net, Network.generate b gen params = .ok net) ↔
      ∃ st, finalTopology b gen params = .ok st ∧ ∀ v < params.totalNodes, 1 ≤ st.connections v) ∧
    (1 ≤ params.connectionsRange.start →
      (∀ st, finalTopology b gen params = .ok st → (st.isolated params.totalNodes).card ≤ 1) ∧
      ((∃ e, Network.generate b gen params = .error (.err e)) ↔
        ∃ st, finalTopology b gen params = .ok st ∧ (st.isolated params.totalNodes).card = 1)) ∧
    ((∃ st, finalTopology b gen params = .ok st) ↔ params.Fits) := by
  obtain ⟨cuts, hc⟩ := cutsOf_ok b gen (Or.inl hv)
  by_cases hfits : params.Fits
  · obtain ⟨va, st, hva, hst, -, hr, hg⟩ := generate_of_cuts hc hfits
    have hfinal := (finalTopology_eq hva hfits).trans hst
    simp only [hfinal, Except.ok.injEq, exists_eq_left', forall_eq']
    refine ⟨?_, fun hmin => ?_, iff_of_true ⟨st, rfl⟩ hfits⟩
    · rw [connections_pos_iff hr, hg]
      split
      · rename_i hall
        exact iff_of_true ⟨_, rfl⟩ hall
      · rename_i hall
        refine iff_of_false (fun h => ?_) hall
        obtain ⟨_, h⟩ := h
        cases h
    · refine ⟨card_isolated_le_one hr hmin, ?_⟩
      rw [card_isolated_eq_one_iff hr hmin, hg]
      split
      · rename_i hall
        refine iff_of_false (fun h => ?_) (not_not_intro hall)
        obtain ⟨_, h⟩ := h
        cases h
      · rename_i hall
        exact iff_of_true ⟨_, rfl⟩ hall
  · have hnone : ∀ st, finalTopology b gen params ≠ .ok st := fun st h => hfits (fits_of_finalTopology h)
    obtain ⟨p, hp⟩ := generate_of_not_fits b gen hfits
    simp [hnone, hp, hfits]

/-- Three nodes that want one peer each: one of them stays alone. -/
theorem generate_err_three : ∃ e, Network.generate .release (Prng.ofOrder [])
    ⟨1, 2, 1, 3, ⟨1, 1⟩, by decide, by decide, by decide, by decide⟩ = .error (.err e) := by
  obtain ⟨-, h, -⟩ := generate_ok_iff_no_isolated .release (Prng.ofOrder [])
    ⟨1, 2, 1, 3, ⟨1, 1⟩, by decide, by decide, by decide, by decide⟩ (by decide)
  have hcard : (finalTopology .release (Prng.ofOrder []) ⟨1, 2, 1, 3, ⟨1, 1⟩, by decide, by decide, by decide, by decide⟩).map
      (fun st => (st.isolated 3).card) = .ok 1 := by decide
  obtain ⟨st, hst, hcard⟩ := map_ok_iff.mp hcard
  exact (h (by decide)).2.mpr ⟨st, hst, hcard⟩

end GossipPlans
