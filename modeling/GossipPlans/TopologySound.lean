import GossipPlans.DegreeCap
import GossipPlans.Topology

/-!
# The connection loop is greedy edge selection under degree caps

`dials` is the list of directed edges the greedy selection keeps, with the drawn numbers of peers
as caps. The maps of the loop represent this list after every iteration (`connectPair_represents`),
so what is proved of greedy selection holds of the topology and of the outbound peers.
-/

namespace GossipPlans

open DegreeCap

/-! ## All connections -/

theorem mem_allConnections {n : Nat} {e : Nat × Nat} : e ∈ allConnections n ↔ e.1 < e.2 ∧ e.2 < n := by
  obtain ⟨a, b⟩ := e
  simp only [allConnections, List.mem_flatMap, List.mem_range, List.mem_map, List.mem_range'_1, Prod.mk.injEq]
  constructor
  · intro h
    obtain ⟨i, hi, j, hj, rfl, rfl⟩ := h
    omega
  · intro h
    obtain ⟨hab, hb⟩ := h
    exact ⟨a, by omega, b, by omega, rfl, rfl⟩

theorem nodup_allConnections (n : Nat) : (allConnections n).Nodup := by
  refine List.nodup_flatMap.mpr ⟨fun i _ => ?_, List.nodup_range.imp fun hij => ?_⟩
  · exact List.Nodup.map (fun a b h => (Prod.mk.inj h).2) List.nodup_range'
  · intro e hi hj
    obtain ⟨_, _, rfl⟩ := List.mem_map.mp hi
    obtain ⟨_, _, h⟩ := List.mem_map.mp hj
    exact hij (Prod.mk.inj h).1.symm

def offered (gen : Prng) (params : Params) : List (Nat × Nat) :=
  (gen.shuffleConnections (allConnections params.totalNodes)).reverse

theorem mem_offered {gen : Prng} {params : Params} {e : Nat × Nat} :
    e ∈ offered gen params ↔ e.1 < e.2 ∧ e.2 < params.totalNodes := by
  rw [offered, List.mem_reverse, (gen.shuffleConnections_perm _).mem_iff, mem_allConnections]

theorem simple_offered (gen : Prng) (params : Params) : Simple (offered gen params) := by
  refine simple_of_lt ?_ fun e he => (mem_offered.mp he).1
  rw [offered, List.nodup_reverse, (gen.shuffleConnections_perm _).nodup_iff]
  exact nodup_allConnections _

/-! ## The maps represent a list of directed edges -/

def link (E : List (Nat × Nat)) (v u : Nat) : Option Bool :=
  if (v, u) ∈ E then some true else if (u, v) ∈ E then some false else none

def dialed (E : List (Nat × Nat)) (v : Nat) : List Nat := (E.filter (·.1 = v)).map Prod.snd

structure Represents (cap : Nat → Nat) (n : Nat) (st : Topology) (E : List (Nat × Nat)) : Prop where
  node : ∀ v < n, ∃ conns, st.topology[v]? = some (cap v, conns) ∧ conns.size = deg E v ∧
    ∀ u, conns[u]? = link E v u
  outbound : ∀ v, st.outboundPeers[v]? = if dialed E v = [] then none else some (dialed E v)
  draws : st.draws = E.length

theorem link_eq_none {E : List (Nat × Nat)} {v u : Nat} (h : ¬ Linked E v u) : link E v u = none := by
  simp only [Linked, not_or] at h
  simp [link, h]

theorem link_append {E : List (Nat × Nat)} {f : Bool} {a b : Nat} (hab : a ≠ b)
    (hnew : ¬ Linked E a b) (v u : Nat) :
    link (E ++ [orient f (a, b)]) v u =
      if v = a ∧ u = b then some f else if v = b ∧ u = a then some (!f) else link E v u := by
  simp only [Linked, not_or] at hnew
  by_cases h₁ : v = a ∧ u = b
  · obtain ⟨rfl, rfl⟩ := h₁
    cases f <;> simp [link, orient, hnew, hab, hab.symm]
  · by_cases h₂ : v = b ∧ u = a
    · obtain ⟨rfl, rfl⟩ := h₂
      cases f <;> simp [link, orient, hnew, hab, hab.symm]
    · have h₁' : ¬ (u = b ∧ v = a) := fun h => h₁ h.symm
      have h₂' : ¬ (u = a ∧ v = b) := fun h => h₂ h.symm
      cases f <;> simp [link, orient, h₁, h₂, h₁', h₂']

theorem dialed_append (E : List (Nat × Nat)) (e : Nat × Nat) (v : Nat) :
    dialed (E ++ [e]) v = if e.1 = v then dialed E v ++ [e.2] else dialed E v := by
  by_cases h : e.1 = v <;> simp [dialed, List.filter_append, h]

theorem getElem?_addConnection (t : Std.TreeMap Nat (Nat × Std.TreeMap Nat Bool)) (a b v : Nat)
    (f : Bool) : (addConnection t a b f)[v]? = if a = v then t[a]?.map fun e => (e.1, e.2.insert b f) else t[v]? :=
  OrderedMap.getElem?_modify t a v _

theorem pushOutbound_represents {o : OutboundPeers} {E : List (Nat × Nat)}
    (ho : ∀ v, o[v]? = if dialed E v = [] then none else some (dialed E v)) (e : Nat × Nat) (v : Nat) :
    (pushOutbound o e.1 e.2)[v]? = if dialed (E ++ [e]) v = [] then none else some (dialed (E ++ [e]) v) := by
  rw [pushOutbound, OrderedMap.getElem?_alter, dialed_append]
  by_cases h : e.1 = v
  · subst h
    rw [if_pos rfl, if_pos rfl, ho]
    by_cases hd : dialed E e.1 = [] <;> simp [hd]
  · rw [if_neg h, if_neg h, ho]

section
variable (gen : Prng) {cap : Nat → Nat} {n : Nat}

/-- **One iteration.** The loop body follows `pick`, and no `unwrap` of it fails. -/
theorem connectPair_represents {st : Topology} {E : List (Nat × Nat)} (h : Represents cap n st E)
    {a b : Nat} (ha : a < n) (hb : b < n) (hab : a ≠ b) (hnew : ¬ Linked E a b) :
    ∃ st', connectPair gen st a b = .ok st' ∧ Represents cap n st' (pick cap gen.genRatio E (a, b)) := by
  obtain ⟨ca, hta, hsa, hla⟩ := h.node a ha
  obtain ⟨cb, htb, hsb, hlb⟩ := h.node b hb
  unfold connectPair
  simp only [hta, htb, hsa, hsb]
  by_cases hda : cap a ≤ deg E a
  · exact ⟨st, if_pos hda, by rwa [pick_of_not_admits _ _ fun hadm => absurd hadm.1 (Nat.not_lt.mpr hda)]⟩
  by_cases hdb : cap b ≤ deg E b
  · refine ⟨st, by rw [if_neg hda, if_pos hdb], ?_⟩
    rwa [pick_of_not_admits _ _ fun hadm => absurd hadm.2 (Nat.not_lt.mpr hdb)]
  refine ⟨_, by rw [if_neg hda, if_neg hdb], ?_⟩
  rw [pick_of_admits _ _ ⟨Nat.lt_of_not_le hda, Nat.lt_of_not_le hdb⟩, ← h.draws]
  generalize gen.genRatio st.draws = f
  refine ⟨fun v hv => ?_, fun v => ?_, by simp [h.draws]⟩
  · obtain ⟨cv, htv, hsv, hlv⟩ := h.node v hv
    simp only [getElem?_addConnection]
    by_cases hva : v = a
    · subst hva
      rw [hta] at htv; cases htv
      refine ⟨ca.insert b f, by simp [hab.symm, hta], ?_, fun u => ?_⟩
      · rw [OrderedMap.size_insert_of_none f ((hla b).trans (link_eq_none hnew)), hsa, deg_append, deg_orient,
          if_pos (Or.inl rfl)]
      · rw [OrderedMap.getElem?_insert, link_append hab hnew, hla]
        by_cases hu : b = u
        · subst hu; simp
        · simp [hu, Ne.symm hu, hab]
    by_cases hvb : v = b
    · subst hvb
      rw [htb] at htv; cases htv
      refine ⟨cb.insert a (!f), by simp [hab, htb], ?_, fun u => ?_⟩
      · rw [OrderedMap.size_insert_of_none _ ((hlb a).trans (link_eq_none fun hj => hnew (linked_comm.mp hj))),
          hsb, deg_append, deg_orient, if_pos (Or.inr rfl)]
      · rw [OrderedMap.getElem?_insert, link_append hab hnew, hlb]
        by_cases hu : a = u
        · subst hu; simp [hab.symm]
        · simp [hu, Ne.symm hu, hab.symm]
    · refine ⟨cv, by simp [Ne.symm hva, Ne.symm hvb, htv], ?_, fun u => ?_⟩
      · rw [hsv, deg_append, deg_orient, if_neg (by simp [Ne.symm hva, Ne.symm hvb])]; rfl
      · rw [link_append hab hnew, hlv]; simp [hva, hvb]
  · cases f
    · exact pushOutbound_represents h.outbound (b, a) v
    · exact pushOutbound_represents h.outbound (a, b) v

/-- **The whole loop**, by induction on the pairs still to be popped. -/
theorem connectLoop_represents : ∀ (es : List (Nat × Nat)) {st : Topology} {E : List (Nat × Nat)},
    Represents cap n st E → Simple es → (∀ e ∈ es, e.1 < n ∧ e.2 < n ∧ ¬ Linked E e.1 e.2) →
    ∃ st', connectLoop gen es st = .ok st' ∧ Represents cap n st' (greedy cap gen.genRatio es E)
  | [], st, _, h, _, _ => ⟨st, rfl, h⟩
  | (a, b) :: es, st, E, h, hes, hm => by
    obtain ⟨ha, hb, hnew⟩ := hm (a, b) (List.mem_cons_self ..)
    obtain ⟨hd, hp⟩ := List.pairwise_cons.mp hes.2
    obtain ⟨st₁, h₁, hr₁⟩ :=
      connectPair_represents gen h ha hb (hes.1 (a, b) (List.mem_cons_self ..)) hnew
    obtain ⟨st₂, h₂, hr₂⟩ := connectLoop_represents es hr₁
      ⟨fun e he => hes.1 e (List.mem_cons_of_mem _ he), hp⟩ fun e he => by
        obtain ⟨h1, h2, hn⟩ := hm e (List.mem_cons_of_mem _ he)
        refine ⟨h1, h2, fun hj => ?_⟩
        rcases linked_pick cap gen.genRatio hj with hj | hj | hj
        · exact hn hj
        · exact (hd e he).1 hj.symm
        · exact (hd e he).2 hj.symm
    exact ⟨st₂, by simp only [connectLoop, h₁]; exact h₂, hr₂⟩

end

/-! ## The drawn targets and the whole construction -/

def target (gen : Prng) (params : Params) (v : Nat) : Nat :=
  gen.genRange v params.connectionsRange.start params.connectionsRange.last

theorem Params.range_le (params : Params) : params.connectionsRange.start ≤ params.connectionsRange.last := by
  have := params.range_nonempty
  simpa [RangeInclusive.isEmpty] using this

theorem target_mem (gen : Prng) (params : Params) (v : Nat) :
    params.connectionsRange.start ≤ target gen params v ∧ target gen params v ≤ params.connectionsRange.last :=
  gen.genRange_mem v _ _ params.range_le

theorem expectConnections_ok (gen : Prng) {range : RangeInclusive} (hr : range.isEmpty = false) :
    ∀ (ps : List Nat) (st : Topology), ∃ st', expectConnections gen range ps st = .ok st' ∧
      st'.outboundPeers = st.outboundPeers ∧ st'.draws = st.draws ∧
      ∀ v, st'.topology[v]? = if v ∈ ps then some (gen.genRange v range.start range.last, ∅) else st.topology[v]?
  | [], st => ⟨st, rfl, rfl, rfl, fun v => by simp⟩
  | p :: ps, st => by
    obtain ⟨st', h, ho, hd, ht⟩ := expectConnections_ok gen hr ps
      { st with topology := st.topology.insert p (gen.genRange p range.start range.last, ∅) }
    refine ⟨st', by rw [expectConnections, hr]; exact h, ho, hd, fun v => ?_⟩
    rw [ht, OrderedMap.getElem?_insert]
    by_cases hv : v ∈ ps
    · simp [hv]
    · by_cases hp : p = v
      · subst hp; simp [hv]
      · simp [hv, hp, Ne.symm hp]

def dials (gen : Prng) (params : Params) : List (Nat × Nat) :=
  greedy (target gen params) gen.genRatio (offered gen params) []

/-- The loop starts with every node known and nothing connected. -/
theorem expectConnections_represents (gen : Prng) (params : Params) :
    ∃ st, expectConnections gen params.connectionsRange (List.range params.totalNodes) ⟨∅, ∅, 0⟩ = .ok st ∧
      Represents (target gen params) params.totalNodes st [] ∧ ∀ v, params.totalNodes ≤ v → st.topology[v]? = none := by
  obtain ⟨st, h, ho, hd, ht⟩ :=
    expectConnections_ok gen params.range_nonempty (List.range params.totalNodes) ⟨∅, ∅, 0⟩
  refine ⟨st, h, ⟨fun v hv => ⟨∅, ?_, rfl, fun u => by simp [link]⟩, fun v => by simp [ho, dialed], hd⟩, fun v hv => ?_⟩
  · rw [ht, if_pos (List.mem_range.mpr hv)]; rfl
  · rw [ht, if_neg (by simpa using hv)]; rfl

theorem offered_new {gen : Prng} {params : Params} {e : Nat × Nat} (he : e ∈ offered gen params) :
    e.1 < params.totalNodes ∧ e.2 < params.totalNodes ∧ ¬ Linked [] e.1 e.2 := by
  obtain ⟨h₁, h₂⟩ := mem_offered.mp he
  exact ⟨Nat.lt_trans h₁ h₂, h₂, by simp [Linked]⟩

theorem buildTopology_represents (gen : Prng) (params : Params) :
    ∃ st, buildTopology gen params = .ok st ∧
      Represents (target gen params) params.totalNodes st (dials gen params) := by
  obtain ⟨st₀, h₀, hr₀, -⟩ := expectConnections_represents gen params
  obtain ⟨st, h, hr⟩ := connectLoop_represents gen (offered gen params) hr₀ (simple_offered gen params)
    fun e he => offered_new he
  exact ⟨st, by simp only [buildTopology, h₀]; exact h, hr⟩

/-! ## Facts about the dials -/

section
variable (gen : Prng) (params : Params)

theorem simple_dials : Simple (dials gen params) :=
  simple_greedy _ _ _ _ simple_nil (simple_offered gen params) fun e _ => by simp [Linked]

theorem dials_lt {e : Nat × Nat} (he : e ∈ dials gen params) :
    e.1 < params.totalNodes ∧ e.2 < params.totalNodes := by
  rcases linked_greedy _ _ _ _ (Or.inl he) with h | h | h
  · simp [Linked] at h
  · have := mem_offered.mp h; exact ⟨Nat.lt_trans this.1 this.2, this.2⟩
  · have := mem_offered.mp h; exact ⟨this.2, Nat.lt_trans this.1 this.2⟩

theorem linked_dials_lt {a b : Nat} (h : Linked (dials gen params) a b) :
    a < params.totalNodes ∧ b < params.totalNodes := by
  rcases h with hm | hm
  · exact dials_lt gen params hm
  · exact (dials_lt gen params hm).symm

theorem lt_of_deg_pos {v : Nat} (h : 0 < deg (dials gen params) v) : v < params.totalNodes := by
  obtain ⟨u, hu⟩ := deg_pos_iff.mp h
  exact (linked_dials_lt gen params hu).1

theorem deg_dials_le (v : Nat) : deg (dials gen params) v ≤ target gen params v :=
  deg_greedy_le _ _ _ _ (fun _ => Nat.zero_le _) v

theorem dials_maximal {a b : Nat} (ha : a < params.totalNodes) (hb : b < params.totalNodes) (hab : a ≠ b) :
    Linked (dials gen params) a b ∨ target gen params a ≤ deg (dials gen params) a ∨
      target gen params b ≤ deg (dials gen params) b := by
  rcases Nat.lt_or_gt_of_ne hab with hlt | hlt
  · exact greedy_maximal (e := (a, b)) _ _ _ _ (mem_offered.mpr ⟨hlt, hb⟩)
  · rcases greedy_maximal (e := (b, a)) (target gen params) gen.genRatio (offered gen params) []
      (mem_offered.mpr ⟨hlt, ha⟩) with h | h | h
    · exact Or.inl (linked_comm.mp h)
    · exact Or.inr (Or.inr h)
    · exact Or.inr (Or.inl h)

end

end GossipPlans
