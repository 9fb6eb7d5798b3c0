import GossipPlans.DegreeCap
import Mathlib.Combinatorics.SimpleGraph.Basic
import Mathlib.Data.Finset.SymmDiff

/-!
# Which graphs greedy selection can end with

Under degree caps greedy selection ends with a graph in which two vertices that are not linked do
not both have room left, and with every such graph when its edges are offered first (`deg_firstOf`).
A regular graph that is not complete can be switched to another such graph with one vertex below
the cap (`exists_switch`).
-/

namespace DegreeCap

open scoped symmDiff

section
variable {V : Type}

/-! ## The degree counts the linked vertices -/

theorem linked_cons {e : V × V} {E : List (V × V)} {a b : V} :
    Linked (e :: E) a b ↔ (a, b) = e ∨ (b, a) = e ∨ Linked E a b := by
  simp only [Linked, List.mem_cons]
  tauto

theorem Simple.not_linked {e : V × V} {E : List (V × V)} (h : Simple (e :: E)) : ¬ Linked E e.1 e.2 := by
  obtain ⟨hne, -⟩ := List.pairwise_cons.mp h.2
  intro hlinked
  rcases hlinked with hm | hm
  · exact (hne _ hm).1 rfl
  · exact (hne _ hm).2 rfl

section
variable [DecidableEq V]

instance (E : List (V × V)) (a b : V) : Decidable (Linked E a b) := inferInstanceAs (Decidable (_ ∨ _))

theorem deg_cons (e : V × V) (E : List (V × V)) (v : V) :
    deg (e :: E) v = deg E v + if e.1 = v ∨ e.2 = v then 1 else 0 := by
  simp [deg, List.countP_cons]

theorem filter_linked_cons {e : V × V} {E : List (V × V)} {S : Finset V} {v u : V} (he : (v, u) = e ∨ (u, v) = e)
    (hu : u ∈ S) : S.filter (Linked (e :: E) v) = insert u (S.filter (Linked E v)) := by
  have hends : ∀ w, (v, w) = e ∨ (w, v) = e ↔ w = u := by
    intro w
    rcases he with rfl | rfl
    · simp only [Prod.mk.injEq]
      grind
    · simp only [Prod.mk.injEq]
      grind
  ext w
  rw [Finset.mem_filter, Finset.mem_insert, Finset.mem_filter, linked_cons, ← or_assoc, hends]
  constructor
  · intro h
    obtain ⟨hw, h⟩ := h
    exact h.imp_right fun hlinked => ⟨hw, hlinked⟩
  · intro h
    rcases h with rfl | ⟨hw, hlinked⟩
    · exact ⟨hu, Or.inl rfl⟩
    · exact ⟨hw, Or.inr hlinked⟩

theorem deg_eq_card {S : Finset V} {v : V} : ∀ {E : List (V × V)}, Simple E → (∀ u, Linked E v u → u ∈ S) →
    deg E v = (S.filter (Linked E v)).card
  | [], _, _ => by
    rw [deg_nil, eq_comm, Finset.card_eq_zero, Finset.filter_eq_empty_iff]
    intro u _
    simp [Linked]
  | e :: E, hE, hS => by
    have hnew := hE.not_linked
    rw [deg_cons, deg_eq_card (hE.sublist (List.sublist_cons_self ..)) fun u hu => hS u (by simp [linked_cons, hu])]
    obtain ⟨a, b⟩ := e
    by_cases ha : a = v
    · subst ha
      rw [filter_linked_cons (Or.inl rfl) (hS b (by simp [linked_cons])), Finset.card_insert_of_notMem (by simp [hnew])]
      simp
    · by_cases hb : b = v
      · subst hb
        rw [filter_linked_cons (Or.inr rfl) (hS a (by simp [linked_cons])),
          Finset.card_insert_of_notMem (by simp [linked_comm, hnew])]
        simp
      · have hset : S.filter (Linked ((a, b) :: E) v) = S.filter (Linked E v) := by
          apply Finset.filter_congr
          intro u _
          simp [linked_cons, Ne.symm ha, Ne.symm hb]
        rw [hset]
        simp [ha, hb]

/-- Vertices that are all linked to each other have that many edges, but for one. -/
theorem card_clique_le {E : List (V × V)} (hE : Simple E) {U : Finset V}
    (hU : ∀ a ∈ U, ∀ b ∈ U, a ≠ b → Linked E a b) {v : V} (hv : v ∈ U) : U.card ≤ deg E v + 1 := by
  classical
  have hends : ∀ u, Linked E v u → u ∈ (E.flatMap fun e => [e.1, e.2]).toFinset := by
    intro u hu
    simp only [List.mem_toFinset, List.mem_flatMap]
    rcases hu with hm | hm
    · exact ⟨_, hm, by simp⟩
    · exact ⟨_, hm, by simp⟩
  rw [deg_eq_card hE hends, ← Finset.card_erase_add_one hv]
  apply Nat.succ_le_succ
  apply Finset.card_le_card
  intro u hu
  obtain ⟨hne, hu⟩ := Finset.mem_erase.mp hu
  have hlinked := hU v hv u hu hne.symm
  exact Finset.mem_filter.mpr ⟨hends u hlinked, hlinked⟩

/-! ## Edges that are all kept, and edges that are all refused -/

section
variable (cap : V → Nat) (dir : Nat → Bool)

theorem deg_greedy_of_fits : ∀ (es E : List (V × V)), (∀ v, deg E v + deg es v ≤ cap v) →
    ∀ v, deg (greedy cap dir es E) v = deg E v + deg es v
  | [], E, _, v => by simp [greedy]
  | e :: es, E, hfit, v => by
    have hadm : Admits cap E e := by
      have h₁ := hfit e.1
      have h₂ := hfit e.2
      rw [deg_cons, if_pos (Or.inl rfl)] at h₁
      rw [deg_cons, if_pos (Or.inr rfl)] at h₂
      exact ⟨by omega, by omega⟩
    have hpick : ∀ v, deg (pick cap dir E e) v + deg es v = deg E v + deg (e :: es) v := by
      intro v
      rw [pick_of_admits cap dir hadm, deg_append, deg_orient, deg_cons]
      omega
    rw [greedy, deg_greedy_of_fits es _ (fun u => (hpick u).trans_le (hfit u)), hpick]

theorem greedy_of_refused : ∀ (es : List (V × V)) {E : List (V × V)}, (∀ e ∈ es, ¬ Admits cap E e) →
    greedy cap dir es E = E
  | [], _, _ => rfl
  | e :: es, E, h => by
    rw [greedy, pick_of_not_admits cap dir (h e (List.mem_cons_self ..))]
    exact greedy_of_refused es fun d hd => h d (List.mem_cons_of_mem _ hd)

end

end

/-! ## Graphs, and the order that yields them -/

open scoped Classical in
/-- The number of neighbours inside `S`. -/
noncomputable def valency (S : Finset V) (G : SimpleGraph V) (v : V) : Nat := (S.filter (G.Adj v)).card

open scoped Classical in
/-- The pairs of `L`, those of the graph first. -/
noncomputable def firstOf (G : SimpleGraph V) (L : List (V × V)) : List (V × V) :=
  L.filter (fun e => G.Adj e.1 e.2) ++ L.filter fun e => ¬ G.Adj e.1 e.2

theorem firstOf_perm (G : SimpleGraph V) (L : List (V × V)) : (firstOf G L).Perm L := by
  classical
  have h := List.filter_append_perm (fun e : V × V => decide (G.Adj e.1 e.2)) L
  simpa [firstOf] using h

section
variable [DecidableEq V]

theorem deg_edges {S : Finset V} {L : List (V × V)} (hL : Simple L) (hS : ∀ e ∈ L, e.1 ∈ S ∧ e.2 ∈ S)
    (hall : ∀ a ∈ S, ∀ b ∈ S, a ≠ b → Linked L a b) (G : SimpleGraph V) [DecidableRel G.Adj] (v : V) :
    deg (L.filter fun e => G.Adj e.1 e.2) v = if v ∈ S then valency S G v else 0 := by
  have hmem : ∀ a b, Linked (L.filter fun e => G.Adj e.1 e.2) a b ↔ a ∈ S ∧ b ∈ S ∧ G.Adj a b := by
    intro a b
    simp only [Linked, List.mem_filter, decide_eq_true_eq]
    constructor
    · intro h
      rcases h with ⟨hm, hadj⟩ | ⟨hm, hadj⟩
      · exact ⟨(hS _ hm).1, (hS _ hm).2, hadj⟩
      · exact ⟨(hS _ hm).2, (hS _ hm).1, hadj.symm⟩
    · intro h
      obtain ⟨ha, hb, hadj⟩ := h
      rcases hall a ha b hb hadj.ne with hm | hm
      · exact Or.inl ⟨hm, hadj⟩
      · exact Or.inr ⟨hm, hadj.symm⟩
  rw [deg_eq_card (hL.sublist List.filter_sublist) fun u hu => ((hmem v u).mp hu).2.1]
  by_cases hv : v ∈ S
  · rw [if_pos hv, valency]
    congr 1
    ext u
    simp only [Finset.mem_filter, hmem]
    tauto
  · rw [if_neg hv, Finset.card_eq_zero, Finset.filter_eq_empty_iff]
    intro u _
    simp [hmem, hv]

/-- **Every saturated graph is reached.** Offering its edges first, under caps that it keeps and that
leave no room at both ends of a missing edge, greedy selection ends with its degrees. -/
theorem deg_firstOf {S : Finset V} {L : List (V × V)} (hL : Simple L) (hS : ∀ e ∈ L, e.1 ∈ S ∧ e.2 ∈ S)
    (hall : ∀ a ∈ S, ∀ b ∈ S, a ≠ b → Linked L a b) {cap : V → Nat} (dir : Nat → Bool) {G : SimpleGraph V}
    (hcap : ∀ v ∈ S, valency S G v ≤ cap v)
    (hsat : ∀ a ∈ S, ∀ b ∈ S, a ≠ b → ¬ G.Adj a b → cap a ≤ valency S G a ∨ cap b ≤ valency S G b)
    {v : V} (hv : v ∈ S) : deg (greedy cap dir (firstOf G L) []) v = valency S G v := by
  classical
  have hedges : ∀ u, deg (L.filter fun e => G.Adj e.1 e.2) u = if u ∈ S then valency S G u else 0 :=
    deg_edges hL hS hall G
  have hkept : ∀ u, deg (greedy cap dir (L.filter fun e => G.Adj e.1 e.2) []) u =
      if u ∈ S then valency S G u else 0 := by
    intro u
    rw [deg_greedy_of_fits cap dir _ [] fun w => ?_, deg_nil, Nat.zero_add, hedges]
    rw [deg_nil, Nat.zero_add, hedges]
    split
    · rename_i hw; exact hcap w hw
    · exact Nat.zero_le _
  have hrest : greedy cap dir (firstOf G L) [] = greedy cap dir (L.filter fun e => G.Adj e.1 e.2) [] := by
    rw [firstOf, greedy_append]
    apply greedy_of_refused
    intro e he hadm
    obtain ⟨hm, hno⟩ := List.mem_filter.mp he
    have ⟨h₁, h₂⟩ := hS e hm
    simp only [decide_eq_true_eq] at hno
    obtain ⟨hroom₁, hroom₂⟩ := hadm
    rw [hkept, if_pos h₁] at hroom₁
    rw [hkept, if_pos h₂] at hroom₂
    rcases hsat _ h₁ _ h₂ (hL.1 e hm) hno with h | h
    · exact absurd hroom₁ (Nat.not_lt.mpr h)
    · exact absurd hroom₂ (Nat.not_lt.mpr h)
  rw [hrest, hkept, if_pos hv]

end

/-! ## Switching -/

section
variable {S : Finset V} {G F : SimpleGraph V}

theorem symmDiff_adj {a b : V} : (G ∆ F).Adj a b ↔ (G.Adj a b ∧ ¬ F.Adj a b) ∨ (F.Adj a b ∧ ¬ G.Adj a b) := by
  simp [symmDiff]

theorem valency_congr {G' : SimpleGraph V} {v : V} (h : ∀ u, G'.Adj v u ↔ G.Adj v u) :
    valency S G' v = valency S G v := by
  classical
  simp only [valency, h]

/-- A vertex that swaps one neighbour for another keeps its valency. -/
theorem valency_swap {v p q : V} (hF : ∀ u, F.Adj v u ↔ u = p ∨ u = q) (hp : G.Adj v p) (hq : ¬ G.Adj v q)
    (hpS : p ∈ S) (hqS : q ∈ S) : valency S (G ∆ F) v = valency S G v := by
  classical
  have hset : S.filter ((G ∆ F).Adj v) = insert q ((S.filter (G.Adj v)).erase p) := by
    ext u
    simp only [Finset.mem_filter, Finset.mem_insert, Finset.mem_erase, symmDiff_adj, hF]
    grind
  have hpm : p ∈ S.filter (G.Adj v) := Finset.mem_filter.mpr ⟨hpS, hp⟩
  rw [valency, valency, hset, Finset.card_insert_of_notMem (by simp [hq]), Finset.card_erase_add_one hpm]

theorem valency_drop {v p q : V} (hF : ∀ u, F.Adj v u ↔ u = p ∨ u = q) (hpq : p ≠ q) (hp : G.Adj v p)
    (hq : G.Adj v q) (hpS : p ∈ S) (hqS : q ∈ S) : valency S (G ∆ F) v + 2 = valency S G v := by
  classical
  have hset : S.filter ((G ∆ F).Adj v) = ((S.filter (G.Adj v)).erase p).erase q := by
    ext u
    simp only [Finset.mem_filter, Finset.mem_erase, symmDiff_adj, hF]
    grind
  have hpm : p ∈ S.filter (G.Adj v) := Finset.mem_filter.mpr ⟨hpS, hp⟩
  have hqm : q ∈ (S.filter (G.Adj v)).erase p := Finset.mem_erase.mpr ⟨hpq.symm, Finset.mem_filter.mpr ⟨hqS, hq⟩⟩
  rw [valency, valency, hset, ← Finset.card_erase_add_one hpm, ← Finset.card_erase_add_one hqm]

theorem exists_neighbours {v : V} (h : 2 ≤ valency S G v) : ∃ a ∈ S, ∃ b ∈ S, a ≠ b ∧ G.Adj v a ∧ G.Adj v b := by
  classical
  obtain ⟨a, ha, b, hb, hab⟩ := Finset.one_lt_card.mp h
  obtain ⟨haS, ha⟩ := Finset.mem_filter.mp ha
  obtain ⟨hbS, hb⟩ := Finset.mem_filter.mp hb
  exact ⟨a, haS, b, hbS, hab, ha, hb⟩

theorem exists_stranger {v : V} (hv : v ∈ S) (h : valency S G v + 2 ≤ S.card) : ∃ x ∈ S, x ≠ v ∧ ¬ G.Adj v x := by
  classical
  by_contra hno
  have hsub : S.erase v ⊆ S.filter (G.Adj v) := by
    intro x hx
    obtain ⟨hne, hx⟩ := Finset.mem_erase.mp hx
    by_contra hadj
    exact hno ⟨x, hx, hne, fun h => hadj (Finset.mem_filter.mpr ⟨hx, h⟩)⟩
  have hcard := Finset.card_le_card hsub
  rw [Finset.card_erase_of_mem hv] at hcard
  simp only [valency] at h
  omega

/-! Along a closed walk with an odd number of steps whose edges are in turn in the graph and not, every
vertex but the first keeps its valency. -/

theorem switch_triangle {v a b : V} (hv : v ∈ S) (ha : a ∈ S) (hb : b ∈ S) (hab : a ≠ b) (hva : G.Adj v a)
    (hvb : G.Adj v b) (hnab : ¬ G.Adj a b) : ∃ G' : SimpleGraph V, valency S G' v + 2 = valency S G v ∧
      ∀ u, u ≠ v → valency S G' u = valency S G u := by
  have := hva.ne
  have := hvb.ne
  have hadj : ∀ x y, (SimpleGraph.fromEdgeSet {s(v, a), s(a, b), s(b, v)}).Adj x y ↔
      (x = v ∧ (y = a ∨ y = b)) ∨ (x = a ∧ (y = v ∨ y = b)) ∨ x = b ∧ (y = v ∨ y = a) := by
    intro x y
    simp only [SimpleGraph.fromEdgeSet_adj, Set.mem_insert_iff, Set.mem_singleton_iff, Sym2.eq_iff]
    grind
  refine ⟨G ∆ SimpleGraph.fromEdgeSet {s(v, a), s(a, b), s(b, v)}, ?_, fun u huv => ?_⟩
  · exact valency_drop (fun u => by grind) hab hva hvb ha hb
  · by_cases hua : u = a
    · subst hua
      exact valency_swap (p := v) (q := b) (fun y => by grind) hva.symm hnab hv hb
    by_cases hub : u = b
    · subst hub
      exact valency_swap (p := v) (q := a) (fun y => by grind) hvb.symm (fun h => hnab h.symm) hv ha
    · apply valency_congr
      intro y
      rw [symmDiff_adj, hadj]
      grind

theorem switch_pentagon {v a x y b : V} (hv : v ∈ S) (ha : a ∈ S) (hx : x ∈ S) (hy : y ∈ S) (hb : b ∈ S)
    (hab : a ≠ b) (hax : a ≠ x) (hay : a ≠ y) (hbx : b ≠ x) (hby : b ≠ y) (hvx : v ≠ x) (hvy : v ≠ y)
    (hva : G.Adj v a) (hvb : G.Adj v b) (hxy : G.Adj x y) (hnax : ¬ G.Adj a x) (hnby : ¬ G.Adj b y) :
    ∃ G' : SimpleGraph V, valency S G' v + 2 = valency S G v ∧ ∀ u, u ≠ v → valency S G' u = valency S G u := by
  have := hva.ne
  have := hvb.ne
  have := hxy.ne
  have hadj : ∀ c z, (SimpleGraph.fromEdgeSet {s(v, a), s(a, x), s(x, y), s(y, b), s(b, v)}).Adj c z ↔
      (c = v ∧ (z = a ∨ z = b)) ∨ (c = a ∧ (z = v ∨ z = x)) ∨ (c = x ∧ (z = y ∨ z = a)) ∨
        (c = y ∧ (z = x ∨ z = b)) ∨ c = b ∧ (z = v ∨ z = y) := by
    intro c z
    simp only [SimpleGraph.fromEdgeSet_adj, Set.mem_insert_iff, Set.mem_singleton_iff, Sym2.eq_iff]
    grind
  refine ⟨G ∆ SimpleGraph.fromEdgeSet {s(v, a), s(a, x), s(x, y), s(y, b), s(b, v)}, ?_, fun u huv => ?_⟩
  · exact valency_drop (fun u => by grind) hab hva hvb ha hb
  · by_cases hua : u = a
    · subst hua
      exact valency_swap (p := v) (q := x) (fun z => by grind) hva.symm hnax hv hx
    by_cases hub : u = b
    · subst hub
      exact valency_swap (p := v) (q := y) (fun z => by grind) hvb.symm hnby hv hy
    by_cases hux : u = x
    · subst hux
      exact valency_swap (p := y) (q := a) (fun z => by grind) hxy (fun h => hnax h.symm) hy ha
    by_cases huy : u = y
    · subst huy
      exact valency_swap (p := x) (q := b) (fun z => by grind) hxy.symm (fun h => hnby h.symm) hx hb
    · apply valency_congr
      intro z
      rw [symmDiff_adj, hadj]
      grind

/-- **One vertex below the cap.** Either some vertex has two neighbours that are not adjacent, or the graph
consists of cliques; an edge of another clique then closes the walk. -/
theorem exists_switch {k : Nat} (hk : 2 ≤ k) (hreg : ∀ v ∈ S, valency S G v = k) (hcard : k + 2 ≤ S.card) :
    ∃ G' : SimpleGraph V, ∃ v ∈ S, valency S G' v + 2 = k ∧ ∀ u ∈ S, u ≠ v → valency S G' u = k := by
  have hfound : ∃ G' : SimpleGraph V, ∃ v ∈ S, valency S G' v + 2 = valency S G v ∧
      ∀ u, u ≠ v → valency S G' u = valency S G u := by
    by_cases htri : ∃ v ∈ S, ∃ a ∈ S, ∃ b ∈ S, a ≠ b ∧ G.Adj v a ∧ G.Adj v b ∧ ¬ G.Adj a b
    · obtain ⟨v, hv, a, ha, b, hb, hab, hva, hvb, hnab⟩ := htri
      obtain ⟨G', h⟩ := switch_triangle hv ha hb hab hva hvb hnab
      exact ⟨G', v, hv, h⟩
    · have htrans : ∀ v ∈ S, ∀ a ∈ S, ∀ b ∈ S, a ≠ b → G.Adj v a → G.Adj v b → G.Adj a b := by
        intro v hv a ha b hb hab hva hvb
        by_contra h
        exact htri ⟨v, hv, a, ha, b, hb, hab, hva, hvb, h⟩
      obtain ⟨v, hv⟩ := Finset.card_pos.mp (by omega : 0 < S.card)
      obtain ⟨a, ha, b, hb, hab, hva, hvb⟩ := exists_neighbours (hk.trans_eq (hreg v hv).symm)
      obtain ⟨x, hx, hxv, hvx⟩ := exists_stranger hv ((hreg v hv).symm ▸ hcard)
      obtain ⟨y, hy, -, -, -, hxy, -⟩ := exists_neighbours (hk.trans_eq (hreg x hx).symm)
      have hvy : v ≠ y := fun h => hvx (h ▸ hxy).symm
      have hnvy : ¬ G.Adj v y := fun h => hvx (htrans y hy v hv x hx hxv.symm h.symm hxy.symm)
      -- no neighbour of `v` is in the clique of `x`
      have hfar : ∀ c ∈ S, G.Adj v c → ∀ z ∈ S, v ≠ z → ¬ G.Adj v z → c ≠ z ∧ ¬ G.Adj c z := by
        intro c hc hvc z hz hvz hnvz
        exact ⟨fun h => hnvz (h ▸ hvc), fun h => hnvz (htrans c hc v hv z hz hvz hvc.symm h)⟩
      obtain ⟨hax, hnax⟩ := hfar a ha hva x hx hxv.symm hvx
      obtain ⟨hby, hnby⟩ := hfar b hb hvb y hy hvy hnvy
      obtain ⟨G', h⟩ := switch_pentagon hv ha hx hy hb hab hax (hfar a ha hva y hy hvy hnvy).1
        (hfar b hb hvb x hx hxv.symm hvx).1 hby hxv.symm hvy hva hvb hxy hnax hnby
      exact ⟨G', v, hv, h⟩
  obtain ⟨G', v, hv, hdrop, hkeep⟩ := hfound
  exact ⟨G', v, hv, by rw [hdrop, hreg v hv], fun u hu huv => by rw [hkeep u huv, hreg u hu]⟩

end

end

end DegreeCap
