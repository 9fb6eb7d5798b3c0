import Mathlib.Algebra.BigOperators.Ring.Finset
import Mathlib.Data.List.Nodup
import Mathlib.Data.Prod.Basic

/-!
# Greedy edge selection under degree caps

Edges are offered one after the other. An offered edge is kept when both of its ends still have
fewer kept edges than their cap, and it is kept in one of its two directions. The kept list stays
within the caps, holds no pair twice, and is maximal: a refused edge has a saturated end.
-/

namespace DegreeCap

section
variable {V : Type}

def Linked (E : List (V × V)) (a b : V) : Prop := (a, b) ∈ E ∨ (b, a) ∈ E

def orient (forward : Bool) (e : V × V) : V × V := if forward then e else e.swap

theorem linked_comm {E : List (V × V)} {a b : V} : Linked E a b ↔ Linked E b a := or_comm

theorem mem_orient {f : Bool} {e : V × V} {a b : V} :
    (a, b) = orient f e ∨ (b, a) = orient f e ↔ (a, b) = e ∨ (b, a) = e := by
  obtain ⟨x, y⟩ := e
  cases f <;> simp [orient, Prod.ext_iff, and_comm, or_comm]

theorem linked_append_orient {E : List (V × V)} {f : Bool} {e : V × V} {a b : V} :
    Linked (E ++ [orient f e]) a b ↔ Linked E a b ∨ (a, b) = e ∨ (b, a) = e := by
  rw [← mem_orient (f := f)]
  simp only [Linked, List.mem_append, List.mem_singleton]
  tauto

def Simple (E : List (V × V)) : Prop := (∀ e ∈ E, e.1 ≠ e.2) ∧ E.Pairwise fun d e => d ≠ e ∧ d ≠ e.swap

theorem simple_nil : Simple ([] : List (V × V)) := ⟨nofun, .nil⟩

theorem Simple.append_orient {E : List (V × V)} {f : Bool} {e : V × V} (hE : Simple E) (he : e.1 ≠ e.2)
    (hj : ¬ Linked E e.1 e.2) : Simple (E ++ [orient f e]) := by
  obtain ⟨a, b⟩ := e
  refine ⟨fun d hd => ?_, List.pairwise_append.mpr ⟨hE.2, List.pairwise_singleton _ _, fun d hd c hc => ?_⟩⟩
  · rcases List.mem_append.mp hd with hd | hd
    · exact hE.1 d hd
    · rw [List.mem_singleton.mp hd]
      cases f
      · exact he.symm
      · exact he
  · rw [List.mem_singleton.mp hc]
    simp only [Linked, not_or] at hj
    have h₁ : d ≠ (a, b) := fun h => hj.1 (h ▸ hd)
    have h₂ : d ≠ (b, a) := fun h => hj.2 (h ▸ hd)
    cases f
    · exact ⟨h₂, h₁⟩
    · exact ⟨h₁, h₂⟩

theorem simple_of_lt [LinearOrder V] {E : List (V × V)} (hn : E.Nodup) (hlt : ∀ e ∈ E, e.1 < e.2) : Simple E := by
  refine ⟨fun e he => (hlt e he).ne, hn.imp_of_mem fun hd he hne => ⟨hne, fun h => ?_⟩⟩
  have hd' := hlt _ hd
  rw [h] at hd'
  exact lt_asymm hd' (hlt _ he)

theorem Simple.sublist {D E : List (V × V)} (hE : Simple E) (h : D.Sublist E) : Simple D :=
  ⟨fun e he => hE.1 e (h.subset he), hE.2.sublist h⟩

theorem Simple.nodup {E : List (V × V)} (hE : Simple E) : E.Nodup := hE.2.imp fun h => h.1

theorem Simple.not_linked_self {E : List (V × V)} (hE : Simple E) (v : V) : ¬ Linked E v v := by
  intro h
  rcases h with hm | hm
  · exact hE.1 _ hm rfl
  · exact hE.1 _ hm rfl

variable [DecidableEq V]

def deg (E : List (V × V)) (v : V) : Nat := E.countP fun e => e.1 = v ∨ e.2 = v

def Admits (cap : V → Nat) (E : List (V × V)) (e : V × V) : Prop := deg E e.1 < cap e.1 ∧ deg E e.2 < cap e.2

instance (cap : V → Nat) (E : List (V × V)) (e : V × V) : Decidable (Admits cap E e) :=
  inferInstanceAs (Decidable (_ ∧ _))

/-- Offer one edge; `dir` says how the next kept edge is directed. -/
def pick (cap : V → Nat) (dir : Nat → Bool) (E : List (V × V)) (e : V × V) : List (V × V) :=
  if Admits cap E e then E ++ [orient (dir E.length) e] else E

def greedy (cap : V → Nat) (dir : Nat → Bool) : List (V × V) → List (V × V) → List (V × V)
  | [], E => E
  | e :: es, E => greedy cap dir es (pick cap dir E e)

/-! ## Degrees -/

@[simp] theorem deg_nil (v : V) : deg [] v = 0 := rfl

theorem deg_append (E F : List (V × V)) (v : V) : deg (E ++ F) v = deg E v + deg F v :=
  List.countP_append ..

theorem deg_orient (f : Bool) (e : V × V) (v : V) :
    deg [orient f e] v = if e.1 = v ∨ e.2 = v then 1 else 0 := by
  cases f
  · by_cases h : e.1 = v ∨ e.2 = v
    · simp [deg, orient, h, or_comm]
    · simp [deg, orient, h, or_comm]
  · by_cases h : e.1 = v ∨ e.2 = v <;> simp [deg, orient, h]

theorem deg_pos_iff {E : List (V × V)} {v : V} : 0 < deg E v ↔ ∃ u, Linked E v u := by
  unfold deg Linked
  rw [List.countP_pos_iff]
  constructor
  · intro h
    obtain ⟨⟨a, b⟩, hm, hv⟩ := h
    simp only [decide_eq_true_eq] at hv
    rcases hv with rfl | rfl
    · exact ⟨b, Or.inl hm⟩
    · exact ⟨a, Or.inr hm⟩
  · intro h
    obtain ⟨u, hm | hm⟩ := h
    · exact ⟨_, hm, by simp⟩
    · exact ⟨_, hm, by simp⟩

/-! ## One offered edge -/

section
variable (cap : V → Nat) (dir : Nat → Bool)

theorem pick_of_admits {E : List (V × V)} {e : V × V} (h : Admits cap E e) :
    pick cap dir E e = E ++ [orient (dir E.length) e] := if_pos h

theorem pick_of_not_admits {E : List (V × V)} {e : V × V} (h : ¬ Admits cap E e) :
    pick cap dir E e = E := if_neg h

theorem prefix_pick (E : List (V × V)) (e : V × V) : E <+: pick cap dir E e := by
  unfold pick; split
  · exact List.prefix_append _ _
  · exact List.prefix_refl _

theorem deg_pick_le {E : List (V × V)} {e : V × V} (hE : ∀ v, deg E v ≤ cap v) (v : V) :
    deg (pick cap dir E e) v ≤ cap v := by
  unfold pick; split
  · rename_i h
    rw [deg_append, deg_orient]
    split
    · rename_i hv
      rcases hv with rfl | rfl
      · exact h.1
      · exact h.2
    · exact hE v
  · exact hE v

theorem linked_pick {E : List (V × V)} {e : V × V} {a b : V} (h : Linked (pick cap dir E e) a b) :
    Linked E a b ∨ (a, b) = e ∨ (b, a) = e := by
  unfold pick at h; split at h
  · exact linked_append_orient.mp h
  · exact Or.inl h

theorem pick_maximal (E : List (V × V)) (e : V × V) :
    Linked (pick cap dir E e) e.1 e.2 ∨ cap e.1 ≤ deg (pick cap dir E e) e.1 ∨
      cap e.2 ≤ deg (pick cap dir E e) e.2 := by
  unfold pick; split
  · exact Or.inl (linked_append_orient.mpr (Or.inr (Or.inl rfl)))
  · rename_i h
    simp only [Admits, not_and_or, Nat.not_lt] at h
    exact Or.inr h

/-! ## All offered edges -/

theorem greedy_append (es fs E : List (V × V)) :
    greedy cap dir (es ++ fs) E = greedy cap dir fs (greedy cap dir es E) := by
  induction es generalizing E with
  | nil => rfl
  | cons e es ih => exact ih _

theorem prefix_greedy : ∀ (es E : List (V × V)), E <+: greedy cap dir es E
  | [], E => List.prefix_refl E
  | e :: es, E => (prefix_pick cap dir E e).trans (prefix_greedy es _)

theorem deg_le_greedy (es E : List (V × V)) (v : V) : deg E v ≤ deg (greedy cap dir es E) v :=
  (prefix_greedy cap dir es E).sublist.countP_le

theorem linked_greedy_of (es : List (V × V)) {E : List (V × V)} {a b : V} (h : Linked E a b) :
    Linked (greedy cap dir es E) a b :=
  h.imp (fun h => (prefix_greedy cap dir es E).subset h) fun h => (prefix_greedy cap dir es E).subset h

theorem deg_greedy_le : ∀ (es E : List (V × V)), (∀ v, deg E v ≤ cap v) → ∀ v, deg (greedy cap dir es E) v ≤ cap v
  | [], _, hE => hE
  | e :: es, E, hE => deg_greedy_le es (pick cap dir E e) (deg_pick_le cap dir hE)

theorem linked_greedy {a b : V} : ∀ (es E : List (V × V)), Linked (greedy cap dir es E) a b →
    Linked E a b ∨ (a, b) ∈ es ∨ (b, a) ∈ es
  | [], _, h => Or.inl h
  | e :: es, E, h => by
    rcases linked_greedy es (pick cap dir E e) h with h | h | h
    · rcases linked_pick cap dir h with h | h | h
      · exact Or.inl h
      · exact Or.inr (Or.inl (h ▸ List.mem_cons_self ..))
      · exact Or.inr (Or.inr (h ▸ List.mem_cons_self ..))
    · exact Or.inr (Or.inl (List.mem_cons_of_mem _ h))
    · exact Or.inr (Or.inr (List.mem_cons_of_mem _ h))

/-- **Maximality.** A refused edge has a saturated end when all edges have been offered. -/
theorem greedy_maximal {e : V × V} : ∀ (es E : List (V × V)), e ∈ es →
    Linked (greedy cap dir es E) e.1 e.2 ∨ cap e.1 ≤ deg (greedy cap dir es E) e.1 ∨
      cap e.2 ≤ deg (greedy cap dir es E) e.2
  | e' :: es, E, he => by
    rcases List.mem_cons.mp he with rfl | he
    · have hgrow := deg_le_greedy cap dir es (pick cap dir E e)
      rcases pick_maximal cap dir E e with h | h | h
      · exact Or.inl (linked_greedy_of cap dir es h)
      · exact Or.inr (Or.inl (h.trans (hgrow _)))
      · exact Or.inr (Or.inr (h.trans (hgrow _)))
    · exact greedy_maximal es (pick cap dir E e') he

end

/-! ## No pair twice -/

theorem simple_greedy (cap : V → Nat) (dir : Nat → Bool) : ∀ (es E : List (V × V)), Simple E → Simple es →
    (∀ e ∈ es, ¬ Linked E e.1 e.2) → Simple (greedy cap dir es E)
  | [], _, hE, _, _ => hE
  | e :: es, E, hE, hes, hj => by
    have he := hes.1 e (List.mem_cons_self ..)
    obtain ⟨hd, hp⟩ := List.pairwise_cons.mp hes.2
    have hnew := hj e (List.mem_cons_self ..)
    refine simple_greedy cap dir es (pick cap dir E e) ?_ ⟨fun d hd => hes.1 d (List.mem_cons_of_mem _ hd), hp⟩ fun d hdm hjd => ?_
    · unfold pick; split
      · exact hE.append_orient he hnew
      · exact hE
    · -- a later pair is neither kept before nor the pair just offered
      rcases linked_pick cap dir hjd with h | h | h
      · exact hj d (List.mem_cons_of_mem _ hdm) h
      · exact (hd d hdm).1 h.symm
      · exact (hd d hdm).2 h.symm

omit [DecidableEq V] in
theorem Simple.swap_not_mem {E : List (V × V)} (hE : Simple E) {a b : V} (hm : (a, b) ∈ E) : (b, a) ∉ E := by
  intro hm'
  have : Std.Symm fun d e : V × V => d ≠ e ∧ d ≠ e.swap :=
    ⟨fun d e h => ⟨h.1.symm, fun h' => h.2 (by rw [h', Prod.swap_swap])⟩⟩
  have hne : (a, b) ≠ (b, a) := fun h => hE.1 _ hm (Prod.ext_iff.mp h).1
  exact (hE.2.forall hm hm' hne).2 rfl

theorem Simple.count_le {E : List (V × V)} (hE : Simple E) (a b : V) : E.count (a, b) + E.count (b, a) ≤ 1 := by
  have h₁ := List.nodup_iff_count_le_one.mp hE.nodup (a, b)
  have h₂ := List.nodup_iff_count_le_one.mp hE.nodup (b, a)
  by_cases hm : (a, b) ∈ E
  · rw [List.count_eq_zero_of_not_mem (hE.swap_not_mem hm)]; omega
  · rw [List.count_eq_zero_of_not_mem hm]; omega

/-! ## Handshake -/

theorem sum_deg {S : Finset V} : ∀ {E : List (V × V)}, (∀ e ∈ E, e.1 ∈ S ∧ e.2 ∈ S ∧ e.1 ≠ e.2) →
    ∑ v ∈ S, deg E v = 2 * E.length
  | [], _ => by simp
  | e :: E, h => by
    obtain ⟨h₁, h₂, hne⟩ := h e (List.mem_cons_self ..)
    have hsplit : ∀ v, deg (e :: E) v = ((if e.1 = v then 1 else 0) + if e.2 = v then 1 else 0) + deg E v := by
      intro v
      unfold deg
      rw [List.countP_cons, Nat.add_comm]
      congr 1
      by_cases ha : e.1 = v
      · have : ¬ e.2 = v := fun hb => hne (ha.trans hb.symm)
        simp [ha, this]
      · simp [ha]
    simp only [hsplit, Finset.sum_add_distrib]
    rw [sum_deg fun d hd => h d (List.mem_cons_of_mem _ hd)]
    simp [h₁, h₂]
    omega

end

/-! ## Offering a path first -/

def path (k : Nat) : List (Nat × Nat) := (List.range k).map fun i => (i, i + 1)

theorem path_succ (k : Nat) : path (k + 1) = path k ++ [(k, k + 1)] := by
  simp [path, List.range_succ]

/-- Offering the edges of a path in order under a constant cap covers all vertices but perhaps
the last one, which is missed for cap 1 and an even number of edges only. -/
theorem path_covers (c : Nat) (hc : 0 < c) (dir : Nat → Bool) : ∀ k : Nat,
    (∀ v < k, 0 < deg (greedy (fun _ => c) dir (path k) []) v) ∧
    (∀ v, k < v → deg (greedy (fun _ => c) dir (path k) []) v = 0) ∧
    deg (greedy (fun _ => c) dir (path k) []) k = if c = 1 then k % 2 else min 1 k
  | 0 => ⟨nofun, fun _ _ => rfl, by simp [path, greedy]⟩
  | k + 1 => by
    obtain ⟨hcov, hfar, hlast⟩ := path_covers c hc dir k
    rw [path_succ, greedy_append]
    generalize greedy (fun _ => c) dir (path k) [] = E at hcov hfar hlast
    simp only [greedy]
    have hnew : deg E (k + 1) = 0 := hfar _ (Nat.lt_succ_self k)
    by_cases hadm : deg E k < c
    · rw [pick_of_admits (fun _ => c) dir (e := (k, k + 1)) ⟨hadm, hnew ▸ hc⟩]
      refine ⟨fun v hv => ?_, fun v hv => ?_, ?_⟩
      · rw [deg_append, deg_orient]
        rcases Nat.lt_succ_iff_lt_or_eq.mp hv with hv | rfl
        · have := hcov v hv; omega
        · simp
      · rw [deg_append, deg_orient, hfar v (by omega), if_neg (by simp; omega)]
      · rw [deg_append, deg_orient, hnew, if_pos (Or.inr rfl)]
        split
        · rename_i h; subst h
          rw [hlast, if_pos rfl] at hadm; omega
        · omega
    · -- only a saturated end refuses the edge: cap 1, and `k` already has its edge
      rw [pick_of_not_admits (fun _ => c) dir fun h => hadm h.1]
      have hk : c = 1 ∧ k % 2 = 1 := by
        rw [hlast] at hadm
        split at hadm <;> omega
      refine ⟨fun v hv => ?_, fun v hv => hfar v (by omega), ?_⟩
      · rcases Nat.lt_succ_iff_lt_or_eq.mp hv with hv | rfl
        · exact hcov v hv
        · omega
      · rw [hnew, if_pos hk.1]; omega

end DegreeCap
