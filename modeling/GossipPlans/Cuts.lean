import Mathlib.Data.List.Pairwise

/-!
# Cutting a list at sorted positions

Consecutive positions of a sorted list of cuts bound pieces of a list. The pieces are in bounds,
and together they are the part of the list between the first and the last cut.
-/

namespace Cuts

/-- `slice::windows(2)` -/
def windows2 {α : Type} (l : List α) : List (α × α) := l.zip l.tail

@[simp] theorem windows2_singleton {α : Type} (a : α) : windows2 [a] = [] := rfl

@[simp] theorem windows2_cons_cons {α : Type} (a b : α) (l : List α) :
    windows2 (a :: b :: l) = (a, b) :: windows2 (b :: l) := rfl

def piece {α : Type} (xs : List α) (w : Nat × Nat) : List α := (xs.take w.2).drop w.1

theorem length_piece {α : Type} {xs : List α} {w : Nat × Nat} (h₂ : w.2 ≤ xs.length) :
    (piece xs w).length = w.2 - w.1 := by
  simp [piece, Nat.min_eq_left h₂]

theorem length_windows2 {α : Type} (l : List α) : (windows2 l).length = l.length - 1 := by
  simp [windows2]

theorem windows2_bounds {n : Nat} : ∀ {cuts : List Nat}, cuts.Pairwise (· ≤ ·) → (∀ c ∈ cuts, c ≤ n) →
    ∀ w ∈ windows2 cuts, w.1 ≤ w.2 ∧ w.2 ≤ n
  | [], _, _, _, hw => nomatch hw
  | [_], _, _, _, hw => nomatch hw
  | c :: d :: cuts, hs, hn, w, hw => by
    rw [windows2_cons_cons] at hw
    rcases List.mem_cons.mp hw with rfl | hw
    · exact ⟨(List.pairwise_cons.mp hs).1 d (List.mem_cons_self ..), hn d (by simp)⟩
    · exact windows2_bounds (List.pairwise_cons.mp hs).2 (fun x hx => hn x (List.mem_cons_of_mem _ hx)) w hw

/-- Between two different cuts there is something, and nothing between two equal ones. -/
theorem windows2_lt_iff : ∀ {cuts : List Nat}, cuts.Pairwise (· ≤ ·) →
    ((∀ w ∈ windows2 cuts, w.1 < w.2) ↔ cuts.Nodup)
  | [], _ => by simp [windows2]
  | [c], _ => by simp
  | c :: d :: cuts, hs => by
    obtain ⟨hc, hs'⟩ := List.pairwise_cons.mp hs
    have ih := windows2_lt_iff hs'
    have hcd := hc d (List.mem_cons_self ..)
    rw [windows2_cons_cons, List.forall_mem_cons, ih, @List.nodup_cons _ c]
    apply and_congr_left
    intro _
    constructor
    · intro hlt hm
      rcases List.mem_cons.mp hm with h | h
      · exact absurd hlt (Nat.not_lt.mpr (Nat.le_of_eq h.symm))
      · exact absurd hlt (Nat.not_lt.mpr ((List.pairwise_cons.mp hs').1 c h))
    · intro hm
      have hne : c ≠ d := fun h => hm (h ▸ List.mem_cons_self ..)
      exact Nat.lt_of_le_of_ne hcd hne

theorem piece_append {α : Type} (xs : List α) {c d e : Nat} (hcd : c ≤ d) (hde : d ≤ e) :
    piece xs (c, d) ++ piece xs (d, e) = piece xs (c, e) := by
  unfold piece
  have hd : xs.take d = (xs.take e).take d := by rw [List.take_take, Nat.min_eq_left hde]
  rw [hd, List.drop_take, ← Nat.add_sub_cancel' hcd, ← List.drop_drop, Nat.add_sub_cancel_left]
  exact List.take_append_drop _ _

theorem flatten_pieces {α : Type} (xs : List α) : ∀ (c : Nat) (cuts : List Nat),
    (c :: cuts).Pairwise (· ≤ ·) →
    ((windows2 (c :: cuts)).map (piece xs)).flatten = piece xs (c, (c :: cuts).getLast (by simp))
  | c, [], _ => by simp [piece]
  | c, d :: cuts, hs => by
    obtain ⟨hc, hs'⟩ := List.pairwise_cons.mp hs
    rw [windows2_cons_cons, List.map_cons, List.flatten_cons, flatten_pieces xs d cuts hs',
      List.getLast_cons (List.cons_ne_nil d cuts)]
    apply piece_append xs (hc d (List.mem_cons_self ..))
    rcases List.mem_cons.mp (List.getLast_mem (show d :: cuts ≠ [] by simp)) with h | h
    · exact Nat.le_of_eq h.symm
    · exact (List.pairwise_cons.mp hs').1 _ h

/-- Cuts from `0` to the length cut a list into pieces without remainder. -/
theorem flatten_pieces_all {α : Type} (xs : List α) {cuts : List Nat} (hs : cuts.Pairwise (· ≤ ·))
    (h₀ : 0 ∈ cuts) (hn : xs.length ∈ cuts) (hle : ∀ c ∈ cuts, c ≤ xs.length) :
    ((windows2 cuts).map (piece xs)).flatten = xs := by
  cases cuts with
  | nil => cases h₀
  | cons c cuts =>
    have hc : c = 0 := by
      rcases List.mem_cons.mp h₀ with h | h
      · exact h.symm
      · exact Nat.le_zero.mp ((List.pairwise_cons.mp hs).1 0 h)
    have hlast : (c :: cuts).getLast (by simp) = xs.length := by
      apply Nat.le_antisymm (hle _ (List.getLast_mem _))
      exact hs.rel_getLast hn
    rw [flatten_pieces xs c cuts hs, hlast, hc]
    simp [piece]

end Cuts
