import Mathlib.Algebra.Order.Ring.Nat
import Mathlib.Data.Finset.Card
import Mathlib.Data.List.Pairwise
import Mathlib.Data.List.Sort

/-! # Ordered maps: entries in order, collecting from a sorted list -/

namespace OrderedMap

section
variable {κ β : Type} [Ord κ] [Std.TransOrd κ]

/-- `BTreeMap::values` -/
def values (m : Std.TreeMap κ β) : List β := m.toList.map Prod.snd

theorem size_insert_of_none {m : Std.TreeMap κ β} {k : κ} (v : β) (h : m[k]? = none) :
    (m.insert k v).size = m.size + 1 := by
  rw [Std.TreeMap.size_insert, if_neg]
  rw [Std.TreeMap.contains_eq_isSome_getElem?, h]
  exact Bool.false_ne_true

variable [Std.LawfulEqOrd κ] [DecidableEq κ]

theorem getElem?_insert (m : Std.TreeMap κ β) (k k' : κ) (v : β) :
    (m.insert k v)[k']? = if k = k' then some v else m[k']? := by
  rw [Std.TreeMap.getElem?_insert]
  simp only [Std.LawfulEqCmp.compare_eq_iff_eq]

theorem getElem?_modify (m : Std.TreeMap κ β) (k k' : κ) (f : β → β) :
    (m.modify k f)[k']? = if k = k' then m[k]?.map f else m[k']? := by
  rw [Std.TreeMap.getElem?_modify]
  simp only [Std.LawfulEqCmp.compare_eq_iff_eq]

theorem getElem?_alter (m : Std.TreeMap κ β) (k k' : κ) (f : Option β → Option β) :
    (m.alter k f)[k']? = if k = k' then f m[k]? else m[k']? := by
  rw [Std.TreeMap.getElem?_alter]
  simp only [Std.LawfulEqCmp.compare_eq_iff_eq]

theorem toList_ofList {l : List (κ × β)} (hl : l.Pairwise fun a b => compare a.1 b.1 = .lt) :
    (Std.TreeMap.ofList l).toList = l := by
  have : Std.Antisymm fun a b : κ × β => compare a.1 b.1 = Ordering.lt :=
    ⟨fun a b h h' => absurd (Std.OrientedCmp.gt_of_lt h) (by rw [h']; nofun)⟩
  have : Std.Irrefl fun a b : κ × β => compare a.1 b.1 = Ordering.lt :=
    ⟨fun a h => by rw [Std.ReflOrd.compare_self] at h; cases h⟩
  have hd : l.Pairwise fun a b => ¬ compare a.1 b.1 = .eq := hl.imp fun h h' => by rw [h] at h'; nomatch h'
  refine Std.TreeMap.ordered_keys_toList.eq_of_mem_iff hl fun ⟨k, v⟩ => ?_
  rw [Std.TreeMap.mem_toList_iff_getElem?_eq_some]
  constructor
  · intro h
    by_cases hk : (l.map Prod.fst).contains k
    · obtain ⟨⟨k', v'⟩, hm, rfl⟩ := List.mem_map.mp (List.contains_iff_mem.mp hk)
      rw [Std.TreeMap.getElem?_ofList_of_mem (by simp) hd hm] at h
      exact Option.some.inj h ▸ hm
    · rw [Std.TreeMap.getElem?_ofList_of_contains_eq_false (Bool.eq_false_iff.mpr hk)] at h
      cases h
  · exact Std.TreeMap.getElem?_ofList_of_mem (by simp) hd

theorem getElem?_ofList {l : List (κ × β)} (hl : (l.map Prod.fst).Nodup) {k : κ} {v : β} :
    (Std.TreeMap.ofList l)[k]? = some v ↔ (k, v) ∈ l := by
  have hd : l.Pairwise fun a b => ¬ compare a.1 b.1 = .eq := by
    rw [List.Nodup, List.pairwise_map] at hl
    exact hl.imp fun hne => by simpa using hne
  constructor
  · intro h
    by_cases hk : (l.map Prod.fst).contains k
    · obtain ⟨⟨k', v'⟩, hm, rfl⟩ := List.mem_map.mp (List.contains_iff_mem.mp hk)
      rw [Std.TreeMap.getElem?_ofList_of_mem (by simp) hd hm] at h
      exact Option.some.inj h ▸ hm
    · rw [Std.TreeMap.getElem?_ofList_of_contains_eq_false (Bool.eq_false_iff.mpr hk)] at h
      cases h
  · exact Std.TreeMap.getElem?_ofList_of_mem (by simp) hd

/-- Inserting entries one by one: the last entry of a key is the one that stays. -/
theorem getElem?_foldl_insert : ∀ {l : List (κ × β)} (m : Std.TreeMap κ β) {k : κ} {v : β}, (l.map Prod.fst).Nodup →
    ((l.foldl (fun m p => m.insert p.1 p.2) m)[k]? = some v ↔ (k, v) ∈ l ∨ k ∉ l.map Prod.fst ∧ m[k]? = some v)
  | [], m, k, v, _ => by simp
  | p :: l, m, k, v, hl => by
    obtain ⟨hp, hl⟩ := List.nodup_cons.mp hl
    rw [List.foldl_cons, getElem?_foldl_insert _ hl, getElem?_insert]
    by_cases hk : p.1 = k
    · subst hk
      have hv : (p.1, v) ∉ l := fun hm => hp (List.mem_map.mpr ⟨_, hm, rfl⟩)
      simp [hp, hv, Prod.ext_iff, eq_comm]
    · have hpk : (k, v) ≠ p := fun e => hk (e ▸ rfl)
      simp [hk, Ne.symm hk, hpk]

/-! ## Maps into sets -/

theorem card_foldr_union_le {α : Type} [DecidableEq α] : ∀ l : List (Finset α),
    (l.foldr (· ∪ ·) ∅).card ≤ (l.map Finset.card).sum
  | [] => by simp
  | s :: l => by
    have ih := card_foldr_union_le l
    have hunion := Finset.card_union_le s (l.foldr (· ∪ ·) ∅)
    simp only [List.foldr_cons, List.map_cons, List.sum_cons]
    omega

theorem mem_foldr_union {α : Type} [DecidableEq α] {x : α} {l : List (Finset α)} :
    x ∈ l.foldr (· ∪ ·) ∅ ↔ ∃ s ∈ l, x ∈ s := by
  induction l with
  | nil => simp
  | cons s l ih => simp [ih]

/-- A union has as many elements as its parts together when no two parts meet. -/
theorem card_foldr_union_eq_iff {α : Type} [DecidableEq α] : ∀ {l : List (Finset α)},
    (l.foldr (· ∪ ·) ∅).card = (l.map Finset.card).sum ↔ l.Pairwise Disjoint
  | [] => by simp
  | s :: l => by
    have ih := card_foldr_union_eq_iff (l := l)
    have hle := card_foldr_union_le l
    have hcard := Finset.card_union_add_card_inter s (l.foldr (· ∪ ·) ∅)
    have hmeet : (s ∩ l.foldr (· ∪ ·) ∅).card = 0 ↔ ∀ t ∈ l, Disjoint s t := by
      rw [Finset.card_eq_zero, ← Finset.disjoint_iff_inter_eq_empty]
      simp only [Finset.disjoint_left, mem_foldr_union]
      constructor
      · intro h t ht x hx hxt
        exact h hx ⟨t, ht, hxt⟩
      · intro h x hx hxt
        obtain ⟨t, ht, hxt⟩ := hxt
        exact h t ht hx hxt
    rw [List.pairwise_cons, ← ih, ← hmeet]
    simp only [List.foldr_cons, List.map_cons, List.sum_cons]
    omega

omit [DecidableEq κ] in
theorem pairwise_disjoint_values {α : Type} {m : Std.TreeMap κ (Finset α)} : (values m).Pairwise Disjoint ↔
    ∀ (i j : κ) (s t : Finset α) (x : α), m[i]? = some s → m[j]? = some t → x ∈ s → x ∈ t → i = j := by
  have : Std.Symm fun a b : κ × Finset α => Disjoint a.2 b.2 := ⟨fun _ _ h => h.symm⟩
  rw [values, List.pairwise_map]
  constructor
  · intro h i j s t x hi hj hs ht
    by_contra hij
    have hi := Std.TreeMap.mem_toList_iff_getElem?_eq_some.mpr hi
    have hj := Std.TreeMap.mem_toList_iff_getElem?_eq_some.mpr hj
    have hdis := h.forall hi hj fun heq => hij (Prod.mk.inj heq).1
    exact Finset.disjoint_left.mp hdis hs ht
  · intro h
    refine Std.TreeMap.distinct_keys_toList.imp_of_mem fun {a b} ha hb hne => ?_
    rw [Finset.disjoint_left]
    intro x hx hx'
    have hab := h a.1 b.1 a.2 b.2 x (Std.TreeMap.mem_toList_iff_getElem?_eq_some.mp ha)
      (Std.TreeMap.mem_toList_iff_getElem?_eq_some.mp hb) hx hx'
    exact hne (Std.LawfulEqCmp.compare_eq_iff_eq.mpr hab)

/-! ## Tables of what was seen -/

/-- The table has an entry for the keys with a value, and the entry is the summary `g` of the key's values. -/
def Tally {ν : Type} (g : List ν → β) (table : Std.TreeMap κ β) (values : κ → List ν) : Prop :=
  ∀ k, table[k]? = if values k = [] then none else some (g (values k))

omit [Std.LawfulEqOrd κ] [DecidableEq κ] in
theorem Tally.empty {ν : Type} (g : List ν → β) : Tally g (∅ : Std.TreeMap κ β) fun _ => [] := by
  intro k
  simp

/-- `entry(k).or_default()`, and `x` added to it. -/
theorem Tally.alter {ν : Type} {g : List ν → β} {table : Std.TreeMap κ β} {values values' : κ → List ν}
    {push : ν → β → β} (h : Tally g table values) (hg : ∀ x l, push x (g l) = g (l ++ [x])) (k : κ) (x : ν)
    (hv : ∀ k', values' k' = values k' ++ if k = k' then [x] else []) :
    Tally g (table.alter k fun o => some (push x (o.getD (g [])))) values' := by
  intro k'
  rw [getElem?_alter]
  by_cases hk : k = k'
  · subst hk
    have hne : values' k ≠ [] := by simp [hv]
    rw [if_pos rfl, if_neg hne, h k, hv, if_pos rfl]
    split
    · rename_i hnil
      simp [hnil, hg]
    · simp [hg]
  · rw [if_neg hk, h k', hv, if_neg hk, List.append_nil]

omit [DecidableEq κ] in
theorem Tally.counts_eq {ν : Type} {g : List ν → β} {t t' : Std.TreeMap κ β} {v v' : κ → List ν} (h : Tally g t v)
    (h' : Tally g t' v') (count : β → Nat) (hcount : ∀ {l l' : List ν}, l.Perm l' → count (g l) = count (g l'))
    (hv : ∀ k, (v k).Perm (v' k)) :
    (t.toList.map fun p => (p.1, count p.2)) = t'.toList.map fun p => (p.1, count p.2) := by
  have hmap : (t.map fun _ => count).Equiv (t'.map fun _ => count) := by
    apply Std.TreeMap.Equiv.of_forall_constGet?_eq
    intro k
    have hnil : v k = [] ↔ v' k = [] := ⟨fun e => List.nil_perm.mp (e ▸ hv k), fun e => List.perm_nil.mp (e ▸ hv k)⟩
    rw [Std.TreeMap.getElem?_map, Std.TreeMap.getElem?_map, h k, h' k]
    by_cases hk : v k = []
    · rw [if_pos hk, if_pos (hnil.mp hk)]
    · rw [if_neg hk, if_neg fun e => hk (hnil.mpr e), Option.map_some, Option.map_some, hcount (hv k)]
  have hlist := hmap.toList_eq
  rwa [Std.TreeMap.toList_map, Std.TreeMap.toList_map] at hlist

end

end OrderedMap
