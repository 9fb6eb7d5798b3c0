import Mathlib.Algebra.Order.Ring.Nat
import Mathlib.Data.List.Chain

/-!
# Next-fit packing

Items arrive in order. An item joins the last bin, or opens a new one when the last bin is not
empty and its length plus a reserve for the item exceeds the limit. The reserve is an estimate: an
item can join although it makes the bin longer than the limit (`Overfull` says of which runs of items
this is true, if a bin begins with them).
-/

namespace NextFit

structure Policy (Bin Item : Type) where
  empty : Bin
  put : Bin → Item → Bin
  isEmpty : Bin → Bool
  len : Bin → Nat
  reserve : Item → Nat

structure Bins (Bin : Type) where
  closed : List Bin
  last : Bin

def Bins.toList {Bin : Type} (bins : Bins Bin) : List Bin := bins.closed ++ [bins.last]

section
variable {Bin Item : Type} (P : Policy Bin Item) (max : Nat)

def Opens (b : Bin) (i : Item) : Prop := max < P.len b + P.reserve i ∧ P.isEmpty b = false

instance (b : Bin) (i : Item) : Decidable (Opens P max b i) := inferInstanceAs (Decidable (_ ∧ _))

def place (bins : Bins Bin) (i : Item) : Bins Bin :=
  if Opens P max bins.last i then ⟨bins.closed ++ [bins.last], P.put P.empty i⟩
  else ⟨bins.closed, P.put bins.last i⟩

def pack : Bins Bin → List Item → Bins Bin
  | bins, [] => bins
  | bins, i :: is => pack (place P max bins i) is

theorem pack_append (is js : List Item) (bins : Bins Bin) :
    pack P max bins (is ++ js) = pack P max (pack P max bins is) js := by
  induction is generalizing bins with
  | nil => rfl
  | cons i is ih => exact ih _

/-! ## What is in the bins -/

theorem last_pack {Q : Bin → Prop} (he : Q P.empty) : ∀ (is : List Item) (bins : Bins Bin), Q bins.last →
    (∀ b, ∀ i ∈ is, Q b → Q (P.put b i)) → Q (pack P max bins is).last
  | [], _, hb, _ => hb
  | i :: is, bins, hb, hput => by
    refine last_pack he is _ ?_ fun b j hj => hput b j (List.mem_cons_of_mem _ hj)
    unfold place
    split
    · exact hput _ i (List.mem_cons_self ..) he
    · exact hput _ i (List.mem_cons_self ..) hb

theorem mem_pack {Q : Bin → Prop} (hput : ∀ b i, Q (P.put b i)) : ∀ (is : List Item) (bins : Bins Bin),
    (∀ b ∈ bins.closed, Q b) → (P.isEmpty bins.last = false → Q bins.last) → is ≠ [] ∨ Q bins.last →
    ∀ b ∈ (pack P max bins is).toList, Q b
  | [], bins, hc, _, hl, b, hb => by
    rcases List.mem_append.mp hb with hb | hb
    · exact hc b hb
    · rw [List.mem_singleton.mp hb]; exact hl.resolve_left fun h => h rfl
  | i :: is, bins, hc, hl, _, b, hb => by
    have hlast : Q (place P max bins i).last := by
      unfold place; split <;> exact hput _ _
    refine mem_pack hput is (place P max bins i) (fun b hb => ?_) (fun _ => hlast) (Or.inr hlast) b hb
    unfold place at hb
    split at hb
    · rename_i hopens
      rcases List.mem_append.mp hb with hb | hb
      · exact hc b hb
      · rw [List.mem_singleton.mp hb]; exact hl hopens.2
    · exact hc b hb

/-- **Nothing is lost, duplicated or reordered**, by induction on the items still to be placed. -/
theorem flatMap_pack {α : Type} {f : Bin → List α} {g : Item → List α} (he : f P.empty = [])
    (hput : ∀ b i, f (P.put b i) = f b ++ g i) : ∀ (is : List Item) (bins : Bins Bin),
    (pack P max bins is).toList.flatMap f = bins.toList.flatMap f ++ is.flatMap g
  | [], bins => by simp [pack]
  | i :: is, bins => by
    have hplace : (place P max bins i).toList.flatMap f = bins.toList.flatMap f ++ g i := by
      unfold place
      split <;> simp [Bins.toList, hput, he]
    rw [pack, flatMap_pack he hput is, hplace, List.flatMap_cons, List.append_assoc]

/-! ## The limit -/

def Fits : Bin → List Item → Prop
  | b, [] => P.len b ≤ max
  | b, i :: is => if Opens P max b i then P.len b ≤ max ∧ Fits (P.put P.empty i) is else Fits (P.put b i) is

theorem le_pack_iff : ∀ (is : List Item) (bins : Bins Bin),
    (∀ b ∈ (pack P max bins is).toList, P.len b ≤ max) ↔
      (∀ b ∈ bins.closed, P.len b ≤ max) ∧ Fits P max bins.last is
  | [], bins => by simp [pack, Fits, Bins.toList, or_imp, forall_and]
  | i :: is, bins => by
    rw [pack, le_pack_iff is, place, Fits]
    split <;> simp [or_imp, forall_and, and_assoc]

structure Growing : Prop where
  isEmpty_iff : ∀ b, P.isEmpty b = true ↔ b = P.empty
  len_le : ∀ b i, P.len b ≤ P.len (P.put b i)
  put_ne : ∀ b i, P.put b i ≠ P.empty

variable {P}

theorem Growing.len_le_of_fits (hP : Growing P) : ∀ {is : List Item} {b : Bin}, Fits P max b is → P.len b ≤ max
  | [], _, h => h
  | i :: is, b, h => by
    unfold Fits at h
    split at h
    · exact h.1
    · exact Nat.le_trans (hP.len_le b i) (hP.len_le_of_fits h)

/-! ## Runs of items that are too long together -/

variable (P)

def fill (is : List Item) : Bin := is.foldl P.put P.empty

theorem fill_concat (is : List Item) (i : Item) : fill P (is ++ [i]) = P.put (fill P is) i := by
  rw [fill, List.foldl_append]
  rfl

variable {P} in
theorem Growing.eq_nil_of_isEmpty_fill (hP : Growing P) {is : List Item} (h : P.isEmpty (fill P is) = true) : is = [] := by
  rcases List.eq_nil_or_concat is with rfl | ⟨is, i, rfl⟩
  · rfl
  · rw [List.concat_eq_append, fill_concat, hP.isEmpty_iff] at h
    exact absurd h (hP.put_ne _ i)

/-- Each item but the first joins those before it. -/
def Joined (run : List Item) : Prop :=
  ∀ pre i suf, run = pre ++ i :: suf → pre ≠ [] → P.len (fill P pre) + P.reserve i ≤ max

def Overfull (run : List Item) : Prop := Joined P max run ∧ max < P.len (fill P run)

variable {P max}

theorem joined_nil : Joined P max [] := by
  intro pre i suf h
  simp at h

theorem joined_singleton (i : Item) : Joined P max [i] := by
  intro pre j suf h hne
  cases pre with
  | nil => exact absurd rfl hne
  | cons k pre => simp at h

theorem Joined.concat {run : List Item} {i : Item} (h : Joined P max run)
    (hi : run ≠ [] → P.len (fill P run) + P.reserve i ≤ max) : Joined P max (run ++ [i]) := by
  intro pre j suf hrun hne
  rcases List.eq_nil_or_concat suf with rfl | ⟨suf, k, rfl⟩
  · obtain ⟨rfl, heq⟩ := List.append_inj' hrun rfl
    cases heq
    exact hi hne
  · rw [List.concat_eq_append, ← List.cons_append, ← List.append_assoc] at hrun
    exact h pre j suf (List.append_inj' hrun rfl).1 hne

/-- Where no run of consecutive items is overfull the limit is kept. The items of the last bin are a run, and so are
these and those still to be placed. -/
theorem Growing.fits_of_not_overfull (hP : Growing P) : ∀ {is run : List Item}, Joined P max run →
    (∀ run', run' <:+: run ++ is → ¬ Overfull P max run') → Fits P max (fill P run) is
  | [], run, hjoined, hnone => by
    rw [List.append_nil] at hnone
    exact Nat.le_of_not_lt fun hlt => hnone run (List.infix_refl run) ⟨hjoined, hlt⟩
  | i :: is, run, hjoined, hnone => by
    unfold Fits
    split
    · constructor
      · exact Nat.le_of_not_lt fun hlt => hnone run (List.prefix_append run _).isInfix ⟨hjoined, hlt⟩
      · apply hP.fits_of_not_overfull (joined_singleton i)
        exact fun run' hrun' => hnone run' (hrun'.trans (List.suffix_append run _).isInfix)
    · rename_i hopens
      rw [← fill_concat]
      refine hP.fits_of_not_overfull (hjoined.concat fun hne => ?_) ?_
      · refine Nat.le_of_not_lt fun hlt => hopens ⟨hlt, ?_⟩
        exact Bool.eq_false_iff.mpr fun he => hne (hP.eq_nil_of_isEmpty_fill he)
      · rwa [List.append_cons] at hnone

/-- A bin that the limit is kept in does not begin with an overfull run. -/
theorem Growing.not_overfull_of_fits (hP : Growing P) : ∀ {more run is : List Item},
    Fits P max (fill P run) (more ++ is) → Joined P max (run ++ more) → P.len (fill P (run ++ more)) ≤ max
  | [], run, is, h, _ => by
    rw [List.append_nil]
    exact hP.len_le_of_fits max h
  | i :: more, run, is, h, hjoined => by
    rw [List.cons_append] at h
    unfold Fits at h
    rw [if_neg, ← fill_concat] at h
    · rw [List.append_cons] at hjoined ⊢
      exact hP.not_overfull_of_fits h hjoined
    · intro hopens
      obtain ⟨hlt, he⟩ := hopens
      by_cases hrun : run = []
      · subst hrun
        exact absurd ((hP.isEmpty_iff (fill P [])).mpr rfl) (by rw [he]; exact Bool.false_ne_true)
      · exact absurd (hjoined run i more rfl hrun) (Nat.not_le.mpr hlt)

/-- Where the reserve suffices, the overfull runs are the items that do not fit alone. -/
theorem not_overfull_of_reserve {run : List Item} (hempty : P.len P.empty ≤ max)
    (h : ∀ b, ∀ i ∈ run, P.len (P.put b i) ≤ P.len b + P.reserve i) (halone : ∀ i ∈ run, P.len (P.put P.empty i) ≤ max) :
    ¬ Overfull P max run := by
  rintro ⟨hjoined, hlt⟩
  rcases List.eq_nil_or_concat run with rfl | ⟨pre, i, rfl⟩
  · exact absurd hempty (Nat.not_le.mpr hlt)
  rw [List.concat_eq_append] at *
  have hi : i ∈ pre ++ [i] := by simp
  rw [fill_concat] at hlt
  by_cases hpre : pre = []
  · subst hpre
    exact absurd (halone i hi) (Nat.not_le.mpr hlt)
  · have hle := (h (fill P pre) i hi).trans (hjoined pre i [] rfl hpre)
    exact absurd hle (Nat.not_le.mpr hlt)

end

/-! ## The limit, with a slack -/

section
variable {Bin Item : Type} {P : Policy Bin Item} {max slack : Nat} {all : List Item}

/-- Where the reserve falls short of no item by more than the slack, the limit is missed by no more than that. -/
theorem le_pack_of_slack (hempty : P.isEmpty P.empty = true)
    (hput : ∀ b, ∀ i ∈ all, P.len (P.put b i) ≤ P.len b + P.reserve i + slack)
    (halone : ∀ b, ∀ i ∈ all, P.isEmpty b = true → P.len (P.put b i) ≤ max + slack) :
    ∀ (is : List Item) (bins : Bins Bin), is ⊆ all → (∀ b ∈ bins.toList, P.len b ≤ max + slack) →
      ∀ b ∈ (pack P max bins is).toList, P.len b ≤ max + slack
  | [], _, _, hbins => hbins
  | i :: is, bins, hall, hbins => by
    obtain ⟨hi, his⟩ := List.cons_subset.mp hall
    refine le_pack_of_slack hempty hput halone is _ his fun b hb => ?_
    unfold place at hb
    split at hb
    · rcases List.mem_append.mp hb with hb | hb
      · exact hbins b hb
      · rw [List.mem_singleton.mp hb]
        exact halone _ i hi hempty
    · rename_i hopens
      rcases List.mem_append.mp hb with hb | hb
      · exact hbins b (List.mem_append_left _ hb)
      · rw [List.mem_singleton.mp hb]
        cases he : P.isEmpty bins.last
        · refine Nat.le_trans (hput _ i hi) (Nat.add_le_add_right ?_ _)
          exact Nat.le_of_not_lt fun hlt => hopens ⟨hlt, he⟩
        · exact halone _ i hi he

/-! ## How many bins -/

/-- The first item of a bin has not been put into the one before it. -/
def Follows (P : Policy Bin Item) (max : Nat) (all : List Item) (b b' : Bin) : Prop :=
  ∃ i ∈ all, max < P.len b + P.reserve i ∧ P.len (P.put P.empty i) ≤ P.len b'

theorem isChain_pack (hlen : ∀ b i, P.len b ≤ P.len (P.put b i)) : ∀ (is : List Item) (bins : Bins Bin), is ⊆ all →
    bins.toList.IsChain (Follows P max all) → (pack P max bins is).toList.IsChain (Follows P max all)
  | [], _, _, hbins => hbins
  | i :: is, bins, hall, hbins => by
    obtain ⟨hi, his⟩ := List.cons_subset.mp hall
    refine isChain_pack hlen is _ his ?_
    unfold place
    split
    · rename_i hopens
      refine hbins.append (.singleton _) fun b hb b' hb' => ?_
      rw [Bins.toList, List.getLast?_append, List.getLast?_singleton, Option.some_or, Option.mem_some_iff] at hb
      rw [List.head?_cons, Option.mem_some_iff] at hb'
      subst hb hb'
      exact ⟨i, hi, hopens.1, Nat.le_refl _⟩
    · obtain ⟨hclosed, -, hlast⟩ := List.isChain_append.mp hbins
      refine hclosed.append (.singleton _) fun b hb b' hb' => ?_
      rw [List.head?_cons, Option.mem_some_iff] at hb'
      subst hb'
      obtain ⟨j, hj, hlt, hle⟩ := hlast b hb bins.last rfl
      exact ⟨j, hj, hlt, Nat.le_trans hle (hlen _ i)⟩

/-- Bins that fill the limit with their neighbours are not many. -/
theorem length_le_of_isChain {f : Bin → Nat} {m x y : Nat} : ∀ {b : Bin} {bins : List Bin},
    (b :: bins).IsChain (fun b b' => m ≤ x * f b + y * f b') →
      m * bins.length + y * f b ≤ (x + y) * ((b :: bins).map f).sum
  | b, [], _ => by
    simp only [List.length_nil, Nat.mul_zero, Nat.zero_add, List.map_cons, List.map_nil, List.sum_cons, List.sum_nil,
      Nat.add_zero, Nat.add_mul]
    exact Nat.le_add_left _ _
  | b, b' :: bins, h => by
    obtain ⟨hb, hbins⟩ := List.isChain_cons_cons.mp h
    have ih := length_le_of_isChain hbins
    rw [List.map_cons, List.sum_cons, List.length_cons, Nat.mul_add, Nat.mul_add, Nat.add_mul]
    omega

end

/-! ## Packing seen through a measure -/

section
variable {Bin Item Bin' Item' : Type} {P : Policy Bin Item} {P' : Policy Bin' Item'}

/-- A map of bins and items that preserves all a packing step looks at. -/
structure Hom (P : Policy Bin Item) (P' : Policy Bin' Item') (f : Bin → Bin') (g : Item → Item') : Prop where
  empty : f P.empty = P'.empty
  put : ∀ b i, f (P.put b i) = P'.put (f b) (g i)
  isEmpty : ∀ b, P'.isEmpty (f b) = P.isEmpty b
  len : ∀ b, P'.len (f b) = P.len b
  reserve : ∀ i, P'.reserve (g i) = P.reserve i

theorem Hom.opens_iff {f : Bin → Bin'} {g : Item → Item'} (h : Hom P P' f g) (max : Nat) (b : Bin) (i : Item) :
    Opens P' max (f b) (g i) ↔ Opens P max b i := by
  simp only [Opens, h.len, h.reserve, h.isEmpty]

theorem Hom.fits_iff {f : Bin → Bin'} {g : Item → Item'} (h : Hom P P' f g) (max : Nat) : ∀ (is : List Item) (b : Bin),
    Fits P' max (f b) (is.map g) ↔ Fits P max b is
  | [], b => by simp only [List.map_nil, Fits, h.len]
  | i :: is, b => by
    simp only [List.map_cons, Fits, h.opens_iff, h.len, ← h.put, ← h.empty, h.fits_iff max is]

end

end NextFit
