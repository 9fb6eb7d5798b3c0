import Mathlib.Data.List.Infix
import Mathlib.Algebra.Order.Ring.Nat

/-!
# Words and what is glued to them

A word followed by arbitrary data without a separator can be told apart from another such word exactly
when neither is a prefix of the other. Decimals are prefixes of those that go on with further digits.
-/

namespace PrefixCode

/-! ## Tags and delimiters -/

section
variable {β : Type}

theorem prefix_comparable {u v s t : List β} (h : u ++ s <+: v ++ t) : u <+: v ∨ v <+: u :=
  List.prefix_or_prefix_of_prefix ((List.prefix_append u s).trans h) (List.prefix_append v t)

theorem delimited_prefix_inj {z : β} {s s' : List β} : ∀ {u v : List β}, z ∉ u → z ∉ v →
    u ++ z :: s <+: v ++ z :: s' → u = v ∧ s <+: s'
  | [], [], _, _, h => ⟨rfl, (List.cons_prefix_cons.mp h).2⟩
  | [], y :: v, _, hv, h => by
    obtain ⟨rfl, -⟩ := List.cons_prefix_cons.mp h
    exact absurd (List.mem_cons_self ..) hv
  | x :: u, [], hu, _, h => by
    obtain ⟨rfl, -⟩ := List.cons_prefix_cons.mp h
    exact absurd (List.mem_cons_self ..) hu
  | x :: u, y :: v, hu, hv, h => by
    obtain ⟨rfl, htail⟩ := List.cons_prefix_cons.mp h
    obtain ⟨rfl, hrest⟩ := delimited_prefix_inj (fun hm => hu (List.mem_cons_of_mem _ hm))
      (fun hm => hv (List.mem_cons_of_mem _ hm)) htail
    exact ⟨rfl, hrest⟩

end

/-! ## Decimals -/

theorem toDigits_inj {m n : Nat} (h : Nat.toDigits 10 m = Nat.toDigits 10 n) : m = n := by
  rw [← Nat.ofDigitChars_ten_toDigits (n := m), h, Nat.ofDigitChars_ten_toDigits]

theorem not_mem_toDigits {c : Char} (hc : c.isDigit = false) (n : Nat) : c ∉ Nat.toDigits 10 n := by
  intro hm
  rw [Nat.isDigit_of_mem_toDigits (by decide) (by decide) hm] at hc
  cases hc

/-- The decimals of `n` are those of `m` and at least one more digit. -/
def Extends (m n : Nat) : Prop := 0 < m ∧ ∃ k, 0 < k ∧ n / 10 ^ k = m

theorem extends_div_ten {n : Nat} (h : 10 ≤ n) : Extends (n / 10) n :=
  ⟨Nat.div_pos h (by decide), 1, Nat.one_pos, by rw [Nat.pow_one]⟩

theorem Extends.of_div_ten {m n : Nat} (h : Extends m (n / 10)) : Extends m n := by
  obtain ⟨hm, k, -, hk⟩ := h
  refine ⟨hm, k + 1, Nat.succ_pos k, ?_⟩
  rw [← hk, Nat.div_div_eq_div_mul, Nat.pow_succ, Nat.mul_comm]

theorem Extends.le {m n : Nat} (h : Extends m n) : 10 ≤ n := by
  obtain ⟨hm, k, hk, hdiv⟩ := h
  have hpow : 10 ^ 1 ≤ 10 ^ k := Nat.pow_le_pow_right (by decide) hk
  have hlt : ¬ n < 10 ^ k := by
    intro hlt
    rw [Nat.div_eq_of_lt hlt] at hdiv
    omega
  omega

theorem Extends.lt {m n : Nat} (h : Extends m n) : m < n := by
  have hle := h.le
  obtain ⟨-, k, hk, hdiv⟩ := h
  have hpow : 10 ^ 1 ≤ 10 ^ k := Nat.pow_le_pow_right (by decide) hk
  rw [← hdiv]
  exact Nat.div_lt_self (by omega) (by omega)

theorem extends_of_prefix_toDigits {m : Nat} : ∀ n, Nat.toDigits 10 m <+: Nat.toDigits 10 n → m = n ∨ Extends m n := by
  intro n
  induction n using Nat.strongRecOn with
  | ind n ih =>
    intro h
    by_cases hn : n < 10
    · rw [Nat.toDigits_of_lt_base hn] at h
      rcases List.prefix_cons_iff.mp h with hnil | ⟨t, ht, hnil⟩
      · exact absurd hnil Nat.toDigits_ne_nil
      · rw [List.prefix_nil] at hnil
        rw [hnil, ← Nat.toDigits_of_lt_base hn] at ht
        exact Or.inl (toDigits_inj ht)
    · have hle := Nat.le_of_not_lt hn
      rw [Nat.toDigits_of_base_le (by decide) hle] at h
      rcases List.prefix_concat_iff.mp h with heq | h
      · rw [← Nat.toDigits_of_base_le (by decide) hle] at heq
        exact Or.inl (toDigits_inj heq)
      · rcases ih (n / 10) (by omega) h with rfl | h
        · exact Or.inr (extends_div_ten hle)
        · exact Or.inr h.of_div_ten

theorem prefix_div_pow {n : Nat} : ∀ {k : Nat}, 0 < n / 10 ^ k → Nat.toDigits 10 (n / 10 ^ k) <+: Nat.toDigits 10 n
  | 0, _ => by rw [Nat.pow_zero, Nat.div_one]
  | k + 1, h => by
    have hdiv : n / 10 ^ (k + 1) = n / 10 ^ k / 10 := by rw [Nat.div_div_eq_div_mul, Nat.pow_succ]
    rw [hdiv] at h ⊢
    have hle : 10 ≤ n / 10 ^ k := by omega
    have hpos : 0 < n / 10 ^ k := by omega
    refine List.IsPrefix.trans ?_ (prefix_div_pow hpos)
    rw [Nat.toDigits_of_base_le (n := n / 10 ^ k) (by decide) hle]
    exact List.prefix_append _ _

theorem toDigits_prefix_iff {m n : Nat} : Nat.toDigits 10 m <+: Nat.toDigits 10 n ↔ m = n ∨ Extends m n := by
  constructor
  · exact extends_of_prefix_toDigits n
  · intro h
    rcases h with rfl | ⟨hm, k, -, rfl⟩
    · exact List.prefix_refl _
    · exact prefix_div_pow hm

/-! ## Numbers of fixed width -/

/-- The lowest `k` bytes of `n`, the most significant first. -/
def beBytes : Nat → Nat → List UInt8
  | 0, _ => []
  | k + 1, n => beBytes k (n / 256) ++ [UInt8.ofNat n]

theorem length_beBytes : ∀ k n, (beBytes k n).length = k
  | 0, _ => rfl
  | k + 1, n => by rw [beBytes, List.length_append, length_beBytes k]; rfl

theorem beBytes_inj : ∀ {k m n : Nat}, m < 256 ^ k → n < 256 ^ k → beBytes k m = beBytes k n → m = n
  | 0, m, n, hm, hn, _ => by
    rw [Nat.pow_zero] at hm hn
    omega
  | k + 1, m, n, hm, hn, h => by
    rw [Nat.pow_succ] at hm hn
    obtain ⟨hinit, hlast⟩ := List.append_inj' h rfl
    have hdiv := beBytes_inj (Nat.div_lt_of_lt_mul (Nat.mul_comm .. ▸ hm)) (Nat.div_lt_of_lt_mul (Nat.mul_comm .. ▸ hn)) hinit
    have hmod := congrArg UInt8.toNat (List.cons.inj hlast).1
    rw [UInt8.toNat_ofNat', UInt8.toNat_ofNat'] at hmod
    omega

/-! ## Text before bytes -/

/-- `str::as_bytes` -/
def utf8 (s : String) : List UInt8 := s.toByteArray.data.toList

theorem utf8_append (s t : String) : utf8 (s ++ t) = utf8 s ++ utf8 t := by
  simp [utf8, String.toByteArray_append]

theorem prefix_of_utf8 {s t : String} (h : utf8 s <+: utf8 t) : s.toList <+: t.toList := by
  obtain ⟨d, hd⟩ := h
  apply List.isPrefix_of_utf8Encode_append_eq_utf8Encode ⟨d.toArray⟩
  rw [String.utf8Encode_toList, String.utf8Encode_toList]
  apply ByteArray.ext
  rw [ByteArray.data_append, ← Array.toList_inj]
  simpa [utf8] using hd

/-- **Separation.** Texts glued to arbitrary bytes can be read apart if no text is a prefix of another. -/
theorem utf8_append_inj {κ : Type} (text : κ → String) {k k' : κ}
    (hfree : (text k).toList <+: (text k').toList → k = k') (hfree' : (text k').toList <+: (text k).toList → k' = k)
    {d d' : List UInt8} (h : utf8 (text k) ++ d = utf8 (text k') ++ d') : k = k' ∧ d = d' := by
  have hpre : utf8 (text k) ++ d <+: utf8 (text k') ++ d' := by rw [h]
  have hk : k = k' := by
    rcases prefix_comparable hpre with hle | hle
    · exact hfree (prefix_of_utf8 hle)
    · exact (hfree' (prefix_of_utf8 hle)).symm
  subst hk
  exact ⟨rfl, List.append_cancel_left h⟩

end PrefixCode
