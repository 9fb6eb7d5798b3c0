import GossipPlans.FragmentSound
import Mathlib.Algebra.Order.Group.Nat
import Mathlib.Tactic.Ring

/-!
# When fragments keep the transmit limit

`create_or_add_rpc!` reserves 5 % of an object for its tag and length prefix, which take at least
2 bytes: an object below 40 bytes needs more than its reserve, and so does one below 80 bytes that
brings a control message with it. And objects are compared with the limit as if they cost 2 bytes,
control objects not at all. The limit is kept when no objects in a row are let into one fragment that
is too long for them (`fragments_le_of_not_overfull`), as is always true of large objects.
-/

namespace GossipPlans

open NextFit (Fits Growing Hom Overfull Policy pack)

variable {S : Schema}

/-! ## Lengths -/

theorem varintLen_mono {m n : Nat} (h : m ≤ n) : varintLen m ≤ varintLen n := by
  have hlog : m.log2 ≤ n.log2 := by
    rcases Nat.eq_zero_or_pos m with rfl | hm
    · exact Nat.zero_le _
    · exact (Nat.le_log2 (by omega)).mpr ((Nat.log2_self_le (by omega)).trans h)
  unfold varintLen
  omega

theorem varintLen_double (n : Nat) : varintLen (2 * n) ≤ varintLen n + 1 := by
  rcases Nat.eq_zero_or_pos n with rfl | hn
  · exact Nat.le_succ _
  · unfold varintLen
    rw [Nat.log2_two_mul (by omega)]
    omega

theorem varintLen_add_le (m n : Nat) : varintLen (m + n) ≤ varintLen m + varintLen n := by
  have hone : ∀ k, 1 ≤ varintLen k := fun k => Nat.le_add_left 1 _
  rcases Nat.le_total m n with h | h
  · have := (varintLen_mono (show m + n ≤ 2 * n by omega)).trans (varintLen_double n)
    have := hone m
    omega
  · have := (varintLen_mono (show m + n ≤ 2 * m by omega)).trans (varintLen_double m)
    have := hone n
    omega

theorem varintLen_le {n k : Nat} (h : n < 2 ^ (7 * (k + 1))) : varintLen n ≤ k + 1 := by
  have hlog : n.log2 < 7 * (k + 1) := by
    rcases Nat.eq_zero_or_pos n with rfl | hn
    · exact Nat.succ_pos _
    · exact (Nat.log2_lt (by omega)).mpr h
  unfold varintLen
  omega

theorem framed_mono {m n : Nat} (h : m ≤ n) : framed m ≤ framed n := by
  have := varintLen_mono h
  unfold framed
  omega

theorem two_le_framed (n : Nat) : 2 ≤ framed n := by
  unfold framed varintLen
  omega

theorem pow_two_ge {k : Nat} (hk : 8 ≤ k) : 20 * (5 + 2 * (k / 7)) ≤ 2 ^ k := by
  induction k, hk using Nat.le_induction with
  | base => decide
  | succ k hk ih => rw [pow_succ]; omega

/-- From 80 bytes on, 5 % covers the prefixes of an object and of the message around it. -/
theorem overhead_le {n : Nat} (h : 80 ≤ n) : 2 + varintLen n + varintLen (framed n) ≤ n / 20 := by
  rcases Nat.lt_or_ge n 256 with hlt | hge
  · rcases Nat.lt_or_ge n 128 with hn | hn
    · have hv := varintLen_le (k := 0) hn
      rcases Nat.lt_or_ge n 126 with hn' | hn'
      · have := varintLen_le (n := framed n) (k := 0) (by unfold framed; omega)
        omega
      · have := varintLen_le (n := framed n) (k := 1) (by unfold framed; omega)
        omega
    · have hv := varintLen_le (n := n) (k := 1) (by omega)
      have := varintLen_le (n := framed n) (k := 1) (by unfold framed; omega)
      omega
  · have hlog : 8 ≤ n.log2 := (Nat.le_log2 (by omega)).mpr hge
    have hpow := (pow_two_ge hlog).trans (Nat.log2_self_le (by omega))
    have hdouble : varintLen (framed n) ≤ varintLen n + 1 := by
      refine (varintLen_mono ?_).trans (varintLen_double n)
      unfold framed varintLen
      omega
    unfold varintLen at hdouble ⊢
    omega

/-! ## What a fragment weighs -/

/-- The bytes of a fragment outside `control`, and those of the body of `control`. -/
structure Load where
  plain : Nat
  control : Option Nat
deriving DecidableEq, Repr

def Load.len (l : Load) : Nat := l.plain + (l.control.map framed).getD 0

inductive Part where
  | plain (size : Nat)
  | control (size : Nat)
  | whole (size : Nat)
deriving DecidableEq, Repr

def Part.size : Part → Nat
  | .plain n => n
  | .control n => n
  | .whole n => n

def Load.add (l : Load) : Part → Load
  | .plain n => { l with plain := l.plain + framed n }
  | .control n => { l with control := some (l.control.getD 0 + framed n) }
  | .whole n => { l with control := some (l.control.getD 0 + n) }

def loads : Policy Load Part where
  empty := ⟨0, none⟩
  put := Load.add
  isEmpty l := l = ⟨0, none⟩
  len := Load.len
  reserve p := withPrefix p.size

theorem loads_growing : Growing loads where
  isEmpty_iff l := decide_eq_true_iff
  len_le l p := by
    obtain ⟨n, c⟩ := l
    cases p with
    | plain s => simp only [loads, Load.len, Load.add]; omega
    | control s =>
      cases c with
      | none => simp [loads, Load.len, Load.add]
      | some c => simpa [loads, Load.len, Load.add] using framed_mono (Nat.le_add_right c _)
    | whole s =>
      cases c with
      | none => simp [loads, Load.len, Load.add]
      | some c => simpa [loads, Load.len, Load.add] using framed_mono (Nat.le_add_right c _)
  put_ne l p := by
    cases p with
    | plain n =>
      have := two_le_framed n
      simp only [loads, Load.add, ne_eq, Load.mk.injEq]
      omega
    | control n | whole n => simp [loads, Load.add]

theorem add_new_le (l : Load) (p : Part) : (Load.add ⟨0, none⟩ p).len ≤ (l.add p).len := by
  obtain ⟨n, c⟩ := l
  cases p with
  | plain s => simp only [Load.len, Load.add, Option.map_none, Option.getD_none]; omega
  | control s =>
    have := framed_mono (Nat.le_add_left (framed s) (c.getD 0))
    simp only [Load.len, Load.add, Option.map_some, Option.getD_some, Option.getD_none, Nat.zero_add]
    omega
  | whole s =>
    have := framed_mono (Nat.le_add_left s (c.getD 0))
    simp only [Load.len, Load.add, Option.map_some, Option.getD_some, Option.getD_none, Nat.zero_add]
    omega

/-- The reserve of a large part suffices. -/
theorem put_le_of_large {p : Part} (h : 80 ≤ p.size) (l : Load) : (l.add p).len ≤ l.len + withPrefix p.size := by
  have hover := overhead_le h
  obtain ⟨n, c⟩ := l
  cases p with
  | plain s =>
    simp only [Load.len, Load.add, withPrefix, Part.size, framed] at hover ⊢
    omega
  | control s =>
    have hvar := varintLen_add_le (c.getD 0) (framed s)
    cases c with
    | none =>
      simp only [Load.len, Load.add, withPrefix, Part.size, Option.map_some, Option.map_none, Option.getD_some,
        Option.getD_none, Nat.zero_add] at hover ⊢
      unfold framed at hover ⊢
      omega
    | some c =>
      simp only [Load.len, Load.add, withPrefix, Part.size, Option.map_some, Option.getD_some] at hover hvar ⊢
      unfold framed at hover hvar ⊢
      omega
  | whole s =>
    have hvar := varintLen_add_le (c.getD 0) s
    cases c with
    | none =>
      simp only [Load.len, Load.add, withPrefix, Part.size, Option.map_some, Option.map_none, Option.getD_some,
        Option.getD_none, Nat.zero_add] at hover ⊢
      unfold framed at hover ⊢
      omega
    | some c =>
      simp only [Load.len, Load.add, withPrefix, Part.size, Option.map_some, Option.getD_some] at hover hvar ⊢
      have := varintLen_mono (show s ≤ framed s from Nat.le_add_left _ _)
      unfold framed at this hover ⊢
      omega

/-! ## Fragments and their loads -/

def Rpc.load (rpc : Rpc S) : Load :=
  ⟨framedLen rpc.subscriptions + framedLen rpc.publish, rpc.control.map ControlMessage.encodedLen⟩

def Item.part : Item S → Part
  | .one .subscriptions x => .plain (S.encodedLen x)
  | .one .publish x => .plain (S.encodedLen x)
  | .one .ihave x => .control (S.encodedLen x)
  | .one .iwant x => .control (S.encodedLen x)
  | .one .graft x => .control (S.encodedLen x)
  | .one .prune x => .control (S.encodedLen x)
  | .whole c => .whole c.encodedLen

theorem framedLen_append {k : Kind} (xs ys : List (S.Body k)) : framedLen (xs ++ ys) = framedLen xs + framedLen ys := by
  simp [framedLen]

theorem framedLen_eq_zero {k : Kind} {xs : List (S.Body k)} : framedLen xs = 0 ↔ xs = [] := by
  cases xs with
  | nil => simp [framedLen]
  | cons x xs =>
    have := two_le_framed (S.encodedLen x)
    simp only [framedLen, List.map_cons, List.sum_cons, reduceCtorEq, iff_false]
    omega

theorem encodedLen_append (c d : ControlMessage S) : (c.append d).encodedLen = c.encodedLen + d.encodedLen := by
  simp only [ControlMessage.append, ControlMessage.encodedLen, framedLen_append]
  omega

theorem load_put (rpc : Rpc S) (i : Item S) : (rpc.put i).load = rpc.load.add i.part := by
  obtain ⟨subs, pub, control⟩ := rpc
  have hsingle : ∀ {k : Kind} (x : S.Body k), framedLen [x] = framed (S.encodedLen x) := fun x => by simp [framedLen]
  have hdefault : (control.getD .default).encodedLen = (control.map ControlMessage.encodedLen).getD 0 := by
    cases control <;> rfl
  cases i with
  | one k x =>
    cases k
    case subscriptions | publish =>
      simp only [Rpc.put, Rpc.push, Rpc.load, Load.add, Item.part, framedLen_append, hsingle, Load.mk.injEq, and_true]
      omega
    all_goals
      simp only [Rpc.put, Rpc.push, Rpc.load, Load.add, Item.part, Option.map_some, ← hdefault,
        ControlMessage.encodedLen, framedLen_append, hsingle, Load.mk.injEq, Option.some.injEq, true_and]
      omega
  | whole c =>
    simp only [Rpc.put, Rpc.load, Load.add, Item.part, Option.map_some, ← hdefault, encodedLen_append]

theorem loads_hom : Hom (policy S) loads Rpc.load Item.part where
  empty := rfl
  put := load_put
  isEmpty rpc := by
    obtain ⟨subs, pub, control⟩ := rpc
    have hsubs : framedLen subs = 0 ↔ subs = [] := framedLen_eq_zero
    have hpub : framedLen pub = 0 ↔ pub = [] := framedLen_eq_zero
    have : Rpc.load ⟨subs, pub, control⟩ = ⟨0, none⟩ ↔ (⟨subs, pub, control⟩ : Rpc S).isNew = true := by
      simp only [Rpc.load, Load.mk.injEq, Nat.add_eq_zero_iff, hsubs, hpub, Option.map_eq_none_iff, Rpc.isNew,
        Bool.and_eq_true, List.isEmpty_iff, Option.isNone_iff_eq_none]
    simp only [loads, policy, this, Bool.decide_eq_true]
  len rpc := by
    obtain ⟨subs, pub, control⟩ := rpc
    cases control <;> rfl
  reserve i := by
    cases i with
    | one k x => cases k <;> rfl
    | whole c => rfl

/-! ## The limit -/

def parts (maxTransmitSize : Nat) (rpc : Rpc S) : List Part := (items maxTransmitSize rpc).map Item.part

def FitsAlone (maxTransmitSize : Nat) (ps : List Part) : Prop :=
  ∀ p ∈ ps, (Load.add ⟨0, none⟩ p).len ≤ maxTransmitSize

instance (maxTransmitSize : Nat) (ps : List Part) : Decidable (FitsAlone maxTransmitSize ps) :=
  inferInstanceAs (Decidable (∀ p ∈ ps, _))

def KeepsLimit (maxTransmitSize : Nat) (rpc : Rpc S) : Prop :=
  ∀ list, fragmentMessage maxTransmitSize rpc = .ok list → ∀ f ∈ list, f.encodedLen ≤ maxTransmitSize

theorem keepsLimit_iff (maxTransmitSize : Nat) (rpc : Rpc S) : KeepsLimit maxTransmitSize rpc ↔
    rpc.encodedLen < maxTransmitSize ∨ TooLarge maxTransmitSize rpc ∨
      Fits loads maxTransmitSize ⟨0, none⟩ (parts maxTransmitSize rpc) := by
  unfold KeepsLimit
  rcases Nat.lt_or_ge rpc.encodedLen maxTransmitSize with hlt | hge
  · rw [fragmentMessage, if_pos hlt]
    refine ⟨fun _ => Or.inl hlt, fun _ list h f hf => ?_⟩
    cases h
    rw [List.mem_singleton.mp hf]
    exact hlt.le
  rw [fragmentMessage_eq maxTransmitSize hge]
  by_cases htoo : TooLarge maxTransmitSize rpc
  · rw [if_pos htoo]
    refine ⟨fun _ => Or.inr (Or.inl htoo), fun _ list h => ?_⟩
    cases h
  have hfits : (∀ f ∈ (pack (policy S) maxTransmitSize ⟨[], Rpc.new⟩ (items maxTransmitSize rpc)).toList,
      f.encodedLen ≤ maxTransmitSize) ↔ Fits loads maxTransmitSize ⟨0, none⟩ (parts maxTransmitSize rpc) := by
    refine (NextFit.le_pack_iff (policy S) maxTransmitSize _ _).trans ?_
    rw [parts, ← (loads_hom (S := S)).fits_iff maxTransmitSize _ Rpc.new]
    exact ⟨fun h => h.2, fun h => ⟨fun _ hf => absurd hf List.not_mem_nil, h⟩⟩
  rw [if_neg htoo]
  simp only [Except.ok.injEq, forall_eq', hfits, htoo, Nat.not_lt.mpr hge, false_or]

theorem fitsAlone_of_fits {maxTransmitSize : Nat} : ∀ {ps : List Part} {l : Load}, Fits loads maxTransmitSize l ps →
    FitsAlone maxTransmitSize ps
  | [], _, _ => fun _ hp => absurd hp List.not_mem_nil
  | p :: ps, l, h => by
    have hput : ∀ l' : Load, Fits loads maxTransmitSize (l'.add p) ps → FitsAlone maxTransmitSize (p :: ps) := by
      intro l' h
      unfold FitsAlone
      rw [List.forall_mem_cons]
      exact ⟨(add_new_le l' p).trans (loads_growing.len_le_of_fits _ h), fitsAlone_of_fits h⟩
    unfold Fits at h
    split at h
    · exact hput _ h.2
    · exact hput _ h

/-- **When the fragments keep the limit.** The rpc is sent as it is, or an object is refused, or nowhere in the order of
the parts there is an overfull run. None of this can be left out of parts that do not fit alone and of runs at the front;
and with large parts there are no overfull runs but such parts. -/
theorem fragments_le_of_not_overfull (maxTransmitSize : Nat) (rpc : Rpc S) :
    (rpc.encodedLen < maxTransmitSize ∨ TooLarge maxTransmitSize rpc ∨
        (∀ run, run <:+: parts maxTransmitSize rpc → ¬ Overfull loads maxTransmitSize run) →
      KeepsLimit maxTransmitSize rpc) ∧
    (KeepsLimit maxTransmitSize rpc → rpc.encodedLen < maxTransmitSize ∨ TooLarge maxTransmitSize rpc ∨
      FitsAlone maxTransmitSize (parts maxTransmitSize rpc) ∧
        ∀ run, run <+: parts maxTransmitSize rpc → ¬ Overfull loads maxTransmitSize run) ∧
    ((∀ p ∈ parts maxTransmitSize rpc, 80 ≤ p.size) → (KeepsLimit maxTransmitSize rpc ↔
      rpc.encodedLen < maxTransmitSize ∨ TooLarge maxTransmitSize rpc ∨
        FitsAlone maxTransmitSize (parts maxTransmitSize rpc))) := by
  rw [keepsLimit_iff]
  have hnone : (∀ run, run <:+: parts maxTransmitSize rpc → ¬ Overfull loads maxTransmitSize run) →
      Fits loads maxTransmitSize ⟨0, none⟩ (parts maxTransmitSize rpc) := fun h =>
    loads_growing.fits_of_not_overfull NextFit.joined_nil h
  refine ⟨fun h => h.imp_right fun h => h.imp_right hnone, fun h => h.imp_right fun h => h.imp_right fun hfits => ?_,
    fun hlarge => ⟨fun h => h.imp_right fun h => h.imp_right fitsAlone_of_fits,
      fun h => h.imp_right fun h => h.imp_right fun halone => hnone fun run hrun => ?_⟩⟩
  · refine ⟨fitsAlone_of_fits hfits, fun run hrun hover => ?_⟩
    obtain ⟨rest, hrest⟩ := hrun
    obtain ⟨hjoined, hlt⟩ := hover
    rw [← hrest] at hfits
    change Fits loads maxTransmitSize (NextFit.fill loads []) _ at hfits
    exact absurd (loads_growing.not_overfull_of_fits hfits hjoined) (Nat.not_le.mpr hlt)
  · apply NextFit.not_overfull_of_reserve (Nat.zero_le _)
    · exact fun l p hp => put_le_of_large (hlarge p (hrun.subset hp)) l
    · exact fun p hp => halone p (hrun.subset hp)

/-- Two messages of 90 bytes, which do not go into one fragment. -/
theorem fragments_le_of_not_overfull_two : ∃ list, fragmentMessage (S := Schema.encoded) 100
    ⟨[], [List.replicate 90 0, List.replicate 90 1], none⟩ = .ok list ∧ list.length = 2 ∧
      ∀ f ∈ list, f.encodedLen ≤ 100 := by
  have hlength : (fragmentMessage (S := Schema.encoded) 100 ⟨[], [List.replicate 90 0, List.replicate 90 1], none⟩).map
      List.length = .ok 2 := by decide
  obtain ⟨list, hlist, hlength⟩ := map_ok_iff.mp hlength
  obtain ⟨-, -, hlarge⟩ := fragments_le_of_not_overfull (S := Schema.encoded) 100
    ⟨[], [List.replicate 90 0, List.replicate 90 1], none⟩
  exact ⟨list, hlist, hlength, (hlarge (by decide)).mpr (by decide) list hlist⟩

/-- Seven messages of 10 bytes and one of 15: one fragment of 101 bytes. -/
theorem fragment_over_limit : ¬ ∀ list,
    fragmentMessage (S := Schema.encoded) 100 ⟨[], List.replicate 7 (List.replicate 10 0) ++ [List.replicate 15 0], none⟩ =
      .ok list → ∀ f ∈ list, f.encodedLen ≤ 100 := by
  intro h
  have hrun : ((fragmentMessage (S := Schema.encoded) 100
      ⟨[], List.replicate 7 (List.replicate 10 0) ++ [List.replicate 15 0], none⟩).map
        (fun list => list.map Rpc.encodedLen)) = .ok [101] := by decide
  rcases hlist : fragmentMessage (S := Schema.encoded) 100
      ⟨[], List.replicate 7 (List.replicate 10 0) ++ [List.replicate 15 0], none⟩ with e | list
  · rw [hlist] at hrun; cases hrun
  · rw [hlist] at hrun
    have hlen : list.map Rpc.encodedLen = [101] := Except.ok.inj hrun
    have hall : ∀ n ∈ list.map Rpc.encodedLen, n ≤ 100 := by simpa using h list hlist
    rw [hlen] at hall
    exact absurd (hall 101 (List.mem_singleton_self _)) (by decide)

end GossipPlans
