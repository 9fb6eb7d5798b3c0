import GossipPlans.FragmentLimit

/-!
# How many fragments, and how long

The reserve for an object falls short of what it takes by 4 bytes at most, so a fragment that misses the limit misses
it by no more (`fragments_le_add_four`). And a fragment is closed only when the next object does not go into it, so
neighbours are not both short (`fragments_fill_the_limit`).
-/

namespace GossipPlans

open NextFit (Follows pack)

variable {S : Schema}

/-! ## What the reserve misses -/

/-- 5 % of an object make up for its tag and prefix and those of the message around it, up to 4 bytes. -/
theorem overhead_le_add_four (n : Nat) : 2 + varintLen n + varintLen (framed n) ≤ n / 20 + 4 := by
  rcases Nat.lt_or_ge n 80 with hlt | hge
  · have hv := varintLen_le (n := n) (k := 0) (by omega)
    have hf := varintLen_le (n := framed n) (k := 0) (by unfold framed; omega)
    omega
  · exact (overhead_le hge).trans (Nat.le_add_right _ 4)

theorem add_le_reserve (l : Load) (p : Part) : (l.add p).len ≤ l.len + withPrefix p.size + 4 := by
  have hover := overhead_le_add_four p.size
  have hframed : varintLen p.size ≤ varintLen (framed p.size) := varintLen_mono (Nat.le_add_left _ _)
  obtain ⟨n, c⟩ := l
  cases p with
  | plain s =>
    simp only [Load.len, Load.add, withPrefix, Part.size, framed] at hover hframed ⊢
    omega
  | control s =>
    have hvar := varintLen_add_le (c.getD 0) (framed s)
    cases c with
    | none | some c =>
      simp only [Load.len, Load.add, withPrefix, Part.size, Option.map_some, Option.map_none, Option.getD_some,
        Option.getD_none, Nat.zero_add] at hover hframed hvar ⊢
      unfold framed at hover hframed hvar ⊢
      omega
  | whole s =>
    have hvar := varintLen_add_le (c.getD 0) s
    cases c with
    | none | some c =>
      simp only [Load.len, Load.add, withPrefix, Part.size, Option.map_some, Option.map_none, Option.getD_some,
        Option.getD_none, Nat.zero_add] at hover hframed hvar ⊢
      unfold framed at hover hframed ⊢
      omega

theorem size_le_alone (p : Part) : p.size ≤ (Load.add ⟨0, none⟩ p).len := by
  have hframed : ∀ n, n ≤ framed n := fun n => Nat.le_add_left _ _
  cases p with
  | plain s => simpa [Load.add, Load.len, Part.size] using hframed s
  | control s => simpa [Load.add, Load.len, Part.size] using (hframed s).trans (hframed _)
  | whole s => simpa [Load.add, Load.len, Part.size] using hframed s

/-! ## Both bounds for fragments -/

theorem len_eq (rpc : Rpc S) : rpc.encodedLen = rpc.load.len := (loads_hom.len rpc).symm

theorem reserve_eq (i : Item S) : (policy S).reserve i = withPrefix i.part.size := (loads_hom.reserve i).symm

theorem put_le_reserve (rpc : Rpc S) (i : Item S) :
    (rpc.put i).encodedLen ≤ rpc.encodedLen + (policy S).reserve i + 4 := by
  rw [len_eq, len_eq, reserve_eq, load_put]
  exact add_le_reserve rpc.load i.part

theorem le_put (rpc : Rpc S) (i : Item S) : rpc.encodedLen ≤ (rpc.put i).encodedLen := by
  rw [len_eq, len_eq, load_put]
  exact loads_growing.len_le rpc.load i.part

theorem load_of_isNew {rpc : Rpc S} (h : rpc.isNew = true) : rpc.load = ⟨0, none⟩ :=
  (loads_growing.isEmpty_iff _).mp ((loads_hom.isEmpty rpc).trans h)

theorem size_le_put_new (i : Item S) : i.part.size ≤ (Rpc.new.put i).encodedLen := by
  rw [len_eq, load_put]
  exact size_le_alone i.part

variable {maxTransmitSize : Nat} {rpc : Rpc S} {list : List (Rpc S)}

theorem list_of_ok (h : fragmentMessage maxTransmitSize rpc = .ok list) :
    rpc.encodedLen < maxTransmitSize ∧ list = [rpc] ∨
      list = (pack (policy S) maxTransmitSize ⟨[], Rpc.new⟩ (items maxTransmitSize rpc)).toList := by
  rcases Nat.lt_or_ge rpc.encodedLen maxTransmitSize with hlt | hge
  · rw [fragmentMessage, if_pos hlt] at h
    cases h
    exact Or.inl ⟨hlt, rfl⟩
  · rw [fragmentMessage_eq maxTransmitSize hge] at h
    split at h
    · cases h
    · cases h
      exact Or.inr rfl

/-- **By how much the limit is missed.** -/
theorem fragments_le_add_four (h : fragmentMessage maxTransmitSize rpc = .ok list)
    (halone : FitsAlone maxTransmitSize (parts maxTransmitSize rpc)) : ∀ f ∈ list, f.encodedLen ≤ maxTransmitSize + 4 := by
  rcases list_of_ok h with ⟨hlt, rfl⟩ | rfl
  · intro f hf
    rw [List.mem_singleton.mp hf]
    omega
  refine NextFit.le_pack_of_slack (P := policy S) rfl (fun b i _ => put_le_reserve b i) (fun b i hi hb => ?_)
    (items maxTransmitSize rpc) _ (List.Subset.refl _) fun b hb => ?_
  · show (b.put i).encodedLen ≤ _
    rw [len_eq, load_put, load_of_isNew hb]
    exact (halone i.part (List.mem_map_of_mem hi)).trans (Nat.le_add_right _ 4)
  · rw [List.mem_singleton.mp hb]
    exact Nat.zero_le _

/-- A message of 79 bytes, to which 19 bytes of control are added: 104 bytes. -/
theorem fragments_le_add_four_attained : ∃ list, fragmentMessage (S := Schema.encoded) 100
    ⟨[], [List.replicate 79 0], some ⟨[List.replicate 19 0, List.replicate 90 0], [], [], []⟩⟩ = .ok list ∧
      list.map Rpc.encodedLen = [104, 94] ∧ ∀ f ∈ list, f.encodedLen ≤ 100 + 4 := by
  have hlens : (fragmentMessage (S := Schema.encoded) 100 ⟨[], [List.replicate 79 0],
      some ⟨[List.replicate 19 0, List.replicate 90 0], [], [], []⟩⟩).map (List.map Rpc.encodedLen) = .ok [104, 94] := by
    decide
  obtain ⟨list, hlist, hlens⟩ := map_ok_iff.mp hlens
  exact ⟨list, hlist, hlens, fragments_le_add_four hlist (by decide)⟩

/-- **No more fragments than that.** Two neighbours together reach the limit, up to 5 % of the second. -/
theorem fragments_fill_the_limit (h : fragmentMessage maxTransmitSize rpc = .ok list) :
    list.IsChain (fun f f' => 20 * (maxTransmitSize + 1) ≤ 20 * f.encodedLen + 21 * f'.encodedLen) ∧
      20 * (maxTransmitSize + 1) * (list.length - 1) ≤ 41 * (list.map Rpc.encodedLen).sum := by
  have hchain : list.IsChain fun f f' => 20 * (maxTransmitSize + 1) ≤ 20 * f.encodedLen + 21 * f'.encodedLen := by
    rcases list_of_ok h with ⟨-, rfl⟩ | rfl
    · exact .singleton _
    refine (NextFit.isChain_pack (P := policy S) le_put (items maxTransmitSize rpc) ⟨[], Rpc.new⟩ (List.Subset.refl _)
      (.singleton _)).imp fun f f' hfollows => ?_
    obtain ⟨i, -, hlt, hle⟩ := hfollows
    have hsize := (size_le_put_new i).trans hle
    rw [reserve_eq, withPrefix] at hlt
    have hlt : maxTransmitSize < f.encodedLen + 21 * i.part.size / 20 := hlt
    have hle : i.part.size ≤ f'.encodedLen := hsize
    omega
  refine ⟨hchain, ?_⟩
  cases list with
  | nil => exact Nat.zero_le _
  | cons f list =>
    have hcount := NextFit.length_le_of_isChain (f := Rpc.encodedLen) hchain
    exact (Nat.le_add_right _ _).trans hcount

theorem fragments_fill_the_limit_two : ∃ list, fragmentMessage (S := Schema.encoded) 100
    ⟨[], [List.replicate 60 0, List.replicate 60 0], none⟩ = .ok list ∧ list.length = 2 ∧
      20 * (100 + 1) * (list.length - 1) ≤ 41 * (list.map Rpc.encodedLen).sum := by
  have hlength : (fragmentMessage (S := Schema.encoded) 100 ⟨[], [List.replicate 60 0, List.replicate 60 0], none⟩).map
      List.length = .ok 2 := by decide
  obtain ⟨list, hlist, hlength⟩ := map_ok_iff.mp hlength
  exact ⟨list, hlist, hlength, (fragments_fill_the_limit hlist).2⟩

end GossipPlans
