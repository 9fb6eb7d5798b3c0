import GossipPlans.EthNetwork
import GossipPlans.GenerateSound

/-!
# eth_consensus: the dial phase

Every outbound peer is a participant, no instance dials itself, and over all instances each pair of
nodes is dialed at most once.
-/

namespace GossipPlans.Eth

open DegreeCap

/-! ## The split of the instances -/

theorem parseParams_totalNodes {b : Build} {n run : Nat} {ps : InstanceParams} {params : Params}
    (hn : n < usizeSize) (h : parseParams b n ps = .ok (run, params)) : params.totalNodes = n := by
  simp only [parseParams, bind_ok_iff] at h
  obtain ⟨_, -, seed, -, _, -, pct, -, _, -, tv, -, _, -, lo, -, _, -, hi, -, scaled, hscaled, wv, hwv, _, -, _, -,
    p, hp, hok⟩ := h
  cases hok
  have hle : scaled / 100 ≤ n := by
    have hmul : n * min pct 100 ≤ n * 100 := Nat.mul_le_mul_left n (Nat.min_le_right _ _)
    unfold usizeMul overflow at hscaled
    split at hscaled
    · cases hscaled; omega
    · -- a wrapped product is below `2 ^ 64`, and the exact one is at most `n * 100`
      cases b
      · cases hscaled
      · cases hscaled
        have := Nat.mod_le (n * min pct 100) usizeSize
        omega
  rw [usizeSub_ok hle] at hwv
  cases hwv
  rw [Params.new_totalNodes hp (by omega), Nat.sub_add_cancel hle]

/-! ## One instance -/

theorem dialLoop_spec (accepts : InstanceInfo → Bool) (nodeId : Nat) {participants : Participants}
    {info : Nat → InstanceInfo} : ∀ (peers : List Nat), (∀ p ∈ peers, participants[p]? = some (info p)) →
    (∃ pre, pre <+: peers ∧
      (dialLoop accepts nodeId participants peers).1 = pre.map fun p => ⟨nodeId, p, info p⟩) ∧
    ∀ u v, (dialLoop accepts nodeId participants peers).2 ≠ some (.notParticipant u v)
  | [], _ => ⟨⟨[], List.prefix_refl _, rfl⟩, nofun⟩
  | p :: peers, h => by
    obtain ⟨⟨pre, hpre, hd⟩, hp⟩ := dialLoop_spec accepts nodeId peers
      fun q hq => h q (List.mem_cons_of_mem _ hq)
    simp only [dialLoop, h p (List.mem_cons_self ..)]
    by_cases ha : accepts (info p) = true
    · simp only [ha, if_true]
      exact ⟨⟨p :: pre, List.cons_prefix_cons.mpr ⟨rfl, hpre⟩, by rw [hd]; rfl⟩, hp⟩
    · simp only [ha]
      exact ⟨⟨[p], List.cons_prefix_cons.mpr ⟨rfl, List.nil_prefix⟩, rfl⟩, nofun⟩

section
variable {n : Nat} {info : Nat → InstanceInfo}

def published (n : Nat) (info : Nat → InstanceInfo) : List (Nat × InstanceInfo) :=
  (List.range' 1 n).map fun seq => (nodeIdOf seq, info (nodeIdOf seq))

theorem getElem?_participantsOf {stream : List (Nat × InstanceInfo)} (hs : stream.Perm (published n info))
    {nodeId p : Nat} (hp : p < n) (hne : p ≠ nodeId) : (participantsOf n nodeId stream)[p]? = some (info p) := by
  have hlen : stream.length = n := by rw [hs.length_eq]; simp [published]
  rw [participantsOf, List.take_of_length_le (Nat.le_of_eq hlen)]
  refine Std.TreeMap.getElem?_ofList_of_mem (k := p) (by simp) ?_ ?_
  · have hkeys : (published n info).Pairwise fun a b => ¬ compare a.1 b.1 = .eq := by
      refine List.pairwise_map.mpr (List.Pairwise.imp_of_mem (fun ha hb hab => ?_) List.pairwise_lt_range')
      simp only [List.mem_range'_1] at ha hb
      simp only [nodeIdOf, Nat.compare_eq_eq]; omega
    exact (hs.symm.pairwise hkeys fun h h' => h (Nat.compare_eq_eq.mpr (Nat.compare_eq_eq.mp h').symm)).filter _
  · refine List.mem_filter.mpr ⟨hs.mem_iff.mpr (List.mem_map.mpr ⟨p + 1, ?_, rfl⟩), by simpa using hne⟩
    simp only [List.mem_range'_1]; omega

theorem dialPeers_spec {E : List (Nat × Nat)} {outboundPeers : OutboundPeers}
    (ho : ∀ v, outboundPeers[v]? = if dialed E v = [] then none else some (dialed E v))
    (hE : ∀ e ∈ E, e.1 ≠ e.2 ∧ e.2 < n) {stream : List (Nat × InstanceInfo)} (hs : stream.Perm (published n info))
    (accepts : InstanceInfo → Bool) (nodeId : Nat) :
    (∃ pre, pre <+: dialed E nodeId ∧
      (dialPeers accepts nodeId (participantsOf n nodeId stream) outboundPeers).1 =
        pre.map fun p => ⟨nodeId, p, info p⟩) ∧
    ∀ u v, (dialPeers accepts nodeId (participantsOf n nodeId stream) outboundPeers).2 ≠ some (.notParticipant u v) := by
  rw [dialPeers, ho]
  split
  · rename_i peers hpeers
    have : peers = dialed E nodeId := by
      split at hpeers
      · cases hpeers
      · exact (Option.some.inj hpeers).symm
    subst this
    apply dialLoop_spec
    intro p hp
    have hm : (nodeId, p) ∈ E := by simpa [dialed] using hp
    exact getElem?_participantsOf hs (hE _ hm).2 (hE _ hm).1.symm
  · refine ⟨⟨[], List.nil_prefix, rfl⟩, fun u v h => ?_⟩
    cases h

end

/-! ## All instances -/

theorem count_flatMap_le {α : Type} [BEq α] [LawfulBEq α] {f : Nat → List α} {x : α} {k m : Nat} :
    ∀ {l : List Nat}, l.Nodup → (∀ s ∈ l, s ≠ k → x ∉ f s) → (f k).count x ≤ m → (l.flatMap f).count x ≤ m
  | [], _, _, _ => Nat.zero_le _
  | s :: l, hn, hx, hm => by
    obtain ⟨hs, hn⟩ := List.nodup_cons.mp hn
    rw [List.flatMap_cons, List.count_append]
    by_cases hk : s = k
    · subst hk
      have : x ∉ l.flatMap f := fun h => by
        obtain ⟨t, ht, hxt⟩ := List.mem_flatMap.mp h
        exact hx t (List.mem_cons_of_mem _ ht) (fun e => hs (e ▸ ht)) hxt
      rw [List.count_eq_zero_of_not_mem this]; omega
    · rw [List.count_eq_zero_of_not_mem (hx s (List.mem_cons_self ..) hk), Nat.zero_add]
      exact count_flatMap_le hn (fun t ht => hx t (List.mem_cons_of_mem _ ht)) hm

def pairs (ds : List Dial) : List (Nat × Nat) := ds.map fun d => (d.node, d.peer)

theorem seq_of_mem {n seq u v : Nat} {ds : List Dial} {pre : List Nat} {info : Nat → InstanceInfo}
    (hseq : seq ∈ List.range' 1 n) (hds : ds = pre.map fun p => ⟨nodeIdOf seq, p, info p⟩)
    (hmem : (u, v) ∈ pairs ds) : seq = u + 1 := by
  subst hds
  simp only [pairs, List.map_map, List.mem_map, Function.comp, Prod.mk.injEq] at hmem
  obtain ⟨_, -, hnode, -⟩ := hmem
  simp only [List.mem_range'_1] at hseq
  simp only [nodeIdOf] at hnode; omega

theorem count_pairs_le {E : List (Nat × Nat)} {ds : List Dial} {pre : List Nat} {u : Nat} {info : Nat → InstanceInfo}
    (hpre : pre <+: dialed E u) (hds : ds = pre.map fun p => ⟨u, p, info p⟩) (e : Nat × Nat) :
    (pairs ds).count e ≤ E.count e := by
  have hsub : pairs ds <+: E.filter (·.1 = u) := by
    rw [pairs, hds, List.map_map]
    have hmap : (dialed E u).map (fun p => (u, p)) = E.filter (·.1 = u) := by
      rw [dialed, List.map_map]
      refine (List.map_congr_left fun d hd => ?_).trans (List.map_id _)
      have : d.1 = u := by simpa using (List.mem_filter.mp hd).2
      simp [← this]
    exact hmap ▸ hpre.map _
  exact (hsub.sublist.count_le _).trans (List.filter_sublist.count_le _)

/-- **The dial phase.** All `n` instances run `dial_peers` on the network each of them generates,
with the participants each has collected in its own order. -/
theorem dial_phase (b : Build) (n : Nat) (hn : 1 ≤ n ∧ n < usizeSize) (ps : InstanceParams) (gen : Prng)
    (run : Nat) (params : Params) (net : Network) (hparse : parseParams b n ps = .ok (run, params))
    (hgen : Network.generate b gen params = .ok net) (info : Nat → InstanceInfo)
    (stream : Nat → List (Nat × InstanceInfo))
    (hstream : ∀ seq ∈ List.range' 1 n, (stream seq).Perm (published n info))
    (accepts : Nat → InstanceInfo → Bool) :
    let outcome := fun seq =>
      dialPeers (accepts seq) (nodeIdOf seq) (participantsOf n (nodeIdOf seq) (stream seq)) net.outboundPeers
    let allDials := (List.range' 1 n).flatMap fun seq => pairs (outcome seq).1
    (∀ seq ∈ List.range' 1 n, (∀ u v, (outcome seq).2 ≠ some (.notParticipant u v)) ∧
      ∀ d ∈ (outcome seq).1, d.node = nodeIdOf seq ∧ d.peer < n ∧ d.peer ≠ nodeIdOf seq ∧ d.info = info d.peer) ∧
    ∀ u v, u ≠ v → allDials.count (u, v) + allDials.count (v, u) ≤ 1 := by
  intro outcome allDials
  obtain ⟨st, hr, ho, -, -⟩ := generate_represents hgen
  have hnodes := parseParams_totalNodes hn.2 hparse
  have hsimple := simple_dials gen params
  have hE : ∀ e ∈ dials gen params, e.1 ≠ e.2 ∧ e.2 < n :=
    fun e he => ⟨hsimple.1 e he, hnodes ▸ (dials_lt gen params he).2⟩
  have hout := fun seq hseq =>
    dialPeers_spec (fun v => ho ▸ hr.outbound v) hE (hstream seq hseq) (accepts seq) (nodeIdOf seq)
  refine ⟨fun seq hseq => ⟨(hout seq hseq).2, fun d hd => ?_⟩, fun u v huv => ?_⟩
  · obtain ⟨pre, hpre, heq⟩ := (hout seq hseq).1
    simp only [outcome, heq, List.mem_map] at hd
    obtain ⟨p, hp, rfl⟩ := hd
    have hm : (nodeIdOf seq, p) ∈ dials gen params := by simpa [dialed] using hpre.subset hp
    exact ⟨rfl, (hE _ hm).2, (hE _ hm).1.symm, rfl⟩
  · have hcount : ∀ u v, allDials.count (u, v) ≤ (dials gen params).count (u, v) := by
      intro u v
      by_cases hu : u + 1 ∈ List.range' 1 n
      · refine count_flatMap_le (k := u + 1) List.nodup_range' (fun seq hseq hne hmem => ?_) ?_
        · obtain ⟨pre, -, heq⟩ := (hout seq hseq).1
          exact hne (seq_of_mem hseq heq hmem)
        · obtain ⟨pre, hpre, heq⟩ := (hout (u + 1) hu).1
          exact count_pairs_le hpre heq _
      · have hnone : (u, v) ∉ allDials := fun hmem => by
          obtain ⟨seq, hseq, hmem⟩ := List.mem_flatMap.mp hmem
          obtain ⟨pre, -, heq⟩ := (hout seq hseq).1
          exact hu (seq_of_mem hseq heq hmem ▸ hseq)
        rw [List.count_eq_zero_of_not_mem hnone]; exact Nat.zero_le _
    exact (Nat.add_le_add (hcount u v) (hcount v u)).trans (hsimple.count_le u v)

/-- Two instances: neither panics on the network they generate. -/
theorem dial_phase_two : ∃ net : Network, ∀ seq ∈ List.range' 1 2, ∀ u v,
    (dialPeers (fun _ => true) (nodeIdOf seq)
      (participantsOf 2 (nodeIdOf seq) (published 2 fun v => ⟨toString v, toString v⟩)) net.outboundPeers).2 ≠
      some (.notParticipant u v) := by
  let ps : InstanceParams := [("seed", "7"), ("no_val_percentage", "50"), ("total_validators", "3"),
    ("min_peers_per_node", "1"), ("max_peers_per_node_inclusive", "2"), ("run", "60")]
  have hok : ((parseParams .release 2 ps).bind fun r => Network.generate .release (Prng.ofOrder []) r.2).isOk = true := by
    decide
  rcases hnet : (parseParams .release 2 ps).bind fun r => Network.generate .release (Prng.ofOrder []) r.2 with e | net
  · rw [hnet] at hok; cases hok
  · obtain ⟨⟨run, params⟩, hparse, hgen⟩ := bind_ok_iff.mp hnet
    have h := dial_phase .release 2 (by decide) ps (Prng.ofOrder []) run params net hparse hgen
      (fun v => ⟨toString v, toString v⟩) (fun _ => published 2 _) (fun _ _ => .refl _) (fun _ _ => true)
    exact ⟨net, fun seq hseq => (h.1 seq hseq).1⟩

end GossipPlans.Eth
