import GossipPlans.GenerateDraws

/-!
# The tool `gen_topology_files`

`gen_and_save` passes its arguments to `Params::new` and `Network::generate` and writes the
network as a dot file and as json. The third count of the command line is called `total_nodes`,
while `Params::new` takes the number of nodes without validators in its place.
-/

namespace GossipPlans.TopologyFiles

open DegreeCap
open OrderedMap (values)

structure RunParams where
  seed : UInt64
  totalValidators : UInt64
  totalNodesWithVals : UInt64
  totalNodes : UInt64
  minPeersPerNode : UInt64
  maxPeersPerNodeInc : UInt64
  dotfileName : String
  configFileName : String
deriving DecidableEq, Repr

/-- The file system and the json writer: `some e` is a failure with text `e`. -/
structure Env where
  create : String → Option String
  write : String → String → Option String
  toJson : Network → Except String String

def genNetwork (b : Build) (seedFromU64 : Nat → Prng) (rp : RunParams) : Run Network := do
  let params ← Params.new b rp.seed.toNat rp.totalValidators.toNat rp.totalNodesWithVals.toNat
    rp.totalNodes.toNat rp.minPeersPerNode.toNat rp.maxPeersPerNodeInc.toNat
  Network.generate b (seedFromU64 params.seed) params

def dotEdges (net : Network) : List (Nat × Nat) :=
  net.outboundPeers.toList.flatMap fun e => e.2.map fun peerB => (e.1, peerB)

def dotLines (net : Network) : List String :=
  "digraph \x7b" :: (dotEdges net).map (fun e => "\t" ++ toString e.1 ++ " -> " ++ toString e.2 ++ ";") ++ ["\x7d"]

def nodeIds (net : Network) : Finset Nat := ((dotEdges net).flatMap fun e => [e.1, e.2]).toFinset

def nodesWithVals (net : Network) : List Nat :=
  (net.validatorAssignments.toList.filter fun e => e.2 ≠ ∅).map Prod.fst

def failWith (text : String) : Option String → Run Unit
  | none => .ok ()
  | some e => .error (.err (text ++ e))

def writeLines (env : Env) (name text : String) : List String → Run Unit
  | [] => .ok ()
  | line :: lines => do
    failWith text (env.write name line)
    writeLines env name text lines

def genAndSave (b : Build) (seedFromU64 : Nat → Prng) (env : Env) (rp : RunParams) :
    Run (List String × String) := do
  let network ← genNetwork b seedFromU64 rp
  failWith "Failed to create dotfile " (env.create rp.dotfileName)
  writeLines env rp.dotfileName "Failed writing dotfile " (dotLines network)
  failWith "Failed creating network file " (env.create rp.configFileName)
  match env.toJson network with
  | .error e => .error (.err ("Failed to create network file " ++ e))
  | .ok networkRep =>
    failWith "Failed to write network file " (env.write rp.configFileName networkRep)
    .ok (dotLines network, networkRep)

/-! ## The nodes of the dot file -/

theorem mem_nodeIds {net : Network} {st : Topology} {cap : Nat → Nat} {n : Nat} {E : List (Nat × Nat)}
    (h : Represents cap n st E) (hn : net.outboundPeers = st.outboundPeers) (v : Nat) :
    v ∈ nodeIds net ↔ 0 < deg E v := by
  have hedge : ∀ a u, (a, u) ∈ dotEdges net ↔ (a, u) ∈ E := by
    intro a u
    simp only [dotEdges, List.mem_flatMap, List.mem_map, Prod.mk.injEq, hn]
    constructor
    · intro h
      obtain ⟨⟨a', l⟩, hm, u', hu, rfl, rfl⟩ := h
      rw [Std.TreeMap.mem_toList_iff_getElem?_eq_some, h.outbound] at hm
      split at hm
      · cases hm
      · cases hm; simpa [dialed] using hu
    · intro hm
      have hu : u ∈ dialed E a := by simpa [dialed] using hm
      refine ⟨(a, dialed E a), ?_, u, hu, rfl, rfl⟩
      rw [Std.TreeMap.mem_toList_iff_getElem?_eq_some, h.outbound, if_neg (List.ne_nil_of_mem hu)]
  simp only [nodeIds, List.mem_toFinset, List.mem_flatMap, List.mem_cons, List.not_mem_nil, or_false, deg_pos_iff]
  constructor
  · intro h
    obtain ⟨⟨a, u⟩, hm, rfl | rfl⟩ := h
    · exact ⟨u, Or.inl ((hedge _ _).mp hm)⟩
    · exact ⟨a, Or.inr ((hedge _ _).mp hm)⟩
  · intro h
    obtain ⟨u, hu | hu⟩ := h
    · exact ⟨(v, u), (hedge _ _).mpr hu, Or.inl rfl⟩
    · exact ⟨(u, v), (hedge _ _).mpr hu, Or.inr rfl⟩

theorem nodeIds_of_generate {b : Build} {gen : Prng} {params : Params} {net : Network}
    (h : Network.generate b gen params = .ok net) : nodeIds net = Finset.range params.totalNodes := by
  obtain ⟨st, hr, ho, hall, -⟩ := generate_represents h
  ext v
  rw [mem_nodeIds hr ho, Finset.mem_range]
  exact ⟨lt_of_deg_pos gen params, hall v⟩

theorem nodesWithVals_pos {b : Build} {gen : Prng} {params : Params} {net : Network}
    (h : Network.generate b gen params = .ok net) : 0 < (nodesWithVals net).length := by
  obtain ⟨-, -, -, -, hsum, -⟩ := generate_represents h
  have hpos := params.validators_pos
  rw [← hsum] at hpos
  obtain ⟨c, hc, hc0⟩ : ∃ c ∈ (values net.validatorAssignments).map Finset.card, c ≠ 0 := by
    by_contra hnone
    push Not at hnone
    rw [List.sum_eq_zero hnone] at hpos
    exact Nat.lt_irrefl 0 hpos
  obtain ⟨s, hs, rfl⟩ := List.mem_map.mp hc
  obtain ⟨e, he, rfl⟩ := List.mem_map.mp hs
  refine List.length_pos_of_mem (a := e.1) (List.mem_map.mpr ⟨e, List.mem_filter.mpr ⟨he, ?_⟩, rfl⟩)
  exact decide_eq_true fun h0 => hc0 (by rw [h0, Finset.card_empty])

/-! ## What the command line promises, and when it is kept -/

/-- For every seeding of the generator: a network the tool gets has the nodes `0..total_nodes` and
at most `total_nodes_with_vals` of them hold validators, and more of these than nodes is an error. -/
def Meets (b : Build) (rp : RunParams) : Prop :=
  ∀ seedFromU64 : Nat → Prng,
    (∀ net, genNetwork b seedFromU64 rp = .ok net → nodeIds net = Finset.range rp.totalNodes.toNat ∧
      (nodesWithVals net).length ≤ rp.totalNodesWithVals.toNat) ∧
    (rp.totalNodes.toNat < rp.totalNodesWithVals.toNat →
      ∀ env, ∃ e, genAndSave b seedFromU64 env rp = .error (.err e))

def RunParams.allNodes (rp : RunParams) : Nat := rp.totalNodesWithVals.toNat + rp.totalNodes.toNat

/-- There is room for the vectors that `generate` collects. -/
def RunParams.Fits (rp : RunParams) : Prop := rp.totalValidators.toNat ≤ isizeMax / 8 ∧ rp.allNodes ≤ 2 ^ 30

instance (rp : RunParams) : Decidable rp.Fits := inferInstanceAs (Decidable (_ ∧ _))

/-- The arguments for which no draw gives a network; a panic instead of the error does not count. -/
def NoNetwork (b : Build) (rp : RunParams) : Prop :=
  if rp.allNodes < usizeSize then
    rp.totalValidators.toNat = 0 ∨ rp.maxPeersPerNodeInc.toNat < rp.minPeersPerNode.toNat ∨ rp.allNodes = 0 ∨
      b = .debug ∧ rp.totalNodesWithVals.toNat = 0 ∨
      if rp.Fits then
        rp.allNodes = 1 ∨ rp.maxPeersPerNodeInc.toNat = 0 ∨ rp.maxPeersPerNodeInc.toNat = 1 ∧ rp.allNodes % 2 = 1
      else rp.totalNodesWithVals.toNat ≤ rp.totalNodes.toNat
  else b = .debug → rp.totalNodesWithVals.toNat ≤ rp.totalNodes.toNat

instance (b : Build) (rp : RunParams) : Decidable (NoNetwork b rp) := by
  unfold NoNetwork; infer_instance

section
variable {b : Build} {seedFromU64 : Nat → Prng} {rp : RunParams}

theorem genAndSave_err {e : String} (h : genNetwork b seedFromU64 rp = .error (.err e)) (env : Env) :
    genAndSave b seedFromU64 env rp = .error (.err e) := by
  rw [genAndSave, h]; rfl

def Env.allOk : Env := ⟨fun _ => none, fun _ _ => none, fun _ => .ok "\x7b\x7d"⟩

theorem genNetwork_err_of_params {e : String} (h : Params.new b rp.seed.toNat rp.totalValidators.toNat
    rp.totalNodesWithVals.toNat rp.totalNodes.toNat rp.minPeersPerNode.toNat rp.maxPeersPerNodeInc.toNat = .error (.err e)) :
    genNetwork b seedFromU64 rp = .error (.err e) := by
  rw [genNetwork, h]; rfl

theorem genNetwork_of_params {params : Params} (h : Params.new b rp.seed.toNat rp.totalValidators.toNat
    rp.totalNodesWithVals.toNat rp.totalNodes.toNat rp.minPeersPerNode.toNat rp.maxPeersPerNodeInc.toNat = .ok params) :
    genNetwork b seedFromU64 rp = Network.generate b (seedFromU64 params.seed) params := by
  rw [genNetwork, h]; rfl

theorem meets_of_err (h : ∀ seedFromU64, ∃ e, genNetwork b seedFromU64 rp = .error (.err e)) : Meets b rp := by
  intro seedFromU64
  obtain ⟨e, he⟩ := h seedFromU64
  exact ⟨fun net hnet => (nomatch he.symm.trans hnet), fun _ env => ⟨e, genAndSave_err he env⟩⟩

/-- Where the tool gets no network for a reason other than an error, only the error is left to promise. -/
theorem meets_of_ne_ok (h : ∀ seedFromU64 net, genNetwork b seedFromU64 rp ≠ .ok net)
    (hle : rp.totalNodesWithVals.toNat ≤ rp.totalNodes.toNat) : Meets b rp :=
  fun seedFromU64 => ⟨fun net hnet => absurd hnet (h seedFromU64 net), fun hgt => absurd hle (Nat.not_le_of_lt hgt)⟩

variable (seedFromU64) in
/-- A panic is not the error that is promised. -/
theorem le_of_meets_of_panic (hmeets : Meets b rp) (h : ∃ p, genNetwork b seedFromU64 rp = .error (.panic p)) :
    rp.totalNodesWithVals.toNat ≤ rp.totalNodes.toNat := by
  by_contra hgt
  obtain ⟨e, he⟩ := (hmeets seedFromU64).2 (Nat.lt_of_not_le hgt) Env.allOk
  obtain ⟨p, hp⟩ := h
  rw [genAndSave, hp] at he
  cases he

theorem withVals_or_release (h : ¬ (b = .debug ∧ rp.totalNodesWithVals.toNat = 0)) :
    1 ≤ rp.totalNodesWithVals.toNat ∨ b = .release := by
  cases b
  · exact Or.inl (Nat.pos_of_ne_zero fun h0 => h ⟨rfl, h0⟩)
  · exact Or.inr rfl

theorem meets_of_rejected (hlt : rp.allNodes < usizeSize) (h : rp.allNodes = 0 ∨ rp.totalValidators.toNat = 0 ∨
    rp.maxPeersPerNodeInc.toNat < rp.minPeersPerNode.toNat) : Meets b rp := by
  obtain ⟨e, he⟩ := Params.new_err b rp.seed.toNat hlt h
  exact meets_of_err fun _ => ⟨e, genNetwork_err_of_params he⟩

/-- Arguments that `Params::new` accepts, with what it makes of them. -/
theorem exists_params (b : Build) (hlt : rp.allNodes < usizeSize) (hv : rp.totalValidators.toNat ≠ 0)
    (hr : ¬ rp.maxPeersPerNodeInc.toNat < rp.minPeersPerNode.toNat) (hn : rp.allNodes ≠ 0) :
    ∃ params, Params.new b rp.seed.toNat rp.totalValidators.toNat rp.totalNodesWithVals.toNat rp.totalNodes.toNat
        rp.minPeersPerNode.toNat rp.maxPeersPerNodeInc.toNat = .ok params ∧ params.totalNodes = rp.allNodes ∧
      params.totalNodesWithVals = rp.totalNodesWithVals.toNat ∧
      params.connectionsRange = ⟨rp.minPeersPerNode.toNat, rp.maxPeersPerNodeInc.toNat⟩ ∧ (params.Fits ↔ rp.Fits) := by
  obtain ⟨params, hparams, htotal, hwith, hrange, hvals⟩ := Params.new_ok b rp.seed.toNat hlt (Nat.pos_of_ne_zero hn)
    (Nat.pos_of_ne_zero hv) (Nat.le_of_not_lt hr)
  refine ⟨params, hparams, htotal, hwith, hrange, ?_⟩
  rw [Params.Fits, RunParams.Fits, hvals, htotal]
  rfl

theorem meets_of_not_connected (hlt : rp.allNodes < usizeSize) (hv : rp.totalValidators.toNat ≠ 0)
    (hr : ¬ rp.maxPeersPerNodeInc.toNat < rp.minPeersPerNode.toNat) (hn : rp.allNodes ≠ 0)
    (hwith : 1 ≤ rp.totalNodesWithVals.toNat ∨ b = .release) (hfits : rp.Fits)
    (h : rp.allNodes = 1 ∨ rp.maxPeersPerNodeInc.toNat = 0 ∨ rp.maxPeersPerNodeInc.toNat = 1 ∧ rp.allNodes % 2 = 1) :
    Meets b rp := by
  apply meets_of_err
  intro seedFromU64
  obtain ⟨params, hparams, htotal, hvals, hrange, hiff⟩ := exists_params b hlt hv hr hn
  obtain ⟨cuts, hcuts⟩ := cutsOf_ok b (seedFromU64 params.seed) (hvals ▸ hwith)
  obtain ⟨va, st, -, -, -, -, hgen⟩ := generate_of_cuts hcuts (hiff.mpr hfits)
  rw [if_neg (not_all_connected (by rw [hrange, htotal]; simp only; omega))] at hgen
  exact ⟨_, (genNetwork_of_params hparams).trans hgen⟩

variable (b seedFromU64) in
/-- Without room for the vectors the tool panics. -/
theorem genNetwork_not_fits (hlt : rp.allNodes < usizeSize) (hv : rp.totalValidators.toNat ≠ 0)
    (hr : ¬ rp.maxPeersPerNodeInc.toNat < rp.minPeersPerNode.toNat) (hn : rp.allNodes ≠ 0) (hfits : ¬ rp.Fits) :
    ∃ p, genNetwork b seedFromU64 rp = .error (.panic p) := by
  obtain ⟨params, hparams, -, -, -, hiff⟩ := exists_params b hlt hv hr hn
  obtain ⟨p, hp⟩ := generate_of_not_fits b (seedFromU64 params.seed) (mt hiff.mp hfits)
  exact ⟨p, (genNetwork_of_params hparams).trans hp⟩

theorem genNetwork_debug_zero (h : rp.totalNodesWithVals.toNat = 0) (net : Network) :
    genNetwork .debug seedFromU64 rp ≠ .ok net := by
  intro hnet
  obtain ⟨params, hparams, hgen⟩ := bind_ok_iff.mp hnet
  obtain ⟨_, -, hgen⟩ := bind_ok_iff.mp hgen
  obtain ⟨va, hva, -⟩ := bind_ok_iff.mp hgen
  obtain ⟨cuts, hcuts, -⟩ := bind_ok_iff.mp hva
  rw [cutsOf, (Params.new_fields hparams).2.1, h] at hcuts
  cases hcuts

theorem genNetwork_overflow (hge : usizeSize ≤ rp.allNodes) :
    (∃ e, genNetwork .release seedFromU64 rp = .error (.err e)) ∧
      genNetwork .debug seedFromU64 rp = .error (.panic .addOverflow) := by
  obtain ⟨⟨e, he⟩, hpanic⟩ := Params.new_overflow rp.seed.toNat rp.totalValidators.toNat rp.minPeersPerNode.toNat
    rp.maxPeersPerNodeInc.toNat rp.totalNodes.toNat_lt hge rp.totalNodesWithVals.toNat_lt
  exact ⟨⟨e, genNetwork_err_of_params he⟩, by rw [genNetwork, hpanic]; rfl⟩

theorem meets_of_noNetwork (h : NoNetwork b rp) : Meets b rp := by
  unfold NoNetwork at h
  split at h
  · rename_i hlt
    by_cases hv : rp.totalValidators.toNat = 0
    · exact meets_of_rejected hlt (Or.inr (Or.inl hv))
    by_cases hr : rp.maxPeersPerNodeInc.toNat < rp.minPeersPerNode.toNat
    · exact meets_of_rejected hlt (Or.inr (Or.inr hr))
    by_cases hn : rp.allNodes = 0
    · exact meets_of_rejected hlt (Or.inl hn)
    by_cases hdebug : b = .debug ∧ rp.totalNodesWithVals.toNat = 0
    · obtain ⟨rfl, hzero⟩ := hdebug
      exact meets_of_ne_ok (fun _ net => genNetwork_debug_zero hzero net) (hzero ▸ Nat.zero_le _)
    have h := (((h.resolve_left hv).resolve_left hr).resolve_left hn).resolve_left hdebug
    split at h
    · rename_i hfits
      exact meets_of_not_connected hlt hv hr hn (withVals_or_release hdebug) hfits h
    · rename_i hfits
      refine meets_of_ne_ok (fun seedFromU64 net hnet => ?_) h
      obtain ⟨p, hp⟩ := genNetwork_not_fits b seedFromU64 hlt hv hr hn hfits
      exact nomatch hp.symm.trans hnet
  · rename_i hge
    cases b
    · exact meets_of_ne_ok (fun _ net hnet => nomatch (genNetwork_overflow (Nat.le_of_not_lt hge)).2.symm.trans hnet) (h rfl)
    · exact meets_of_err fun _ => (genNetwork_overflow (Nat.le_of_not_lt hge)).1

end

theorem noNetwork_of_meets {b : Build} {rp : RunParams} (hmeets : Meets b rp) : NoNetwork b rp := by
  unfold NoNetwork
  split
  · rename_i hlt
    by_contra hnone
    simp only [not_or] at hnone
    obtain ⟨hv, hr, hn, hdebug, hnone⟩ := hnone
    split at hnone
    · rename_i hfits
      obtain ⟨params, hparams, htotal, hwith, hrange, hiff⟩ := exists_params b hlt hv hr hn
      have hcuts : 1 ≤ params.totalNodesWithVals ∨ b = .release := hwith ▸ withVals_or_release hdebug
      have hall : ∀ v < params.totalNodes, 0 < deg (dials (Prng.ofOrder (pathFirst params.totalNodes)) params) v := by
        apply all_connected_pathFirst (by omega)
        rw [hrange, htotal]; simp only; omega
      obtain ⟨cuts, hcuts⟩ := cutsOf_ok b (Prng.ofOrder (pathFirst params.totalNodes)) hcuts
      obtain ⟨va, st, -, -, -, -, hgen⟩ := generate_of_cuts hcuts (hiff.mpr hfits)
      rw [if_pos hall] at hgen
      obtain ⟨hnodes, hvals⟩ := (hmeets fun _ => Prng.ofOrder (pathFirst params.totalNodes)).1 _
        ((genNetwork_of_params hparams).trans hgen)
      -- equal sizes leave no node with validators, but some node has them
      rw [nodeIds_of_generate hgen, htotal] at hnodes
      have hsum := congrArg Finset.card hnodes
      rw [Finset.card_range, Finset.card_range, RunParams.allNodes] at hsum
      have := nodesWithVals_pos hgen
      omega
    · rename_i hfits
      exact hnone (le_of_meets_of_panic _ hmeets (genNetwork_not_fits b (fun _ => Prng.ofOrder []) hlt hv hr hn hfits))
  · rename_i hge
    rintro rfl
    exact le_of_meets_of_panic (fun _ => Prng.ofOrder []) hmeets ⟨_, (genNetwork_overflow (Nat.le_of_not_lt hge)).2⟩

/-- **When the tool keeps the promise.** Only for arguments that give no network. -/
theorem meets_iff_noNetwork (b : Build) (rp : RunParams) : Meets b rp ↔ NoNetwork b rp :=
  ⟨noNetwork_of_meets, meets_of_noNetwork⟩

/-- Two nodes, three of them with validators: the tool should refuse this. -/
theorem not_meets_three_of_two : ¬ Meets .debug ⟨40, 200, 3, 2, 2, 3, "output.dot", "output.json"⟩ :=
  fun h => absurd (noNetwork_of_meets h) (by decide)

end GossipPlans.TopologyFiles
