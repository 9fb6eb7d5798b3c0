import GossipPlans.Basic
import GossipPlans.PrefixCode

/-!
# eth_consensus: topics and their names

A topic is sent as a name with a decimal subnet behind a slash, and read back by splitting the name at
its last slash. Both directions know the same five names (`topic_round_trip`).
-/

namespace GossipPlans.Eth

inductive Topic where
  | blocks
  | attestations (subnet : UInt64)
  | aggregates
  | syncMessages (subnet : UInt64)
  | signedContributionAndProof (subnet : UInt64)
deriving DecidableEq, Repr

/-- A topic that is hashed by the identity. -/
structure IdentTopic where
  hash : String
deriving DecidableEq, Repr

/-- `From<Topic> for IdentTopic` -/
def Topic.toIdentTopic : Topic → IdentTopic
  | .blocks => ⟨"Blocks"⟩
  | .aggregates => ⟨"Aggregates"⟩
  | .attestations x => ⟨"Attestations/" ++ x.toNat.repr⟩
  | .syncMessages x => ⟨"SyncMessages/" ++ x.toNat.repr⟩
  | .signedContributionAndProof x => ⟨"SignedContributionAndProof/" ++ x.toNat.repr⟩

def rsplitChars (delimiter : Char) : List Char → Option (List Char × List Char)
  | [] => none
  | c :: cs =>
    match rsplitChars delimiter cs with
    | some (before, after) => some (c :: before, after)
    | none => if c = delimiter then some ([], cs) else none

/-- `str::rsplit_once`: around the last delimiter. -/
def rsplitOnce (s : String) (delimiter : Char) : Option (String × String) :=
  (rsplitChars delimiter s.toList).map fun p => (.ofList p.1, .ofList p.2)

/-- `x.parse::<u64>().expect("no malicious topics")` -/
def parseSubnet (x : String) : Run UInt64 :=
  match parseUint x with
  | .ok n => .ok (.ofNat n)
  | .error _ => .error (.panic (.expect "no malicious topics"))

/-- `From<IdentTopic> for Topic` -/
def Topic.ofIdentTopic (t : IdentTopic) : Run Topic :=
  if t.hash = "Blocks" then .ok .blocks
  else if t.hash = "Aggregates" then .ok .aggregates
  else match rsplitOnce t.hash '/' with
    | none => .error (.panic .unreachable)
    | some (kind, x) =>
      if kind = "Attestations" then .attestations <$> parseSubnet x
      else if kind = "SyncMessages" then .syncMessages <$> parseSubnet x
      else if kind = "SignedContributionAndProof" then .signedContributionAndProof <$> parseSubnet x
      else .error (.panic .unreachable)

def attestationSubnets : Nat := 4
def syncSubnets : Nat := 4

/-- `subscribe_topics` -/
def subscribedTopics : List Topic :=
  [.blocks, .aggregates] ++
  (List.range attestationSubnets).map (fun n => .attestations (.ofNat n)) ++
  (List.range syncSubnets).flatMap fun n => [.syncMessages (.ofNat n), .signedContributionAndProof (.ofNat n)]

/-! ## Round trip -/

theorem rsplitChars_none {delimiter : Char} : ∀ {cs : List Char}, delimiter ∉ cs → rsplitChars delimiter cs = none
  | [], _ => rfl
  | c :: cs, h => by
    obtain ⟨hc, hcs⟩ := List.ne_and_not_mem_of_not_mem_cons h
    rw [rsplitChars, rsplitChars_none hcs]
    simp [hc.symm]

theorem rsplitChars_append {delimiter : Char} {cs : List Char} (h : delimiter ∉ cs) :
    ∀ before : List Char, rsplitChars delimiter (before ++ delimiter :: cs) = some (before, cs)
  | [] => by
    rw [List.nil_append, rsplitChars, rsplitChars_none h]
    simp
  | c :: before => by
    rw [List.cons_append, rsplitChars, rsplitChars_append h before]

theorem rsplitOnce_name (kind : String) (n : Nat) :
    rsplitOnce (kind ++ "/" ++ n.repr) '/' = some (kind, n.repr) := by
  have hchars : (kind ++ "/" ++ n.repr).toList = kind.toList ++ '/' :: Nat.toDigits 10 n := by simp
  rw [rsplitOnce, hchars, rsplitChars_append (PrefixCode.not_mem_toDigits (by decide) n)]
  simp [Nat.repr_eq_ofList_toDigits]

theorem parseSubnet_repr (x : UInt64) : parseSubnet x.toNat.repr = .ok x := by
  rw [parseSubnet, parseUint_repr x.toNat_lt]
  simp

/-- A name with a subnet is neither of the two without. -/
theorem ofIdentTopic_name (kind : String) (x : UInt64) : Topic.ofIdentTopic ⟨kind ++ "/" ++ x.toNat.repr⟩ =
    if kind = "Attestations" then .ok (.attestations x)
    else if kind = "SyncMessages" then .ok (.syncMessages x)
    else if kind = "SignedContributionAndProof" then .ok (.signedContributionAndProof x)
    else .error (.panic .unreachable) := by
  have hslash : '/' ∈ (kind ++ "/" ++ x.toNat.repr).toList := by simp
  have hne : ∀ name : String, '/' ∉ name.toList → kind ++ "/" ++ x.toNat.repr ≠ name := by
    intro name hname h
    rw [h] at hslash
    exact hname hslash
  simp only [Topic.ofIdentTopic, if_neg (hne "Blocks" (by decide)),
    if_neg (hne "Aggregates" (by decide)), rsplitOnce_name, parseSubnet_repr]
  rfl

theorem ofIdentTopic_toIdentTopic (t : Topic) : Topic.ofIdentTopic t.toIdentTopic = .ok t := by
  cases t with
  | blocks => rfl
  | aggregates => rfl
  | attestations x => exact (ofIdentTopic_name "Attestations" x).trans (if_pos rfl)
  | syncMessages x => exact (ofIdentTopic_name "SyncMessages" x).trans (by simp)
  | signedContributionAndProof x => exact (ofIdentTopic_name "SignedContributionAndProof" x).trans (by simp)

/-- **Topic names round-trip**, without a panic, so no two topics share a name. -/
theorem topic_round_trip : (∀ t : Topic, Topic.ofIdentTopic t.toIdentTopic = .ok t) ∧
    Function.Injective Topic.toIdentTopic := by
  refine ⟨ofIdentTopic_toIdentTopic, fun t t' h => ?_⟩
  have ht := ofIdentTopic_toIdentTopic t
  rw [h, ofIdentTopic_toIdentTopic] at ht
  exact (Except.ok.inj ht).symm

end GossipPlans.Eth
