import GossipPlans.BeaconNode
import GossipPlans.EthTopics
import GossipPlans.PrefixCode

/-!
# Message ids

Both plans hash the topic's text followed by the data, without a separator. The scoring plan writes topics
as json, where no text is a prefix of another (`scoring_messages_separated`). In eth_consensus a name with
a subnet is a prefix of the names whose subnet has further digits (`eth_messages_separated_iff`).
-/

namespace GossipPlans

open BeaconNode (Message)
open PrefixCode (utf8)

/-- `[message.topic.as_str().as_bytes(), &message.data].concat()` -/
def hashedBytes (message : Message) : List UInt8 := utf8 message.topic ++ message.data

/-- `gossip_message_id` of both plans; `digest` is `Sha256::digest`. -/
def gossipMessageId (digest : List UInt8 → List UInt8) (message : Message) : List UInt8 :=
  (digest (hashedBytes message)).take 20

/-- Different bytes with one truncated digest. -/
def Collides (digest : List UInt8 → List UInt8) (x y : List UInt8) : Prop :=
  x ≠ y ∧ (digest x).take 20 = (digest y).take 20

theorem gossipMessageId_eq_iff {digest : List UInt8 → List UInt8} {m m' : Message} {P : Prop}
    (h : hashedBytes m = hashedBytes m' ↔ P) : gossipMessageId digest m = gossipMessageId digest m' ↔
      P ∨ Collides digest (hashedBytes m) (hashedBytes m') := by
  rw [gossipMessageId, gossipMessageId, Collides, ← h]
  by_cases heq : hashedBytes m = hashedBytes m'
  · simp [heq]
  · simp [heq]

/-! ## scoring: topics as json -/

namespace Scoring

open BeaconNode (Topic)

def variant : Topic → String × Option Nat
  | .blocks => ("Blocks", none)
  | .attestations subnetId => ("Attestations", some subnetId)
  | .aggregates subnetId => ("Aggregates", some subnetId)
  | .syncMessages subnetId => ("SyncMessages", some subnetId)
  | .signedContributionAndProof subnetId => ("SignedContributionAndProof", some subnetId)

/-- `serde_json` of a variant: its name, or an object with the content under the name. -/
def variantText (name : String) : Option Nat → String
  | none => "\"" ++ name ++ "\""
  | some content => "\x7b\"" ++ name ++ "\":" ++ content.repr ++ "\x7d"

/-- `From<Topic> for IdentTopic` -/
def topicText (t : Topic) : String := variantText (variant t).1 (variant t).2

theorem variant_inj {t t' : Topic} (h : variant t = variant t') : t = t' := by
  cases t <;> cases t' <;> simp_all [variant]

theorem quote_not_mem_variant (t : Topic) : '"' ∉ (variant t).1.toList := by
  cases t <;> simp [variant]

theorem toList_variantText_none (name : String) : (variantText name none).toList = '"' :: (name.toList ++ ['"']) := by
  simp [variantText]

theorem toList_variantText_some (name : String) (n : Nat) : (variantText name (some n)).toList =
    '\x7b' :: '"' :: (name.toList ++ '"' :: ':' :: (Nat.toDigits 10 n ++ ['\x7d'])) := by
  simp [variantText]

theorem variantText_prefix_free {name name' : String} (h : '"' ∉ name.toList) (h' : '"' ∉ name'.toList)
    {content content' : Option Nat} (hpre : (variantText name content).toList <+: (variantText name' content').toList) :
    name = name' ∧ content = content' := by
  cases content with
  | none =>
    cases content' with
    | none =>
      rw [toList_variantText_none, toList_variantText_none] at hpre
      obtain ⟨heq, -⟩ := PrefixCode.delimited_prefix_inj h h' (List.cons_prefix_cons.mp hpre).2
      exact ⟨String.toList_inj.mp heq, rfl⟩
    | some n' =>
      rw [toList_variantText_none, toList_variantText_some] at hpre
      exact absurd (List.cons_prefix_cons.mp hpre).1 (by decide)
  | some n =>
    cases content' with
    | none =>
      rw [toList_variantText_some, toList_variantText_none] at hpre
      exact absurd (List.cons_prefix_cons.mp hpre).1 (by decide)
    | some n' =>
      rw [toList_variantText_some, toList_variantText_some] at hpre
      have hpre := (List.cons_prefix_cons.mp (List.cons_prefix_cons.mp hpre).2).2
      -- the quote ends the name, and the brace the content
      obtain ⟨heq, hpre⟩ := PrefixCode.delimited_prefix_inj h h' hpre
      obtain ⟨hn, -⟩ := PrefixCode.delimited_prefix_inj (PrefixCode.not_mem_toDigits (by decide) n)
        (PrefixCode.not_mem_toDigits (by decide) n') (List.cons_prefix_cons.mp hpre).2
      exact ⟨String.toList_inj.mp heq, congrArg some (PrefixCode.toDigits_inj hn)⟩

theorem topicText_prefix_free {t t' : Topic} (h : (topicText t).toList <+: (topicText t').toList) : t = t' := by
  obtain ⟨hname, hcontent⟩ := variantText_prefix_free (quote_not_mem_variant t) (quote_not_mem_variant t') h
  exact variant_inj (Prod.ext hname hcontent)

/-- **Scoring messages are separated.** The hashed bytes determine topic and data, so two messages share an id
only through a collision of the truncated digest. -/
theorem scoring_messages_separated (t t' : Topic) (data data' : List UInt8) :
    (hashedBytes ⟨topicText t, data⟩ = hashedBytes ⟨topicText t', data'⟩ ↔ t = t' ∧ data = data') ∧
    ∀ digest, gossipMessageId digest ⟨topicText t, data⟩ = gossipMessageId digest ⟨topicText t', data'⟩ ↔
      (t = t' ∧ data = data') ∨
        Collides digest (hashedBytes ⟨topicText t, data⟩) (hashedBytes ⟨topicText t', data'⟩) := by
  have hbytes : hashedBytes ⟨topicText t, data⟩ = hashedBytes ⟨topicText t', data'⟩ ↔ t = t' ∧ data = data' := by
    constructor
    · exact PrefixCode.utf8_append_inj topicText topicText_prefix_free topicText_prefix_free
    · intro h
      rw [h.1, h.2]
  exact ⟨hbytes, fun digest => gossipMessageId_eq_iff hbytes⟩

end Scoring

/-! ## eth_consensus: names with decimals -/

namespace Eth

/-- `payload.append(&mut validator.to_be_bytes().to_vec())` -/
def publishedData (payload : List UInt8) (validator : UInt64) : List UInt8 := payload ++ PrefixCode.beBytes 8 validator.toNat

/-- What `publish` hands to gossipsub. -/
def outgoing (topic : Topic) (validator : UInt64) (payload : List UInt8) : Message :=
  ⟨topic.toIdentTopic.hash, publishedData payload validator⟩

theorem publishedData_inj {payload payload' : List UInt8} {validator validator' : UInt64}
    (h : publishedData payload validator = publishedData payload' validator') :
    payload = payload' ∧ validator = validator' := by
  obtain ⟨hpayload, hvalidator⟩ := List.append_inj' h (by rw [PrefixCode.length_beBytes, PrefixCode.length_beBytes])
  exact ⟨hpayload, UInt64.toNat_inj.mp (PrefixCode.beBytes_inj validator.toNat_lt validator'.toNat_lt hvalidator)⟩

def Topic.head : Topic → String
  | .blocks => "Blocks"
  | .aggregates => "Aggregates"
  | .attestations _ => "Attestations/"
  | .syncMessages _ => "SyncMessages/"
  | .signedContributionAndProof _ => "SignedContributionAndProof/"

def Topic.subnet : Topic → Option UInt64
  | .blocks => none
  | .aggregates => none
  | .attestations x => some x
  | .syncMessages x => some x
  | .signedContributionAndProof x => some x

/-- Two topics of one kind, where the subnet of the second goes on with further digits. -/
def Topic.Extends (t t' : Topic) : Prop :=
  t.head = t'.head ∧ ∃ x ∈ t.subnet, ∃ x' ∈ t'.subnet, PrefixCode.Extends x.toNat x'.toNat

def subnetText : Option UInt64 → String
  | none => ""
  | some x => x.toNat.repr

theorem name_eq (t : Topic) : t.toIdentTopic.hash = t.head ++ subnetText t.subnet := by
  cases t with
  | blocks | aggregates => exact (String.append_empty ..).symm
  | attestations x | syncMessages x | signedContributionAndProof x => rfl

theorem head_prefix_free {t t' : Topic} (h : t.head.toList <+: t'.head.toList) : t.head = t'.head := by
  cases t <;> cases t' <;> simp_all [Topic.head]

theorem eq_of_head {t t' : Topic} (h : t.head = t'.head) :
    t = t' ∨ ∃ x x', t.subnet = some x ∧ t'.subnet = some x' ∧ (x = x' → t = t') := by
  cases t <;> cases t' <;> simp_all [Topic.head, Topic.subnet]

theorem name_prefix_iff {t t' : Topic} :
    t.toIdentTopic.hash.toList <+: t'.toIdentTopic.hash.toList ↔ t = t' ∨ t.Extends t' := by
  rw [name_eq, name_eq, String.toList_append, String.toList_append]
  constructor
  · intro h
    have hhead : t.head = t'.head := by
      rcases PrefixCode.prefix_comparable h with hle | hle
      · exact head_prefix_free hle
      · exact (head_prefix_free hle).symm
    rw [hhead, List.prefix_append_right_inj] at h
    rcases eq_of_head hhead with heq | ⟨x, x', hx, hx', heq⟩
    · exact Or.inl heq
    · rw [hx, hx', subnetText, subnetText, Nat.toList_repr, Nat.toList_repr, PrefixCode.toDigits_prefix_iff] at h
      rcases h with h | h
      · exact Or.inl (heq (UInt64.toNat_inj.mp h))
      · exact Or.inr ⟨hhead, x, hx, x', hx', h⟩
  · intro h
    rcases h with rfl | ⟨hhead, x, hx, x', hx', hext⟩
    · exact List.prefix_refl _
    · rw [hhead, Option.mem_def.mp hx, Option.mem_def.mp hx', List.prefix_append_right_inj, subnetText, subnetText,
        Nat.toList_repr, Nat.toList_repr]
      exact PrefixCode.toDigits_prefix_iff.mpr (Or.inr hext)

theorem hashedBytes_outgoing_inj {t t' : Topic} (h : ¬ t.Extends t') (h' : ¬ t'.Extends t) {p p' : List UInt8}
    {v v' : UInt64} (heq : hashedBytes (outgoing t v p) = hashedBytes (outgoing t' v' p')) :
    t = t' ∧ p = p' ∧ v = v' := by
  obtain ⟨ht, hdata⟩ := PrefixCode.utf8_append_inj (fun t : Topic => t.toIdentTopic.hash)
    (fun hpre => (name_prefix_iff.mp hpre).resolve_right h) (fun hpre => (name_prefix_iff.mp hpre).resolve_right h') heq
  exact ⟨ht, publishedData_inj hdata⟩

theorem exists_same_bytes {t t' : Topic} (h : t.Extends t') (v : UInt64) :
    ∃ p, hashedBytes (outgoing t v p) = hashedBytes (outgoing t' v []) := by
  obtain ⟨cs, hcs⟩ := name_prefix_iff.mpr (Or.inr h)
  have hname : t'.toIdentTopic.hash = t.toIdentTopic.hash ++ .ofList cs := by
    rw [← String.toList_inj, String.toList_append, String.toList_ofList, hcs]
  -- the payload takes the digits that the longer name has more
  refine ⟨utf8 (.ofList cs), ?_⟩
  simp only [hashedBytes, outgoing, publishedData, hname, PrefixCode.utf8_append, List.append_assoc, List.nil_append]

/-- Messages of two topics with the same hashed bytes are the same, so different ones share an id only through a
collision of the truncated digest. -/
def MessagesSeparated (t t' : Topic) : Prop := ∀ p p' v v',
  (hashedBytes (outgoing t v p) = hashedBytes (outgoing t' v' p') → t = t' ∧ p = p' ∧ v = v') ∧
  ∀ digest, gossipMessageId digest (outgoing t v p) = gossipMessageId digest (outgoing t' v' p') →
    (t = t' ∧ p = p' ∧ v = v') ∨ Collides digest (hashedBytes (outgoing t v p)) (hashedBytes (outgoing t' v' p'))

theorem messagesSeparated_of_not_extends {t t' : Topic} (h : ¬ t.Extends t') (h' : ¬ t'.Extends t) :
    MessagesSeparated t t' := by
  intro p p' v v'
  refine ⟨hashedBytes_outgoing_inj h h', fun digest hid => ?_⟩
  rcases (gossipMessageId_eq_iff Iff.rfl).mp hid with heq | hcollides
  · exact Or.inl (hashedBytes_outgoing_inj h h' heq)
  · exact Or.inr hcollides

theorem Topic.Extends.ne {t t' : Topic} (h : t.Extends t') : t ≠ t' := by
  rintro rfl
  obtain ⟨-, x, hx, x', hx', hext⟩ := h
  rw [Option.mem_unique hx hx'] at hext
  exact absurd hext.lt (Nat.lt_irrefl _)

theorem subnet_lt_ten {t : Topic} (h : t ∈ subscribedTopics) {x : UInt64} (hx : t.subnet = some x) : x.toNat < 10 := by
  have hlt : ∀ n < 4, (UInt64.ofNat n).toNat < 10 := by decide
  simp only [subscribedTopics, List.mem_append, List.mem_cons, List.not_mem_nil, or_false, List.mem_map, List.mem_flatMap,
    List.mem_range] at h
  rcases h with ((rfl | rfl) | ⟨n, hn, rfl⟩) | ⟨n, hn, rfl | rfl⟩
  · cases hx
  · cases hx
  · cases hx
    exact hlt n hn
  · cases hx
    exact hlt n hn
  · cases hx
    exact hlt n hn

theorem not_extends_of_subscribed {t t' : Topic} (h' : t' ∈ subscribedTopics) : ¬ t.Extends t' := by
  intro h
  obtain ⟨-, x, -, x', hx', hext⟩ := h
  exact absurd hext.le (Nat.not_le.mpr (subnet_lt_ten h' hx'))

/-- **When eth_consensus messages are separated.** For two topics exactly when the decimal subnet of neither goes
on with further digits as that of the other; for all topics that the plan subscribes to. -/
theorem eth_messages_separated_iff :
    (∀ t t' : Topic, MessagesSeparated t t' ↔ ¬ t.Extends t' ∧ ¬ t'.Extends t) ∧
    ∀ t ∈ subscribedTopics, ∀ t' ∈ subscribedTopics, MessagesSeparated t t' := by
  refine ⟨fun t t' => ⟨fun hsep => ?_, fun h => messagesSeparated_of_not_extends h.1 h.2⟩, fun t ht t' ht' => ?_⟩
  · constructor
    · intro h
      obtain ⟨p, hp⟩ := exists_same_bytes h 0
      exact h.ne ((hsep p [] 0 0).1 hp).1
    · intro h
      obtain ⟨p, hp⟩ := exists_same_bytes h 0
      exact h.ne ((hsep [] p 0 0).1 hp.symm).1.symm
  · exact messagesSeparated_of_not_extends (not_extends_of_subscribed ht') (not_extends_of_subscribed ht)

/-- Subnet 1 and a payload that begins with the digit `2`, against subnet 12. -/
theorem eth_messages_collide :
    hashedBytes (outgoing (.attestations 1) 7 [50]) = hashedBytes (outgoing (.attestations 12) 7 []) ∧
    ¬ ∀ t t' p p' v v', hashedBytes (outgoing t v p) = hashedBytes (outgoing t' v' p') →
      t = t' ∧ p = p' ∧ v = v' := by
  have hsame : hashedBytes (outgoing (.attestations 1) 7 [50]) = hashedBytes (outgoing (.attestations 12) 7 []) := by
    have hname : (Topic.attestations 12).toIdentTopic.hash = (Topic.attestations 1).toIdentTopic.hash ++ "2" := by decide
    rw [hashedBytes, hashedBytes, outgoing, outgoing, hname, PrefixCode.utf8_append, List.append_assoc]
    rfl
  refine ⟨hsame, fun h => ?_⟩
  have := (h _ _ _ _ _ _ hsame).1
  exact absurd this (by decide)

end Eth

end GossipPlans
