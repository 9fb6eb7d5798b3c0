import GossipPlans.Fragment
import GossipPlans.NextFit

/-!
# Fragmenting is next-fit packing

The two macros and the six loops place the items of an rpc one after the other, in the order
`publish`, `subscriptions`, `control` (`fragmentMessage_eq`). So the fragments hold the items of the
rpc, each once and in order.
-/

namespace GossipPlans

open NextFit (Bins Policy pack place)

variable {S : Schema}

/-! ## Items -/

/-- What one step adds to a fragment: an object of one field, or the whole control message. -/
inductive Item (S : Schema) where
  | one (k : Kind) (x : S.Body k)
  | whole (control : ControlMessage S)

def Item.size : Item S → Nat
  | .one _ x => S.encodedLen x
  | .whole c => c.encodedLen

def ControlMessage.append (c d : ControlMessage S) : ControlMessage S :=
  ⟨c.ihave ++ d.ihave, c.iwant ++ d.iwant, c.graft ++ d.graft, c.prune ++ d.prune⟩

/-- Adding never drops anything: a control message already there is kept. -/
def Rpc.put (rpc : Rpc S) : Item S → Rpc S
  | .one k x => rpc.push k x
  | .whole c => { rpc with control := some ((rpc.control.getD .default).append c) }

def Rpc.field (rpc : Rpc S) : (k : Kind) → List (S.Body k)
  | .subscriptions => rpc.subscriptions
  | .publish => rpc.publish
  | .ihave => (rpc.control.getD .default).ihave
  | .iwant => (rpc.control.getD .default).iwant
  | .graft => (rpc.control.getD .default).graft
  | .prune => (rpc.control.getD .default).prune

def Item.field (k : Kind) : Item S → List (S.Body k)
  | .one k' x => if h : k' = k then [h ▸ x] else []
  | .whole c => Rpc.field ⟨[], [], some c⟩ k

theorem field_put (rpc : Rpc S) (i : Item S) (k : Kind) : (rpc.put i).field k = rpc.field k ++ i.field k := by
  cases i with
  | one k' x => cases k' <;> cases k <;> simp [Rpc.put, Rpc.push, Rpc.field, Item.field]
  | whole c => cases k <;> simp [Rpc.put, Rpc.field, Item.field, ControlMessage.append]

theorem isNew_put (rpc : Rpc S) (i : Item S) : (rpc.put i).isNew = false := by
  cases i with
  | one k x => cases k <;> simp [Rpc.put, Rpc.push, Rpc.isNew]
  | whole c => simp [Rpc.put, Rpc.isNew]

def policy (S : Schema) : Policy (Rpc S) (Item S) where
  empty := Rpc.new
  put := Rpc.put
  isEmpty := Rpc.isNew
  len := Rpc.encodedLen
  reserve i := withPrefix i.size

def controlItems (maxTransmitSize : Nat) : Option (ControlMessage S) → List (Item S)
  | none => []
  | some c =>
    if maxTransmitSize < c.encodedLen + 2 then
      c.ihave.map (.one .ihave) ++ c.iwant.map (.one .iwant) ++ c.graft.map (.one .graft) ++ c.prune.map (.one .prune)
    else [.whole c]

def items (maxTransmitSize : Nat) (rpc : Rpc S) : List (Item S) :=
  rpc.publish.map (.one .publish) ++ rpc.subscriptions.map (.one .subscriptions) ++
    controlItems maxTransmitSize rpc.control

theorem flatMap_one_self {k : Kind} (xs : List (S.Body k)) : (xs.map (Item.one k)).flatMap (Item.field k) = xs := by
  simp [List.flatMap_map, Item.field]

theorem flatMap_one_ne {k k' : Kind} (h : k' ≠ k) (xs : List (S.Body k')) :
    (xs.map (Item.one k')).flatMap (Item.field k) = [] := by
  simp [List.flatMap_map, Item.field, h]

theorem items_field (maxTransmitSize : Nat) (rpc : Rpc S) (k : Kind) :
    (items maxTransmitSize rpc).flatMap (Item.field k) = rpc.field k := by
  obtain ⟨subs, pub, control⟩ := rpc
  have hcontrol : (controlItems maxTransmitSize control).flatMap (Item.field k) = Rpc.field ⟨[], [], control⟩ k := by
    cases control with
    | none => cases k <;> rfl
    | some c =>
      rw [controlItems]
      split
      · cases k <;> simp [flatMap_one_self, flatMap_one_ne, Rpc.field]
      · simp [Item.field]
  rw [items, List.flatMap_append, List.flatMap_append, hcontrol]
  cases k <;> simp [flatMap_one_self, flatMap_one_ne, Rpc.field]

/-! ## The loops place their items -/

def RpcList.bins (list : RpcList S) : Bins (Rpc S) := ⟨list.closed, list.last⟩

section
variable (maxTransmitSize : Nat)

theorem createOrAddRpc_eq (i : Item S) (list : RpcList S) : createOrAddRpc maxTransmitSize i.size list =
    if NextFit.Opens (policy S) maxTransmitSize list.last i then ⟨list.closed ++ [list.last], Rpc.new⟩ else list :=
  rfl

theorem place_eq (i : Item S) (list : RpcList S) :
    let l := createOrAddRpc maxTransmitSize i.size list
    place (policy S) maxTransmitSize list.bins i = RpcList.bins { l with last := l.last.put i } := by
  intro l
  by_cases h : NextFit.Opens (policy S) maxTransmitSize list.last i
  · have hl : l = ⟨list.closed ++ [list.last], Rpc.new⟩ := (createOrAddRpc_eq ..).trans (if_pos h)
    rw [place, hl]
    exact if_pos h
  · have hl : l = list := (createOrAddRpc_eq ..).trans (if_neg h)
    rw [place, hl]
    exact if_neg h

theorem createOrAddRpc_push (k : Kind) (x : S.Body k) (list : RpcList S) :
    let l := createOrAddRpc maxTransmitSize (S.encodedLen x) list
    RpcList.bins { l with last := l.last.push k x } = place (policy S) maxTransmitSize list.bins (.one k x) :=
  (place_eq maxTransmitSize (.one k x) list).symm

theorem addControl_eq (k : Kind) : ∀ (xs : List (S.Body k)) (list : RpcList S),
    (addControl maxTransmitSize k xs list).bins = pack (policy S) maxTransmitSize list.bins (xs.map (.one k))
  | [], _ => rfl
  | x :: xs, list => by
    rw [addControl, addControl_eq k xs, createOrAddRpc_push]; rfl

theorem addItems_ok (k : Kind) : ∀ (xs : List (S.Body k)) (list : RpcList S),
    (∀ x ∈ xs, S.encodedLen x + 2 ≤ maxTransmitSize) →
    ∃ list', addItems maxTransmitSize k xs list = .ok list' ∧
      list'.bins = pack (policy S) maxTransmitSize list.bins (xs.map (.one k))
  | [], list, _ => ⟨list, rfl, rfl⟩
  | x :: xs, list, h => by
    obtain ⟨list', hl, hb⟩ := addItems_ok k xs _ fun y hy => h y (List.mem_cons_of_mem _ hy)
    refine ⟨list', ?_, hb.trans (by rw [createOrAddRpc_push]; rfl)⟩
    rw [addItems, if_neg (Nat.not_lt.mpr (h x (List.mem_cons_self ..)))]
    exact hl

theorem addItems_error (k : Kind) : ∀ (xs : List (S.Body k)) (list : RpcList S),
    (∃ x ∈ xs, maxTransmitSize < S.encodedLen x + 2) → addItems maxTransmitSize k xs list = .error .messageTooLarge
  | [], _, h => by obtain ⟨x, hx, -⟩ := h; cases hx
  | x :: xs, list, h => by
    rw [addItems]
    split
    · rfl
    · rename_i hx
      apply addItems_error k xs
      obtain ⟨y, hy, hlt⟩ := h
      rcases List.mem_cons.mp hy with rfl | hy
      · exact absurd hlt hx
      · exact ⟨y, hy, hlt⟩

def TooLarge (rpc : Rpc S) : Prop :=
  (∃ m ∈ rpc.publish, maxTransmitSize < S.encodedLen m + 2) ∨
    ∃ s ∈ rpc.subscriptions, maxTransmitSize < S.encodedLen s + 2

instance (rpc : Rpc S) : Decidable (TooLarge maxTransmitSize rpc) := inferInstanceAs (Decidable (_ ∨ _))

theorem control_push_none {rpc : Rpc S} {k : Kind} (hk : k = .publish ∨ k = .subscriptions) (x : S.Body k)
    (h : rpc.control = none) : (rpc.push k x).control = none := by
  rcases hk with rfl | rfl
  · exact h
  · exact h

theorem createOrAddRpc_control (objectSize : Nat) {list : RpcList S} (h : list.last.control = none) :
    (createOrAddRpc maxTransmitSize objectSize list).last.control = none := by
  unfold createOrAddRpc
  split
  · rfl
  · exact h

/-- Assigning the whole control message overwrites nothing, because no fragment has one yet. -/
theorem assign_control (control : ControlMessage S) (list : RpcList S) (h : list.last.control = none) :
    let l := createOrAddRpc maxTransmitSize control.encodedLen list
    RpcList.bins { l with last := { l.last with control := some control } } =
      place (policy S) maxTransmitSize list.bins (.whole control) := by
  intro l
  have hl : l.last.control = none := createOrAddRpc_control maxTransmitSize _ h
  rw [place_eq]
  show _ = RpcList.bins { l with last := l.last.put (.whole control) }
  simp only [Rpc.put, hl]
  rfl

/-- **The refinement.** An rpc that is not sent as it is gets packed, unless an item is refused. -/
theorem fragmentMessage_eq {rpc : Rpc S} (h : maxTransmitSize ≤ rpc.encodedLen) :
    fragmentMessage maxTransmitSize rpc =
      if TooLarge maxTransmitSize rpc then .error .messageTooLarge
      else .ok (pack (policy S) maxTransmitSize ⟨[], Rpc.new⟩ (items maxTransmitSize rpc)).toList := by
  rw [fragmentMessage, if_neg (Nat.not_lt.mpr h)]
  by_cases hpub : ∃ m ∈ rpc.publish, maxTransmitSize < S.encodedLen m + 2
  · have htoo : TooLarge maxTransmitSize rpc := Or.inl hpub
    rw [if_pos htoo, addItems_error _ _ _ _ hpub]; rfl
  obtain ⟨l₁, hl₁, hb₁⟩ := addItems_ok maxTransmitSize .publish rpc.publish ⟨[], Rpc.new⟩
    fun x hx => Nat.le_of_not_lt fun hlt => hpub ⟨x, hx, hlt⟩
  by_cases hsub : ∃ s ∈ rpc.subscriptions, maxTransmitSize < S.encodedLen s + 2
  · have htoo : TooLarge maxTransmitSize rpc := Or.inr hsub
    rw [if_pos htoo, hl₁]
    simp only [Bind.bind, Except.bind]
    rw [addItems_error _ _ _ _ hsub]
  obtain ⟨l₂, hl₂, hb₂⟩ := addItems_ok maxTransmitSize .subscriptions rpc.subscriptions l₁
    fun x hx => Nat.le_of_not_lt fun hlt => hsub ⟨x, hx, hlt⟩
  have hb : l₂.bins = pack (policy S) maxTransmitSize ⟨[], Rpc.new⟩
      (rpc.publish.map (.one .publish) ++ rpc.subscriptions.map (.one .subscriptions)) := by
    rw [NextFit.pack_append, hb₂, hb₁]; rfl
  have hnone : l₂.last.control = none := by
    have hlast := NextFit.last_pack (policy S) maxTransmitSize (Q := fun r => r.control = none) rfl
      (rpc.publish.map (.one .publish) ++ rpc.subscriptions.map (.one .subscriptions)) ⟨[], Rpc.new⟩ rfl ?_
    · rwa [← hb] at hlast
    · intro b i hi hc
      rcases List.mem_append.mp hi with hi | hi
      · obtain ⟨x, -, rfl⟩ := List.mem_map.mp hi; exact control_push_none (Or.inl rfl) x hc
      · obtain ⟨x, -, rfl⟩ := List.mem_map.mp hi; exact control_push_none (Or.inr rfl) x hc
  have htoo : ¬ TooLarge maxTransmitSize rpc := not_or.mpr ⟨hpub, hsub⟩
  rw [if_neg htoo, hl₁]
  simp only [Bind.bind, Except.bind]
  rw [hl₂, items, NextFit.pack_append, ← hb]
  cases rpc.control with
  | none => rfl
  | some control =>
    simp only [controlItems, gt_iff_lt]
    split
    · simp only [NextFit.pack_append, ← addControl_eq]; rfl
    · exact congrArg (fun b => Except.ok (Bins.toList b)) (assign_control maxTransmitSize control l₂ hnone)

end

/-! ## Nothing is lost -/

theorem field_new (k : Kind) : (Rpc.new : Rpc S).field k = [] := by
  cases k <;> rfl

theorem items_ne_nil {maxTransmitSize : Nat} {rpc : Rpc S} (hmax : 2 ≤ maxTransmitSize)
    (h : maxTransmitSize ≤ rpc.encodedLen) : items maxTransmitSize rpc ≠ [] := by
  obtain ⟨subs, pub, control⟩ := rpc
  intro hnil
  simp only [items, List.append_eq_nil_iff, List.map_eq_nil_iff] at hnil
  obtain ⟨⟨rfl, rfl⟩, hc⟩ := hnil
  cases control with
  | none =>
    simp only [Rpc.encodedLen, framedLen, List.map_nil, List.sum_nil, Option.map_none, Option.getD_none] at h
    omega
  | some c =>
    simp only [controlItems] at hc
    split at hc
    · rename_i hlt
      simp only [List.append_eq_nil_iff, List.map_eq_nil_iff] at hc
      simp only [ControlMessage.encodedLen, framedLen, hc, List.map_nil, List.sum_nil] at hlt
      omega
    · cases hc

theorem fragmentMessage_field {maxTransmitSize : Nat} {rpc : Rpc S} {list : List (Rpc S)}
    (h : fragmentMessage maxTransmitSize rpc = .ok list) (k : Kind) : list.flatMap (·.field k) = rpc.field k := by
  rcases Nat.lt_or_ge rpc.encodedLen maxTransmitSize with hlt | hge
  · rw [fragmentMessage, if_pos hlt] at h
    cases h
    simp
  rw [fragmentMessage_eq maxTransmitSize hge] at h
  split at h
  · cases h
  cases h
  rw [NextFit.flatMap_pack (policy S) maxTransmitSize (field_new k) fun b i => field_put b i k, items_field]
  simp [Bins.toList, field_new]

theorem fragmentMessage_ok {maxTransmitSize : Nat} {rpc : Rpc S} (h : ¬ TooLarge maxTransmitSize rpc) :
    ∃ list, fragmentMessage maxTransmitSize rpc = .ok list := by
  rcases Nat.lt_or_ge rpc.encodedLen maxTransmitSize with hlt | hge
  · exact ⟨[rpc], by rw [fragmentMessage, if_pos hlt]⟩
  · exact ⟨_, by rw [fragmentMessage_eq maxTransmitSize hge, if_neg h]⟩

/-- **Fragments carry the rpc.** The fragments are at least one, their fields concatenate to the
fields of the rpc, and none of them is empty unless the rpc is. -/
theorem fragmentMessage_carries (maxTransmitSize : Nat) (hmax : 2 ≤ maxTransmitSize) (rpc : Rpc S)
    (list : List (Rpc S)) (h : fragmentMessage maxTransmitSize rpc = .ok list) :
    list ≠ [] ∧ list.flatMap Rpc.publish = rpc.publish ∧ list.flatMap Rpc.subscriptions = rpc.subscriptions ∧
      list.flatMap (·.field .ihave) = rpc.field .ihave ∧ list.flatMap (·.field .iwant) = rpc.field .iwant ∧
      list.flatMap (·.field .graft) = rpc.field .graft ∧ list.flatMap (·.field .prune) = rpc.field .prune ∧
      (Rpc.new ∈ list → rpc = Rpc.new) := by
  have hfield := fragmentMessage_field h
  rcases Nat.lt_or_ge rpc.encodedLen maxTransmitSize with hlt | hge
  · rw [fragmentMessage, if_pos hlt] at h
    cases h
    simp [eq_comm]
  rw [fragmentMessage_eq maxTransmitSize hge] at h
  split at h
  · cases h
  cases h
  refine ⟨by simp [Bins.toList], hfield .publish, hfield .subscriptions, hfield .ihave, hfield .iwant, hfield .graft,
    hfield .prune, fun hnew => ?_⟩
  have hmem := NextFit.mem_pack (policy S) maxTransmitSize (Q := fun r => r.isNew = false) isNew_put
    (items maxTransmitSize rpc) ⟨[], Rpc.new⟩ (fun _ h => absurd h List.not_mem_nil) (fun h => h)
    (Or.inl (items_ne_nil hmax hge)) _ hnew
  cases hmem

def Schema.encoded : Schema := ⟨fun _ => List UInt8, fun x => x.length⟩

/-- A publish and a control message, too long for one fragment of 100 bytes. -/
theorem fragmentMessage_carries_two : (fragmentMessage (S := Schema.encoded) 100
    ⟨[], [List.replicate 60 0], some ⟨[List.replicate 50 1], [], [], []⟩⟩).map
      (fun list => list.flatMap (·.field .ihave)) = .ok [List.replicate 50 1] := by
  have hok : (fragmentMessage (S := Schema.encoded) 100
      ⟨[], [List.replicate 60 0], some ⟨[List.replicate 50 1], [], [], []⟩⟩).isOk = true := by decide
  rcases hlist : fragmentMessage (S := Schema.encoded) 100
    ⟨[], [List.replicate 60 0], some ⟨[List.replicate 50 1], [], [], []⟩⟩ with e | list
  · rw [hlist] at hok; cases hok
  · have h := fragmentMessage_carries 100 (by decide) _ list hlist
    exact congrArg Except.ok h.2.2.2.1

end GossipPlans
