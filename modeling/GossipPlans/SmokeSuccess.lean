import GossipPlans.SmokeDiscipline
import Mathlib.Data.Finset.Card

/-!
# smoke: what success says

`event_message` is filled by the barriers and by the message loop, and it is left by `<` before the loop and by
`==` inside it. Its entries are sources of messages, none of them the instance itself, so it has all of the
others as soon as it has `n - 1` entries, and the loop cannot pass that number.
-/

namespace GossipPlans.Smoke

open CounterNet

variable {n : Nat}

/-- The source of a message is another instance, which has published. -/
def FromOthers (w : World n) (i : Fin n) : Event n → Prop
  | .message source => source ≠ i ∧ .act .publish ∈ executed (instances n) w.net source
  | _ => True

def Node.Received (node : Node n) (source : Fin n) : Prop := ∃ loop, (loop, .message source) ∈ node.consumed

/-- What holds of instance `i` after the actions `past` and before `next`. -/
structure Node.Sound (i : Fin n) (past : Program) (next : Option (Act Key Local)) (node : Node n) : Prop where
  heard : ∀ source ∈ node.eventMessage, node.Received source
  buffered : ∀ source, .message source ∈ node.buffer → node.Received source
  foreign : ∀ source, node.Received source → source ≠ i
  short : node.waiting = true → next = some (.act .allSubscribed) ∨
    next = some (.act .receivedAll) ∧ node.eventMessage.card < n - 1
  full : .act .receivedAll ∈ past → n - 1 ≤ node.eventMessage.card

section
variable {i : Fin n} {past : Program} {next next' : Option (Act Key Local)} {node node' : Node n}
  {x : Act Key Local} {event : Event n}

/-! ## Counting the sources -/

theorem card_others (i : Fin n) : (Finset.univ.erase i).card = n - 1 := by
  rw [Finset.card_erase_of_mem (Finset.mem_univ i), Finset.card_univ, Fintype.card_fin]

theorem Node.Sound.subset_others (h : node.Sound i past next) : node.eventMessage ⊆ Finset.univ.erase i := by
  intro source hsource
  apply Finset.mem_erase_of_ne_of_mem
  · exact h.foreign source (h.heard source hsource)
  · exact Finset.mem_univ source

theorem Node.Sound.card_le (h : node.Sound i past next) : node.eventMessage.card ≤ n - 1 := by
  rw [← card_others i]
  exact Finset.card_le_card h.subset_others

theorem Node.Sound.received_of_finished (h : node.Sound i past next) (hfinished : .act .receivedAll ∈ past)
    {j : Fin n} (hj : j ≠ i) : node.Received j := by
  have hall : node.eventMessage = Finset.univ.erase i := by
    apply Finset.eq_of_subset_of_card_le h.subset_others
    rw [card_others]
    exact h.full hfinished
  apply h.heard
  rw [hall]
  exact Finset.mem_erase_of_ne_of_mem hj (Finset.mem_univ j)

/-! ## One step -/

namespace Node.Sound

theorem not_waiting (h : node.Sound i past (some x)) (hsubscribed : x ≠ .act .allSubscribed)
    (hreceived : x ≠ .act .receivedAll) : node.waiting = false := by
  by_contra hwaiting
  rw [Bool.not_eq_false] at hwaiting
  rcases h.short hwaiting with heq | ⟨heq, -⟩
  · exact hsubscribed (Option.some.inj heq)
  · exact hreceived (Option.some.inj heq)

theorem leave (h : node.Sound i past next) (hwaiting : node.waiting = false) (hx : x ≠ .act .receivedAll) :
    node.Sound i (past ++ [x]) next' := by
  refine ⟨h.heard, h.buffered, h.foreign, fun htrue => ?_, fun hmem => ?_⟩
  · rw [hwaiting] at htrue; cases htrue
  · rcases List.mem_append.mp hmem with hpast | hlast
    · exact h.full hpast
    · exact absurd (List.mem_singleton.mp hlast).symm hx

theorem leave_full (h : node.Sound i past next) (hwaiting : node.waiting = false) (hcard : n - 1 ≤ node.eventMessage.card) :
    node.Sound i (past ++ [x]) next' := by
  refine ⟨h.heard, h.buffered, h.foreign, fun htrue => ?_, fun _ => hcard⟩
  rw [hwaiting] at htrue; cases htrue

theorem drive (h : node.Sound i past next) (hwaiting : node.waiting = false) : node.drive.Sound i past next := by
  obtain ⟨subscribed, messages, heq, hmem⟩ := drive_eq node
  rw [heq]
  refine ⟨fun source hsource => ?_, fun source hsource => ?_, h.foreign, fun htrue => ?_, fun hpast => ?_⟩
  · rcases (hmem source).mp hsource with hentered | hbuffer
    · exact h.heard source hentered
    · exact h.buffered source hbuffer
  · cases hsource
  · rw [hwaiting] at htrue; cases htrue
  · apply (h.full hpast).trans
    exact Finset.card_le_card fun source hsource => (hmem source).mpr (Or.inl hsource)

@[simp] theorem received_take {loop : Loop} {source : Fin n} :
    (node.take loop event).Received source ↔ node.Received source ∨ event = .message source := by
  simp only [Node.Received, Node.take, List.mem_append, List.mem_singleton, exists_or, Prod.mk.injEq]
  simp [eq_comm]

theorem take (h : node.Sound i past next) (loop : Loop) (hevent : ∀ source, event = .message source → source ≠ i) :
    (node.take loop event).Sound i past next := by
  refine ⟨fun source hsource => ?_, fun source hsource => ?_, fun source hsource => ?_, h.short, h.full⟩
  · exact received_take.mpr (Or.inl (h.heard source hsource))
  · exact received_take.mpr (Or.inl (h.buffered source hsource))
  · rcases received_take.mp hsource with hold | heq
    · exact h.foreign source hold
    · exact hevent source heq

theorem act (h : node.Sound i past (some x)) (hact : node.act x = some node') : node'.Sound i (past ++ [x]) next' := by
  have hwaiting : node.waiting = false := by
    apply h.not_waiting
    · rintro rfl; cases hact
    · rintro rfl; cases hact
  have hx : x ≠ .act .receivedAll := by
    rintro rfl; cases hact
  cases x with
  | await s k =>
    cases s with
    | state s =>
      cases hact
      obtain ⟨subscribed, messages, heq, -⟩ := drive_eq node
      exact (h.drive hwaiting).leave (by rw [heq]; exact hwaiting) hx
    | topic s => cases hact; exact h.leave hwaiting hx
  | signal s => cases hact; exact h.leave hwaiting hx
  | act a =>
    cases a with
    | connected | allSubscribed | receivedAll => cases hact
    | listen | dial | subscribe | unsubscribe | publish | recordSuccess => cases hact; exact h.leave hwaiting hx

/-- Whether the instance waits is all that a loop changes beside the messages. -/
theorem set (h : node.Sound i past next) (hmessage : node'.eventMessage = node.eventMessage)
    (hbuffer : node'.buffer = node.buffer) (hconsumed : node'.consumed = node.consumed)
    (hshort : node'.waiting = true → next = some (.act .allSubscribed) ∨
      next = some (.act .receivedAll) ∧ node.eventMessage.card < n - 1) : node'.Sound i past next := by
  have hreceived : ∀ source, node.Received source → node'.Received source := by
    rintro source ⟨loop, hmem⟩
    exact ⟨loop, hconsumed ▸ hmem⟩
  refine ⟨?_, ?_, ?_, ?_, ?_⟩
  · rw [hmessage]; exact fun source hsource => hreceived source (h.heard source hsource)
  · rw [hbuffer]; exact fun source hsource => hreceived source (h.buffered source hsource)
  · rintro source ⟨loop, hmem⟩
    exact h.foreign source ⟨loop, hconsumed ▸ hmem⟩
  · rw [hmessage]; exact hshort
  · rw [hmessage]; exact h.full

/-- What a step leaves: the same position, or the next one. -/
def After (i : Fin n) (past : Program) (x : Act Key Local) (next : Option (Act Key Local)) (node : Node n)
    (leaves : Bool) : Prop :=
  if leaves then node.Sound i (past ++ [x]) next else node.Sound i past (some x)

theorem after {leaves : Bool} (h : node.Sound i past (some x)) (hwaiting : leaves = true → node.waiting = false)
    (hx : x ≠ .act .receivedAll) : After i past x next' node leaves := by
  cases leaves with
  | false => exact h
  | true => exact h.leave (hwaiting rfl) hx

theorem test {allPeers : Nat} {leaves : Bool} (h : node.Sound i past (some x))
    (htest : node.test allPeers x = some (node', leaves)) : After i past x next' node' leaves := by
  obtain ⟨a, rfl⟩ := Node.leaves_of_test htest
  cases a with
  | allSubscribed =>
    simp only [Node.test] at htest
    split_ifs at htest with hwaiting hless
    · cases htest
      exact h.set rfl rfl rfl fun _ => Or.inl rfl
    · cases htest
      apply Node.Sound.leave
      · exact h.set rfl rfl rfl h.short
      · simpa using hwaiting
      · decide
  | receivedAll =>
    simp only [Node.test] at htest
    split_ifs at htest with hwaiting hless
    · cases htest
      exact h.set rfl rfl rfl fun _ => Or.inr ⟨rfl, hless⟩
    · cases htest
      apply h.leave_full
      · simpa using hwaiting
      · exact Nat.le_of_not_lt hless
  | listen | dial | connected | subscribe | unsubscribe | publish | recordSuccess => cases htest

theorem barrier (h : node.Sound i past next) (hevent : ∀ source, event = .message source → source ≠ i) :
    Node.Sound i past next { node.take .barrier event with buffer := node.buffer ++ [event] } := by
  have htake := h.take .barrier hevent
  refine ⟨htake.heard, fun source hsource => received_take.mpr ?_, htake.foreign, h.short, h.full⟩
  rcases List.mem_append.mp hsource with hold | hnew
  · exact Or.inl (h.buffered source hold)
  · exact Or.inr (List.mem_singleton.mp hnew).symm

theorem consumeSubscribed (h : node.Sound i past (some (.act .allSubscribed))) : After i past (.act .allSubscribed) next'
    (node.consumeSubscribed event).1 (node.consumeSubscribed event).2 := by
  cases event with
  | subscribed peer =>
    simp only [Node.consumeSubscribed]
    split_ifs with hall
    · apply Node.Sound.leave
      · exact h.set rfl rfl rfl fun _ => Or.inl rfl
      · rfl
      · decide
    · exact h.set rfl rfl rfl h.short
  | unsubscribed | message | gossipsubNotSupported => exact h.set rfl rfl rfl h.short
  | connectionEstablished | other => exact h

/-- A source that is new leaves the loop exactly when it makes the set full. -/
theorem consumeMessage (h : node.Sound i past (some (.act .receivedAll))) (hless : node.eventMessage.card < n - 1)
    (hevent : ∀ source, event = .message source → source ≠ i) : After i past (.act .receivedAll) next'
      ((node.take .receive event).consumeMessage event).1 ((node.take .receive event).consumeMessage event).2 := by
  have htake := h.take .receive hevent
  cases event with
  | message source =>
    have hinsert : ∀ waiting, (waiting = true → (insert source node.eventMessage).card < n - 1) →
        Node.Sound i past (some (.act .receivedAll)) { node.take .receive (.message source) with
          eventMessage := insert source node.eventMessage, waiting := waiting } := by
      intro waiting hwaiting
      refine ⟨fun s hs => ?_, htake.buffered, htake.foreign, fun htrue => Or.inr ⟨rfl, hwaiting htrue⟩, fun hpast => ?_⟩
      · rcases Finset.mem_insert.mp hs with rfl | hold
        · exact received_take.mpr (Or.inr rfl)
        · exact htake.heard s hold
      · apply (h.full hpast).trans
        exact Finset.card_le_card (Finset.subset_insert _ _)
    simp only [Node.consumeMessage]
    split_ifs with hmem hcard
    · exact htake.set rfl rfl rfl htake.short
    · apply (hinsert false fun htrue => by cases htrue).leave_full
      · rfl
      · exact hcard.ge
    · apply (hinsert node.waiting fun _ => ?_)
      have hone := Finset.card_insert_le source node.eventMessage
      exact lt_of_le_of_ne (hone.trans hless) hcard
  | subscribed | unsubscribed | gossipsubNotSupported | connectionEstablished | other => exact htake

theorem consume {leaves : Bool} (h : node.Sound i past (some x)) (hevent : ∀ source, event = .message source → source ≠ i)
    (hconsume : node.consume event x = some (node', leaves)) : After i past x next' node' leaves := by
  cases x with
  | signal s | await s k =>
    cases s with
    | state s => cases hconsume; exact h.barrier hevent
    | topic s => cases hconsume
  | act a =>
    cases a with
    | connected =>
      cases hconsume
      apply (h.take .connect hevent).after
      · exact fun _ => h.not_waiting (by decide) (by decide)
      · decide
    | allSubscribed =>
      obtain ⟨-, hconsume⟩ := Option.ite_none_right_eq_some.mp hconsume
      have hloop : After i past _ next' ((node.take .subscribe event).consumeSubscribed event).1 _ :=
        (h.take .subscribe hevent).consumeSubscribed
      rw [Option.some.inj hconsume] at hloop
      exact hloop
    | receivedAll =>
      obtain ⟨hwaiting, hconsume⟩ := Option.ite_none_right_eq_some.mp hconsume
      have hless : node.eventMessage.card < n - 1 := by
        rcases h.short hwaiting with heq | ⟨-, hless⟩
        · cases heq
        · exact hless
      have hloop : After i past _ next' ((node.take .receive event).consumeMessage event).1 _ :=
        h.consumeMessage hless hevent
      rw [Option.some.inj hconsume] at hloop
      exact hloop
    | listen | dial | subscribe | unsubscribe | publish | recordSuccess => cases hconsume

end Node.Sound

end

/-! ## Every run -/

def Sound (w : World n) : Prop := ∀ i, (w.node i).Sound i (executed (instances n) w.net i) (w.next i)

section
variable {w w' : World n} {i : Fin n} {x : Act Key Local} {node : Node n} {leaves : Bool}

theorem executed_put_of_ne {k : Fin n} (h : k ≠ i) :
    executed (instances n) (w.put i x node leaves).net k = executed (instances n) w.net k := by
  cases leaves with
  | false => rfl
  | true => simp [executed, World.put, Function.update_of_ne h]

theorem executed_put_leave (hx : w.next i = some x) :
    executed (instances n) (w.put i x node true).net i = executed (instances n) w.net i ++ [x] := by
  have hget : (instances n i)[w.net.pc i]? = some x := hx
  simp [executed, World.put, List.take_add_one, hget]

theorem Sound.put (h : Sound w) (hx : w.next i = some x) (hnode : Node.Sound.After i (executed (instances n) w.net i) x
    (main n)[w.net.pc i + 1]? node leaves) : Sound (w.put i x node leaves) := by
  intro k
  by_cases hk : k = i
  · subst hk
    cases leaves with
    | false => rw [node_put, next_put_stay, hx]; exact hnode
    | true => rw [node_put, next_put_leave, executed_put_leave hx]; exact hnode
  · rw [node_put_of_ne hk, next_put_of_ne hk, executed_put_of_ne hk]
    exact h k

theorem Sound.step (h : Sound w) (hmove : Moves FromOthers w i w') : Sound w' := by
  have hi := h i
  cases hmove with
  | act _ hx _ hact =>
    rw [hx] at hi
    exact h.put hx (hi.act hact)
  | test allPeers _ hx htest =>
    rw [hx] at hi
    exact h.put hx (hi.test htest)
  | consume event _ hx hdelivered hconsume =>
    rw [hx] at hi
    apply h.put hx
    apply hi.consume _ hconsume
    rintro source rfl
    exact hdelivered.1

theorem Reaches.sound (h : Reaches FromOthers w) : Sound w := by
  induction h with
  | refl =>
    intro i
    refine ⟨fun source hmem => ?_, fun source hmem => ?_, fun source hreceived => ?_, fun htrue => ?_, fun hmem => ?_⟩
    · cases hmem
    · cases hmem
    · obtain ⟨loop, hmem⟩ := hreceived
      cases hmem
    · cases htrue
    · cases hmem
  | tail _ hmove ih =>
    obtain ⟨i, hmove⟩ := hmove
    exact ih.step hmove

/-- **Success is sound.** An instance that records "Received all the published messages" has received a message
of every other one; the set never gets larger than the number that ends the loop, and it is smaller while the
loop runs, so the loop ends at the message that makes it full. -/
theorem success_sound (h : Reaches FromOthers w) (i : Fin n) :
    (.act .receivedAll ∈ executed (instances n) w.net i → ∀ j, j ≠ i → (w.node i).Received j) ∧
      (w.node i).eventMessage.card ≤ n - 1 ∧
      (w.next i = some (.act .receivedAll) → (w.node i).waiting = true → (w.node i).eventMessage.card < n - 1) := by
  have hi := h.sound i
  refine ⟨fun hfinished j hj => hi.received_of_finished hfinished hj, hi.card_le, fun hx hwaiting => ?_⟩
  rcases hi.short hwaiting with heq | ⟨-, hless⟩
  · rw [hx] at heq; cases heq
  · exact hless

end

instance decidableFromOthers (w : World n) (i : Fin n) : (event : Event n) → Decidable (FromOthers w i event)
  | .message _ => inferInstanceAs (Decidable (_ ∧ _))
  | .subscribed _ => inferInstanceAs (Decidable True)
  | .unsubscribed _ => inferInstanceAs (Decidable True)
  | .gossipsubNotSupported _ => inferInstanceAs (Decidable True)
  | .connectionEstablished _ => inferInstanceAs (Decidable True)
  | .other => inferInstanceAs (Decidable True)

theorem success_sound_two : ∃ w : World 2, Reaches FromOthers w ∧
    .act .receivedAll ∈ executed (instances 2) w.net 0 ∧ (w.node 0).Received 1 := by
  have hrun : ∃ w ∈ World.init.moveAll FromOthers (smokeRun (0 : Fin 2) 1), .act .receivedAll ∈ executed (instances 2) w.net 0 := by
    decide
  obtain ⟨w, hw, hfinished⟩ := hrun
  have hreaches := reaches_of_moveAll _ .refl hw
  exact ⟨w, hreaches, hfinished, (success_sound hreaches 0).1 hfinished 1 (by decide)⟩

/-! ## Success of one -/

/-- An instance that has failed stays in the loop where that happened. -/
def Halted (w : World n) : Prop := ∀ i, (w.node i).outcome ≠ .running →
  w.next i = some (.act .allSubscribed) ∨ w.next i = some (.act .receivedAll)

section
variable {D : World n → Fin n → Event n → Prop} {w w' : World n} {i : Fin n} {node node' : Node n} {x : Act Key Local}
  {event : Event n} {leaves : Bool}

theorem outcome_act (h : node.act x = some node') : node'.outcome = node.outcome := by
  obtain ⟨subscribed, messages, heq, -⟩ := drive_eq node
  cases x with
  | signal s => cases h; rfl
  | await s k =>
    cases s with
    | state s => cases h; rw [heq]
    | topic s => cases h; rfl
  | act a =>
    cases a with
    | connected | allSubscribed | receivedAll => cases h
    | listen | dial | subscribe | unsubscribe | publish | recordSuccess => cases h; rfl

theorem outcome_test {allPeers : Nat} (h : node.test allPeers x = some (node', leaves)) :
    node'.outcome = node.outcome := by
  obtain ⟨a, rfl⟩ := Node.leaves_of_test h
  cases a with
  | allSubscribed | receivedAll =>
    simp only [Node.test] at h
    split_ifs at h <;> cases h <;> rfl
  | listen | dial | connected | subscribe | unsubscribe | publish | recordSuccess => cases h

/-- An event that ends the run with an error is taken in one of two loops, and the loop is not left. -/
theorem outcome_consume (h : node.consume event x = some (node', leaves)) : node'.outcome = node.outcome ∨
    leaves = false ∧ (x = .act .allSubscribed ∨ x = .act .receivedAll) := by
  cases x with
  | signal s | await s k =>
    cases s with
    | state s => cases h; exact Or.inl rfl
    | topic s => cases h
  | act a =>
    cases a with
    | connected => cases h; exact Or.inl rfl
    | allSubscribed =>
      obtain ⟨-, h⟩ := Option.ite_none_right_eq_some.mp h
      cases event with
      | subscribed peer =>
        simp only [Node.consumeSubscribed] at h
        split_ifs at h <;> cases h <;> exact Or.inl rfl
      | unsubscribed | message | gossipsubNotSupported => cases h; exact Or.inr ⟨rfl, Or.inl rfl⟩
      | connectionEstablished | other => cases h; exact Or.inl rfl
    | receivedAll =>
      obtain ⟨-, h⟩ := Option.ite_none_right_eq_some.mp h
      cases event with
      | message source =>
        simp only [Node.consumeMessage] at h
        split_ifs at h
        · cases h; exact Or.inr ⟨rfl, Or.inr rfl⟩
        · cases h; exact Or.inl rfl
        · cases h; exact Or.inl rfl
      | subscribed | unsubscribed | gossipsubNotSupported | connectionEstablished | other => cases h; exact Or.inl rfl
    | listen | dial | subscribe | unsubscribe | publish | recordSuccess => cases h

theorem Halted.put (h : Halted w) (hnode : node.outcome ≠ .running → (w.put i x node leaves).next i = some (.act .allSubscribed) ∨
    (w.put i x node leaves).next i = some (.act .receivedAll)) : Halted (w.put i x node leaves) := by
  intro k
  by_cases hk : k = i
  · subst hk; rw [node_put]; exact hnode
  · rw [node_put_of_ne hk, next_put_of_ne hk]; exact h k

theorem Halted.step (h : Halted w) (hmove : Moves D w i w') : Halted w' := by
  cases hmove with
  | act hrun _ _ hact =>
    apply h.put
    rw [outcome_act hact]
    exact fun hne => absurd hrun hne
  | test allPeers hrun _ htest =>
    apply h.put
    rw [outcome_test htest]
    exact fun hne => absurd hrun hne
  | consume event hrun hx _ hconsume =>
    apply h.put
    intro hne
    rcases outcome_consume hconsume with heq | ⟨rfl, hloop⟩
    · exact absurd (heq.trans hrun) hne
    · rw [next_put_stay, hx]
      exact hloop.imp (congrArg some) (congrArg some)

theorem Reaches.halted (h : Reaches D w) : Halted w := by
  induction h with
  | refl => exact fun i hne => absurd rfl hne
  | tail _ hmove ih =>
    obtain ⟨i, hmove⟩ := hmove
    exact ih.step hmove

theorem signals_published : signals (.state publishedAMessage) (main n) = 1 := by
  simp [main, startLibp2p, connectToAPeer, subscribeATopic, publishASingleMessage, Act.isSignal, startedListening,
    connectedToAPeer, subscribedATopic, publishedAMessage]

/-- Whoever has signalled the last barrier has published and has left the loop before it. -/
theorem done_of_signalled {j : Fin n} (h : .signal (.state publishedAMessage) ∈ executed (instances n) w.net j) :
    .act .publish ∈ executed (instances n) w.net j ∧ .act .receivedAll ∈ executed (instances n) w.net j := by
  have hprecedes : ∀ a ∈ [Local.publish, .receivedAll], Precedes (main n) (.act a) (.signal (.state publishedAMessage)) := by
    intro a ha
    apply precedes_skip
    · simp [startLibp2p, startedListening, publishedAMessage]
    apply precedes_skip
    · simp [connectToAPeer, connectedToAPeer, publishedAMessage]
    apply precedes_skip
    · simp [subscribeATopic, subscribedATopic, publishedAMessage]
    show Precedes ([Act.act Local.publish, .act .receivedAll] ++ _) _ _
    apply precedes_append
    · simpa using ha
    · simp
  exact ⟨executed_of_precedes (hprecedes _ (by simp)) h, executed_of_precedes (hprecedes _ (by simp)) h⟩

theorem signalled_of_success (h : Reachable (instances n) w.net)
    (hs : .act .recordSuccess ∈ executed (instances n) w.net i) (j : Fin n) :
    .signal (.state publishedAMessage) ∈ executed (instances n) w.net j := by
  have hawait : .await (.state publishedAMessage) n ∈ executed (instances n) w.net i := by
    apply executed_of_precedes _ hs
    have hsplit : main n = (startLibp2p n ++ (connectToAPeer n ++ (subscribeATopic n ++ [.act .publish, .act .receivedAll]))) ++
        (signalAndWait publishedAMessage n ++ [.act .recordSuccess]) := by
      simp [main, publishASingleMessage]
    show Precedes (main n) _ _
    rw [hsplit]
    apply precedes_skip
    · simp [startLibp2p, connectToAPeer, subscribeATopic]
    apply precedes_append <;> simp
  exact h.barrier (fun _ => signals_published.le) (Fintype.card_fin n).le hawait j

theorem executed_at_receive (hx : w.next i = some (.act .receivedAll)) : executed (instances n) w.net i =
    startLibp2p n ++ (connectToAPeer n ++ (subscribeATopic n ++ [.act .publish])) := by
  apply executed_of_next _ (signalAndWait publishedAMessage n ++ [.act .recordSuccess]) ?_ ?_ ?_ hx
  · simp [instances, main, publishASingleMessage]
  · simp [startLibp2p, connectToAPeer, subscribeATopic]
  · simp

/-- **Success of one is success of all.** As soon as one instance records success, every instance has published and has
received the message of every other one, and nobody has failed. -/
theorem success_of_one (h : Reaches FromOthers w) (i : Fin n) (hs : .act .recordSuccess ∈ executed (instances n) w.net i)
    (j : Fin n) : (w.node j).outcome = .running ∧ .act .publish ∈ executed (instances n) w.net j ∧
      ∀ k, k ≠ j → (w.node j).Received k := by
  have hsignal := signalled_of_success h.net hs j
  obtain ⟨hpublish, hfinished⟩ := done_of_signalled hsignal
  refine ⟨?_, hpublish, fun k hk => (h.sound j).received_of_finished hfinished hk⟩
  by_contra hne
  rcases h.halted j hne with hx | hx
  · rw [executed_at_subscribe hx] at hfinished
    simp [startLibp2p, connectToAPeer] at hfinished
  · rw [executed_at_receive hx] at hfinished
    simp [startLibp2p, connectToAPeer, subscribeATopic] at hfinished

theorem success_of_one_two : ∃ w : World 2, Reaches FromOthers w ∧ .act .recordSuccess ∈ executed (instances 2) w.net 0 ∧
    (w.node 1).outcome = .running ∧ (w.node 1).Received 0 := by
  have hrun : ∃ w ∈ World.init.moveAll FromOthers (smokeRun (0 : Fin 2) 1), .act .recordSuccess ∈ executed (instances 2) w.net 0 := by
    decide
  obtain ⟨w, hw, hs⟩ := hrun
  have hreaches := reaches_of_moveAll _ .refl hw
  obtain ⟨hrunning, -, hreceived⟩ := success_of_one hreaches 0 hs 1
  exact ⟨w, hreaches, hs, hrunning, hreceived 0 (by decide)⟩

end

end GossipPlans.Smoke
