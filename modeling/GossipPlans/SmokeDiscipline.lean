import GossipPlans.SmokeEvents
import Mathlib.Tactic.IntervalCases

/-!
# smoke: which events arrive where

An instance in a loop has yet to signal the barrier after it, so no instance has passed that barrier: nobody has
subscribed while one waits for its connection, and nobody has published while one waits for subscriptions. The
barriers see to it that no loop gets an event that it drops or panics on.
-/

namespace GossipPlans.Smoke

open CounterNet

variable {n : Nat}

/-! ## The phases of the others -/

section
variable {D : World n → Fin n → Event n → Prop} {w w' : World n} {i j : Fin n}

/-- A step is a step of the counters' net, or leaves it as it is. -/
theorem Moves.net (h : Moves D w i w') : w'.net = w.net ∨ Step (instances n) i w.net w'.net := by
  cases h with
  | act _ hx hready _ => exact Or.inr (.next hx hready)
  | @test x node leaves allPeers _ hx ht =>
    obtain ⟨a, rfl⟩ := Node.leaves_of_test ht
    cases leaves with
    | false => exact Or.inl rfl
    | true => exact Or.inr (.next hx trivial)
  | @consume x node leaves event _ hx _ hc =>
    cases leaves with
    | false => exact Or.inl rfl
    | true =>
      obtain ⟨a, rfl⟩ := Node.leaves_of_consume hc
      exact Or.inr (.next hx trivial)

/-- **The projection.** What the instances do with their events is a run of the net. -/
theorem Reaches.net (h : Reaches D w) : Reachable (instances n) w.net := by
  induction h with
  | refl => exact .refl
  | tail _ hmove ih =>
    obtain ⟨i, hmove⟩ := hmove
    rcases hmove.net with heq | hstep
    · rw [heq]; exact ih
    · exact ih.tail ⟨i, hstep, trivial⟩

theorem signals_main {s : String} (hs : s = connectedToAPeer ∨ s = subscribedATopic) :
    signals (.state s) (main n) = 1 := by
  rcases hs with rfl | rfl <;>
    simp [main, startLibp2p, connectToAPeer, subscribeATopic, publishASingleMessage, Act.isSignal, startedListening,
      connectedToAPeer, subscribedATopic, publishedAMessage]

theorem connected_of_subscribe (h : Reachable (instances n) w.net)
    (hs : .act .subscribe ∈ executed (instances n) w.net j) (i : Fin n) :
    .signal (.state connectedToAPeer) ∈ executed (instances n) w.net i := by
  have hawait : .await (.state connectedToAPeer) n ∈ executed (instances n) w.net j := by
    apply executed_of_precedes _ hs
    show Precedes (startLibp2p n ++ (connectToAPeer n ++ _)) _ _
    apply precedes_skip
    · simp [startLibp2p]
    apply precedes_append <;> simp [connectToAPeer]
  exact h.barrier (fun _ => (signals_main (Or.inl rfl)).le) (Fintype.card_fin n).le hawait i

theorem subscribed_of_publish (h : Reachable (instances n) w.net)
    (hs : .act .publish ∈ executed (instances n) w.net j) (i : Fin n) :
    .signal (.state subscribedATopic) ∈ executed (instances n) w.net i := by
  have hawait : .await (.state subscribedATopic) n ∈ executed (instances n) w.net j := by
    apply executed_of_precedes _ hs
    show Precedes (startLibp2p n ++ (connectToAPeer n ++ (subscribeATopic n ++ _))) _ _
    apply precedes_skip
    · simp [startLibp2p]
    apply precedes_skip
    · simp [connectToAPeer]
    apply precedes_append <;> simp [subscribeATopic]
  exact h.barrier (fun _ => (signals_main (Or.inr rfl)).le) (Fintype.card_fin n).le hawait i

theorem executed_at_connect (hx : w.next i = some (.act .connected)) : executed (instances n) w.net i =
    startLibp2p n ++ (publishAndCollect "publish_and_collect" n ++ [.act .dial]) := by
  apply executed_of_next _ (signalAndWait connectedToAPeer n ++ (subscribeATopic n ++ publishASingleMessage n)) ?_ ?_ ?_ hx
  · simp [instances, main, connectToAPeer]
  · simp [startLibp2p]
  · simp [subscribeATopic, publishASingleMessage]

theorem executed_at_subscribe (hx : w.next i = some (.act .allSubscribed)) : executed (instances n) w.net i =
    startLibp2p n ++ (connectToAPeer n ++ [.act .subscribe]) := by
  apply executed_of_next _ (signalAndWait subscribedATopic n ++ publishASingleMessage n) ?_ ?_ ?_ hx
  · simp [instances, main, subscribeATopic]
  · simp [startLibp2p, connectToAPeer]
  · simp [publishASingleMessage]

theorem quiet_at_connect (h : Reachable (instances n) w.net) (hx : w.next i = some (.act .connected)) :
    .act .subscribe ∉ executed (instances n) w.net j ∧ .act .publish ∉ executed (instances n) w.net j := by
  constructor
  · intro hs
    have hsignal := connected_of_subscribe h hs i
    rw [executed_at_connect hx] at hsignal
    simp [startLibp2p, startedListening, connectedToAPeer] at hsignal
  · intro hs
    have hsignal := subscribed_of_publish h hs i
    rw [executed_at_connect hx] at hsignal
    simp [startLibp2p, startedListening, subscribedATopic] at hsignal

theorem quiet_at_subscribe (h : Reachable (instances n) w.net) (hx : w.next i = some (.act .allSubscribed)) :
    .act .publish ∉ executed (instances n) w.net j := by
  intro hs
  have hsignal := subscribed_of_publish h hs i
  rw [executed_at_subscribe hx] at hsignal
  simp [startLibp2p, connectToAPeer, startedListening, connectedToAPeer,
    subscribedATopic] at hsignal

theorem not_unsubscribed : .act .unsubscribe ∉ executed (instances n) w.net j := by
  intro h
  have hmem := List.mem_of_mem_take h
  simp [instances, main, startLibp2p, connectToAPeer, subscribeATopic, publishASingleMessage, signalAndWait,
    publishAndCollect] at hmem

end

/-! ## The discipline -/

def isBarrier : Act Key Local → Bool
  | .signal (.state _) => true
  | .await (.state _) _ => true
  | _ => false

/-- What holds of an instance whose next action is `next`. -/
structure Node.Disciplined (node : Node n) (next : Option (Act Key Local)) : Prop where
  not_unreachable : node.outcome ≠ .unreachable
  subscribe_loop : ∀ source, (.subscribe, .message source) ∉ node.consumed
  connect_loop : ∀ peer, (.connect, .subscribed peer) ∉ node.consumed
  recorded : ∀ loop source, (loop, .message source) ∈ node.consumed →
    source ∈ node.eventMessage ∨ .message source ∈ node.buffer
  buffer_barrier : node.buffer ≠ [] → ∃ x, next = some x ∧ isBarrier x = true

def Disciplined (w : World n) : Prop := ∀ i, (w.node i).Disciplined (w.next i)

theorem await_after_signal {k : Nat} {s : String} (h : (main n)[k]? = some (.signal (.state s))) :
    (main n)[k + 1]? = some (.await (.state s) n) := by
  have hlt : k < 18 := (List.getElem?_eq_some_iff.mp h).1
  interval_cases k <;> simp_all [main, startLibp2p, connectToAPeer, subscribeATopic, publishASingleMessage,
    signalAndWait, publishAndCollect]

/-- What a loop is prepared for. -/
def Expected : Act Key Local → Event n → Prop
  | .act .connected, .subscribed _ => False
  | .act .connected, .message _ => False
  | .act .allSubscribed, .unsubscribed _ => False
  | .act .allSubscribed, .message _ => False
  | .act .allSubscribed, .gossipsubNotSupported _ => False
  | _, _ => True

theorem expected_of_sent {w : World n} {i : Fin n} {x : Act Key Local} {event : Event n}
    (hnet : Reachable (instances n) w.net) (hx : w.next i = some x) (hsent : Sent w event) : Expected x event := by
  cases x with
  | signal s | await s k => exact trivial
  | act a =>
    cases a with
    | connected =>
      cases event with
      | subscribed peer => exact (quiet_at_connect hnet hx).1 hsent
      | message source => exact (quiet_at_connect hnet hx).2 hsent
      | unsubscribed | gossipsubNotSupported | connectionEstablished | other => exact trivial
    | allSubscribed =>
      cases event with
      | unsubscribed peer => exact not_unsubscribed hsent
      | message source => exact quiet_at_subscribe hnet hx hsent
      | gossipsubNotSupported peer => exact hsent
      | subscribed | connectionEstablished | other => exact trivial
    | listen | dial | subscribe | unsubscribe | publish | receivedAll | recordSuccess => exact trivial

namespace Node.Disciplined

variable {node node' : Node n} {next next' : Option (Act Key Local)} {x : Act Key Local} {event : Event n}

theorem buffer_eq_nil (h : node.Disciplined (some x)) (hx : isBarrier x = false) : node.buffer = [] := by
  by_contra hne
  obtain ⟨y, hy, hbarrier⟩ := h.buffer_barrier hne
  cases hy
  rw [hx] at hbarrier
  cases hbarrier

theorem leave (h : node.Disciplined next) (hbuffer : node.buffer = []) : node.Disciplined next' :=
  ⟨h.not_unreachable, h.subscribe_loop, h.connect_loop, h.recorded, fun hne => absurd hbuffer hne⟩

theorem drive (h : node.Disciplined next) : node.drive.Disciplined next' := by
  obtain ⟨subscribed, messages, heq, hmem⟩ := drive_eq node
  rw [heq]
  refine ⟨h.not_unreachable, h.subscribe_loop, h.connect_loop, fun loop source hcons => ?_, fun hne => absurd rfl hne⟩
  exact Or.inl ((hmem source).mpr (h.recorded loop source hcons))

theorem act {k : Nat} (h : node.Disciplined (some x)) (hx : (main n)[k]? = some x) (hact : node.act x = some node') :
    node'.Disciplined (main n)[k + 1]? := by
  cases x with
  | await s m =>
    cases s with
    | state s => cases hact; exact h.drive
    | topic s => cases hact; exact h.leave (h.buffer_eq_nil rfl)
  | signal s =>
    cases s with
    | state s =>
      cases hact
      rw [await_after_signal hx]
      exact ⟨h.not_unreachable, h.subscribe_loop, h.connect_loop, h.recorded, fun _ => ⟨_, rfl, rfl⟩⟩
    | topic s => cases hact; exact h.leave (h.buffer_eq_nil rfl)
  | act a =>
    have hbuffer := h.buffer_eq_nil rfl
    cases a with
    | connected | allSubscribed | receivedAll => cases hact
    | listen | dial | subscribe | unsubscribe | publish | recordSuccess => cases hact; exact h.leave hbuffer

theorem take {loop : Loop} (h : node.Disciplined next) (hsubscribe : ∀ source, (loop, event) ≠ (.subscribe, .message source))
    (hconnect : ∀ peer, (loop, event) ≠ (.connect, .subscribed peer))
    (hrecorded : ∀ source, event = .message source → source ∈ node.eventMessage ∨ .message source ∈ node.buffer) :
    (node.take loop event).Disciplined next := by
  have hcases : ∀ {e}, e ∈ (node.take loop event).consumed → e ∈ node.consumed ∨ e = (loop, event) := fun he =>
    (List.mem_append.mp he).imp_right List.mem_singleton.mp
  refine ⟨h.not_unreachable, fun source hmem => ?_, fun peer hmem => ?_, fun l source hmem => ?_, h.buffer_barrier⟩
  · rcases hcases hmem with hold | heq
    · exact h.subscribe_loop source hold
    · exact hsubscribe source heq.symm
  · rcases hcases hmem with hold | heq
    · exact h.connect_loop peer hold
    · exact hconnect peer heq.symm
  · rcases hcases hmem with hold | heq
    · exact h.recorded l source hold
    · cases heq; exact hrecorded source rfl

theorem set (h : node.Disciplined next) (hmessage : node.eventMessage ⊆ node'.eventMessage)
    (hbuffer : node'.buffer = node.buffer) (hconsumed : node'.consumed = node.consumed)
    (houtcome : node'.outcome ≠ .unreachable) : node'.Disciplined next := by
  refine ⟨houtcome, ?_, ?_, ?_, ?_⟩
  · rw [hconsumed]; exact h.subscribe_loop
  · rw [hconsumed]; exact h.connect_loop
  · rw [hconsumed, hbuffer]
    exact fun loop source hmem => (h.recorded loop source hmem).imp_left (@hmessage source)
  · rw [hbuffer]; exact h.buffer_barrier

theorem test {allPeers : Nat} {leaves : Bool} (h : node.Disciplined (some x))
    (htest : node.test allPeers x = some (node', leaves)) : node'.Disciplined (some x) ∧ node'.buffer = [] := by
  obtain ⟨a, rfl⟩ := Node.leaves_of_test htest
  have hbuffer := h.buffer_eq_nil rfl
  cases a with
  | allSubscribed =>
    simp only [Node.test] at htest
    split_ifs at htest <;> cases htest <;> exact ⟨h.set (fun _ => id) rfl rfl h.not_unreachable, hbuffer⟩
  | receivedAll =>
    simp only [Node.test] at htest
    split_ifs at htest <;> cases htest <;> exact ⟨h.set (fun _ => id) rfl rfl h.not_unreachable, hbuffer⟩
  | listen | dial | connected | subscribe | unsubscribe | publish | recordSuccess => cases htest

theorem consumeSubscribed (h : node.Disciplined next) (hevent : Expected (.act .allSubscribed) event) :
    (node.consumeSubscribed event).1.Disciplined next ∧ (node.consumeSubscribed event).1.buffer = node.buffer := by
  cases event with
  | subscribed peer =>
    simp only [Node.consumeSubscribed]
    split_ifs <;> exact ⟨h.set (fun _ => id) rfl rfl h.not_unreachable, rfl⟩
  | unsubscribed | message | gossipsubNotSupported => exact hevent.elim
  | connectionEstablished | other => exact ⟨h, rfl⟩

/-- A message that the loop takes is either entered now or was entered before. -/
theorem consumeMessage (h : node.Disciplined next) (event : Event n) :
    ((node.take .receive event).consumeMessage event).1.Disciplined next ∧
      ((node.take .receive event).consumeMessage event).1.buffer = node.buffer := by
  have htake : ∀ {node : Node n}, node.Disciplined next → (∀ source, event = .message source → source ∈ node.eventMessage) →
      (node.take .receive event).Disciplined next := fun h hmem =>
    h.take (fun source heq => by cases heq) (fun peer heq => by cases heq) fun source heq => Or.inl (hmem source heq)
  cases event with
  | message source =>
    have hinsert : Node.Disciplined { node with eventMessage := insert source node.eventMessage } next :=
      h.set (Finset.subset_insert _ _) rfl rfl h.not_unreachable
    have hentered := htake hinsert fun s heq => by cases heq; exact Finset.mem_insert_self _ _
    simp only [Node.consumeMessage]
    split_ifs with hmem hcard
    · have hheard := htake h fun s heq => by cases heq; exact hmem
      exact ⟨hheard.set (fun _ => id) rfl rfl (fun heq => by cases heq), rfl⟩
    · exact ⟨hentered.set (fun _ => id) rfl rfl h.not_unreachable, rfl⟩
    · exact ⟨hentered, rfl⟩
  | subscribed | unsubscribed | gossipsubNotSupported | connectionEstablished | other =>
    exact ⟨htake h (fun source heq => by cases heq), rfl⟩

theorem barrier (h : node.Disciplined (some x)) (hx : isBarrier x = true) :
    Node.Disciplined { node.take .barrier event with buffer := node.buffer ++ [event] } (some x) := by
  have hbuffer : Node.Disciplined { node with buffer := node.buffer ++ [event] } (some x) :=
    ⟨h.not_unreachable, h.subscribe_loop, h.connect_loop,
      fun loop source hmem => (h.recorded loop source hmem).imp_right (List.mem_append_left _), fun _ => ⟨x, rfl, hx⟩⟩
  apply hbuffer.take
  · intro source heq; cases heq
  · intro peer heq; cases heq
  · rintro source rfl
    exact Or.inr (List.mem_append_right _ (List.mem_singleton_self _))

theorem consume {leaves : Bool} (h : node.Disciplined (some x)) (hevent : Expected x event)
    (hconsume : node.consume event x = some (node', leaves)) :
    node'.Disciplined (some x) ∧ (leaves = true → node'.buffer = []) := by
  cases x with
  | signal s | await s k =>
    cases s with
    | state s => cases hconsume; exact ⟨h.barrier rfl, fun hleaves => by cases hleaves⟩
    | topic s => cases hconsume
  | act a =>
    have hbuffer := h.buffer_eq_nil rfl
    cases a with
    | connected =>
      cases hconsume
      refine ⟨h.take (fun source heq => by cases heq) ?_ ?_, fun _ => hbuffer⟩
      · intro peer heq; cases heq; exact hevent
      · rintro source rfl; exact hevent.elim
    | allSubscribed =>
      obtain ⟨-, hconsume⟩ := Option.ite_none_right_eq_some.mp hconsume
      have htake : (node.take .subscribe event).Disciplined (some (.act .allSubscribed)) := by
        apply h.take
        · intro source heq; cases heq; exact hevent
        · intro peer heq; cases heq
        · rintro source rfl; exact hevent.elim
      have hloop := htake.consumeSubscribed hevent
      rw [Option.some.inj hconsume] at hloop
      exact ⟨hloop.1, fun _ => hloop.2.trans hbuffer⟩
    | receivedAll =>
      obtain ⟨-, hconsume⟩ := Option.ite_none_right_eq_some.mp hconsume
      have hloop := h.consumeMessage event
      rw [Option.some.inj hconsume] at hloop
      exact ⟨hloop.1, fun _ => hloop.2.trans hbuffer⟩
    | listen | dial | subscribe | unsubscribe | publish | recordSuccess => cases hconsume

end Node.Disciplined

/-! ## Every run -/

section
variable {D : World n → Fin n → Event n → Prop} {w w' : World n} {i : Fin n}

theorem Disciplined.put {x : Act Key Local} {node : Node n} {leaves : Bool} (h : Disciplined w)
    (hnode : node.Disciplined ((w.put i x node leaves).next i)) : Disciplined (w.put i x node leaves) := by
  intro k
  by_cases hk : k = i
  · subst hk; rw [node_put]; exact hnode
  · rw [node_put_of_ne hk, next_put_of_ne hk]; exact h k

theorem Disciplined.step (hD : ∀ w i event, D w i event → Sent w event) (hnet : Reachable (instances n) w.net)
    (h : Disciplined w) (hmove : Moves D w i w') : Disciplined w' := by
  have hi := h i
  cases hmove with
  | act _ hx _ hact =>
    rw [hx] at hi
    apply h.put
    rw [next_put_leave]
    exact hi.act hx hact
  | @test x node leaves allPeers _ hx htest =>
    rw [hx] at hi
    obtain ⟨hnode, hbuffer⟩ := hi.test htest
    exact h.put (hnode.leave hbuffer)
  | @consume x node leaves event _ hx hdelivered hconsume =>
    rw [hx] at hi
    obtain ⟨hnode, hbuffer⟩ := hi.consume (expected_of_sent hnet hx (hD _ _ _ hdelivered)) hconsume
    apply h.put
    cases leaves with
    | false => rw [next_put_stay, hx]; exact hnode
    | true => exact hnode.leave (hbuffer rfl)

theorem Reaches.disciplined (hD : ∀ w i event, D w i event → Sent w event) (h : Reaches D w) : Disciplined w := by
  induction h with
  | refl =>
    intro i
    refine ⟨fun heq => ?_, fun source => List.not_mem_nil, fun peer => List.not_mem_nil,
      fun loop source hmem => ?_, fun hne => absurd rfl hne⟩
    · cases heq
    · cases hmem
  | tail hrun hmove ih =>
    obtain ⟨i, hmove⟩ := hmove
    exact ih.step hD (Reaches.net hrun) hmove

end

/-- **Which events arrive where.** Neither the subscription loop nor the connection loop gets an event that it
panics on or drops, and the source of a message is entered, at the latest when the barrier that took it is passed. -/
theorem events_recorded {w : World n} (h : Reaches (fun w _ event => Sent w event) w) (i : Fin n) :
    (w.node i).outcome ≠ .unreachable ∧ (∀ source, (.subscribe, .message source) ∉ (w.node i).consumed) ∧
      (∀ peer, (.connect, .subscribed peer) ∉ (w.node i).consumed) ∧
      ∀ loop source, (loop, .message source) ∈ (w.node i).consumed → source ∈ (w.node i).eventMessage ∨
        .message source ∈ (w.node i).buffer ∧ ∃ x, w.next i = some x ∧ isBarrier x = true := by
  have hi := h.disciplined (fun _ _ _ => id) i
  refine ⟨hi.not_unreachable, hi.subscribe_loop, hi.connect_loop, fun loop source hmem => ?_⟩
  rcases hi.recorded loop source hmem with hentered | hbuffer
  · exact Or.inl hentered
  · exact Or.inr ⟨hbuffer, hi.buffer_barrier (List.ne_nil_of_mem hbuffer)⟩

section
variable (a b : Fin n)

def both (m : Move n) : List (Fin n × Move n) := [(a, m), (b, m)]

/-- A run of two instances. The first publishes and is heard by the second at the barrier before, where that one
waits for the counter; its own loop hears the second. -/
def smokeRun : List (Fin n × Move n) :=
  both a b .act ++ (both a b .act ++ (both a b .act ++ (both a b .act ++ (both a b .act ++ (both a b .act ++
  (both a b (.consume (.connectionEstablished true)) ++ (both a b .act ++ (both a b .act ++ (both a b .act ++
  (both a b (.test 1) ++ ([(a, .consume (.subscribed b)), (b, .consume (.subscribed a))] ++ (both a b .act ++
  ([(a, .act), (a, .act), (b, .consume (.message a)), (b, .act), (b, .act), (b, .test 0), (a, .test 0),
    (a, .consume (.message b))] ++ (both a b .act ++ (both a b .act ++ both a b .act)))))))))))))))

end

theorem events_recorded_two : ∃ w : World 2, Reaches (fun w _ event => Sent w event) w ∧
    (.barrier, .message 0) ∈ (w.node 1).consumed ∧ (.receive, .message 1) ∈ (w.node 0).consumed ∧
      (1 ∈ (w.node 0).eventMessage ∨ .message 1 ∈ (w.node 0).buffer ∧ ∃ x, w.next 0 = some x ∧ isBarrier x = true) := by
  have hrun : ∃ w ∈ World.init.moveAll (fun w _ event => Sent w event) (smokeRun (0 : Fin 2) 1),
      (.barrier, .message 0) ∈ (w.node 1).consumed ∧ (.receive, .message 1) ∈ (w.node 0).consumed := by decide
  obtain ⟨w, hw, hbarrier, hreceive⟩ := hrun
  have hreaches := reaches_of_moveAll _ .refl hw
  exact ⟨w, hreaches, hbarrier, hreceive, (events_recorded hreaches 0).2.2.2 .receive 1 hreceive⟩

end GossipPlans.Smoke
