import GossipPlans.MaliciousSound

/-!
# Sending a message, and sleeping on one

`send_message` updates the behaviour in place. It fragments before it touches the queue, so a refused
message leaves no trace. `poll` looks at the queue before it sends the GRAFTs of expired entries, so
these stay in the queue when it returns `Poll::Pending`.
-/

namespace GossipPlans.Malicious

variable {S : Schema}

/-! ## `send_message` -/

/-- A method on `&mut self`: what has been changed before an error stays. -/
abbrev Method (S : Schema) := ExceptT PublishError (StateM (MaliciousBehaviour S))

/-- `self.events.push_back(NetworkBehaviourAction::NotifyHandler { .. })` -/
def pushBack (peerId : String) (message : Rpc S) : Method S Unit :=
  modify fun self => { self with events := self.events ++ [(peerId, message)] }

/-- `send_message` on `&mut self`; `sendMessage` is the behaviour it leaves when it succeeds. -/
def sendMessageMut (peerId : String) (message : Rpc S) : Method S Unit := do
  let self ← get
  let messages ← liftExcept (fragmentMessage self.maxTransmitSize message)
  messages.forM (pushBack peerId)

def run (b : MaliciousBehaviour S) (method : Method S Unit) : Except PublishError Unit × MaliciousBehaviour S :=
  StateT.run (ExceptT.run method) b

theorem run_pushAll (peerId : String) : ∀ (messages : List (Rpc S)) (b : MaliciousBehaviour S),
    run b (messages.forM (pushBack peerId)) = (.ok (), { b with events := b.events ++ messages.map (peerId, ·) })
  | [], b => by
    rw [List.map_nil, List.append_nil]
    rfl
  | message :: messages, b => by
    show run { b with events := b.events ++ [(peerId, message)] } (messages.forM (pushBack peerId)) = _
    rw [run_pushAll peerId messages, List.append_assoc]
    rfl

theorem run_sendMessageMut (peerId : String) (message : Rpc S) (b : MaliciousBehaviour S) :
    run b (sendMessageMut peerId message) =
      match fragmentMessage b.maxTransmitSize message with
      | .error e => (.error e, b)
      | .ok messages => (.ok (), { b with events := b.events ++ messages.map (peerId, ·) }) := by
  show run b (liftExcept (fragmentMessage b.maxTransmitSize message) >>= fun messages =>
    messages.forM (pushBack peerId)) = _
  cases fragmentMessage b.maxTransmitSize message with
  | error e => rfl
  | ok messages => exact run_pushAll peerId messages b

theorem run_eq_sendMessage (peerId : String) (message : Rpc S) (b : MaliciousBehaviour S) :
    run b (sendMessageMut peerId message) =
      match sendMessage b peerId message with
      | .error e => (.error e, b)
      | .ok b' => (.ok (), b') := by
  rw [run_sendMessageMut, sendMessage]
  cases fragmentMessage b.maxTransmitSize message with
  | error e => rfl
  | ok messages => rfl

theorem fragmentMessage_error_iff {maxTransmitSize : Nat} {rpc : Rpc S} :
    fragmentMessage maxTransmitSize rpc = .error .messageTooLarge ↔
      maxTransmitSize ≤ rpc.encodedLen ∧ TooLarge maxTransmitSize rpc := by
  by_cases hlt : rpc.encodedLen < maxTransmitSize
  · rw [fragmentMessage, if_pos hlt]
    simp [Nat.not_le.mpr hlt]
  · have hge := Nat.le_of_not_lt hlt
    rw [fragmentMessage_eq maxTransmitSize hge]
    by_cases htoo : TooLarge maxTransmitSize rpc <;> simp [htoo, hge]

/-- **All or nothing.** The call fails exactly for a message over the limit with an item over the limit, and then
changes nothing. Otherwise it appends one event for each fragment. -/
theorem sendMessage_all_or_nothing (b : MaliciousBehaviour S) (peerId : String) (message : Rpc S) :
    ((run b (sendMessageMut peerId message)).1 = .error .messageTooLarge ↔
      b.maxTransmitSize ≤ message.encodedLen ∧ TooLarge b.maxTransmitSize message) ∧
    (∀ e, (run b (sendMessageMut peerId message)).1 = .error e → (run b (sendMessageMut peerId message)).2 = b) ∧
    ((run b (sendMessageMut peerId message)).1 = .ok () → ∃ fragments,
      fragmentMessage b.maxTransmitSize message = .ok fragments ∧
      (run b (sendMessageMut peerId message)).2 = { b with events := b.events ++ fragments.map (peerId, ·) }) := by
  rw [run_eq_sendMessage, sendMessage, ← fragmentMessage_error_iff]
  cases fragmentMessage b.maxTransmitSize message with
  | error e => simp [Bind.bind, Except.bind]
  | ok messages => simp [Bind.bind, Except.bind]

/-! ## `poll` -/

theorem fragments_ne_nil {maxTransmitSize : Nat} {rpc : Rpc S} {fragments : List (Rpc S)}
    (h : fragmentMessage maxTransmitSize rpc = .ok fragments) : fragments ≠ [] := by
  by_cases hlt : rpc.encodedLen < maxTransmitSize
  · rw [fragmentMessage, if_pos hlt] at h
    cases h
    simp
  · rw [fragmentMessage_eq maxTransmitSize (Nat.le_of_not_lt hlt)] at h
    split at h
    · cases h
    · cases h
      simp [NextFit.Bins.toList]

variable (codec : GraftCodec S)

theorem sendGrafts_events (b : MaliciousBehaviour S) (peerId : String) (topics : List String) :
    ∃ pushed, pushed ≠ [] ∧ (sendGrafts codec b peerId topics).events = b.events ++ pushed := by
  obtain ⟨messages, hm, -⟩ := fragment_grafts codec b.maxTransmitSize topics
  refine ⟨messages.map (peerId, ·), by simpa using fragments_ne_nil hm, ?_⟩
  rw [sendGrafts, sendMessage, hm]
  rfl

/-- What the loop over expired entries has put in the queue stays there. -/
theorem regraftExpired_events : ∀ (expired : List (String × String)) (b : MaliciousBehaviour S),
    ∃ pushed, (regraftExpired codec expired b).events = b.events ++ pushed ∧ (pushed = [] ↔ expired = [])
  | [], b => ⟨[], by simp [regraftExpired], by simp⟩
  | (peerId, topicHash) :: expired, b => by
    obtain ⟨pushed, hne, hsend⟩ := sendGrafts_events codec
      { b with regraft := Function.update b.regraft (peerId, topicHash) none } peerId [topicHash]
    obtain ⟨rest, hrest, -⟩ := regraftExpired_events expired
      (sendGrafts codec { b with regraft := Function.update b.regraft (peerId, topicHash) none } peerId [topicHash])
    refine ⟨pushed ++ rest, ?_, by simp [hne]⟩
    rw [regraftExpired, hrest, hsend, List.append_assoc]

/-- **When `poll` sleeps with nothing to deliver.** Exactly when it has returned an event instead or no entry has
expired: each expired entry leaves a GRAFT in the queue. -/
theorem poll_pending_iff (expired : List (String × String)) (b : MaliciousBehaviour S) :
    ((poll codec expired b).2 = none → (poll codec expired b).1.events = []) ↔ b.events ≠ [] ∨ expired = [] := by
  cases hevents : b.events with
  | cons event events => simp [poll, hevents]
  | nil =>
    obtain ⟨pushed, hpushed, hnil⟩ := regraftExpired_events codec expired b
    rw [hevents, List.nil_append] at hpushed
    simp [poll, hevents, hpushed, hnil]

/-- One expired entry and an empty queue: `Poll::Pending`, and the GRAFT waits for another wake-up. -/
theorem poll_sleeps_on_graft :
    (poll GraftCodec.topics [("victim", "blocks")] { MaliciousBehaviour.new 100 with
      regraft := fun key => if key = ("victim", "blocks") then some (65 * second) else none }).2.isNone = true ∧
    (poll GraftCodec.topics [("victim", "blocks")] { MaliciousBehaviour.new 100 with
      regraft := fun key => if key = ("victim", "blocks") then some (65 * second) else none }).1.events.length = 1 := by
  decide

end GossipPlans.Malicious
