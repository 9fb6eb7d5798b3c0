import GossipPlans.FragmentSound
import GossipPlans.Malicious

/-!
# Every GRAFT is paid once

What one step can do is said once (`step_effect`): it pushes the GRAFTs that its input owes, and it keeps
the queue and the table of pending entries in step with the inputs.
-/

namespace GossipPlans.Malicious

variable {S : Schema} {codec : GraftCodec S}

/-! ## What is owed -/

def graftsTo (peerId : String) (pushed : List (String × Rpc S)) : List (S.Body .graft) :=
  pushed.flatMap fun e => if e.1 = peerId then e.2.field .graft else []

/-- The topics that a step owes a peer: one for each Subscribe entry, one for each expired entry. -/
def Input.owed (peerId : String) : Input → List String
  | .injectEvent source (.message rpc) => if source = peerId then topicsToGraft rpc.subscriptions else []
  | .injectEvent _ .peerKind => []
  | .poll expired => expired.filterMap fun key => if key.1 = peerId then some key.2 else none

def owed (peerId : String) (inputs : List (Nat × Input)) : List String := inputs.flatMap fun i => i.2.owed peerId

def Input.prunes (key : String × String) : Input → Bool
  | .injectEvent source event => decide (source = key.1) && (event.prunes.map Prod.fst).contains key.2
  | .poll _ => false

def Input.expires (key : String × String) : Input → Bool
  | .injectEvent _ _ => false
  | .poll expired => expired.contains key

def prunedSince (key : String × String) (inputs : List (Nat × Input)) : Bool :=
  inputs.foldl (fun pruned i => i.2.prunes key || (pruned && !i.2.expires key)) false

def Entry.message? : Entry S → Option (String × Rpc S)
  | .pushed _ peerId message => some (peerId, message)
  | .pruned _ _ _ _ => none

def World.pushed (w : World S) : List (String × Rpc S) := (w.history.filterMap Entry.message?).reverse

structure Settled (codec : GraftCodec S) (inputs : List (Nat × Input)) (w : World S) : Prop where
  grafts : ∀ peerId, graftsTo peerId w.pushed = (owed peerId inputs).map codec.toGraft
  pending : ∀ key, (w.behaviour.regraft key).isSome = prunedSince key inputs
  fifo : w.returned ++ w.behaviour.events = w.pushed

/-! ## Sending -/

@[simp] theorem graftsTo_append (peerId : String) (pushed pushed' : List (String × Rpc S)) :
    graftsTo peerId (pushed ++ pushed') = graftsTo peerId pushed ++ graftsTo peerId pushed' :=
  List.flatMap_append ..

theorem graftsTo_messages (peerId target : String) (messages : List (Rpc S)) :
    graftsTo peerId (messages.map (target, ·)) = if target = peerId then messages.flatMap (·.field .graft) else [] := by
  by_cases h : target = peerId <;> simp [graftsTo, List.flatMap_map, h]

theorem fragment_grafts (codec : GraftCodec S) (maxTransmitSize : Nat) (topics : List String) : ∃ messages,
    fragmentMessage maxTransmitSize (codec.intoProtobuf topics) = .ok messages ∧
      messages.flatMap (·.field .graft) = topics.map codec.toGraft := by
  have hsmall : ¬ TooLarge maxTransmitSize (codec.intoProtobuf topics) := by
    simp [TooLarge, GraftCodec.intoProtobuf]
  obtain ⟨messages, hm⟩ := fragmentMessage_ok hsmall
  exact ⟨messages, hm, fragmentMessage_field hm .graft⟩

/-- **Sending GRAFTs never fails**, however many topics there are. -/
theorem sendMessage_ok (codec : GraftCodec S) (b : MaliciousBehaviour S) (peerId : String) (topics : List String) :
    ∃ b', sendMessage b peerId (codec.intoProtobuf topics) = .ok b' := by
  obtain ⟨messages, hm, -⟩ := fragment_grafts codec b.maxTransmitSize topics
  exact ⟨_, bind_ok_iff.mpr ⟨messages, hm, rfl⟩⟩

theorem sendGrafts_pushes (codec : GraftCodec S) (b : MaliciousBehaviour S) (target : String) (topics : List String) :
    ∃ pushed, (sendGrafts codec b target topics) = { b with events := b.events ++ pushed } ∧
      ∀ peerId, graftsTo peerId pushed = if target = peerId then topics.map codec.toGraft else [] := by
  obtain ⟨messages, hm, hgrafts⟩ := fragment_grafts codec b.maxTransmitSize topics
  refine ⟨messages.map (target, ·), ?_, fun peerId => by rw [graftsTo_messages, hgrafts]⟩
  rw [sendGrafts, sendMessage, hm]; rfl

theorem handleReceivedSubscriptions_pushes (codec : GraftCodec S) (b : MaliciousBehaviour S)
    (subscriptions : List Subscription) (source : String) :
    ∃ pushed, handleReceivedSubscriptions codec b subscriptions source = { b with events := b.events ++ pushed } ∧
      ∀ peerId, graftsTo peerId pushed =
        if source = peerId then (topicsToGraft subscriptions).map codec.toGraft else [] := by
  unfold handleReceivedSubscriptions
  split
  · rename_i hnil
    exact ⟨[], by simp, fun peerId => by simp [hnil, graftsTo]⟩
  · exact sendGrafts_pushes codec b source _

/-! ## The table -/

theorem handlePrune_ok {delays : Delays} {now : Nat} {peerId : String} :
    ∀ {prunes : List (String × Option Nat)} {b b' : MaliciousBehaviour S}, handlePrune delays now peerId prunes b = .ok b' →
    b' = { b with regraft := b'.regraft } ∧ ∀ key, (b'.regraft key).isSome =
      ((decide (peerId = key.1) && (prunes.map Prod.fst).contains key.2) || (b.regraft key).isSome)
  | [], b, b', h => by
    cases h
    simp
  | (topic, backoff) :: prunes, b, b', h => by
    obtain ⟨deadline, -, h⟩ := bind_ok_iff.mp h
    obtain ⟨hb, hkeys⟩ := handlePrune_ok h
    refine ⟨hb, fun key => ?_⟩
    rw [hkeys]
    show (_ || (Function.update b.regraft (peerId, topic) _ key).isSome) = _
    by_cases hkey : key = (peerId, topic)
    · subst hkey
      simp
    · have hne : ¬ (peerId = key.1 ∧ key.2 = topic) := fun e => hkey (Prod.ext e.1.symm e.2)
      rw [Function.update_of_ne hkey]
      by_cases hp : peerId = key.1
      · have ht : (key.2 == topic) = false := beq_eq_false_iff_ne.mpr fun e => hne ⟨hp, e⟩
        simp [hp, ht]
      · simp [hp]

theorem handlePrune_total {delays : Delays} (now : Nat) (peerId : String) :
    ∀ {prunes : List (String × Option Nat)} (b : MaliciousBehaviour S),
    (∀ p ∈ prunes, ∃ deadline, regraftDeadline delays now p.2 = .ok deadline) →
    ∃ b', handlePrune delays now peerId prunes b = .ok b'
  | [], b, _ => ⟨b, rfl⟩
  | (topic, backoff) :: prunes, b, h => by
    obtain ⟨⟨deadline, hdeadline⟩, htail⟩ := List.forall_mem_cons.mp h
    obtain ⟨b', hb'⟩ := handlePrune_total now peerId _ htail
    exact ⟨b', bind_ok_iff.mpr ⟨deadline, hdeadline, hb'⟩⟩

theorem regraftExpired_pushes (codec : GraftCodec S) : ∀ (expired : List (String × String)) (b : MaliciousBehaviour S),
    ∃ pushed, regraftExpired codec expired b =
        { b with events := b.events ++ pushed, regraft := fun key => if key ∈ expired then none else b.regraft key } ∧
      ∀ peerId, graftsTo peerId pushed = ((Input.poll expired).owed peerId).map codec.toGraft
  | [], b => ⟨[], by simp [regraftExpired], fun peerId => by simp [graftsTo, Input.owed]⟩
  | (target, topic) :: expired, b => by
    obtain ⟨first, hfirst, hgrafts⟩ := sendGrafts_pushes codec
      { b with regraft := Function.update b.regraft (target, topic) none } target [topic]
    obtain ⟨rest, hrest, hrestGrafts⟩ := regraftExpired_pushes codec expired
      (sendGrafts codec { b with regraft := Function.update b.regraft (target, topic) none } target [topic])
    refine ⟨first ++ rest, ?_, fun peerId => ?_⟩
    · rw [regraftExpired, hrest, hfirst]
      simp only [List.append_assoc]
      congr 1
      funext key
      by_cases hkey : key = (target, topic)
      · subst hkey; simp
      · simp [hkey]
    · rw [graftsTo_append, hgrafts, hrestGrafts]
      by_cases hto : target = peerId <;> simp [Input.owed, hto]

/-! ## One step -/

theorem newlyPushed_append (b : MaliciousBehaviour S) {b' : MaliciousBehaviour S} {pushed : List (String × Rpc S)}
    (h : b'.events = b.events ++ pushed) : newlyPushed b b' = pushed := by
  rw [newlyPushed, h, List.drop_left]

theorem filterMap_record (time : Nat) (pushed : List (String × Rpc S)) (history : List (Entry S)) :
    (record time pushed history).filterMap Entry.message? = pushed.reverse ++ history.filterMap Entry.message? := by
  rw [record, List.filterMap_append, ← List.map_reverse, List.filterMap_map]
  congr 1
  exact List.filterMap_some

theorem filterMap_recordPrunes (time : Nat) (peerId : String) (prunes : List (String × Option Nat))
    (history : List (Entry S)) :
    (recordPrunes time peerId prunes history).filterMap Entry.message? = history.filterMap Entry.message? := by
  rw [recordPrunes, List.filterMap_append, ← List.map_reverse, List.filterMap_map]
  simp [Function.comp_def, Entry.message?]

structure Effect (codec : GraftCodec S) (w : World S) (input : Input) (w' : World S) (pushed : List (String × Rpc S)) :
    Prop where
  pushed_eq : w'.pushed = w.pushed ++ pushed
  grafts : ∀ peerId, graftsTo peerId pushed = (input.owed peerId).map codec.toGraft
  queue : w'.returned ++ w'.behaviour.events = w.returned ++ w.behaviour.events ++ pushed
  pending : ∀ key, (w'.behaviour.regraft key).isSome =
    (input.prunes key || ((w.behaviour.regraft key).isSome && !input.expires key))

theorem inject_effect {delays : Delays} {w w' : World S} {time : Nat} {source : String} {event : HandlerEvent}
    (h : w.step codec delays time (.injectEvent source event) = .ok w') :
    ∃ pushed, Effect codec w (.injectEvent source event) w' pushed ∧
      w'.history = recordPrunes time source event.prunes (record time pushed w.history) := by
  obtain ⟨b, hb, h⟩ := bind_ok_iff.mp h
  cases h
  cases event with
  | peerKind =>
    cases hb
    refine ⟨[], ⟨?_, ?_, ?_, ?_⟩, ?_⟩
    · simp [World.pushed, newlyPushed, recordPrunes, record, HandlerEvent.prunes]
    · simp [graftsTo, Input.owed]
    · simp
    · simp [Input.prunes, Input.expires, HandlerEvent.prunes]
    · simp [newlyPushed, HandlerEvent.prunes]
  | message rpc =>
    obtain ⟨pushed, hsend, hgrafts⟩ := handleReceivedSubscriptions_pushes codec w.behaviour rpc.subscriptions source
    rw [injectEvent, hsend] at hb
    obtain ⟨hsame, hpending⟩ := handlePrune_ok hb
    have hevents : b.events = w.behaviour.events ++ pushed := by rw [hsame]
    have hnew := newlyPushed_append w.behaviour hevents
    refine ⟨pushed, ⟨?_, ?_, ?_, ?_⟩, by rw [hnew]⟩
    · simp only [World.pushed, hnew, filterMap_recordPrunes, filterMap_record, List.reverse_append, List.reverse_reverse]
    · intro peerId
      rw [hgrafts, Input.owed]
      split <;> rfl
    · rw [hevents, List.append_assoc]
    · intro key
      show (b.regraft key).isSome = _
      rw [hpending]
      simp [Input.prunes, Input.expires, HandlerEvent.prunes]

theorem poll_effect {delays : Delays} {w w' : World S} {time : Nat} {expired : List (String × String)}
    (ha : Admissible w time (.poll expired)) (h : w.step codec delays time (.poll expired) = .ok w') :
    ∃ pushed, Effect codec w (.poll expired) w' pushed ∧ w'.history = record time pushed w.history ∧
      w'.behaviour.regraft = fun key => if key ∈ expired then none else w.behaviour.regraft key := by
  obtain ⟨-, hidle, -, -⟩ := ha
  unfold World.step poll at h
  cases hq : w.behaviour.events with
  | cons event events =>
    rw [hq] at h
    cases h
    rw [hidle (by simp [hq])]
    refine ⟨[], ⟨?_, ?_, ?_, ?_⟩, ?_, ?_⟩
    · simp [World.pushed]
    · simp [graftsTo, Input.owed]
    · simp [hq]
    · simp [Input.prunes, Input.expires]
    · simp [record]
    · simp
  | nil =>
    rw [hq] at h
    cases h
    obtain ⟨pushed, hr, hgrafts⟩ := regraftExpired_pushes codec expired w.behaviour
    have hnew := newlyPushed_append w.behaviour (congrArg MaliciousBehaviour.events hr)
    refine ⟨pushed, ⟨?_, hgrafts, ?_, ?_⟩, by rw [hnew], by rw [hr]⟩
    · simp only [World.pushed, hnew, filterMap_record, List.reverse_append, List.reverse_reverse]
    · simp [hr]
    · intro key
      simp only [hr, Input.prunes, Input.expires, Bool.false_or]
      by_cases hk : key ∈ expired <;> simp [hk]

theorem step_effect {delays : Delays} {w w' : World S} {time : Nat} {input : Input}
    (ha : Admissible w time input) (h : w.step codec delays time input = .ok w') :
    ∃ pushed, Effect codec w input w' pushed := by
  cases input with
  | injectEvent source event =>
    obtain ⟨pushed, heffect, -⟩ := inject_effect h
    exact ⟨pushed, heffect⟩
  | poll expired =>
    obtain ⟨pushed, heffect, -⟩ := poll_effect ha h
    exact ⟨pushed, heffect⟩

/-! ## Whole runs -/

theorem settled_new (maxTransmitSize : Nat) : Settled codec [] (World.new maxTransmitSize : World S) :=
  ⟨fun _ => rfl, fun _ => rfl, rfl⟩

theorem Settled.step {inputs : List (Nat × Input)} {w w' : World S} {time : Nat} {input : Input}
    {pushed : List (String × Rpc S)} (h : Settled codec inputs w) (he : Effect codec w input w' pushed) :
    Settled codec (inputs ++ [(time, input)]) w' where
  grafts peerId := by
    rw [he.pushed_eq, graftsTo_append, h.grafts, he.grafts]
    simp [owed]
  pending key := by
    rw [he.pending, h.pending, prunedSince, prunedSince, List.foldl_append]; rfl
  fifo := by
    rw [he.queue, h.fifo, he.pushed_eq]

theorem Runs.settled {delays : Delays} {maxTransmitSize : Nat} {G : World S → Nat → Input → Prop}
    {inputs : List (Nat × Input)} {outcome : Run (World S)} (h : Runs codec delays maxTransmitSize G inputs outcome) :
    ∀ w, outcome = .ok w → Settled codec inputs w := by
  induction h with
  | init =>
    intro w hw
    cases hw
    exact settled_new maxTransmitSize
  | step _ ha _ ih =>
    intro w' hw
    obtain ⟨pushed, he⟩ := step_effect ha hw
    exact (ih _ rfl).step he

theorem World.step_total {delays : Delays} (w : World S) (time : Nat) {input : Input}
    (h : ∀ source event, input = .injectEvent source event → ∀ p ∈ event.prunes,
      ∃ deadline, regraftDeadline delays time p.2 = .ok deadline) : ∃ w', w.step codec delays time input = .ok w' := by
  cases input with
  | injectEvent source event =>
    cases event with
    | peerKind => exact ⟨_, rfl⟩
    | message rpc =>
      obtain ⟨b, hb⟩ := handlePrune_total time source
        (handleReceivedSubscriptions codec w.behaviour rpc.subscriptions source) (h source _ rfl)
      exact ⟨_, bind_ok_iff.mpr ⟨b, hb, rfl⟩⟩
  | poll expired =>
    cases hp : poll codec expired w.behaviour with
    | mk b event =>
      cases event with
      | some event => exact ⟨_, by rw [World.step, hp]⟩
      | none => exact ⟨_, by rw [World.step, hp]⟩

/-- Durations without a bound. -/
def unboundedDelay : Delays := ⟨fun backoff => .ok (backoff + pruneBackoffDelay), fun _ _ => true⟩

/-- **Every GRAFT that is owed is paid once**, in every run, and no step and no sending fails. -/
theorem every_graft_paid (codec : GraftCodec S) (maxTransmitSize : Nat) {inputs : List (Nat × Input)}
    {outcome : Run (World S)} (h : Runs codec unboundedDelay maxTransmitSize (fun _ _ _ => True) inputs outcome) :
    (∃ w, outcome = .ok w ∧ Settled codec inputs w) ∧
      ∀ (b : MaliciousBehaviour S) peerId topics, ∃ b', sendMessage b peerId (codec.intoProtobuf topics) = .ok b' := by
  refine ⟨?_, sendMessage_ok codec⟩
  have hok : ∃ w, outcome = .ok w := by
    cases h with
    | init => exact ⟨_, rfl⟩
    | @step _ w time input _ _ _ => exact w.step_total time fun _ _ _ p _ => by cases p.2 <;> exact ⟨_, rfl⟩
  obtain ⟨w, rfl⟩ := hok
  exact ⟨w, rfl, h.settled w rfl⟩

/-- The victim subscribes and prunes with a backoff of one second; six seconds later the entry expires. -/
def regrafted : List (Nat × Input) :=
  [(0, .injectEvent "victim" (.message ⟨[⟨.subscribe, "blocks"⟩], [.prune "blocks" (some 1)]⟩)), (0, .poll []),
    (6 * second, .poll [("victim", "blocks")]), (7 * second, .poll [])]

theorem regrafted_paid : ∃ w, Runs .topics unboundedDelay 65536 (fun _ _ _ => True) regrafted (.ok w) ∧
    w.returned.length = 2 ∧ Settled .topics regrafted w := by
  have hexec : (execAll .topics unboundedDelay (fun _ _ _ => True) (World.new 65536) regrafted).map
      (fun w => w.returned.length) = some 2 := by decide
  obtain ⟨w, hw, hlen⟩ := Option.map_eq_some_iff.mp hexec
  have hrun := execAll_runs .init hw
  obtain ⟨⟨w', hw', hsettled⟩, -⟩ := every_graft_paid .topics 65536 hrun
  cases hw'
  exact ⟨w, hrun, hlen, hsettled⟩

end GossipPlans.Malicious
