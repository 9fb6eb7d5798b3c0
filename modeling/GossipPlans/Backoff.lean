import GossipPlans.MaliciousSound

/-!
# The backoff of a PRUNE

The GRAFTs of expired entries keep to the backoff; those that answer a subscription are sent at once,
whatever the table says, and a large backoff overflows or is not taken by the table.
-/

namespace GossipPlans.Malicious

variable {S : Schema} {codec : GraftCodec S}

def Entry.prune? (key : String × String) : Entry S → Option (Nat × Option Nat)
  | .pushed _ _ _ => none
  | .pruned time peerId topicHash backoff => if (peerId, topicHash) = key then some (time, backoff) else none

def lastPrune (key : String × String) (history : List (Entry S)) : Option (Nat × Option Nat) :=
  history.findSome? (Entry.prune? key)

/-- When the peer may be grafted again after a PRUNE; no backoff means `PRUNE_BACKOFF`. -/
def allowed (prune : Nat × Option Nat) : Nat := prune.1 + prune.2.getD pruneBackoff * second

/-- No GRAFT was pushed before the backoff of the latest PRUNE had passed. -/
def Obeys (codec : GraftCodec S) : List (Entry S) → Prop
  | [] => True
  | .pushed time peerId message :: history =>
    (∀ body ∈ message.field .graft, ∀ prune ∈ lastPrune (peerId, codec.topicId body) history, allowed prune ≤ time) ∧
      Obeys codec history
  | .pruned _ _ _ _ :: history => Obeys codec history

def Input.received : Input → List (String × Option Nat)
  | .injectEvent _ event => event.prunes
  | .poll _ => []

structure ObeysBackoff (codec : GraftCodec S) (delays : Delays) (inputs : List (Nat × Input))
    (outcome : Run (World S)) : Prop where
  grafts : ∀ w, outcome = .ok w → Obeys codec w.history
  deadlines : ∀ i ∈ inputs, ∀ p ∈ i.2.received,
    regraftDeadline delays i.1 p.2 = .ok (i.1 + (p.2.getD pruneBackoff + pruneBackoffDelay) * second)

def u64Delays (build : Build) (takes : Nat → Nat → Bool) : Delays := ⟨(usizeAdd build · pruneBackoffDelay), takes⟩

/-- The sums fit in 64 bits and the table takes them, and no topic is subscribed again while its backoff runs. -/
def Careful (takes : Nat → Nat → Bool) (w : World S) (time : Nat) : Input → Prop
  | .injectEvent source (.message rpc) =>
    (∀ p ∈ pruneMsgs rpc.controlMsgs, (∀ backoff ∈ p.2, backoff + pruneBackoffDelay < usizeSize) ∧
      takes time (p.2.getD pruneBackoff + pruneBackoffDelay) = true) ∧
      ∀ topic ∈ topicsToGraft rpc.subscriptions, ∀ prune ∈ lastPrune (source, topic) w.history, allowed prune ≤ time
  | .injectEvent _ .peerKind => True
  | .poll _ => True

/-! ## The history -/

theorem usizeAdd_exact_iff {build : Build} {backoff : Nat} :
    usizeAdd build backoff pruneBackoffDelay = .ok (backoff + pruneBackoffDelay) ↔
      backoff + pruneBackoffDelay < usizeSize := by
  unfold usizeAdd
  constructor
  · intro h
    by_contra hlt
    rw [if_neg hlt] at h
    cases build with
    | debug => cases h
    | release =>
      have hmod := Nat.mod_lt (backoff + pruneBackoffDelay) (show 0 < usizeSize by decide)
      rw [Except.ok.inj h] at hmod
      exact hlt hmod
  · intro h
    rw [if_pos h]

theorem insertAt_exact_iff {takes : Nat → Nat → Bool} {now delay d : Nat} :
    insertAt takes now delay = .ok (now + d * second) ↔ delay = d ∧ takes now d = true := by
  unfold insertAt
  split
  · rename_i htakes
    rw [Except.ok.injEq, Nat.add_left_cancel_iff, Nat.mul_left_inj (by decide)]
    exact ⟨fun h => ⟨h, h ▸ htakes⟩, fun h => h.1⟩
  · rename_i htakes
    exact iff_of_false nofun fun h => htakes (h.1 ▸ h.2)

/-- The deadline is right exactly when the sum fits and the table takes it. -/
theorem regraftDeadline_exact_iff {build : Build} {takes : Nat → Nat → Bool} {now : Nat} {backoff : Option Nat} :
    regraftDeadline (u64Delays build takes) now backoff =
        .ok (now + (backoff.getD pruneBackoff + pruneBackoffDelay) * second) ↔
      (∀ b ∈ backoff, b + pruneBackoffDelay < usizeSize) ∧ takes now (backoff.getD pruneBackoff + pruneBackoffDelay) = true := by
  rw [regraftDeadline, bind_ok_iff]
  simp only [u64Delays, regraftDelay, insertAt_exact_iff]
  cases backoff with
  | none => simp
  | some b =>
    simp only [Option.getD_some, Option.mem_def, Option.some.injEq, forall_eq']
    constructor
    · intro h
      obtain ⟨_, hsum, rfl, htakes⟩ := h
      exact ⟨usizeAdd_exact_iff.mp hsum, htakes⟩
    · intro h
      obtain ⟨hlt, htakes⟩ := h
      exact ⟨_, usizeAdd_exact_iff.mpr hlt, rfl, htakes⟩

theorem lastPrune_record (key : String × String) (time : Nat) (pushed : List (String × Rpc S)) (history : List (Entry S)) :
    lastPrune key (record time pushed history) = lastPrune key history := by
  rw [lastPrune, record, List.findSome?_append, List.findSome?_eq_none_iff.mpr, Option.none_or, lastPrune]
  intro e he
  obtain ⟨x, -, rfl⟩ := List.mem_map.mp (List.mem_reverse.mp he)
  rfl

theorem record_cons (time : Nat) (e : String × Rpc S) (pushed : List (String × Rpc S)) (history : List (Entry S)) :
    record time (e :: pushed) history = record time pushed (.pushed time e.1 e.2 :: history) := by
  simp [record]

theorem obeys_record (time : Nat) : ∀ (pushed : List (String × Rpc S)) (history : List (Entry S)),
    Obeys codec (record time pushed history) ↔ Obeys codec history ∧ ∀ e ∈ pushed, ∀ body ∈ e.2.field .graft,
      ∀ prune ∈ lastPrune (e.1, codec.topicId body) history, allowed prune ≤ time
  | [], history => by simp [record]
  | e :: pushed, history => by
    have hskip : ∀ key, lastPrune key (.pushed time e.1 e.2 :: history) = lastPrune key history := fun _ => rfl
    rw [record_cons, obeys_record time pushed]
    simp only [hskip, Obeys, List.forall_mem_cons]
    tauto

theorem recordPrunes_cons (time : Nat) (peerId : String) (p : String × Option Nat) (prunes : List (String × Option Nat))
    (history : List (Entry S)) : recordPrunes time peerId (p :: prunes) history =
      recordPrunes time peerId prunes (.pruned time peerId p.1 p.2 :: history) := by
  simp [recordPrunes]

theorem obeys_recordPrunes (time : Nat) (peerId : String) : ∀ (prunes : List (String × Option Nat))
    (history : List (Entry S)), Obeys codec (recordPrunes time peerId prunes history) ↔ Obeys codec history
  | [], _ => Iff.rfl
  | p :: prunes, history => by rw [recordPrunes_cons, obeys_recordPrunes time peerId prunes, Obeys]

/-! ## The table -/

/-- The run invariant: no entry is due before the backoff of the latest PRUNE has passed. -/
def Pending (regraft : String × String → Option Nat) (history : List (Entry S)) : Prop :=
  ∀ key, ∀ deadline ∈ regraft key, ∃ prune ∈ lastPrune key history, allowed prune ≤ deadline

theorem handlePrune_pending {build : Build} {takes : Nat → Nat → Bool} {now : Nat} {peerId : String} :
    ∀ {prunes : List (String × Option Nat)} {b b' : MaliciousBehaviour S} {history : List (Entry S)},
    (∀ p ∈ prunes, (∀ backoff ∈ p.2, backoff + pruneBackoffDelay < usizeSize) ∧
      takes now (p.2.getD pruneBackoff + pruneBackoffDelay) = true) →
    handlePrune (u64Delays build takes) now peerId prunes b = .ok b' → Pending b.regraft history →
    Pending b'.regraft (recordPrunes now peerId prunes history)
  | [], b, b', history, _, h, hp => by
    cases h
    exact hp
  | (topic, backoff) :: prunes, b, b', history, hfits, h, hp => by
    obtain ⟨hfit, hfits⟩ := List.forall_mem_cons.mp hfits
    rw [handlePrune, regraftDeadline_exact_iff.mpr hfit] at h
    rw [recordPrunes_cons]
    refine handlePrune_pending hfits h fun key deadline hd => ?_
    by_cases hkey : key = (peerId, topic)
    · subst hkey
      refine ⟨(now, backoff), by simp [lastPrune, Entry.prune?], ?_⟩
      simp only [Function.update_self, Option.mem_def, Option.some.injEq] at hd
      rw [← hd]
      exact Nat.add_le_add_left (Nat.mul_le_mul_right _ (Nat.le_add_right ..)) _
    · have hskip : lastPrune key (.pruned now peerId topic backoff :: history) = lastPrune key history := by
        simp [lastPrune, Entry.prune?, Ne.symm hkey]
      rw [hskip]
      simp only [Function.update_of_ne hkey] at hd
      exact hp key deadline hd

theorem Pending.record {regraft : String × String → Option Nat} {history : List (Entry S)} (h : Pending regraft history)
    (time : Nat) (pushed : List (String × Rpc S)) : Pending regraft (record time pushed history) := by
  intro key deadline hd
  rw [lastPrune_record]
  exact h key deadline hd

/-! ## One step -/

section
variable {build : Build} {takes : Nat → Nat → Bool} {w w' : World S} {time : Nat} {input : Input} {pushed : List (String × Rpc S)}

theorem Effect.owed_of_pushed (he : Effect codec w input w' pushed) {e : String × Rpc S} (hm : e ∈ pushed)
    {body : S.Body .graft} (hbody : body ∈ e.2.field .graft) : codec.topicId body ∈ input.owed e.1 := by
  have hto : body ∈ graftsTo e.1 pushed := List.mem_flatMap.mpr ⟨e, hm, by rwa [if_pos rfl]⟩
  rw [he.grafts] at hto
  obtain ⟨topic, htopic, rfl⟩ := List.mem_map.mp hto
  rwa [codec.topicId_toGraft]

theorem Effect.pushed_of_owed (he : Effect codec w input w' pushed) {peerId topic : String}
    (ho : topic ∈ input.owed peerId) : ∃ message, (peerId, message) ∈ pushed ∧
      codec.toGraft topic ∈ message.field .graft := by
  have hto : codec.toGraft topic ∈ graftsTo peerId pushed := by
    rw [he.grafts]
    exact List.mem_map_of_mem ho
  obtain ⟨e, hm, hbody⟩ := List.mem_flatMap.mp hto
  split at hbody
  · rename_i hpeer
    subst hpeer
    exact ⟨e.2, hm, hbody⟩
  · cases hbody

theorem inject_obeys_iff {source : String} {event : HandlerEvent} {history : List (Entry S)}
    (he : Effect codec w (.injectEvent source event) w' pushed) :
    Obeys codec (recordPrunes time source event.prunes (record time pushed history)) ↔
      Obeys codec history ∧ ∀ topic ∈ (Input.injectEvent source event).owed source,
        ∀ prune ∈ lastPrune (source, topic) history, allowed prune ≤ time := by
  rw [obeys_recordPrunes, obeys_record]
  apply and_congr_right'
  constructor
  · intro h topic htopic
    obtain ⟨message, hm, hbody⟩ := he.pushed_of_owed htopic
    have := h _ hm _ hbody
    rwa [codec.topicId_toGraft] at this
  · intro h e hm body hbody
    have howed := he.owed_of_pushed hm hbody
    have hsource : e.1 = source := by
      cases event with
      | peerKind => cases howed
      | message rpc =>
        by_contra hne
        rw [Input.owed, if_neg fun e => hne e.symm] at howed
        cases howed
    rw [hsource] at howed ⊢
    exact h _ howed

theorem inject_invariant {source : String} {event : HandlerEvent} (hc : Careful takes w time (.injectEvent source event))
    (ho : Obeys codec w.history) (hp : Pending w.behaviour.regraft w.history)
    (h : w.step codec (u64Delays build takes) time (.injectEvent source event) = .ok w') :
    Obeys codec w'.history ∧ Pending w'.behaviour.regraft w'.history := by
  obtain ⟨pushed, he, hhistory⟩ := inject_effect h
  obtain ⟨b, hb, h⟩ := bind_ok_iff.mp h
  cases h
  rw [hhistory, inject_obeys_iff he]
  cases event with
  | peerKind =>
    cases hb
    exact ⟨⟨ho, by simp [Input.owed]⟩, hp.record time pushed⟩
  | message rpc =>
    obtain ⟨hfits, hrunning⟩ := hc
    refine ⟨⟨ho, by simpa [Input.owed] using hrunning⟩, ?_⟩
    apply handlePrune_pending hfits hb
    obtain ⟨sent, hsend, -⟩ := handleReceivedSubscriptions_pushes codec w.behaviour rpc.subscriptions source
    rw [hsend]
    exact hp.record time pushed

theorem poll_invariant {expired : List (String × String)} (ha : Admissible w time (.poll expired))
    (ho : Obeys codec w.history) (hp : Pending w.behaviour.regraft w.history)
    (h : w.step codec (u64Delays build takes) time (.poll expired) = .ok w') :
    Obeys codec w'.history ∧ Pending w'.behaviour.regraft w'.history := by
  obtain ⟨pushed, he, hhistory, hregraft⟩ := poll_effect ha h
  rw [hhistory, hregraft]
  constructor
  · refine (obeys_record time pushed w.history).mpr ⟨ho, fun e hm body hbody prune hprune => ?_⟩
    -- the entry was due, so the backoff has passed
    have howed := he.owed_of_pushed hm hbody
    obtain ⟨key, hkey, htopic⟩ := List.mem_filterMap.mp howed
    split at htopic
    · rename_i hpeer
      have hke : key = (e.1, codec.topicId body) := Prod.ext hpeer (Option.some.inj htopic)
      obtain ⟨deadline, hd, hdue⟩ := ha.2.2.2 key hkey
      obtain ⟨prune', hprune', hle⟩ := hp key deadline hd
      rw [hke] at hprune'
      cases Option.mem_unique hprune hprune'
      exact Nat.le_trans hle hdue
    · cases htopic
  · intro key deadline hd
    rw [lastPrune_record]
    by_cases hkey : key ∈ expired
    · simp [hkey] at hd
    · simp only [if_neg hkey] at hd
      exact hp key deadline hd

theorem careful_of_obeys_step (ha : Admissible w time input)
    (hstep : w.step codec (u64Delays build takes) time input = .ok w') (ho : Obeys codec w'.history)
    (hd : ∀ p ∈ input.received, regraftDeadline (u64Delays build takes) time p.2 =
      .ok (time + (p.2.getD pruneBackoff + pruneBackoffDelay) * second)) :
    Obeys codec w.history ∧ Careful takes w time input := by
  cases input with
  | poll expired =>
    obtain ⟨pushed, -, hhistory, -⟩ := poll_effect ha hstep
    rw [hhistory, obeys_record] at ho
    exact ⟨ho.1, trivial⟩
  | injectEvent source event =>
    obtain ⟨pushed, he, hhistory⟩ := inject_effect hstep
    rw [hhistory, inject_obeys_iff he] at ho
    refine ⟨ho.1, ?_⟩
    cases event with
    | peerKind => exact trivial
    | message rpc =>
      refine ⟨fun p hp => regraftDeadline_exact_iff.mp (hd p hp), ?_⟩
      simpa [Input.owed] using ho.2

end

/-! ## Whole runs -/

section
variable {build : Build} {takes : Nat → Nat → Bool} {maxTransmitSize : Nat} {inputs : List (Nat × Input)}
  {outcome : Run (World S)}

theorem careful_invariant (h : Runs codec (u64Delays build takes) maxTransmitSize (Careful takes) inputs outcome) :
    ∀ w, outcome = .ok w → Obeys codec w.history ∧ Pending w.behaviour.regraft w.history := by
  induction h with
  | init =>
    intro w hw
    cases hw
    exact ⟨trivial, fun key deadline hd => by cases hd⟩
  | @step _ w time input _ ha hc ih =>
    intro w' hw
    obtain ⟨ho, hp⟩ := ih w rfl
    cases input with
    | injectEvent source event => exact inject_invariant hc ho hp hw
    | poll expired => exact poll_invariant ha ho hp hw

theorem deadlines_of_careful (h : Runs codec (u64Delays build takes) maxTransmitSize (Careful takes) inputs outcome) :
    ∀ i ∈ inputs, ∀ p ∈ i.2.received, regraftDeadline (u64Delays build takes) i.1 p.2 =
      .ok (i.1 + (p.2.getD pruneBackoff + pruneBackoffDelay) * second) := by
  induction h with
  | init => simp
  | @step inputs w time input _ _ hc ih =>
    intro i hi p hp
    rcases List.mem_append.mp hi with hi | hi
    · exact ih i hi p hp
    · rw [List.mem_singleton.mp hi] at hp ⊢
      cases input with
      | poll expired => cases hp
      | injectEvent source event =>
        cases event with
        | peerKind => cases hp
        | message rpc => exact regraftDeadline_exact_iff.mpr (hc.1 p hp)

theorem careful_of_obeys (h : Runs codec (u64Delays build takes) maxTransmitSize (fun _ _ _ => True) inputs outcome) :
    ObeysBackoff codec (u64Delays build takes) inputs outcome →
      Runs codec (u64Delays build takes) maxTransmitSize (Careful takes) inputs outcome := by
  induction h with
  | init => exact fun _ => .init
  | @step inputs w time input hrun ha _ ih =>
    intro hobeys
    have hd := hobeys.deadlines (time, input) (by simp)
    have htotal : ∃ w', w.step codec (u64Delays build takes) time input = .ok w' :=
      w.step_total time fun source event e p hp => ⟨_, hd p (by rw [e]; exact hp)⟩
    obtain ⟨w', hw'⟩ := htotal
    obtain ⟨ho, hc⟩ := careful_of_obeys_step ha hw' (hobeys.grafts w' hw') hd
    refine .step (ih ⟨fun w₁ hw₁ => ?_, fun i hi => hobeys.deadlines i (List.mem_append_left _ hi)⟩) ha hc
    cases hw₁
    exact ho

end

/-- **When the attacker obeys the backoff.** In exactly the runs whose steps are careful, whatever the table takes. -/
theorem obeysBackoff_iff (codec : GraftCodec S) (build : Build) (takes : Nat → Nat → Bool) (maxTransmitSize : Nat)
    {inputs : List (Nat × Input)} {outcome : Run (World S)}
    (h : Runs codec (u64Delays build takes) maxTransmitSize (fun _ _ _ => True) inputs outcome) :
    ObeysBackoff codec (u64Delays build takes) inputs outcome ↔
      Runs codec (u64Delays build takes) maxTransmitSize (Careful takes) inputs outcome :=
  ⟨careful_of_obeys h, fun hc => ⟨fun w hw => (careful_invariant hc w hw).1, deadlines_of_careful hc⟩⟩

instance (takes : Nat → Nat → Bool) (w : World S) (time : Nat) : (input : Input) → Decidable (Careful takes w time input)
  | .injectEvent _ (.message _) => inferInstanceAs (Decidable (_ ∧ _))
  | .injectEvent _ .peerKind => inferInstanceAs (Decidable True)
  | .poll _ => inferInstanceAs (Decidable True)

instance decidableObeys : (history : List (Entry S)) → Decidable (Obeys codec history)
  | [] => inferInstanceAs (Decidable True)
  | .pushed _ _ _ :: history =>
    have := decidableObeys history
    inferInstanceAs (Decidable (_ ∧ _))
  | .pruned _ _ _ _ :: history => decidableObeys history

/-- The queue takes deadlines up to `2 ^ 36` milliseconds ahead. -/
def upToTwoYears (_now delay : Nat) : Bool := delay * 1000 < 2 ^ 36

theorem regrafted_obeys : ∃ w, Runs .topics (u64Delays .debug upToTwoYears) 65536 (fun _ _ _ => True) regrafted (.ok w) ∧
    w.returned.length = 2 ∧ ObeysBackoff .topics (u64Delays .debug upToTwoYears) regrafted (.ok w) := by
  have hexec : (execAll .topics (u64Delays .debug upToTwoYears) (Careful upToTwoYears) (World.new 65536) regrafted).map
      (fun w => w.returned.length) = some 2 := by decide
  obtain ⟨w, hw, hlen⟩ := Option.map_eq_some_iff.mp hexec
  have hcareful := execAll_runs .init hw
  exact ⟨w, hcareful.run, hlen, (obeysBackoff_iff .topics .debug upToTwoYears 65536 hcareful.run).mpr hcareful⟩

/-- A PRUNE without a backoff, and one second later the peer subscribes again. -/
def subscribedAgain : List (Nat × Input) :=
  [(0, .injectEvent "victim" (.message ⟨[], [.prune "blocks" none]⟩)),
    (second, .injectEvent "victim" (.message ⟨[⟨.subscribe, "blocks"⟩], []⟩))]

/-- Also if the table takes all deadlines. -/
theorem early_graft : ¬ ∀ (build : Build) (maxTransmitSize : Nat) (inputs : List (Nat × Input))
    (outcome : Run (World Schema.topics)),
    Runs .topics (u64Delays build fun _ _ => true) maxTransmitSize (fun _ _ _ => True) inputs outcome →
      ObeysBackoff .topics (u64Delays build fun _ _ => true) inputs outcome := by
  intro h
  have hexec : (execAll .topics (u64Delays .release fun _ _ => true) (fun _ _ _ => True) (World.new 65536)
      subscribedAgain).map (fun w => decide (Obeys .topics w.history)) = some false := by decide
  obtain ⟨w, hw, hnot⟩ := Option.map_eq_some_iff.mp hexec
  have hobeys := h .release 65536 _ _ (execAll_runs .init hw)
  exact of_decide_eq_false hnot (hobeys.grafts w rfl)

end GossipPlans.Malicious
