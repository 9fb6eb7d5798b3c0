import GossipPlans.PublishAndCollect
import GossipPlans.Smoke
import GossipPlans.SmokeEvents

/-!
# smoke: a run with its addresses

All instances collect the addresses in one order and shuffle with one seed, so whatever that order is, two of them are
dialed by everybody. When the first instance subscribes, the dials have joined all of them.
-/

namespace GossipPlans.SmokeRun

open CounterNet (Act acts)
open LogNet (Event Logs Proc)
open PublishAndCollect (Entry Process Serde act_not_mem_reads expectOk line line_acts line_halt line_run
  line_signalAndWait locals_reads orCrash reads signals_reads silent_orCrash silent_signalAndWait textCodec)
open Smoke (Local Shuffle connectedToAPeer exists_dialed exists_walk hub peerAddr publishedAMessage startedListening
  subscribedATopic)

/-- What an instance does. Where it waits in a loop it goes on after the event that ends the loop. -/
inductive Effect where
  | plain (x : Local)
  | dial (addr : String)
  | crash (f : Fail)

structure Setup (ι : Type) where
  instanceParams : ι → InstanceParams
  /-- `ConfigBuilder::build`, for a history length. -/
  build : Nat → Except String Unit
  multiaddr : ι → String
  serde : Serde String
  /-- `Multiaddr::try_from` -/
  tryFrom : String → Except String Unit
  shuffle : Shuffle
  dial : ι → String → Except String Unit
  subscribe : ι → Except String Unit
  publish : ι → Except String Unit

def historyLength (instanceParams : InstanceParams) : Run Nat := do
  let v ← required instanceParams "gossipsub_history_length" "gossipsub_history_length is not specified"
  parseField v id

/-- All addresses but the own one. -/
def others (tryFrom : String → Except String Unit) (participants : List String) (multiaddr : String) : Run (List String) :=
  (participants.filter (· != multiaddr)).mapM fun addr => (expectOk "Valid as multiaddr" (tryFrom addr)).map fun _ => addr

section
variable {ι : Type} [Fintype ι] (s : Setup ι)

/-- `main` from the subscription on. -/
def connected (i : ι) : Process Effect :=
  .acts [.plain .connected] <|
  PublishAndCollect.signalAndWait connectedToAPeer (Fintype.card ι) <|
  .acts [.plain .subscribe] <|
  (PublishAndCollect.propagate (s.subscribe i)) |> orCrash .crash fun _ =>
  .acts [.plain .allSubscribed] <|
  PublishAndCollect.signalAndWait subscribedATopic (Fintype.card ι) <|
  .acts [.plain .publish] <|
  (PublishAndCollect.propagate (s.publish i)) |> orCrash .crash fun _ =>
  .acts [.plain .receivedAll] <|
  PublishAndCollect.signalAndWait publishedAMessage (Fintype.card ι) <|
  .acts [.plain .recordSuccess] .halt

def collected (i : ι) (participants : List String) : Process Effect :=
  (others s.tryFrom participants (s.multiaddr i)) |> orCrash .crash fun _ =>
  (peerAddr s.shuffle (Fintype.card ι) participants (s.multiaddr i)) |> orCrash .crash fun addr =>
  .acts [.dial addr] <|
  (PublishAndCollect.propagate (s.dial i addr)) |> orCrash .crash fun _ =>
  connected s i

def listening (i : ι) : Process Effect :=
  .acts [.plain .listen] <|
  PublishAndCollect.signalAndWait startedListening (Fintype.card ι) <|
  PublishAndCollect.smoke s.serde (s.multiaddr i) (Fintype.card ι) <|
  orCrash .crash (collected s i)

def main (i : ι) : Process Effect :=
  (historyLength (s.instanceParams i)) |> orCrash .crash fun len =>
  (expectOk "Valid configuration" (s.build len)) |> orCrash .crash fun _ =>
  listening s i

end

/-! ## What a run starts from -/

section
variable {ι : Type} [Fintype ι]

/-- At least two instances with their own addresses, and nothing that they call fails. -/
structure Setup.Accepted (s : Setup ι) : Prop where
  two : 2 ≤ Fintype.card ι
  multiaddrs : Function.Injective s.multiaddr
  params : ∀ i, ∃ len, historyLength (s.instanceParams i) = .ok len ∧ s.build len = .ok ()
  infos : ∀ i, ∃ value, (textCodec s.serde).encode (s.multiaddr i) = .ok value ∧
    (textCodec s.serde).decode value = .ok (s.multiaddr i)
  valid : ∀ i, s.tryFrom (s.multiaddr i) = .ok ()
  dials : ∀ i j, s.dial i (s.multiaddr j) = .ok ()
  calls : ∀ i, s.subscribe i = .ok () ∧ s.publish i = .ok ()

end

/-! ## The programs that the instances are -/

section
variable {ι : Type} [Fintype ι] {s : Setup ι} {logs : Logs Key Entry} {participants : List String} {i j : ι}

def programToListen (n : Nat) : List (Act Key Effect) := acts [.plain .listen] ++ signalAndWait startedListening n

def programToConnect (n : Nat) (addr : String) : List (Act Key Effect) :=
  .signal (.topic "publish_and_collect") :: (reads "publish_and_collect" n ++ acts [.dial addr, .plain .connected])

def programFromSubscribe (n : Nat) : List (Act Key Effect) :=
  acts [.plain .subscribe, .plain .allSubscribed] ++ (signalAndWait subscribedATopic n ++
  (acts [.plain .publish, .plain .receivedAll] ++ (signalAndWait publishedAMessage n ++ acts [.plain .recordSuccess])))

def program (n : Nat) (addr : String) : List (Act Key Effect) :=
  programToListen n ++ (programToConnect n addr ++ (signalAndWait connectedToAPeer n ++ programFromSubscribe n))

theorem silent_connected (name : String) (i : ι) : (connected s i).Silent (.topic name) := by
  apply LogNet.silent_acts.mpr
  apply silent_signalAndWait.mpr
  apply LogNet.silent_acts.mpr
  apply silent_orCrash
  intro _
  apply LogNet.silent_acts.mpr
  apply silent_signalAndWait.mpr
  apply LogNet.silent_acts.mpr
  apply silent_orCrash
  intro _
  simp [silent_signalAndWait, Proc.Silent]

theorem silent_collected (name : String) (i : ι) (participants : List String) :
    (collected s i participants).Silent (.topic name) := by
  apply silent_orCrash
  intro _
  apply silent_orCrash
  intro addr
  apply LogNet.silent_acts.mpr
  apply silent_orCrash
  exact fun _ => silent_connected name i

/-- The addresses in the order in which all instances collect them. -/
def Collected (s : Setup ι) (participants : List String) : Prop := participants.Perm (Finset.univ.toList.map s.multiaddr)

theorem Collected.nodup (hacc : s.Accepted) (hc : Collected s participants) : participants.Nodup :=
  (List.Perm.nodup_iff hc).mpr ((Finset.nodup_toList _).map hacc.multiaddrs)

theorem Collected.length (hc : Collected s participants) : participants.length = Fintype.card ι :=
  PublishAndCollect.length_of_perm hc

theorem Collected.mem_iff (hc : Collected s participants) {addr : String} : addr ∈ participants ↔ ∃ j, addr = s.multiaddr j := by
  rw [List.Perm.mem_iff hc]
  simp [eq_comm]

theorem Collected.others_ok (hacc : s.Accepted) (hc : Collected s participants) (i : ι) :
    ∃ addrs, others s.tryFrom participants (s.multiaddr i) = .ok addrs := by
  refine ⟨_, mapM_ok (g := id) fun addr haddr => ?_⟩
  obtain ⟨j, rfl⟩ := hc.mem_iff.mp (List.mem_of_mem_filter haddr)
  rw [hacc.valid j]
  rfl

theorem line_listening (hacc : s.Accepted) (hc : Collected s participants)
    (hlog : (textCodec s.serde).Decodes (logs (.topic "publish_and_collect")) participants) {addr : String}
    (haddr : peerAddr s.shuffle (Fintype.card ι) participants (s.multiaddr i) = .ok addr) (hmem : ∃ j, addr = s.multiaddr j) :
    line logs (main s i) = program (Fintype.card ι) addr := by
  obtain ⟨len, hlen, hbuild⟩ := hacc.params i
  obtain ⟨value, hvalue, -⟩ := hacc.infos i
  obtain ⟨j, hj⟩ := hmem
  have hdial : s.dial i addr = .ok () := hj ▸ hacc.dials i j
  obtain ⟨hsubscribe, hpublish⟩ := hacc.calls i
  obtain ⟨addrs, haddrs⟩ := hc.others_ok hacc i
  have hok : ∀ msg, expectOk msg (.ok ()) = .ok () := fun _ => rfl
  have hpropagate : PublishAndCollect.propagate (.ok ()) = .ok () := rfl
  simp only [main, hlen, hbuild, hok, orCrash, listening, line_acts, line_signalAndWait, PublishAndCollect.smoke]
  rw [line_run hvalue hlog hc.length]
  simp only [orCrash, collected, haddrs, haddr, line_acts, hdial, hpropagate, connected, line_signalAndWait,
    hsubscribe, hpublish, line_halt, program, programToListen, programToConnect, programFromSubscribe]
  simp [acts]

theorem published_main [DecidableEq ι] (hacc : s.Accepted) {value : PublishAndCollect.Value}
    (hvalue : (textCodec s.serde).encode (s.multiaddr i) = .ok value) :
    (LogNet.published (.topic "publish_and_collect") ((main s i).resolve logs)).Subperm [value] := by
  obtain ⟨len, hlen, hbuild⟩ := hacc.params i
  have hok : expectOk "Valid configuration" (.ok ()) = .ok () := rfl
  rw [main, hlen]
  simp only [orCrash, hbuild, hok, listening, LogNet.resolve_acts, LogNet.published_append, LogNet.published_acts,
    List.nil_append, PublishAndCollect.signalAndWait, Proc.resolve, LogNet.published_cons, Event.items, reduceCtorEq, dite_false]
  exact PublishAndCollect.published_call hvalue (silent_orCrash fun participants => silent_collected _ i participants)

end

/-! ## Two that are dialed -/

/-- The order in which the addresses are collected, with the place of each instance in it; everybody dials one of the
two neighbours at `p` and `p + 1`. -/
structure Layout {ι : Type} [Fintype ι] (s : Setup ι) where
  participants : List String
  collected : Collected s participants
  p : Nat
  lt : p + 1 < participants.length
  dials : ∀ k, Smoke.Dials s.shuffle participants k (hub lt k)
  place : ι → Fin participants.length
  place_eq : ∀ i, participants[place i] = s.multiaddr i

namespace Layout

section
variable {ι : Type} [Fintype ι] {s : Setup ι} (L : Layout s) {i j : ι}

theorem exists_of_collected {participants : List String} (hacc : s.Accepted) (hc : Collected s participants) :
    ∃ L : Layout s, L.participants = participants := by
  obtain ⟨p, hp, hd⟩ := exists_dialed s.shuffle (hc.length.symm ▸ hacc.two) (hc.nodup hacc)
  have hplace : ∀ i, ∃ k : Fin participants.length, participants[k] = s.multiaddr i := fun i => by
    obtain ⟨k, hk, hget⟩ := List.getElem_of_mem (hc.mem_iff.mpr ⟨i, rfl⟩)
    exact ⟨⟨k, hk⟩, hget⟩
  choose place hplace using hplace
  exact ⟨⟨participants, hc, p, hp, hd, place, hplace⟩, rfl⟩

/-- The address that `i` dials. -/
def addr (i : ι) : String := L.participants[hub L.lt (L.place i)]

theorem peerAddr_eq (i : ι) :
    peerAddr s.shuffle (Fintype.card ι) L.participants (s.multiaddr i) = .ok (L.addr i) := by
  rw [← L.collected.length, ← L.place_eq i]
  exact L.dials (L.place i)

theorem get_inj (hacc : s.Accepted) {k l : Fin L.participants.length} (h : L.participants[k] = L.participants[l]) : k = l :=
  Fin.ext ((L.collected.nodup hacc).getElem_inj_iff.mp h)

theorem place_inj (hacc : s.Accepted) (h : L.place i = L.place j) : i = j := by
  apply hacc.multiaddrs
  rw [← L.place_eq, ← L.place_eq]
  exact congrArg (fun k : Fin L.participants.length => L.participants[k]) h

theorem exists_at (hacc : s.Accepted) (k : Fin L.participants.length) : ∃ j, L.place j = k := by
  obtain ⟨j, hj⟩ := L.collected.mem_iff.mp (List.getElem_mem k.isLt)
  exact ⟨j, L.get_inj hacc ((L.place_eq j).trans hj.symm)⟩

theorem addr_eq_iff (hacc : s.Accepted) : L.addr i = s.multiaddr j ↔ L.place j = hub L.lt (L.place i) := by
  rw [← L.place_eq j, addr]
  constructor
  · intro h
    exact (L.get_inj hacc h).symm
  · intro h
    exact congrArg (fun k : Fin L.participants.length => L.participants[k]) h.symm

theorem hub_of_dials (hacc : s.Accepted) {k l : Fin L.participants.length} (h : Smoke.Dials s.shuffle L.participants k l) :
    l = hub L.lt k := L.get_inj hacc (Except.ok.inj (h.symm.trans (L.dials k)))

theorem hub_ne {participants : List String} {p : Nat} (hp : p + 1 < participants.length) (k : Fin participants.length) :
    hub hp k ≠ k := by
  intro h
  have hval := congrArg Fin.val h
  unfold hub at hval
  split at hval <;> simp only at hval <;> omega

end

end Layout

section
variable {ι : Type} [Fintype ι] [DecidableEq ι] {s : Setup ι} {i j : ι}

theorem becomes_program (hacc : s.Accepted) : LogNet.Becomes (main s) fun p => ∃ L : Layout s,
    p = fun i => program (Fintype.card ι) (L.addr i) := by
  intro st h
  choose value hencode hdecode using hacc.infos
  obtain ⟨logs, participants, hext, hc, hlog⟩ := PublishAndCollect.exists_complete_infos hdecode
    (fun i _ => published_main hacc (hencode i)) h
  obtain ⟨L, rfl⟩ := Layout.exists_of_collected hacc hc
  refine ⟨logs, hext, L, funext fun i => line_listening hacc hc hlog (L.peerAddr_eq i) ?_⟩
  obtain ⟨j, hj⟩ := L.exists_at hacc (hub L.lt (L.place i))
  exact ⟨j, (L.addr_eq_iff hacc).mpr hj⟩

theorem mem_program_dial {n : Nat} {addr addr' : String} (h : .act (.dial addr') ∈ program n addr) : addr' = addr := by
  simpa [program, programToListen, programToConnect, programFromSubscribe] using h

theorem signals_program {state : String} (hs : state = startedListening ∨ state = connectedToAPeer) (n : Nat) (addr : String) :
    CounterNet.signals (.state state) (program n addr) = 1 := by
  have hcall : ∀ state, CounterNet.signals (.state state) (programToConnect n addr) = 0 := fun _ => by
    simp [programToConnect, signals_reads, Act.isSignal]
  rcases hs with rfl | rfl <;>
    simp [program, hcall, programToListen, programFromSubscribe, startedListening, connectedToAPeer,
      subscribedATopic, publishedAMessage]

section
variable {L : Layout s} {c : CounterNet.State ι Key}

theorem listening_of_dialed (hreach : CounterNet.Reachable (fun i => program (Fintype.card ι) (L.addr i)) c) {addr : String}
    (h : .act (.dial addr) ∈ CounterNet.executed (fun i => program (Fintype.card ι) (L.addr i)) c i) (j : ι) :
    .act (.plain .listen) ∈ CounterNet.executed (fun i => program (Fintype.card ι) (L.addr i)) c j := by
  have hawait : .await (.state startedListening) (Fintype.card ι) ∈
      CounterNet.executed (fun i => program (Fintype.card ι) (L.addr i)) c i := by
    apply CounterNet.executed_of_precedes _ h
    apply CounterNet.precedes_append <;> simp [programToListen]
  have hsignal := hreach.barrier (fun j => (signals_program (Or.inl rfl) _ (L.addr j)).le) (Nat.le_refl _) hawait j
  apply CounterNet.executed_of_precedes _ hsignal
  show CounterNet.Precedes ([Act.act (Effect.plain .listen)] ++ _) _ _
  apply CounterNet.precedes_append <;> simp

theorem dialed_of_subscribed (hreach : CounterNet.Reachable (fun i => program (Fintype.card ι) (L.addr i)) c)
    (h : .act (.plain .subscribe) ∈ CounterNet.executed (fun i => program (Fintype.card ι) (L.addr i)) c i) (j : ι) :
    .act (.dial (L.addr j)) ∈ CounterNet.executed (fun i => program (Fintype.card ι) (L.addr i)) c j := by
  have hawait : .await (.state connectedToAPeer) (Fintype.card ι) ∈
      CounterNet.executed (fun i => program (Fintype.card ι) (L.addr i)) c i := by
    apply CounterNet.executed_of_precedes _ h
    apply CounterNet.precedes_skip
    · simp [programToListen]
    apply CounterNet.precedes_skip
    · simp [programToConnect]
    apply CounterNet.precedes_append <;> simp
  have hsignal := hreach.barrier (fun j => (signals_program (Or.inr rfl) _ (L.addr j)).le) (Nat.le_refl _) hawait j
  apply CounterNet.executed_of_precedes _ hsignal
  apply CounterNet.precedes_skip
  · simp [programToListen, startedListening, connectedToAPeer]
  apply CounterNet.precedes_append
  · simp [programToConnect]
  · simp [programToConnect, reads]

end

/-! ## A run -/

end

def Setup.three : Setup (Fin 3) where
  instanceParams _ := [("gossipsub_history_length", "5")]
  build len := if 3 ≤ len then .ok () else .error "history_length is less than history_gossip"
  multiaddr i := s!"/ip4/16.0.0.{i.val + 2}/tcp/9000"
  serde := PublishAndCollect.quoted
  tryFrom _ := .ok ()
  shuffle := .reverse
  dial _ _ := .ok ()
  subscribe _ := .ok ()
  publish _ := .ok ()

theorem accepted_three : Setup.three.Accepted where
  two := by decide
  multiaddrs := by
    rw [Function.Injective]
    decide +kernel
  params _ := ⟨5, rfl, rfl⟩
  infos i := PublishAndCollect.textCodec_roundTrips PublishAndCollect.quoted_roundTrips (Setup.three.multiaddr i)
  valid _ := rfl
  dials _ _ := rfl
  calls _ := ⟨rfl, rfl⟩

/-- All have dialed, and instance 0 has subscribed. -/
theorem exists_scheduled : ∃ st addr, LogNet.Reachable (main Setup.three) st ∧ .act (.dial addr) ∈ st.trace 0 ∧
    .act (.plain .subscribe) ∈ st.trace 0 := by
  let schedule : List (Fin 3 × Nat) := [(0, 2), (1, 2), (2, 5), (0, 4), (1, 8), (2, 5), (0, 8)]
  have hok : ((LogNet.execAll (.init (main Setup.three)) (schedule.flatMap fun b => List.replicate b.2 b.1)).map fun st =>
      ((st.did 0).any fun e => match e with | .dial _ => true | _ => false,
        (st.did 0).any fun e => match e with | .plain .subscribe => true | _ => false)) = some (true, true) := by
    decide +kernel
  obtain ⟨st, hst, hok⟩ := Option.map_eq_some_iff.mp hok
  simp only [Prod.mk.injEq, List.any_eq_true] at hok
  obtain ⟨⟨dial, hdial, heq⟩, subscribe, hsub, heq'⟩ := hok
  split at heq
  · rename_i addr
    split at heq'
    · exact ⟨st, addr, LogNet.execAll_reachable .refl hst, LogNet.mem_did.mp hdial, LogNet.mem_did.mp hsub⟩
    · cases heq'
  · cases heq

section
variable {ι : Type} [Fintype ι] [DecidableEq ι] {s : Setup ι}

/-! ## The dials of a run -/

/-- **Two are dialed.** Whatever happens, no more than two of the instances are ever dialed, nobody dials itself, and
nobody dials before all listen. -/
theorem two_are_dialed (s : Setup ι) (hacc : s.Accepted) (st : LogNet.State ι Key Entry Effect)
    (h : LogNet.Reachable (main s) st) : ∃ a b, a ≠ b ∧ ∀ i addr, .act (.dial addr) ∈ st.trace i →
      (addr = s.multiaddr a ∨ addr = s.multiaddr b) ∧ addr ≠ s.multiaddr i ∧ ∀ j, .act (.plain .listen) ∈ st.trace j := by
  obtain ⟨-, ⟨L, rfl⟩, c, hreach, hexec, -⟩ := (becomes_program hacc).run h
  obtain ⟨a, ha⟩ := L.exists_at hacc ⟨L.p, by have := L.lt; omega⟩
  obtain ⟨b, hb⟩ := L.exists_at hacc ⟨L.p + 1, L.lt⟩
  refine ⟨a, b, fun heq => ?_, fun i addr hdial => ?_⟩
  · subst heq
    simpa using congrArg Fin.val (ha.symm.trans hb)
  obtain rfl := mem_program_dial (LogNet.act_mem_of_trace hexec hdial)
  refine ⟨?_, fun hself => ?_, fun j => ?_⟩
  · rw [L.addr_eq_iff hacc, L.addr_eq_iff hacc, ha, hb, hub]
    split
    · exact Or.inl rfl
    · exact Or.inr rfl
  · exact Layout.hub_ne L.lt (L.place i) ((L.addr_eq_iff hacc).mp hself).symm
  · rw [← LogNet.act_mem_map, ← hexec] at hdial ⊢
    exact listening_of_dialed hreach hdial j

theorem two_are_dialed_three : ∃ st addr, LogNet.Reachable (main Setup.three) st ∧ .act (.dial addr) ∈ st.trace 0 ∧
    addr ≠ Setup.three.multiaddr 0 ∧ ∀ j, .act (.plain .listen) ∈ st.trace j := by
  obtain ⟨st, addr, hst, hdial, -⟩ := exists_scheduled
  obtain ⟨a, b, -, hdialed⟩ := two_are_dialed Setup.three accepted_three st hst
  exact ⟨st, addr, hst, hdial, (hdialed 0 addr hdial).2⟩

/-- Who has dialed whom. -/
def dialed (s : Setup ι) (st : LogNet.State ι Key Entry Effect) : SimpleGraph ι :=
  SimpleGraph.fromRel fun i j => .act (.dial (s.multiaddr j)) ∈ st.trace i

/-- **Joined.** As soon as one instance has subscribed, the dials that were made join all instances, and any two of them
are at most three apart. -/
theorem joined_before_subscribed (s : Setup ι) (hacc : s.Accepted) (st : LogNet.State ι Key Entry Effect)
    (h : LogNet.Reachable (main s) st) (i : ι) (hsub : .act (.plain .subscribe) ∈ st.trace i) :
    (dialed s st).Connected ∧ ∀ j k, (dialed s st).dist j k ≤ 3 := by
  obtain ⟨-, ⟨L, rfl⟩, c, hreach, hexec, -⟩ := (becomes_program hacc).run h
  have hdial : ∀ j, .act (.dial (L.addr j)) ∈ st.trace j := fun j => by
    rw [← LogNet.act_mem_map, ← hexec] at hsub ⊢
    exact dialed_of_subscribed hreach hsub j
  choose owner howner using L.exists_at hacc
  have hback : ∀ j, owner (L.place j) = j := fun j => L.place_inj hacc (howner _)
  have hedge : ∀ {k l}, Smoke.Dials s.shuffle L.participants k l → .act (.dial (s.multiaddr (owner l))) ∈ st.trace (owner k) := by
    intro k l hkl
    have haddr : L.addr (owner k) = s.multiaddr (owner l) :=
      (L.addr_eq_iff hacc).mpr (by rw [howner, howner]; exact L.hub_of_dials hacc hkl)
    exact haddr ▸ hdial (owner k)
  let f : Smoke.dialGraph s.shuffle L.participants →g dialed s st := {
    toFun := owner
    map_rel' := fun {k l} hkl => by
      obtain ⟨hne, hdials⟩ := (SimpleGraph.fromRel_adj ..).mp hkl
      refine (SimpleGraph.fromRel_adj ..).mpr ⟨fun heq => hne ?_, hdials.imp hedge hedge⟩
      rw [← howner k, ← howner l, heq] }
  have hwalk : ∀ j k, ∃ walk : (dialed s st).Walk j k, walk.length ≤ 3 := fun j k => by
    obtain ⟨walk, hlen⟩ := exists_walk L.lt L.dials (L.place j) (L.place k)
    refine ⟨(walk.map f).copy (hback j) (hback k), ?_⟩
    rw [SimpleGraph.Walk.length_copy, SimpleGraph.Walk.length_map]
    exact hlen
  refine ⟨?_, fun j k => ?_⟩
  · have : Nonempty ι := ⟨i⟩
    exact ⟨fun j k => (hwalk j k).choose.reachable⟩
  · obtain ⟨walk, hlen⟩ := hwalk j k
    exact (SimpleGraph.dist_le walk).trans hlen

theorem joined_before_subscribed_three : ∃ st, LogNet.Reachable (main Setup.three) st ∧
    (dialed Setup.three st).Connected := by
  obtain ⟨st, -, hst, -, hsub⟩ := exists_scheduled
  exact ⟨st, hst, (joined_before_subscribed Setup.three accepted_three st hst 0 hsub).1⟩

end

/-! ## With the addresses left out -/

section
variable {n : Nat}

/-- All items are there when the last one is. -/
def forget (n : Nat) : Act Key Effect → Option (Act Key Local)
  | .act (.plain x) => some (.act x)
  | .act (.dial _) => some (.act .dial)
  | .act (.crash _) => none
  | .signal t => some (.signal t)
  | .await (.state name) k => some (.await (.state name) k)
  | .await (.topic name) k => if k = n then some (.await (.topic name) k) else none

theorem forget_projection (n : Nat) : CounterNet.Projection (fun _ => true) (forget n) where
  signal _ := rfl
  await {t k y} h := by
    refine ⟨rfl, ?_⟩
    cases t with
    | state name => exact (Option.some.inj h).symm
    | topic name => exact (Option.some.inj (Option.ite_none_right_eq_some.mp h).2).symm
  act {e y} h := by
    cases e with
    | plain x => exact ⟨x, (Option.some.inj h).symm⟩
    | dial addr => exact ⟨.dial, (Option.some.inj h).symm⟩
    | crash f => cases h

theorem forget_reads (topic : String) (h : 0 < n) :
    (reads topic n).filterMap (forget n) = [.await (.topic topic) n] := by
  apply PublishAndCollect.filterMap_reads h
  · intro k hk
    rw [forget, if_neg hk]
  · rw [forget, if_pos rfl]

theorem forget_program (h : 0 < n) (addr : String) : (program n addr).filterMap (forget n) = Smoke.main n := by
  have hcall : (programToConnect n addr).filterMap (forget n) =
      publishAndCollect "publish_and_collect" n ++ [.act .dial, .act .connected] := by
    rw [programToConnect, List.filterMap_cons, List.filterMap_append, forget_reads _ h]
    rfl
  rw [program, List.filterMap_append, List.filterMap_append, hcall]
  simp [programToListen, programFromSubscribe, Smoke.main, Smoke.startLibp2p, Smoke.connectToAPeer, Smoke.subscribeATopic,
    Smoke.publishASingleMessage, signalAndWait, acts, forget]

/-- **Refinement.** A run with its addresses is a run of the instances that take events. -/
theorem smoke_run_refines_instances (s : Setup (Fin n)) (hacc : s.Accepted) (st : LogNet.State (Fin n) Key Entry Effect)
    (h : LogNet.Reachable (main s) st) : ∃ c : CounterNet.State (Fin n) Key, CounterNet.Reachable (Smoke.instances n) c ∧
      ∀ i, CounterNet.executed (Smoke.instances n) c i = ((st.trace i).map Event.toAct).filterMap (forget n) := by
  obtain ⟨-, ⟨L, rfl⟩, c, hreach, hexec, -⟩ := (becomes_program hacc).run h
  have hpos : 0 < n := by
    have htwo := hacc.two
    rw [Fintype.card_fin] at htwo
    omega
  have hrun : Smoke.instances n = fun i => (program (Fintype.card (Fin n)) (L.addr i)).filterMap (forget n) := by
    funext i
    rw [Fintype.card_fin, forget_program hpos]
    rfl
  rw [hrun]
  refine ⟨_, hreach.project (forget_projection n), fun i => ?_⟩
  rw [CounterNet.executed_project, hexec]

theorem smoke_run_refines_instances_three : ∃ st, LogNet.Reachable (main Setup.three) st ∧
    .act (.plain .subscribe) ∈ st.trace 0 ∧ ∃ c, CounterNet.Reachable (Smoke.instances 3) c ∧
      CounterNet.executed (Smoke.instances 3) c 0 = ((st.trace 0).map Event.toAct).filterMap (forget 3) := by
  obtain ⟨st, -, hst, -, hsub⟩ := exists_scheduled
  obtain ⟨c, hreach, hexec⟩ := smoke_run_refines_instances Setup.three accepted_three st hst
  exact ⟨st, hst, hsub, c, hreach, hexec 0⟩

end

end GossipPlans.SmokeRun
