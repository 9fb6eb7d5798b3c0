import GossipPlans.Basic

/-!
# censoring: parameters and the set-up of an honest node

`TestParams::new`, the publish interval that `HonestNetwork::new` makes of the message rate, the
choice of the peers to dial and the announced number of messages. `TestParams::new` parses its values
and checks none of them (`honestSetup_completes_iff`).
-/

namespace GossipPlans.Censoring

structure TestParams where
  peersToConnect : Nat
  messageRate : Nat
  warmup : Nat
  run : Nat
deriving DecidableEq, Repr

def TestParams.new (instanceParams : InstanceParams) : Run TestParams := do
  let v ← required instanceParams "peers_to_connect" "peers_to_connect is not specified."
  let peersToConnect ← parseField v id
  let v ← required instanceParams "message_rate" "message_rate is not specified."
  let messageRate ← parseField v id
  let v ← required instanceParams "warmup" "warmup is not specified."
  let warmup ← parseField v id
  let v ← required instanceParams "run" "run is not specified."
  let run ← parseField v id
  .ok { peersToConnect, messageRate, warmup, run }

/-- `interval(Duration::from_millis(1000 / message_rate))`, in milliseconds. -/
def publishInterval (messageRate : Nat) : Run Nat :=
  if messageRate = 0 then .error (.panic .divideByZero)
  else if 1000 / messageRate = 0 then .error (.panic .assertFailed)
  else .ok (1000 / messageRate)

theorem period_eq_zero_iff {rate : Nat} (h : rate ≠ 0) : 1000 / rate = 0 ↔ 1000 < rate := by
  rw [Nat.div_eq_zero_iff]
  omega

theorem publishInterval_ok_iff {rate period : Nat} :
    publishInterval rate = .ok period ↔ (1 ≤ rate ∧ rate ≤ 1000) ∧ period = 1000 / rate := by
  unfold publishInterval
  split
  · simp; omega
  · rename_i h
    have hperiod := period_eq_zero_iff h
    split
    · simp; omega
    · simp only [Except.ok.injEq]; omega

inductive Role where
  | publisher
  | lurker
  | attacker
deriving DecidableEq, Repr

def Role.isHonest : Role → Bool
  | .publisher => true
  | .lurker => true
  | .attacker => false

def Role.isPublisher : Role → Bool
  | .publisher => true
  | _ => false

theorem Role.isPublisher_iff {role : Role} : role.isPublisher = true ↔ role = .publisher := by
  cases role <;> simp [Role.isPublisher]

/-- The honest nodes `spawn_honest_network` dials: the first ones of the shuffled honest participants. -/
def peersToConnect {ι : Type} (role : ι → Role) (shuffle : List ι → List ι) (participants : List ι) (amount : Nat) :
    Run (List ι) :=
  sliceTo (shuffle (participants.filter fun p => (role p).isHonest)) amount

def quotient (x y : Nat) : Run Nat := if y = 0 then .error (.panic .divideByZero) else .ok (x / y)

/-- `run.as_millis() / publish_interval.as_millis()`, where the interval is computed once more. -/
def totalExpectedMessages (params : TestParams) : Run Nat := do
  let publishInterval ← quotient 1000 params.messageRate
  quotient (params.run * 1000) publishInterval

/-- `if matches!(instance_info.role, Role::Publisher)`: the others announce nothing. -/
def announced (role : Role) (params : TestParams) : Run (Option Nat) :=
  if role.isPublisher then (totalExpectedMessages params).map some else .ok none

structure HonestSetup (ι : Type) where
  publishInterval : Nat
  peersToConnect : List ι
  totalExpectedMessages : Option Nat
deriving DecidableEq, Repr

/-- `run` up to `StartPublishing`. `dial` gives the `DialError` where there is one. -/
def honestSetup {ι : Type} (role : ι → Role) (shuffle : List ι → List ι) (dial : ι → Except String Unit) (self : ι)
    (participants : List ι) (instanceParams : InstanceParams) : Run (HonestSetup ι) := do
  let params ← TestParams.new instanceParams
  let interval ← publishInterval params.messageRate
  let peers ← peersToConnect role shuffle participants params.peersToConnect
  peers.forM fun peer => (dial peer).mapError .err
  let total ← announced (role self) params
  .ok ⟨interval, peers, total⟩

/-! ## When the set-up completes -/

theorem completes_publishInterval_iff {rate : Nat} : Completes (publishInterval rate) ↔ 1 ≤ rate ∧ rate ≤ 1000 := by
  unfold publishInterval
  split
  · exact iff_of_false (fun h => h _ rfl) (by omega)
  · rename_i h
    have hperiod := period_eq_zero_iff h
    split
    · exact iff_of_false (fun h => h _ rfl) (by omega)
    · exact iff_of_true (completes_ok _) (by omega)

theorem completes_quotient_iff {x y : Nat} : Completes (quotient x y) ↔ y ≠ 0 := by
  unfold quotient
  split
  · exact iff_of_false (fun h => h _ rfl) (by omega)
  · rename_i h
    exact iff_of_true (completes_ok _) h

theorem completes_totalExpectedMessages_iff {params : TestParams} :
    Completes (totalExpectedMessages params) ↔ 1 ≤ params.messageRate ∧ params.messageRate ≤ 1000 := by
  rw [totalExpectedMessages, completes_bind_iff, completes_quotient_iff]
  constructor
  · intro h
    have hpos := h.1
    have hperiod := completes_quotient_iff.mp (h.2 (1000 / params.messageRate) (if_neg hpos))
    -- a period that is not zero is all that the second division asks for
    rw [ne_eq, period_eq_zero_iff hpos] at hperiod
    omega
  · intro h
    have hpos : params.messageRate ≠ 0 := by omega
    refine ⟨hpos, fun period hp => completes_quotient_iff.mpr ?_⟩
    rw [quotient, if_neg hpos] at hp
    rw [← Except.ok.inj hp, ne_eq, period_eq_zero_iff hpos]
    omega

section
variable {ι : Type} {role : ι → Role} {shuffle : List ι → List ι} {dial : ι → Except String Unit} {self : ι}
  {participants : List ι} {instanceParams : InstanceParams} {params : TestParams}

theorem completes_peersToConnect_iff (hshuffle : ∀ l, (shuffle l).Perm l) {amount : Nat} :
    Completes (peersToConnect role shuffle participants amount) ↔
      amount ≤ (participants.filter fun p => (role p).isHonest).length := by
  rw [peersToConnect, completes_sliceTo_iff, (hshuffle _).length_eq]

theorem completes_dials (peers : List ι) : Completes (peers.forM fun peer => (dial peer).mapError .err) := by
  apply completes_forM
  intro peer _ p hp
  cases hd : dial peer with
  | error e => rw [hd] at hp; cases hp
  | ok _ => rw [hd] at hp; cases hp

theorem completes_announced (h : Completes (totalExpectedMessages params)) (r : Role) :
    Completes (announced r params) := by
  unfold announced
  split
  · exact completes_map h
  · exact completes_ok _

/-- **When the set-up completes.** Exactly with a message rate from 1 to 1000 and as many other honest nodes as are
to be dialed, whatever is drawn and whichever dials fail. -/
theorem honestSetup_completes_iff (hparams : TestParams.new instanceParams = .ok params)
    (hshuffle : ∀ l, (shuffle l).Perm l) :
    Completes (honestSetup role shuffle dial self participants instanceParams) ↔
      (1 ≤ params.messageRate ∧ params.messageRate ≤ 1000) ∧
        params.peersToConnect ≤ (participants.filter fun p => (role p).isHonest).length := by
  rw [honestSetup, hparams, ← completes_publishInterval_iff, ← completes_peersToConnect_iff hshuffle]
  constructor
  · intro h
    have hinterval := completes_bind_iff.mp (completes_bind_iff.mp h |>.2 params rfl)
    refine ⟨hinterval.1, ?_⟩
    have hperiod := publishInterval_ok_iff.mpr ⟨completes_publishInterval_iff.mp hinterval.1, rfl⟩
    exact (completes_bind_iff.mp (hinterval.2 _ hperiod)).1
  · intro h
    have htotal := completes_totalExpectedMessages_iff.mpr (completes_publishInterval_iff.mp h.1)
    apply completes_bind_iff.mpr
    refine ⟨completes_ok _, fun _ hp => ?_⟩
    cases hp
    apply completes_bind_iff.mpr
    refine ⟨h.1, fun _ _ => ?_⟩
    apply completes_bind_iff.mpr
    refine ⟨h.2, fun peers _ => ?_⟩
    apply completes_bind_iff.mpr
    refine ⟨completes_dials peers, fun _ _ => ?_⟩
    apply completes_bind_iff.mpr
    exact ⟨completes_announced htotal _, fun _ _ => completes_ok _⟩

end

/-- The manifest's parameters, with its defaults for the warmup and the run. -/
def manifestParams (peersToConnect messageRate : String) : InstanceParams :=
  [("peers_to_connect", peersToConnect), ("message_rate", messageRate), ("warmup", "5"), ("run", "120")]

theorem honestSetup_completes_three : Completes (honestSetup (fun _ => .publisher) id (fun _ => .ok ()) 0 [1, 2]
    (manifestParams "2" "100")) := by
  have hparams : TestParams.new (manifestParams "2" "100") = .ok ⟨2, 100, 5, 120⟩ := by decide
  exact (honestSetup_completes_iff hparams fun l => .refl l).mpr (by decide)

/-- Three publishers: with the defaults, which dial 5 peers, and with a rate of 0 and of 2000 messages a second. -/
theorem honestSetup_panics :
    (∀ ps ∈ [manifestParams "5" "100", manifestParams "2" "0", manifestParams "2" "2000"], (TestParams.new ps).isOk) ∧
    [manifestParams "5" "100", manifestParams "2" "0", manifestParams "2" "2000"].map
      (honestSetup (fun _ => .publisher) id (fun _ => .ok ()) 0 [1, 2]) =
        [.error (.panic .sliceIndex), .error (.panic .divideByZero), .error (.panic .assertFailed)] := by
  decide

end GossipPlans.Censoring
