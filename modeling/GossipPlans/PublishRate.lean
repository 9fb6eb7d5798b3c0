import GossipPlans.Censoring
import Mathlib.Tactic.Ring

/-!
# censoring: how often a publisher publishes

The interval of the publish branch starts in `HonestNetwork::new`, before the warmup. Ticks that are
not polled stay due, so the ticks of the warmup are all published after it (`published_le_iff`).
Times are nanoseconds since the interval was created.
-/

namespace GossipPlans.Censoring

inductive HonestMessage where
  | subscribe
  | startPublishing
  | stopPublishing
deriving DecidableEq, Repr

inductive PublishState where
  | awaiting
  | started
  | stopped
deriving DecidableEq, Repr

/-- A publisher's run as the clock sees it: `setup` passes between the creation of the interval and
the warmup, `sync` between the warmup and the start of publishing. -/
structure Timing where
  params : TestParams
  intervalMillis : Nat
  interval_ok : publishInterval params.messageRate = .ok intervalMillis
  setup : Nat
  sync : Nat

def Timing.period (tm : Timing) : Nat := tm.intervalMillis * 1000000
def Timing.runTime (tm : Timing) : Nat := tm.params.run * 1000000000

def Timing.lead (tm : Timing) : Nat := tm.setup + tm.params.warmup * 1000000000 + tm.sync

def Timing.stopAt (tm : Timing) : Nat := tm.lead + tm.runTime

/-- `run.as_millis() / publish_interval.as_millis()` -/
def Timing.totalExpectedMessages (tm : Timing) : Nat := tm.params.run * 1000 / tm.intervalMillis

/-- What `honest::run` sends to the loop. -/
def Timing.sends (tm : Timing) : List (Nat × HonestMessage) :=
  [(tm.setup, .subscribe), (tm.lead, .startPublishing), (tm.stopAt, .stopPublishing)]

structure Node where
  now : Nat
  publishState : PublishState
  /-- Messages not yet received, with the time at which each is sent. -/
  channel : List (Nat × HonestMessage)
  /-- Ticks of the publish interval polled so far; tick `k` is due at `k` periods. -/
  ticks : Nat
  published : Nat
deriving DecidableEq, Repr

def Node.init (tm : Timing) : Node := ⟨0, .awaiting, tm.sends, 0, 0⟩

inductive LoopBranch where
  | scoreTick
  | publishTick
  | swarmEvent
  | recv
deriving DecidableEq, Repr

def handle (publishState : PublishState) : HonestMessage → PublishState
  | .subscribe => publishState
  | .startPublishing => .started
  | .stopPublishing => .stopped

def branchAt (tm : Timing) (node : Node) (now : Nat) : LoopBranch → Option Node
  | .scoreTick => some { node with now }
  | .publishTick =>
    if node.publishState = .started ∧ node.ticks * tm.period ≤ now then
      some { node with now, ticks := node.ticks + 1, published := node.published + 1 }
    else none
  | .swarmEvent => some { node with now }
  | .recv =>
    match node.channel with
    | [] => none
    | (sentAt, message) :: channel =>
      if sentAt ≤ now then some { node with now, channel, publishState := handle node.publishState message }
      else none

/-- Time does not go back, and does not pass the stop before `StopPublishing` is handled. -/
def step (tm : Timing) (node : Node) (e : Nat × LoopBranch) : Option Node :=
  if node.now ≤ e.1 ∧ (e.1 ≤ tm.stopAt ∨ node.publishState = .stopped) then branchAt tm node e.1 e.2 else none

def runLoop (tm : Timing) : Node → List (Nat × LoopBranch) → Option Node
  | node, [] => some node
  | node, e :: es => (step tm node e).bind fun node => runLoop tm node es

/-! ## Arithmetic of the period -/

theorem Timing.intervalMillis_pos (tm : Timing) : 0 < tm.intervalMillis := by
  obtain ⟨⟨hpos, hle⟩, h⟩ := publishInterval_ok_iff.mp tm.interval_ok
  rw [h]
  exact Nat.div_pos hle hpos

theorem totalExpectedMessages_ok (tm : Timing) :
    totalExpectedMessages tm.params = .ok tm.totalExpectedMessages := by
  obtain ⟨⟨hpos, -⟩, h⟩ := publishInterval_ok_iff.mp tm.interval_ok
  have hrate : tm.params.messageRate ≠ 0 := by omega
  have hmillis : tm.intervalMillis ≠ 0 := Nat.ne_of_gt tm.intervalMillis_pos
  rw [h] at hmillis
  rw [totalExpectedMessages, quotient, if_neg hrate, Timing.totalExpectedMessages, h]
  exact if_neg hmillis

theorem Timing.period_pos (tm : Timing) : 0 < tm.period := Nat.mul_pos tm.intervalMillis_pos (by decide)

theorem Timing.totalExpectedMessages_eq (tm : Timing) : tm.totalExpectedMessages = tm.runTime / tm.period := by
  have hrun : tm.runTime = tm.params.run * 1000 * 1000000 := by rw [Timing.runTime, Nat.mul_assoc]
  rw [Timing.totalExpectedMessages, Timing.period, hrun, Nat.mul_div_mul_right _ _ (by decide)]

theorem Timing.stopAt_div_le_iff (tm : Timing) :
    tm.stopAt / tm.period ≤ tm.runTime / tm.period ↔ tm.lead + tm.runTime % tm.period < tm.period := by
  have hsplit : tm.stopAt = tm.lead + tm.runTime % tm.period + tm.period * (tm.runTime / tm.period) := by
    have := Nat.mod_add_div tm.runTime tm.period
    unfold Timing.stopAt
    omega
  rw [hsplit, Nat.add_mul_div_left _ _ tm.period_pos, ← Nat.div_eq_zero_iff_lt tm.period_pos]
  generalize (tm.lead + tm.runTime % tm.period) / tm.period = k
  omega

/-! ## Every run -/

structure Inv (tm : Timing) (node : Node) : Prop where
  published : node.published = node.ticks
  due : node.ticks = 0 ∨ (node.ticks - 1) * tm.period ≤ tm.stopAt

theorem inv_step {tm : Timing} {node node' : Node} {e : Nat × LoopBranch} (h : step tm node e = some node')
    (hi : Inv tm node) : Inv tm node' := by
  obtain ⟨now, branch⟩ := e
  unfold step at h
  split at h
  · rename_i hguard
    cases branch with
    | scoreTick | swarmEvent => cases h; exact ⟨hi.published, hi.due⟩
    | publishTick =>
      simp only [branchAt] at h
      split at h
      · rename_i htick
        cases h
        refine ⟨congrArg (· + 1) hi.published, Or.inr ?_⟩
        have hnow : now ≤ tm.stopAt := hguard.2.resolve_right (by rw [htick.1]; nofun)
        exact Nat.le_trans htick.2 hnow
      · cases h
    | recv =>
      simp only [branchAt] at h
      split at h
      · cases h
      · split at h
        · cases h; exact ⟨hi.published, hi.due⟩
        · cases h
  · cases h

theorem inv_runLoop {tm : Timing} : ∀ {es : List (Nat × LoopBranch)} {node node' : Node},
    runLoop tm node es = some node' → Inv tm node → Inv tm node'
  | [], _, _, h, hi => by cases h; exact hi
  | e :: es, node, node', h, hi => by
    obtain ⟨node₁, h₁, h⟩ := Option.bind_eq_some_iff.mp h
    exact inv_runLoop h (inv_step h₁ hi)

theorem published_le {tm : Timing} {es : List (Nat × LoopBranch)} {node : Node}
    (h : runLoop tm (.init tm) es = some node) : node.published ≤ tm.stopAt / tm.period + 1 := by
  have hi := inv_runLoop h ⟨rfl, Or.inl rfl⟩
  rcases hi.due with h0 | hdue
  · rw [hi.published, h0]; exact Nat.zero_le _
  · have := (Nat.le_div_iff_mul_le tm.period_pos).mpr hdue
    rw [hi.published]
    omega

/-! ## A run that publishes every tick that is due -/

theorem runLoop_append (tm : Timing) (es fs : List (Nat × LoopBranch)) (node : Node) :
    runLoop tm node (es ++ fs) = (runLoop tm node es).bind fun node => runLoop tm node fs := by
  induction es generalizing node with
  | nil => rfl
  | cons e es ih =>
    simp only [List.cons_append, runLoop, Option.bind_assoc]
    exact Option.bind_congr fun node' _ => ih node'

theorem runLoop_ticks (tm : Timing) : ∀ (m : Nat) (node : Node), node.publishState = .started →
    node.now ≤ tm.stopAt → (node.ticks + m - 1) * tm.period ≤ tm.stopAt → ∃ node',
      runLoop tm node (List.replicate m (tm.stopAt, .publishTick)) = some node' ∧ node'.published = node.published + m
  | 0, node, _, _, _ => ⟨node, rfl, rfl⟩
  | m + 1, node, hs, hnow, hdue => by
    have hfirst : node.ticks * tm.period ≤ tm.stopAt :=
      Nat.le_trans (Nat.mul_le_mul_right _ (by omega)) hdue
    have hstep : step tm node (tm.stopAt, .publishTick) =
        some { node with now := tm.stopAt, ticks := node.ticks + 1, published := node.published + 1 } := by
      rw [step, if_pos ⟨hnow, Or.inl (Nat.le_refl _)⟩]
      exact if_pos ⟨hs, hfirst⟩
    obtain ⟨node', hrun, hp⟩ := runLoop_ticks tm m
      { node with now := tm.stopAt, ticks := node.ticks + 1, published := node.published + 1 } hs (Nat.le_refl _)
      (by simp only; rwa [show node.ticks + 1 + m - 1 = node.ticks + (m + 1) - 1 by omega])
    refine ⟨node', ?_, by rw [hp]; simp only; omega⟩
    rw [List.replicate_succ, runLoop, hstep]
    exact hrun

theorem Timing.lead_le_stopAt (tm : Timing) : tm.lead ≤ tm.stopAt := Nat.le_add_right _ _

theorem Timing.period_le_lead (tm : Timing) (h : 1 ≤ tm.params.warmup) : tm.period ≤ tm.lead := by
  obtain ⟨-, hi⟩ := publishInterval_ok_iff.mp tm.interval_ok
  have hle : tm.intervalMillis ≤ 1000 := hi ▸ Nat.div_le_self _ _
  have hperiod : tm.period ≤ 1000 * 1000000 := Nat.mul_le_mul_right _ hle
  unfold Timing.lead
  omega

theorem Timing.setup_le_lead (tm : Timing) : tm.setup ≤ tm.lead :=
  Nat.le_trans (Nat.le_add_right _ _) (Nat.le_add_right _ _)

theorem runLoop_start (tm : Timing) : runLoop tm (.init tm) [(tm.setup, .recv), (tm.lead, .recv)] =
    some ⟨tm.lead, .started, [(tm.stopAt, .stopPublishing)], 0, 0⟩ := by
  have hsetup := tm.setup_le_lead
  have hlead := tm.lead_le_stopAt
  have hstop := Nat.le_trans hsetup hlead
  simp only [runLoop, step, branchAt, Node.init, Timing.sends, handle, Nat.zero_le, Nat.le_refl, hsetup, hlead, hstop,
    true_and, true_or, if_true, Option.bind_some]

/-- Up to the stop only the messages are received; then all due ticks fire back to back. -/
theorem exists_burst (tm : Timing) : ∃ es node, runLoop tm (.init tm) es = some node ∧
    node.published = tm.stopAt / tm.period + 1 := by
  obtain ⟨node, hrun, hp⟩ := runLoop_ticks tm (tm.stopAt / tm.period + 1)
    ⟨tm.lead, .started, [(tm.stopAt, .stopPublishing)], 0, 0⟩ rfl tm.lead_le_stopAt (by
      simp only [Nat.zero_add, Nat.add_sub_cancel]
      exact Nat.div_mul_le_self _ _)
  refine ⟨[(tm.setup, .recv), (tm.lead, .recv)] ++ List.replicate (tm.stopAt / tm.period + 1) (tm.stopAt, .publishTick),
    node, ?_, ?_⟩
  · rw [runLoop_append, runLoop_start, Option.bind_some, hrun]
  · rw [hp, Nat.zero_add]

/-- **When a publisher keeps the announced figure.** In every run exactly when less than a period lies
between the creation of the interval and the start of publishing, less what `run` exceeds whole periods by. A warmup
of a second is too long for any rate. -/
theorem published_le_iff (tm : Timing) : totalExpectedMessages tm.params = .ok tm.totalExpectedMessages ∧
    ((∀ es node, runLoop tm (.init tm) es = some node → node.published ≤ tm.totalExpectedMessages + 1) ↔
      tm.lead + tm.runTime % tm.period < tm.period) ∧
    (1 ≤ tm.params.warmup → ¬ tm.lead + tm.runTime % tm.period < tm.period) := by
  refine ⟨totalExpectedMessages_ok tm, ?_, fun hwarmup => ?_⟩
  swap
  · have hle := tm.period_le_lead hwarmup
    omega
  rw [← tm.stopAt_div_le_iff, tm.totalExpectedMessages_eq]
  constructor
  · intro hall
    obtain ⟨es, node, hrun, hp⟩ := exists_burst tm
    have := hall es node hrun
    omega
  · intro hle es node hrun
    have := published_le hrun
    omega

/-- The defaults of the plan: 100 messages a second, a warmup of 5 s and a run of 120 s. -/
def Timing.defaults : Timing := ⟨⟨5, 100, 5, 120⟩, 10, rfl, 0, 0⟩

/-- With the defaults some run publishes 500 messages more than announced. -/
theorem burst_defaults : ¬ ∀ es node, runLoop .defaults (.init .defaults) es = some node →
    node.published ≤ Timing.defaults.totalExpectedMessages + 1 := by
  intro hall
  obtain ⟨es, node, hrun, hp⟩ := exists_burst .defaults
  have hle := hall es node hrun
  rw [hp] at hle
  exact absurd hle (by decide)

end GossipPlans.Censoring
