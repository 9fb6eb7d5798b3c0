import GossipPlans.CounterNet
import Mathlib.Algebra.Order.BigOperators.Group.Finset
import Mathlib.Algebra.Order.Group.Multiset
import Mathlib.Data.DFinsupp.WellFounded
import Mathlib.SetTheory.Cardinal.Order

/-!
# Processes that share append-only logs

A process appends items to logs, reads the entries of a log one by one, and goes on as these tell it. Once the
entries are fixed, each process is a straight-line program, and a run is a run of `CounterNet` in which the
counters are the lengths of the logs (`Reachable.counters`).
-/

namespace LogNet

open CounterNet (Act)

/-- `read t n` waits for the entry at position `n`. -/
inductive Proc (τ : Type) (ε : τ → Type) (α : Type) where
  | halt
  | act (a : α) (rest : Proc τ ε α)
  | publish (t : τ) (x : ε t) (rest : Proc τ ε α)
  | await (t : τ) (k : Nat) (rest : Proc τ ε α)
  | read (t : τ) (n : Nat) (rest : ε t → Proc τ ε α)

inductive Event (τ : Type) (ε : τ → Type) (α : Type) where
  | act (a : α)
  | publish (t : τ) (x : ε t)
  | await (t : τ) (k : Nat)
  | read (t : τ) (n : Nat)

abbrev Logs (τ : Type) (ε : τ → Type) := (t : τ) → List (ε t)

structure State (ι τ : Type) (ε : τ → Type) (α : Type) where
  rest : ι → Proc τ ε α
  trace : ι → List (Event τ ε α)
  logs : Logs τ ε

section
variable {ι τ α : Type} {ε : τ → Type}

def State.init (prog : ι → Proc τ ε α) : State ι τ ε α := ⟨prog, fun _ => [], fun _ => []⟩

/-- What a process does next, unless it waits. -/
def Proc.next (logs : Logs τ ε) : Proc τ ε α → Option (Event τ ε α × Proc τ ε α)
  | .halt => none
  | .act a rest => some (.act a, rest)
  | .publish t x rest => some (.publish t x, rest)
  | .await t k rest => if k ≤ (logs t).length then some (.await t k, rest) else none
  | .read t n rest => (logs t)[n]?.map fun x => (.read t n, rest x)

/-- The events of a process that reads from `logs`, up to an entry that is not there. -/
def Proc.resolve (logs : Logs τ ε) : Proc τ ε α → List (Event τ ε α)
  | .halt => []
  | .act a rest => .act a :: rest.resolve logs
  | .publish t x rest => .publish t x :: rest.resolve logs
  | .await t k rest => .await t k :: rest.resolve logs
  | .read t n rest => .read t n :: match (logs t)[n]? with
    | none => []
    | some x => (rest x).resolve logs

def Event.toAct : Event τ ε α → Act τ α
  | .act a => .act a
  | .publish t _ => .signal t
  | .await t k => .await t k
  | .read t n => .await t (n + 1)

/-- The straight-line programs that the processes are, given what they read. -/
def straight (prog : ι → Proc τ ε α) (logs : Logs τ ε) (i : ι) : List (Act τ α) :=
  ((prog i).resolve logs).map Event.toAct

def Extends (logs logs' : Logs τ ε) : Prop := ∀ t, logs t <+: logs' t

theorem Extends.refl (logs : Logs τ ε) : Extends logs logs := fun _ => List.prefix_refl _

theorem Extends.trans {l₁ l₂ l₃ : Logs τ ε} (h : Extends l₁ l₂) (h' : Extends l₂ l₃) : Extends l₁ l₃ := fun t =>
  (h t).trans (h' t)

theorem Extends.getElem? {logs logs' : Logs τ ε} (h : Extends logs logs') {t : τ} {n : Nat} {x : ε t}
    (hx : (logs t)[n]? = some x) : (logs' t)[n]? = some x := by
  obtain ⟨more, hmore⟩ := h t
  rw [← hmore, List.getElem?_append_left (List.getElem?_eq_some_iff.mp hx).1, hx]

theorem Proc.resolve_next {logs logs' : Logs τ ε} (h : Extends logs logs') {p p' : Proc τ ε α} {e : Event τ ε α}
    (hnext : p.next logs = some (e, p')) : p.resolve logs' = e :: p'.resolve logs' := by
  cases p with
  | halt => cases hnext
  | act a rest | publish t x rest =>
    cases hnext
    rfl
  | await t k rest =>
    simp only [next] at hnext
    split at hnext
    · cases hnext
      rfl
    · cases hnext
  | read t n rest =>
    obtain ⟨x, hx, he⟩ := Option.map_eq_some_iff.mp hnext
    cases he
    simp only [resolve, h.getElem? hx]

section
variable [DecidableEq ι] [DecidableEq τ]

def Logs.record (logs : Logs τ ε) : Event τ ε α → Logs τ ε
  | .publish t x => Function.update logs t (logs t ++ [x])
  | _ => logs

inductive Step (i : ι) (st : State ι τ ε α) : State ι τ ε α → Prop
  | next {e : Event τ ε α} {p : Proc τ ε α} : (st.rest i).next st.logs = some (e, p) →
      Step i st ⟨Function.update st.rest i p, Function.update st.trace i (st.trace i ++ [e]), st.logs.record e⟩

def Reachable (prog : ι → Proc τ ε α) (st : State ι τ ε α) : Prop :=
  Relation.ReflTransGen (fun st st' => ∃ i, Step i st st') (.init prog) st

variable {prog : ι → Proc τ ε α} {st st' : State ι τ ε α} {i : ι} {logs : Logs τ ε}

omit [DecidableEq ι] in
theorem extends_record (logs : Logs τ ε) (e : Event τ ε α) : Extends logs (logs.record e) := by
  intro t
  cases e with
  | act a | await t' k | read t' n => exact List.prefix_refl _
  | publish t' x =>
    by_cases h : t = t'
    · subst h
      simp [Logs.record]
    · simp [Logs.record, h]

theorem Step.extends (h : Step i st st') : Extends st.logs st'.logs := by
  obtain ⟨-⟩ := h
  exact extends_record st.logs _

/-! ## A run is a run of the counters -/

/-- Whatever the logs become, what a process has done and what is left of it make up its events. -/
theorem Reachable.resolve_eq (h : Reachable prog st) : ∀ {logs : Logs τ ε}, Extends st.logs logs → ∀ i,
    (prog i).resolve logs = st.trace i ++ (st.rest i).resolve logs := by
  induction h with
  | refl => intro logs _ i; rfl
  | tail _ hstep ih =>
    obtain ⟨j, hstep⟩ := hstep
    intro logs hext i
    have hext' := hstep.extends.trans hext
    obtain ⟨hnext⟩ := hstep
    by_cases hij : i = j
    · subst hij
      simp only [Function.update_self, List.append_assoc, List.singleton_append, ← Proc.resolve_next hext' hnext]
      exact ih hext' i
    · simp only [Function.update_of_ne hij]
      exact ih hext' i

omit [DecidableEq τ] in
theorem Proc.ready_of_next {p p' : Proc τ ε α} {e : Event τ ε α} (h : p.next logs = some (e, p')) :
    CounterNet.Ready (fun t => (logs t).length) e.toAct := by
  cases p with
  | halt => cases h
  | act a rest | publish t x rest =>
    cases h
    exact trivial
  | await t k rest =>
    simp only [next] at h
    split at h
    · cases h
      assumption
    · cases h
  | read t n rest =>
    obtain ⟨x, hx, he⟩ := Option.map_eq_some_iff.mp h
    cases he
    exact (List.getElem?_eq_some_iff.mp hx).1

omit [DecidableEq ι] in
theorem length_record (logs : Logs τ ε) (e : Event τ ε α) :
    (fun t => (logs.record e t).length) = CounterNet.bump (fun t => (logs t).length) e.toAct := by
  funext t
  cases e with
  | act a | await t' k | read t' n => rfl
  | publish t' x =>
    by_cases h : t = t'
    · subst h
      simp [Logs.record, Event.toAct, CounterNet.bump]
    · simp [Logs.record, Event.toAct, CounterNet.bump, h]

/-- What the counters see of a state. -/
def State.counters (st : State ι τ ε α) : CounterNet.State ι τ :=
  ⟨fun i => (st.trace i).length, fun t => (st.logs t).length⟩

omit [DecidableEq ι] [DecidableEq τ] in
theorem getElem?_straight (heq : (prog i).resolve logs = st.trace i ++ (st.rest i).resolve logs) :
    (straight prog logs i)[st.counters.pc i]? = ((st.rest i).resolve logs).head?.map Event.toAct := by
  simp only [straight, State.counters, heq, List.map_append]
  rw [List.getElem?_append_right (by simp)]
  simp [List.head?_eq_getElem?]

/-- **Refinement.** A run on logs is a run of the straight-line programs that any later logs make of the processes. -/
theorem Reachable.counters (h : Reachable prog st) : ∀ {logs : Logs τ ε}, Extends st.logs logs →
    CounterNet.Reachable (straight prog logs) st.counters := by
  induction h with
  | refl => exact fun _ => .refl
  | @tail st₁ st₂ hreach hstep ih =>
    obtain ⟨j, hstep⟩ := hstep
    intro logs hext
    have hext' := hstep.extends.trans hext
    obtain @⟨e, p, hnext⟩ := hstep
    refine .tail (ih hext') ⟨j, ?_, trivial⟩
    have hx : (straight prog logs j)[st₁.counters.pc j]? = some e.toAct := by
      rw [getElem?_straight (Reachable.resolve_eq hreach hext' j), Proc.resolve_next hext' hnext]
      rfl
    have hstate : State.counters ⟨Function.update st₁.rest j p, Function.update st₁.trace j (st₁.trace j ++ [e]),
        st₁.logs.record e⟩ = ⟨Function.update st₁.counters.pc j (st₁.counters.pc j + 1),
          CounterNet.bump st₁.counters.count e.toAct⟩ := by
      simp only [State.counters, length_record, CounterNet.State.mk.injEq, and_true]
      funext i
      by_cases hij : i = j
      · subst hij
        simp
      · simp [hij]
    rw [hstate]
    exact .next hx (Proc.ready_of_next hnext)

theorem Reachable.executed (h : Reachable prog st) (hext : Extends st.logs logs) (i : ι) :
    CounterNet.executed (straight prog logs) st.counters i = (st.trace i).map Event.toAct := by
  simp only [CounterNet.executed, straight, State.counters, h.resolve_eq hext, List.map_append]
  rw [List.take_left' (by simp)]

/-! ## What the logs hold -/

def Event.items (t : τ) : Event τ ε α → List (ε t)
  | .publish t' x => if h : t' = t then [h ▸ x] else []
  | _ => []

def published (t : τ) (events : List (Event τ ε α)) : List (ε t) := events.flatMap (Event.items t)

omit [DecidableEq ι] in
theorem record_eq (logs : Logs τ ε) (e : Event τ ε α) (t : τ) : logs.record e t = logs t ++ e.items t := by
  cases e with
  | act a | await t' k | read t' n => simp [Logs.record, Event.items]
  | publish t' x =>
    by_cases h : t' = t
    · subst h
      simp [Logs.record, Event.items]
    · simp [Logs.record, Event.items, h, Ne.symm h]

@[simp] theorem published_append (t : τ) (events events' : List (Event τ ε α)) :
    published t (events ++ events') = published t events ++ published t events' :=
  List.flatMap_append

@[simp] theorem published_cons (t : τ) (e : Event τ ε α) (events : List (Event τ ε α)) :
    published t (e :: events) = e.items t ++ published t events := rfl

@[simp] theorem published_nil (t : τ) : published t ([] : List (Event τ ε α)) = [] := rfl

section
variable [Fintype ι]

/-- **Nothing is lost or added.** A log holds what all processes have published to it. -/
theorem Reachable.contents (h : Reachable prog st) (t : τ) :
    (st.logs t : Multiset (ε t)) = ∑ i, (published t (st.trace i) : Multiset (ε t)) := by
  induction h with
  | refl => simp [State.init]
  | @tail st₁ st₂ _ hstep ih =>
    obtain ⟨j, hstep⟩ := hstep
    obtain @⟨e, p, -⟩ := hstep
    have hrest : ∑ i ∈ Finset.univ.erase j, (published t (Function.update st₁.trace j (st₁.trace j ++ [e]) i) :
        Multiset (ε t)) = ∑ i ∈ Finset.univ.erase j, (published t (st₁.trace i) : Multiset (ε t)) :=
      Finset.sum_congr rfl fun i hi => by rw [Function.update_of_ne (Finset.ne_of_mem_erase hi)]
    simp only
    rw [record_eq, ← Multiset.coe_add, ih, ← Finset.add_sum_erase _ _ (Finset.mem_univ j),
      ← Finset.add_sum_erase _ (fun i => (published t (Function.update st₁.trace j (st₁.trace j ++ [e]) i) :
        Multiset (ε t))) (Finset.mem_univ j), hrest]
    simp only [Function.update_self, published_append, published_cons, published_nil, List.append_nil,
      ← Multiset.coe_add]
    exact add_right_comm ..

/-- Logs that go on from those of a state, and of which some hold all that the processes may publish to them. -/
theorem Reachable.exists_complete (h : Reachable prog st) (P : τ → Prop) (items : ι → (t : τ) → List (ε t))
    (hitems : ∀ i t, P t → (published t ((prog i).resolve st.logs)).Subperm (items i t)) :
    ∃ logs, Extends st.logs logs ∧ ∀ t, P t → (logs t : Multiset (ε t)) = ∑ i, (items i t : Multiset (ε t)) := by
  have hle : ∀ t, ∃ more : List (ε t), P t → ((st.logs t ++ more : List (ε t)) : Multiset (ε t)) = ∑ i, (items i t : Multiset (ε t)) := by
    intro t
    by_cases ht : P t
    · have hsum : (st.logs t : Multiset (ε t)) ≤ ∑ i, (items i t : Multiset (ε t)) := by
        rw [h.contents t]
        apply Finset.sum_le_sum
        intro i _
        have hresolve := hitems i t ht
        rw [h.resolve_eq (.refl _), published_append] at hresolve
        exact Multiset.coe_le.mpr ((List.sublist_append_left _ _).subperm.trans hresolve)
      obtain ⟨more, hmore⟩ := Multiset.le_iff_exists_add.mp hsum
      refine ⟨more.toList, fun _ => ?_⟩
      rw [hmore, ← Multiset.coe_add, Multiset.coe_toList]
    · exact ⟨[], fun h => absurd h ht⟩
  choose more hmore using hle
  exact ⟨fun t => st.logs t ++ more t, fun t => List.prefix_append .., hmore⟩

/-! ## Progress -/

omit [Fintype ι] in
theorem Reachable.step_of_counters (h : Reachable prog st) (hext : Extends st.logs logs) {c : CounterNet.State ι τ}
    (hstep : CounterNet.Step (straight prog logs) i st.counters c) : ∃ st', Step i st st' := by
  obtain ⟨hx, hready⟩ := hstep
  rw [getElem?_straight (h.resolve_eq hext i)] at hx
  suffices hnext : ∃ e p, (st.rest i).next st.logs = some (e, p) by
    obtain ⟨e, p, hnext⟩ := hnext
    exact ⟨_, .next hnext⟩
  generalize st.rest i = p at hx
  cases p with
  | halt => cases hx
  | act a rest | publish t x rest => exact ⟨_, _, rfl⟩
  | await t k rest =>
    simp only [Proc.resolve, List.head?_cons, Option.map_some, Event.toAct, Option.some.injEq] at hx
    subst hx
    exact ⟨_, _, if_pos hready⟩
  | read t n rest =>
    simp only [Proc.resolve, List.head?_cons, Option.map_some, Event.toAct, Option.some.injEq] at hx
    subst hx
    exact ⟨_, _, Option.map_eq_some_iff.mpr ⟨_, List.getElem?_eq_getElem hready, rfl⟩⟩

omit [Fintype ι] [DecidableEq ι] [DecidableEq τ] in
theorem Proc.resolve_ne_nil {p : Proc τ ε α} (h : p ≠ .halt) : p.resolve logs ≠ [] := by
  cases p with
  | halt => exact absurd rfl h
  | act | publish | await | read => simp [Proc.resolve]

omit [Fintype ι] in
/-- **No deadlock.** It is enough that the straight-line programs have none, for some logs that may come. -/
theorem Reachable.progress (h : Reachable prog st) (hext : Extends st.logs logs)
    (hfree : CounterNet.DeadlockFree (straight prog logs)) (hi : st.rest i ≠ .halt) : ∃ j st', Step j st st' := by
  have hlen : st.counters.pc i < (straight prog logs i).length := by
    simp only [straight, State.counters, h.resolve_eq hext i, List.length_map, List.length_append]
    exact Nat.lt_add_of_pos_right (List.length_pos_of_ne_nil (Proc.resolve_ne_nil hi))
  obtain ⟨j, c, hstep⟩ := hfree _ i (h.counters hext) hlen
  exact ⟨j, h.step_of_counters hext hstep⟩

/-! ## Runs end -/

omit [Fintype ι] [DecidableEq ι] [DecidableEq τ] in
/-- What is left of a process after one step. -/
def Proc.Left (p' p : Proc τ ε α) : Prop := ∃ logs e, p.next logs = some (e, p')

omit [Fintype ι] [DecidableEq ι] [DecidableEq τ] in
theorem Proc.acc_left (p : Proc τ ε α) : Acc Proc.Left p := by
  induction p with
  | halt =>
    constructor
    rintro p' ⟨logs, e, h⟩
    cases h
  | act a rest ih | publish t x rest ih =>
    constructor
    rintro p' ⟨logs, e, h⟩
    cases h
    exact ih
  | await t k rest ih =>
    constructor
    rintro p' ⟨logs, e, h⟩
    simp only [next] at h
    split at h
    · cases h
      exact ih
    · cases h
  | read t n rest ih =>
    constructor
    rintro p' ⟨logs, e, h⟩
    obtain ⟨x, -, he⟩ := Option.map_eq_some_iff.mp h
    cases he
    exact ih x

omit [Fintype ι] in
theorem Step.left (h : Step i st st') :
    Proc.Left (st'.rest i) (st.rest i) ∧ ∀ j, j ≠ i → st'.rest j = st.rest j := by
  obtain ⟨hnext⟩ := h
  simp only [Function.update_self]
  exact ⟨⟨_, _, hnext⟩, fun j hj => Function.update_of_ne hj ..⟩

/-- **Runs end**: a step leaves less of one process, and the others alone. -/
theorem no_infinite_run {f : Nat → State ι τ ε α} (hf : ∀ k, ∃ i, Step i (f k) (f (k + 1))) : False := by
  have hwf : WellFounded (Pi.Lex (WellOrderingRel (α := ι)) fun {_} => Proc.Left (τ := τ) (ε := ε) (α := α)) :=
    Pi.Lex.wellFounded _ fun _ => ⟨Proc.acc_left⟩
  refine (wellFounded_iff_isEmpty_descending_chain.mp hwf).false ⟨fun k => (f k).rest, fun k => ?_⟩
  obtain ⟨i, hstep⟩ := hf k
  refine ⟨i, fun j hj => hstep.left.2 j ?_, hstep.left.1⟩
  rintro rfl
  exact irrefl _ hj

/-- Some run cannot go on. -/
theorem exists_stuck (prog : ι → Proc τ ε α) : ∃ st, Reachable prog st ∧ ∀ i st', ¬ Step i st st' := by
  by_contra hgo
  push Not at hgo
  choose mover next hnext using hgo
  let f : Nat → { st // Reachable prog st } := Nat.rec ⟨.init prog, .refl⟩ fun _ st =>
    ⟨next st.1 st.2, st.2.tail ⟨_, hnext st.1 st.2⟩⟩
  exact no_infinite_run (f := fun k => (f k).1) fun k => ⟨_, hnext (f k).1 (f k).2⟩

/-! ## What becomes of the processes -/

/-- Whatever is reached, some logs that may come make such straight-line programs of the processes. -/
def Becomes (prog : ι → Proc τ ε α) (P : (ι → List (Act τ α)) → Prop) : Prop :=
  ∀ st, Reachable prog st → ∃ logs, Extends st.logs logs ∧ P (straight prog logs)

variable {P : (ι → List (Act τ α)) → Prop}

omit [Fintype ι] in
/-- What has happened is a run of such programs, and it is all of it where nothing more can happen. -/
theorem Becomes.run (hprog : Becomes prog P) (h : Reachable prog st) :
    ∃ p, P p ∧ ∃ c : CounterNet.State ι τ, CounterNet.Reachable p c ∧
      (∀ i, CounterNet.executed p c i = (st.trace i).map Event.toAct) ∧
      (CounterNet.DeadlockFree p → (∀ i st', ¬ Step i st st') → ∀ i, (st.trace i).map Event.toAct = p i) := by
  obtain ⟨logs, hext, hp⟩ := hprog st h
  refine ⟨_, hp, st.counters, h.counters hext, h.executed hext, fun hfree hstuck i => ?_⟩
  have hhalt : st.rest i = .halt := by
    by_contra hne
    obtain ⟨j, st', hstep⟩ := h.progress hext hfree hne
    exact hstuck j st' hstep
  rw [straight, h.resolve_eq hext, hhalt]
  simp [Proc.resolve]

end

end

/-! ## What a process has done -/

section
variable {st : State ι τ ε α} {i : ι}

/-- The local actions of a process so far. -/
def State.did (st : State ι τ ε α) (i : ι) : List α := CounterNet.locals ((st.trace i).map Event.toAct)

theorem act_mem_map {x : α} {events : List (Event τ ε α)} : .act x ∈ events.map Event.toAct ↔ .act x ∈ events := by
  constructor
  · intro h
    obtain ⟨e, he, heq⟩ := List.mem_map.mp h
    cases e with
    | act a =>
      cases heq
      exact he
    | publish t x | await t k | read t n => cases heq
  · exact List.mem_map_of_mem

@[simp] theorem mem_did {x : α} : x ∈ st.did i ↔ .act x ∈ st.trace i :=
  CounterNet.mem_locals.trans act_mem_map

theorem did_isPrefix {p : ι → List (Act τ α)} {c : CounterNet.State ι τ}
    (hexec : ∀ i, CounterNet.executed p c i = (st.trace i).map Event.toAct) (i : ι) :
    st.did i <+: CounterNet.locals (p i) := by
  rw [State.did, ← hexec]
  exact (List.take_prefix _ _).filterMap _

theorem act_mem_of_trace {p : ι → List (Act τ α)} {c : CounterNet.State ι τ}
    (hexec : ∀ i, CounterNet.executed p c i = (st.trace i).map Event.toAct) {x : α} (hx : .act x ∈ st.trace i) :
    .act x ∈ p i :=
  CounterNet.mem_locals.mp ((did_isPrefix hexec i).subset (mem_did.mpr hx))

end

/-! ## Executing a schedule -/

section
variable [DecidableEq ι] [DecidableEq τ]

def exec (st : State ι τ ε α) (i : ι) : Option (State ι τ ε α) :=
  ((st.rest i).next st.logs).map fun r =>
    ⟨Function.update st.rest i r.2, Function.update st.trace i (st.trace i ++ [r.1]), st.logs.record r.1⟩

def execAll : State ι τ ε α → List ι → Option (State ι τ ε α)
  | st, [] => some st
  | st, i :: is => (exec st i).bind fun st' => execAll st' is

theorem execAll_reachable {prog : ι → Proc τ ε α} : ∀ {is : List ι} {st st' : State ι τ ε α}, Reachable prog st →
    execAll st is = some st' → Reachable prog st'
  | [], _, _, hst, h => by
    cases h
    exact hst
  | i :: is, st, st', hst, h => by
    obtain ⟨st₁, h₁, h⟩ := Option.bind_eq_some_iff.mp h
    obtain ⟨⟨e, p⟩, hnext, rfl⟩ := Option.map_eq_some_iff.mp h₁
    exact execAll_reachable (.tail hst ⟨i, .next hnext⟩) h

end

/-! ## Processes that leave a log alone -/

section
variable {t : τ}

/-- Publishes nothing to `t`, whatever it reads. -/
def Proc.Silent (t : τ) : Proc τ ε α → Prop
  | .halt => True
  | .act _ rest => rest.Silent t
  | .publish t' _ rest => t' ≠ t ∧ rest.Silent t
  | .await _ _ rest => rest.Silent t
  | .read _ _ rest => ∀ x, (rest x).Silent t

theorem published_of_silent [DecidableEq τ] {logs : Logs τ ε} : ∀ {p : Proc τ ε α}, p.Silent t →
    published t (p.resolve logs) = []
  | .halt, _ => rfl
  | .act _ rest, h | .await _ _ rest, h => published_of_silent (p := rest) h
  | .publish t' x rest, h => by
    obtain ⟨hne, h⟩ := h
    simp [Proc.resolve, Event.items, hne, published_of_silent h]
  | .read t' n rest, h => by
    simp only [Proc.resolve, published_cons, Event.items, List.nil_append]
    cases (logs t')[n]? with
    | none => rfl
    | some x => exact published_of_silent (h x)

theorem signal_not_mem_of_silent (logs : Logs τ ε) : ∀ {p : Proc τ ε α}, p.Silent t →
    .signal t ∉ (p.resolve logs).map Event.toAct
  | .halt, _ => by simp [Proc.resolve]
  | .act _ rest, h | .await _ _ rest, h => by
    have ih := signal_not_mem_of_silent logs (p := rest) h
    simpa [Proc.resolve, Event.toAct] using ih
  | .publish t' x rest, h => by
    have ih := signal_not_mem_of_silent logs h.2
    simpa [Proc.resolve, Event.toAct, h.1.symm] using ih
  | .read t' n rest, h => by
    cases hlog : (logs t')[n]? with
    | none => simp [Proc.resolve, Event.toAct, hlog]
    | some x =>
      have ih := signal_not_mem_of_silent logs (h x)
      simpa [Proc.resolve, Event.toAct, hlog] using ih

end

/-! ## Processes that do only certain actions -/

section
variable {P : α → Prop}

/-- Every local action satisfies `P`, whatever is read. -/
def Proc.Does (P : α → Prop) : Proc τ ε α → Prop
  | .halt => True
  | .act a rest => P a ∧ rest.Does P
  | .publish _ _ rest => rest.Does P
  | .await _ _ rest => rest.Does P
  | .read _ _ rest => ∀ x, (rest x).Does P

theorem Proc.Does.of_mem {logs : Logs τ ε} {x : α} : ∀ {p : Proc τ ε α}, p.Does P → .act x ∈ p.resolve logs → P x
  | .halt, _, hx => by cases hx
  | .act a rest, h, hx => by
    rcases List.mem_cons.mp hx with heq | hx
    · cases heq
      exact h.1
    · exact of_mem h.2 hx
  | .publish t y rest, h, hx => of_mem (p := rest) h ((List.mem_cons.mp hx).resolve_left nofun)
  | .await t k rest, h, hx => of_mem (p := rest) h ((List.mem_cons.mp hx).resolve_left nofun)
  | .read t n rest, h, hx => by
    simp only [resolve, List.mem_cons, reduceCtorEq, false_or] at hx
    cases hlog : (logs t)[n]? with
    | none =>
      rw [hlog] at hx
      cases hx
    | some y =>
      rw [hlog] at hx
      exact of_mem (h y) hx

end

/-! ## Barriers that not all reach -/

section
variable [DecidableEq τ] {t : τ} {k : Nat} {logs later : Logs τ ε}

/-- Until it waits for `k` entries of `t`, the process does nothing but `P` and publishes at most `n` of them, when what it
reads is in `logs`. -/
def Proc.Held (logs : Logs τ ε) (t : τ) (k : Nat) (P : α → Prop) : Nat → Proc τ ε α → Prop
  | _, .halt => True
  | n, .act a rest => P a ∧ rest.Held logs t k P n
  | n, .publish t' _ rest => if t' = t then 1 ≤ n ∧ rest.Held logs t k P (n - 1) else rest.Held logs t k P n
  | n, .await t' k' rest => (t' = t ∧ k ≤ k') ∨ rest.Held logs t k P n
  | n, .read t' m rest => ∀ x, (logs t')[m]? = some x → (rest x).Held logs t k P n

/-- A step of such a process is an action `P`, or it takes one of the entries that are left. -/
theorem Proc.Held.next {P : α → Prop} {n : Nat} {p p' : Proc τ ε α} {e : Event τ ε α} (h : p.Held later t k P n)
    (hext : Extends logs later) (hshort : (logs t).length < k) (hnext : p.next logs = some (e, p')) :
    (∀ x, e = .act x → P x) ∧ ∃ n', p'.Held later t k P n' ∧ (logs.record e t).length + n' ≤ (logs t).length + n := by
  cases p with
  | halt => cases hnext
  | act a rest =>
    cases hnext
    obtain ⟨ha, hrest⟩ := h
    exact ⟨fun x hx => Event.act.inj hx ▸ ha, n, hrest, Nat.le_refl _⟩
  | publish t' x rest =>
    cases hnext
    refine ⟨nofun, ?_⟩
    unfold Held at h
    split at h
    · rename_i ht
      subst ht
      obtain ⟨hn, hrest⟩ := h
      refine ⟨n - 1, hrest, ?_⟩
      simp only [Logs.record, Function.update_self, List.length_append, List.length_singleton]
      omega
    · rename_i ht
      refine ⟨n, h, ?_⟩
      simp only [Logs.record, Function.update_of_ne (Ne.symm ht)]
      exact Nat.le_refl _
  | await t' k' rest =>
    simp only [Proc.next] at hnext
    split at hnext
    · rename_i hk'
      cases hnext
      rcases h with ⟨rfl, hk⟩ | hrest
      · omega
      · exact ⟨nofun, n, hrest, Nat.le_refl _⟩
    · cases hnext
  | read t' m rest =>
    obtain ⟨x, hx, heq⟩ := Option.map_eq_some_iff.mp hnext
    cases heq
    exact ⟨nofun, n, h x (hext.getElem? hx), Nat.le_refl _⟩

/-- **A barrier that not all reach.** When the processes together publish fewer entries than they wait for, none of them
gets any further. -/
theorem Reachable.held [DecidableEq ι] [Fintype ι] {prog : ι → Proc τ ε α} {st : State ι τ ε α} {P : ι → α → Prop}
    {n : ι → Nat} (h : Reachable prog st) (hprog : ∀ i, (prog i).Held st.logs t k (P i) (n i)) (hn : ∑ i, n i < k) :
    ∀ i x, .act x ∈ st.trace i → P i x := by
  -- the entries that are left and those that are there are no more than `n` allows
  suffices hinv : ∀ later, Extends st.logs later → (∀ i, (prog i).Held later t k (P i) (n i)) →
      (∃ left : ι → Nat, (∀ i, (st.rest i).Held later t k (P i) (left i)) ∧
        (st.logs t).length + ∑ i, left i ≤ ∑ i, n i) ∧ ∀ i x, .act x ∈ st.trace i → P i x from
    (hinv st.logs (.refl _) hprog).2
  clear hprog
  induction h with
  | refl => exact fun _ _ hprog => ⟨⟨n, hprog, by simp [State.init]⟩, fun i x hx => absurd hx List.not_mem_nil⟩
  | @tail st₁ st₂ _ hstep ih =>
    obtain ⟨j, hstep⟩ := hstep
    intro later hext hprog
    have hbefore := hstep.extends.trans hext
    obtain ⟨⟨left, hleft, hle⟩, hacts⟩ := ih later hbefore hprog
    obtain @⟨e, p, hnext⟩ := hstep
    obtain ⟨hact, n', hp, hlen⟩ := (hleft j).next hbefore (by omega) hnext
    refine ⟨⟨Function.update left j n', fun i => ?_, ?_⟩, fun i x hx => ?_⟩
    · by_cases hij : i = j
      · subst hij
        simpa using hp
      · simpa [hij] using hleft i
    · have hsum := Finset.sum_update_of_mem (Finset.mem_univ j) left n'
      have hsplit := Finset.add_sum_erase Finset.univ left (Finset.mem_univ j)
      rw [← Finset.sdiff_singleton_eq_erase] at hsplit
      show (st₁.logs.record e t).length + ∑ i, Function.update left j n' i ≤ _
      omega
    · simp only at hx
      by_cases hij : i = j
      · subst hij
        rw [Function.update_self, List.mem_append, List.mem_singleton] at hx
        rcases hx with hx | hx
        · exact hacts i x hx
        · exact hact x hx.symm
      · rw [Function.update_of_ne hij] at hx
        exact hacts i x hx

end

/-! ## Blocks of local actions -/

section

def Proc.acts (l : List α) (rest : Proc τ ε α) : Proc τ ε α := l.foldr .act rest

variable {logs : Logs τ ε}

@[simp] theorem resolve_acts (rest : Proc τ ε α) : ∀ l : List α,
    (Proc.acts l rest).resolve logs = l.map .act ++ rest.resolve logs
  | [] => rfl
  | a :: l => congrArg (Event.act a :: ·) (resolve_acts rest l)

@[simp] theorem silent_acts {t : τ} {rest : Proc τ ε α} : ∀ {l : List α}, (Proc.acts l rest).Silent t ↔ rest.Silent t
  | [] => Iff.rfl
  | _ :: l => silent_acts (l := l)

@[simp] theorem does_acts {P : α → Prop} {rest : Proc τ ε α} : ∀ {l : List α},
    (Proc.acts l rest).Does P ↔ (∀ x ∈ l, P x) ∧ rest.Does P
  | [] => by simp [Proc.acts]
  | a :: l => by
    have hcons : (Proc.acts (a :: l) rest).Does P ↔ P a ∧ (Proc.acts l rest).Does P := Iff.rfl
    rw [hcons, does_acts, List.forall_mem_cons, and_assoc]

@[simp] theorem held_acts [DecidableEq τ] {t : τ} {k n : Nat} {P : α → Prop} {rest : Proc τ ε α} : ∀ {l : List α},
    (Proc.acts l rest).Held logs t k P n ↔ (∀ x ∈ l, P x) ∧ rest.Held logs t k P n
  | [] => by simp [Proc.acts]
  | a :: l => by
    have hcons : (Proc.acts (a :: l) rest).Held logs t k P n ↔ P a ∧ (Proc.acts l rest).Held logs t k P n := Iff.rfl
    rw [hcons, held_acts, List.forall_mem_cons, and_assoc]

@[simp] theorem published_acts [DecidableEq τ] (t : τ) : ∀ l : List α, published t (l.map (.act : α → Event τ ε α)) = []
  | [] => rfl
  | _ :: l => published_acts t l

end

/-! ## Reading a number of entries -/

section
variable {β φ : Type}

/-- Reads `m` entries from position `n` on and folds them; the first error ends the loop. -/
def Proc.collect (t : τ) (f : β → ε t → Except φ β) (k : Except φ β → Proc τ ε α) : Nat → Nat → β → Proc τ ε α
  | 0, _, b => k (.ok b)
  | m + 1, n, b => .read t n fun x =>
    match f b x with
    | .ok b => collect t f k m (n + 1) b
    | .error e => k (.error e)

variable {logs : Logs τ ε} {t : τ} {f : β → ε t → Except φ β} {k : Except φ β → Proc τ ε α}

theorem resolve_collect {b' : β} : ∀ {m n : Nat} {b : β} {xs : List (ε t)}, (logs t).drop n = xs →
    m ≤ xs.length → (xs.take m).foldlM f b = .ok b' →
    (Proc.collect t f k m n b).resolve logs = (List.range' n m).map (.read t) ++ (k (.ok b')).resolve logs
  | 0, n, b, xs, _, _, hf => by
    cases hf
    rfl
  | m + 1, n, b, [], _, hlen, _ => by simp at hlen
  | m + 1, n, b, x :: xs, hdrop, hlen, hf => by
    have hx : (logs t)[n]? = some x := by
      rw [← List.head?_drop, hdrop]
      rfl
    have hrest : (logs t).drop (n + 1) = xs := by
      rw [← List.tail_drop, hdrop]
      rfl
    rw [List.take_succ_cons, List.foldlM_cons] at hf
    cases hb : f b x with
    | error e =>
      rw [hb] at hf
      cases hf
    | ok b₁ =>
      rw [hb] at hf
      simp only [Proc.collect, Proc.resolve, hx, hb, List.range'_succ, List.map_cons, List.cons_append]
      rw [resolve_collect hrest (by simpa using hlen) hf]

theorem silent_collect {t' : τ} (h : ∀ r, (k r).Silent t') : ∀ (m n : Nat) (b : β), (Proc.collect t f k m n b).Silent t'
  | 0, _, b => h (.ok b)
  | m + 1, n, b => by
    intro x
    dsimp only
    split
    · exact silent_collect h m (n + 1) _
    · exact h (.error _)

/-- The loop goes on with an error, or with the entries that are there. -/
theorem held_collect [DecidableEq τ] {t' : τ} {k' n' : Nat} {P : α → Prop} : ∀ {m n : Nat} {b : β},
    (∀ r, (∀ b', r = .ok b' → ∃ xs : List (ε t), xs.length = m ∧ xs <+: (logs t).drop n ∧ xs.foldlM f b = .ok b') →
      (k r).Held logs t' k' P n') → (Proc.collect t f k m n b).Held logs t' k' P n'
  | 0, n, b, h => h (.ok b) fun b' hb' => ⟨[], rfl, List.nil_prefix, hb'⟩
  | m + 1, n, b, h => by
    intro x hx
    dsimp only
    split
    · rename_i b₁ hb₁
      refine held_collect fun r hr => h r fun b' hb' => ?_
      obtain ⟨xs, hlen, hpre, hfold⟩ := hr b' hb'
      have hdrop : (logs t).drop n = x :: (logs t).drop (n + 1) := by
        obtain ⟨hlt, rfl⟩ := List.getElem?_eq_some_iff.mp hx
        exact List.drop_eq_getElem_cons hlt
      refine ⟨x :: xs, congrArg (· + 1) hlen, ?_, ?_⟩
      · rw [hdrop, List.cons_prefix_cons]
        exact ⟨rfl, hpre⟩
      · rw [List.foldlM_cons, hb₁]
        exact hfold
    · exact h (.error _) nofun

/-- The loop publishes nothing of its own. -/
theorem published_collect [DecidableEq τ] {t' : τ} {items : List (ε t')}
    (h : ∀ r, (published t' ((k r).resolve logs)).Subperm items) :
    ∀ (m n : Nat) (b : β), (published t' ((Proc.collect t f k m n b).resolve logs)).Subperm items
  | 0, _, b => h (.ok b)
  | m + 1, n, b => by
    simp only [Proc.collect, Proc.resolve, published_cons, Event.items, List.nil_append]
    cases (logs t)[n]? with
    | none => exact List.nil_subperm
    | some x =>
      simp only
      cases f b x with
      | error e => exact h (.error e)
      | ok b => exact published_collect h m (n + 1) b

end

end

end LogNet
