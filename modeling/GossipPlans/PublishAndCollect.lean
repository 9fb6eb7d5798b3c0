import GossipPlans.Basic
import GossipPlans.LogNet
import GossipPlans.SyncService
import Mathlib.Algebra.BigOperators.Fin
import Mathlib.Data.List.Perm.Basic

/-!
# publish_and_collect

The function as each of the four plans has it. A topic of the sync service is a log that every subscriber reads
from its start, so all instances that return have the same list, whatever the order of their steps was.
-/

namespace GossipPlans.PublishAndCollect

open LogNet
open CounterNet (Act)

/-- `serde_json::Value` -/
inductive Value where
  | string (text : String)
  | other (json : String)
deriving DecidableEq, Repr

/-- A state only counts its signals. -/
abbrev Entry : Key → Type
  | .state _ => Unit
  | .topic _ => Value

abbrev Process (α : Type) := Proc Key Entry α

section
variable {T α : Type}

/-- `serde_json` at one type. -/
structure Serde (T : Type) where
  toValue : T → Except String Value
  fromValue : Value → Except String T
  toText : T → Except String String
  fromText : String → Except String T

structure Serde.RoundTrips (serde : Serde T) : Prop where
  value (x : T) : ∃ v, serde.toValue x = .ok v ∧ serde.fromValue v = .ok x
  text (x : T) : ∃ text, serde.toText x = .ok text ∧ serde.fromText text = .ok x

/-- The operator `?`. -/
def propagate {β : Type} (r : Except String β) : Run β := r.mapError .err

/-- `.expect(msg)` -/
def expectOk {β : Type} (msg : String) (r : Except String β) : Run β := r.mapError fun _ => .panic (.expect msg)

theorem propagate_ok_iff {β : Type} {r : Except String β} {x : β} : propagate r = .ok x ↔ r = .ok x := by
  cases r with
  | error e => simp [propagate, Except.mapError]
  | ok y => simp [propagate, Except.mapError]

theorem expectOk_ok_iff {β : Type} {msg : String} {r : Except String β} {x : β} : expectOk msg r = .ok x ↔ r = .ok x := by
  cases r with
  | error e => simp [expectOk, Except.mapError]
  | ok y => simp [expectOk, Except.mapError]

/-- How a plan turns an info into an item of the topic and an item into an info. -/
structure Codec (T : Type) where
  encode : T → Run Value
  decode : Value → Run T

def valueCodec (serde : Serde T) : Codec T where
  encode info := propagate (serde.toValue info)
  decode other := propagate (serde.fromValue other)

def textCodec (serde : Serde T) : Codec T where
  encode info := (propagate (serde.toText info)).map .string
  decode
    | .string str => propagate (serde.fromText str)
    | .other _ => .error (.panic .unreachable)

/-- The body of the loop. -/
def Codec.push (c : Codec T) (vec : List T) (other : Value) : Run (List T) :=
  (c.decode other).map fun info => vec ++ [info]

def run (c : Codec T) (topic : String) (info : T) (count : Nat) (k : Run (List T) → Process α) : Process α :=
  match c.encode info with
  | .error e => k (.error e)
  | .ok serialized => .publish (.topic topic) serialized (.collect (.topic topic) c.push k count 0 [])

def ethConsensus (serde : Serde T) (topic : String) (info : T) (testInstanceCount : Nat)
    (k : Run (List T) → Process α) : Process α :=
  run (valueCodec serde) topic info testInstanceCount k

def scoring (serde : Serde T) (topic : String) (info : T) (count : Nat) (k : Run (List T) → Process α) : Process α :=
  run (valueCodec serde) topic info count k

def censoring (serde : Serde T) (info : T) (testInstanceCount : Nat) (k : Run (List T) → Process α) : Process α :=
  run (textCodec serde) "publish_and_collect" info testInstanceCount k

def smoke (serde : Serde T) (info : T) (testInstanceCount : Nat) (k : Run (List T) → Process α) : Process α :=
  run (textCodec serde) "publish_and_collect" info testInstanceCount k

/-- `client.signal_and_wait(state, target)` -/
def signalAndWait (state : String) (target : Nat) (rest : Process α) : Process α :=
  .publish (.state state) () (.await (.state state) target rest)

/-- The operator `?`, and a panic: the instance does nothing more. -/
def orCrash {R : Type} (crash : Fail → α) (k : R → Process α) : Run R → Process α
  | .error f => .act (crash f) .halt
  | .ok x => k x

theorem silent_orCrash {R : Type} {crash : Fail → α} {t : Key} {k : R → Process α} (h : ∀ x, (k x).Silent t) :
    ∀ r, (orCrash crash k r).Silent t
  | .error _ => trivial
  | .ok x => h x

theorem does_orCrash {R : Type} {crash : Fail → α} {P : α → Prop} {k : R → Process α} {r : Run R}
    (herror : ∀ f, r = .error f → P (crash f)) (hok : ∀ x, r = .ok x → (k x).Does P) : (orCrash crash k r).Does P := by
  cases r with
  | error f => exact ⟨herror f rfl, trivial⟩
  | ok x => exact hok x rfl

theorem does_signalAndWait {P : α → Prop} {state : String} {target : Nat} {rest : Process α} :
    (signalAndWait state target rest).Does P ↔ rest.Does P := Iff.rfl

theorem held_orCrash {R : Type} {crash : Fail → α} {logs : Logs Key Entry} {t : Key} {m n : Nat} {P : α → Prop}
    {k : R → Process α} {r : Run R} (hcrash : ∀ f, P (crash f)) (hok : ∀ x, r = .ok x → (k x).Held logs t m P n) :
    (orCrash crash k r).Held logs t m P n := by
  cases r with
  | error f => exact ⟨hcrash f, trivial⟩
  | ok x => exact hok x rfl

/-- Who waits for more entries than there will be is held there; at another barrier it goes on. -/
theorem held_signalAndWait {P : α → Prop} {logs : Logs Key Entry} {state state' : String} {target n : Nat}
    {rest : Process α} (heq : state = state' → 1 ≤ n) (hne : state ≠ state' → rest.Held logs (.state state') target P n) :
    (signalAndWait state target rest).Held logs (.state state') target P n := by
  rw [signalAndWait, Proc.Held]
  by_cases h : state = state'
  · subst h
    rw [if_pos rfl]
    exact ⟨heq rfl, Or.inl ⟨rfl, Nat.le_refl _⟩⟩
  · rw [if_neg fun hkey => h (Key.state.inj hkey)]
    exact Or.inr (hne h)

/-! ## One call -/

def Codec.RoundTrips (c : Codec T) : Prop := ∀ x, ∃ v, c.encode x = .ok v ∧ c.decode v = .ok x

theorem valueCodec_roundTrips {serde : Serde T} (h : serde.RoundTrips) : (valueCodec serde).RoundTrips := by
  intro x
  obtain ⟨v, hto, hfrom⟩ := h.value x
  exact ⟨v, by simp [valueCodec, propagate, hto, Except.mapError], by
    simp [valueCodec, propagate, hfrom, Except.mapError]⟩

theorem textCodec_roundTrips {serde : Serde T} (h : serde.RoundTrips) : (textCodec serde).RoundTrips := by
  intro x
  obtain ⟨text, hto, hfrom⟩ := h.text x
  exact ⟨.string text, by simp [textCodec, propagate, hto, Except.mapError, Except.map], by
    simp [textCodec, propagate, hfrom, Except.mapError]⟩

variable {c : Codec T} {topic : String} {count : Nat} {k : Run (List T) → Process α} {logs : Logs Key Entry}

/-- The items are those of the infos, in this order. -/
def Codec.Decodes (c : Codec T) (items : List Value) (infos : List T) : Prop :=
  List.Forall₂ (fun item info => c.decode item = .ok info) items infos

theorem Codec.Decodes.foldlM {β : Type} (f : β → T → β) {items : List Value} {infos : List T}
    (h : c.Decodes items infos) : ∀ b : β,
      items.foldlM (fun b item => (c.decode item).map (f b)) b = .ok (infos.foldl f b) := by
  induction h with
  | nil => exact fun _ => rfl
  | cons hitem _ ih =>
    intro b
    rw [List.foldlM_cons, hitem]
    exact ih _

theorem decodes_of_foldlM : ∀ {items : List Value} {vec infos : List T}, items.foldlM c.push vec = .ok infos →
    ∃ more, infos = vec ++ more ∧ c.Decodes items more
  | [], vec, _, h => by
    cases h
    exact ⟨[], (List.append_nil vec).symm, .nil⟩
  | item :: items, vec, infos, h => by
    rw [List.foldlM_cons] at h
    obtain ⟨vec', hpush, h⟩ := bind_ok_iff.mp h
    unfold Codec.push at hpush
    cases hitem : c.decode item with
    | error e =>
      rw [hitem] at hpush
      cases hpush
    | ok info =>
      rw [hitem] at hpush
      cases hpush
      obtain ⟨more, rfl, hmore⟩ := decodes_of_foldlM h
      exact ⟨info :: more, by simp, .cons hitem hmore⟩

/-- What a call returns when it returns a list: the infos of the first items of the topic. -/
def Codec.Returns (c : Codec T) (logs : Logs Key Entry) (topic : String) (info : T) (count : Nat) (infos : List T) : Prop :=
  (∃ serialized, c.encode info = .ok serialized) ∧
    ∃ items, items.length = count ∧ items <+: logs (.topic topic) ∧ c.Decodes items infos

theorem held_run {t : Key} {m n : Nat} {P : α → Prop} {info : T} (ht : t ≠ .topic topic)
    (h : ∀ r, (∀ infos, r = .ok infos → c.Returns logs topic info count infos) → (k r).Held logs t m P n) :
    (run c topic info count k).Held logs t m P n := by
  rw [run]
  cases hencode : c.encode info with
  | error e => exact h _ nofun
  | ok serialized =>
    rw [Proc.Held, if_neg (Ne.symm ht)]
    refine held_collect fun r hr => h r fun infos hinfos => ⟨⟨serialized, hencode⟩, ?_⟩
    obtain ⟨items, hlen, hpre, hfold⟩ := hr infos hinfos
    obtain ⟨more, hmore, hdecodes⟩ := decodes_of_foldlM hfold
    rw [List.nil_append] at hmore
    exact ⟨items, hlen, hpre, hmore ▸ hdecodes⟩

/-- A loop that reads all items of a topic folds their infos. -/
theorem resolve_fold {β : Type} (f : β → T → β) {infos : List T} (hlog : c.Decodes (logs (.topic topic)) infos)
    (hcount : infos.length = count) (k : Run β → Process α) (b : β) :
    (Proc.collect (.topic topic) (fun b item => (c.decode item).map (f b)) k count 0 b).resolve logs =
      (List.range count).map (.read (.topic topic)) ++ (k (.ok (infos.foldl f b))).resolve logs := by
  have hlen : (logs (.topic topic)).length = count := (List.Forall₂.length_eq hlog).trans hcount
  have hfold := hlog.foldlM f b
  rw [List.range_eq_range', resolve_collect (by simp) (Nat.le_of_eq hlen.symm)]
  rwa [← hlen, List.take_length]

theorem foldl_push (infos : List T) : infos.foldl (fun vec info => vec ++ [info]) [] = infos := by
  induction infos using List.reverseRecOn with
  | nil => rfl
  | append_singleton infos info ih => rw [List.foldl_append, ih]; rfl

theorem published_run {t : Key} {info : T} {serialized : Value} (hencode : c.encode info = .ok serialized)
    {items : List (Entry t)} (h : ∀ r, (published t ((k r).resolve logs)).Subperm items) :
    (published t ((run c topic info count k).resolve logs)).Subperm
      (Event.items t (.publish (.topic topic) serialized : Event Key Entry α) ++ items) := by
  rw [run, hencode]
  simp only [Proc.resolve, published_cons]
  exact (List.subperm_append_left _).mpr (published_collect h ..)

/-- A topic with one item for each instance holds the infos of all instances in some order. -/
theorem exists_infos {ι : Type} {info : ι → T} {serialized : ι → Value}
    (hdecode : ∀ i, c.decode (serialized i) = .ok (info i)) {l : List ι} {items : List Value}
    (hitems : items.Perm (l.map serialized)) : ∃ infos, infos.Perm (l.map info) ∧ c.Decodes items infos := by
  have hall : List.Forall₂ (fun item info => c.decode item = .ok info) (l.map serialized) (l.map info) := by
    rw [List.forall₂_map_left_iff, List.forall₂_map_right_iff]
    exact List.forall₂_same.mpr fun i _ => hdecode i
  obtain ⟨infos, hforall, hperm⟩ := List.perm_comp_forall₂ hitems hall
  exact ⟨infos, hperm, hforall⟩

/-! ## Straight lines -/

/-- The straight line of a process. -/
def line (logs : Logs Key Entry) (p : Process α) : List (Act Key α) := (p.resolve logs).map Event.toAct

/-- The loop over a subscription takes its items one by one. -/
def reads (topic : String) (count : Nat) : List (Act Key α) :=
  (List.range count).map fun k => .await (.topic topic) (k + 1)

theorem line_acts (l : List α) (rest : Process α) : line logs (.acts l rest) = CounterNet.acts l ++ line logs rest := by
  simp [line, CounterNet.acts, Event.toAct, Function.comp_def]

theorem line_halt : line logs (.halt : Process α) = [] := rfl

theorem line_signalAndWait (state : String) (target : Nat) (rest : Process α) :
    line logs (signalAndWait state target rest) = GossipPlans.signalAndWait state target ++ line logs rest := rfl

theorem line_publish (name : String) (x : Value) (rest : Process α) :
    line logs (.publish (.topic name) x rest) = .signal (.topic name) :: line logs rest := rfl

theorem line_fold {β : Type} (f : β → T → β) {xs : List T} (hlog : c.Decodes (logs (.topic topic)) xs)
    (hcount : xs.length = count) (k : Run β → Process α) (b : β) :
    line logs (.collect (.topic topic) (fun b item => (c.decode item).map (f b)) k count 0 b) =
      reads topic count ++ line logs (k (.ok (xs.foldl f b))) := by
  rw [line, resolve_fold f hlog hcount]
  simp [line, reads, Event.toAct]

theorem line_push {xs : List T} (hlog : c.Decodes (logs (.topic topic)) xs) (hcount : xs.length = count)
    (k : Run (List T) → Process α) : line logs (.collect (.topic topic) c.push k count 0 []) =
      reads topic count ++ line logs (k (.ok xs)) := by
  have h := line_fold (fun vec info => vec ++ [info]) hlog hcount k []
  rwa [foldl_push] at h

theorem line_run {info : T} {serialized : Value} (hencode : c.encode info = .ok serialized) {infos : List T}
    (hlog : c.Decodes (logs (.topic topic)) infos) (hcount : infos.length = count) :
    line logs (run c topic info count k) = .signal (.topic topic) :: (reads topic count ++ line logs (k (.ok infos))) := by
  rw [run, hencode]
  exact congrArg _ (line_push hlog hcount k)

@[simp] theorem act_not_mem_reads {x : α} {topic : String} {count : Nat} : .act x ∉ reads topic count := by
  simp [reads]

@[simp] theorem locals_reads (topic : String) (count : Nat) :
    CounterNet.locals (reads topic count : List (Act Key α)) = [] := by
  simp [CounterNet.locals, reads]

theorem sync_reads (topic : String) (count : Nat) : CounterNet.sync (reads topic count : List (Act Key α)) =
    reads topic count := by
  simp [CounterNet.sync, reads, Act.isSync]

theorem sync_call (topic : String) (p : List (Act Key α)) :
    CounterNet.sync (.signal (.topic topic) :: p) = .signal (.topic topic) :: CounterNet.sync p := rfl

theorem signals_reads (t : Key) (topic : String) (count : Nat) :
    CounterNet.signals t (reads topic count : List (Act Key α)) = 0 := by
  simp [CounterNet.signals, reads, Act.isSignal, List.countP_eq_zero]

/-- What sees of a collection round only that the last item is there. -/
theorem filterMap_reads {β : Type} {g : Act Key α → Option β} {topic : String} {count : Nat} {y : β} (hpos : 1 ≤ count)
    (hbefore : ∀ k, k ≠ count → g (.await (.topic topic) k) = none) (hlast : g (.await (.topic topic) count) = some y) :
    (reads topic count).filterMap g = [y] := by
  obtain ⟨n, rfl⟩ := Nat.exists_eq_add_of_le' hpos
  have hnone : ((List.range n).map fun k => (.await (.topic topic) (k + 1) : Act Key α)).filterMap g = [] := by
    rw [List.filterMap_eq_nil_iff]
    intro x hx
    obtain ⟨k, hk, rfl⟩ := List.mem_map.mp hx
    have hlt := List.mem_range.mp hk
    exact hbefore _ (by omega)
  rw [reads, List.range_succ, List.map_append, List.filterMap_append, hnone]
  simp [hlast]

theorem fed_call {n : Nat} (topic : String) :
    CounterNet.Fed n (fun _ => 0) (.signal (.topic topic) :: reads topic n : List (Act Key α)) := by
  refine ⟨trivial, CounterNet.fed_awaits fun x hx => ?_⟩
  obtain ⟨k, hk, rfl⟩ := List.mem_map.mp hx
  exact ⟨_, _, rfl, by simpa [CounterNet.bump] using Nat.succ_le_of_lt (List.mem_range.mp hk)⟩

theorem fed_signalAndWait {n : Nat} {count : Key → Nat} (state : String) :
    CounterNet.Fed n count (GossipPlans.signalAndWait state n : List (Act Key α)) := by
  refine ⟨trivial, ?_, trivial⟩
  simp only [CounterNet.Ready, CounterNet.bump, Function.update_self]
  exact Nat.le_mul_of_pos_right _ (Nat.succ_pos _)

theorem silent_signalAndWait {name state : String} {target : Nat} {rest : Process α} :
    (signalAndWait state target rest).Silent (.topic name) ↔ rest.Silent (.topic name) := by
  simp [signalAndWait, Proc.Silent]

/-! ## All instances -/

inductive Plan where
  | ethConsensus
  | scoring
  | censoring
  | smoke
deriving DecidableEq, Repr

/-- The copy of a plan. Two of them fix the topic. -/
def Plan.publishAndCollect (plan : Plan) (serde : Serde T) (topic : String) (info : T) (count : Nat)
    (k : Run (List T) → Process α) : Process α :=
  match plan with
  | .ethConsensus => PublishAndCollect.ethConsensus serde topic info count k
  | .scoring => PublishAndCollect.scoring serde topic info count k
  | .censoring => PublishAndCollect.censoring serde info count k
  | .smoke => PublishAndCollect.smoke serde info count k

theorem Plan.exists_codec (plan : Plan) {serde : Serde T} (h : serde.RoundTrips) (topic : String) :
    ∃ (c : Codec T) (topic' : String), c.RoundTrips ∧ ∀ (α : Type) info count (k : Run (List T) → Process α),
      plan.publishAndCollect serde topic info count k = run c topic' info count k := by
  cases plan with
  | ethConsensus | scoring => exact ⟨_, topic, valueCodec_roundTrips h, fun _ _ _ _ => rfl⟩
  | censoring | smoke => exact ⟨_, _, textCodec_roundTrips h, fun _ _ _ _ => rfl⟩

section
variable {ι : Type} [Fintype ι] [DecidableEq ι]

def instances (plan : Plan) (serde : Serde T) (topic : String) (info : ι → T) (i : ι) : Process (Run (List T)) :=
  plan.publishAndCollect serde topic (info i) (Fintype.card ι) fun r => .act r .halt

omit [DecidableEq ι] in
theorem sum_singletons {β : Type} (f : ι → β) :
    ∑ i, ([f i] : Multiset β) = ((Finset.univ.toList.map f : List β) : Multiset β) := by
  have hmap : ((Finset.univ.toList.map f : List β) : Multiset β) = Finset.univ.val.map f := by
    rw [← Multiset.map_coe, Finset.coe_toList]
  rw [hmap, ← Multiset.sum_map_singleton (Finset.univ.val.map f), Multiset.map_map]
  rfl

/-- What is on a topic to which each instance publishes one info, and what is still to come: the infos of all. -/
theorem exists_complete_infos {prog : ι → Process α} {info : ι → T} {serialized : ι → Value}
    (hdecode : ∀ i, c.decode (serialized i) = .ok (info i))
    (hpub : ∀ i logs, (published (.topic topic) ((prog i).resolve logs)).Subperm [serialized i])
    {st : State ι Key Entry α} (h : Reachable prog st) :
    ∃ logs infos, Extends st.logs logs ∧ infos.Perm (Finset.univ.toList.map info) ∧
      c.Decodes (logs (.topic topic)) infos := by
  let items : ι → (t : Key) → List (Entry t)
    | i, .topic name => if name = topic then [serialized i] else []
    | _, .state _ => []
  obtain ⟨logs, hext, hcomplete⟩ := h.exists_complete (· = Key.topic topic) items fun i t ht => by
    subst ht
    simpa [items] using hpub i st.logs
  have hitems : (logs (.topic topic)).Perm (Finset.univ.toList.map serialized) := by
    rw [← Multiset.coe_eq_coe, hcomplete _ rfl, ← sum_singletons]
    simp [items]
  obtain ⟨infos, hperm, hlog⟩ := exists_infos hdecode hitems
  exact ⟨logs, infos, hext, hperm, hlog⟩

omit [DecidableEq ι] in
theorem length_of_perm {info : ι → T} {infos : List T} (h : infos.Perm (Finset.univ.toList.map info)) :
    infos.length = Fintype.card ι := by
  rw [h.length_eq, List.length_map, Finset.length_toList, Finset.card_univ]

/-- A call after which nothing more is published to its topic. -/
theorem published_call {info : T} {serialized : Value} (hencode : c.encode info = .ok serialized)
    (hk : ∀ r, (k r).Silent (.topic topic)) :
    (published (.topic topic) ((run c topic info count k).resolve logs)).Subperm [serialized] := by
  have hnone : ∀ r, (published (.topic topic) ((k r).resolve logs)).Subperm [] := fun r => by
    rw [published_of_silent (hk r)]
  refine (published_run hencode hnone).trans ?_
  simp [Event.items]

/-- **All collect the same.** In every plan and every interleaving of its instances, whoever has returned has the
infos of all instances, each once, and all have them in one order; and nobody is stuck. -/
theorem all_collect_the_same (plan : Plan) {serde : Serde T} (hserde : serde.RoundTrips) (topic : String) (info : ι → T)
    (st : State ι Key Entry (Run (List T))) (h : Reachable (instances plan serde topic info) st) :
    ∃ infos : List T, infos.Perm (Finset.univ.toList.map info) ∧ (∀ i r, .act r ∈ st.trace i → r = .ok infos) ∧
      ∀ i, st.rest i ≠ .halt → ∃ j st', Step j st st' := by
  obtain ⟨c, topic', hc, hrun⟩ := plan.exists_codec hserde topic
  choose serialized hencode hdecode using hc
  let prog : ι → Process (Run (List T)) := fun i => run c topic' (info i) (Fintype.card ι) fun r => .act r .halt
  have h : Reachable prog st := (funext fun i => hrun .. : instances plan serde topic info = prog) ▸ h
  obtain ⟨logs, infos, hext, hperm, hlog⟩ := exists_complete_infos (fun i => hdecode (info i))
    (fun i _ => published_call (hencode (info i)) fun _ => by simp [Proc.Silent]) h
  have hstraight : ∀ i, straight prog logs i =
      .signal (.topic topic') :: (reads topic' (Fintype.card ι) ++ [.act (.ok infos)]) := fun i =>
    line_run (hencode (info i)) hlog (length_of_perm hperm)
  refine ⟨infos, hperm, fun i r hr => ?_, fun i hi => h.progress hext ?_ hi⟩
  · have hmem := (did_isPrefix (h.executed hext) i).subset (mem_did.mpr hr)
    rw [hstraight] at hmem
    simpa using hmem
  · apply CounterNet.deadlockFree_of_same _ (fed_call topic')
    intro i
    rw [hstraight]
    rw [sync_call, CounterNet.sync_append, sync_reads]
    exact congrArg _ (List.append_nil _)

end

end

/-- Text in quotes, as for an address. -/
def quoted : Serde String where
  toValue x := .ok (.string x)
  fromValue
    | .string x => .ok x
    | .other _ => .error "invalid type"
  toText x := .ok (String.ofList ('"' :: x.toList ++ ['"']))
  fromText text := .ok (String.ofList text.toList.tail.dropLast)

theorem quoted_roundTrips : quoted.RoundTrips where
  value x := ⟨.string x, rfl, rfl⟩
  text x := ⟨_, rfl, by simp [quoted]⟩

/-- The second of two instances has returned, the first is still reading. -/
theorem all_collect_the_same_two : ∃ st, Reachable (instances .smoke quoted "" (fun i : Fin 2 => s!"/ip4/16.0.0.{i}")) st ∧
    ∃ infos : List String, infos.length = 2 ∧ ∀ i r, .act r ∈ st.trace i → r = .ok infos := by
  have hok : ((execAll (.init (instances .smoke quoted "" fun i : Fin 2 => s!"/ip4/16.0.0.{i}")) [0, 1, 1, 0, 1, 1]).map
      fun st => (st.trace 1).length) = some 4 := by decide
  obtain ⟨st, hst, -⟩ := Option.map_eq_some_iff.mp hok
  have hreach := execAll_reachable .refl hst
  obtain ⟨infos, hperm, hreturned, -⟩ := all_collect_the_same .smoke quoted_roundTrips "" _ st hreach
  exact ⟨st, hreach, infos, by simpa using hperm.length_eq, hreturned⟩

end GossipPlans.PublishAndCollect
