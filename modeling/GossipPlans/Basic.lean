import Mathlib.Algebra.Order.Ring.Nat
import Mathlib.Data.List.Sort

/-!
# Fallible calls, `usize` arithmetic and integer parsing

A call of the plans returns a value, returns an error, or panics. Arithmetic on
`usize` depends on the build profile: the simulations are built with `--release`,
where an overflow wraps, and the tools run with `cargo run`, where it panics.
-/

namespace GossipPlans

inductive Panic where
  | addOverflow
  | subOverflow
  | mulOverflow
  | sliceIndex
  | unwrapNone
  | unwrapErr
  | emptyRange
  | unreachable
  | assertFailed
  | divideByZero
  | capacityOverflow
  | invalidDeadline
  | expect (msg : String)
  | notParticipant (nodeId peerNodeId : Nat)
  | dialFailed (nodeId peerNodeId : Nat)
deriving DecidableEq, Repr

inductive Fail where
  | err (msg : String)
  | panic (p : Panic)
deriving DecidableEq, Repr

abbrev Run (α : Type) := Except Fail α

instance {α : Type} [DecidableEq α] : DecidableEq (Run α)
  | .ok a, .ok b => if h : a = b then isTrue (h ▸ rfl) else isFalse fun e => h (Except.ok.inj e)
  | .error a, .error b => if h : a = b then isTrue (h ▸ rfl) else isFalse fun e => h (Except.error.inj e)
  | .ok _, .error _ => isFalse nofun
  | .error _, .ok _ => isFalse nofun

theorem bind_ok_iff {ε α β : Type} {x : Except ε α} {f : α → Except ε β} {b : β} :
    (x >>= f) = .ok b ↔ ∃ a, x = .ok a ∧ f a = .ok b := by
  cases x <;> simp [bind, Except.bind]

theorem map_ok_iff {ε α β : Type} {x : Except ε α} {f : α → β} {b : β} : x.map f = .ok b ↔ ∃ a, x = .ok a ∧ f a = b := by
  cases x <;> simp [Except.map]

theorem mapM_ok {α β : Type} {f : α → Run β} {g : α → β} : ∀ {l : List α}, (∀ a ∈ l, f a = .ok (g a)) →
    l.mapM f = .ok (l.map g)
  | [], _ => rfl
  | a :: l, h => by
    rw [List.mapM_cons, h a (List.mem_cons_self ..), mapM_ok fun x hx => h x (List.mem_cons_of_mem _ hx)]
    rfl

section
variable {α β γ : Type}

theorem mapM_congr {f g : α → Run β} : ∀ {l : List α}, (∀ a ∈ l, f a = g a) → l.mapM f = l.mapM g
  | [], _ => rfl
  | a :: l, h => by
    rw [List.mapM_cons, List.mapM_cons, h a (List.mem_cons_self ..), mapM_congr fun x hx => h x (List.mem_cons_of_mem _ hx)]

theorem mapM_flatMap {g : α → List β} {f : β → Run γ} : ∀ l : List α,
    (l.flatMap g).mapM f = do
      let qs ← l.mapM fun a => (g a).mapM f
      .ok qs.flatten
  | [] => rfl
  | a :: l => by
    rw [List.flatMap_cons, List.mapM_append, mapM_flatMap l, List.mapM_cons]
    cases (g a).mapM f with
    | error e => rfl
    | ok bs =>
      cases l.mapM fun a => (g a).mapM f with
      | error e => rfl
      | ok bss => rfl

/-- Lists that are mapped one by one, and all together. -/
theorem map_mapM_flatten {f : α → Run β} : ∀ {ls : List (List α)} {bs : List β},
    (∃ bss : List (List β), ls.map (List.mapM f) = bss.map .ok ∧ bss.flatten = bs) ↔ ls.flatten.mapM f = .ok bs
  | [], bs => by
    constructor
    · intro h
      obtain ⟨bss, hnil, rfl⟩ := h
      rw [List.map_eq_nil_iff.mp hnil.symm]
      rfl
    · intro h
      cases h
      exact ⟨[], rfl, rfl⟩
  | l :: ls, bs => by
    rw [List.flatten_cons, List.mapM_append, bind_ok_iff]
    constructor
    · intro h
      obtain ⟨bss, hmap, rfl⟩ := h
      cases bss with
      | nil => cases hmap
      | cons b bss =>
        obtain ⟨hl, hls⟩ := List.cons.inj hmap
        exact ⟨b, hl, bind_ok_iff.mpr ⟨_, map_mapM_flatten.mp ⟨bss, hls, rfl⟩, rfl⟩⟩
    · intro h
      obtain ⟨b, hl, h⟩ := h
      obtain ⟨rest, hrest, h⟩ := bind_ok_iff.mp h
      cases h
      obtain ⟨bss, hls, rfl⟩ := map_mapM_flatten.mpr hrest
      exact ⟨b :: bss, by rw [List.map_cons, List.map_cons, hl, hls], rfl⟩

theorem mem_of_mapM {f : α → Run β} : ∀ {l : List α} {bs : List β}, l.mapM f = .ok bs →
    ∀ b, b ∈ bs ↔ ∃ a ∈ l, f a = .ok b
  | [], bs, h, b => by cases h; simp
  | a :: l, bs, h, b => by
    rw [List.mapM_cons] at h
    obtain ⟨b₀, hb₀, h⟩ := bind_ok_iff.mp h
    obtain ⟨rest, hrest, h⟩ := bind_ok_iff.mp h
    cases h
    have ih := mem_of_mapM hrest b
    simp [hb₀, ih, eq_comm]

end

/-- The call returns or reports an error. -/
def Completes {α : Type} (r : Run α) : Prop := ∀ p, r ≠ .error (.panic p)

theorem completes_ok {α : Type} (a : α) : Completes (.ok a : Run α) := nofun

theorem completes_bind_iff {α β : Type} {x : Run α} {f : α → Run β} :
    Completes (x >>= f) ↔ Completes x ∧ ∀ a, x = .ok a → Completes (f a) := by
  cases x with
  | error e =>
    constructor
    · intro h
      refine ⟨fun p hp => h p ?_, nofun⟩
      cases hp
      rfl
    · intro h p hp
      cases hp
      exact h.1 p rfl
  | ok a => exact ⟨fun h => ⟨completes_ok a, fun _ ha => Except.ok.inj ha ▸ h⟩, fun h => h.2 a rfl⟩

theorem completes_map {α β : Type} {x : Run α} {f : α → β} (h : Completes x) : Completes (x.map f) := by
  cases x with
  | error e =>
    intro p hp
    cases hp
    exact h p rfl
  | ok a => exact completes_ok (f a)

theorem completes_forM {α : Type} {f : α → Run Unit} : ∀ {l : List α}, (∀ a ∈ l, Completes (f a)) →
    Completes (l.forM f)
  | [], _ => completes_ok ()
  | a :: l, h => by
    apply completes_bind_iff.mpr
    exact ⟨h a (List.mem_cons_self ..), fun _ _ => completes_forM fun x hx => h x (List.mem_cons_of_mem _ hx)⟩

/-! ## `usize` arithmetic -/

inductive Build where
  | debug
  | release
deriving DecidableEq, Repr

def usizeSize : Nat := 2 ^ 64

def overflow (b : Build) (p : Panic) (wrapped : Nat) : Run Nat :=
  match b with
  | .debug => .error (.panic p)
  | .release => .ok (wrapped % usizeSize)

def usizeAdd (b : Build) (x y : Nat) : Run Nat :=
  if x + y < usizeSize then .ok (x + y) else overflow b .addOverflow (x + y)

def usizeMul (b : Build) (x y : Nat) : Run Nat :=
  if x * y < usizeSize then .ok (x * y) else overflow b .mulOverflow (x * y)

def usizeSub (b : Build) (x y : Nat) : Run Nat :=
  if y ≤ x then .ok (x - y) else overflow b .subOverflow (x + usizeSize - y)

theorem usizeAdd_ok {b : Build} {x y : Nat} (h : x + y < usizeSize) : usizeAdd b x y = .ok (x + y) :=
  if_pos h

theorem usizeSub_ok {b : Build} {x y : Nat} (h : y ≤ x) : usizeSub b x y = .ok (x - y) :=
  if_pos h

def isizeMax : Nat := 2 ^ 63 - 1

/-- `Vec::with_capacity(length)` for items of `size` bytes. That much memory is there. -/
def withCapacity (size length : Nat) : Run Unit :=
  if length * size ≤ isizeMax then .ok () else .error (.panic .capacityOverflow)

def sliceTo {α : Type} (xs : List α) (stop : Nat) : Run (List α) :=
  if stop ≤ xs.length then .ok (xs.take stop) else .error (.panic .sliceIndex)

theorem completes_sliceTo_iff {α : Type} {xs : List α} {stop : Nat} :
    Completes (sliceTo xs stop) ↔ stop ≤ xs.length := by
  unfold sliceTo
  split
  · rename_i h
    exact iff_of_true (completes_ok _) h
  · rename_i h
    exact iff_of_false (fun hc => hc _ rfl) h

/-! ## `str::parse` for the 64-bit unsigned types -/

inductive IntError where
  | empty
  | invalidDigit
  | posOverflow
deriving DecidableEq, Repr

def IntError.message : IntError → String
  | .empty => "cannot parse integer from empty string"
  | .invalidDigit => "invalid digit found in string"
  | .posOverflow => "number too large to fit in target type"

def digit (c : Char) : Option Nat :=
  if '0' ≤ c ∧ c ≤ '9' then some (c.toNat - '0'.toNat) else none

/-- The digits left to right: an invalid digit is reported before an overflow it would cause. -/
def parseDigits : Nat → List Char → Except IntError Nat
  | acc, [] => .ok acc
  | acc, c :: cs =>
    match digit c with
    | none => .error .invalidDigit
    | some d => if acc * 10 + d < usizeSize then parseDigits (acc * 10 + d) cs else .error .posOverflow

def parseUint (s : String) : Except IntError Nat :=
  match s.toList with
  | [] => .error .empty
  | ['+'] => .error .invalidDigit
  | '+' :: cs => parseDigits 0 cs
  | cs => parseDigits 0 cs

theorem digit_digitChar : ∀ d < 10, digit d.digitChar = some d := by decide

theorem parseDigits_snoc {cs : List Char} {acc n d : Nat} (h : parseDigits acc cs = .ok n) (hd : d < 10)
    (hlt : n * 10 + d < usizeSize) : parseDigits acc (cs ++ [d.digitChar]) = .ok (n * 10 + d) := by
  induction cs generalizing acc with
  | nil =>
    cases h
    simp only [List.nil_append, parseDigits, digit_digitChar d hd, if_pos hlt]
  | cons c cs ih =>
    simp only [parseDigits] at h
    simp only [List.cons_append, parseDigits]
    cases hc : digit c with
    | none =>
      rw [hc] at h
      cases h
    | some d' =>
      rw [hc] at h
      simp only at h ⊢
      split at h
      · rename_i hok
        rw [if_pos hok]
        exact ih h
      · cases h

theorem parseDigits_toDigits (n : Nat) (hn : n < usizeSize) : parseDigits 0 (Nat.toDigits 10 n) = .ok n := by
  induction n using Nat.strongRecOn with
  | ind n ih =>
    by_cases hlt : n < 10
    · rw [Nat.toDigits_of_lt_base hlt]
      have hnil : parseDigits 0 [] = .ok 0 := rfl
      have := parseDigits_snoc hnil hlt (by omega)
      rwa [Nat.zero_mul, Nat.zero_add] at this
    · have hdiv : n / 10 * 10 + n % 10 = n := Nat.div_add_mod' n 10
      rw [Nat.toDigits_of_base_le (by decide) (Nat.le_of_not_lt hlt),
        parseDigits_snoc (ih (n / 10) (by omega) (by omega)) (Nat.mod_lt n (by decide)) (by rwa [hdiv]), hdiv]

/-- What `format!` writes of a number, `parse` reads back. -/
theorem parseUint_repr {n : Nat} (hn : n < usizeSize) : parseUint n.repr = .ok n := by
  have hdigits := parseDigits_toDigits n hn
  have hplus : '+' ∉ Nat.toDigits 10 n := by
    intro hm
    exact absurd (Nat.isDigit_of_mem_toDigits (by decide) (by decide) hm) (by decide)
  rw [parseUint, Nat.toList_repr]
  cases hcs : Nat.toDigits 10 n with
  | nil => exact absurd hcs Nat.toDigits_ne_nil
  | cons c cs =>
    rw [hcs] at hdigits hplus
    have hc : c ≠ '+' := fun h => hplus (h ▸ List.mem_cons_self ..)
    split
    · rename_i heq
      cases heq
    · rename_i heq
      exact absurd (List.cons.inj heq).1 hc
    · rename_i heq
      exact absurd (List.cons.inj heq).1 hc
    · exact hdigits

/-! ## `test_instance_params` -/

abbrev InstanceParams := List (String × String)

/-- `instance_params.get(key).ok_or(missing)?` -/
def required (ps : InstanceParams) (key missing : String) : Run String :=
  match ps.lookup key with
  | some v => .ok v
  | none => .error (.err missing)

/-- `v.parse()?`, with the error's text passed through `wrap`. -/
def parseField (v : String) (wrap : String → String) : Run Nat :=
  match parseUint v with
  | .ok n => .ok n
  | .error e => .error (.err (wrap e.message))

example : parseUint "+042" = .ok 42 := by decide
example : parseUint "18446744073709551616x" = .error .posOverflow := by decide

end GossipPlans
