import Mathlib.Data.List.Basic

/-!
# The first error

A computation that makes fallible steps in a row and stops at the first that fails. Whether it succeeds and what
it fails with is read off the list of its checks.
-/

namespace FirstError

variable {ε α β : Type}

def verdict : List (Except ε Unit) → Except ε Unit
  | [] => .ok ()
  | .ok _ :: checks => verdict checks
  | .error e :: _ => .error e

/-- `r` fails with the first error of `checks`, and succeeds if there is none. -/
def Reports (r : Except ε α) (checks : List (Except ε Unit)) : Prop := r.map (fun _ => ()) = verdict checks

theorem verdict_append : ∀ checks checks' : List (Except ε Unit),
    verdict (checks ++ checks') = verdict checks >>= fun _ => verdict checks'
  | [], _ => rfl
  | .ok _ :: checks, checks' => verdict_append checks checks'
  | .error _ :: _, _ => rfl

theorem verdict_ok_iff : ∀ {checks : List (Except ε Unit)}, verdict checks = .ok () ↔ ∀ c ∈ checks, c = .ok ()
  | [] => by simp [verdict]
  | .ok _ :: checks => by
    have ih : verdict checks = .ok () ↔ ∀ c ∈ checks, c = .ok () := verdict_ok_iff
    simpa [verdict] using ih
  | .error e :: checks => by simp [verdict]

theorem verdict_error_iff {e : ε} : ∀ {checks : List (Except ε Unit)}, verdict checks = .error e ↔
    ∃ pre post, checks = pre ++ .error e :: post ∧ ∀ c ∈ pre, c = .ok ()
  | [] => by simp [verdict]
  | .ok () :: checks => by
    rw [verdict, verdict_error_iff]
    constructor
    · intro h
      obtain ⟨pre, post, rfl, hpre⟩ := h
      exact ⟨.ok () :: pre, post, rfl, by simpa using hpre⟩
    · intro h
      obtain ⟨pre, post, heq, hpre⟩ := h
      cases pre with
      | nil => cases heq
      | cons c pre =>
        obtain ⟨-, heq⟩ := List.cons.inj heq
        exact ⟨pre, post, heq, fun c hc => hpre c (List.mem_cons_of_mem _ hc)⟩
  | .error e' :: checks => by
    constructor
    · intro h
      cases h
      exact ⟨[], checks, rfl, by simp⟩
    · intro h
      obtain ⟨pre, post, heq, hpre⟩ := h
      cases pre with
      | nil =>
        cases heq
        rfl
      | cons c pre =>
        have hc := hpre c (List.mem_cons_self ..)
        rw [← (List.cons.inj heq).1] at hc
        cases hc

theorem reports_ok (a : α) : Reports (.ok a : Except ε α) [] := rfl

theorem reports_self (r : Except ε α) : Reports r [r.map fun _ => ()] := by
  cases r <;> rfl

theorem Reports.bind {x : Except ε α} {f : α → Except ε β} {checks checks' : List (Except ε Unit)}
    (hx : Reports x checks) (hf : ∀ a, x = .ok a → Reports (f a) checks') :
    Reports (x >>= f) (checks ++ checks') := by
  unfold Reports at *
  rw [verdict_append, ← hx]
  cases x with
  | error e => rfl
  | ok a => exact hf a rfl

theorem Reports.ok_iff {r : Except ε α} {checks : List (Except ε Unit)} (h : Reports r checks) :
    (∃ a, r = .ok a) ↔ ∀ c ∈ checks, c = .ok () := by
  rw [← verdict_ok_iff, ← h]
  cases r <;> simp [Except.map]

theorem Reports.error_iff {r : Except ε α} {checks : List (Except ε Unit)} (h : Reports r checks) {e : ε} :
    r = .error e ↔ ∃ pre post, checks = pre ++ .error e :: post ∧ ∀ c ∈ pre, c = .ok () := by
  rw [← verdict_error_iff, ← h]
  cases r <;> simp [Except.map]

/-! ## Checks of items -/

/-- `check` accepts the items that are valid, and fails with `fail` for the others. -/
structure Decides (check : β → Except ε Unit) (valid : β → Prop) (fail : β → ε) : Prop where
  ok {c : β} : valid c → check c = .ok ()
  error {c : β} : ¬ valid c → check c = .error (fail c)

namespace Decides

variable {check : β → Except ε Unit} {valid : β → Prop} {fail : β → ε} (h : Decides check valid fail)
include h

theorem ok_iff {c : β} : check c = .ok () ↔ valid c := by
  constructor
  · intro hok
    by_contra hvalid
    rw [h.error hvalid] at hok
    cases hok
  · exact h.ok

theorem error_iff {c : β} {e : ε} : check c = .error e ↔ ¬ valid c ∧ e = fail c := by
  constructor
  · intro herr
    have hvalid : ¬ valid c := fun hvalid => by
      rw [h.ok hvalid] at herr
      cases herr
    rw [h.error hvalid] at herr
    exact ⟨hvalid, (Except.error.inj herr).symm⟩
  · rintro ⟨hvalid, rfl⟩
    exact h.error hvalid

variable {r : Except ε α} {cs : List β} (hr : Reports r (cs.map check))
include hr

theorem reports_ok_iff : (∃ a, r = .ok a) ↔ ∀ c ∈ cs, valid c := by
  rw [Reports.ok_iff hr, List.forall_mem_map]
  exact forall₂_congr fun c _ => h.ok_iff

/-- The first item that is not valid is the one that is reported. -/
theorem reports_error_iff {e : ε} : r = .error e ↔
    ∃ pre c post, cs = pre ++ c :: post ∧ (∀ c ∈ pre, valid c) ∧ ¬ valid c ∧ e = fail c := by
  rw [Reports.error_iff hr]
  constructor
  · intro herr
    obtain ⟨pre, post, heq, hpre⟩ := herr
    obtain ⟨cpre, rest, rfl, rfl, hrest⟩ := List.map_eq_append_iff.mp heq
    obtain ⟨c, cpost, rfl, hc, -⟩ := List.map_eq_cons_iff.mp hrest
    exact ⟨cpre, c, cpost, rfl, fun c hc => h.ok_iff.mp (hpre _ (List.mem_map_of_mem hc)), h.error_iff.mp hc⟩
  · rintro ⟨pre, c, post, rfl, hpre, hc⟩
    refine ⟨pre.map check, post.map check, ?_, ?_⟩
    · rw [List.map_append, List.map_cons, h.error_iff.mpr hc]
    · rw [List.forall_mem_map]
      exact fun c hc => h.ok (hpre c hc)

end Decides

end FirstError
