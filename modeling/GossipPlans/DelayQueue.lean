import Mathlib.Data.List.Perm.Basic

/-!
# Queues of delayed items

An item is inserted with a delay and yielded once, when its delay has passed at the earliest. Which of the
items that are due comes first is left open.
-/

namespace DelayQueue

variable {α : Type}

structure Entry (α : Type) where
  value : α
  insertedAt : Nat
  delay : Nat
deriving DecidableEq, Repr

def Entry.due (e : Entry α) : Nat := e.insertedAt + e.delay

abbrev Queue (α : Type) := List (Entry α)

/-- The queue yields its `k`-th entry. -/
def expire (q : Queue α) (now k : Nat) : Option (Entry α × Queue α) :=
  match q[k]? with
  | none => none
  | some e => if e.due ≤ now then some (e, q.eraseIdx k) else none

theorem expire_eq_some {q q' : Queue α} {now k : Nat} {e : Entry α} (h : expire q now k = some (e, q')) :
    e.due ≤ now ∧ q.Perm (e :: q') := by
  unfold expire at h
  split at h
  · cases h
  · rename_i hk
    split at h
    · rename_i hdue
      cases h
      obtain ⟨hlt, rfl⟩ := List.getElem?_eq_some_iff.mp hk
      exact ⟨hdue, (List.getElem_cons_eraseIdx_perm hlt).symm⟩
    · cases h

/-- What was inserted is queued or was yielded, with the time, and nothing was yielded early. -/
structure Accounts (inserted : List (Entry α)) (yielded : List (Nat × Entry α)) (q : Queue α) : Prop where
  conserved : inserted.Perm (q ++ yielded.map Prod.snd)
  due : ∀ y ∈ yielded, y.2.due ≤ y.1

section
variable {inserted : List (Entry α)} {yielded : List (Nat × Entry α)} {q q' : Queue α}

theorem accounts_nil : Accounts ([] : List (Entry α)) [] [] := ⟨.refl _, by simp⟩

theorem Accounts.insert (h : Accounts inserted yielded q) (e : Entry α) : Accounts (inserted ++ [e]) yielded (q ++ [e]) := by
  refine ⟨(h.conserved.append_right [e]).trans ?_, h.due⟩
  rw [List.append_assoc, List.append_assoc]
  exact List.perm_append_comm.append_left q

theorem Accounts.expire (h : Accounts inserted yielded q) {now k : Nat} {e : Entry α}
    (hexpire : expire q now k = some (e, q')) : Accounts inserted (yielded ++ [(now, e)]) q' := by
  obtain ⟨hdue, hperm⟩ := expire_eq_some hexpire
  constructor
  case conserved =>
    refine h.conserved.trans ((hperm.append_right _).trans ?_)
    rw [List.map_append, List.map_singleton, ← List.append_assoc]
    exact (List.perm_append_singleton e _).symm
  case due =>
    intro y hy
    rcases List.mem_append.mp hy with hy | hy
    · exact h.due y hy
    · rw [List.mem_singleton.mp hy]
      exact hdue

end

end DelayQueue
