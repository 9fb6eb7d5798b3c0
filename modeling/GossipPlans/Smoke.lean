import GossipPlans.Basic
import Mathlib.Combinatorics.SimpleGraph.Metric
import Mathlib.Data.List.Nodup

/-!
# smoke: who dials whom

All instances shuffle their lists of the others with one seed, so all pop the same position. A list without
its owner is shifted by one behind it: the instances up to that position dial one instance, the ones behind
it another, and those two are joined. A multiaddr is given by its text.
-/

namespace GossipPlans.Smoke

/-- `shuffle` with a seeded generator: positions that depend on the seed and the length only. -/
structure Shuffle where
  positions : Nat → Nat → List Nat
  perm : ∀ seed len, (positions seed len).Perm (List.range len)

def Shuffle.shuffle (s : Shuffle) (seed : Nat) (others : List String) : List String :=
  (s.positions seed others.length).filterMap fun position => others[position]?

/-- The peer that an instance connects to: `others.pop().unwrap()` after the shuffle. -/
def peerAddr (s : Shuffle) (testInstanceCount : Nat) (participants : List String) (multiaddr : String) : Run String :=
  match (s.shuffle testInstanceCount (participants.filter (· != multiaddr))).getLast? with
  | some peer => .ok peer
  | none => .error (.panic .unwrapNone)

def Dials (s : Shuffle) (participants : List String) (i j : Fin participants.length) : Prop :=
  peerAddr s participants.length participants participants[i] = .ok participants[j]

def dialGraph (s : Shuffle) (participants : List String) : SimpleGraph (Fin participants.length) :=
  SimpleGraph.fromRel (Dials s participants)

/-! ## The position that is popped -/

theorem exists_popped (s : Shuffle) (seed : Nat) {len : Nat} (h : 0 < len) : ∃ p < len,
    ∀ others : List String, others.length = len → (s.shuffle seed others).getLast? = others[p]? := by
  have hlength : (s.positions seed len).length = len := by rw [(s.perm seed len).length_eq, List.length_range]
  have hne : s.positions seed len ≠ [] := List.ne_nil_of_length_pos (by omega)
  obtain ⟨rest, p, hsplit⟩ := (List.eq_nil_or_concat _).resolve_left hne
  rw [List.concat_eq_append] at hsplit
  have hmem : p ∈ s.positions seed len := by simp [hsplit]
  have hlt : p < len := List.mem_range.mp ((s.perm seed len).mem_iff.mp hmem)
  refine ⟨p, hlt, fun others ho => ?_⟩
  rw [Shuffle.shuffle, ho, hsplit, List.filterMap_append, List.getLast?_append]
  simp [List.getElem?_eq_getElem (ho ▸ hlt)]

theorem filter_ne_getElem {participants : List String} (hn : participants.Nodup) {i : Nat} (hi : i < participants.length) :
    participants.filter (· != participants[i]) = participants.eraseIdx i := by
  rw [← hn.erase_eq_filter, hn.erase_getElem]

/-- Behind its own place a list without its owner is shifted by one. -/
theorem exists_dialed (s : Shuffle) {participants : List String} (h2 : 2 ≤ participants.length)
    (hn : participants.Nodup) : ∃ p, ∃ hp : p + 1 < participants.length, ∀ i : Fin participants.length,
      Dials s participants i (if p < i then ⟨p, by omega⟩ else ⟨p + 1, hp⟩) := by
  obtain ⟨p, hp, hpop⟩ := exists_popped s participants.length (show 0 < participants.length - 1 by omega)
  refine ⟨p, by omega, fun i => ?_⟩
  have hlen : (participants.eraseIdx i).length = participants.length - 1 := List.length_eraseIdx_of_lt i.isLt
  have hlt : p < (participants.eraseIdx i).length := hlen ▸ hp
  unfold Dials peerAddr
  rw [Fin.getElem_fin, filter_ne_getElem hn i.isLt, hpop _ hlen, List.getElem?_eq_getElem hlt, List.getElem_eraseIdx]
  by_cases hpi : p < i
  · simp [hpi]
  · simp [hpi]

/-! ## Two hubs -/

section
variable {s : Shuffle} {participants : List String} {p : Nat}

/-- The instance that everybody behind position `p` dials, and the one that the others dial. -/
def hub (hp : p + 1 < participants.length) (i : Fin participants.length) : Fin participants.length :=
  if p < i then ⟨p, by omega⟩ else ⟨p + 1, hp⟩

theorem adj_hub (hp : p + 1 < participants.length) (hd : ∀ i, Dials s participants i (hub hp i))
    (i : Fin participants.length) : (dialGraph s participants).Adj i (hub hp i) := by
  refine (SimpleGraph.fromRel_adj ..).mpr ⟨fun e => ?_, Or.inl (hd i)⟩
  have hval := congrArg Fin.val e
  unfold hub at hval
  split at hval
  · simp only at hval; omega
  · simp only at hval; omega

/-- From `i` to its hub, to the hub of `j` if that is the other one, to `j`. -/
theorem exists_walk (hp : p + 1 < participants.length) (hd : ∀ i, Dials s participants i (hub hp i))
    (i j : Fin participants.length) : ∃ walk : (dialGraph s participants).Walk i j, walk.length ≤ 3 := by
  have hi := adj_hub hp hd i
  have hj := (adj_hub hp hd j).symm
  by_cases hsame : hub hp i = hub hp j
  · exact ⟨.cons hi (.cons (hsame ▸ hj) .nil), by simp⟩
  · have hhub : (dialGraph s participants).Adj (hub hp i) (hub hp j) := by
      have hflip : hub hp (hub hp i) = hub hp j := by
        by_cases hpi : p < i
        · have hpj : ¬ p < j := fun hpj => hsame (by simp [hub, hpi, hpj])
          simp [hub, hpi, hpj]
        · have hpj : p < j := by
            by_contra hpj
            exact hsame (by simp [hub, hpi, hpj])
          simp [hub, hpi, hpj]
      exact hflip ▸ adj_hub hp hd (hub hp i)
    exact ⟨.cons hi (.cons hhub (.cons hj .nil)), by simp⟩

end

/-- **Everybody is reached.** Every instance finds a peer, and any two are at most three edges apart. -/
theorem dialGraph_connected (s : Shuffle) (participants : List String) (h2 : 2 ≤ participants.length)
    (hn : participants.Nodup) : (∀ i, ∃ j, Dials s participants i j) ∧ (dialGraph s participants).Connected ∧
      ∀ i j, (dialGraph s participants).dist i j ≤ 3 := by
  obtain ⟨p, hp, hd⟩ := exists_dialed s h2 hn
  have hwalk := exists_walk hp hd
  refine ⟨fun i => ⟨_, hd i⟩, ?_, fun i j => ?_⟩
  · have : Nonempty (Fin participants.length) := ⟨⟨p, by omega⟩⟩
    exact ⟨fun i j => (hwalk i j).choose.reachable⟩
  · obtain ⟨walk, hlen⟩ := hwalk i j
    exact (SimpleGraph.dist_le walk).trans hlen

/-- Positions in reverse: the first of the others is popped. -/
def Shuffle.reverse : Shuffle := ⟨fun _ len => (List.range len).reverse, fun _ _ => List.reverse_perm _⟩

theorem dialGraph_three : (dialGraph .reverse ["/ip4/16.0.0.2/tcp/9000", "/ip4/16.0.0.3/tcp/9000",
    "/ip4/16.0.0.4/tcp/9000"]).Connected :=
  (dialGraph_connected .reverse _ (by decide) (by decide)).2.1

end GossipPlans.Smoke
