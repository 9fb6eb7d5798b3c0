import GossipPlans.CounterJoin
import GossipPlans.ScoringRunSound

/-!
# scoring: the recorded scores

`record_peer_scores` writes all scores of a node into one point, and marks the fields of the attackers. A node knows
the attackers from the sync service, so all nodes of a run mark the same peers (`scores_mark_attackers`).
-/

namespace GossipPlans.Scoring

open Metrics (WriteQuery)
open Metrics.Scoring (Recorder)
open PublishAndCollect (Entry)

/-! ## `record_peer_scores` -/

def scoreField (attackers : List String) (peer : String) : String :=
  if peer ∈ attackers then "attacker_" ++ peer else peer

def addScore (attackers : List String) (query : WriteQuery) (e : String × UInt64) : WriteQuery :=
  query.addField (scoreField attackers e.1) (.float e.2)

/-- `scores` are those of the peers that gossipsub knows. -/
def recordPeerScores (r : Recorder) (attackers : List String) (scores : List (String × UInt64)) : Option WriteQuery :=
  if scores = [] then none else some (scores.foldl (addScore attackers) (r.query "scores"))

theorem foldl_addScore (attackers : List String) : ∀ (scores : List (String × UInt64)) (query : WriteQuery),
    scores.foldl (addScore attackers) query =
      { query with fields := query.fields ++ scores.map fun e => (scoreField attackers e.1, .float e.2) }
  | [], query => by simp
  | e :: scores, query => by
    rw [List.foldl_cons, foldl_addScore attackers scores]
    simp [addScore, WriteQuery.addField]

theorem recordPeerScores_eq_some {r : Recorder} {attackers : List String} {scores : List (String × UInt64)}
    {query : WriteQuery} (h : recordPeerScores r attackers scores = some query) :
    query.fields = scores.map fun e => (scoreField attackers e.1, .float e.2) := by
  unfold recordPeerScores at h
  split at h
  · cases h
  · cases h
    rw [foldl_addScore]
    rfl

theorem scoreField_congr {attackers attackers' : List String} (h : attackers.Perm attackers') (peer : String) :
    scoreField attackers peer = scoreField attackers' peer := by
  simp only [scoreField, h.mem_iff]

/-- A marked field is not the field of another peer unless that peer is called like it. -/
theorem scoreField_inj {attackers : List String} {peers : List String} (h : ∀ a ∈ attackers, "attacker_" ++ a ∉ peers)
    {p p' : String} (hp : p ∈ peers) (hp' : p' ∈ peers) (heq : scoreField attackers p = scoreField attackers p') : p = p' := by
  unfold scoreField at heq
  split at heq
  · rename_i ha
    split at heq
    · exact String.append_right_inj _ |>.mp heq
    · exact absurd (heq ▸ hp') (h p ha)
  · split at heq
    · rename_i ha'
      exact absurd (heq ▸ hp) (h p' ha')
    · exact heq

/-! ## Scores in a run -/

section
variable {beaconNodes attackers : Nat} {params : Params} {net : Network}

/-- **Every node marks the attackers**, and no others; the scores of two peers never share a field. -/
theorem scores_mark_attackers (s : Setup) (hacc : s.Accepted beaconNodes attackers params net)
    (st : LogNet.State (Instance beaconNodes attackers) Key Entry Effect)
    (h : LogNet.Reachable (instances s beaconNodes attackers) st) (b : Fin beaconNodes) (participants : BeaconNodes)
    (ids : List String) (hnew : .act (.networkNew participants ids) ∈ st.trace (.inl b)) (r : Recorder)
    (scores : List (String × UInt64)) :
    let attackerIds := (List.range attackers).map s.attackerPeerId
    (recordPeerScores r ids scores = none ↔ scores = []) ∧ ∀ query, recordPeerScores r ids scores = some query →
      (∀ name bits, (name, .float bits) ∈ query.fields ↔
        ∃ peer, (peer, bits) ∈ scores ∧ name = if peer ∈ attackerIds then "attacker_" ++ peer else peer) ∧
      ((scores.map Prod.fst).Nodup → (∀ a ∈ attackerIds, "attacker_" ++ a ∉ scores.map Prod.fst) →
        (query.fields.map Prod.fst).Nodup) := by
  intro attackerIds
  obtain ⟨-, ⟨infos, ids', ho, rfl⟩, c, -, hexec, -⟩ := (becomes_program hacc).run h
  have hids : ids.Perm attackerIds := by
    rcases act_mem_beaconNodeProgram (LogNet.act_mem_of_trace hexec hnew) with ⟨l, hplain⟩ | heq | hdial
    · cases hplain
    · cases heq
      exact ho.ids_perm
    · simp [Setup.dials] at hdial
  refine ⟨by simp [recordPeerScores], fun query hquery => ?_⟩
  have hfields := recordPeerScores_eq_some hquery
  simp only [scoreField_congr hids] at hfields
  rw [hfields]
  constructor
  · intro name bits
    rw [List.mem_map]
    constructor
    · intro he
      obtain ⟨⟨peer, bits'⟩, hmem, heq⟩ := he
      cases heq
      exact ⟨peer, hmem, rfl⟩
    · intro he
      obtain ⟨peer, hmem, rfl⟩ := he
      exact ⟨(peer, bits), hmem, rfl⟩
  · intro hpeers hfree
    rw [List.map_map]
    show (scores.map fun e => scoreField attackerIds e.1).Nodup
    rw [show (fun e : String × UInt64 => scoreField attackerIds e.1) = scoreField attackerIds ∘ Prod.fst from rfl,
      ← List.map_map]
    exact hpeers.map_on fun p hp p' hp' heq => scoreField_inj hfree hp hp' heq

theorem scores_mark_attackers_two : ∃ st participants ids, LogNet.Reachable (instances Setup.two 2 2) st ∧
    .act (.networkNew participants ids) ∈ st.trace (.inl 0) ∧
    ∃ query, recordPeerScores ⟨0, "peer_0", "run"⟩ ids [("peer_1", 0), ("attacker_0", 1), ("attacker_1", 2)] = some query ∧
      ("attacker_attacker_0", .float 1) ∈ query.fields ∧ ("peer_1", .float 0) ∈ query.fields ∧
      (query.fields.map Prod.fst).Nodup := by
  obtain ⟨params, net, hacc⟩ := accepted_two
  obtain ⟨infos, ids, st, -, hst, htrace⟩ := exists_complete_run Setup.two hacc
  have hnew : .act (.networkNew (participantsOf 0 infos) ids) ∈ st.trace (.inl 0) :=
    act_mem_of_program (htrace (.inl 0)) (by simp [program, beaconNodeProgram])
  obtain ⟨hnone, hsome⟩ := scores_mark_attackers Setup.two hacc st hst 0 _ ids hnew ⟨0, "peer_0", "run"⟩
    [("peer_1", 0), ("attacker_0", 1), ("attacker_1", 2)]
  cases hq : recordPeerScores ⟨0, "peer_0", "run"⟩ ids [("peer_1", 0), ("attacker_0", 1), ("attacker_1", 2)] with
  | none => cases hnone.mp hq
  | some query =>
    obtain ⟨hfields, hnodup⟩ := hsome query hq
    refine ⟨st, _, ids, hst, hnew, query, hq, (hfields _ _).mpr ⟨"attacker_0", by decide, by decide⟩,
      (hfields _ _).mpr ⟨"peer_1", by decide, by decide⟩, hnodup (by decide) (by decide)⟩

end

end GossipPlans.Scoring
