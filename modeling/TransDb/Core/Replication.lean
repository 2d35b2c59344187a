import Mathlib.Data.List.Basic
import Mathlib.Logic.Function.Basic
import Mathlib.Tactic.Ring
import TransDb.Core.Machine
import TransDb.Core.Quorum

/-!
# Leader-based log replication, abstractly

The part of a leader-based replication protocol that its safety rests on, with
no messages, no timers and no indices: nodes with a term and a log, votes, one
growing log per elected leader, and acknowledgements.  Entries are of any type
with a term stamp, nodes of any type with a quorum system.

* `State` — the nodes and the history the argument needs: who led a term, the
  log that leader has built, the votes with the log the voter held, the log a
  candidate ran on, the electors, and how much of a leader's log a node has
  acknowledged.
* `Inv` — the invariant.  Its heart is `acked_log`: an acknowledged prefix is
  still in the node's log, or some later leader does not have it (`Lost`).  It
  mentions no commit, so it can be kept step by step.
* `Inv.complete` — **leader completeness**: a chosen prefix is in the log of
  every later leader.
* `Inv.chosen_prefix` — any two chosen prefixes are prefixes of one log.

The operations that change the state, and that they keep `Inv`, are in
`TransDb.Core.ReplicationSteps`.
-/

namespace TransDb.Replication

open List

variable {ν α : Type*}

/-- The nodes' terms and logs, and the history of elections and
acknowledgements. -/
structure State (ν α : Type*) where
  /-- The term a node is in. -/
  term : ν → ℕ
  /-- The log a node holds. -/
  log : ν → List α
  /-- Who was elected in a term. -/
  leader : ℕ → Option ν
  /-- The log built so far by the leader of a term. -/
  leaderLog : ℕ → List α
  /-- The vote a node cast in a term, with the log it held then. -/
  vote : ν → ℕ → Option (ν × List α)
  /-- The log on which a node stood as a candidate in a term. -/
  candLog : ν → ℕ → List α
  /-- The nodes whose votes elected the leader of a term. -/
  electors : ℕ → Finset ν
  /-- How long a prefix of the leader's log a node has acknowledged in a term. -/
  acked : ν → ℕ → ℕ

variable (stamp : α → ℕ)

/-- The term stamp of the last entry, `0` for the empty log. -/
def lastStamp (l : List α) : ℕ := (l.getLast?.map stamp).getD 0

/-- The election restriction: the candidate's log ends in a later term, or in
the same term and is at least as long. -/
def UpToDate (cand l : List α) : Prop :=
  lastStamp stamp l < lastStamp stamp cand ∨
    (lastStamp stamp l = lastStamp stamp cand ∧ l.length ≤ cand.length)

/-- Every entry stands on the log of the leader that stamped it: the log up to
and including the entry is a prefix of that leader's log. -/
def Rooted (s : State ν α) (l : List α) : Prop :=
  ∀ (p : List α) (e : α), p ++ [e] <+: l → p ++ [e] <+: s.leaderLog (stamp e)

/-- Some leader of a term after `T`, up to `U`, does not have the first `n`
entries of the log of the leader of `T`. -/
def Lost (s : State ν α) (T n U : ℕ) : Prop :=
  ∃ T', T < T' ∧ T' ≤ U ∧ s.leader T' ≠ none ∧ ¬ (s.leaderLog T).take n <+: s.leaderLog T'

variable (Q : Quorums ν)

/-- The first `n` entries of the log of the leader of `T` are chosen: the last of
them carries the stamp `T`, and a quorum has acknowledged them all. -/
def Chosen (s : State ν α) (T n : ℕ) : Prop :=
  (∃ p e, (s.leaderLog T).take n = p ++ [e] ∧ stamp e = T ∧ p.length + 1 = n) ∧
    ∃ A, Q.isQuorum A ∧ ∀ v ∈ A, n ≤ s.acked v T

/-- The invariant of log replication. -/
structure Inv (s : State ν α) : Prop where
  /-- Every log in sight is rooted. -/
  rooted_log : ∀ v, Rooted stamp s (s.log v)
  rooted_leader : ∀ T, Rooted stamp s (s.leaderLog T)
  rooted_cand : ∀ c T, Rooted stamp s (s.candLog c T)
  rooted_vote : ∀ {v T c l}, s.vote v T = some (c, l) → Rooted stamp s l
  /-- Stamps never exceed the term of the log they are in. -/
  log_le : ∀ {v e}, e ∈ s.log v → stamp e ≤ s.term v
  leader_le : ∀ {T e}, e ∈ s.leaderLog T → stamp e ≤ T
  cand_lt : ∀ {c T e}, e ∈ s.candLog c T → stamp e < T
  /-- A term without a leader has no log. -/
  no_leader : ∀ {T}, s.leader T = none → s.leaderLog T = []
  leader_term : ∀ {T c}, s.leader T = some c → T ≤ s.term c
  /-- While a leader stays in its term its log is the leader log, whatever its
  role has become. -/
  leader_log : ∀ {T c}, s.leader T = some c → s.term c = T → s.log c = s.leaderLog T
  leader_own : ∀ {T}, s.leader T ≠ none → ∃ p e, s.leaderLog T = p ++ [e] ∧ stamp e = T
  cand_leader : ∀ {T c}, s.leader T = some c → s.candLog c T <+: s.leaderLog T
  elected : ∀ {T c}, s.leader T = some c →
    Q.isQuorum (s.electors T) ∧ ∀ v ∈ s.electors T, ∃ l, s.vote v T = some (c, l)
  /-- Votes are cast for candidates of the voter's term, on logs that are no more
  up to date than the candidate's. -/
  vote_term : ∀ {v T c l}, s.vote v T = some (c, l) → T ≤ s.term v ∧ T ≤ s.term c
  vote_upToDate : ∀ {v T c l}, s.vote v T = some (c, l) → UpToDate stamp (s.candLog c T) l
  acked_le : ∀ v T, s.acked v T ≤ (s.leaderLog T).length
  acked_term : ∀ {v T}, 0 < s.acked v T → T ≤ s.term v
  /-- What was acknowledged is still there, or some later leader lacks it. -/
  acked_log : ∀ {v T n}, n ≤ s.acked v T →
    (s.leaderLog T).take n <+: s.log v ∨ Lost s T n (s.term v)
  acked_vote : ∀ {v T U n c l}, s.vote v U = some (c, l) → T < U → n ≤ s.acked v T →
    (s.leaderLog T).take n <+: l ∨ Lost s T n U
  acked_elector : ∀ {v T U n c l}, s.leader U ≠ none → v ∈ s.electors U →
    s.vote v U = some (c, l) → T < U → n ≤ s.acked v T →
    (s.leaderLog T).take n <+: l ∨ Lost s T n (U - 1)

variable {stamp} {Q}

/-! ## Prefixes and stamps -/

theorem lastStamp_append (p : List α) (e : α) : lastStamp stamp (p ++ [e]) = stamp e := by
  simp [lastStamp]

theorem lastStamp_nil : lastStamp stamp ([] : List α) = 0 := rfl

/-- A log is empty or ends in an entry. -/
theorem eq_nil_or_append (l : List α) : l = [] ∨ ∃ p e, l = p ++ [e] := by
  rcases eq_nil_or_concat l with h | ⟨p, e, h⟩
  · exact Or.inl h
  · exact Or.inr ⟨p, e, by simpa using h⟩

variable {s : State ν α}

theorem Rooted.anti {l l' : List α} (h : Rooted stamp s l) (hl : l' <+: l) : Rooted stamp s l' :=
  fun p e hp => h p e (hp.trans hl)

/-- A rooted log is a prefix of the log of the leader that stamped its last
entry. -/
theorem Rooted.prefix_leader {l : List α} (h : Rooted stamp s l) :
    l <+: s.leaderLog (lastStamp stamp l) := by
  rcases eq_nil_or_append l with rfl | ⟨p, e, rfl⟩
  · exact nil_prefix
  · rw [lastStamp_append]
    exact h p e prefix_rfl

/-- Two rooted logs with an entry of the same stamp at the same place agree up to
that place. -/
theorem Rooted.matching {l l' p p' : List α} {e e' : α}
    (h : Rooted stamp s l) (h' : Rooted stamp s l') (hp : p ++ [e] <+: l)
    (hp' : p' ++ [e'] <+: l') (hlen : p.length = p'.length) (hst : stamp e = stamp e') :
    p ++ [e] = p' ++ [e'] := by
  have h1 := h p e hp
  have h2 := h' p' e' hp'
  rw [← hst] at h2
  exact (prefix_of_prefix_length_le h1 h2 (by simp [hlen])).eq_of_length (by simp [hlen])

/-- In a rooted log no stamp exceeds the last one. -/
theorem Inv.stamp_le_last (h : Inv stamp Q s) {l : List α} (hl : Rooted stamp s l) {e : α}
    (he : e ∈ l) : stamp e ≤ lastStamp stamp l :=
  h.leader_le (hl.prefix_leader.subset he)

/-- Nothing has happened yet. -/
def State.init : State ν α where
  term _ := 0
  log _ := []
  leader _ := none
  leaderLog _ := []
  vote _ _ := none
  candLog _ _ := []
  electors _ := ∅
  acked _ _ := 0

theorem Inv.init : Inv stamp Q (State.init : State ν α) := by
  have hrooted : Rooted stamp (State.init : State ν α) [] := by
    intro p e hp
    simp at hp
  constructor <;> intros <;> first | exact hrooted | simp_all [State.init]

/-! ## Leader completeness -/

section

variable (h : Inv stamp Q s)
include h

/-- A log at least as up to date as one that holds a chosen prefix holds it too,
provided the leaders in between do. -/
theorem Inv.upToDate_prefix {T U : ℕ} {P p l cand : List α} {e : α} (hP : P = p ++ [e])
    (he : stamp e = T) (hPT : P <+: s.leaderLog T) (hl : Rooted stamp s l) (hPl : P <+: l)
    (hc : Rooted stamp s cand) (hcU : ∀ x ∈ cand, stamp x < U) (hup : UpToDate stamp cand l)
    (hmid : ∀ V, T < V → V < U → s.leader V ≠ none → P <+: s.leaderLog V) : P <+: cand := by
  have hel : e ∈ l := hPl.subset (by simp [hP])
  have hTl : T ≤ lastStamp stamp l := he ▸ h.stamp_le_last hl hel
  -- the candidate's log is not empty: it is no shorter or ends in a later term
  obtain ⟨q, x, hq⟩ : ∃ q x, cand = q ++ [x] := by
    rcases eq_nil_or_append cand with hnil | hq
    · rw [hnil] at hup
      rcases hup with hlt | ⟨-, hle⟩
      · exact absurd hlt (Nat.not_lt_zero _)
      · have := hPl.length_le
        simp only [hP, length_append, length_singleton, length_nil] at this hle
        omega
    · exact hq
  have hxs : lastStamp stamp cand = stamp x := by rw [hq, lastStamp_append]
  have hcx : cand <+: s.leaderLog (stamp x) := hxs ▸ hc.prefix_leader
  rcases hup with hlt | ⟨heq, hle⟩
  · -- a later term: its leader has the prefix, and the candidate reaches past it
    have hTx : T < stamp x := by omega
    have hxU : stamp x < U := hcU x (by simp [hq])
    have hPx : P <+: s.leaderLog (stamp x) := by
      refine hmid _ hTx hxU ?_
      intro hnone
      have hnil := h.no_leader hnone
      rw [hnil] at hcx
      simp [hq] at hcx
    rcases prefix_or_prefix_of_prefix hPx hcx with hPc | hcP
    · exact hPc
    · have hxP : x ∈ s.leaderLog T := (hcP.trans hPT).subset (by simp [hq])
      have := h.leader_le hxP
      omega
  · -- the same term: both are prefixes of that leader's log
    have hlx : l <+: s.leaderLog (stamp x) := by
      rw [← hxs, ← heq]
      exact hl.prefix_leader
    exact hPl.trans (prefix_of_prefix_length_le hlx hcx hle)

/-- **Leader completeness.**  A chosen prefix is in the log of every later
leader. -/
theorem Inv.complete {T n : ℕ} (hch : Chosen stamp Q s T n) :
    ∀ U, T < U → s.leader U ≠ none → (s.leaderLog T).take n <+: s.leaderLog U := by
  obtain ⟨⟨p, e, hP, he, -⟩, A, hA, hack⟩ := hch
  intro U
  induction U using Nat.strong_induction_on with
  | _ U ih =>
    intro hTU hU
    obtain ⟨c, hc⟩ := Option.ne_none_iff_exists'.mp hU
    obtain ⟨hE, hvotes⟩ := h.elected hc
    -- a node that both acknowledged the prefix and voted for the leader of `U`
    obtain ⟨v, hvA, hvE⟩ := Q.inter hA hE
    obtain ⟨l, hvl⟩ := hvotes v hvE
    have hPl : (s.leaderLog T).take n <+: l := by
      rcases h.acked_elector hU hvE hvl hTU (hack v hvA) with hp | ⟨V, hTV, hVU, hV, hlost⟩
      · exact hp
      · exact absurd (ih V (by omega) hTV hV) hlost
    have hcut := take_prefix n (s.leaderLog T)
    exact (h.upToDate_prefix hP he hcut (h.rooted_vote hvl) hPl
      (h.rooted_cand c U) (fun x hx => h.cand_lt hx) (h.vote_upToDate hvl)
      (fun V hTV hVU hV => ih V hVU hTV hV)).trans (h.cand_leader hc)

/-- A chosen prefix is in the log of every leader of its own or a later term. -/
theorem Inv.chosen_leader {T n U : ℕ} (hch : Chosen stamp Q s T n) (hTU : T ≤ U)
    (hU : s.leader U ≠ none) : (s.leaderLog T).take n <+: s.leaderLog U := by
  rcases hTU.lt_or_eq with hlt | rfl
  · exact h.complete hch U hlt hU
  · exact take_prefix _ _

theorem Chosen.leader_ne_none {T n : ℕ} (hch : Chosen stamp Q s T n) : s.leader T ≠ none := by
  obtain ⟨⟨p, e, hP, -⟩, -⟩ := hch
  intro hnone
  rw [h.no_leader hnone] at hP
  simp at hP

/-- **Agreement.**  Any two chosen prefixes are prefixes of one leader's log. -/
theorem Inv.chosen_prefix {T n U m : ℕ} (hT : Chosen stamp Q s T n) (hU : Chosen stamp Q s U m) :
    ∃ V, (s.leaderLog T).take n <+: s.leaderLog V ∧ (s.leaderLog U).take m <+: s.leaderLog V := by
  rcases le_total T U with hle | hle
  · exact ⟨U, h.chosen_leader hT hle (hU.leader_ne_none h), take_prefix _ _⟩
  · exact ⟨T, take_prefix _ _, h.chosen_leader hU hle (hT.leader_ne_none h)⟩

end

end TransDb.Replication
