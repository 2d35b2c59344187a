import TransDb.Core.ReplicationMoves
import TransDb.Raft.Cluster

/-!
# A Raft node refines abstract log replication

How one `RaftNode` stands to the abstract state of `TransDb.Core.Replication`, and
that each of its handlers is a move of that state.

* `NodeSim` — the relation between a node, what it has applied, and the abstract
  state.  Its field `vote` is where this code differs from the paper: a vote can
  be missing from `votedFor`, but only the vote of a node that led the term.
* `NodeSim.handleRequestVote`, `NodeSim.handleVoteResponse`, … — one theorem per
  handler: what it leaves is again related to a legal abstract state, and what it
  answers is true there.
-/

namespace TransDb.Raft

open List Function

open Replication

/-- The abstract state a cluster refines. -/
abbrev Spec := Replication.State NodeId RaftLogEntry

/-- The majorities of the members. -/
def Config.quorums (cfg : Config) : Quorums NodeId := majority cfg.ids.toFinset

/-- The invariant of replication, and numbered leader logs. -/
structure Legal (cfg : Config) (a : Spec) : Prop where
  inv : Inv RaftLogEntry.term cfg.quorums a
  contiguous : ∀ T, Contiguous (a.leaderLog T)

/-- The first `k` entries of `l` were chosen by a leader of a term up to `U`. -/
def Committed (cfg : Config) (a : Spec) (U k : ℕ) (l : List RaftLogEntry) : Prop :=
  k = 0 ∨ ∃ T m, T ≤ U ∧ Chosen RaftLogEntry.term cfg.quorums a T m ∧ k ≤ m ∧
    (a.leaderLog T).take k <+: l

/-- What the local variables of an election of `v` stand for. -/
structure Tally (cfg : Config) (a : Spec) (v : NodeId) (T : ℕ) (el : Election) : Prop where
  term_le : el.termSent ≤ T
  lastLogIndex : el.lastLogIndex = (a.candLog v el.termSent).length
  lastLogTerm : el.lastLogTerm = lastStamp RaftLogEntry.term (a.candLog v el.termSent)
  nodup : el.peers.Nodup
  peers : ∀ p ∈ el.peers, p ∈ cfg.peers v
  /-- The votes counted are of different members, none of them still to be asked. -/
  voters : ∃ G : Finset NodeId, G.card = el.votes ∧ G ⊆ cfg.ids.toFinset ∧
    (∀ w ∈ G, ∃ l, a.vote w el.termSent = some (v, l)) ∧ ∀ p ∈ el.peers, p ∉ G

/-- Node `v` is in state `n`, and has applied `applied` since it started. -/
structure NodeSim (cfg : Config) (a : Spec) (v : NodeId) (n : RaftNode)
    (applied : List RaftLogEntry) : Prop where
  id : n.nodeId = v
  peers : n.peerIds = cfg.peers v
  term : a.term v = n.currentTerm
  log : a.log v = n.log.entries
  file : n.metaFile.getD (0, none) = (n.currentTerm, n.votedFor)
  leader : n.role = .leader → a.leader n.currentTerm = some v
  selfAcked : n.role = .leader → n.log.entries.length ≤ a.acked v n.currentTerm
  candidate : n.role = .candidate →
    a.leader n.currentTerm ≠ some v ∧ a.candLog v n.currentTerm = n.log.entries
  voted : ∀ {c}, n.votedFor = some c → ∃ l, a.vote v n.currentTerm = some (c, l)
  /-- A vote of the current term is remembered, unless the node has led the term:
  a leader that steps down inside its term forgets its vote. -/
  vote : ∀ {c l}, a.vote v n.currentTerm = some (c, l) →
    n.votedFor = some c ∨ a.leader n.currentTerm = some v
  election : ∀ {el}, n.election = some el → Tally cfg a v n.currentTerm el
  nextIndex : n.role = .leader → ∀ p ∈ n.peerIds,
    1 ≤ n.nextIndex p ∧ n.nextIndex p ≤ n.log.entries.length + 1
  matchIndex : n.role = .leader → ∀ p ∈ n.peerIds, ∀ m, n.matchIndex p = some m →
    m ≤ a.acked p n.currentTerm
  commit : Committed cfg a n.currentTerm n.commitIndex n.log.entries
  applied_le : n.lastApplied ≤ n.commitIndex
  applied_eq : applied = n.log.entries.take n.lastApplied

/-- After a move of `v` the node can be in state `n`, with `P` true of the abstract
state. -/
def Reaches (cfg : Config) (a : Spec) (v : NodeId) (n : RaftNode) (applied : List RaftLogEntry)
    (P : Spec → Prop) : Prop :=
  ∃ a', Moves v a a' ∧ Legal cfg a' ∧ NodeSim cfg a' v n applied ∧ P a'

variable {cfg : Config} {a a' : Spec} {v w : NodeId} {n : RaftNode} {tr : List RaftLogEntry}

/-! ## Committed prefixes -/

variable {k : ℕ} {l : List RaftLogEntry} {el : Election} {G : Finset NodeId}
    {req : RequestVoteRequest}

theorem Committed.le_length {U : ℕ} (h : Committed cfg a U k l) : k ≤ l.length := by
  rcases h with rfl | ⟨T, m, -, hch, hk, hp⟩
  · exact Nat.zero_le _
  · have hlen := hp.length_le
    have := hch.le_length
    rw [length_take] at hlen
    omega

theorem Committed.anti {U k' : ℕ} (h : Committed cfg a U k l) (hk' : k' ≤ k) :
    Committed cfg a U k' l := by
  rcases h with rfl | ⟨T, m, hT, hch, hk, hp⟩
  · exact Or.inl (by omega)
  · exact Or.inr ⟨T, m, hT, hch, hk'.trans hk, (take_prefix_take_left hk').trans hp⟩

theorem Committed.mono {U U' : ℕ} {l' : List RaftLogEntry} (h : Committed cfg a U k l)
    (hm : Moves w a a') (hU : U ≤ U') (hl : l <+: l') : Committed cfg a' U' k l' := by
  rcases h with rfl | ⟨T, m, hT, hch, hk, hp⟩
  · exact Or.inl rfl
  · refine Or.inr ⟨T, m, hT.trans hU, hch.mono hm.grows hm.acked_le, hk, ?_⟩
    rw [take_eq_take_left (hm.grows.leaderLog T) (hk.trans hch.le_length)]
    exact hp.trans hl

/-- Two logs that hold the same committed prefix agree on it. -/
theorem take_eq_of_common {P l' : List RaftLogEntry} (hk : P.length = k) (h : P <+: l)
    (h' : P <+: l') : l'.take k = l.take k := by
  rw [prefix_iff_eq_take] at h h'
  rw [← hk, ← h, ← h']

/-- A committed prefix survives the merge of a leader's entries. -/
theorem Committed.overwrite {U : ℕ} (h : Committed cfg a U k l) (hL : Legal cfg a)
    (hU : a.leader U ≠ none) (m : ℕ) :
    Committed cfg a U k (overwrite l ((a.leaderLog U).take m)) ∧
      (overwrite l ((a.leaderLog U).take m)).take k = l.take k := by
  rcases h with rfl | ⟨T, j, hT, hch, hk, hp⟩
  · exact ⟨Or.inl rfl, rfl⟩
  · have hkeep := hL.inv.chosen_overwrite (m := m) hch hT hU hk hp
    refine ⟨Or.inr ⟨T, j, hT, hch, hk, hkeep⟩, take_eq_of_common ?_ hp hkeep⟩
    rw [length_take]
    have := hch.le_length
    omega

/-! ## Nodes that do not move -/

theorem Tally.mono {T T' : ℕ} (h : Tally cfg a v T el) (hm : Moves w a a') (hv : T ≤ a.term v)
    (hT : T ≤ T') : Tally cfg a' v T' el := by
  have hcand : a'.candLog v el.termSent = a.candLog v el.termSent :=
    hm.cand_eq (h.term_le.trans hv)
  obtain ⟨G, hcard, hsub, hvotes, hnot⟩ := h.voters
  refine ⟨h.term_le.trans hT, by rw [hcand, h.lastLogIndex], by rw [hcand, h.lastLogTerm],
    h.nodup, h.peers, G, hcard, hsub, ?_, hnot⟩
  intro x hx
  obtain ⟨l, hl⟩ := hvotes x hx
  exact ⟨l, hm.vote_kept hl⟩

/-- A move of another node leaves the relation as it is. -/
theorem NodeSim.frame (h : NodeSim cfg a w n tr) (hm : Moves v a a') (hw : w ≠ v) :
    NodeSim cfg a' w n tr where
  id := h.id
  peers := h.peers
  term := by rw [hm.term_other hw, h.term]
  log := by rw [hm.log_other hw, h.log]
  file := h.file
  leader hr := hm.leader_some (h.leader hr)
  selfAcked hr := (h.selfAcked hr).trans (hm.acked_le _ _)
  candidate hr := by
    obtain ⟨h1, h2⟩ := h.candidate hr
    refine ⟨?_, by rw [hm.cand_other _ hw, h2]⟩
    rcases hm.leader_new n.currentTerm with heq | heq
    · rwa [heq]
    · rw [heq]
      exact fun hc => hw (Option.some.inj hc).symm
  voted hc := by
    rw [hm.vote_other _ hw]
    exact h.voted hc
  vote hv := by
    rw [hm.vote_other _ hw] at hv
    exact (h.vote hv).imp_right hm.leader_some
  election hel := (h.election hel).mono hm h.term.ge le_rfl
  nextIndex := h.nextIndex
  matchIndex hr p hp m hm' := (h.matchIndex hr p hp m hm').trans (hm.acked_le _ _)
  commit := h.commit.mono hm le_rfl prefix_rfl
  applied_le := h.applied_le
  applied_eq := h.applied_eq

/-! ## Steps that change no abstract state -/

section

variable (h : NodeSim cfg a v n tr)
include h

/-- A node that is doing nothing in particular about an election. -/
theorem NodeSim.setElection {e : Option Election}
    (he : ∀ {el}, e = some el → Tally cfg a v n.currentTerm el) :
    NodeSim cfg a v { n with election := e } tr :=
  { h with election := he }

theorem NodeSim.endElection : NodeSim cfg a v { n with election := none } tr :=
  h.setElection (fun hel => by cases hel)

/-- A node that takes somebody for its leader. -/
theorem NodeSim.follow (leaderId : NodeId) :
    NodeSim cfg a v { n with role := .follower, leaderId := leaderId } tr :=
  { h with
    leader := fun hr => by cases hr
    selfAcked := fun hr => by cases hr
    candidate := fun hr => by cases hr
    nextIndex := fun hr => by cases hr
    matchIndex := fun hr => by cases hr }

theorem NodeSim.setCommitIndex (hk : n.commitIndex ≤ k)
    (hcommit : Committed cfg a n.currentTerm k n.log.entries) :
    NodeSim cfg a v { n with commitIndex := k } tr :=
  { h with
    commit := hcommit
    applied_le := h.applied_le.trans hk }

/-- A restart keeps what the files hold and forgets the rest. -/
theorem NodeSim.restart : NodeSim cfg a v n.restart [] := by
  obtain ⟨hterm, hvoted⟩ := RaftNode.restart_recorded h.file
  exact {
    id := h.id
    peers := h.peers
    term := by rw [hterm, h.term]
    log := h.log
    file := by rw [hterm, hvoted]; exact h.file
    leader := fun hr => by cases hr
    selfAcked := fun hr => by cases hr
    candidate := fun hr => by cases hr
    voted := fun hc => by
      rw [hterm]
      exact h.voted (hvoted ▸ hc)
    vote := fun hv => by
      rw [hterm] at hv ⊢
      rw [hvoted]
      exact h.vote hv
    election := fun hel => by cases hel
    nextIndex := fun hr => by cases hr
    matchIndex := fun hr => by cases hr
    commit := Or.inl rfl
    applied_le := le_rfl
    applied_eq := rfl }

end

/-! ## Terms and elections -/

/-- A node that hears of a later term, or a leader that steps down inside its
own, moves to that term without a vote. -/
theorem NodeSim.becomeFollower (hL : Legal cfg a) (h : NodeSim cfg a v n tr) {T : ℕ}
    (hT : n.currentTerm < T ∨ n.role = .leader ∧ T = n.currentTerm) :
    Legal cfg (a.raise v T) ∧ Moves v a (a.raise v T) ∧
      NodeSim cfg (a.raise v T) v (n.becomeFollower T) tr := by
  have hle : a.term v ≤ T := by
    rw [h.term]
    rcases hT with hlt | ⟨-, rfl⟩
    · exact hlt.le
    · exact le_rfl
  have hm : Moves v a (a.raise v T) := moves_raise hle
  refine ⟨⟨hL.inv.raise hle, hL.contiguous⟩, hm, ?_⟩
  exact {
    id := h.id
    peers := h.peers
    term := by simp [State.raise, RaftNode.becomeFollower, RaftNode.persistMeta]
    log := h.log
    file := rfl
    leader := fun hr => by cases hr
    selfAcked := fun hr => by cases hr
    candidate := fun hr => by cases hr
    voted := fun hc => by cases hc
    vote := by
      intro c l hv
      rcases hT with hlt | ⟨hr, rfl⟩
      · -- nobody votes in a term it has not reached
        have := (hL.inv.vote_term (v := v) (T := T) hv).1
        rw [h.term] at this
        omega
      · exact Or.inr (h.leader hr)
    election := fun hel => (h.election hel).mono hm h.term.ge (h.term ▸ hle)
    nextIndex := fun hr => by cases hr
    matchIndex := fun hr => by cases hr
    commit := h.commit.mono hm (h.term ▸ hle) prefix_rfl
    applied_le := h.applied_le
    applied_eq := h.applied_eq }

theorem NodeSim.startElection (hL : Legal cfg a) (h : NodeSim cfg a v n tr) (hv : v ∈ cfg.ids) :
    Reaches cfg a v n.startElection tr fun _ => True := by
  unfold RaftNode.startElection
  by_cases hr : n.role = .leader
  · rw [if_pos hr]
    exact ⟨a, Moves.refl v a, hL, h, trivial⟩
  rw [if_neg hr]
  have hm : Moves v a (a.stand v) := moves_stand hL.inv v
  have hcand : (a.stand v).candLog v (n.currentTerm + 1) = n.log.entries := by
    simp [State.stand, h.term, h.log]
  have hvote : (a.stand v).vote v (n.currentTerm + 1) = some (v, n.log.entries) := by
    simp [State.stand, h.term, h.log]
  have htally : Tally cfg (a.stand v) v (n.currentTerm + 1)
      { termSent := n.currentTerm + 1
        lastLogIndex := n.log.lastIndex
        lastLogTerm := n.log.termAt n.log.lastIndex
        peers := n.peerIds
        votes := 1 } := by
    refine ⟨le_rfl, by rw [hcand, n.log.lastIndex_eq], by rw [hcand, n.log.termAt_lastIndex],
      ?_, ?_, {v}, by simp, by simpa using hv, ?_, ?_⟩
    · rw [h.peers]
      exact cfg.peers_nodup v
    · rw [h.peers]
      exact fun p hp => hp
    · intro x hx
      rw [Finset.mem_singleton] at hx
      rw [hx]
      exact ⟨_, hvote⟩
    · intro p hp hpv
      rw [Finset.mem_singleton] at hpv
      rw [h.peers, hpv] at hp
      exact ((cfg.mem_peers v hv v).mp hp).2 rfl
  refine ⟨a.stand v, hm, ⟨hL.inv.stand v, hL.contiguous⟩, ?_, trivial⟩
  exact {
    id := h.id
    peers := h.peers
    term := by simp [State.stand, RaftNode.becomeCandidate, RaftNode.persistMeta, h.term]
    log := h.log
    file := rfl
    leader := fun hr' => by cases hr'
    selfAcked := fun hr' => by cases hr'
    candidate := by
      intro _
      refine ⟨?_, hcand⟩
      -- no one leads a term it has not reached
      intro hlead
      have := hL.inv.leader_term (T := n.currentTerm + 1) (c := v) hlead
      rw [h.term] at this
      omega
    voted := by
      intro c hc
      cases hc
      rw [h.id]
      exact ⟨_, hvote⟩
    vote := by
      intro c l hv'
      left
      have := hvote.symm.trans hv'
      simp only [Option.some.injEq, Prod.mk.injEq] at this
      show some n.nodeId = some c
      rw [h.id, this.1]
    election := by
      intro el hel
      cases hel
      exact htally
    nextIndex := fun hr' => by cases hr'
    matchIndex := fun hr' => by cases hr'
    commit := h.commit.mono hm (Nat.le_succ _) prefix_rfl
    applied_le := h.applied_le
    applied_eq := h.applied_eq }

/-- The members are a node and its peers. -/
theorem Config.card_ids (cfg : Config) {v : NodeId} (hv : v ∈ cfg.ids) :
    cfg.ids.toFinset.card = (cfg.peers v).length + 1 := by
  have hset : cfg.ids.toFinset = insert v (cfg.peers v).toFinset := by
    ext p
    simp only [mem_toFinset, Finset.mem_insert, cfg.mem_peers v hv]
    by_cases hp : p = v
    · simp [hp, hv]
    · simp [hp]
  have hnot : v ∉ (cfg.peers v).toFinset := by
    simp [cfg.mem_peers v hv]
  rw [hset, Finset.card_insert_of_notMem hnot, toFinset_card_of_nodup (cfg.peers_nodup v)]

/-- What `MajorityThreshold` asks for is a quorum. -/
theorem NodeSim.isQuorum (h : NodeSim cfg a v n tr) (hv : v ∈ cfg.ids) (hsub : G ⊆ cfg.ids.toFinset)
    (hcard : n.majorityThreshold ≤ G.card) : cfg.quorums.isQuorum G := by
  refine ⟨hsub, ?_⟩
  rw [cfg.card_ids hv]
  unfold RaftNode.majorityThreshold at hcard
  rw [h.peers] at hcard
  omega

/-- The end of a contiguous log is where the next entry goes. -/
theorem NodeSim.contiguous_push (hL : Legal cfg a) (h : NodeSim cfg a v n tr) {e : RaftLogEntry}
    (he : e.index = n.log.entries.length + 1) (T : ℕ) : Contiguous ((a.push v e).leaderLog T) := by
  by_cases hT : T = a.term v
  · subst hT
    simp only [State.push, update_self, h.log]
    exact n.log.contiguous.append_singleton he
  · simpa [State.push, hT] using hL.contiguous T

/-- A log that only grew at its end still has the applied entries at its
beginning. -/
theorem NodeSim.applied_grown (h : NodeSim cfg a v n tr) (hl : n.log.entries <+: l) :
    tr = l.take n.lastApplied := by
  rw [h.applied_eq, take_eq_take_left hl (h.applied_le.trans h.commit.le_length)]

/-- A candidate with a majority becomes the leader of its term. -/
theorem NodeSim.becomeLeader (hL : Legal cfg a) (h : NodeSim cfg a v n tr) (hv : v ∈ cfg.ids)
    (hr : n.role = .candidate) (hsub : G ⊆ cfg.ids.toFinset) (hcard : n.majorityThreshold ≤ G.card)
    (hvotes : ∀ w ∈ G, ∃ l, a.vote w n.currentTerm = some (v, l)) :
    Reaches cfg a v { n.becomeLeader with election := none } tr fun _ => True := by
  have hQ := h.isQuorum hv hsub hcard
  obtain ⟨hnot, hcand⟩ := h.candidate hr
  let e : RaftLogEntry := ⟨n.log.entries.length + 1, n.currentTerm, .noop, []⟩
  have hlog : n.becomeLeader.log.entries = n.log.entries ++ [e] := n.log.entries_append _ _ _
  rw [← h.term] at hvotes hnot
  have hnone := hL.inv.leader_eq_none hQ hvotes hnot
  have hm : Moves v a (a.elect v G e) := moves_elect hL.inv G e hnone
  have hinv : Inv RaftLogEntry.term cfg.quorums (a.elect v G e) :=
    hL.inv.elect hQ hvotes (by rw [h.log, h.term, hcand]) hnot h.term.symm
  have hacked : (a.elect v G e).acked v n.currentTerm = n.log.entries.length + 1 := by
    rw [← h.term]
    simp [State.elect, State.push, h.log]
  have hleader : (a.elect v G e).leader n.currentTerm = some v := by
    rw [← h.term]
    exact update_self _ _ _
  refine ⟨_, hm, ⟨hinv, h.contiguous_push hL rfl⟩, ?_, trivial⟩
  exact {
    id := h.id
    peers := h.peers
    term := h.term
    log := by
      show (a.elect v G e).log v = n.becomeLeader.log.entries
      rw [hlog, ← h.log]
      exact update_self _ _ _
    file := h.file
    leader := fun _ => hleader
    selfAcked := by
      intro _
      show n.becomeLeader.log.entries.length ≤ (a.elect v G e).acked v n.currentTerm
      rw [hacked, hlog, length_append, length_singleton]
    candidate := fun hr' => by cases hr'
    voted := h.voted
    vote := fun _ => Or.inr hleader
    election := fun hel => by cases hel
    nextIndex := by
      intro _ p hp
      show 1 ≤ n.becomeLeader.nextIndex p ∧
        n.becomeLeader.nextIndex p ≤ n.becomeLeader.log.entries.length + 1
      have hp' : p ∈ n.peerIds := hp
      rw [hlog, length_append, length_singleton]
      simp only [RaftNode.becomeLeader, if_pos hp', n.log.lastIndex_eq]
      omega
    matchIndex := by
      intro _ p hp m hmp
      have hp' : p ∈ n.peerIds := hp
      have hm0 : n.becomeLeader.matchIndex p = some 0 := if_pos hp'
      obtain rfl : 0 = m := Option.some.inj (hm0.symm.trans hmp)
      exact Nat.zero_le _
    commit := by
      show Committed cfg (a.elect v G e) n.currentTerm n.commitIndex n.becomeLeader.log.entries
      rw [hlog]
      exact h.commit.mono hm le_rfl (prefix_append _ _)
    applied_le := h.applied_le
    applied_eq := by
      show tr = n.becomeLeader.log.entries.take n.lastApplied
      exact h.applied_grown (hlog ▸ prefix_append _ _) }

/-- One turn of the election loop: `p` is the peer that was asked. -/
theorem NodeSim.handleVoteResponse (hL : Legal cfg a) (h : NodeSim cfg a v n tr) (hv : v ∈ cfg.ids)
    {p : NodeId} {rest : List NodeId} (hel : n.election = some el) (hpeers : el.peers = p :: rest)
    {resp : RequestVoteResponse}
    (hresp : resp.voteGranted = true → ∃ l, a.vote p el.termSent = some (v, l)) :
    Reaches cfg a v (n.handleVoteResponse el rest resp) tr fun _ => True := by
  have ht := h.election hel
  obtain ⟨hpnot, hnodup⟩ := nodup_cons.mp (hpeers ▸ ht.nodup)
  have hsub : ∀ q ∈ rest, q ∈ el.peers := fun q hq => hpeers ▸ mem_cons_of_mem p hq
  -- going on to the next peer with the votes of `G`
  have hnext : ∀ (k : ℕ) (G : Finset NodeId), G.card = k → G ⊆ cfg.ids.toFinset →
      (∀ w ∈ G, ∃ l, a.vote w el.termSent = some (v, l)) → (∀ q ∈ rest, q ∉ G) →
      NodeSim cfg a v { n with election := some { el with peers := rest, votes := k } } tr := by
    intro k G hcard hG hvotes hnot
    refine h.setElection fun heq => ?_
    cases heq
    exact ⟨ht.term_le, ht.lastLogIndex, ht.lastLogTerm, hnodup,
      fun q hq => ht.peers q (hsub q hq), G, hcard, hG, hvotes, hnot⟩
  obtain ⟨G, hcard, hG, hvotes, hnot⟩ := ht.voters
  have hsame := hnext el.votes G hcard hG hvotes fun q hq => hnot q (hsub q hq)
  unfold RaftNode.handleVoteResponse
  by_cases hlate : resp.term ≠ 0 ∧ n.currentTerm < resp.term
  · rw [if_pos hlate]
    obtain ⟨hL', hm, hsim⟩ := h.becomeFollower hL (Or.inl hlate.2)
    exact ⟨_, hm, hL', hsim.endElection, trivial⟩
  rw [if_neg hlate]
  by_cases hstale : n.currentTerm ≠ el.termSent ∨ n.role ≠ .candidate
  · rw [if_pos hstale]
    exact ⟨a, Moves.refl v a, hL, h.endElection, trivial⟩
  rw [if_neg hstale]
  by_cases hold : resp.term ≠ 0 ∧ resp.term < el.termSent
  · rw [if_pos hold]
    exact ⟨a, Moves.refl v a, hL, hsame, trivial⟩
  rw [if_neg hold]
  by_cases hlost : resp.term = 0 ∧ resp.voteGranted = false
  · rw [if_pos hlost]
    exact ⟨a, Moves.refl v a, hL, hsame, trivial⟩
  rw [if_neg hlost]
  push Not at hstale
  obtain ⟨hterm, hrole⟩ := hstale
  -- the voters after this answer
  obtain ⟨G', hcard', hG', hvotes', hnot'⟩ : ∃ G' : Finset NodeId,
      G'.card = (if resp.voteGranted = true then el.votes + 1 else el.votes) ∧
      G' ⊆ cfg.ids.toFinset ∧ (∀ w ∈ G', ∃ l, a.vote w el.termSent = some (v, l)) ∧
      ∀ q ∈ rest, q ∉ G' := by
    by_cases hg : resp.voteGranted = true
    · have hp : p ∈ el.peers := hpeers ▸ mem_cons_self
      refine ⟨insert p G, ?_, ?_, ?_, ?_⟩
      · rw [if_pos hg, Finset.card_insert_of_notMem (hnot p hp), hcard]
      · refine Finset.insert_subset ?_ hG
        exact mem_toFinset.mpr ((cfg.mem_peers v hv p).mp (ht.peers p hp)).1
      · intro w hw
        rcases Finset.mem_insert.mp hw with rfl | hw
        · exact hresp hg
        · exact hvotes w hw
      · intro q hq hqG
        rcases Finset.mem_insert.mp hqG with rfl | hqG
        · exact hpnot hq
        · exact hnot q (hsub q hq) hqG
    · exact ⟨G, by rw [if_neg hg, hcard], hG, hvotes, fun q hq => hnot q (hsub q hq)⟩
  by_cases hmaj : n.majorityThreshold ≤ if resp.voteGranted = true then el.votes + 1 else el.votes
  · dsimp only
    rw [if_pos hmaj]
    exact h.becomeLeader hL hv hrole hG' (hcard' ▸ hmaj) (by rw [hterm]; exact hvotes')
  · dsimp only
    rw [if_neg hmaj]
    exact ⟨a, Moves.refl v a, hL, hnext _ G' hcard' hG' hvotes' hnot', trivial⟩

/-- What a vote request says about its candidate. -/
structure VoteRequestSim (a : Spec) (req : RequestVoteRequest) : Prop where
  term_le : req.term ≤ a.term req.candidateId
  lastLogIndex : req.lastLogIndex = (a.candLog req.candidateId req.term).length
  lastLogTerm : req.lastLogTerm = lastStamp RaftLogEntry.term (a.candLog req.candidateId req.term)

theorem VoteRequestSim.mono (h : VoteRequestSim a req) (hm : Moves w a a') :
    VoteRequestSim a' req where
  term_le := h.term_le.trans (hm.term_mono _)
  lastLogIndex := by rw [hm.cand_eq h.term_le, h.lastLogIndex]
  lastLogTerm := by rw [hm.cand_eq h.term_le, h.lastLogTerm]

/-- The check of `HandleRequestVote` is the election restriction. -/
theorem NodeSim.upToDate (h : NodeSim cfg a v n tr) (hreq : VoteRequestSim a req)
    (hup : n.upToDate req = true) :
    UpToDate RaftLogEntry.term (a.candLog req.candidateId req.term) (a.log v) := by
  simp only [RaftNode.upToDate, Bool.or_eq_true, Bool.and_eq_true, decide_eq_true_eq,
    n.log.termAt_lastIndex, hreq.lastLogIndex, hreq.lastLogTerm] at hup
  rw [n.log.lastIndex_eq, ← h.log] at hup
  rcases hup with hlt | ⟨heq, hle⟩
  · exact Or.inl hlt
  · exact Or.inr ⟨heq.symm, hle⟩

/-- A node that led a term refuses every candidate of that term: it has an entry
of the term, and the candidates do not.  This is what protects the vote that a
leader forgets when it steps down. -/
theorem Legal.not_upToDate_of_leader (hL : Legal cfg a) {c : NodeId}
    (hlead : a.leader (a.term v) = some v) :
    ¬ UpToDate RaftLogEntry.term (a.candLog c (a.term v)) (a.log v) := by
  obtain ⟨p, e, hpe, he⟩ := hL.inv.leader_own (T := a.term v) (by simp [hlead])
  have hlast : lastStamp RaftLogEntry.term (a.log v) = a.term v := by
    rw [hL.inv.leader_log hlead rfl, hpe, lastStamp_append, he]
  have hpos : a.log v ≠ [] := by
    rw [hL.inv.leader_log hlead rfl, hpe]
    simp
  rcases eq_nil_or_append (a.candLog c (a.term v)) with hnil | ⟨q, x, hq⟩
  · rintro (hlt | ⟨-, hle⟩)
    · rw [hnil, lastStamp_nil] at hlt
      omega
    · rw [hnil, length_nil, Nat.le_zero, length_eq_zero_iff] at hle
      exact hpos hle
  · have hx : x.term < a.term v := hL.inv.cand_lt (c := c) (by rw [hq]; simp)
    unfold UpToDate
    rw [hlast, hq, lastStamp_append]
    rintro (hlt | ⟨heq, -⟩)
    · omega
    · omega

/-- Granting a vote in the request's own term: the vote is on record, and it is the
node's only one in that term. -/
theorem NodeSim.grantVote (hL : Legal cfg a) (h : NodeSim cfg a v n tr)
    (hreq : VoteRequestSim a req) (hterm : n.currentTerm = req.term)
    (hvoted : n.votedFor = none ∨ n.votedFor = some req.candidateId) (hup : n.upToDate req = true) :
    Reaches cfg a v (RaftNode.persistMeta { n with votedFor := some req.candidateId }) tr
      fun a' => ∃ l, a'.vote v req.term = some (req.candidateId, l) := by
  have hup' := h.upToDate hreq hup
  rcases hvoted with hnone | hsome
  · have hav : a.term v = req.term := h.term.trans hterm
    -- no vote on record: it would be remembered, or the node led the term
    have hvote : a.vote v (a.term v) = none := by
      cases hrec : a.vote v (a.term v) with
      | none => rfl
      | some r =>
        rw [h.term] at hrec
        rcases h.vote hrec with h1 | h1
        · rw [hnone] at h1
          cases h1
        · rw [← h.term] at h1
          exact absurd (hav ▸ hup') (hL.not_upToDate_of_leader h1)
    have hm : Moves v a (a.grant v req.candidateId) := moves_grant hvote
    have hinv := hL.inv.grant hvote (hav ▸ hreq.term_le) (hav ▸ hup')
    have hnew : (a.grant v req.candidateId).vote v n.currentTerm =
        some (req.candidateId, a.log v) := by
      rw [← h.term]
      simp [State.grant]
    refine ⟨_, hm, ⟨hinv, hL.contiguous⟩, ?_, ⟨_, hterm ▸ hnew⟩⟩
    exact { h with
      file := rfl
      voted := by
        intro c hc
        cases hc
        exact ⟨_, hnew⟩
      vote := by
        intro c l hc
        left
        have := hnew.symm.trans hc
        simp only [Option.some.injEq, Prod.mk.injEq] at this
        show some req.candidateId = some c
        rw [this.1]
      election := fun hel => (h.election hel).mono hm h.term.ge le_rfl
      commit := h.commit.mono hm le_rfl prefix_rfl }
  · -- the same vote once more: nothing changes
    have heq : RaftNode.persistMeta { n with votedFor := some req.candidateId } =
        { n with metaFile := some (n.currentTerm, n.votedFor) } := by
      simp [RaftNode.persistMeta, hsome]
    rw [heq]
    exact ⟨a, Moves.refl v a, hL, { h with file := rfl }, hterm ▸ h.voted hsome⟩

theorem NodeSim.handleRequestVote (hL : Legal cfg a) (h : NodeSim cfg a v n tr)
    (hreq : VoteRequestSim a req) :
    Reaches cfg a v (n.handleRequestVote req).1 tr fun a' =>
      (n.handleRequestVote req).2.voteGranted = true →
        ∃ l, a'.vote v req.term = some (req.candidateId, l) := by
  unfold RaftNode.handleRequestVote
  by_cases hstale : req.term < n.currentTerm
  · rw [if_pos hstale]
    exact ⟨a, Moves.refl v a, hL, h, fun hg => by cases hg⟩
  rw [if_neg hstale]
  -- the node, moved to the term of the request
  obtain ⟨b, m, hmdef, hterm, hm, hLb, hb⟩ : ∃ b m,
      m = (if n.currentTerm < req.term then n.becomeFollower req.term else n) ∧
        m.currentTerm = req.term ∧ Moves v a b ∧ Legal cfg b ∧ NodeSim cfg b v m tr := by
    by_cases hlt : n.currentTerm < req.term
    · obtain ⟨hL', hm, hsim⟩ := h.becomeFollower hL (Or.inl hlt)
      exact ⟨_, _, (if_pos hlt).symm, rfl, hm, hL', hsim⟩
    · exact ⟨a, n, (if_neg hlt).symm, by omega, Moves.refl v a, hL, h⟩
  rw [← hmdef]
  dsimp only
  split_ifs with hgrant
  · obtain ⟨c, hm', hLc, hc, hvote⟩ :=
      hb.grantVote hLb (hreq.mono hm) hterm hgrant.1 hgrant.2
    exact ⟨c, hm.trans hm', hLc, hc, fun _ => hvote⟩
  · exact ⟨b, hm, hLb, hb, fun hg => by cases hg⟩

end TransDb.Raft
