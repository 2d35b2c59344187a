import TransDb.Raft.NodeRefinement

/-!
# Replication, commit and application refine abstract log replication

The second half of the node refinement: the leader's side of `AppendEntries`, the
follower's, the commit index and the apply loop.

* `AppendSim`, `CommitSim` — what an `AppendEntries` request says about its
  leader's log.  Every request reaches to the end of the log the leader had when
  it built it, so `leaderCommit` is covered by the entries sent: that is why a
  follower may commit up to `min(leaderCommit, last index)`.
* `NodeSim.handleAppendEntries`, `NodeSim.processAppendEntriesResponse`,
  `NodeSim.advanceCommitIndex`, `NodeSim.applyLoop` — the handlers.
-/

namespace TransDb.Raft

open List Function Replication

variable {cfg : Config} {a a' : Spec} {v w : NodeId} {n : RaftNode} {tr : List RaftLogEntry}

/-- The entries of a request are a stretch of the log of the leader of its term. -/
structure AppendSim (a : Spec) (dst : NodeId) (req : AppendEntriesRequest) : Prop where
  leader : a.leader req.term = some req.leaderId
  dst_ne : dst ≠ req.leaderId
  fits : req.prevLogIndex + req.entries.length ≤ (a.leaderLog req.term).length
  entries : req.entries = ((a.leaderLog req.term).drop req.prevLogIndex).take req.entries.length
  prevLogTerm : ∀ i, req.prevLogIndex = i + 1 →
    (((a.leaderLog req.term)[i]?).map RaftLogEntry.term).getD 0 = req.prevLogTerm

/-- The commit index of a request is covered by what the request sends, and was
committed. -/
structure CommitSim (cfg : Config) (a : Spec) (req : AppendEntriesRequest) : Prop where
  covered : req.leaderCommit ≤ req.prevLogIndex + req.entries.length
  committed : Committed cfg a req.term req.leaderCommit (a.leaderLog req.term)

variable {req : AppendEntriesRequest}

theorem AppendSim.mono {dst : NodeId} (h : AppendSim a dst req) (hm : Moves w a a') :
    AppendSim a' dst req := by
  obtain ⟨t, ht⟩ := hm.grows.leaderLog req.term
  have hfits := h.fits
  refine ⟨hm.leader_some h.leader, h.dst_ne,
    hfits.trans (hm.grows.leaderLog req.term).length_le, ?_, ?_⟩
  · rw [← ht, drop_append_of_le_length (by omega), take_append_of_le_length]
    · exact h.entries
    · rw [length_drop]
      omega
  · intro i hi
    rw [← ht, getElem?_append_left (by omega)]
    exact h.prevLogTerm i hi

theorem CommitSim.mono (h : CommitSim cfg a req) (hm : Moves w a a') : CommitSim cfg a' req :=
  ⟨h.covered, h.committed.mono hm le_rfl (hm.grows.leaderLog _)⟩

/-- A request cut short, as a follower has written it when it crashes on the way. -/
theorem AppendSim.take {dst : NodeId} (h : AppendSim a dst req) (k : ℕ) :
    AppendSim a dst { req with entries := req.entries.take k } := by
  refine ⟨h.leader, h.dst_ne, ?_, ?_, h.prevLogTerm⟩
  · have := h.fits
    simp only [length_take]
    omega
  · show req.entries.take k = _
    rw [length_take]
    conv_lhs => rw [h.entries]
    rw [take_take]

/-! ## The leader's side -/

section

variable (hL : Legal cfg a) (h : NodeSim cfg a v n tr)
include hL h

theorem NodeSim.leaderLog (hr : n.role = .leader) : a.leaderLog n.currentTerm = n.log.entries := by
  rw [← hL.inv.leader_log (h.leader hr) h.term, h.log]

/-- Nobody has acknowledged more than the leader has. -/
theorem NodeSim.acked_le (hr : n.role = .leader)
    (p : NodeId) : a.acked p n.currentTerm ≤ n.log.entries.length := by
  rw [← h.leaderLog hL hr]
  exact hL.inv.acked_le p n.currentTerm

theorem NodeSim.propose (type : RaftEntryType) (payload : Bytes) :
    Reaches cfg a v (n.propose type payload).1 tr fun a' => n.role = .leader →
      (a'.leaderLog n.currentTerm)[n.log.entries.length]? =
        some ⟨n.log.entries.length + 1, n.currentTerm, type, payload⟩ := by
  unfold RaftNode.propose
  by_cases hr : n.role ≠ .leader
  · rw [if_pos hr]
    exact ⟨a, Moves.refl v a, hL, h, fun hr' => absurd hr' hr⟩
  rw [if_neg hr]
  push Not at hr
  let e : RaftLogEntry := ⟨n.log.entries.length + 1, n.currentTerm, type, payload⟩
  have hlog : (n.log.append n.currentTerm type payload).1.entries = n.log.entries ++ [e] :=
    n.log.entries_append _ _ _
  have hlead : a.leader (a.term v) = some v := by rw [h.term]; exact h.leader hr
  have hm : Moves v a (a.extend v e) := moves_extend hL.inv e hlead
  have hacked : (a.extend v e).acked v n.currentTerm = n.log.entries.length + 1 := by
    rw [← h.term]
    simp [State.extend, State.push, h.log]
  have hleaderLog : (a.extend v e).leaderLog n.currentTerm = n.log.entries ++ [e] := by
    rw [← h.term, ← h.log]
    exact update_self _ _ _
  refine ⟨_, hm, ⟨hL.inv.extend hlead h.term.symm, h.contiguous_push hL rfl⟩, ?_, ?_⟩
  · exact { h with
      log := by
        show (a.extend v e).log v = (n.log.append n.currentTerm type payload).1.entries
        rw [hlog, ← h.log]
        exact update_self _ _ _
      selfAcked := by
        intro _
        show (n.log.append n.currentTerm type payload).1.entries.length ≤
          (a.extend v e).acked v n.currentTerm
        rw [hacked, hlog, length_append, length_singleton]
      candidate := fun hr' => by rw [hr] at hr'; cases hr'
      election := fun hel => (h.election hel).mono hm h.term.ge le_rfl
      nextIndex := by
        intro _ p hp
        obtain ⟨h1, h2⟩ := h.nextIndex hr p hp
        refine ⟨h1, h2.trans ?_⟩
        show _ ≤ (n.log.append n.currentTerm type payload).1.entries.length + 1
        rw [hlog, length_append]
        omega
      matchIndex := fun _ p hp m hmp => (h.matchIndex hr p hp m hmp).trans (hm.acked_le _ _)
      commit := by
        show Committed cfg (a.extend v e) n.currentTerm n.commitIndex
          (n.log.append n.currentTerm type payload).1.entries
        rw [hlog]
        exact h.commit.mono hm le_rfl (prefix_append _ _)
      applied_eq := by
        show tr = (n.log.append n.currentTerm type payload).1.entries.take n.lastApplied
        exact h.applied_grown (hlog ▸ prefix_append _ _) }
  · intro _
    rw [hleaderLog]
    simp [e]

end

/-- A request sends everything from the next index on. -/
theorem RaftNode.appendEntriesRequest_covers {p : NodeId}
    (h : 1 ≤ n.nextIndex p ∧ n.nextIndex p ≤ n.log.entries.length + 1) :
    let req := n.appendEntriesRequest p
    req.entries = n.log.entries.drop req.prevLogIndex ∧
      req.prevLogIndex + req.entries.length = n.log.entries.length ∧
      req.prevLogTerm = n.log.termAt req.prevLogIndex := by
  obtain ⟨i, hi⟩ : ∃ i, n.nextIndex p = i + 1 := ⟨n.nextIndex p - 1, by omega⟩
  have hentries : (n.appendEntriesRequest p).entries = n.log.entries.drop i := by
    simp only [RaftNode.appendEntriesRequest, hi, n.log.getRange_eq]
    split_ifs with hle
    · rfl
    · rw [n.log.lastIndex_eq] at hle
      exact (drop_eq_nil_of_le (by omega)).symm
  have hprev : (n.appendEntriesRequest p).prevLogIndex = i := by
    simp [RaftNode.appendEntriesRequest, hi]
  refine ⟨by rw [hentries, hprev], by rw [hentries, hprev, length_drop]; omega, ?_⟩
  rw [hprev]
  simp only [RaftNode.appendEntriesRequest, hi, Nat.add_sub_cancel]
  split_ifs with h0
  · rw [h0, n.log.termAt_zero]
  · rfl

/-- Every request of a leader tells the truth about its log. -/
theorem NodeSim.appendEntriesRequest (hL : Legal cfg a) (h : NodeSim cfg a v n tr)
    (hv : v ∈ cfg.ids) (hr : n.role = .leader) {p : NodeId} (hp : p ∈ n.peerIds) :
    AppendSim a p (n.appendEntriesRequest p) ∧ CommitSim cfg a (n.appendEntriesRequest p) := by
  obtain ⟨hentries, hlen, hprev⟩ := RaftNode.appendEntriesRequest_covers (h.nextIndex hr p hp)
  have hlog := h.leaderLog hL hr
  constructor
  · refine ⟨?_, ?_, ?_, ?_, ?_⟩
    · show a.leader n.currentTerm = some n.nodeId
      rw [h.id, h.leader hr]
    · show p ≠ n.nodeId
      rw [h.id]
      exact ((cfg.mem_peers v hv p).mp (h.peers ▸ hp)).2
    · show _ ≤ (a.leaderLog n.currentTerm).length
      rw [hlen, hlog]
    · show (n.appendEntriesRequest p).entries =
        ((a.leaderLog n.currentTerm).drop (n.appendEntriesRequest p).prevLogIndex).take _
      rw [hlog, ← hentries, take_length]
    · intro j hj
      show (((a.leaderLog n.currentTerm)[j]?).map RaftLogEntry.term).getD 0 = _
      rw [hprev, hj, n.log.termAt_eq, hlog]
  · refine ⟨?_, ?_⟩
    · rw [hlen]
      exact h.commit.le_length
    · show Committed cfg a n.currentTerm n.commitIndex (a.leaderLog n.currentTerm)
      rw [hlog]
      exact h.commit

/-! ## The follower's side -/

/-- **Log matching**, for any two rooted logs: an entry of the same term at the same
place means the same log up to there. -/
theorem matching_take {l l' : List RaftLogEntry} (hl : Rooted RaftLogEntry.term a l)
    (hl' : Rooted RaftLogEntry.term a l') {i : ℕ} {x y : RaftLogEntry} (hx : l[i]? = some x)
    (hy : l'[i]? = some y) (hxy : x.term = y.term) : l.take (i + 1) = l'.take (i + 1) := by
  have hi : i < l.length := (List.getElem?_eq_some_iff.mp hx).1
  have hi' : i < l'.length := (List.getElem?_eq_some_iff.mp hy).1
  have hsnoc : l.take (i + 1) = l.take i ++ [x] := by rw [take_add_one, hx]; rfl
  have hsnoc' : l'.take (i + 1) = l'.take i ++ [y] := by rw [take_add_one, hy]; rfl
  rw [hsnoc, hsnoc']
  refine hl.matching hl' ?_ ?_ ?_ hxy
  · exact hsnoc ▸ take_prefix _ _
  · exact hsnoc' ▸ take_prefix _ _
  · rw [length_take, length_take]
    omega

section

variable (hL : Legal cfg a) (h : NodeSim cfg a v n tr)
include hL h

/-- The consistency check of `HandleAppendEntries` finds out whether the log has the
leader's entries up to `prevLogIndex`. -/
theorem NodeSim.prev_prefix (hreq : AppendSim a v req)
    (hok : ¬ (0 < req.prevLogIndex ∧ (n.log.lastIndex < req.prevLogIndex ∨
      n.log.termAt req.prevLogIndex ≠ req.prevLogTerm))) :
    (a.leaderLog req.term).take req.prevLogIndex <+: n.log.entries := by
  cases hp : req.prevLogIndex with
  | zero => simp
  | succ i =>
    rw [hp, n.log.lastIndex_eq, n.log.termAt_eq] at hok
    have hi : i < n.log.entries.length := by
      by_contra hcon
      exact hok ⟨Nat.succ_pos i, Or.inl (by omega)⟩
    have hi' : i < (a.leaderLog req.term).length := by
      have := hreq.fits
      omega
    obtain ⟨x, hx⟩ : ∃ x, n.log.entries[i]? = some x := ⟨_, getElem?_eq_getElem hi⟩
    obtain ⟨y, hy⟩ : ∃ y, (a.leaderLog req.term)[i]? = some y := ⟨_, getElem?_eq_getElem hi'⟩
    have hterm : x.term = y.term := by
      have hy' := hreq.prevLogTerm i hp
      by_contra hne
      refine hok ⟨Nat.succ_pos i, Or.inr ?_⟩
      rw [← hy', hx, hy]
      simpa using hne
    rw [← matching_take (h.log ▸ hL.inv.rooted_log v) (hL.inv.rooted_leader _) hx hy hterm]
    exact take_prefix _ _

/-- Merging the entries of a request that fits is taking over the leader's log as
far as the request goes. -/
theorem NodeSim.merge (hreq : AppendSim a v req) (hterm : n.currentTerm = req.term)
    (hr : n.role = .follower)
    (hprev : (a.leaderLog req.term).take req.prevLogIndex <+: n.log.entries) :
    Reaches cfg a v { n with log := n.log.appendEntries req.entries } tr fun a' =>
      (a'.leaderLog req.term).take (req.prevLogIndex + req.entries.length) <+:
          (n.log.appendEntries req.entries).entries ∧
        req.prevLogIndex + req.entries.length ≤ a'.acked v req.term := by
  have hav : a.term v = req.term := h.term.trans hterm
  set m := req.prevLogIndex + req.entries.length with hm
  have hlog : (n.log.appendEntries req.entries).entries =
      overwrite n.log.entries ((a.leaderLog req.term).take m) := by
    have := n.log.appendEntries_eq (hL.contiguous req.term) hprev
      (fun i e f he hf hef =>
        matching_take (h.log ▸ hL.inv.rooted_log v) (hL.inv.rooted_leader _) he hf hef)
      req.entries.length hreq.fits
    rwa [← hreq.entries] at this
  have hlead : a.leader (a.term v) = some req.leaderId := by rw [hav]; exact hreq.leader
  have hlead' : a.leader n.currentTerm ≠ none := by
    rw [hterm, hreq.leader]
    exact Option.some_ne_none _
  have hmv : Moves v a (a.accept v m) := moves_accept v m
  obtain ⟨hcommit, htake⟩ := h.commit.overwrite hL hlead' m
  rw [hterm, ← hlog] at hcommit
  rw [hterm, ← hlog] at htake
  refine ⟨_, hmv, ⟨hL.inv.accept hlead hreq.dst_ne.symm (by rw [hav]; exact hreq.fits),
    hL.contiguous⟩, ?_, ?_, ?_⟩
  · exact { h with
      log := by
        show (a.accept v m).log v = (n.log.appendEntries req.entries).entries
        rw [hlog, ← h.log, ← hav]
        exact update_self _ _ _
      leader := fun hr' => by rw [hr] at hr'; cases hr'
      selfAcked := fun hr' => by rw [hr] at hr'; cases hr'
      candidate := fun hr' => by rw [hr] at hr'; cases hr'
      nextIndex := fun hr' => by rw [hr] at hr'; cases hr'
      matchIndex := fun hr' => by rw [hr] at hr'; cases hr'
      election := fun hel => (h.election hel).mono hmv h.term.ge le_rfl
      commit := by
        rw [← hterm] at hcommit
        exact hcommit.mono hmv le_rfl prefix_rfl
      applied_eq := by
        -- what was applied is committed, and the merge keeps that
        show tr = (n.log.appendEntries req.entries).entries.take n.lastApplied
        have := congrArg (take n.lastApplied) htake
        rw [take_take, take_take, min_eq_left h.applied_le] at this
        rw [this, h.applied_eq] }
  · rw [hlog]
    exact prefix_overwrite _ _
  · rw [← hav]
    simp [State.accept]

/-- The node moves to the term of the request and follows its sender. -/
theorem NodeSim.acceptSender (req : AppendEntriesRequest) (hterm : n.currentTerm ≤ req.term) :
    (n.acceptSender req).currentTerm = req.term ∧ (n.acceptSender req).role = .follower ∧
      Reaches cfg a v (n.acceptSender req) tr fun _ => True := by
  unfold RaftNode.acceptSender
  split_ifs with hlt
  · obtain ⟨hL', hm, hsim⟩ := h.becomeFollower hL (Or.inl hlt)
    exact ⟨rfl, rfl, _, hm, hL', hsim.follow req.leaderId, trivial⟩
  · refine ⟨?_, rfl, a, Moves.refl v a, hL, h.follow req.leaderId, trivial⟩
    show n.currentTerm = req.term
    omega

end

/-- What holds of a node that has just merged a request, and of the abstract
state. -/
structure Merged (req : AppendEntriesRequest) (v : NodeId) (n : RaftNode) (a : Spec) : Prop where
  term : n.currentTerm = req.term
  held : (a.leaderLog req.term).take (req.prevLogIndex + req.entries.length) <+: n.log.entries
  acked : req.prevLogIndex + req.entries.length ≤ a.acked v req.term

section

variable (hL : Legal cfg a) (h : NodeSim cfg a v n tr) (hreq : AppendSim a v req)
include hL h hreq

theorem NodeSim.mergeRequest (hterm : n.currentTerm = req.term) (hr : n.role = .follower) :
    Reaches cfg a v (n.mergeRequest req).1 tr fun a' => (n.mergeRequest req).2 = true →
      Merged req v (n.mergeRequest req).1 a' := by
  unfold RaftNode.mergeRequest
  by_cases hbad : 0 < req.prevLogIndex ∧ (n.log.lastIndex < req.prevLogIndex ∨
      n.log.termAt req.prevLogIndex ≠ req.prevLogTerm)
  · rw [if_pos hbad]
    exact ⟨a, Moves.refl v a, hL, h, fun hf => by cases hf⟩
  rw [if_neg hbad]
  obtain ⟨b, hm, hLb, hb, hpre, hack⟩ := h.merge hL hreq hterm hr (h.prev_prefix hL hreq hbad)
  -- an empty request merges nothing
  have hif : (if req.entries = [] then (n, true)
      else ({ n with log := n.log.appendEntries req.entries }, true)) =
        ({ n with log := n.log.appendEntries req.entries }, true) := by
    split_ifs with hnil
    · rw [hnil]
      rfl
    · rfl
  rw [hif]
  exact ⟨b, hm, hLb, hb, fun _ => ⟨hterm, hpre, hack⟩⟩

theorem NodeSim.followLeader :
    Reaches cfg a v (n.followLeader req).1 tr fun a' => (n.followLeader req).2 = true →
      Merged req v (n.followLeader req).1 a' := by
  unfold RaftNode.followLeader
  by_cases hstale : req.term < n.currentTerm
  · rw [if_pos hstale]
    exact ⟨a, Moves.refl v a, hL, h, fun hf => by cases hf⟩
  rw [if_neg hstale]
  obtain ⟨hterm, hrole, b, hm, hLb, hb, -⟩ :=
    h.acceptSender hL req (Nat.le_of_not_lt hstale)
  obtain ⟨c, hm', hLc, hc, hpost⟩ := hb.mergeRequest hLb (hreq.mono hm) hterm hrole
  exact ⟨c, hm.trans hm', hLc, hc, hpost⟩

theorem NodeSim.handleAppendEntries (hcom : CommitSim cfg a req) :
    Reaches cfg a v (n.handleAppendEntries req).1 tr fun a' =>
      (n.handleAppendEntries req).2.success = true →
        (n.handleAppendEntries req).2.matchIndex ≤ a'.acked v req.term := by
  obtain ⟨b, hm, hLb, hb, hpost⟩ := h.followLeader hL hreq
  unfold RaftNode.handleAppendEntries
  generalize n.followLeader req = r at hb hpost ⊢
  obtain ⟨m, ok⟩ := r
  cases ok with
  | false => exact ⟨b, hm, hLb, hb, fun hf => by cases hf⟩
  | true =>
    obtain ⟨hterm, hpre, hack⟩ : Merged req v m b := hpost rfl
    refine ⟨b, hm, hLb, ?_, fun _ => hack⟩
    refine hb.setCommitIndex (le_max_left _ _) ?_
    rcases max_choice m.commitIndex (min req.leaderCommit m.log.lastIndex) with heq | heq
    · rw [heq]
      exact hb.commit
    · rw [heq]
      -- the leader's commit index lies within what was just merged
      have hcom' := hcom.mono hm
      have : Committed cfg b req.term req.leaderCommit m.log.entries := by
        rcases hcom'.committed with h0 | ⟨T, j, hT, hch, hj, hp⟩
        · exact Or.inl h0
        · have hcut := take_prefix (req.prevLogIndex + req.entries.length) (b.leaderLog req.term)
          refine Or.inr ⟨T, j, hT, hch, hj, (prefix_of_prefix_length_le hp hcut ?_).trans hpre⟩
          have h1 := (hreq.mono hm).fits
          have h2 := hcom.covered
          rw [length_take, length_take]
          omega
      rw [hterm]
      exact this.anti (min_le_left _ _)

end

/-! ## The commit index -/

/-- The loop of `AdvanceCommitIndexLocked` leaves the commit index alone, or moves it
to an entry of the current term that a majority holds. -/
theorem advanceFrom_eq (n : RaftNode) (i : ℕ) :
    n.advanceFrom i = n.commitIndex ∨ ∃ k, n.advanceFrom i = k + 1 ∧ k < i ∧
      n.commitIndex ≤ k ∧ n.log.termAt (k + 1) = n.currentTerm ∧
        n.majorityThreshold ≤ n.replicaCount (k + 1) := by
  induction i with
  | zero => exact Or.inl rfl
  | succ i ih =>
    have hdown : n.advanceFrom i = n.commitIndex ∨ ∃ k, n.advanceFrom i = k + 1 ∧ k < i + 1 ∧
        n.commitIndex ≤ k ∧ n.log.termAt (k + 1) = n.currentTerm ∧
          n.majorityThreshold ≤ n.replicaCount (k + 1) := by
      rcases ih with h | ⟨k, h1, h2, h3⟩
      · exact Or.inl h
      · exact Or.inr ⟨k, h1, by omega, h3⟩
    unfold RaftNode.advanceFrom
    split_ifs with hcommit hterm hmaj
    · exact Or.inl rfl
    · exact hdown
    · exact Or.inr ⟨i, rfl, by omega, by omega, not_not.mp hterm, hmaj⟩
    · exact hdown

section

variable (hL : Legal cfg a) (h : NodeSim cfg a v n tr)
include hL h

/-- An entry of a leader's own term that a majority holds is chosen. -/
theorem NodeSim.chosen (hv : v ∈ cfg.ids) (hr : n.role = .leader) {k : ℕ}
    (hk : k < n.log.entries.length) (hterm : n.log.termAt (k + 1) = n.currentTerm)
    (hmaj : n.majorityThreshold ≤ n.replicaCount (k + 1)) :
    Chosen RaftLogEntry.term cfg.quorums a n.currentTerm (k + 1) := by
  have hlog := h.leaderLog hL hr
  obtain ⟨e, he⟩ : ∃ e, n.log.entries[k]? = some e := ⟨_, getElem?_eq_getElem hk⟩
  rw [n.log.termAt_eq, he] at hterm
  refine ⟨⟨n.log.entries.take k, e, ?_, by simpa using hterm, ?_⟩, ?_⟩
  · rw [hlog, take_add_one, he]
    rfl
  · rw [length_take]
    omega
  -- the leader itself and the peers that are counted
  set R := n.peerIds.filter fun p => decide (∃ m, n.matchIndex p = some m ∧ k + 1 ≤ m) with hR
  have hmem : ∀ p ∈ R, p ∈ cfg.peers v ∧ k + 1 ≤ a.acked p n.currentTerm := by
    intro p hp
    obtain ⟨hp, hm⟩ := mem_filter.mp hp
    obtain ⟨m, hm, hkm⟩ := of_decide_eq_true hm
    exact ⟨h.peers ▸ hp, hkm.trans (h.matchIndex hr p hp m hm)⟩
  have hnot : v ∉ R.toFinset := by
    intro hvR
    exact ((cfg.mem_peers v hv v).mp (hmem v (mem_toFinset.mp hvR)).1).2 rfl
  have hnodup : R.Nodup := by
    rw [hR, h.peers]
    exact (cfg.peers_nodup v).filter _
  refine ⟨insert v R.toFinset, h.isQuorum hv ?_ ?_, ?_⟩
  · refine Finset.insert_subset (mem_toFinset.mpr hv) ?_
    intro p hp
    exact mem_toFinset.mpr
      ((cfg.mem_peers v hv p).mp (hmem p (mem_toFinset.mp hp)).1).1
  · rw [Finset.card_insert_of_notMem hnot, toFinset_card_of_nodup hnodup]
    refine hmaj.trans_eq ?_
    rw [RaftNode.replicaCount, countP_eq_length_filter]
    exact Nat.add_comm _ _
  · intro p hp
    rcases Finset.mem_insert.mp hp with rfl | hp
    · exact (Nat.succ_le_of_lt hk).trans (h.selfAcked hr)
    · exact (hmem p (mem_toFinset.mp hp)).2

theorem NodeSim.advanceCommitIndex (hv : v ∈ cfg.ids) :
    NodeSim cfg a v n.advanceCommitIndex tr := by
  unfold RaftNode.advanceCommitIndex
  by_cases hr : n.role ≠ .leader
  · rw [if_pos hr]
    exact h
  rw [if_neg hr]
  push Not at hr
  rcases advanceFrom_eq n n.log.lastIndex with heq | ⟨k, heq, hk, hck, hterm, hmaj⟩
  · rw [heq]
    exact h
  · rw [heq]
    rw [n.log.lastIndex_eq] at hk
    refine h.setCommitIndex (by omega) (Or.inr ⟨_, _, le_rfl, h.chosen hL hv hr hk hterm hmaj,
      le_rfl, ?_⟩)
    rw [h.leaderLog hL hr]
    exact take_prefix _ _

theorem NodeSim.processAppendEntriesResponse (hv : v ∈ cfg.ids) {p : NodeId}
    {resp : AppendEntriesResponse} {sentTerm : ℕ}
    (hresp : resp.success = true → resp.matchIndex ≤ a.acked p sentTerm) :
    Reaches cfg a v (n.processAppendEntriesResponse p resp sentTerm) tr fun _ => True := by
  unfold RaftNode.processAppendEntriesResponse
  by_cases hlate : resp.term ≠ 0 ∧ n.currentTerm < resp.term
  · rw [if_pos hlate]
    obtain ⟨hL', hm, hsim⟩ := h.becomeFollower hL (Or.inl hlate.2)
    exact ⟨_, hm, hL', hsim, trivial⟩
  rw [if_neg hlate]
  by_cases hstale : sentTerm ≠ n.currentTerm ∨ n.role ≠ .leader
  · rw [if_pos hstale]
    exact ⟨a, Moves.refl v a, hL, h, trivial⟩
  rw [if_neg hstale]
  push Not at hstale
  obtain ⟨hterm, hr⟩ := hstale
  by_cases hfail : resp.success = false
  · rw [if_pos hfail]
    refine ⟨a, Moves.refl v a, hL, ?_, trivial⟩
    refine { h with nextIndex := fun _ q hq => ?_ }
    refine update_mono (P := fun i => 1 ≤ i ∧ i ≤ n.log.entries.length + 1) ?_ (h.nextIndex hr q hq)
    rintro - ⟨h1, h2⟩
    exact ⟨le_max_left _ _, max_le (by omega) ((Nat.sub_le _ _).trans h2)⟩
  rw [if_neg hfail]
  have hack : resp.matchIndex ≤ a.acked p n.currentTerm :=
    hterm ▸ hresp (Bool.not_eq_false _ |>.mp hfail)
  have hlen : resp.matchIndex ≤ n.log.entries.length := hack.trans (h.acked_le hL hr p)
  refine ⟨a, Moves.refl v a, hL, NodeSim.advanceCommitIndex hL ?_ hv, trivial⟩
  refine { h with nextIndex := fun _ q hq => ?_, matchIndex := fun _ q hq m hm => ?_ }
  · refine update_mono (P := fun i => 1 ≤ i ∧ i ≤ n.log.entries.length + 1) ?_ (h.nextIndex hr q hq)
    rintro - ⟨h1, h2⟩
    exact ⟨h1.trans (le_max_left _ _), max_le h2 (Nat.succ_le_succ hlen)⟩
  · have hm' : update n.matchIndex p _ q = some m := hm
    rcases update_eq_cases hm' with ⟨rfl, hm''⟩ | ⟨-, hm'⟩
    · obtain rfl := Option.some.inj hm''
      refine max_le ?_ hack
      cases hq' : n.matchIndex q with
      | none => exact Nat.zero_le _
      | some k => exact h.matchIndex hr q hq k hq'
    · exact h.matchIndex hr q hq m hm'

theorem NodeSim.finishBroadcast (sentTerm successfulPeers : ℕ) (timedOut : Bool) :
    Reaches cfg a v (n.finishBroadcast sentTerm successfulPeers timedOut) tr fun _ => True := by
  have hstay : Reaches cfg a v n tr fun _ => True := ⟨a, Moves.refl v a, hL, h, trivial⟩
  unfold RaftNode.finishBroadcast
  split_ifs with hother hquorum htime
  · exact hstay
  · exact hstay
  · push Not at hother
    obtain ⟨hL', hm, hsim⟩ := h.becomeFollower hL (Or.inr ⟨hother.1, rfl⟩)
    exact ⟨_, hm, hL', hsim, trivial⟩
  · exact hstay

end

/-! ## Applying -/

theorem NodeSim.applyNext (h : NodeSim cfg a v n tr) {e : RaftLogEntry} {m : RaftNode}
    (hn : n.applyNext = some (e, m)) : NodeSim cfg a v m (tr ++ [e]) := by
  unfold RaftNode.applyNext at hn
  split_ifs at hn with hlt
  rw [n.log.get_eq] at hn
  cases he : n.log.entries[n.lastApplied]? with
  | none => simp [he] at hn
  | some x =>
    rw [he] at hn
    cases hn
    refine { h with applied_le := hlt, applied_eq := ?_ }
    show tr ++ [e] = n.log.entries.take (n.lastApplied + 1)
    rw [take_add_one, he, ← h.applied_eq]
    rfl

theorem NodeSim.applyLoop (h : NodeSim cfg a v n tr) (fuel : ℕ) :
    NodeSim cfg a v (RaftNode.applyLoop fuel n).1 (tr ++ (RaftNode.applyLoop fuel n).2) := by
  induction fuel generalizing n tr with
  | zero => simpa [RaftNode.applyLoop] using h
  | succ fuel ih =>
    unfold RaftNode.applyLoop
    cases hn : n.applyNext with
    | none => simpa using h
    | some r =>
      obtain ⟨e, m⟩ := r
      have := ih (h.applyNext hn)
      rwa [append_assoc] at this

end TransDb.Raft
