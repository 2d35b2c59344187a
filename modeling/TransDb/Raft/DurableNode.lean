import TransDb.Raft.LogFile
import TransDb.Raft.Node

/-!
# A Raft node with its files

The handlers of `RaftNode` (`src/raft/raft_node.cpp`) once more, with `raft_log` and
`raft_meta` behind them and every file operation able to fail.  What the source does with
the answers of these operations is what is modelled here: `HandleAppendEntries` does not
see them, and `PersistMeta` has none.

* `DurableNode` — a node and the file of its log; `raft_meta` is in the node.
* `DurableNode.Sound` — the log file holds the log of the node and is synced.
* the `_spec` lemmas — **with no failure a handler does what the one of `RaftNode` does**,
  and leaves the files sound.
-/

namespace TransDb.Raft

open List

/-- A node with its log file. -/
structure DurableNode where
  node : RaftNode
  file : AppendFile

namespace DurableNode

/-- Change the node in memory. -/
def map (d : DurableNode) (g : RaftNode → RaftNode) : DurableNode := { d with node := g d.node }

/-- Its log, in memory and in the file. -/
def disk (d : DurableNode) : DiskLog := ⟨d.node.log, d.file⟩

/-- Its log is changed. -/
def setDisk (d : DurableNode) (l : DiskLog) : DurableNode :=
  ⟨{ d.node with log := l.log }, l.file⟩

/-! ## The handlers -/

/-- `PersistMeta`: the temporary file is opened, written, and renamed; if that fails the
file is removed and it is tried once more. -/
def persistMeta (d : DurableNode) : Faulty DurableNode := do
  match ← nextOutcome with
  | .fail _ => return d
  | .ok =>
    match ← nextOutcome with
    | .fail _ => return d
    | .ok =>
      match ← nextOutcome with
      | .ok => return d.map RaftNode.persistMeta
      | .fail _ =>
        let removed ← nextOutcome
        match ← nextOutcome with
        | .ok => return d.map RaftNode.persistMeta
        | .fail _ =>
          return if removed = .ok then d.map fun n => { n with metaFile := none } else d

/-- `BecomeFollower`. -/
def becomeFollower (d : DurableNode) (term : ℕ) : Faulty DurableNode := do
  let d ← (d.map fun n => { n with currentTerm := term, votedFor := none }).persistMeta
  return d.map fun n => { n with role := .follower, leaderId := RaftNode.noLeader }

/-- `BecomeCandidateLocked`. -/
def becomeCandidate (d : DurableNode) : Faulty DurableNode := do
  let d ← (d.map fun n =>
    { n with
      role := .candidate
      currentTerm := n.currentTerm + 1
      votedFor := some n.nodeId }).persistMeta
  return d.map fun n => { n with leaderId := RaftNode.noLeader }

/-- `BecomeLeaderLocked`; that the entry cannot be appended makes no difference. -/
def becomeLeader (d : DurableNode) : Faulty DurableNode := do
  let (l, _) ← d.disk.append d.node.currentTerm .noop []
  return (d.map fun n =>
    { n with
      role := .leader
      leaderId := n.nodeId
      nextIndex := fun p => if p ∈ n.peerIds then n.log.lastIndex + 1 else n.nextIndex p
      matchIndex := fun p => if p ∈ n.peerIds then some 0 else n.matchIndex p }).setDisk l

/-- `StartElection`. -/
def startElection (d : DurableNode) : Faulty DurableNode := do
  if d.node.role = .leader then return d
  let d ← d.becomeCandidate
  return d.map fun m =>
    { m with
      election := some
        { termSent := m.currentTerm
          lastLogIndex := m.log.lastIndex
          lastLogTerm := m.log.termAt m.log.lastIndex
          peers := m.peerIds
          votes := 1 } }

/-- The election is over. -/
def endElection (d : DurableNode) : DurableNode := d.map fun n => { n with election := none }

/-- The end of the loop body of `StartElection`. -/
def countVotes (d : DurableNode) (el : Election) (rest : List NodeId) (votes : ℕ) :
    Faulty DurableNode := do
  if d.node.majorityThreshold ≤ votes then
    let d ← d.becomeLeader
    return d.endElection
  return d.map fun n => { n with election := some { el with peers := rest, votes := votes } }

/-- The answer of a peer. -/
def handleVoteResponse (d : DurableNode) (el : Election) (rest : List NodeId)
    (resp : RequestVoteResponse) : Faulty DurableNode := do
  if resp.term ≠ 0 ∧ d.node.currentTerm < resp.term then
    let d ← d.becomeFollower resp.term
    return d.endElection
  if d.node.currentTerm ≠ el.termSent ∨ d.node.role ≠ .candidate then
    return d.endElection
  if resp.term ≠ 0 ∧ resp.term < el.termSent then
    return d.map fun n => { n with election := some { el with peers := rest } }
  if resp.term = 0 ∧ resp.voteGranted = false then
    return d.map fun n => { n with election := some { el with peers := rest } }
  d.countVotes el rest (if resp.voteGranted then el.votes + 1 else el.votes)

/-- Move to the term of a request that is ahead. -/
def catchUp (d : DurableNode) (term : ℕ) : Faulty DurableNode :=
  if d.node.currentTerm < term then d.becomeFollower term else return d

/-- `HandleRequestVote`; it does not see whether the vote was written. -/
def handleRequestVote (d : DurableNode) (req : RequestVoteRequest) :
    Faulty (DurableNode × RequestVoteResponse) := do
  if req.term < d.node.currentTerm then return (d, ⟨d.node.currentTerm, false⟩)
  let m ← d.catchUp req.term
  if (m.node.votedFor = none ∨ m.node.votedFor = some req.candidateId) ∧
      m.node.upToDate req = true then
    let m' ← (m.map fun n => { n with votedFor := some req.candidateId }).persistMeta
    return (m', ⟨m'.node.currentTerm, true⟩)
  return (m, ⟨m.node.currentTerm, false⟩)

/-- `Propose`: the new state, and the index of the entry or `0`. -/
def propose (d : DurableNode) (type : RaftEntryType) (payload : Bytes) :
    Faulty (DurableNode × ℕ) := do
  if d.node.role ≠ .leader then return (d, 0)
  let (l, i) ← d.disk.append d.node.currentTerm type payload
  return (d.setDisk l, i)

/-- The sender is the leader. -/
def acceptSender (d : DurableNode) (req : AppendEntriesRequest) : Faulty DurableNode := do
  if d.node.currentTerm < req.term then
    let d ← d.becomeFollower req.term
    return d.map fun n => { n with leaderId := req.leaderId }
  return d.map fun n => { n with role := .follower, leaderId := req.leaderId }

/-- The log does not have the entry before those of the request. -/
def mismatch (n : RaftNode) (req : AppendEntriesRequest) : Prop :=
  0 < req.prevLogIndex ∧ (n.log.lastIndex < req.prevLogIndex ∨
    n.log.termAt req.prevLogIndex ≠ req.prevLogTerm)

instance (n : RaftNode) (req : AppendEntriesRequest) : Decidable (mismatch n req) :=
  inferInstanceAs (Decidable (_ ∧ _))

/-- The entries are merged. -/
def mergeRequest (d : DurableNode) (req : AppendEntriesRequest) : Faulty (DurableNode × Bool) := do
  if mismatch d.node req then return (d, false)
  if req.entries = [] then return (d, true)
  let l ← d.disk.appendEntries req.entries
  return (d.setDisk l, true)

/-- The request is followed. -/
def followLeader (d : DurableNode) (req : AppendEntriesRequest) : Faulty (DurableNode × Bool) := do
  if req.term < d.node.currentTerm then return (d, false)
  let d ← d.acceptSender req
  d.mergeRequest req

/-- `HandleAppendEntries`; the match index is computed from the request. -/
def handleAppendEntries (d : DurableNode) (req : AppendEntriesRequest) :
    Faulty (DurableNode × AppendEntriesResponse) := do
  let (m, ok) ← d.followLeader req
  if ok = false then return (m, ⟨m.node.currentTerm, false, 0⟩)
  return (m.map fun n =>
      { n with commitIndex := max n.commitIndex (min req.leaderCommit n.log.lastIndex) },
    ⟨m.node.currentTerm, true, req.prevLogIndex + req.entries.length⟩)

/-- What `HandleAppendEntries` has done after `k` turns of the loop in `AppendEntries`. -/
def followPartly (d : DurableNode) (req : AppendEntriesRequest) (k : ℕ) : Faulty DurableNode := do
  if req.term < d.node.currentTerm then return d
  let d ← d.acceptSender req
  if mismatch d.node req then return d
  let (l, _) ← (req.entries.take k).foldlM DiskLog.mergeEntry (d.disk, false)
  return d.setDisk l

/-- `ProcessAppendEntriesResponse`. -/
def processAppendEntriesResponse (d : DurableNode) (p : NodeId) (resp : AppendEntriesResponse)
    (sentTerm : ℕ) : Faulty DurableNode :=
  if resp.term ≠ 0 ∧ d.node.currentTerm < resp.term then d.becomeFollower resp.term
  else return d.map fun n => n.processAppendEntriesResponse p resp sentTerm

/-- The broadcast is over. -/
def finishBroadcast (d : DurableNode) (sentTerm successfulPeers : ℕ) (timedOut : Bool) :
    Faulty DurableNode :=
  if d.node.role ≠ .leader ∨ d.node.currentTerm ≠ sentTerm then return d
  else if d.node.majorityThreshold ≤ 1 + successfulPeers then return d
  else if timedOut then d.becomeFollower d.node.currentTerm
  else return d

/-! ## What they do if nothing fails -/

/-- The log file holds the log of the node, all of it synced. -/
structure Sound (d : DurableNode) : Prop where
  holds : d.file.Holds (logBytes d.node.log.entries)
  synced : d.file.pending = []
  storable : ∀ e ∈ d.node.log.entries, e.Storable

/-- A sound node in state `n`. -/
def Is (n : RaftNode) (d : DurableNode) : Prop := d.node = n ∧ d.Sound

variable {d : DurableNode}

/-- The files of a node do not depend on what else it has in memory. -/
theorem Sound.map (h : d.Sound) {g : RaftNode → RaftNode} (hg : (g d.node).log = d.node.log) :
    (d.map g).Sound := by
  have hlog : (d.map g).node.log = d.node.log := hg
  refine ⟨?_, h.synced, ?_⟩
  · rw [hlog]
    exact h.holds
  · rw [hlog]
    exact h.storable

theorem persistMeta_spec (h : d.Sound) : Reliably d.persistMeta (Is d.node.persistMeta) :=
  Reliably.next_bind (Reliably.next_bind (Reliably.next_bind (Reliably.pure ⟨rfl, h.map rfl⟩)))

theorem becomeFollower_spec (h : d.Sound) (term : ℕ) :
    Reliably (d.becomeFollower term) (Is (d.node.becomeFollower term)) := by
  refine (persistMeta_spec (h.map rfl)).bind ?_
  rintro d' ⟨hnode, hd'⟩
  refine Reliably.pure ⟨?_, hd'.map rfl⟩
  show { d'.node with role := .follower, leaderId := RaftNode.noLeader } = _
  rw [hnode]
  rfl

theorem becomeCandidate_spec (h : d.Sound) :
    Reliably d.becomeCandidate (Is d.node.becomeCandidate) := by
  refine (persistMeta_spec (h.map rfl)).bind ?_
  rintro d' ⟨hnode, hd'⟩
  refine Reliably.pure ⟨?_, hd'.map rfl⟩
  show { d'.node with leaderId := RaftNode.noLeader } = _
  rw [hnode]
  rfl

theorem Sound.extends (h : d.Sound) :
    DiskLog.Extends (logBytes d.node.log.entries) d.node.log.entries d.disk :=
  DiskLog.Extends.self h.holds

variable {n : RaftNode} {type : RaftEntryType} {payload : Bytes} {req : AppendEntriesRequest}

/-- The file after an operation on the log. -/
theorem Sound.setDisk {l : DiskLog} (hholds : l.file.Holds (logBytes l.log.entries))
    (hsynced : l.file.pending = []) (hstorable : ∀ e ∈ l.log.entries, e.Storable) :
    Sound ⟨{ n with log := l.log }, l.file⟩ :=
  ⟨hholds, hsynced, hstorable⟩

theorem append_spec (h : d.Sound) {term : ℕ}
    (he : RaftLogEntry.Storable ⟨d.node.log.expect, term, type, payload⟩) :
    Reliably (d.disk.append term type payload) fun r =>
      (r.1.log, r.2) = d.node.log.append term type payload ∧
        r.1.file.Holds (logBytes r.1.log.entries) ∧ r.1.file.pending = [] ∧
        ∀ e ∈ r.1.log.entries, e.Storable := by
  refine (DiskLog.append_spec h.extends term type payload).mono ?_
  rintro ⟨l, i⟩ ⟨hlog, hext, hsynced⟩
  refine ⟨hlog, hext.holds, hsynced, ?_⟩
  have hl : l.log = (d.node.log.append term type payload).1 := congrArg Prod.fst hlog
  show ∀ e ∈ l.log.entries, e.Storable
  rw [hl, RaftLog.entries_append]
  intro e hmem
  rcases mem_append.mp hmem with hold | hnew
  · exact h.storable e hold
  · obtain rfl := mem_singleton.mp hnew
    rw [RaftLog.expect_eq] at he
    exact he

theorem becomeLeader_spec (h : d.Sound)
    (he : RaftLogEntry.Storable ⟨d.node.log.expect, d.node.currentTerm, .noop, []⟩) :
    Reliably d.becomeLeader (Is d.node.becomeLeader) := by
  refine (append_spec h he).bind ?_
  rintro ⟨l, i⟩ ⟨hlog, hholds, hsynced, hstorable⟩
  have hl : l.log = (d.node.log.append d.node.currentTerm .noop []).1 := congrArg Prod.fst hlog
  refine Reliably.pure ⟨?_, Sound.setDisk hholds hsynced hstorable⟩
  show ({ d.node with
      role := .leader
      leaderId := d.node.nodeId
      nextIndex := _
      matchIndex := _
      log := l.log } : RaftNode) = _
  rw [hl]
  rfl

theorem Is.endElection (h : Is n d) : Is { n with election := none } d.endElection :=
  ⟨by rw [← h.1]; rfl, h.2.map rfl⟩

section

variable (h : d.Sound)
include h

theorem startElection_spec : Reliably d.startElection (Is d.node.startElection) := by
  unfold startElection RaftNode.startElection
  split_ifs
  · exact Reliably.pure ⟨rfl, h⟩
  · refine (becomeCandidate_spec h).bind ?_
    rintro d' ⟨hnode, hd'⟩
    exact Reliably.pure ⟨by rw [← hnode]; rfl, hd'.map rfl⟩

theorem countVotes_spec (el : Election) (rest : List NodeId) (votes : ℕ)
    (he : RaftLogEntry.Storable ⟨d.node.log.expect, d.node.currentTerm, .noop, []⟩) :
    Reliably (d.countVotes el rest votes)
      (Is (if d.node.majorityThreshold ≤ votes then { d.node.becomeLeader with election := none }
        else { d.node with election := some { el with peers := rest, votes := votes } })) := by
  unfold countVotes
  split_ifs
  · exact (becomeLeader_spec h he).bind fun d' hd' => Reliably.pure hd'.endElection
  · exact Reliably.pure ⟨rfl, h.map rfl⟩

theorem handleVoteResponse_spec (el : Election) (rest : List NodeId) (resp : RequestVoteResponse)
    (he : RaftLogEntry.Storable ⟨d.node.log.expect, d.node.currentTerm, .noop, []⟩) :
    Reliably (d.handleVoteResponse el rest resp) (Is (d.node.handleVoteResponse el rest resp)) := by
  unfold handleVoteResponse RaftNode.handleVoteResponse
  by_cases hahead : resp.term ≠ 0 ∧ d.node.currentTerm < resp.term
  · rw [if_pos hahead, if_pos hahead]
    exact (becomeFollower_spec h _).bind fun d' hd' => Reliably.pure hd'.endElection
  rw [if_neg hahead, if_neg hahead]
  by_cases hover : d.node.currentTerm ≠ el.termSent ∨ d.node.role ≠ .candidate
  · rw [if_pos hover, if_pos hover]
    exact Reliably.pure ⟨rfl, h.map rfl⟩
  rw [if_neg hover, if_neg hover]
  by_cases hold : resp.term ≠ 0 ∧ resp.term < el.termSent
  · rw [if_pos hold, if_pos hold]
    exact Reliably.pure ⟨rfl, h.map rfl⟩
  rw [if_neg hold, if_neg hold]
  by_cases hlost : resp.term = 0 ∧ resp.voteGranted = false
  · rw [if_pos hlost, if_pos hlost]
    exact Reliably.pure ⟨rfl, h.map rfl⟩
  rw [if_neg hlost, if_neg hlost]
  exact countVotes_spec h el rest _ he

theorem catchUp_spec (term : ℕ) :
    Reliably (d.catchUp term)
      (Is (if d.node.currentTerm < term then d.node.becomeFollower term else d.node)) := by
  unfold catchUp
  split_ifs
  · exact becomeFollower_spec h term
  · exact Reliably.pure ⟨rfl, h⟩

theorem handleRequestVote_spec (req : RequestVoteRequest) :
    Reliably (d.handleRequestVote req) fun r =>
      (r.1.node, r.2) = d.node.handleRequestVote req ∧ r.1.Sound := by
  unfold handleRequestVote RaftNode.handleRequestVote
  by_cases hterm : req.term < d.node.currentTerm
  · rw [if_pos hterm, if_pos hterm]
    exact Reliably.pure ⟨rfl, h⟩
  rw [if_neg hterm, if_neg hterm]
  refine (catchUp_spec h req.term).bind ?_
  rintro m ⟨hm, hsound⟩
  simp only [← hm]
  split_ifs
  · refine (persistMeta_spec (hsound.map rfl)).bind ?_
    rintro m' ⟨hm', hsound'⟩
    refine Reliably.pure ⟨?_, hsound'⟩
    simp only [hm']
    rfl
  · exact Reliably.pure ⟨rfl, hsound⟩

theorem propose_spec
    (he : RaftLogEntry.Storable ⟨d.node.log.expect, d.node.currentTerm, type, payload⟩) :
    Reliably (d.propose type payload) fun r =>
      (r.1.node, r.2) = d.node.propose type payload ∧ r.1.Sound := by
  unfold propose RaftNode.propose
  split_ifs
  · exact Reliably.pure ⟨rfl, h⟩
  · refine (append_spec h he).bind ?_
    rintro ⟨l, i⟩ ⟨hlog, hholds, hsynced, hstorable⟩
    refine Reliably.pure ⟨?_, Sound.setDisk hholds hsynced hstorable⟩
    simp only [← hlog]
    rfl

theorem acceptSender_spec (req : AppendEntriesRequest) :
    Reliably (d.acceptSender req) (Is (d.node.acceptSender req)) := by
  unfold acceptSender RaftNode.acceptSender
  split_ifs
  · refine (becomeFollower_spec h _).bind ?_
    rintro d' ⟨hnode, hd'⟩
    exact Reliably.pure ⟨by rw [← hnode]; rfl, hd'.map rfl⟩
  · exact Reliably.pure ⟨rfl, h.map rfl⟩

end

/-- The entries of a merged log are old or come with the request. -/
theorem mem_mergeEntry {l : RaftLog} {x e : RaftLogEntry} (h : e ∈ (l.mergeEntry x).entries) :
    e ∈ l.entries ∨ e = x := by
  have hpush : ∀ {l : RaftLog}, e ∈ (l.pushNext x).entries → e ∈ l.entries ∨ e = x := by
    intro l h
    unfold RaftLog.pushNext at h
    split_ifs at h
    · simpa using h
    · exact .inl h
  unfold RaftLog.mergeEntry at h
  simp only at h
  split_ifs at h
  · exact (hpush h).imp_left mem_of_mem_take
  · exact .inl h
  · exact hpush h

theorem mem_appendEntries {es : List RaftLogEntry} {e : RaftLogEntry} :
    ∀ {l : RaftLog}, e ∈ (l.appendEntries es).entries → e ∈ l.entries ∨ e ∈ es := by
  induction es with
  | nil => exact fun h => .inl h
  | cons x es ih =>
    intro l h
    rcases ih (show e ∈ ((l.mergeEntry x).appendEntries es).entries from h) with hold | hnew
    · rcases mem_mergeEntry hold with hl | rfl
      · exact .inl hl
      · exact .inr mem_cons_self
    · exact .inr (mem_cons_of_mem x hnew)

theorem mergeRequest_of_mismatch (h : mismatch n req) : n.mergeRequest req = (n, false) :=
  if_pos h

theorem mergeRequest_of_match (h : ¬ mismatch n req) :
    n.mergeRequest req = if req.entries = [] then (n, true)
      else ({ n with log := n.log.appendEntries req.entries }, true) :=
  if_neg h

section

variable (h : d.Sound) (he : ∀ e ∈ req.entries, e.Storable)
include h he

theorem mergeRequest_spec :
    Reliably (d.mergeRequest req) fun r =>
      (r.1.node, r.2) = d.node.mergeRequest req ∧ r.1.Sound := by
  unfold mergeRequest
  by_cases hbad : mismatch d.node req
  · rw [if_pos hbad, mergeRequest_of_mismatch hbad]
    exact Reliably.pure ⟨rfl, h⟩
  rw [if_neg hbad, mergeRequest_of_match hbad]
  split_ifs
  · exact Reliably.pure ⟨rfl, h⟩
  refine (DiskLog.appendEntries_spec h.extends req.entries).bind ?_
  rintro l ⟨hlog, hsynced, hfile⟩
  have hholds : l.file.Holds (logBytes l.log.entries) := by
    split_ifs at hfile
    · exact hfile
    · exact DiskLog.Extends.holds hfile
  refine Reliably.pure ⟨?_, Sound.setDisk hholds hsynced ?_⟩
  · show (({ d.node with log := l.log } : RaftNode), true) = _
    rw [hlog]
    rfl
  · rw [hlog]
    intro e hmem
    exact (mem_appendEntries hmem).elim (h.storable e) (he e)

theorem followLeader_spec :
    Reliably (d.followLeader req) fun r =>
      (r.1.node, r.2) = d.node.followLeader req ∧ r.1.Sound := by
  unfold followLeader RaftNode.followLeader
  split_ifs
  · exact Reliably.pure ⟨rfl, h⟩
  refine (acceptSender_spec h req).bind ?_
  rintro d' ⟨hnode, hd'⟩
  rw [← hnode]
  exact mergeRequest_spec hd' he

/-- **`HandleAppendEntries` without a failure.** -/
theorem handleAppendEntries_spec :
    Reliably (d.handleAppendEntries req) fun r =>
      (r.1.node, r.2) = d.node.handleAppendEntries req ∧ r.1.Sound := by
  unfold handleAppendEntries RaftNode.handleAppendEntries
  refine (followLeader_spec h he).bind ?_
  rintro ⟨m, ok⟩ ⟨hfollow, hm⟩
  rw [← hfollow]
  cases ok with
  | false => exact Reliably.pure ⟨rfl, hm⟩
  | true =>
    refine Reliably.pure ⟨rfl, ?_⟩
    dsimp only
    exact Sound.map hm rfl

end

theorem processAppendEntriesResponse_spec (h : d.Sound) (p : NodeId)
    (resp : AppendEntriesResponse) (sentTerm : ℕ) :
    Reliably (d.processAppendEntriesResponse p resp sentTerm)
      (Is (d.node.processAppendEntriesResponse p resp sentTerm)) := by
  unfold processAppendEntriesResponse
  split_ifs with hterm
  · rw [RaftNode.processAppendEntriesResponse, if_pos hterm]
    exact becomeFollower_spec h _
  · refine Reliably.pure ⟨rfl, h.map ?_⟩
    unfold RaftNode.processAppendEntriesResponse RaftNode.advanceCommitIndex
    rw [if_neg hterm]
    split_ifs <;> rfl

theorem finishBroadcast_spec (h : d.Sound) (sentTerm successfulPeers : ℕ) (timedOut : Bool) :
    Reliably (d.finishBroadcast sentTerm successfulPeers timedOut)
      (Is (d.node.finishBroadcast sentTerm successfulPeers timedOut)) := by
  unfold finishBroadcast RaftNode.finishBroadcast
  split_ifs
  · exact Reliably.pure ⟨rfl, h⟩
  · exact Reliably.pure ⟨rfl, h⟩
  · exact becomeFollower_spec h _
  · exact Reliably.pure ⟨rfl, h⟩

end DurableNode

/-! ## Crashes in the middle -/

/-- The bytes are those of some entries. -/
def Whole (bytes : Bytes) : Prop := entryFraming.encodeAll (load bytes) = bytes

instance (bytes : Bytes) : Decidable (Whole bytes) := inferInstanceAs (Decidable (_ = _))

theorem whole_take {es : List RaftLogEntry} (hes : ∀ e ∈ es, e.Storable) {n : ℕ}
    (h : Whole ((logBytes es).take n)) : ∃ i, (logBytes es).take n = logBytes (es.take i) := by
  have hload : load ((logBytes es).take n) = entryFraming.contained n (es.map RaftLogEntry.toFile) :=
    entryFraming.readAll_take (fits_toFile hes) n
  have htake := prefix_iff_eq_take.mp
    (entryFraming.contained_prefix n (es.map RaftLogEntry.toFile))
  rw [Whole, hload, htake] at h
  exact ⟨_, by rw [← h, logBytes, map_take]⟩

namespace DiskLog

variable {B : Bytes} {K : List RaftLogEntry} {d : DiskLog}

/-- An entry that does not conflict is put at the end or passed over. -/
theorem mergeEntry_grows {l : RaftLog} {e : RaftLogEntry} (h : conflicts l e = false) :
    (l.mergeEntry e).entries = l.entries ∨ (l.mergeEntry e).entries = l.entries ++ [e] := by
  have hpush : (l.pushNext e).entries = l.entries ∨ (l.pushNext e).entries = l.entries ++ [e] := by
    unfold RaftLog.pushNext
    split_ifs
    · exact .inr rfl
    · exact .inl rfl
  unfold RaftLog.mergeEntry
  by_cases hin : l.entries ≠ [] ∧ e.index ≤ l.lastIndex
  · have hterm : ¬ (l.entries[e.index - l.firstIndex]?.map RaftLogEntry.term).getD 0 ≠ e.term :=
      fun hterm => of_decide_eq_false h ⟨hin.1, hin.2, hterm⟩
    simp only [if_pos hin, if_neg hterm, true_or]
  · rw [if_neg hin]
    exact hpush

theorem prefix_appendEntries (es : List RaftLogEntry) :
    ∀ {l : RaftLog}, rewrites l es = false → l.entries <+: (l.appendEntries es).entries := by
  induction es with
  | nil => exact fun _ => prefix_rfl
  | cons e es ih =>
    intro l h
    obtain ⟨hfirst, hrest⟩ := Bool.or_eq_false_iff.mp h
    have hstep : l.entries <+: (l.mergeEntry e).entries := by
      rcases mergeEntry_grows hfirst with heq | heq
      · rw [heq]
      · rw [heq]
        exact prefix_append _ _
    exact hstep.trans (ih hrest)

/-- Everything between the log and the merged log was the log after some turns. -/
theorem exists_turns (es : List RaftLogEntry) :
    ∀ {l : RaftLog} {P : List RaftLogEntry}, rewrites l es = false → l.entries <+: P →
      P <+: (l.appendEntries es).entries → ∃ j, (l.appendEntries (es.take j)).entries = P := by
  induction es with
  | nil => exact fun _ hlo hhi => ⟨0, hlo.eq_of_length_le hhi.length_le⟩
  | cons e es ih =>
    intro l P h hlo hhi
    obtain ⟨hfirst, hrest⟩ := Bool.or_eq_false_iff.mp h
    rcases hlo.length_le.eq_or_lt with heq | hlt
    · exact ⟨0, hlo.eq_of_length heq⟩
    -- the first turn adds no more than `P` has
    have hnext : (l.mergeEntry e).entries <+: P := by
      refine prefix_of_prefix_length_le (prefix_appendEntries es hrest) hhi ?_
      rcases mergeEntry_grows hfirst with hsame | hgrown
      · rw [hsame]
        exact hlt.le
      · rw [hgrown, length_append, length_singleton]
        exact hlt
    obtain ⟨j, hj⟩ := ih hrest hnext hhi
    exact ⟨j + 1, hj⟩

theorem rewrites_concat (es : List RaftLogEntry) (e : RaftLogEntry) :
    ∀ l : RaftLog, rewrites l (es ++ [e]) = (rewrites l es || conflicts (l.appendEntries es) e) := by
  induction es with
  | nil =>
    intro l
    simp [rewrites, RaftLog.appendEntries]
  | cons x es ih =>
    intro l
    rw [cons_append, rewrites, rewrites, ih, Bool.or_assoc]
    rfl

/-- **The file during the loop**: it goes with memory up to the first conflict, and stays as
it is from then on. -/
theorem merge_file (h : Extends B K d) (es : List RaftLogEntry) :
    Reliably (es.foldlM mergeEntry (d, false)) fun p =>
      p.1.file.durable = d.file.durable ∧
        ∃ j, rewrites d.log (es.take j) = false ∧
          Extends B K ⟨d.log.appendEntries (es.take j), p.1.file⟩ := by
  obtain ⟨new, -, hfile⟩ := id h
  refine (Reliably.foldlM (I := fun done p => p.1.log = d.log.appendEntries done ∧
    p.2 = rewrites d.log done ∧ Merging B K p.1 p.2 ∧ p.1.file.durable = d.file.durable ∧
    ∃ j ≤ done.length, rewrites d.log (done.take j) = false ∧
      Extends B K ⟨d.log.appendEntries (done.take j), p.1.file⟩) ?_ ?_).mono ?_
  · exact ⟨rfl, rfl, ⟨⟨_, hfile⟩, fun _ => h⟩, rfl, 0, le_refl _, rfl, h⟩
  · rintro done e rest ⟨d', r⟩ - ⟨hlog, hr, hmerging, hdurable, j, hj, hrw, hext⟩
    simp only at hlog hr hdurable
    refine (mergeEntry_spec hmerging e).mono ?_
    rintro ⟨d'', r'⟩ ⟨hlog', hr', hmerging', hdurable', hsame⟩
    simp only at hlog' hr' hdurable' hsame
    have hlog'' : d''.log = d.log.appendEntries (done ++ [e]) := by
      rw [hlog', hlog, RaftLog.appendEntries, RaftLog.appendEntries, foldl_append]
      rfl
    have hr'' : r' = rewrites d.log (done ++ [e]) := by rw [hr', hr, hlog, rewrites_concat]
    refine ⟨hlog'', hr'', hmerging', hdurable'.trans hdurable, ?_⟩
    cases hcase : r' with
    | true =>
      -- the file is not touched any more
      refine ⟨j, hj.trans (by simp), ?_, ?_⟩
      · rw [take_append_of_le_length hj]
        exact hrw
      · rw [take_append_of_le_length hj]
        show Extends B K ⟨_, d''.file⟩
        rw [hsame hcase]
        exact hext
    | false =>
      refine ⟨(done ++ [e]).length, le_refl _, ?_, ?_⟩
      · rw [take_length, ← hr'', hcase]
      · rw [take_length, ← hlog'']
        exact hmerging'.follows hcase
  · rintro p ⟨-, -, -, hdurable, j, -, hrw, hext⟩
    exact ⟨hdurable, j, hrw, hext⟩

/-- **A crash during the loop** that leaves whole entries leaves the log as it was after
some turns. -/
theorem merge_crash (hholds : d.file.Holds (logBytes d.log.entries)) (hsynced : d.file.pending = [])
    {es : List RaftLogEntry} (hes : ∀ e ∈ es, e.Storable)
    (hlog : ∀ e ∈ d.log.entries, e.Storable) :
    Reliably (es.foldlM mergeEntry (d, false)) fun p =>
      ∀ kept, Whole (p.1.file.pending.take kept) →
        ∃ j, p.1.file.durable ++ p.1.file.pending.take kept =
          logBytes (d.log.appendEntries (es.take j)).entries := by
  refine (merge_file (Extends.self hholds) es).mono ?_
  rintro ⟨d', r⟩ ⟨hdurable, j, hrw, new, hnew, hfile⟩ kept hwhole
  simp only at hdurable hnew hfile hwhole ⊢
  have hpending : d'.file.pending = logBytes new := by
    have hbytes : d'.file.durable ++ d'.file.pending = logBytes d.log.entries ++ logBytes new :=
      hfile.bytes
    rw [hdurable, hholds.durable_eq hsynced] at hbytes
    exact append_cancel_left hbytes
  have hstorable : ∀ e ∈ new, e.Storable := by
    intro e he
    have hmem : e ∈ (d.log.appendEntries (es.take j)).entries := by
      rw [hnew]
      exact mem_append_right _ he
    rcases DurableNode.mem_appendEntries hmem with hold | hin
    · exact hlog e hold
    · exact hes e (mem_of_mem_take hin)
  rw [hpending] at hwhole ⊢
  obtain ⟨i, hi⟩ := whole_take hstorable hwhole
  obtain ⟨j', hj'⟩ := exists_turns (es.take j) (P := d.log.entries ++ new.take i) hrw
    (prefix_append _ _)
    (by rw [hnew]; exact (prefix_append_right_inj _).mpr <| take_prefix i new)
  refine ⟨min j' j, ?_⟩
  rw [← take_take, hj', hi, hdurable, hholds.durable_eq hsynced, logBytes_append]

end DiskLog

namespace DurableNode

variable {d : DurableNode}

/-- The files hold what the node `n` would start again from. -/
structure LeavesAs (n : RaftNode) (d : DurableNode) (kept : ℕ) : Prop where
  restart : ∀ l, { d.node with log := l }.restart = { n with log := l }.restart
  bytes : d.file.durable ++ d.file.pending.take kept = logBytes n.log.entries
  storable : ∀ e ∈ n.log.entries, e.Storable

theorem Sound.leavesAs (h : d.Sound) (kept : ℕ) : LeavesAs d.node d kept := by
  refine ⟨fun l => rfl, ?_, h.storable⟩
  rw [h.synced, take_nil, append_nil, h.holds.durable_eq h.synced]

/-- The part of a request that has been merged when the node crashes. -/
theorem mergeRequest_take (n : RaftNode) (req : AppendEntriesRequest) (j : ℕ)
    (h : ¬ mismatch n req) :
    (n.mergeRequest { req with entries := req.entries.take j }).1 =
      { n with log := n.log.appendEntries (req.entries.take j) } := by
  rw [mergeRequest_of_match (show ¬ mismatch n { req with entries := req.entries.take j } from h)]
  split_ifs with hnil
  · have hnil : req.entries.take j = [] := hnil
    rw [hnil]
    rfl
  · rfl

/-- **A crash in `HandleAppendEntries`** that leaves whole entries leaves the node with the
first entries of the request, or none. -/
theorem followPartly_spec (h : d.Sound) {req : AppendEntriesRequest}
    (he : ∀ e ∈ req.entries, e.Storable) (k : ℕ) :
    Reliably (d.followPartly req k) fun d' =>
      ∀ kept, Whole (d'.file.pending.take kept) →
        ∃ j, LeavesAs (d.node.followLeader { req with entries := req.entries.take j }).1 d' kept := by
  unfold followPartly RaftNode.followLeader
  by_cases hstale : req.term < d.node.currentTerm
  · rw [if_pos hstale]
    refine Reliably.pure fun kept _ => ⟨0, ?_⟩
    rw [if_pos hstale]
    exact h.leavesAs kept
  rw [if_neg hstale]
  refine (acceptSender_spec h req).bind ?_
  rintro m ⟨hm, hsound⟩
  have hpure : ∀ j, (if req.term < d.node.currentTerm then (d.node, false)
      else (d.node.acceptSender { req with entries := req.entries.take j }).mergeRequest
        { req with entries := req.entries.take j }).1 =
      (m.node.mergeRequest { req with entries := req.entries.take j }).1 := by
    intro j
    rw [if_neg hstale, hm]
    rfl
  by_cases hbad : mismatch m.node req
  · rw [if_pos hbad]
    refine Reliably.pure fun kept _ => ⟨0, ?_⟩
    show LeavesAs (if req.term < d.node.currentTerm then (d.node, false) else _).1 m kept
    rw [hpure 0, mergeRequest_of_mismatch
      (show mismatch m.node { req with entries := req.entries.take 0 } from hbad)]
    exact hsound.leavesAs kept
  rw [if_neg hbad]
  refine (DiskLog.merge_crash (d := m.disk) hsound.holds hsound.synced
    (fun e hmem => he e (mem_of_mem_take hmem)) hsound.storable).bind ?_
  rintro ⟨l, r⟩ hcrash
  refine Reliably.pure fun kept hwhole => ?_
  obtain ⟨j, hj⟩ := hcrash kept hwhole
  refine ⟨min j k, ?_⟩
  show LeavesAs (if req.term < d.node.currentTerm then (d.node, false) else _).1 _ kept
  rw [hpure (min j k), mergeRequest_take m.node req _ hbad]
  rw [take_take] at hj
  refine ⟨fun l => rfl, hj, fun e hmem => ?_⟩
  rcases mem_appendEntries hmem with hold | hnew
  · exact hsound.storable e hold
  · exact he e (mem_of_mem_take hnew)

end DurableNode

end TransDb.Raft
