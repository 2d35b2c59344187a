import TransDb.Core.Machine
import TransDb.Raft.Log

/-!
# One Raft node

The model of `RaftNode` (`src/raft/raft_node.cpp`): the state of a node and what
each of its critical sections does to it.  A function of the source that waits
for an RPC in the middle is cut there: `StartElection` becomes `startElection`
and one `handleVoteResponse` per peer, with the local variables of the call kept
in `Election`; `SendAppendEntriesToAll` becomes the requests it builds, one
`processAppendEntriesResponse` per answer, and `finishBroadcast`.

Clocks, the proposal queue and the condition variables decide only *when* a step
is taken, so they are not part of the state: every step is possible at any time.
File writes succeed, so the log file is the log, and `metaFile` is `raft_meta`.
-/

namespace TransDb.Raft

open Function

abbrev NodeId := ℕ

/-- The role of a node. -/
inductive RaftRole where
  | follower
  | candidate
  | leader
  deriving DecidableEq, Repr

/-- Entries for a follower. -/
structure AppendEntriesRequest where
  term : ℕ
  leaderId : NodeId
  prevLogIndex : ℕ
  prevLogTerm : ℕ
  entries : List RaftLogEntry
  leaderCommit : ℕ
  deriving DecidableEq, Repr

/-- What the follower answers. -/
structure AppendEntriesResponse where
  term : ℕ
  success : Bool
  matchIndex : ℕ
  deriving DecidableEq, Repr

/-- A candidate asks for a vote. -/
structure RequestVoteRequest where
  term : ℕ
  candidateId : NodeId
  lastLogIndex : ℕ
  lastLogTerm : ℕ
  deriving DecidableEq, Repr

/-- The vote, or none. -/
structure RequestVoteResponse where
  term : ℕ
  voteGranted : Bool
  deriving DecidableEq, Repr

/-- What the transport hands back when a call fails. -/
def AppendEntriesResponse.lost : AppendEntriesResponse := ⟨0, false, 0⟩

@[inherit_doc AppendEntriesResponse.lost]
def RequestVoteResponse.lost : RequestVoteResponse := ⟨0, false⟩

/-- The local variables of a `StartElection` call while it waits for an answer:
the first of `peers` is being asked, the others are still to come. -/
structure Election where
  termSent : ℕ
  lastLogIndex : ℕ
  lastLogTerm : ℕ
  peers : List NodeId
  votes : ℕ

/-- A node: its members, and its file. -/
structure RaftNode where
  nodeId : NodeId
  peerIds : List NodeId
  currentTerm : ℕ
  votedFor : Option NodeId
  /-- The contents of `raft_meta`, once it has been written. -/
  metaFile : Option (ℕ × Option NodeId)
  log : RaftLog
  role : RaftRole
  leaderId : NodeId
  commitIndex : ℕ
  lastApplied : ℕ
  nextIndex : NodeId → ℕ
  matchIndex : NodeId → Option ℕ
  election : Option Election

namespace RaftNode

/-- `UINT32_MAX`: no leader is known. -/
def noLeader : NodeId := 2 ^ 32 - 1

/-- A node that is constructed: everything in memory is fresh, the term, the vote
and the log are what the files hold. -/
def boot (nodeId : NodeId) (peerIds : List NodeId) (metaFile : Option (ℕ × Option NodeId))
    (log : RaftLog) : RaftNode where
  nodeId := nodeId
  peerIds := peerIds
  currentTerm := (metaFile.map Prod.fst).getD 0
  votedFor := (metaFile.map Prod.snd).getD none
  metaFile := metaFile
  log := log
  role := .follower
  leaderId := noLeader
  commitIndex := 0
  lastApplied := 0
  nextIndex := fun _ => 0
  matchIndex := fun _ => none
  election := none

/-- A crash followed by a start from the same directory. -/
def restart (n : RaftNode) : RaftNode := boot n.nodeId n.peerIds n.metaFile n.log

/-- A restart finds the term and the vote that `raft_meta` holds. -/
theorem restart_recorded {n : RaftNode}
    (h : n.metaFile.getD (0, none) = (n.currentTerm, n.votedFor)) :
    n.restart.currentTerm = n.currentTerm ∧ n.restart.votedFor = n.votedFor := by
  have hterm := congrArg Prod.fst h
  have hvote := congrArg Prod.snd h
  cases hf : n.metaFile <;> simp only [restart, boot, hf] <;> rw [hf] at hterm hvote <;>
    exact ⟨hterm, hvote⟩

/-- `MajorityThreshold`. -/
def majorityThreshold (n : RaftNode) : ℕ := (n.peerIds.length + 1) / 2 + 1

/-- `PersistMeta`. -/
def persistMeta (n : RaftNode) : RaftNode :=
  { n with metaFile := some (n.currentTerm, n.votedFor) }

/-! ## Roles -/

/-- `BecomeFollower`. -/
def becomeFollower (n : RaftNode) (term : ℕ) : RaftNode :=
  { persistMeta { n with currentTerm := term, votedFor := none } with
    role := .follower
    leaderId := noLeader }

/-- `BecomeCandidateLocked`. -/
def becomeCandidate (n : RaftNode) : RaftNode :=
  { persistMeta { n with
      role := .candidate
      currentTerm := n.currentTerm + 1
      votedFor := some n.nodeId } with
    leaderId := noLeader }

/-- `BecomeLeaderLocked`. -/
def becomeLeader (n : RaftNode) : RaftNode :=
  { n with
    role := .leader
    leaderId := n.nodeId
    nextIndex := fun p => if p ∈ n.peerIds then n.log.lastIndex + 1 else n.nextIndex p
    matchIndex := fun p => if p ∈ n.peerIds then some 0 else n.matchIndex p
    log := (n.log.append n.currentTerm .noop []).1 }

/-! ## Elections -/

/-- The critical section at the start of `StartElection`. -/
def startElection (n : RaftNode) : RaftNode :=
  if n.role = .leader then n
  else
    let m := n.becomeCandidate
    { m with
      election := some
        { termSent := m.currentTerm
          lastLogIndex := m.log.lastIndex
          lastLogTerm := m.log.termAt m.log.lastIndex
          peers := m.peerIds
          votes := 1 } }

/-- The request of the loop of `StartElection` that is on its way. -/
def Election.request (el : Election) (nodeId : NodeId) : RequestVoteRequest :=
  ⟨el.termSent, nodeId, el.lastLogIndex, el.lastLogTerm⟩

/-- The rest of the loop body of `StartElection`, once the first of the peers has
answered; `rest` are the peers still to be asked. -/
def handleVoteResponse (n : RaftNode) (el : Election) (rest : List NodeId)
    (resp : RequestVoteResponse) : RaftNode :=
  if resp.term ≠ 0 ∧ n.currentTerm < resp.term then
    { n.becomeFollower resp.term with election := none }
  else if n.currentTerm ≠ el.termSent ∨ n.role ≠ .candidate then
    { n with election := none }
  else if resp.term ≠ 0 ∧ resp.term < el.termSent then
    { n with election := some { el with peers := rest } }
  else if resp.term = 0 ∧ resp.voteGranted = false then
    { n with election := some { el with peers := rest } }
  else
    let votes := if resp.voteGranted then el.votes + 1 else el.votes
    if n.majorityThreshold ≤ votes then
      { n.becomeLeader with election := none }
    else
      { n with election := some { el with peers := rest, votes := votes } }

/-- Whether the candidate's log is as up to date as the node's own. -/
def upToDate (n : RaftNode) (req : RequestVoteRequest) : Bool :=
  let lastIdx := n.log.lastIndex
  let lastTerm := n.log.termAt lastIdx
  decide (lastTerm < req.lastLogTerm) ||
    (decide (req.lastLogTerm = lastTerm) && decide (lastIdx ≤ req.lastLogIndex))

/-- `HandleRequestVote`. -/
def handleRequestVote (n : RaftNode) (req : RequestVoteRequest) :
    RaftNode × RequestVoteResponse :=
  if req.term < n.currentTerm then (n, ⟨n.currentTerm, false⟩)
  else
    let m := if n.currentTerm < req.term then n.becomeFollower req.term else n
    if (m.votedFor = none ∨ m.votedFor = some req.candidateId) ∧ m.upToDate req = true then
      (persistMeta { m with votedFor := some req.candidateId }, ⟨m.currentTerm, true⟩)
    else (m, ⟨m.currentTerm, false⟩)

/-! ## Replication -/

/-- `Propose`: the new state, and the index of the entry or `0`. -/
def propose (n : RaftNode) (type : RaftEntryType) (payload : Bytes) : RaftNode × ℕ :=
  if n.role ≠ .leader then (n, 0)
  else
    let r := n.log.append n.currentTerm type payload
    ({ n with log := r.1 }, r.2)

/-- The request `SendAppendEntriesToAll` builds for a peer. -/
def appendEntriesRequest (n : RaftNode) (p : NodeId) : AppendEntriesRequest :=
  let ni := n.nextIndex p
  let prev := ni - 1
  let last := n.log.lastIndex
  { term := n.currentTerm
    leaderId := n.nodeId
    prevLogIndex := prev
    prevLogTerm := if prev = 0 then 0 else n.log.termAt prev
    entries := if ni ≤ last then n.log.getRange ni last else []
    leaderCommit := n.commitIndex }

/-- `HandleAppendEntries` takes the sender of a request that is not stale for its
leader. -/
def acceptSender (n : RaftNode) (req : AppendEntriesRequest) : RaftNode :=
  if n.currentTerm < req.term then { n.becomeFollower req.term with leaderId := req.leaderId }
  else { n with role := .follower, leaderId := req.leaderId }

/-- The consistency check of `HandleAppendEntries`, and the merge if it succeeds. -/
def mergeRequest (n : RaftNode) (req : AppendEntriesRequest) : RaftNode × Bool :=
  if 0 < req.prevLogIndex ∧ (n.log.lastIndex < req.prevLogIndex ∨
      n.log.termAt req.prevLogIndex ≠ req.prevLogTerm) then (n, false)
  else if req.entries = [] then (n, true)
  else ({ n with log := n.log.appendEntries req.entries }, true)

/-- The part of `HandleAppendEntries` before the commit index; the second component
says whether the request was neither stale nor inconsistent with the log. -/
def followLeader (n : RaftNode) (req : AppendEntriesRequest) : RaftNode × Bool :=
  if req.term < n.currentTerm then (n, false)
  else (n.acceptSender req).mergeRequest req

/-- `HandleAppendEntries`. -/
def handleAppendEntries (n : RaftNode) (req : AppendEntriesRequest) :
    RaftNode × AppendEntriesResponse :=
  match n.followLeader req with
  | (m, false) => (m, ⟨m.currentTerm, false, 0⟩)
  | (m, true) =>
    ({ m with commitIndex := max m.commitIndex (min req.leaderCommit m.log.lastIndex) },
      ⟨m.currentTerm, true, req.prevLogIndex + req.entries.length⟩)

/-- The number of nodes the leader knows to hold its log up to `i`: itself and the
peers whose match index has got there. -/
def replicaCount (n : RaftNode) (i : ℕ) : ℕ :=
  1 + n.peerIds.countP fun p => decide (∃ m, n.matchIndex p = some m ∧ i ≤ m)

/-- The loop of `AdvanceCommitIndexLocked` from index `i` downwards: the commit
index it leaves. -/
def advanceFrom (n : RaftNode) : ℕ → ℕ
  | 0 => n.commitIndex
  | i + 1 =>
    if i + 1 ≤ n.commitIndex then n.commitIndex
    else if n.log.termAt (i + 1) ≠ n.currentTerm then advanceFrom n i
    else if n.majorityThreshold ≤ n.replicaCount (i + 1) then i + 1
    else advanceFrom n i

/-- `AdvanceCommitIndexLocked`. -/
def advanceCommitIndex (n : RaftNode) : RaftNode :=
  if n.role ≠ .leader then n
  else { n with commitIndex := n.advanceFrom n.log.lastIndex }

/-- `ProcessAppendEntriesResponse`. -/
def processAppendEntriesResponse (n : RaftNode) (p : NodeId) (resp : AppendEntriesResponse)
    (sentTerm : ℕ) : RaftNode :=
  if resp.term ≠ 0 ∧ n.currentTerm < resp.term then n.becomeFollower resp.term
  else if sentTerm ≠ n.currentTerm ∨ n.role ≠ .leader then n
  else if resp.success = false then
    { n with nextIndex := update n.nextIndex p (max 1 (n.nextIndex p - 1)) }
  else
    advanceCommitIndex { n with
      matchIndex := update n.matchIndex p
        (some (max ((n.matchIndex p).getD 0) resp.matchIndex))
      nextIndex := update n.nextIndex p (max (n.nextIndex p) (resp.matchIndex + 1)) }

/-- The end of `SendAppendEntriesToAll`: a leader that has not heard from a quorum
for longer than its election timeout steps down without leaving its term. -/
def finishBroadcast (n : RaftNode) (sentTerm successfulPeers : ℕ) (timedOut : Bool) : RaftNode :=
  if n.role ≠ .leader ∨ n.currentTerm ≠ sentTerm then n
  else if n.majorityThreshold ≤ 1 + successfulPeers then n
  else if timedOut then n.becomeFollower n.currentTerm
  else n

/-! ## Applying -/

/-- One turn of the loop of `ApplyCommitted`: the entry handed to the callback. -/
def applyNext (n : RaftNode) : Option (RaftLogEntry × RaftNode) :=
  if n.lastApplied < n.commitIndex then
    match n.log.get (n.lastApplied + 1) with
    | none => none
    | some e => some (e, { n with lastApplied := n.lastApplied + 1 })
  else none

/-- At most `fuel` turns of the loop of `ApplyCommitted`, and the entries applied. -/
def applyLoop : ℕ → RaftNode → RaftNode × List RaftLogEntry
  | 0, n => (n, [])
  | fuel + 1, n =>
    match n.applyNext with
    | none => (n, [])
    | some (e, m) => ((applyLoop fuel m).1, e :: (applyLoop fuel m).2)

/-- `ApplyCommitted`: the loop runs until the commit index is reached. -/
def applyCommitted (n : RaftNode) : RaftNode × List RaftLogEntry :=
  applyLoop (n.commitIndex - n.lastApplied) n

/-- What `WaitForCommit` waits for. -/
def waitForCommit (n : RaftNode) (index : ℕ) : Bool := decide (index ≤ n.lastApplied)

end RaftNode

end TransDb.Raft
