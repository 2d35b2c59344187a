import TransDb.Core.Machine
import TransDb.Raft.Node

/-!
# A Raft cluster and its runs

Any number of nodes and the messages between them.  The network is the list of
all messages ever sent: a message can be handled any number of times, at any
later time, or never, so requests and responses are lost, delayed, reordered and
duplicated at will.  A crash may come between any two steps, and in the middle of
the two handlers that write more than once.

* `Config` — the members, each with its list of the others.
* `Action`, `Cluster.step` — the steps of the nodes.
* `cluster` — the machine; its runs are the runs of the claims about Raft.

`applied` and `past` record what a node has handed to its apply callback, in the
current incarnation and in the earlier ones.
-/

namespace TransDb.Raft

open Function

/-- The membership: every node knows exactly the other ones, in some order. -/
structure Config where
  ids : List NodeId
  nodup : ids.Nodup
  peers : NodeId → List NodeId
  peers_nodup : ∀ v, (peers v).Nodup
  mem_peers : ∀ v ∈ ids, ∀ p, p ∈ peers v ↔ p ∈ ids ∧ p ≠ v

/-- A message names the node it goes to (a request) or comes from (a response); a
response also carries the request it answers. -/
inductive Message where
  | requestVote (dst : NodeId) (req : RequestVoteRequest)
  | requestVoteResp (src : NodeId) (req : RequestVoteRequest) (resp : RequestVoteResponse)
  | appendEntries (dst : NodeId) (req : AppendEntriesRequest)
  | appendEntriesResp (src : NodeId) (req : AppendEntriesRequest) (resp : AppendEntriesResponse)
  deriving DecidableEq

/-- Nodes, and messages on their way. -/
structure Cluster where
  node : NodeId → RaftNode
  net : List Message
  /-- What the current incarnation of a node has applied. -/
  applied : NodeId → List RaftLogEntry
  /-- What its earlier incarnations have applied. -/
  past : NodeId → List (List RaftLogEntry)

/-- The steps a cluster can take; each names the node that takes it. -/
inductive Action where
  | startElection (v : NodeId)
  /-- The answer to the vote request the node is waiting for. -/
  | voteResponse (v : NodeId) (resp : RequestVoteResponse)
  | requestVote (v : NodeId) (req : RequestVoteRequest)
  | propose (v : NodeId) (type : RaftEntryType) (payload : Bytes)
  | sendAppendEntries (v : NodeId)
  | appendEntries (v : NodeId) (req : AppendEntriesRequest)
  /-- An answer of `p` to a request the node has sent it. -/
  | appendEntriesResponse (v p : NodeId) (req : AppendEntriesRequest)
      (resp : AppendEntriesResponse)
  | finishBroadcast (v : NodeId) (sentTerm successfulPeers : ℕ) (timedOut : Bool)
  | advanceCommitIndex (v : NodeId)
  /-- At most `fuel` turns of `ApplyCommitted`: fewer than it takes when the node
  crashes inside the loop. -/
  | applyCommitted (v : NodeId) (fuel : ℕ)
  | crash (v : NodeId)
  /-- A crash in `HandleRequestVote` after the new term has been written. -/
  | crashInRequestVote (v : NodeId) (req : RequestVoteRequest)
  /-- A crash in `HandleAppendEntries` after the new term and the first `k`
  entries have been written. -/
  | crashInAppendEntries (v : NodeId) (req : AppendEntriesRequest) (k : ℕ)

/-- The node that takes a step. -/
def Action.actor : Action → NodeId
  | .startElection v => v
  | .voteResponse v _ => v
  | .requestVote v _ => v
  | .propose v _ _ => v
  | .sendAppendEntries v => v
  | .appendEntries v _ => v
  | .appendEntriesResponse v _ _ _ => v
  | .finishBroadcast v _ _ _ => v
  | .advanceCommitIndex v => v
  | .applyCommitted v _ => v
  | .crash v => v
  | .crashInRequestVote v _ => v
  | .crashInAppendEntries v _ _ => v

namespace Cluster

/-- All nodes before their first start. -/
def init (cfg : Config) : Cluster where
  node v := RaftNode.boot v (cfg.peers v) none RaftLog.empty
  net := []
  applied _ := []
  past _ := []

/-- Replace the state of one node. -/
def setNode (s : Cluster) (v : NodeId) (n : RaftNode) : Cluster :=
  { s with node := update s.node v n }

/-- Put messages on the network. -/
def send (s : Cluster) (ms : List Message) : Cluster := { s with net := ms ++ s.net }

/-- The vote request the node is waiting for an answer to, if any. -/
def voteRequests (n : RaftNode) : List Message :=
  match n.election with
  | none => []
  | some el =>
    match el.peers with
    | [] => []
    | p :: _ => [.requestVote p (RaftNode.Election.request el n.nodeId)]

/-- The requests of one `SendAppendEntriesToAll`. -/
def appendRequests (n : RaftNode) : List Message :=
  if n.role ≠ .leader then []
  else n.peerIds.map fun p => .appendEntries p (n.appendEntriesRequest p)

/-- The node stops and starts again from the files of `n`. -/
def reboot (s : Cluster) (v : NodeId) (n : RaftNode) : Cluster :=
  { s.setNode v n.restart with
    applied := update s.applied v []
    past := update s.past v (s.applied v :: s.past v) }

/-- What a step of node `v`, in state `n`, does; `none` where it is not
possible. -/
def stepNode (s : Cluster) (v : NodeId) (n : RaftNode) : Action → Option Cluster
  | .startElection _ =>
    let m := n.startElection
    some ((s.setNode v m).send (if n.role = .leader then [] else voteRequests m))
  | .voteResponse _ resp =>
    match n.election with
    | none => none
    | some el =>
      match el.peers with
      | [] => none
      | p :: rest =>
        if resp = .lost ∨
            Message.requestVoteResp p (RaftNode.Election.request el n.nodeId) resp ∈ s.net then
          let m := n.handleVoteResponse el rest resp
          some ((s.setNode v m).send (voteRequests m))
        else none
  | .requestVote _ req =>
    if Message.requestVote v req ∈ s.net then
      let r := n.handleRequestVote req
      some ((s.setNode v r.1).send [.requestVoteResp v req r.2])
    else none
  | .propose _ type payload => some (s.setNode v (n.propose type payload).1)
  | .sendAppendEntries _ => some (s.send (appendRequests n))
  | .appendEntries _ req =>
    if Message.appendEntries v req ∈ s.net then
      let r := n.handleAppendEntries req
      some ((s.setNode v r.1).send [.appendEntriesResp v req r.2])
    else none
  | .appendEntriesResponse _ p req resp =>
    if Message.appendEntries p req ∈ s.net ∧ req.leaderId = v ∧
        (resp = .lost ∨ Message.appendEntriesResp p req resp ∈ s.net) then
      some (s.setNode v (n.processAppendEntriesResponse p resp req.term))
    else none
  | .finishBroadcast _ sentTerm successfulPeers timedOut =>
    some (s.setNode v (n.finishBroadcast sentTerm successfulPeers timedOut))
  | .advanceCommitIndex _ => some (s.setNode v n.advanceCommitIndex)
  | .applyCommitted _ fuel =>
    let r := RaftNode.applyLoop fuel n
    some { s.setNode v r.1 with applied := update s.applied v (s.applied v ++ r.2) }
  | .crash _ => some (s.reboot v n)
  | .crashInRequestVote _ req =>
    if Message.requestVote v req ∈ s.net ∧ n.currentTerm < req.term then
      some (s.reboot v (n.becomeFollower req.term))
    else none
  | .crashInAppendEntries _ req k =>
    if Message.appendEntries v req ∈ s.net then
      some (s.reboot v (n.followLeader { req with entries := req.entries.take k }).1)
    else none

/-- One step of the cluster. -/
def step (cfg : Config) (s : Cluster) (a : Action) : Option Cluster :=
  if a.actor ∈ cfg.ids then s.stepNode a.actor (s.node a.actor) a else none

/-- The applications of all incarnations of a node, the current one first. -/
def incarnations (s : Cluster) (v : NodeId) : List (List RaftLogEntry) := s.applied v :: s.past v

end Cluster

/-- The cluster as a machine. -/
def cluster (cfg : Config) : Machine Cluster Action := ⟨Cluster.init cfg, Cluster.step cfg⟩

end TransDb.Raft
