import TransDb.Raft.Node

/-!
# The vote of a node within a term

A single node in an arbitrary environment: elections, requests and answers of any
content, in any order, crashes and restarts from `raft_meta`.  A request can bring any term, so
the 64 bits of `current_term_` matter here.

* `keeps_event` — every step but two keeps the vote until the term grows.
* `vote_kept_iff` — **the vote survives a run exactly if no leader of the run steps
  down for want of a quorum and no election follows the last term**: the first calls
  `BecomeFollower` for the term the node is already in, the second starts again at term 0.
-/

namespace TransDb.Raft

/-- What can happen to a node, whatever the rest of the cluster does. -/
inductive NodeEvent where
  | startElection
  /-- An answer to the `StartElection` call that is waiting for one. -/
  | voteResponse (resp : RequestVoteResponse)
  | requestVote (req : RequestVoteRequest)
  | propose (type : RaftEntryType) (payload : Bytes)
  | appendEntries (req : AppendEntriesRequest)
  | appendEntriesResponse (p : NodeId) (resp : AppendEntriesResponse) (sentTerm : ℕ)
  | finishBroadcast (sentTerm successfulPeers : ℕ) (timedOut : Bool)
  | advanceCommitIndex
  | applyCommitted (fuel : ℕ)
  | restart
  /-- A crash in `HandleRequestVote` after the new term has been written. -/
  | crashInRequestVote (req : RequestVoteRequest)
  /-- A crash in `HandleAppendEntries` after the new term and the first `k`
  entries have been written. -/
  | crashInAppendEntries (req : AppendEntriesRequest) (k : ℕ)

namespace RaftNode

/-- The terms of the node on 64 bits. -/
def wrapTerms (n : RaftNode) : RaftNode :=
  { n with
    currentTerm := n.currentTerm % 2 ^ 64
    metaFile := n.metaFile.map fun f => (f.1 % 2 ^ 64, f.2)
    election := n.election.map fun el => { el with termSent := el.termSent % 2 ^ 64 } }

/-- One step of a node; an answer nobody waits for changes nothing. -/
def event (n : RaftNode) : NodeEvent → RaftNode
  -- only `current_term_++` makes a term that no message has brought
  | .startElection => if n.role = .leader then n else n.startElection.wrapTerms
  | .voteResponse resp =>
    match n.election with
    | none => n
    | some el =>
      match el.peers with
      | [] => n
      | _ :: rest => n.handleVoteResponse el rest resp
  | .requestVote req => (n.handleRequestVote req).1
  | .propose type payload => (n.propose type payload).1
  | .appendEntries req => (n.handleAppendEntries req).1
  | .appendEntriesResponse p resp sentTerm => n.processAppendEntriesResponse p resp sentTerm
  | .finishBroadcast sentTerm successfulPeers timedOut =>
    n.finishBroadcast sentTerm successfulPeers timedOut
  | .advanceCommitIndex => n.advanceCommitIndex
  | .applyCommitted fuel => (applyLoop fuel n).1
  | .restart => n.restart
  | .crashInRequestVote req =>
    (if n.currentTerm < req.term then n.becomeFollower req.term else n).restart
  | .crashInAppendEntries req k =>
    (n.followLeader { req with entries := req.entries.take k }).1.restart

/-- The node after a run. -/
def events (n : RaftNode) (es : List NodeEvent) : RaftNode := es.foldl event n

/-- Whether the step is a leader giving up its term because a quorum has been
silent for longer than its election timeout, or an election after the last term. -/
def losesVote (n : RaftNode) : NodeEvent → Bool
  | .startElection => decide (n.role ≠ .leader) && decide (2 ^ 64 ≤ n.currentTerm + 1)
  | .finishBroadcast sentTerm successfulPeers timedOut =>
    decide (n.role = .leader) && decide (n.currentTerm = sentTerm) &&
      decide (1 + successfulPeers < n.majorityThreshold) && timedOut
  | _ => false

/-- The term has not gone back, and a vote cast in it is still there if it is the
same. -/
def KeepsVote (n m : RaftNode) : Prop :=
  n.currentTerm ≤ m.currentTerm ∧
    ∀ c, n.votedFor = some c → m.currentTerm = n.currentTerm → m.votedFor = some c

/-- The vote is on disk, and whoever stands for election has voted for itself. -/
structure Voted (n : RaftNode) : Prop where
  filed : n.metaFile.getD (0, none) = (n.currentTerm, n.votedFor)
  own : n.role ≠ .follower → n.votedFor = some n.nodeId

/-- What a step does to a node whose vote is recorded. -/
def Keeps (n m : RaftNode) : Prop := m.Voted ∧ n.KeepsVote m

theorem KeepsVote.trans {a b c : RaftNode} (hab : a.KeepsVote b) (hbc : b.KeepsVote c) :
    a.KeepsVote c := by
  refine ⟨hab.1.trans hbc.1, fun v hv hterm => ?_⟩
  have hb : b.currentTerm = a.currentTerm := le_antisymm (hterm ▸ hbc.1) hab.1
  exact hbc.2 v (hab.2 v hv hb) (hterm.trans hb.symm)

theorem Keeps.trans {a b c : RaftNode} (hab : a.Keeps b) (hbc : b.Voted → b.Keeps c) :
    a.Keeps c :=
  ⟨(hbc hab.1).1, hab.2.trans (hbc hab.1).2⟩

/-! ## Handlers -/

section Handlers

variable {n m : RaftNode} (h : n.Voted)
include h

theorem Voted.refl : n.Keeps n := ⟨h, le_rfl, fun _ hv _ => hv⟩

/-- A step that touches neither the term nor the vote. -/
theorem Voted.same
    (hsame : (m.nodeId, m.currentTerm, m.votedFor, m.metaFile) =
      (n.nodeId, n.currentTerm, n.votedFor, n.metaFile))
    (hrole : m.role ≠ .follower → n.role ≠ .follower) : n.Keeps m := by
  obtain ⟨hid, hterm, hvote, hfile⟩ : m.nodeId = n.nodeId ∧ m.currentTerm = n.currentTerm ∧
    m.votedFor = n.votedFor ∧ m.metaFile = n.metaFile := by simpa using hsame
  refine ⟨⟨by rw [hfile, hterm, hvote, h.filed], fun hr => ?_⟩, hterm.ge, fun c hc _ => ?_⟩
  · rw [hvote, hid, h.own (hrole hr)]
  · rw [hvote, hc]

omit h in
theorem keeps_becomeFollower {term : ℕ} (hlt : n.currentTerm < term) :
    n.Keeps (n.becomeFollower term) :=
  ⟨⟨rfl, fun hr => absurd rfl hr⟩, hlt.le, fun _ _ hterm => absurd hterm hlt.ne'⟩

theorem keeps_restart : n.Keeps n.restart := by
  obtain ⟨hterm, hvote⟩ := restart_recorded h.filed
  refine h.same ?_ fun hr => absurd rfl hr
  rw [hterm, hvote]
  rfl

theorem keeps_handleVoteResponse (el : Election) (rest : List NodeId)
    (resp : RequestVoteResponse) : n.Keeps (n.handleVoteResponse el rest resp) := by
  unfold handleVoteResponse
  dsimp only
  split_ifs with hhigher
  · exact (keeps_becomeFollower hhigher.2).trans fun hm => hm.same rfl id
  -- only a candidate, which has voted for itself, becomes leader
  all_goals
    refine h.same rfl ?_
    simp_all [becomeLeader]

theorem keeps_grant {c : NodeId} (hc : n.votedFor = none ∨ n.votedFor = some c) :
    n.Keeps (persistMeta { n with votedFor := some c }) := by
  have hsame : ∀ v, n.votedFor = some v → some c = some v := by
    intro v hv
    rcases hc with hc | hc <;> simp_all
  exact ⟨⟨rfl, fun hr => hsame _ (h.own hr)⟩, le_rfl, fun v hv _ => hsame v hv⟩

theorem keeps_handleRequestVote (req : RequestVoteRequest) :
    n.Keeps (n.handleRequestVote req).1 := by
  unfold handleRequestVote
  by_cases hstale : req.term < n.currentTerm
  · rw [if_pos hstale]
    exact h.refl
  · rw [if_neg hstale]
    have hm : n.Keeps (if n.currentTerm < req.term then n.becomeFollower req.term else n) := by
      split_ifs with hhigher
      · exact keeps_becomeFollower hhigher
      · exact h.refl
    generalize (if n.currentTerm < req.term then n.becomeFollower req.term else n) = m at hm
    refine hm.trans fun hvoted => ?_
    dsimp only
    split_ifs with hgrant
    · exact keeps_grant hvoted hgrant.1
    · exact hvoted.refl

theorem keeps_followLeader (req : AppendEntriesRequest) : n.Keeps (n.followLeader req).1 := by
  have hm : n.Keeps (n.acceptSender req) := by
    unfold acceptSender
    split_ifs with hhigher
    · exact (keeps_becomeFollower hhigher).trans fun hm => hm.same rfl id
    · exact h.same rfl fun hr => absurd rfl hr
  unfold followLeader
  split_ifs
  · exact h.refl
  · refine hm.trans fun hvoted => ?_
    unfold mergeRequest
    split_ifs <;> exact hvoted.same rfl id

theorem keeps_handleAppendEntries (req : AppendEntriesRequest) :
    n.Keeps (n.handleAppendEntries req).1 := by
  have hm := keeps_followLeader h req
  unfold handleAppendEntries
  rcases heq : n.followLeader req with ⟨m, _ | _⟩ <;> rw [heq] at hm
  · exact hm
  · exact hm.trans fun hvoted => hvoted.same rfl id

theorem keeps_advanceCommitIndex : n.Keeps n.advanceCommitIndex := by
  unfold advanceCommitIndex
  split_ifs <;> exact h.same rfl id

theorem keeps_processAppendEntriesResponse (p : NodeId) (resp : AppendEntriesResponse)
    (sentTerm : ℕ) : n.Keeps (n.processAppendEntriesResponse p resp sentTerm) := by
  unfold processAppendEntriesResponse
  split_ifs with hhigher
  · exact keeps_becomeFollower hhigher.2
  · exact h.refl
  · exact h.same rfl id
  · exact Keeps.trans (by exact h.same rfl id) keeps_advanceCommitIndex

theorem keeps_applyLoop (fuel : ℕ) : n.Keeps (applyLoop fuel n).1 := by
  induction fuel generalizing n with
  | zero => exact h.refl
  | succ fuel ih =>
    rw [applyLoop]
    cases hnext : n.applyNext with
    | none => exact h.refl
    | some r =>
      unfold applyNext at hnext
      repeat' split at hnext
      all_goals cases hnext
      exact Keeps.trans (by exact h.same rfl id) (ih ·)

/-! ## Steps and runs -/

omit h in
theorem wrapTerms_startElection (hrole : n.role ≠ .leader) :
    n.startElection.wrapTerms.currentTerm = (n.currentTerm + 1) % 2 ^ 64 := by
  rw [startElection, if_neg hrole]
  rfl

/-- A step leaves the vote recorded, and keeps it unless the step loses it. -/
theorem keeps_event (e : NodeEvent) :
    (n.event e).Voted ∧ (n.losesVote e = false → n.KeepsVote (n.event e)) := by
  have keeps {m : RaftNode} (hm : n.Keeps m) :
      m.Voted ∧ (n.losesVote e = false → n.KeepsVote m) := ⟨hm.1, fun _ => hm.2⟩
  cases e with
  | startElection =>
    simp only [event]
    split_ifs with hrole
    · exact keeps h.refl
    · have hvoted : n.startElection.wrapTerms.Voted := by
        rw [startElection, if_neg hrole]
        exact ⟨rfl, fun _ => rfl⟩
      refine ⟨hvoted, fun hlose => ?_⟩
      have hterm := wrapTerms_startElection hrole
      rw [losesVote, decide_eq_true hrole, Bool.true_and, decide_eq_false_iff_not, not_le] at hlose
      rw [Nat.mod_eq_of_lt hlose] at hterm
      exact ⟨by omega, fun _ _ hsame => absurd hsame (by omega)⟩
  | voteResponse resp =>
    simp only [event]
    repeat' split
    · exact keeps h.refl
    · exact keeps h.refl
    · exact keeps (keeps_handleVoteResponse h _ _ resp)
  | requestVote req => exact keeps (keeps_handleRequestVote h req)
  | propose type payload =>
    simp only [event, propose]
    split_ifs <;> exact keeps (h.same rfl id)
  | appendEntries req => exact keeps (keeps_handleAppendEntries h req)
  | appendEntriesResponse p resp sentTerm =>
    exact keeps (keeps_processAppendEntriesResponse h p resp sentTerm)
  | finishBroadcast sentTerm successfulPeers timedOut =>
    simp only [event, finishBroadcast]
    split_ifs
    · exact keeps h.refl
    · exact keeps h.refl
    · refine ⟨⟨rfl, fun hr => absurd rfl hr⟩, fun hlose => ?_⟩
      simp_all [losesVote]
    · exact keeps h.refl
  | advanceCommitIndex => exact keeps (keeps_advanceCommitIndex h)
  | applyCommitted fuel => exact keeps (keeps_applyLoop h fuel)
  | restart => exact keeps (keeps_restart h)
  | crashInRequestVote req =>
    simp only [event]
    split_ifs with hhigher
    · exact keeps ((keeps_becomeFollower hhigher).trans keeps_restart)
    · exact keeps (keeps_restart h)
  | crashInAppendEntries req k => exact keeps ((keeps_followLeader h _).trans keeps_restart)

theorem voted_events (es : List NodeEvent) : (n.events es).Voted := by
  induction es generalizing n with
  | nil => exact h
  | cons e es ih => exact ih (keeps_event h e).1

theorem keepsVote_events {es : List NodeEvent}
    (hno : ∀ front e rest, es = front ++ e :: rest → (n.events front).losesVote e = false) :
    n.KeepsVote (n.events es) := by
  induction es generalizing n with
  | nil => exact h.refl.2
  | cons e es ih =>
    obtain ⟨hvoted, hkeeps⟩ := keeps_event h e
    refine (hkeeps (hno [] e es rfl)).trans (ih hvoted fun front e' rest heq => ?_)
    exact hno (e :: front) e' rest (heq ▸ rfl)

/-- A leader that loses its quorum throws away the vote it has given itself, and after the
last term comes term 0. -/
theorem not_keepsVote_of_losesVote {e : NodeEvent} (hlose : n.losesVote e = true) :
    ¬ n.KeepsVote (n.event e) := by
  cases e with
  | startElection =>
    simp only [losesVote, Bool.and_eq_true, decide_eq_true_eq] at hlose
    intro hkeep
    have hback := hkeep.1
    rw [event, if_neg hlose.1, wrapTerms_startElection hlose.1] at hback
    have hlt := Nat.mod_lt (n.currentTerm + 1) (show 0 < 2 ^ 64 by decide)
    omega
  | finishBroadcast sentTerm successfulPeers timedOut =>
    simp only [losesVote, Bool.and_eq_true, decide_eq_true_eq] at hlose
    obtain ⟨⟨⟨hrole, hterm⟩, hfew⟩, htimed⟩ := hlose
    have heq : n.event (.finishBroadcast sentTerm successfulPeers timedOut) =
        n.becomeFollower n.currentTerm := by
      simp [event, finishBroadcast, hrole, hterm, htimed, Nat.not_le.mpr hfew]
    rw [heq]
    intro hkeep
    exact Option.some_ne_none _ (hkeep.2 _ (h.own (by simp [hrole])) rfl).symm
  | _ => cases hlose

end Handlers

/-- **A vote is kept within its term exactly in the runs in which no leader steps
down for want of a quorum and no election follows the last term.** The node starts from any
`raft_meta` and any log, and the environment is arbitrary. -/
theorem vote_kept_iff (nodeId : NodeId) (peerIds : List NodeId)
    (metaFile : Option (ℕ × Option NodeId)) (log : RaftLog) (es : List NodeEvent) :
    (∀ front mid rest, es = front ++ mid ++ rest →
      ((boot nodeId peerIds metaFile log).events front).KeepsVote
        ((boot nodeId peerIds metaFile log).events (front ++ mid))) ↔
    ∀ front e rest, es = front ++ e :: rest →
      ((boot nodeId peerIds metaFile log).events front).losesVote e = false := by
  have hboot : (boot nodeId peerIds metaFile log).Voted :=
    ⟨by cases metaFile <;> rfl, fun hr => absurd rfl hr⟩
  simp only [events, List.foldl_append]
  constructor
  · intro hkeep front e rest heq
    by_contra hlose
    exact not_keepsVote_of_losesVote (voted_events hboot front)
      (Bool.eq_true_of_not_eq_false hlose) (hkeep front [e] rest (by simp [heq]))
  · intro hno front mid rest heq
    refine keepsVote_events (voted_events hboot front) fun a e b hab => ?_
    rw [events, events, ← List.foldl_append]
    exact hno (front ++ a) e (b ++ rest) (by simp [heq, hab])

/-- Node 1 of three is elected in term 1, loses its quorum and then votes for node 2
in the same term. -/
theorem vote_changed :
    let n := (boot 1 [2, 3] none RaftLog.empty).events [.startElection, .voteResponse ⟨1, true⟩]
    let m := n.events [.finishBroadcast 1 0 true, .requestVote ⟨1, 2, 5, 1⟩]
    n.role = .leader ∧ n.currentTerm = 1 ∧ n.votedFor = some 1 ∧
      m.currentTerm = 1 ∧ m.votedFor = some 2 := by
  decide

end RaftNode

end TransDb.Raft
