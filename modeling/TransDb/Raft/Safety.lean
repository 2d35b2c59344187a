import TransDb.Raft.AppendRefinement

/-!
# The safety of the Raft cluster

The whole cluster refines abstract log replication, step by step, and the
guarantees of Raft follow for every run.

* `ClusterSim` — every node is related to the abstract state, every message ever
  sent is true in it, and everything ever applied was chosen.
* `step_sim` — every step of the cluster keeps the relation.
* `applied_agree` — state machine safety; `leader_unique` — election safety;
  `log_matching` — log matching; `applied_in_leader_log` — leader completeness.
* `requests_cover_log` — what a leader knows about its peers, and what it sends them.
* `applied_iff_term_kept` — what a successful `WaitForCommit` says about the entry
  that was proposed, and `applied_other_proposal` — what it does not say.
-/

namespace TransDb.Raft

open Option List Function Replication

/-- What a message says is true. -/
def MessageSim (cfg : Config) (a : Spec) : Message → Prop
  | .requestVote _ req => VoteRequestSim a req
  | .requestVoteResp src req resp => resp.voteGranted = true →
      ∃ l, a.vote src req.term = some (req.candidateId, l)
  | .appendEntries dst req => AppendSim a dst req ∧ CommitSim cfg a req
  | .appendEntriesResp src req resp => resp.success = true →
      resp.matchIndex ≤ a.acked src req.term

/-- The entries `t` were applied in order from a chosen prefix. -/
def Settled (cfg : Config) (a : Spec) (t : List RaftLogEntry) : Prop :=
  t = [] ∨ ∃ T m, Chosen RaftLogEntry.term cfg.quorums a T m ∧ t <+: (a.leaderLog T).take m

/-- The cluster is in a state that refines `a`. -/
structure ClusterSim (cfg : Config) (s : Cluster) (a : Spec) : Prop where
  legal : Legal cfg a
  node : ∀ v, NodeSim cfg a v (s.node v) (s.applied v)
  net : ∀ m ∈ s.net, MessageSim cfg a m
  past : ∀ v, ∀ t ∈ s.past v, Settled cfg a t

variable {cfg : Config} {s s' : Cluster} {a a' : Spec} {v w : NodeId}

/-! ## What is true stays true -/

theorem MessageSim.mono {m : Message} (h : MessageSim cfg a m) (hm : Moves w a a') :
    MessageSim cfg a' m := by
  cases m with
  | requestVote dst req => exact VoteRequestSim.mono h hm
  | requestVoteResp src req resp =>
    intro hg
    obtain ⟨l, hl⟩ := h hg
    exact ⟨l, hm.vote_kept hl⟩
  | appendEntries dst req => exact ⟨h.1.mono hm, h.2.mono hm⟩
  | appendEntriesResp src req resp => exact fun hs => (h hs).trans (hm.acked_le _ _)

variable {t tr : List RaftLogEntry} {n : RaftNode} {P : Spec → Prop} {acts : List Action}

theorem Settled.mono (h : Settled cfg a t) (hm : Moves w a a') : Settled cfg a' t := by
  rcases h with rfl | ⟨T, m, hch, hp⟩
  · exact Or.inl rfl
  · refine Or.inr ⟨T, m, hch.mono hm.grows hm.acked_le, ?_⟩
    rwa [take_eq_take_left (hm.grows.leaderLog T) hch.le_length]

/-- What a node has applied was chosen. -/
theorem NodeSim.settled (h : NodeSim cfg a v n tr) : Settled cfg a tr := by
  rcases h.commit.anti h.applied_le with h0 | ⟨T, m, -, hch, hk, hp⟩
  · left
    rw [h.applied_eq, h0, take_zero]
  · refine Or.inr ⟨T, m, hch, ?_⟩
    have hlen : ((a.leaderLog T).take n.lastApplied).length = n.lastApplied := by
      have := hch.le_length
      rw [length_take]
      omega
    have hcut := take_prefix n.lastApplied (a.leaderLog T)
    rw [h.applied_eq, take_eq_of_common hlen hcut hp]
    exact take_prefix_take_left hk

/-! ## One step -/

/-- The cluster can be in state `s` after the abstract state `a` has grown. -/
def Follows (cfg : Config) (a : Spec) (s : Cluster) : Prop :=
  ∃ a', Grows a a' ∧ ClusterSim cfg s a'

/-- One node moves; it may send messages and start over. -/
theorem ClusterSim.move (h : ClusterSim cfg s a) (hm : Moves v a a') (hL : Legal cfg a')
    (hv : NodeSim cfg a' v (s'.node v) (s'.applied v))
    (hnode : ∀ w, w ≠ v → s'.node w = s.node w ∧ s'.applied w = s.applied w)
    (hnet : ∀ m ∈ s'.net, m ∈ s.net ∨ MessageSim cfg a' m)
    (hpast : ∀ w, ∀ t ∈ s'.past w, t ∈ s.past w ∨ t = s.applied v) : ClusterSim cfg s' a' where
  legal := hL
  node w := by
    by_cases hw : w = v
    · exact hw ▸ hv
    · obtain ⟨h1, h2⟩ := hnode w hw
      rw [h1, h2]
      exact (h.node w).frame hm hw
  net m hmem := by
    rcases hnet m hmem with hold | hnew
    · exact (h.net m hold).mono hm
    · exact hnew
  past w t ht := by
    rcases hpast w t ht with hold | rfl
    · exact (h.past w t hold).mono hm
    · exact (h.node v).settled.mono hm

section

variable (h : ClusterSim cfg s a) (hr : Reaches cfg a v n (s.applied v) P)
include h hr

/-- A node changes state and sends messages. -/
theorem ClusterSim.setNode {ms : List Message}
    (hms : ∀ a', ClusterSim cfg (s.setNode v n) a' → P a' → ∀ m ∈ ms, MessageSim cfg a' m) :
    Follows cfg a ((s.setNode v n).send ms) := by
  obtain ⟨a', hm, hL, hn, hP⟩ := hr
  have hset : ∀ w, w ≠ v → (s.setNode v n).node w = s.node w ∧
      (s.setNode v n).applied w = s.applied w := fun w hw => ⟨update_of_ne hw _ _, rfl⟩
  have hself : NodeSim cfg a' v ((s.setNode v n).node v) ((s.setNode v n).applied v) := by
    show NodeSim cfg a' v (update s.node v n v) (s.applied v)
    rwa [update_self]
  have h1 : ClusterSim cfg (s.setNode v n) a' :=
    h.move hm hL hself hset (fun m hmem => Or.inl hmem) (fun w t ht => Or.inl ht)
  refine ⟨a', hm.grows, { h1 with net := fun m hmem => ?_ }⟩
  rcases mem_append.mp hmem with hnew | hold
  · exact hms a' h1 hP m hnew
  · exact h1.net m hold

/-- A node changes state and sends nothing. -/
theorem ClusterSim.setNode_silent : Follows cfg a (s.setNode v n) := by
  have hnone : ∀ a', ClusterSim cfg (s.setNode v n) a' → P a' →
      ∀ m ∈ ([] : List Message), MessageSim cfg a' m := fun _ _ _ m hm => by simp at hm
  exact h.setNode hr hnone

/-- A node starts over from its files. -/
theorem ClusterSim.reboot : Follows cfg a (s.reboot v n) := by
  obtain ⟨a', hm, hL, hn, -⟩ := hr
  refine ⟨a', hm.grows, h.move hm hL ?_ ?_ (fun m hmem => Or.inl hmem) ?_⟩
  · show NodeSim cfg a' v (update s.node v n.restart v) (update s.applied v [] v)
    rw [update_self, update_self]
    exact hn.restart
  · exact fun w hw => ⟨update_of_ne hw _ _, update_of_ne hw _ _⟩
  · intro w t ht
    have ht' : t ∈ update s.past v (s.applied v :: s.past v) w := ht
    by_cases hw : w = v
    · subst hw
      rw [update_self, mem_cons] at ht'
      exact ht'.symm
    · rw [update_of_ne hw] at ht'
      exact Or.inl ht'

end

/-- The vote request of a node's election is true. -/
theorem NodeSim.voteRequests (h : NodeSim cfg a v n tr) :
    ∀ m ∈ Cluster.voteRequests n, MessageSim cfg a m := by
  intro m hm
  unfold Cluster.voteRequests at hm
  cases hel : n.election with
  | none => simp [hel] at hm
  | some el =>
    cases hp : el.peers with
    | nil => simp [hel, hp] at hm
    | cons p rest =>
      simp only [hel, hp, mem_singleton] at hm
      subst hm
      have ht := h.election hel
      rw [h.id]
      exact ⟨ht.term_le.trans h.term.ge, ht.lastLogIndex, ht.lastLogTerm⟩

/-- The requests of a broadcast are true. -/
theorem NodeSim.appendRequests (hL : Legal cfg a) (h : NodeSim cfg a v n tr) (hv : v ∈ cfg.ids) :
    ∀ m ∈ Cluster.appendRequests n, MessageSim cfg a m := by
  intro m hm
  unfold Cluster.appendRequests at hm
  by_cases hr : n.role ≠ .leader
  · simp [hr] at hm
  · rw [if_neg hr] at hm
    obtain ⟨p, hp, rfl⟩ := mem_map.mp hm
    exact h.appendEntriesRequest hL hv (not_not.mp hr) hp

/-- **Every step of the cluster is a move of the abstract state.** -/
theorem stepNode_sim (h : ClusterSim cfg s a) {act : Action} (hv : v ∈ cfg.ids)
    (hs : s.stepNode v (s.node v) act = some s') : Follows cfg a s' := by
  have hL := h.legal
  have hn := h.node v
  cases act with
  | startElection _ =>
    cases hs
    refine h.setNode (hn.startElection hL hv) fun a' h' _ m hm => ?_
    split_ifs at hm
    · simp at hm
    · have hself := h'.node v
      simp only [Cluster.setNode, update_self] at hself
      exact hself.voteRequests m hm
  | voteResponse _ resp =>
    simp only [Cluster.stepNode] at hs
    cases hel : (s.node v).election with
    | none => simp [hel] at hs
    | some el =>
      cases hp : el.peers with
      | nil => simp [hel, hp] at hs
      | cons p rest =>
        simp only [hel, hp] at hs
        obtain ⟨hmem, hs⟩ := ite_none_right_eq_some.mp hs
        cases hs
        have hresp : resp.voteGranted = true → ∃ l, a.vote p el.termSent = some (v, l) := by
          intro hg
          rcases hmem with rfl | hmem
          · cases hg
          · have := h.net _ hmem hg
            rwa [RaftNode.Election.request, hn.id] at this
        refine h.setNode (hn.handleVoteResponse hL hv hel hp hresp) fun a' h' _ m hm => ?_
        have hself := h'.node v
        simp only [Cluster.setNode, update_self] at hself
        exact hself.voteRequests m hm
  | requestVote _ req =>
    simp only [Cluster.stepNode] at hs
    obtain ⟨hmem, hs⟩ := ite_none_right_eq_some.mp hs
    cases hs
    refine h.setNode (hn.handleRequestVote hL (h.net _ hmem)) fun a' _ hP m hm => ?_
    obtain rfl := mem_singleton.mp hm
    exact hP
  | propose _ type payload =>
    cases hs
    exact h.setNode_silent (hn.propose hL type payload)
  | sendAppendEntries _ =>
    cases hs
    refine ⟨a, Grows.refl a, { h with net := fun m hm => ?_ }⟩
    rcases mem_append.mp hm with hnew | hold
    · exact hn.appendRequests hL hv m hnew
    · exact h.net m hold
  | appendEntries _ req =>
    simp only [Cluster.stepNode] at hs
    obtain ⟨hmem, hs⟩ := ite_none_right_eq_some.mp hs
    cases hs
    obtain ⟨h1, h2⟩ := h.net _ hmem
    refine h.setNode (hn.handleAppendEntries hL h1 h2) fun a' _ hP m hm => ?_
    obtain rfl := mem_singleton.mp hm
    exact hP
  | appendEntriesResponse _ p req resp =>
    simp only [Cluster.stepNode] at hs
    obtain ⟨hmem, hs⟩ := ite_none_right_eq_some.mp hs
    cases hs
    obtain ⟨-, -, hmem⟩ := hmem
    refine h.setNode_silent (hn.processAppendEntriesResponse hL hv fun hok => ?_)
    rcases hmem with rfl | hmem
    · cases hok
    · exact h.net _ hmem hok
  | finishBroadcast _ sentTerm successfulPeers timedOut =>
    cases hs
    exact h.setNode_silent (hn.finishBroadcast hL sentTerm successfulPeers timedOut)
  | advanceCommitIndex _ =>
    cases hs
    exact h.setNode_silent (P := fun _ => True)
      ⟨a, Moves.refl v a, hL, hn.advanceCommitIndex hL hv, trivial⟩
  | applyCommitted _ fuel =>
    cases hs
    refine ⟨a, Grows.refl a, h.move (Moves.refl v a) hL ?_ ?_ (fun m hm => Or.inl hm)
      (fun w t ht => Or.inl ht)⟩
    · simp only [Cluster.setNode, update_self]
      exact hn.applyLoop fuel
    · exact fun w hw => ⟨update_of_ne hw _ _, update_of_ne hw _ _⟩
  | crash _ =>
    cases hs
    exact h.reboot (P := fun _ => True) ⟨a, Moves.refl v a, hL, hn, trivial⟩
  | crashInRequestVote _ req =>
    simp only [Cluster.stepNode] at hs
    obtain ⟨hmem, hs⟩ := ite_none_right_eq_some.mp hs
    cases hs
    obtain ⟨hL', hm, hsim⟩ := hn.becomeFollower hL (Or.inl hmem.2)
    exact h.reboot (P := fun _ => True) ⟨_, hm, hL', hsim, trivial⟩
  | crashInAppendEntries _ req k =>
    simp only [Cluster.stepNode] at hs
    obtain ⟨hmem, hs⟩ := ite_none_right_eq_some.mp hs
    cases hs
    exact h.reboot (hn.followLeader hL ((h.net _ hmem).1.take k))

theorem step_sim (h : ClusterSim cfg s a) {act : Action}
    (hs : Cluster.step cfg s act = some s') : Follows cfg a s' := by
  unfold Cluster.step at hs
  split_ifs at hs with hv
  exact stepNode_sim h hv hs

/-! ## Whole runs -/

theorem clusterSim_init (cfg : Config) : ClusterSim cfg (Cluster.init cfg) State.init where
  legal := ⟨Inv.init, fun _ => contiguous_nil⟩
  node v := {
    id := rfl
    peers := rfl
    term := rfl
    log := rfl
    file := rfl
    leader := fun hr => by cases hr
    selfAcked := fun hr => by cases hr
    candidate := fun hr => by cases hr
    voted := fun hc => by cases hc
    vote := fun hv => by cases hv
    election := fun hel => by cases hel
    nextIndex := fun hr => by cases hr
    matchIndex := fun hr => by cases hr
    commit := Or.inl rfl
    applied_le := le_rfl
    applied_eq := rfl }
  net m hm := by simp [Cluster.init] at hm
  past v t ht := by simp [Cluster.init] at ht

/-- **Every run refines abstract log replication**, and what the leaders have built
is never taken back. -/
theorem runFrom_sim (h : ClusterSim cfg s a) (hs : (cluster cfg).runFrom s acts = some s') :
    Follows cfg a s' := by
  refine Machine.inv_runFrom (I := Follows cfg a) ?_ ⟨a, Grows.refl a, h⟩ hs
  rintro t act t' ⟨b, hg, hb⟩ ht
  obtain ⟨c, hg', hc⟩ := step_sim hb ht
  exact ⟨c, hg.trans hg', hc⟩

theorem run_sim (hs : (cluster cfg).run acts = some s) : ∃ a, ClusterSim cfg s a := by
  obtain ⟨a, -, ha⟩ := runFrom_sim (clusterSim_init cfg) hs
  exact ⟨a, ha⟩

/-! ## State machine safety -/

theorem ClusterSim.settled (h : ClusterSim cfg s a) (ht : t ∈ s.incarnations v) :
    Settled cfg a t := by
  rcases mem_cons.mp ht with rfl | ht
  · exact (h.node v).settled
  · exact h.past v t ht

theorem Settled.contiguous (hL : Legal cfg a) (h : Settled cfg a t) : Contiguous t := by
  rcases h with rfl | ⟨T, m, -, hp⟩
  · exact contiguous_nil
  · exact (hL.contiguous T).anti (hp.trans <| take_prefix _ _)

/-- Two settled lists are beginnings of one leader's log. -/
theorem Settled.common (hL : Legal cfg a) {t' : List RaftLogEntry} (h : Settled cfg a t)
    (h' : Settled cfg a t') : ∃ V, t <+: a.leaderLog V ∧ t' <+: a.leaderLog V := by
  rcases h with rfl | ⟨T, m, hch, hp⟩
  · rcases h' with rfl | ⟨T', m', -, hp'⟩
    · exact ⟨0, nil_prefix, nil_prefix⟩
    · exact ⟨T', nil_prefix, hp'.trans <| take_prefix _ _⟩
  · rcases h' with rfl | ⟨T', m', hch', hp'⟩
    · exact ⟨T, hp.trans <| take_prefix _ _, nil_prefix⟩
    · obtain ⟨V, h1, h2⟩ := hL.inv.chosen_prefix hch hch'
      exact ⟨V, hp.trans h1, hp'.trans h2⟩

/-- The entry with a given index in a list that begins a leader's log. -/
theorem getElem?_of_mem_prefix (hL : Legal cfg a) {V : ℕ} (ht : t <+: a.leaderLog V)
    {e : RaftLogEntry} (he : e ∈ t) : (a.leaderLog V)[e.index - 1]? = some e := by
  obtain ⟨i, hi, rfl⟩ := mem_iff_getElem.mp (ht.subset he)
  have := hL.contiguous V i _ (getElem?_eq_getElem hi)
  rw [this, Nat.add_sub_cancel, getElem?_eq_getElem hi]

/-- **State machine safety.**  In every run of every cluster, whatever any two
incarnations of any two nodes have applied under one index is the same entry, and
every incarnation applies the indices `1, 2, 3, …` in order. -/
theorem applied_agree (cfg : Config) (acts : List Action) (s : Cluster)
    (hs : (cluster cfg).run acts = some s) :
    (∀ v w, ∀ t ∈ s.incarnations v, ∀ t' ∈ s.incarnations w, ∀ e ∈ t, ∀ f ∈ t',
      e.index = f.index → e.term = f.term ∧ e.type = f.type ∧ e.payload = f.payload) ∧
    ∀ v, ∀ t ∈ s.incarnations v, t.map RaftLogEntry.index = List.range' 1 t.length := by
  obtain ⟨a, ha⟩ := run_sim hs
  constructor
  · intro v w t ht t' ht' e he f hf hef
    obtain ⟨V, hp, hp'⟩ := (ha.settled ht).common ha.legal (ha.settled ht')
    have h1 := getElem?_of_mem_prefix ha.legal hp he
    have h2 := getElem?_of_mem_prefix ha.legal hp' hf
    rw [← hef, h1] at h2
    obtain rfl := some.inj h2
    exact ⟨rfl, rfl, rfl⟩
  · intro v t ht
    exact ((ha.settled ht).contiguous ha.legal).map_index

/-- Three nodes. -/
def three : Config where
  ids := [1, 2, 3]
  nodup := by decide
  peers v := [1, 2, 3].filter (· ≠ v)
  peers_nodup v := List.Nodup.filter _ (by decide)
  mem_peers := by simp

/-- Node 1 is elected by node 2. -/
def electFirst : List Action :=
  [.startElection 1, .requestVote 2 ⟨1, 1, 0, 0⟩, .voteResponse 1 ⟨1, true⟩]

/-- Node 1 gets an entry to node 2 and both apply it; then node 1 restarts. -/
def commitAndApply : List Action :=
  let es : List RaftLogEntry := [⟨1, 1, .noop, []⟩, ⟨2, 1, .txnCommit, [7]⟩]
  electFirst ++
  [.propose 1 .txnCommit [7], .sendAppendEntries 1, .appendEntries 2 ⟨1, 1, 0, 0, es, 0⟩,
    .appendEntriesResponse 1 2 ⟨1, 1, 0, 0, es, 0⟩ ⟨1, true, 2⟩, .applyCommitted 1 2,
    .sendAppendEntries 1, .appendEntries 2 ⟨1, 1, 2, 1, [], 2⟩, .applyCommitted 2 2, .crash 1]

theorem applied_agree_commitAndApply :
    ∃ s, (cluster three).run commitAndApply = some s ∧
      (s.past 1 = [[⟨1, 1, .noop, []⟩, ⟨2, 1, .txnCommit, [7]⟩]] ∧
        s.applied 2 = [⟨1, 1, .noop, []⟩, ⟨2, 1, .txnCommit, [7]⟩]) ∧
      ∀ v w, ∀ t ∈ s.incarnations v, ∀ t' ∈ s.incarnations w, ∀ e ∈ t, ∀ f ∈ t',
        e.index = f.index → e.term = f.term ∧ e.type = f.type ∧ e.payload = f.payload :=
  ⟨_, rfl, by decide, (applied_agree three commitAndApply _ rfl).1⟩

/-! ## Election safety -/

/-- **Election safety.**  In every run of every cluster, two nodes that lead in the
same term are the same node.  A leader that has stepped down and forgotten its
vote is no danger: see `Legal.not_upToDate_of_leader`. -/
theorem leader_unique (cfg : Config) (acts : List Action) (s : Cluster)
    (hs : (cluster cfg).run acts = some s) (v w : NodeId)
    (hv : (s.node v).role = .leader) (hw : (s.node w).role = .leader)
    (hterm : (s.node v).currentTerm = (s.node w).currentTerm) : v = w := by
  obtain ⟨a, ha⟩ := run_sim hs
  have h1 := (ha.node v).leader hv
  have h2 := (ha.node w).leader hw
  rw [← hterm, h1] at h2
  exact some.inj h2

/-- After `electFirst`, node 1 loses contact and steps down inside term 1, and node 3
asks it for its vote in that term; then node 3 is elected in term 2. -/
def stepDown : List Action :=
  electFirst ++
  [.finishBroadcast 1 1 0 true, .startElection 3, .requestVote 1 ⟨1, 3, 0, 0⟩,
    .voteResponse 3 ⟨1, false⟩, .startElection 3, .voteResponse 3 .lost,
    .requestVote 2 ⟨2, 3, 0, 0⟩, .voteResponse 3 ⟨2, true⟩]

theorem leader_unique_stepDown :
    ∃ s, (cluster three).run stepDown = some s ∧
      ((s.node 1).votedFor = none ∧ (s.node 1).currentTerm = 1 ∧ (s.node 3).currentTerm = 2) ∧
      (s.node 3).role = .leader ∧
      ∀ w, (s.node w).role = .leader → (s.node 3).currentTerm = (s.node w).currentTerm → 3 = w :=
  ⟨_, rfl, by decide, by decide,
    fun w hw hterm => leader_unique three stepDown _ rfl 3 w (by decide) hw hterm⟩

/-! ## Log matching -/

/-- **Log matching.**  In every run of every cluster, if two logs have an entry of
the same term at the same index, they are the same up to that index. -/
theorem log_matching (cfg : Config) (acts : List Action) (s : Cluster)
    (hs : (cluster cfg).run acts = some s) (v w : NodeId) (i : ℕ) (e f : RaftLogEntry)
    (he : (s.node v).log.get i = some e) (hf : (s.node w).log.get i = some f)
    (hterm : e.term = f.term) :
    ∀ j ≤ i, (s.node v).log.get j = (s.node w).log.get j := by
  obtain ⟨a, ha⟩ := run_sim hs
  have hv := (ha.node v).log ▸ ha.legal.inv.rooted_log v
  have hw := (ha.node w).log ▸ ha.legal.inv.rooted_log w
  cases i with
  | zero =>
    rw [RaftLog.get_zero] at he
    cases he
  | succ i =>
    rw [RaftLog.get_eq] at he hf
    have htake := matching_take hv hw he hf hterm
    intro j hj
    cases j with
    | zero => rw [RaftLog.get_zero, RaftLog.get_zero]
    | succ j =>
      have := congrArg (fun l => l[j]?) htake
      simp only [getElem?_take_of_lt (show j < i + 1 by omega)] at this
      rw [RaftLog.get_eq, RaftLog.get_eq, this]

/-- Node 2 takes over in term 2 from node 1, which has an entry of term 1 that it has
sent to nobody, and overwrites it. -/
def takeOver : List Action :=
  let es : List RaftLogEntry := [⟨1, 2, .noop, []⟩, ⟨2, 2, .txnCommit, [2]⟩]
  [.startElection 2, .voteResponse 2 .lost, .requestVote 3 ⟨2, 2, 0, 0⟩, .voteResponse 2 ⟨2, true⟩,
    .propose 2 .txnCommit [2], .sendAppendEntries 2, .appendEntries 3 ⟨2, 2, 0, 0, es, 0⟩,
    .appendEntriesResponse 2 3 ⟨2, 2, 0, 0, es, 0⟩ ⟨2, true, 2⟩, .sendAppendEntries 2,
    .appendEntries 1 ⟨2, 2, 0, 0, es, 2⟩, .applyCommitted 1 2]

theorem log_matching_takeOver :
    ∃ s, (cluster three).run (electFirst ++ .propose 1 .txnCommit [1] :: takeOver) = some s ∧
      ((s.node 1).log.get 2 = some ⟨2, 2, .txnCommit, [2]⟩ ∧
        (s.node 3).log.get 2 = some ⟨2, 2, .txnCommit, [2]⟩) ∧
      ∀ j ≤ 2, (s.node 1).log.get j = (s.node 3).log.get j :=
  ⟨_, rfl, ⟨rfl, rfl⟩, log_matching three (electFirst ++ .propose 1 .txnCommit [1] :: takeOver) _
    rfl 1 3 2 _ _ rfl rfl rfl⟩

/-! ## Leader completeness -/

/-- What was applied is still in the logs of a majority. -/
theorem ClusterSim.applied_majority (h : ClusterSim cfg s a) (ht : t ∈ s.incarnations v)
    (hne : t ≠ []) :
    ∃ M, cfg.quorums.isQuorum M ∧ ∀ u ∈ M, t <+: (s.node u).log.entries := by
  rcases h.settled ht with rfl | ⟨T, m, hch, hp⟩
  · exact absurd rfl hne
  obtain ⟨M, hM, hack⟩ := hch.2
  refine ⟨M, hM, fun u hu => ?_⟩
  rw [← (h.node u).log]
  -- a later leader that lacks the prefix would contradict leader completeness
  rcases h.legal.inv.acked_log (hack u hu) with hlog | ⟨U, hTU, -, hU, hlost⟩
  · exact hp.trans hlog
  · exact absurd (h.legal.inv.complete hch U hTU hU) hlost

/-- **Leader completeness.**  In every run of every cluster, a leader has everything in its log that
any incarnation of any node has applied, unless a majority has gone on to later terms. -/
theorem applied_in_leader_log (cfg : Config) (acts : List Action) (s : Cluster)
    (hs : (cluster cfg).run acts = some s) (w : NodeId) (hr : (s.node w).role = .leader)
    (M : Finset NodeId) (hM : cfg.quorums.isQuorum M)
    (hle : ∀ u ∈ M, (s.node u).currentTerm ≤ (s.node w).currentTerm) (v : NodeId) :
    ∀ t ∈ s.incarnations v, t <+: (s.node w).log.entries := by
  intro t ht
  obtain ⟨a, ha⟩ := run_sim hs
  have hinv := ha.legal.inv
  have hw := (ha.node w).leader hr
  rw [← (ha.node w).leaderLog ha.legal hr]
  rcases ha.settled ht with rfl | ⟨T, m, hch, hp⟩
  · exact nil_prefix
  -- somebody in the majority has voted for the leader of `T`
  obtain ⟨c, hc⟩ := ne_none_iff_exists'.mp (hch.leader_ne_none hinv)
  obtain ⟨hE, hvotes⟩ := hinv.elected hc
  obtain ⟨u, huE, huM⟩ := cfg.quorums.inter hE hM
  obtain ⟨l, hl⟩ := hvotes u huE
  have hT : T ≤ (s.node w).currentTerm := by
    have hu := (hinv.vote_term hl).1
    rw [(ha.node u).term] at hu
    exact hu.trans (hle u huM)
  exact hp.trans (hinv.chosen_leader hch hT (by simp [hw]))

/-- After `commitAndApply`, node 2 takes over from node 1, which has applied two entries and
restarted. -/
def secondLeader : List Action :=
  commitAndApply ++ [.startElection 2, .voteResponse 2 .lost, .requestVote 3 ⟨2, 2, 2, 1⟩,
    .voteResponse 2 ⟨2, true⟩]

theorem applied_in_leader_log_second :
    ∃ s, (cluster three).run secondLeader = some s ∧
      (s.past 1 = [[⟨1, 1, .noop, []⟩, ⟨2, 1, .txnCommit, [7]⟩]] ∧ (s.node 2).currentTerm = 2) ∧
      ∀ t ∈ s.incarnations 1, t <+: (s.node 2).log.entries :=
  ⟨_, rfl, by decide, applied_in_leader_log three secondLeader _ rfl 2 (by decide) {2, 3}
    ⟨by decide, by decide⟩ (by decide) 1⟩

/-! ## Requests of a leader -/

/-- **Every request of a leader reaches the end of its log.**  In every run of every cluster, the
indices that a leader keeps for a peer lie within its log, so `next_index_ - 1` does not wrap
around, and the requests of a broadcast hold every entry behind the one they build on. -/
theorem requests_cover_log (cfg : Config) (acts : List Action) (s : Cluster)
    (hs : (cluster cfg).run acts = some s) (v : NodeId) (hr : (s.node v).role = .leader) :
    let n := s.node v
    (∀ p ∈ n.peerIds, 1 ≤ n.nextIndex p ∧ n.nextIndex p ≤ n.log.lastIndex + 1 ∧
      ∀ m, n.matchIndex p = some m → m ≤ n.log.lastIndex) ∧
    ∀ p req, Message.appendEntries p req ∈ Cluster.appendRequests n →
      req.entries.map RaftLogEntry.index =
        List.range' (req.prevLogIndex + 1) (n.log.lastIndex - req.prevLogIndex) ∧
      (∀ e ∈ req.entries, n.log.get e.index = some e) ∧
      (if req.prevLogIndex = 0 then req.prevLogTerm = 0
        else ∃ e, n.log.get req.prevLogIndex = some e ∧ req.prevLogTerm = e.term) ∧
      req.leaderCommit ≤ req.prevLogIndex + req.entries.length := by
  obtain ⟨a, ha⟩ := run_sim hs
  have h := ha.node v
  generalize s.node v = n at h hr ⊢
  dsimp only
  rw [n.log.lastIndex_eq]
  refine ⟨fun p hp => ⟨(h.nextIndex hr p hp).1, (h.nextIndex hr p hp).2, fun m hm => ?_⟩, ?_⟩
  · exact (h.matchIndex hr p hp m hm).trans (h.acked_le ha.legal hr p)
  intro p req hreq
  rw [Cluster.appendRequests, if_neg (not_not.mpr hr)] at hreq
  obtain ⟨p', hp, heq⟩ := mem_map.mp hreq
  obtain ⟨rfl, rfl⟩ := Message.appendEntries.inj heq
  obtain ⟨hentries, hlen, hprev⟩ := RaftNode.appendEntriesRequest_covers (h.nextIndex hr p' hp)
  refine ⟨?_, ?_, ?_, hlen ▸ h.commit.le_length⟩
  · rw [hentries, map_drop, n.log.contiguous.map_index, drop_range', Nat.mul_one, Nat.add_comm]
  · intro e he
    rw [hentries] at he
    obtain ⟨i, hi⟩ := mem_iff_getElem?.mp (mem_of_mem_drop he)
    rw [n.log.contiguous i e hi, n.log.get_eq, hi]
  · cases hj : (n.appendEntriesRequest p').prevLogIndex with
    | zero => rw [if_pos rfl, hprev, hj, n.log.termAt_zero]
    | succ j =>
      have hlt : j < n.log.entries.length := by omega
      rw [if_neg (Nat.succ_ne_zero j), hprev, hj, n.log.termAt_eq, n.log.get_eq,
        getElem?_eq_getElem hlt]
      exact ⟨_, rfl, rfl⟩

/-- Node 2 has acknowledged two entries, and node 3 has not answered. -/
theorem requests_cover_log_commit :
    ∃ s, (cluster three).run (commitAndApply.take 9) = some s ∧
      (s.node 1).matchIndex 2 = some 2 ∧ (s.node 1).nextIndex 3 = 1 ∧
      ∀ p req, Message.appendEntries p req ∈ Cluster.appendRequests (s.node 1) →
        req.leaderCommit ≤ req.prevLogIndex + req.entries.length :=
  ⟨_, rfl, by decide, by decide, fun p req hreq =>
    ((requests_cover_log three (commitAndApply.take 9) _ rfl 1 (by decide)).2 p req hreq).2.2.2⟩

/-! ## What a successful wait says -/

/-- A proposal that gets an index is an entry of its leader's log. -/
theorem propose_sim (h : ClusterSim cfg s a) {type : RaftEntryType} {payload : Bytes}
    (hs : Cluster.step cfg s (.propose v type payload) = some s')
    (hidx : ((s.node v).propose type payload).2 ≠ 0) :
    ∃ a', ClusterSim cfg s' a' ∧
      (a'.leaderLog (s.node v).currentTerm)[((s.node v).propose type payload).2 - 1]? =
        some ⟨((s.node v).propose type payload).2, (s.node v).currentTerm, type, payload⟩ := by
  unfold Cluster.step at hs
  obtain ⟨-, hs⟩ := ite_none_right_eq_some.mp hs
  cases hs
  have hr : (s.node v).role = .leader := by
    by_contra hr
    simp [RaftNode.propose, hr] at hidx
  have hval : ((s.node v).propose type payload).2 = (s.node v).log.entries.length + 1 := by
    rw [RaftNode.propose, if_neg (not_not.mpr hr)]
    exact RaftLog.snd_append _ (s.node v).currentTerm type payload
  obtain ⟨a', hm, hL, hn, hP⟩ := (h.node v).propose h.legal type payload
  refine ⟨a', h.move hm hL ?_ ?_ (fun m hmem => Or.inl hmem) (fun w t ht => Or.inl ht), ?_⟩
  · show NodeSim cfg a' v (update s.node v _ v) (s.applied v)
    rw [update_self]
    exact hn
  · exact fun w hw => ⟨update_of_ne hw _ _, rfl⟩
  · rw [hval, Nat.add_sub_cancel]
    exact hP hr

/-- **What a successful wait says.**  A node proposes an entry and gets an index; in
any later state, after any further steps, in which `WaitForCommit` succeeds for
that index, the entry applied there is the proposed one exactly if the log still
has an entry of the proposal's term there. -/
theorem applied_iff_term_kept (cfg : Config) (acts : List Action) (s s₁ s₂ : Cluster)
    (hs : (cluster cfg).run acts = some s) (v : NodeId) (type : RaftEntryType) (payload : Bytes)
    (idx : ℕ) (hidx : ((s.node v).propose type payload).2 = idx) (hne : idx ≠ 0)
    (hs₁ : (cluster cfg).step s (.propose v type payload) = some s₁) (acts' : List Action)
    (hs₂ : (cluster cfg).runFrom s₁ acts' = some s₂)
    (hwait : (s₂.node v).waitForCommit idx = true) :
    (s₂.node v).log.termAt idx = (s.node v).currentTerm ↔
      (s₂.applied v)[idx - 1]? = some ⟨idx, (s.node v).currentTerm, type, payload⟩ := by
  obtain ⟨a, ha⟩ := run_sim hs
  obtain ⟨a₁, ha₁, he₁⟩ := propose_sim ha hs₁ (by rw [hidx]; exact hne)
  obtain ⟨a₂, hg, ha₂⟩ := runFrom_sim ha₁ hs₂
  rw [hidx] at he₁
  obtain ⟨i, rfl⟩ : ∃ i, idx = i + 1 := ⟨idx - 1, by omega⟩
  rw [Nat.add_sub_cancel] at he₁ ⊢
  -- the proposal is still in the log of the leader of its term
  have he₂ : (a₂.leaderLog (s.node v).currentTerm)[i]? =
      some ⟨i + 1, (s.node v).currentTerm, type, payload⟩ := by
    obtain ⟨t, ht⟩ := hg.leaderLog (s.node v).currentTerm
    rw [← ht, List.getElem?_append_left (List.getElem?_eq_some_iff.mp he₁).1]
    exact he₁
  have hn := ha₂.node v
  have hi : i < (s₂.node v).lastApplied := of_decide_eq_true hwait
  have happ : (s₂.applied v)[i]? = (s₂.node v).log.entries[i]? := by
    rw [hn.applied_eq, getElem?_take_of_lt hi]
  have hlen : i < (s₂.node v).log.entries.length := by
    have h1 := hn.applied_le
    have h2 := hn.commit.le_length
    omega
  obtain ⟨x, hx⟩ : ∃ x, (s₂.node v).log.entries[i]? = some x := ⟨_, getElem?_eq_getElem hlen⟩
  rw [happ, RaftLog.termAt_eq, hx]
  constructor
  · intro hterm
    have hxt : x.term = (s.node v).currentTerm := hterm
    have htake := matching_take (hn.log ▸ ha₂.legal.inv.rooted_log v)
      (ha₂.legal.inv.rooted_leader _) hx he₂ hxt
    have := congrArg (fun l => l[i]?) htake
    simp only [getElem?_take_of_lt (Nat.lt_succ_self i)] at this
    rw [← hx, this, he₂]
  · intro heq
    rw [heq]
    rfl

theorem applied_iff_term_kept_commitAndApply :
    ∃ s s₁ s₂, (cluster three).run electFirst = some s ∧
      ((s.node 1).propose .txnCommit [7]).2 = 2 ∧
      (cluster three).step s (.propose 1 .txnCommit [7]) = some s₁ ∧
      (cluster three).runFrom s₁ ((commitAndApply.drop 4).take 4) = some s₂ ∧
      (s₂.node 1).waitForCommit 2 = true ∧
      (s₂.applied 1)[1]? = some ⟨2, 1, .txnCommit, [7]⟩ :=
  ⟨_, _, _, rfl, rfl, rfl, rfl, by decide,
    (applied_iff_term_kept three electFirst _ _ _ rfl 1 .txnCommit [7] 2 rfl (by decide) rfl
      ((commitAndApply.drop 4).take 4) rfl (by decide)).mp (by decide)⟩

/-- A successful wait for somebody else's entry: node 1 proposes a commit and gets
index 2, is replaced by node 2, and then applies node 2's entry under that index,
all without a restart of node 1. -/
theorem applied_other_proposal :
    ∃ s s₁ s₂, (cluster three).run electFirst = some s ∧
      ((s.node 1).propose .txnCommit [1]).2 = 2 ∧
      (cluster three).step s (.propose 1 .txnCommit [1]) = some s₁ ∧
      (cluster three).runFrom s₁ takeOver = some s₂ ∧
      (s₂.node 1).waitForCommit 2 = true ∧ s₂.past 1 = [] ∧
      (s₂.applied 1)[1]? = some ⟨2, 2, .txnCommit, [2]⟩ :=
  ⟨_, _, _, rfl, rfl, rfl, rfl, by decide, rfl, by decide⟩

end TransDb.Raft
