import TransDb.Shard.Promise

/-!
# Leader and followers

Followers import what the leader has built locally.  Under one leader and with requests in
order, every entry puts on every replica what the log says, and so replicas that have
applied the same part of the log have the same store.

* `Convergent` — the invariant; `Convergent.next` **keeps it**.
* `replicas_converge` — **replicas at the same point of the log have the same store**, in
  every such run.
* `repeated_prepare_diverges` — after a repeated `Prepare` the leader skips a commit that
  the follower applies.
-/

namespace TransDb.Shard

open Function Storage Txn Raft

/-- The promises of the leader, and followers that agree with the log on everything. -/
structure Convergent (s : ShardService) : Prop where
  promises : Promises s
  standing : ∀ r, s.leader ≠ some r → ∀ T, Standing s.log (s.replicas r) T
  puts : ∀ r, PutsAgree s.log (s.replicas r)

theorem Convergent.init : Convergent .init where
  promises := Promises.init
  standing := fun _ _ T => Standing.init _ T
  puts := fun _ _ hj => by cases hj

section

variable {s : ShardService} {th : ThreadId} {x : Handler} {f : Effect} {timedOut : Bool}

/-- A query changes nothing. -/
theorem Steps.query {T : RaftTxnId} (hs : Steps s x x.pc f) (hof : x.pc.Of x.rpc)
    (hrpc : x.rpc = .queryTxnState T) : f.replica = s.replicas x.replica := by
  obtain ⟨rpc, r, pc⟩ := x
  cases (show rpc = _ from hrpc)
  have hof : pc.Of (.queryTxnState T) := hof
  cases hs with
  | @more _ _ next _ _ hcall | @returned _ next _ _ _ hcall =>
    obtain ⟨op, -, hop⟩ := hof
    cases next with
    | begun | prepared | aborted => cases hop.1
    | answer =>
      obtain ⟨e, l, hrpc, -⟩ := hop
      cases hrpc
    | abandoned =>
      obtain ⟨⟨ts, hrpc⟩, -⟩ := hop
      cases hrpc
  | register => cases hof
  | result | badResult =>
    obtain ⟨ts, hrpc⟩ := hof
    cases hrpc
  | @forgotten why =>
    cases why with
    | prepareFailed =>
      obtain ⟨ts, hrpc⟩ := hof
      cases hrpc
    | aborted => cases hof
  | _ => rfl

/-- The handlers leave the followers alone. -/
theorem Convergent.replica_after (h : Convergent s) (hx : s.handlers th = some x)
    (hs : Steps s x x.pc f) {r : ReplicaId} (hr : s.leader ≠ some r) :
    (s.after th x f).replicas r = s.replicas r := by
  by_cases hrx : r = x.replica
  · subst hrx
    rw [s.replica_after]
    obtain ⟨T, hT⟩ := (h.promises.seq.leader th x hx).resolve_left hr
    exact hs.query (h.promises.owned.shape th x hx) hT
  · exact update_of_ne hrx ..

theorem Convergent.after (h : Convergent s) (hx : s.handlers th = some x) (hs : Steps s x x.pc f)
    (horder : s.inOrder (.step th timedOut) = true) : Convergent (s.after th x f) := by
  have hpromises := h.promises.after hx hs horder
  refine ⟨hpromises, ?_, ?_⟩
  · intro r hr T
    rw [h.replica_after hx hs hr]
    exact h.promises.log_after hx hs (P := fun log => Standing log _ T) (h.standing r hr T)
      fun e _ _ => (h.standing r hr T).append (h.promises.onLog r) e
  · intro r
    by_cases hr : s.leader = some r
    · exact hpromises.puts r hr
    · rw [h.replica_after hx hs hr]
      exact h.promises.log_after hx hs (P := fun log => PutsAgree log _) (h.puts r)
        fun e _ _ => (h.puts r).append (h.promises.onLog r) e

theorem Convergent.apply (h : Convergent s) {r : ReplicaId} {R : Replica}
    (hs : s.apply r timedOut = some R) :
    Convergent { s with replicas := update s.replicas r R } := by
  have hmove := ShardService.apply_move hs (h.promises.onLog r) h.promises.log.plain
  obtain ⟨phase, hok⟩ := h.promises.owned.replica r
  refine ⟨h.promises.apply hs, ?_, ?_⟩
  · intro r' hr' T
    refine update_mono (P := fun R' => Standing s.log R' T) ?_ (h.standing r' hr' T)
    exact fun _ hst => hst.move (h.promises.onLog r) hok hmove
  · intro r'
    refine update_mono (P := PutsAgree s.log) (fun _ hputs => ?_) (h.puts r')
    refine hputs.move (h.promises.onLog r) hok ?_ hmove
    intro T ts hcmd
    by_cases hL : s.leader = some r
    · exact h.promises.standing (h.promises.log.commits _ T ts hcmd) hL
    · exact h.standing r hL T

/-- **A step in order under one leader.** -/
theorem Convergent.next (h : Convergent s) {a : Action} {s' : ShardService}
    (hC : (s.fixedLeader a && s.inOrder a) = true) (hs : s.step a = some s') : Convergent s' := by
  have hpromises := h.promises.next hC hs
  obtain ⟨hfixed, horder⟩ := (Bool.and_eq_true _ _).mp hC
  rcases ShardService.step_cases hs with
    ⟨th, rpc, rfl, hth, rfl⟩ | ⟨th, timedOut, x, f, rfl, hx, hf, rfl⟩ |
    ⟨r, timedOut, R, -, hR, rfl⟩ | ⟨n, -, -, -, rfl⟩ | ⟨leader, kept, log, rfl, -, rfl, hlog⟩
  · refine ⟨hpromises, ?_, ?_⟩ <;>
      (rcases s.receive_cases th rpc with ⟨L, -, heq⟩ | heq <;> rw [heq])
    · exact h.standing
    · exact h.standing
    · exact h.puts
    · exact h.puts
  · exact h.after hx hf horder
  · exact h.apply hR
  · exact ⟨hpromises, h.standing, h.puts⟩
  · -- the election: the log was empty, and there was no leader
    obtain ⟨hleader, hempty⟩ := h.promises.seq.fresh (of_decide_eq_true hfixed)
    have hold : ∀ r, s.leader ≠ some r := fun r => by rw [hleader]; simp
    rw [hempty, List.take_nil] at hlog
    refine ⟨hpromises, ?_, ?_⟩
    · intro r _ T
      have hst := h.standing r (hold r) T
      rw [hempty] at hst
      rcases hlog with rfl | ⟨ix, term, rfl⟩
      · exact hst
      · exact hst.append (hempty ▸ h.promises.onLog r) _
    · intro r
      have hputs := h.puts r
      rw [hempty] at hputs
      rcases hlog with rfl | ⟨ix, term, rfl⟩
      · exact hputs
      · exact hputs.append (hempty ▸ h.promises.onLog r) _

/-- **Replicas that have applied the same part of the log have the same store**, in every
run with one leader in which the requests come in order. -/
theorem replicas_converge {acts : List Action}
    (hC : shard.Meets (fun s a => (s.fixedLeader a && s.inOrder a) = true) shard.init acts)
    (h : shard.run acts = some s) {r r' : ReplicaId} (hidle : (s.replicas r).applying = none)
    (hidle' : (s.replicas r').applying = none)
    (hsame : (s.replicas r).lastApplied = (s.replicas r').lastApplied) :
    (s.replicas r).mgr.store = (s.replicas r').mgr.store := by
  have hI : Convergent s := Machine.inv_run_of_meets (I := Convergent) Convergent.init
    (fun _ _ _ hI hmeets hstep => hI.next hmeets hstep) hC h
  have hrec := (hI.promises.onLog r).recorded
  have hrec' := (hI.promises.onLog r').recorded
  rw [hrec.store, hrec'.store,
    (hI.puts r).allPuts_eq (hI.puts r') hrec hrec' hidle hidle' hsame]

end

/-- The commit of `votesThenCommits`, applied by the leader and by a follower. -/
def commitsOnBoth : List Action :=
  votesThenCommits ++ List.replicate 2 (.step 0 false) ++ applySteps 1 17

theorem replicas_converge_commitsOnBoth :
    ∃ s, shard.run commitsOnBoth = some s ∧ (s.replicas 0).lastApplied = 3 ∧
      MVCCStore.version (s.replicas 0).mgr.store 7 [1] 2 = some [5] ∧
      (s.replicas 0).mgr.store = (s.replicas 1).mgr.store := by
  obtain ⟨s, hs, h0, h1, hidle0, hidle1, hv⟩ : ∃ s, shard.run commitsOnBoth = some s ∧
      (s.replicas 0).lastApplied = 3 ∧ (s.replicas 1).lastApplied = 3 ∧
      (s.replicas 0).applying.isNone = true ∧ (s.replicas 1).applying.isNone = true ∧
      MVCCStore.version (s.replicas 0).mgr.store 7 [1] 2 = some [5] := by
    decide +kernel
  exact ⟨s, hs, h0, hv, replicas_converge (by decide +kernel) hs (Option.isNone_iff_eq_none.mp hidle0)
    (Option.isNone_iff_eq_none.mp hidle1) (h0.trans h1.symm)⟩

/-- After the vote a second copy of the `Prepare` arrives; then the commit is served, and
the leader and a follower apply the log. -/
def repeatsPrepare : List Action :=
  [.elect (some 0) 0, .advance 1] ++ applySteps 0 2 ++ preparesAndVotes ++
    rpcOf 1 (.prepare 10 2) 8 ++ rpcOf 0 (.commit 10 2) 1 ++ [.advance 3] ++ applySteps 0 2 ++
    List.replicate 2 (.step 0 false) ++ applySteps 1 17

/-- **A repeated `Prepare` makes leader and follower differ**: it aborts the local
transaction on the leader, which then skips the commit that the follower applies. -/
theorem repeated_prepare_diverges :
    ∃ s, shard.run repeatsPrepare = some s ∧
      .answered 0 (.prepare 10 2) (.prepare true "") ∈ s.history ∧ inProgress s.history = [] ∧
      (s.replicas 0).lastApplied = 3 ∧ (s.replicas 1).lastApplied = 3 ∧
      MVCCStore.version (s.replicas 0).mgr.store 7 [1] 2 = none ∧
      MVCCStore.version (s.replicas 1).mgr.store 7 [1] 2 = some [5] := by decide +kernel

end TransDb.Shard
