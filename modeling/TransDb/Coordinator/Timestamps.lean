import TransDb.Coordinator.Atomicity

/-!
# Timestamps across restarts

`ts_oracle_` starts at 1 in every lifetime of the coordinator.  Within one lifetime the
timestamps grow; so commits and later snapshots are in order as long as the coordinator
is not restarted once a commit has drawn its timestamp.

* `Before` — the order in which events may stand in the history.
* `Timed` — the history is in that order.
* `snapshot_after_commit` — **a transaction sees what was committed before it began**, and
  commit timestamps grow; `snapshot_below_commit` — not so across a restart.
-/

namespace TransDb.Coordinator

open Option List Storage Txn Raft Shard

/-- The timestamp of an event that draws one. -/
def CoordEvent.ts : CoordEvent → Option Timestamp
  | .begun _ ts => some ts
  | .drew _ ts => some ts
  | _ => none

/-- The later event has a larger timestamp than an earlier commit, and is not itself the draw
of a commit that had returned. -/
structure Before (later earlier : CoordEvent) : Prop where
  ts : ∀ T c t, earlier = .drew T c → later.ts = some t → c < t
  returned : ∀ T c st, later = .drew T c → earlier ≠ .returned T .commit st

/-- The condition on runs: there are timestamps left, and the coordinator crashes only as
long as no commit has drawn one. -/
def onOneClock (s : Cluster) (a : Action) : Prop :=
  s.clock.toNat + 1 < 2 ^ 64 ∧
    match a with
    | .crash _ => ∀ ev ∈ s.history, ∀ T c, ev ≠ .drew T c
    | _ => True

/-- **The invariant** of the timestamps. -/
structure Timed (s : Cluster) : Prop where
  clock : ∀ T c, .drew T c ∈ s.history → c < s.clock
  order : s.history.Pairwise Before
  returned : ∀ T op st, .returned T op st ∈ s.history →
    s.hasBegun T = true ∧ (op = .commit → s.txns T = none)
  recovering : ∀ p, s.life = .recovering p → ∀ T c, .drew T c ∉ s.history

section Steps

variable {cfg : Config} {first : ℕ → RaftTxnId} {s s' : Cluster} {a : Action}

/-- What a step does to the clock, to `txns_` and to the life of the coordinator. -/
structure Advances (s : Cluster) (a : Action) (s' : Cluster) : Prop where
  clock : s'.clock = s.clock ∨ s'.clock = s.clock + 1 ∨ ∃ kept, a = .crash kept
  txns : ∀ T, s'.txns T ≠ none → s.txns T ≠ none ∨ (a = .begin ∧ T = s.nextTxnId)
  life : ∀ p, s'.life = .recovering p → (∃ q, s.life = .recovering q) ∨ ∃ kept, a = .crash kept

theorem Advances.of_eq (hclock : s'.clock = s.clock) (htxns : s'.txns = s.txns)
    (hlife : ∀ p, s'.life = .recovering p → ∃ q, s.life = .recovering q) : Advances s a s' where
  clock := .inl hclock
  txns := fun _ hT => .inl (htxns ▸ hT)
  life := fun p hp => .inl (hlife p hp)

/-- Setting the code of an operation that is in progress changes none of this. -/
theorem Advances.setProc (h : Advances s a s') {who : Who} {p : Proc} (q : Proc)
    (hp : s.proc who = some p) : Advances s a (s'.setProc q who) := by
  cases who with
  | client T => exact ⟨h.clock, h.txns, h.life⟩
  | recovery => exact ⟨h.clock, h.txns, fun _ _ => .inl ⟨p, Cluster.life_of_proc hp⟩⟩

theorem Cluster.advances (hs : s.step cfg first a = some s') : Advances s a s' := by
  rcases Cluster.step_cases hs with ⟨rfl, hlife, rfl⟩ | ⟨T, op, -, -, -, -, rfl⟩ |
    ⟨who, i, p, rfl, hp, hm⟩ | ⟨who, k, i, p, -, hp, hf⟩ | ⟨who, p, st, -, hp, hc, rfl⟩ |
    ⟨kept, rfl, -, -, rfl⟩ | ⟨k, m, x, -, hm, hx, rfl⟩ | ⟨shard, b, x, aborts, -, hb, hx, rfl⟩ |
    ⟨shard, n, x, -, hx, rfl⟩
  · refine ⟨.inr (.inl rfl), ?_, fun p hp => .inl ⟨p, hp⟩⟩
    intro T hT
    by_cases heq : T = s.nextTxnId
    · exact .inr ⟨rfl, heq⟩
    · exact .inl (by simpa [Cluster.begun, Function.update_of_ne heq] using hT)
  · exact .of_eq rfl rfl fun p hp => ⟨p, hp⟩
  · rcases Cluster.mainStep_cases hm with ⟨shard, rpc, next, out, hc, hout, rfl⟩ |
      ⟨e, next, a, s2, fs, hc, hserve, rfl⟩
    · refine Advances.setProc ?_ _ hp
      rcases Cluster.callStep_cases hout with ⟨-, rfl⟩ | ⟨call, answer, -, rfl, -⟩ <;>
        exact .of_eq rfl rfl fun p hp => ⟨p, hp⟩
    · refine Advances.setProc ⟨?_, fun T hT => .inl (Cluster.serve_txns hserve hT), ?_⟩ _ hp
      · exact (Cluster.serve_history hserve).imp (fun h => h.2) fun h => .inl h.2.2
      · obtain ⟨-, -, -, hlife, -⟩ := Cluster.serve_frame hserve
        exact fun q hq => .inl ⟨q, hlife ▸ hq⟩
  · obtain ⟨x, shard, rpc, next, out, hx, hc, hout, rfl⟩ := Cluster.futureStep_cases hf
    refine Advances.setProc ?_ _ hp
    rcases Cluster.callStep_cases hout with ⟨-, rfl⟩ | ⟨call, answer, -, rfl, -⟩ <;>
      exact .of_eq rfl rfl fun p hp => ⟨p, hp⟩
  · cases who with
    | client T => exact .of_eq rfl rfl fun p hp => ⟨p, hp⟩
    | recovery => exact .of_eq rfl rfl fun _ _ => ⟨p, Cluster.life_of_proc hp⟩
  · exact ⟨.inr (.inr ⟨kept, rfl⟩), fun T hT => absurd rfl hT, fun _ _ => .inr ⟨kept, rfl⟩⟩
  all_goals exact .of_eq rfl rfl fun p hp => ⟨p, hp⟩

/-- The clock has not run out. -/
theorem lt_clock_succ (h : s.clock.toNat + 1 < 2 ^ 64) {c : Timestamp} (hc : c ≤ s.clock) :
    c < s.clock + 1 := by
  rw [UInt64.lt_iff_toNat_lt, UInt64.toNat_add]
  rw [UInt64.le_iff_toNat_le] at hc
  simp only [UInt64.toNat_one]
  omega

theorem Timed.init : Timed (.init cfg first) where
  clock := by rintro T c ⟨⟩
  order := List.Pairwise.nil
  returned := by rintro T op st ⟨⟩
  recovering := by rintro p _ T c ⟨⟩

/-- While the coordinator recovers nothing is prepared, so `Recover` draws no timestamp. -/
theorem Timed.drivesNoCommit (h : Timed s) (hI : Disciplined none true s) (a : Action) :
    Coordinator.drivesNoCommit s a := by
  unfold Coordinator.drivesNoCommit
  split
  · rename_i i
    intro hnow
    obtain ⟨p, hp, hcode⟩ := bind_eq_some_iff.mp hnow
    have hlife := Cluster.life_of_proc hp
    have hsafe := (hI.recovery p hlife).2
    split at hcode
    · rename_i e next hc
      cases hcode
      rw [hc] at hsafe
      obtain ⟨T, r, hr, htype⟩ := hsafe.1
      obtain ⟨hmem, -⟩ := mem_recordsOf.mp hr
      obtain ⟨c, hc⟩ := ne_none_iff_exists'.mp (hI.ledger.prepared r hmem htype).2
      exact h.recovering p hlife r.txnId c (mem_of_drawn hc)
    · cases hcode
  · trivial

/-- A client's operation that is about to draw is that of a transaction in `txns_`. -/
theorem Disciplined.draws (hI : Disciplined none true s) {T : RaftTxnId}
    (h : s.asks (.client T) = some .now) : s.life = .up ∧ s.txns T ≠ none := by
  obtain ⟨p, hp, hcode⟩ := bind_eq_some_iff.mp h
  obtain ⟨op, hproc⟩ := Cluster.procs_of_proc hp
  obtain ⟨hup, -, hsafe⟩ := hI.client T op p hproc
  split at hcode
  · rename_i e next hc
    cases hcode
    rw [hc] at hsafe
    exact ⟨hup, hsafe.1.2⟩
  · cases hcode

theorem Timed.step (h : Timed s) (hI : Disciplined none true s) (hids : distinctIds s a)
    (hcond : onOneClock s a) (hs : s.step cfg first a = some s') : Timed s' := by
  have hadv := Cluster.advances hs
  -- a transaction that was begun does not come back
  have hgone : ∀ {T}, s.hasBegun T = true → s.txns T = none → s'.txns T = none := by
    intro T hbegun hnone
    by_contra hne
    rcases hadv.txns T hne with hold | ⟨rfl, rfl⟩
    · exact hold hnone
    · rw [show s.hasBegun s.nextTxnId = false from hids] at hbegun
      cases hbegun
  have hclock : ∀ {T c}, .drew T c ∈ s.history → c < s'.clock := by
    intro T c hc
    have hlt := h.clock T c hc
    rcases hadv.clock with heq | heq | ⟨kept, rfl⟩
    · exact heq ▸ hlt
    · exact heq ▸ lt_clock_succ hcond.1 (UInt64.le_of_lt hlt)
    · exact absurd rfl (hcond.2 _ hc T c)
  have hreturned : ∀ {T} {op : ClientOp}, s.hasBegun T = true → (op = .commit → s.txns T = none) →
      s.history ⊆ s'.history → s'.hasBegun T = true ∧ (op = .commit → s'.txns T = none) :=
    fun hbegun htxn hsub =>
      ⟨Cluster.hasBegun_mono hsub hbegun, fun hop => hgone hbegun (htxn hop)⟩
  have hrecovering : ∀ {p}, s'.life = .recovering p → ∀ T c, .drew T c ∉ s.history := by
    intro p hp T c hc
    rcases hadv.life p hp with ⟨q, hq⟩ | ⟨kept, rfl⟩
    · exact h.recovering q hq T c hc
    · exact hcond.2 _ hc T c rfl
  -- one more event
  have hcons : ∀ {ev}, s'.history = ev :: s.history →
      (∀ T c, ev = .drew T c → c < s'.clock ∧ ∀ p, s'.life ≠ .recovering p) →
      (∀ old ∈ s.history, Before ev old) →
      (∀ T op st, ev = .returned T op st →
        s.hasBegun T = true ∧ (op = .commit → s.txns T = none)) → Timed s' := by
    intro ev heq hdrew hbefore hret
    have hsub : s.history ⊆ s'.history := heq ▸ subset_cons_self _ _
    refine ⟨?_, heq ▸ .cons hbefore h.order, ?_, ?_⟩
    · intro T c hc
      rcases mem_cons.mp (heq ▸ hc) with hnew | hold
      · exact (hdrew T c hnew.symm).1
      · exact hclock hold
    · intro T op st hr
      rcases mem_cons.mp (heq ▸ hr) with hnew | hold
      · exact hreturned (hret T op st hnew.symm).1 (hret T op st hnew.symm).2 hsub
      · exact hreturned (h.returned T op st hold).1 (h.returned T op st hold).2 hsub
    · intro p hp T c hc
      rcases mem_cons.mp (heq ▸ hc) with hnew | hold
      · exact (hdrew T c hnew.symm).2 p hp
      · exact hrecovering hp T c hold
  rcases Cluster.history_cases hs with heq | ⟨rfl, heq⟩ | ⟨T, i, rfl, hnow, heq, htick⟩ |
    ⟨T, op, p, st, hproc, hret, heq⟩ | ⟨st, heq⟩
  · refine ⟨?_, heq ▸ h.order, ?_, ?_⟩
    · exact fun T c hc => hclock (heq ▸ hc)
    · intro T op st hr
      obtain ⟨hbegun, htxn⟩ := h.returned T op st (heq ▸ hr)
      exact hreturned hbegun htxn (heq ▸ List.Subset.refl _)
    · exact fun p hp T c => heq ▸ hrecovering hp T c
  · refine hcons heq (by rintro T c ⟨⟩) ?_ (by rintro T op st ⟨⟩)
    intro old hold
    refine ⟨?_, by rintro T c st ⟨⟩⟩
    rintro T c t rfl ⟨⟩
    exact h.clock T c hold
  · obtain ⟨hup, htxn⟩ := hI.draws hnow
    refine hcons heq ?_ ?_ (by rintro T op st ⟨⟩)
    · rintro T' c ⟨⟩
      refine ⟨htick ▸ lt_clock_succ hcond.1 (UInt64.le_refl _), ?_⟩
      intro p hp
      rcases hadv.life p hp with ⟨q, hq⟩ | ⟨kept, hkept⟩
      · rw [hup] at hq
        cases hq
      · cases hkept
    · intro old hold
      refine ⟨?_, ?_⟩
      · rintro T' c t rfl ⟨⟩
        exact h.clock T' c hold
      · -- a transaction whose `Commit` has returned is not in `txns_`
        rintro T' c st ⟨⟩ rfl
        exact htxn ((h.returned T .commit st hold).2 rfl)
  · refine hcons heq (by rintro T c ⟨⟩) ?_ ?_
    · exact fun _ _ => ⟨by rintro T' c t - ⟨⟩, by rintro T' c st ⟨⟩⟩
    · rintro T' op' st' ⟨⟩
      obtain ⟨-, hbegun, hsafe⟩ := hI.client T op p hproc
      rw [hret] at hsafe
      exact ⟨hbegun, hsafe.2⟩
  · refine hcons heq (by rintro T c ⟨⟩) ?_ (by rintro T op st ⟨⟩)
    exact fun _ _ => ⟨by rintro T' c t - ⟨⟩, by rintro T' c st ⟨⟩⟩

end Steps

/-! ## Runs -/

section Runs

variable {cfg : Config} {first : ℕ → RaftTxnId} {acts : List Action} {s : Cluster}

/-- **Real-time order.**  If the coordinator does not crash once a commit has drawn its
timestamp, then: the commits in the logs of the shards are at the timestamps that were
drawn; a transaction that begins after `Commit` has returned gets a snapshot that is not
below; and the timestamps of commits grow. -/
theorem snapshot_after_commit
    (hC : (cluster cfg first).Meets (fun s a => distinctIds s a ∧ onOneClock s a)
      (cluster cfg first).init acts)
    (h : (cluster cfg first).run acts = some s) :
    (∀ shard T ts, Commits s shard T ts → .drew T ts ∈ s.history) ∧
      (∀ later T' snapshotTs earlier, s.history = later ++ .begun T' snapshotTs :: earlier →
        ∀ shard T ts st, .returned T .commit st ∈ earlier → Commits s shard T ts →
          ts ≤ snapshotTs) ∧
      ∀ later T' c' earlier, s.history = later ++ .drew T' c' :: earlier →
        ∀ T c, .drew T c ∈ earlier → c < c' := by
  have hdelivered := delivered_of_run h
  obtain ⟨hI, htimed⟩ : Disciplined none true s ∧ Timed s := by
    refine Machine.inv_run_of_meets (I := fun s => Disciplined none true s ∧ Timed s)
      ⟨Disciplined.init, Timed.init⟩ ?_ hC h
    rintro s a s' ⟨hI, htimed⟩ ⟨hids, hclock⟩ hstep
    have hdrives := htimed.drivesNoCommit hI a
    exact ⟨hI.step (.none _) hids (by rintro ⟨⟩) (fun _ => hdrives) hstep, htimed.step hI hids hclock hstep⟩
  have hdrew : ∀ shard T ts, Commits s shard T ts → .drew T ts ∈ s.history :=
    fun shard T ts hc => (hI.sent _ (hc.sent hdelivered)).1 rfl
  have horder := htimed.order
  refine ⟨hdrew, ?_, ?_⟩
  · intro later T' snapshotTs earlier hsplit shard T ts st hret hc
    have hmem := hdrew shard T ts hc
    rw [hsplit] at horder hmem
    rw [pairwise_append] at horder
    rcases mem_append.mp hmem with hlate | hrest
    · -- it was drawn before `Commit` returned
      have := horder.2.2 _ hlate _ (mem_cons_of_mem _ hret)
      exact absurd rfl (this.returned T ts st rfl)
    · rcases mem_cons.mp hrest with hnew | hearly
      · cases hnew
      · have := (pairwise_cons.mp horder.2.1).1 _ hearly
        exact UInt64.le_of_lt (this.ts T ts snapshotTs rfl rfl)
  · intro later T' c' earlier hsplit T c hc
    rw [hsplit, pairwise_append] at horder
    exact ((pairwise_cons.mp horder.2.1).1 _ hc).ts T c c' rfl rfl

end Runs

/-! ## Scenarios -/

/-- A timestamp is drawn. -/
def CoordEvent.isDraw : CoordEvent → Bool
  | .drew _ _ => true
  | _ => false

theorem CoordEvent.isDraw_eq_false {ev : CoordEvent} :
    ev.isDraw = false ↔ ∀ T c, ev ≠ .drew T c := by
  cases ev <;> simp [isDraw]

instance (s : Cluster) : DecidablePred (onOneClock s)
  | .crash _ => @instDecidableAnd _ _ _
      (@List.decidableBAll _ _ (fun _ => decidable_of_iff _ CoordEvent.isDraw_eq_false) _)
  | .begin | .start .. | .main .. | .future .. | .finish _ | .deliver _ | .shard ..
  | .restartShard .. => inferInstanceAs (Decidable (_ ∧ True))

/-- Transaction 1 is committed, and then another one begins. -/
def beginsAfterCommit : List Action :=
  booted ++ [.begin] ++ commitsOnShard 1 0 1 ++ [.begin]

theorem snapshot_after_commit_beginsAfterCommit :
    ∃ s, (cluster twoShards fun _ => 1).run beginsAfterCommit = some s ∧ Commits s 0 1 2 ∧
      s.history = [.begun 2 3, .returned 1 .commit .ok, .drew 1 2,
        .returned 1 (.execute [1] (.write 7 [1] [5])) .ok, .begun 1 1, .recovered .ok] ∧
      (2 : Timestamp) ≤ 3 := by
  obtain ⟨s, hs, hc, hhistory⟩ : ∃ s,
      (cluster twoShards fun _ => 1).run beginsAfterCommit = some s ∧ Commits s 0 1 2 ∧
      s.history = [.begun 2 3, .returned 1 .commit .ok, .drew 1 2,
        .returned 1 (.execute [1] (.write 7 [1] [5])) .ok, .begun 1 1, .recovered .ok] := by
    decide +kernel
  have hmain := snapshot_after_commit (by decide +kernel) hs
  exact ⟨s, hs, hc, hhistory,
    hmain.2.1 [] 2 3 _ hhistory 0 1 2 .ok mem_cons_self hc⟩

/-- Transaction 1 is committed, the coordinator crashes and recovers, and a transaction
begins. -/
def beginsAfterRestart : List Action :=
  booted ++ [.begin] ++ commitsOnShard 1 0 1 ++ [.crash 3] ++ replayed [1] ++
    [.finish .recovery, .begin]

/-- **A restart hides what was committed**: the transaction was committed at 2, and the one
that begins after the restart has the snapshot 1. -/
theorem snapshot_below_commit :
    ∃ s, (cluster twoShards fun _ => 1).run beginsAfterRestart = some s ∧ Commits s 0 1 2 ∧
      ((s.shards 0).replicas 0).lastApplied = (s.shards 0).log.length ∧
      s.history = [.begun 1 1, .recovered .ok, .returned 1 .commit .ok, .drew 1 2,
        .returned 1 (.execute [1] (.write 7 [1] [5])) .ok, .begun 1 1, .recovered .ok] := by
  decide +kernel

end TransDb.Coordinator
