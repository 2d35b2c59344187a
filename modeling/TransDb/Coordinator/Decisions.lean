import TransDb.Coordinator.Ledger

/-!
# Decisions of the coordinator

What holds in every state of the cluster, if no transaction id is handed out twice: all
operations in progress keep to their rules, and what they have sent is covered by the
history and by the log.

* `Disciplined` — the invariant of the coordinator; `Disciplined.step` **keeps it**.
* `distinctIds`, `keepsDecisions`, `drivesNoCommit` — conditions on runs.
-/

namespace TransDb.Coordinator

open Option List Function Storage Txn Raft Shard

/-! ## The invariant -/

/-- What holds of a transaction when an operation on it has returned. -/
def ClientOp.Done (op : ClientOp) (v : TxnView) (_ : Status) : Prop :=
  v.Fresh ∧ (op = .commit → v.txn = none)

/-- **The operations of clients keep to the rules.** -/
theorem ClientOp.safe {strict : Option VoteMap} {T : RaftTxnId} {v : TxnView} (cfg : Config) (op : ClientOp)
    (h : v.Fresh) : (op.code cfg T).Safe (clientRules strict T) op.Done v := by
  cases op with
  | execute key x => exact (execute_safe cfg key x h).mono fun _ _ hv => ⟨hv, by rintro ⟨⟩⟩
  | scan range => exact (scan_safe cfg range h).mono fun _ _ hv => ⟨hv, by rintro ⟨⟩⟩
  | commit => exact (commit_safe cfg h).mono fun _ _ hv => ⟨fun hne => absurd hv hne, fun _ => hv⟩
  | abort => exact (abort_safe h).mono fun _ _ hv => ⟨hv, by rintro ⟨⟩⟩

/-- All operations in progress keep to their rules, and what was sent is covered. -/
structure Disciplined (strict : Option VoteMap) (fixed : Bool) (s : Cluster) : Prop where
  ledger : Ledger strict s
  present : ∀ T, s.txns T ≠ none → s.hasBegun T = true ∧ (s.procs T = none → (s.view T []).Fresh)
  client : ∀ T op p, s.procs T = some (op, p) → s.life = .up ∧ s.hasBegun T = true ∧
    p.main.code.Safe (clientRules strict T) op.Done (s.view T p.futures)
  recovery : ∀ p, s.life = .recovering p → (∀ T, s.txns T = none) ∧
    p.main.code.Safe (recoveryRules strict fixed) Recovered s.log
  futures : ∀ who p, s.proc who = some p → ∀ x ∈ p.futures, x.Safe strict fixed s
  sent : ∀ m ∈ s.sent, s.May strict fixed m.2

/-! ## Conditions on runs -/

/-- `Begin` hands out an id that was never used. -/
def distinctIds (s : Cluster) : Action → Prop
  | .begin => s.hasBegun s.nextTxnId = false
  | _ => True

/-- The request that the main thread of an operation makes next. -/
def Cluster.asks (s : Cluster) (who : Who) : Option Request :=
  (s.proc who).bind fun p =>
    match p.main.code with
    | .ask e _ => some e
    | .ret _ => none

/-- A crash keeps the decisions that were sent, and `ABORTING` records are written. -/
def keepsDecisions (s : Cluster) : Action → Prop
  | .crash kept => ∀ m ∈ s.sent, Covered (s.log.records.take kept) m.2
  | .main who i =>
    match s.asks who with
    | some (.append r) => r.type = .aborting → i = .ok
    | _ => True
  | _ => True

/-- `Recover` draws no timestamp. -/
def drivesNoCommit (s : Cluster) : Action → Prop
  | .main .recovery _ => s.asks .recovery ≠ some .now
  | _ => True

instance (s : Cluster) : DecidablePred (distinctIds s) := by
  intro a
  cases a <;> simp only [distinctIds] <;> infer_instance

instance (s : Cluster) : DecidablePred (keepsDecisions s) := by
  intro a
  cases a <;> simp only [keepsDecisions] <;> try infer_instance
  split <;> infer_instance

instance (s : Cluster) : DecidablePred (drivesNoCommit s) := by
  intro a
  unfold drivesNoCommit
  split <;> infer_instance

/-! ## Steps -/

section Steps

variable {strict : Option VoteMap} {fixed : Bool} {cfg : Config} {first : ℕ → RaftTxnId}
  {s s1 : Cluster} {T : RaftTxnId} {op : ClientOp} {p p' : Proc}

theorem Cluster.life_of_proc (h : s.proc .recovery = some p) : s.life = .recovering p := by
  simp only [Cluster.proc] at h
  split at h
  · rename_i q hq
    rw [hq, some.inj h]
  · cases h

theorem Disciplined.init : Disciplined strict fixed (.init cfg first) where
  ledger := by
    refine ⟨?_, ?_, ?_, ?_, ?_, ?_⟩
    · rintro T b ⟨r, hr, -⟩
      cases hr
    · rintro r ⟨⟩
    · intro pre r post hr
      exact absurd hr.symm (by simp [Cluster.init])
    · rintro r ⟨⟩
    · rintro T c ⟨⟩
    · rintro T ⟨r, hr, -⟩
      cases hr
  present := fun T hT => absurd rfl hT
  client := by rintro T op p ⟨⟩
  recovery := by
    rintro p ⟨⟩
    refine ⟨fun _ => rfl, recover_safe cfg rfl ?_ ?_ ?_⟩
    · rintro T b ⟨r, hr, -⟩
      cases hr
    · rintro r ⟨⟩
    · rintro T ⟨r, hr, -⟩
      cases hr
  futures := by
    rintro (T | _) p ⟨⟩ x ⟨⟩
  sent := by rintro m ⟨⟩

/-- An operation of a client goes on. -/
theorem Disciplined.update_client (h : Disciplined strict fixed s)
    (hp : s.procs T = some (op, p)) (hgrow : Grows strict s s1) (hlife : s1.life = s.life)
    (hprocs : s1.procs = s.procs) (hothers : ∀ T', T' ≠ T → s1.view T' = s.view T')
    (hmain : p'.main.code.Safe (clientRules strict T) op.Done (s1.view T p'.futures))
    (hfutures : ∀ x ∈ p'.futures, x.Safe strict fixed s1)
    (hsent : ∀ m ∈ s1.sent, s1.May strict fixed m.2) :
    Disciplined strict fixed (s1.setProc p' (.client T)) := by
  obtain ⟨hup, hbegun, -⟩ := h.client T op p hp
  have hself : (s1.setProc p' (.client T)).procs T = some (op, p') := by
    simp [Cluster.setProc, hprocs, hp]
  have hother : ∀ T', T' ≠ T → (s1.setProc p' (.client T)).procs T' = s.procs T' := by
    intro T' hT'
    simp [Cluster.setProc, hprocs, update_of_ne hT']
  refine ⟨(h.ledger.grows hgrow).grows (.same rfl rfl), ?_, ?_, ?_, ?_, hsent⟩
  · intro T' htxn'
    by_cases hT' : T' = T
    · subst hT'
      exact ⟨Cluster.hasBegun_mono hgrow.subset hbegun, fun hnone => by simp [hself] at hnone⟩
    · have hview := hothers T' hT'
      have hsame : s1.txns T' = s.txns T' := congrArg TxnView.txn (congrFun hview [])
      obtain ⟨hb, hfresh⟩ := h.present T' (hsame ▸ htxn')
      refine ⟨Cluster.hasBegun_mono hgrow.subset hb, fun hnone => ?_⟩
      rw [hother T' hT'] at hnone
      show (s1.view T' []).Fresh
      rw [hview]
      exact hfresh hnone
  · intro T' op' q hq
    by_cases hT' : T' = T
    · subst hT'
      cases hself.symm.trans hq
      exact ⟨hlife.trans hup, Cluster.hasBegun_mono hgrow.subset hbegun, hmain⟩
    · rw [hother T' hT'] at hq
      obtain ⟨-, hb, hsafe⟩ := h.client T' op' q hq
      refine ⟨hlife.trans hup, Cluster.hasBegun_mono hgrow.subset hb, ?_⟩
      show q.main.code.Safe (clientRules strict T') op'.Done (s1.view T' q.futures)
      rw [hothers T' hT']
      exact hsafe
  · intro q hq
    rw [show (s1.setProc p' (.client T)).life = s1.life from rfl, hlife, hup] at hq
    cases hq
  · intro who q hq x hx
    cases who with
    | recovery =>
      rw [show (s1.setProc p' (.client T)).proc .recovery = s1.proc .recovery from rfl] at hq
      simp [Cluster.proc, hlife, hup] at hq
    | client T' =>
      by_cases hT' : T' = T
      · subst hT'
        rw [Cluster.proc, hself] at hq
        cases hq
        exact hfutures x hx
      · rw [Cluster.proc, hother T' hT'] at hq
        exact (h.futures (.client T') q hq x hx).mono fun _ => hgrow.may

/-- No operation is in progress while `Recover` runs. -/
theorem Disciplined.procs_of_recovering (h : Disciplined strict fixed s)
    (hp : s.life = .recovering p) (T : RaftTxnId) : s.procs T = none := by
  cases hT : s.procs T with
  | none => rfl
  | some x =>
    have := (h.client T x.1 x.2 hT).1
    rw [hp] at this
    cases this

/-- `Recover` goes on. -/
theorem Disciplined.update_recovery (h : Disciplined strict fixed s)
    (hp : s.life = .recovering p) (hgrow : Grows strict s s1) (hprocs : s1.procs = s.procs)
    (htxns : s1.txns = s.txns)
    (hmain : p'.main.code.Safe (recoveryRules strict fixed) Recovered s1.log)
    (hfutures : ∀ x ∈ p'.futures, x.Safe strict fixed s1)
    (hsent : ∀ m ∈ s1.sent, s1.May strict fixed m.2) :
    Disciplined strict fixed (s1.setProc p' .recovery) := by
  have hnone : ∀ T, (s1.setProc p' .recovery).procs T = none := by
    intro T
    show s1.procs T = none
    rw [hprocs]
    exact h.procs_of_recovering hp T
  have hidle : ∀ T, s1.txns T = none := by
    intro T
    rw [htxns]
    exact (h.recovery p hp).1 T
  refine ⟨(h.ledger.grows hgrow).grows (.same rfl rfl), ?_, ?_, ?_, ?_, hsent⟩
  · exact fun T hT => absurd (hidle T) hT
  · intro T op q hq
    rw [hnone T] at hq
    cases hq
  · intro q hq
    cases hq
    exact ⟨hidle, hmain⟩
  · intro who q hq x hx
    cases who with
    | recovery =>
      cases hq
      exact hfutures x hx
    | client T =>
      rw [Cluster.proc, hnone T] at hq
      cases hq

variable {i : Input}

/-- The futures after a request, with the one it may have started. -/
theorem serve_futures {who : Who} {e : Request} {a : e.Answer} {fs fs' : List Future}
    (hserve : s.serve cfg who fs i e = some (a, s1, fs')) (hgrow : Grows strict s s1)
    (hfs : ∀ x ∈ fs, x.Safe strict fixed s)
    (hjob : ∀ job : Job, e = .spawn job → s.May strict fixed job.rpc) :
    ∀ x ∈ fs', x.Safe strict fixed s1 := by
  intro x hx
  rcases (Cluster.serve_changes hserve).2 x hx with hold | ⟨job, he, rfl⟩
  · exact (hfs x hold).mono fun _ => hgrow.may
  · exact job.safe cfg (hgrow.may (hjob job he))

section

variable (h : Disciplined strict fixed s) (htold : Told strict s)
include h htold

/-- The main thread of a client's operation. -/
theorem Disciplined.main_client (hp : s.procs T = some (op, p))
    (hm : s.mainStep cfg (.client T) i p = some s1)
    (hok : strict.isSome → keepsDecisions s (.main (.client T) i)) :
    Disciplined strict fixed s1 := by
  obtain ⟨hup, hbegun, hsafe⟩ := h.client T op p hp
  have hproc : s.proc (.client T) = some p := by simp [Cluster.proc, hp]
  have hfutures := h.futures (.client T) p hproc
  rcases Cluster.mainStep_cases hm with ⟨shard, rpc, next, out, hc, hout, rfl⟩ |
    ⟨e, next, a, s2, fs, hc, hserve, rfl⟩
  · rw [hc] at hsafe
    rcases Cluster.callStep_cases hout with ⟨-, rfl⟩ | ⟨call, answer, -, rfl, hanswer⟩
    · refine h.update_client hp (.same rfl rfl) rfl rfl (fun _ _ => rfl) ?_ hfutures ?_
      · show p.main.code.Safe _ _ _
        rw [hc]
        exact hsafe
      · exact forall_mem_cons.mpr ⟨TxnView.MayCall.may hsafe.1, h.sent⟩
    · exact h.update_client hp (.same rfl rfl) rfl rfl (fun _ _ => rfl)
        (hsafe.2 answer _ (if_pos (htold.credible hanswer))) hfutures h.sent
  · rw [hc] at hsafe
    have hfail : strict.isSome → ∀ r, e = .append r → r.type = .aborting → i = .ok := by
      rintro hs r rfl
      simpa [keepsDecisions, Cluster.asks, hproc, hc] using hok hs
    obtain ⟨hafter, hgrow, hothers⟩ := serve_client hserve hsafe.1 hfutures hbegun hfail
    obtain ⟨-, hsent, -, hlife, hprocs, -⟩ := Cluster.serve_frame hserve
    refine h.update_client hp hgrow hlife hprocs hothers (hsafe.2 a _ hafter) ?_
      fun m hm => hgrow.may (h.sent m (hsent ▸ hm))
    refine serve_futures hserve hgrow hfutures ?_
    rintro job rfl
    exact TxnView.MayCall.may hsafe.1

/-- The main thread of `Recover`. -/
theorem Disciplined.main_recovery (hp : s.life = .recovering p)
    (hm : s.mainStep cfg .recovery i p = some s1)
    (hfixed : fixed = true → s.asks .recovery ≠ some .now) :
    Disciplined strict fixed s1 := by
  obtain ⟨-, hsafe⟩ := h.recovery p hp
  have hproc : s.proc .recovery = some p := by simp [Cluster.proc, hp]
  have hfutures := h.futures .recovery p hproc
  rcases Cluster.mainStep_cases hm with ⟨shard, rpc, next, out, hc, hout, rfl⟩ |
    ⟨e, next, a, s2, fs, hc, hserve, rfl⟩
  · rw [hc] at hsafe
    rcases Cluster.callStep_cases hout with ⟨-, rfl⟩ | ⟨call, answer, -, rfl, hanswer⟩
    · refine h.update_recovery hp (.same rfl rfl) rfl rfl ?_ hfutures ?_
      · show p.main.code.Safe _ _ _
        rw [hc]
        exact hsafe
      · exact forall_mem_cons.mpr ⟨CoordinatorLog.MayCall.may hsafe.1, h.sent⟩
    · have hcan := Bool.and_eq_true_iff.mpr ⟨htold.credible hanswer, htold.trusts h.sent hanswer⟩
      exact h.update_recovery hp (.same rfl rfl) rfl rfl (hsafe.2 answer _ (if_pos hcan)) hfutures
        h.sent
  · rw [hc] at hsafe
    obtain ⟨hafter, hgrow, htxns⟩ :=
      serve_recovery hserve hsafe.1 h.ledger fun hf he => hfixed hf (by
        simp [Cluster.asks, hproc, hc, he])
    obtain ⟨-, hsent, -, -, hprocs, -⟩ := Cluster.serve_frame hserve
    refine h.update_recovery hp hgrow hprocs htxns (hsafe.2 a _ hafter) ?_
      fun m hm => hgrow.may (h.sent m (hsent ▸ hm))
    refine serve_futures hserve hgrow hfutures ?_
    rintro job rfl
    exact CoordinatorLog.MayCall.may hsafe.1

/-- A future makes a call, or gets its answer. -/
theorem Disciplined.future {who : Who} {k : ℕ}
    (hp : s.proc who = some p) (hf : s.futureStep who k i p = some s1) :
    Disciplined strict fixed s1 := by
  obtain ⟨x, shard, rpc, next, out, hx, hc, hout, rfl⟩ := Cluster.futureStep_cases hf
  have hfutures := h.futures who p hp
  have hsafe := hfutures x (mem_of_getElem? hx)
  unfold Future.Safe at hsafe
  rw [hc] at hsafe
  -- the new state of the future keeps to its calls
  have hset : ∀ y ∈ p.futures.set k ⟨x.job, out.2⟩, y.Safe strict fixed s := by
    intro y hy
    rcases mem_or_eq_of_mem_set hy with hold | rfl
    · exact hfutures y hold
    · rcases Cluster.callStep_cases hout with ⟨-, rfl⟩ | ⟨call, answer, -, rfl, hanswer⟩
      · show x.thread.code.Safe _ _ _
        rw [hc]
        exact hsafe
      · exact hsafe.2 answer () (if_pos (htold.credible hanswer))
  have hjobs : (p.futures.set k ⟨x.job, out.2⟩).map Future.job = p.futures.map Future.job := by
    obtain ⟨hk, heq⟩ := List.getElem?_eq_some_iff.mp hx
    have hlt : k < (p.futures.map Future.job).length := by simpa using hk
    have hjob : (p.futures.map Future.job)[k] = x.job := by rw [getElem_map, heq]
    rw [map_set, ← hjob, set_getElem_self]
  have hgrow : Grows strict s out.1 ∧ out.1.life = s.life ∧ out.1.procs = s.procs ∧
      out.1.view = s.view ∧ out.1.txns = s.txns ∧ out.1.log = s.log ∧
      ∀ m ∈ out.1.sent, out.1.May strict fixed m.2 := by
    rcases Cluster.callStep_cases hout with ⟨-, rfl⟩ | ⟨call, answer, -, rfl, -⟩
    · refine ⟨.same rfl rfl, rfl, rfl, rfl, rfl, rfl, ?_⟩
      exact forall_mem_cons.mpr ⟨hsafe.1, h.sent⟩
    · exact ⟨.same rfl rfl, rfl, rfl, rfl, rfl, rfl, h.sent⟩
  obtain ⟨hgrow, hlife, hprocs, hview, htxns, hlog, hsent⟩ := hgrow
  have hset := fun y hy => (hset y hy).mono fun _ => hgrow.may
  cases who with
  | client T =>
    obtain ⟨op, hq⟩ := Cluster.procs_of_proc hp
    refine h.update_client hq hgrow hlife hprocs (fun _ _ => by rw [hview]) ?_ hset hsent
    rw [hview]
    simp only [Cluster.view, hjobs]
    exact (h.client T op p hq).2.2
  | recovery =>
    have hrec := Cluster.life_of_proc hp
    refine h.update_recovery hrec hgrow hprocs htxns ?_ hset hsent
    rw [hlog]
    exact (h.recovery p hrec).2

end

/-- No record is written, nothing is sent, and no timestamp of a commit is drawn. -/
structure Quiet (s s1 : Cluster) : Prop where
  log : s1.log = s.log
  sent : s1.sent = s.sent
  history : s1.history = s.history ∨
    ∃ ev, (∀ T c, ev ≠ .drew T c) ∧ s1.history = ev :: s.history

theorem Quiet.subset (h : Quiet s s1) : s.history ⊆ s1.history := by
  rcases h.history with heq | ⟨ev, -, heq⟩
  · exact heq ▸ List.Subset.refl _
  · exact heq ▸ subset_cons_self _ _

theorem Quiet.ledger (h : Quiet s s1) (hs : Ledger strict s) : Ledger strict s1 := by
  rcases h.history with heq | ⟨ev, hev, heq⟩
  · exact hs.grows (.same (by rw [h.log]) heq)
  · exact hs.event hev (by rw [h.log]) heq

theorem Quiet.view (h : Quiet s s1) (htxn : s1.txns T = s.txns T) : s1.view T = s.view T := by
  funext fs
  rcases h.history with heq | ⟨ev, hev, heq⟩
  · simp only [Cluster.view, h.log, heq, htxn]
  · simp only [Cluster.view, h.log, heq, htxn, drawn_cons_of_ne (hev T)]

theorem Quiet.may (h : Quiet s s1) {rpc : Rpc} (hr : s.May strict fixed rpc) :
    s1.May strict fixed rpc :=
  ⟨hr.1.mono h.subset, fun hs => h.log ▸ hr.2 hs⟩

section

variable (h : Disciplined strict fixed s)
include h

/-- A quiet step that starts or ends an operation, or none. -/
theorem Disciplined.quiet (hq : Quiet s s1) (hpresent : ∀ T, s1.txns T ≠ none →
      s1.hasBegun T = true ∧ (s1.procs T = none → (s1.view T []).Fresh))
    (hclient : ∀ T op p, s1.procs T = some (op, p) →
      (s.procs T = some (op, p) ∧ s1.txns T = s.txns T ∧ s1.life = s.life) ∨
      (s1.life = .up ∧ s1.hasBegun T = true ∧ (s1.view T []).Fresh ∧ ∃ cfg, p = .start (op.code cfg T)))
    (hrecovery : ∀ p, s1.life = .recovering p → s.life = .recovering p ∧ s1.txns = s.txns) :
    Disciplined strict fixed s1 := by
  refine ⟨hq.ledger h.ledger, hpresent, ?_, ?_, ?_, ?_⟩
  · intro T op p hp
    rcases hclient T op p hp with ⟨hold, htxn, hlife⟩ | ⟨hlife, hbegun, hfresh, cfg, rfl⟩
    · obtain ⟨hup, hbegun, hsafe⟩ := h.client T op p hold
      rw [hlife, hq.view htxn]
      exact ⟨hup, Cluster.hasBegun_mono hq.subset hbegun, hsafe⟩
    · exact ⟨hlife, hbegun, op.safe cfg hfresh⟩
  · intro p hp
    obtain ⟨hlife, htxns⟩ := hrecovery p hp
    rw [htxns, hq.log]
    exact h.recovery p hlife
  · intro who p hp x hx
    cases who with
    | client T =>
      obtain ⟨op, hproc⟩ := Cluster.procs_of_proc hp
      rcases hclient T op p hproc with ⟨hold, -, -⟩ | ⟨-, -, -, cfg, rfl⟩
      · exact (h.futures (.client T) p (by simp [Cluster.proc, hold]) x hx).mono fun _ => hq.may
      · cases hx
    | recovery =>
      have hlife : s1.life = .recovering p := Cluster.life_of_proc hp
      exact (h.futures .recovery p (by simp [Cluster.proc, (hrecovery p hlife).1]) x hx).mono
        fun _ => hq.may
  · intro m hm
    exact hq.may (h.sent m (hq.sent ▸ hm))

theorem Disciplined.begin (hlife : s.life = .up)
    (hnew : s.hasBegun s.nextTxnId = false) : Disciplined strict fixed s.begun := by
  have hq : Quiet s s.begun :=
    ⟨rfl, rfl, .inr ⟨.begun s.nextTxnId s.clock, by rintro T c ⟨⟩, rfl⟩⟩
  have hself : s.begun.hasBegun s.nextTxnId = true :=
    Cluster.hasBegun_iff.mpr ⟨s.clock, mem_cons_self⟩
  have hother : ∀ T, T ≠ s.nextTxnId → s.begun.txns T = s.txns T :=
    fun T hT => update_of_ne hT _ _
  -- the id has no record, no timestamp and no operation
  have hrecords : recordsOf s.log.records s.nextTxnId = [] := by
    refine filter_eq_nil_iff.mpr ?_
    intro r hr hid
    have := h.ledger.recorded r hr
    rw [of_decide_eq_true hid, hnew] at this
    cases this
  have hdrawn : drawn s.history s.nextTxnId = none := by
    cases hd : drawn s.history s.nextTxnId with
    | none => rfl
    | some c =>
      have := (h.ledger.drew _ c (mem_of_drawn hd)).1
      rw [hnew] at this
      cases this
  refine h.quiet hq ?_ ?_ ?_
  · intro T hT
    by_cases hT' : T = s.nextTxnId
    · subst hT'
      refine ⟨hself, fun _ _ => ⟨?_, hrecords⟩⟩
      have hev : ∀ c, CoordEvent.begun s.nextTxnId s.clock ≠ .drew s.nextTxnId c := by rintro c ⟨⟩
      exact (drawn_cons_of_ne hev).trans hdrawn
    · rw [hother T hT'] at hT
      obtain ⟨hb, hfresh⟩ := h.present T hT
      rw [hq.view (hother T hT')]
      exact ⟨Cluster.hasBegun_mono hq.subset hb, hfresh⟩
  · intro T op p hp
    refine .inl ⟨hp, hother T ?_, rfl⟩
    rintro rfl
    have := (h.client _ op p hp).2.1
    rw [hnew] at this
    cases this
  · intro p hp
    rw [show s.begun.life = s.life from rfl, hlife] at hp
    cases hp

theorem Disciplined.start (hlife : s.life = .up)
    (hbegun : s.hasBegun T = true) (hnone : s.procs T = none) :
    Disciplined strict fixed
      { s with procs := update s.procs T (some (op, .start (op.code cfg T))) } := by
  have hother : ∀ T', T' ≠ T →
      update s.procs T (some (op, .start (op.code cfg T))) T' = s.procs T' :=
    fun T' hT' => update_of_ne hT' _ _
  refine h.quiet ⟨rfl, rfl, .inl rfl⟩ ?_ ?_ ?_
  · intro T' hT'
    refine ⟨(h.present T' hT').1, fun hnone' => ?_⟩
    by_cases heq : T' = T
    · subst heq
      simp at hnone'
    · exact (h.present T' hT').2 (hother T' heq ▸ hnone')
  · intro T' op' p hp
    rcases update_eq_cases hp with ⟨rfl, ⟨⟩⟩ | ⟨-, hp⟩
    · exact .inr ⟨hlife, hbegun, fun htxn => (h.present T' htxn).2 hnone htxn, cfg, rfl⟩
    · exact .inl ⟨hp, rfl, rfl⟩
  · intro p hp
    exact ⟨hp, rfl⟩

theorem Disciplined.finish_client {st : Status}
    (hp : s.procs T = some (op, p)) (hc : p.main.code = .ret st) :
    Disciplined strict fixed (s.finish st (.client T)) := by
  obtain ⟨hup, hbegun, hsafe⟩ := h.client T op p hp
  rw [hc] at hsafe
  have hq : Quiet s (s.finish st (.client T)) := by
    refine ⟨rfl, rfl, .inr ⟨.returned T op st, by rintro T c ⟨⟩, ?_⟩⟩
    simp [Cluster.finish, hp]
  have hother : ∀ T', T' ≠ T → (s.finish st (.client T)).procs T' = s.procs T' :=
    fun T' hT' => update_of_ne hT' _ _
  refine h.quiet hq ?_ ?_ ?_
  · intro T' hT'
    refine ⟨Cluster.hasBegun_mono hq.subset (h.present T' hT').1, fun hnone => ?_⟩
    rw [hq.view rfl]
    by_cases heq : T' = T
    · subst heq
      exact hsafe.1
    · exact (h.present T' hT').2 (hother T' heq ▸ hnone)
  · intro T' op' q hq'
    have hne : T' ≠ T := by
      rintro rfl
      simp [Cluster.finish] at hq'
    exact .inl ⟨hother T' hne ▸ hq', rfl, rfl⟩
  · intro q hq'
    exact ⟨hq', rfl⟩

theorem Disciplined.finish_recovery {st : Status}
    (hp : s.life = .recovering p) : Disciplined strict fixed (s.finish st .recovery) := by
  have hq : Quiet s (s.finish st .recovery) :=
    ⟨rfl, rfl, .inr ⟨.recovered st, by rintro T c ⟨⟩, rfl⟩⟩
  refine h.quiet hq ?_ ?_ ?_
  · exact fun T hT => absurd ((h.recovery p hp).1 T) hT
  · intro T op q hq'
    have := h.procs_of_recovering hp T
    rw [show s.procs T = some (op, q) from hq'] at this
    cases this
  · intro q hq'
    simp only [Cluster.finish] at hq'
    split_ifs at hq'

/-- The coordinator starts again on what is left of its log. -/
theorem Disciplined.crash {kept : ℕ} (hkept : kept ≤ s.log.records.length)
    (hcovered : strict.isSome → ∀ m ∈ s.sent, Covered (s.log.records.take kept) m.2) :
    Disciplined strict fixed (s.crashed cfg first kept) := by
  have hledger : Ledger strict (s.crashed cfg first kept) := h.ledger.take rfl rfl
  refine ⟨hledger, fun T hT => absurd rfl hT, ?_, ?_, ?_, ?_⟩
  · rintro T op p ⟨⟩
  · rintro p ⟨⟩
    refine ⟨fun _ => rfl, recover_safe cfg ?_ hledger.consistent ?_ hledger.voted⟩
    · simp [Cluster.crashed, hkept]
    · exact fun r hr htype => ⟨(hledger.prepared r hr htype).1, hledger.shards_eq hr htype⟩
  · intro who p hp x hx
    cases who with
    | client T => cases hp
    | recovery =>
      cases hp
      cases hx
  · intro m hm
    exact ⟨(h.sent m hm).1, fun hs => hcovered hs m hm⟩

/-- **A step of the cluster.** -/
theorem Disciplined.step (htold : Told strict s) {a : Action}
    (hids : distinctIds s a) (hkeeps : strict.isSome → keepsDecisions s a)
    (hfixed : fixed = true → drivesNoCommit s a) (hs : s.step cfg first a = some s1) :
    Disciplined strict fixed s1 := by
  have hshard : ∀ {s2 : Cluster} {shard x}, Quiet s s2 → s2.procs = s.procs → s2.txns = s.txns →
      s2.life = s.life → Disciplined strict fixed (s2.setShard shard x) := by
    intro s2 shard x hq hprocs htxns hlife
    have hq' : Quiet s (s2.setShard shard x) := ⟨hq.log, hq.sent, hq.history⟩
    refine h.quiet hq' ?_ ?_ ?_
    · intro T hT
      obtain ⟨hb, hfresh⟩ := h.present T (htxns ▸ hT)
      refine ⟨Cluster.hasBegun_mono hq'.subset hb, fun hnone => ?_⟩
      rw [hq'.view (congrFun htxns T)]
      exact hfresh (hprocs ▸ hnone)
    · intro T op p hp
      exact .inl ⟨hprocs ▸ hp, congrFun htxns T, hlife⟩
    · intro p hp
      exact ⟨hlife ▸ hp, htxns⟩
  rcases Cluster.step_cases hs with ⟨rfl, hlife, rfl⟩ | ⟨T, op, -, hlife, hbegun, hnone, rfl⟩ |
    ⟨who, i, p, rfl, hp, hm⟩ | ⟨who, k, i, p, -, hp, hf⟩ | ⟨who, p, st, -, hp, hc, rfl⟩ |
    ⟨kept, rfl, -, hkept, rfl⟩ | ⟨k, m, x, -, hm, hx, rfl⟩ | ⟨shard, b, x, aborts, -, hb, hx, rfl⟩ |
    ⟨shard, n, x, -, hx, rfl⟩
  · exact h.begin hlife hids
  · exact h.start hlife hbegun hnone
  · cases who with
    | client T =>
      obtain ⟨op, hproc⟩ := Cluster.procs_of_proc hp
      exact h.main_client htold hproc hm hkeeps
    | recovery => exact h.main_recovery htold (Cluster.life_of_proc hp) hm hfixed
  · exact h.future htold hp hf
  · cases who with
    | client T =>
      obtain ⟨op, hproc⟩ := Cluster.procs_of_proc hp
      exact h.finish_client hproc hc
    | recovery => exact h.finish_recovery (Cluster.life_of_proc hp)
  · exact h.crash hkept hkeeps
  · exact hshard ⟨rfl, rfl, .inl rfl⟩ rfl rfl rfl
  · exact hshard ⟨rfl, rfl, .inl rfl⟩ rfl rfl rfl
  · exact hshard ⟨rfl, rfl, .inl rfl⟩ rfl rfl rfl

end

/-- **What a step adds to the history**: a new transaction, a drawn timestamp, the end of an
operation, or nothing. -/
theorem Cluster.history_cases {s s' : Cluster} {a : Action} (hs : s.step cfg first a = some s') :
    s'.history = s.history ∨
    (a = .begin ∧ s'.history = .begun s.nextTxnId s.clock :: s.history) ∨
    (∃ T i, a = .main (.client T) i ∧ s.asks (.client T) = some .now ∧
      s'.history = .drew T s.clock :: s.history ∧ s'.clock = s.clock + 1) ∨
    (∃ T op p st, s.procs T = some (op, p) ∧ p.main.code = .ret st ∧
      s'.history = .returned T op st :: s.history) ∨
    ∃ st, s'.history = .recovered st :: s.history := by
  rcases Cluster.step_cases hs with ⟨rfl, -, rfl⟩ | ⟨T, op, -, -, -, -, rfl⟩ |
    ⟨who, i, p, rfl, hp, hm⟩ | ⟨who, k, i, p, -, hp, hf⟩ | ⟨who, p, st, -, hp, hc, rfl⟩ |
    ⟨kept, -, -, -, rfl⟩ | ⟨k, m, x, -, hm, hx, rfl⟩ | ⟨shard, b, x, aborts, -, hb, hx, rfl⟩ |
    ⟨shard, n, x, -, hx, rfl⟩
  · exact .inr (.inl ⟨rfl, rfl⟩)
  · exact .inl rfl
  · rcases Cluster.mainStep_cases hm with ⟨shard, rpc, next, out, hc, hout, rfl⟩ |
      ⟨e, next, a, s2, fs, hc, hserve, rfl⟩
    · rcases Cluster.callStep_cases hout with ⟨-, rfl⟩ | ⟨call, answer, -, rfl, -⟩ <;>
        cases who <;> exact .inl rfl
    · rcases Cluster.serve_history hserve with ⟨heq, -⟩ | ⟨rfl, heq, hclock⟩
      · cases who <;> exact .inl heq
      · cases who with
        | recovery => exact .inl heq
        | client T =>
          refine .inr (.inr (.inl ⟨T, i, rfl, ?_, heq, hclock⟩))
          simp [Cluster.asks, hp, hc]
  · obtain ⟨x, shard, rpc, next, out, hx, hc, hout, rfl⟩ := Cluster.futureStep_cases hf
    rcases Cluster.callStep_cases hout with ⟨-, rfl⟩ | ⟨call, answer, -, rfl, -⟩ <;>
      cases who <;> exact .inl rfl
  · cases who with
    | client T =>
      obtain ⟨op, hproc⟩ := Cluster.procs_of_proc hp
      refine .inr (.inr (.inr (.inl ⟨T, op, p, st, hproc, hc, ?_⟩)))
      simp [Cluster.finish, hproc]
    | recovery => exact .inr (.inr (.inr (.inr ⟨st, rfl⟩)))
  all_goals exact .inl rfl

end Steps

/-! ## Runs -/

section Runs

variable {cfg : Config} {first : ℕ → RaftTxnId} {acts : List Action} {s s' : Cluster}

theorem disciplined_of_distinctIds
    (hids : (cluster cfg first).Meets distinctIds (cluster cfg first).init acts)
    (h : (cluster cfg first).run acts = some s) : Disciplined none false s :=
  Machine.inv_run_of_meets (I := Disciplined none false) Disciplined.init
    (fun _ _ _ hI hid hstep => hI.step (.none _) hid (by rintro ⟨⟩) (by rintro ⟨⟩) hstep) hids h

/-- When `Recover` has returned OK, all that was prepared is decided. -/
theorem Disciplined.recovered {strict : Option VoteMap} {fixed : Bool} (h : Disciplined strict fixed s)
    (hs : s.step cfg first (.finish .recovery) = some s') (hup : s'.life = .up) :
    s'.log = s.log ∧ s'.log.flushed = s'.log.records.length ∧ ∀ T, Decided s'.log.records T := by
  obtain ⟨st, hst, rfl⟩ := map_eq_some_iff.mp hs
  obtain ⟨p, hp, hres⟩ := bind_eq_some_iff.mp hst
  have hlife := Cluster.life_of_proc hp
  have hsafe := (h.recovery p hlife).2
  rw [Thread.code_of_result hres] at hsafe
  have hok : st.code = .ok := by
    by_contra hne
    simp [Cluster.finish, hne] at hup
  exact ⟨rfl, hsafe hok⟩

/-- **Decisions are unique and recovery is idempotent.**  In every run in which no id is
handed out twice: the durable log has no transaction with records on both sides; and when
`Recover` returns OK, whatever was prepared is decided in the durable log, so that `Recover`
would only read that log. -/
theorem decisions_unique_recovery_idempotent
    (hids : (cluster cfg first).Meets distinctIds (cluster cfg first).init acts)
    (h : (cluster cfg first).run acts = some s) :
    (∀ T, ¬ (Sides (recordsOf s.log.durable T) true ∧ Sides (recordsOf s.log.durable T) false)) ∧
      ∀ s', s.step cfg first (.finish .recovery) = some s' → s'.life = .up →
        s'.log.durable = s'.log.records ∧
        (∀ T, Has (recordsOf s'.log.records T) .preparing →
          Has (recordsOf s'.log.records T) .committed ∨ Has (recordsOf s'.log.records T) .aborted) ∧
        (recover cfg).Safe (readsOnly s'.log.records) (fun _ st => st = .ok) () := by
  have hI := disciplined_of_distinctIds hids h
  refine ⟨?_, ?_⟩
  · have hsub : ∀ {T r}, r ∈ recordsOf s.log.durable T → r ∈ recordsOf s.log.records T := by
      intro T r hr
      obtain ⟨hmem, hid⟩ := mem_recordsOf.mp hr
      exact mem_recordsOf.mpr ⟨mem_of_mem_take hmem, hid⟩
    rintro T ⟨⟨r, hr, hside⟩, ⟨r', hr', hside'⟩⟩
    exact hI.ledger.consistent T true ⟨r, hsub hr, hside⟩ ⟨r', hsub hr', hside'⟩
  · intro s' hs hup
    obtain ⟨-, hflushed, hdecided⟩ := hI.recovered hs hup
    refine ⟨?_, hdecided, recover_readsOnly cfg hdecided⟩
    rw [CoordinatorLog.durable, hflushed, take_length]

/-- The number of transactions that had an id. -/
def Cluster.begins (s : Cluster) (T : RaftTxnId) : ℕ :=
  s.history.countP fun
    | .begun T' _ => decide (T' = T)
    | _ => false

/-- An id is handed out once. -/
theorem begins_le_one (hids : (cluster cfg first).Meets distinctIds (cluster cfg first).init acts)
    (h : (cluster cfg first).run acts = some s) (T : RaftTxnId) : s.begins T ≤ 1 := by
  refine Machine.inv_run_of_meets (I := fun s => s.begins T ≤ 1) (Nat.zero_le _) ?_ hids h
  intro s a s' hI hid hs
  rcases Cluster.history_cases hs with heq | ⟨rfl, heq⟩ | ⟨T', i, -, -, heq, -⟩ |
    ⟨T', op, p, st, -, -, heq⟩ | ⟨st, heq⟩
  · unfold Cluster.begins at hI ⊢
    rw [heq]
    exact hI
  · unfold Cluster.begins at hI ⊢
    rw [heq, countP_cons]
    by_cases hT : s.nextTxnId = T
    · -- the id is new
      have hnone : s.begins T = 0 := by
        refine countP_eq_zero.mpr ?_
        intro ev hev hbegun
        have : s.hasBegun s.nextTxnId = true := any_eq_true.mpr ⟨ev, hev, hT ▸ hbegun⟩
        rw [show s.hasBegun s.nextTxnId = false from hid] at this
        cases this
      unfold Cluster.begins at hnone
      rw [hnone]
      simp [hT]
    · simpa [hT] using hI
  all_goals
    unfold Cluster.begins at hI ⊢
    rw [heq, countP_cons]
    simpa using hI

/-- **`Recover` decides every transaction from its own records.**  In every run in which no
id is handed out twice: only one transaction had an id, the records of a transaction begin
with its own `PREPARING` record, whose shards are those that `Recover` uses; and when
`Recover` has returned OK, every `PREPARING` record is followed by a decision. -/
theorem recover_decides_own_records
    (hids : (cluster cfg first).Meets distinctIds (cluster cfg first).init acts)
    (h : (cluster cfg first).run acts = some s) :
    (∀ T, s.begins T ≤ 1) ∧
      (∀ pre r post, s.log.records = pre ++ r :: post → r.type = .preparing →
        recordsOf pre r.txnId = [] ∧ (recoveryState s.log.records r.txnId).shards = r.shards) ∧
      ∀ s', s.step cfg first (.finish .recovery) = some s' → s'.life = .up →
        ∀ pre r post, s'.log.records = pre ++ r :: post → r.type = .preparing →
          Has (recordsOf post r.txnId) .committed ∨ Has (recordsOf post r.txnId) .aborted := by
  have hI := disciplined_of_distinctIds hids h
  refine ⟨begins_le_one hids h, ?_, ?_⟩
  · intro pre r post hr htype
    have hpre := hI.ledger.first pre r post hr htype
    refine ⟨hpre, ?_⟩
    have hmem : r ∈ recordsOf s.log.records r.txnId :=
      mem_recordsOf.mpr ⟨hr ▸ by simp, rfl⟩
    obtain ⟨r', hr', htype', hshards⟩ := recoveryState_shards ⟨r, hmem, htype⟩
    rw [hshards]
    -- both are the first record of the transaction
    obtain ⟨hin, hid⟩ := mem_recordsOf.mp hr'
    obtain ⟨pre', post', hsplit⟩ := append_of_mem hin
    have hhead := hI.ledger.recordsOf_preparing hr htype
    have hhead' := hI.ledger.recordsOf_preparing hsplit htype'
    rw [hid, hhead] at hhead'
    rw [(cons.inj hhead').1]
  · intro s' hs hup pre r post hr htype
    obtain ⟨hlog, -, hdecided⟩ := hI.recovered hs hup
    have hpost : recordsOf s'.log.records r.txnId = r :: recordsOf post r.txnId := by
      rw [hlog] at hr ⊢
      exact hI.ledger.recordsOf_preparing hr htype
    have hfound : ∀ type, type ≠ .preparing → Has (recordsOf s'.log.records r.txnId) type →
        Has (recordsOf post r.txnId) type := by
      rintro type hne ⟨r', hr', rfl⟩
      rw [hpost] at hr'
      rcases mem_cons.mp hr' with rfl | hold
      · exact absurd htype hne
      · exact ⟨r', hold, rfl⟩
    refine (hdecided r.txnId ⟨r, hpost ▸ mem_cons_self, htype⟩).imp (hfound _ ?_) (hfound _ ?_)
    · rintro ⟨⟩
    · rintro ⟨⟩

end Runs

/-! ## Scenarios -/

section Scenarios

/-- Two shards, with one address each. -/
def twoShards : Config := ⟨2, fun _ => true, fun _ => 0⟩

/-- A shard has one replica that leads. -/
def elected (shard : ShardId) : List Action :=
  [.shard shard (.elect (some 0) 0), .shard shard (.advance 1), .shard shard (.apply 0 false),
    .shard shard (.apply 0 false)]

/-- The requests of an operation that succeed at once. -/
def asked (who : Who) (n : ℕ) : List Action := List.replicate n (.main who .ok)

/-- A shard gets the request that was sent last and handles it. -/
def handled (shard : ShardId) (call : ThreadId) (n : ℕ) : List Action :=
  .deliver 0 :: List.replicate n (.shard shard (.step call false))

/-- The entry that a handler has proposed is committed and applied. -/
def replicated (shard : ShardId) (call : ThreadId) (index steps rest : ℕ) : List Action :=
  .shard shard (.advance index) :: (List.replicate steps (.shard shard (.apply 0 false)) ++
    List.replicate rest (.shard shard (.step call false)))

/-- `Recover` finds these transactions. -/
def replayed (txns : List RaftTxnId) : List Action :=
  [.main .recovery .ok, .main .recovery (.txns txns)]

/-- The first write of a transaction on a shard. -/
def writes (T : RaftTxnId) (shard : ShardId) (call : ThreadId) (key : Bytes) : List Action :=
  .start T (.execute key (.write 7 key [5])) :: (asked (.client T) 2 ++ handled shard call 5 ++
    asked (.client T) 3 ++ handled shard (call + 1) 3 ++ asked (.client T) 1 ++ [.finish (.client T)])

/-- `Commit` up to the flush of `PREPARING`. -/
def commits (T : RaftTxnId) (shards : List ShardId) : List Action :=
  [.start T .commit, .main (.client T) .ok, .main (.client T) (.shards shards)] ++
    asked (.client T) 3

/-- A transaction writes on shard 0 and is committed there; the log of the shard has
`index` entries before. -/
def commitsOnShard (T : RaftTxnId) (call : ThreadId) (index : ℕ) : List Action :=
  writes T 0 call [1] ++ commits T [0] ++ asked (.client T) 1 ++ handled 0 (call + 2) 4 ++
    replicated 0 (call + 2) (index + 1) 2 3 ++ asked (.client T) 3 ++ handled 0 (call + 3) 1 ++
    replicated 0 (call + 3) (index + 2) 7 2 ++ asked (.client T) 4 ++ [.finish (.client T)]

/-- `Recover` on an empty log, and the shards get their leaders. -/
def booted : List Action := replayed [] ++ [.finish .recovery] ++ elected 0 ++ elected 1

/-- The coordinator crashes after the flush of `PREPARING`; `Recover` gets no answer from the
shard and aborts. -/
def abortedByRecover : List Action :=
  booted ++ [.begin] ++ writes 1 0 0 [1] ++ commits 1 [0] ++ [.crash 1] ++ replayed [1] ++
    [.main .recovery .ok, .main .recovery .fail] ++ asked .recovery 3 ++
    [.future .recovery 0 .ok, .future .recovery 0 .fail] ++ asked .recovery 3

instance : DecidablePred (· = Life.up)
  | .up => isTrue rfl
  | .recovering _ | .down => isFalse nofun

theorem decisions_unique_recovery_idempotent_abortedByRecover :
    ∃ s s', (cluster twoShards fun _ => 1).run abortedByRecover = some s ∧
      s.step twoShards (fun _ => 1) (.finish .recovery) = some s' ∧
      s'.log.records.map (fun r => r.type) = [.preparing, .aborting, .aborted] ∧
      (recover twoShards).Safe (readsOnly s'.log.records) (fun _ st => st = .ok) () := by
  obtain ⟨s, hs, s', hs', hup, hrecords⟩ : ∃ s,
      (cluster twoShards fun _ => 1).run abortedByRecover = some s ∧ ∃ s',
        s.step twoShards (fun _ => 1) (.finish .recovery) = some s' ∧ s'.life = .up ∧
        s'.log.records.map (fun r => r.type) = [.preparing, .aborting, .aborted] := by
    decide +kernel
  have hmain := decisions_unique_recovery_idempotent (by decide +kernel) hs
  exact ⟨s, s', hs, hs', hrecords, (hmain.2 s' hs' hup).2.2⟩

theorem recover_decides_own_records_abortedByRecover :
    ∃ s s', (cluster twoShards fun _ => 1).run abortedByRecover = some s ∧
      s.step twoShards (fun _ => 1) (.finish .recovery) = some s' ∧
      ∃ r post, s'.log.records = r :: post ∧ r.type = .preparing ∧
        (Has (recordsOf post r.txnId) .committed ∨ Has (recordsOf post r.txnId) .aborted) := by
  obtain ⟨s, hs, s', hs', hup, hrecords⟩ : ∃ s,
      (cluster twoShards fun _ => 1).run abortedByRecover = some s ∧ ∃ s',
        s.step twoShards (fun _ => 1) (.finish .recovery) = some s' ∧ s'.life = .up ∧
        s'.log.records = [⟨.preparing, 1, [0]⟩, ⟨.aborting, 1, []⟩, ⟨.aborted, 1, []⟩] := by
    decide +kernel
  have hmain := recover_decides_own_records (by decide +kernel) hs
  exact ⟨s, s', hs, hs', _, _, hrecords, rfl,
    hmain.2.2 s' hs' hup [] _ _ hrecords rfl⟩

/-- Transaction 1 is committed; in the next lifetime the first transaction has the id 1
again, and the coordinator crashes after the flush of its `PREPARING` record. -/
def idHandedOutAgain : List Action :=
  booted ++ [.begin] ++ commitsOnShard 1 0 1 ++ [.crash 3] ++ replayed [1] ++
    [.finish .recovery, .begin] ++ writes 1 0 4 [1] ++ commits 1 [0] ++ [.crash 4] ++ replayed [1]

/-- **A transaction can stay undecided**: `Recover` returns OK and has done nothing about the
second transaction 1, for the records of the first one say that it is committed. -/
theorem recover_skips_reused_id :
    ∃ s s', (cluster twoShards fun _ => 1).run idHandedOutAgain = some s ∧
      s.step twoShards (fun _ => 1) (.finish .recovery) = some s' ∧ s'.life = .up ∧
      s.begins 1 = 2 ∧ s'.log.durable = s'.log.records ∧
      s'.log.records = [⟨.preparing, 1, [0]⟩, ⟨.committing, 1, []⟩, ⟨.committed, 1, []⟩] ++
        [⟨.preparing, 1, [0]⟩] := by
  simp only [exists_and_left]
  decide +kernel

end Scenarios

end TransDb.Coordinator
