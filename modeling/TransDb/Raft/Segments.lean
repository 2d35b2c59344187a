import TransDb.Raft.Following

/-!
# Segments of a log

A segment of a transaction begins with a batch and ends with the next decision about the
transaction; further batches inside it say nothing.  The store that a log asks for has the
writes of the segments that end with a commit.

* `Opens`, `OpenAt` — where a segment begins, and that it is not over.
* `openBatches_iff` — **the batches that are open are those of the open segments.**
* `CommittedAt`, `version_logPuts` — **the versions of the store are the last writes of the
  segments that were committed.**
-/

namespace TransDb.Raft

open Function Storage Txn

/-! ## Open segments -/

/-- Entry `j` is a decision about the transaction. -/
def Decides (log : List RaftLogEntry) (T : RaftTxnId) (j : ℕ) : Prop :=
  commandAt log j = .abort T ∨ ∃ ts, commandAt log j = .commit T ts

/-- A segment of the transaction begins with entry `i`: every earlier batch has been
decided about. -/
structure Opens (log : List RaftLogEntry) (T : RaftTxnId) (i : ℕ) (b : PrepareBatch) : Prop where
  batch : commandAt log i = .prepareBatch b
  txn : b.raftTxnId = T
  first : ∀ i' b', i' < i → commandAt log i' = .prepareBatch b' → b'.raftTxnId = T →
    ∃ j, i' < j ∧ j < i ∧ Decides log T j

/-- Before entry `n`, the segment that begins with entry `i` is open. -/
structure OpenAt (log : List RaftLogEntry) (T : RaftTxnId) (i : ℕ) (b : PrepareBatch) (n : ℕ) :
    Prop where
  opens : Opens log T i b
  before : i < n
  undecided : ∀ j, i < j → j < n → ¬ Decides log T j

section Log

variable {log : List RaftLogEntry} {T : RaftTxnId} {b : PrepareBatch} {i n : ℕ}

theorem openStep_of_decides (h : Decides log T n) (o : RaftTxnId → Option PrepareBatch) :
    openStep o (commandAt log n) T = none := by
  rcases h with h | ⟨ts, h⟩
  · rw [h]
    exact update_self ..
  · rw [h]
    exact update_self ..

/-- An entry that is no batch of the transaction and no decision about it. -/
theorem other_of_not_decides (h : ¬ Decides log T n)
    (hb : ∀ b, commandAt log n = .prepareBatch b → b.raftTxnId ≠ T) : (commandAt log n).Other T := by
  cases hcmd : commandAt log n with
  | prepareBatch b => exact hb b hcmd
  | commit T' ts =>
    rintro rfl
    exact h (.inr ⟨ts, hcmd⟩)
  | abort T' =>
    rintro rfl
    exact h (.inl hcmd)
  | _ => trivial

/-- Where nothing is open every batch has been decided about. -/
theorem decided_of_closed (hn : n ≤ log.length) (hclosed : openBatches (log.take n) T = none)
    (hi : i < n) (hb : commandAt log i = .prepareBatch b) (hT : b.raftTxnId = T) :
    ∃ j, i < j ∧ j < n ∧ Decides log T j := by
  induction n with
  | zero => exact absurd hi (Nat.not_lt_zero i)
  | succ n ih =>
    rw [openBatches_succ hn] at hclosed
    by_cases hdec : Decides log T n
    · rcases Nat.lt_or_eq_of_le (Nat.lt_succ_iff.mp hi) with hlt | rfl
      · exact ⟨n, hlt, Nat.lt_succ_self n, hdec⟩
      · rcases hdec with hdec | ⟨ts, hdec⟩ <;> cases hb.symm.trans hdec
    by_cases hbatch : ∃ b', commandAt log n = .prepareBatch b' ∧ b'.raftTxnId = T
    · -- after a batch the transaction is open
      obtain ⟨b', hcmd, rfl⟩ := hbatch
      rw [hcmd] at hclosed
      simp only [openStep] at hclosed
      split_ifs at hclosed with hopen
      · rw [hclosed] at hopen
        cases hopen
      · rw [update_self] at hclosed
        cases hclosed
    · have hother := other_of_not_decides hdec fun b' hcmd hT' => hbatch ⟨b', hcmd, hT'⟩
      rw [openStep_of_other hother] at hclosed
      have hlt : i < n := by
        refine lt_of_le_of_ne (Nat.lt_succ_iff.mp hi) ?_
        rintro rfl
        exact hbatch ⟨b, hb, hT⟩
      obtain ⟨j, hij, hj, hd⟩ := ih (Nat.le_of_succ_le hn) hclosed hlt
      exact ⟨j, hij, Nat.lt_succ_of_lt hj, hd⟩

/-- Another entry leaves the segment open. -/
theorem OpenAt.succ (h : OpenAt log T i b n) (hdec : ¬ Decides log T n) :
    OpenAt log T i b (n + 1) := by
  refine ⟨h.opens, Nat.lt_succ_of_lt h.before, ?_⟩
  intro j hij hj
  rcases Nat.lt_or_eq_of_le (Nat.lt_succ_iff.mp hj) with hlt | rfl
  · exact h.undecided j hij hlt
  · exact hdec

/-- A segment that is open begins with the last entry, or it was open before. -/
theorem OpenAt.pred (h : OpenAt log T i b (n + 1)) :
    i = n ∨ OpenAt log T i b n ∧ ¬ Decides log T n := by
  rcases Nat.lt_or_eq_of_le (Nat.lt_succ_iff.mp h.before) with hlt | rfl
  · refine .inr ⟨⟨h.opens, hlt, ?_⟩, h.undecided n hlt (Nat.lt_succ_self n)⟩
    intro j hij hj
    exact h.undecided j hij (Nat.lt_succ_of_lt hj)
  · exact .inl rfl

/-- **The open batches are those of the open segments.** -/
theorem openBatches_iff (hn : n ≤ log.length) :
    openBatches (log.take n) T = some b ↔ ∃ i, OpenAt log T i b n := by
  induction n generalizing b with
  | zero =>
    constructor
    · rintro ⟨⟩
    · rintro ⟨i, hi⟩
      exact absurd hi.before (Nat.not_lt_zero i)
  | succ n ih =>
    have ih := fun {b} => ih (b := b) (Nat.le_of_succ_le hn)
    rw [openBatches_succ hn]
    by_cases hdec : Decides log T n
    · rw [openStep_of_decides hdec]
      constructor
      · rintro ⟨⟩
      · rintro ⟨i, hi⟩
        rcases hi.pred with rfl | ⟨-, hnot⟩
        · have hcmd := hi.opens.batch
          rcases hdec with hdec | ⟨ts, hdec⟩ <;> cases hcmd.symm.trans hdec
        · exact absurd hdec hnot
    by_cases hbatch : ∃ b', commandAt log n = .prepareBatch b' ∧ b'.raftTxnId = T
    · obtain ⟨b', hcmd, rfl⟩ := hbatch
      rw [hcmd]
      simp only [openStep]
      cases hold : openBatches (log.take n) b'.raftTxnId with
      | some b₀ =>
        -- a further batch of a segment that is open
        obtain ⟨i₀, hi₀⟩ := ih.mp hold
        rw [if_pos (by rw [Option.isSome_some]), hold]
        constructor
        · rintro ⟨⟩
          exact ⟨i₀, hi₀.succ hdec⟩
        · rintro ⟨i, hi⟩
          rcases hi.pred with rfl | ⟨hi, -⟩
          · obtain ⟨j, hij, hj, hd⟩ :=
              hi.opens.first i₀ b₀ hi₀.before hi₀.opens.batch hi₀.opens.txn
            exact absurd hd (hi₀.undecided j hij hj)
          · exact hold.symm.trans (ih.mpr ⟨i, hi⟩)
      | none =>
        rw [if_neg (by simp), update_self]
        constructor
        · rintro ⟨⟩
          refine ⟨n, ⟨hcmd, rfl, ?_⟩, Nat.lt_succ_self n, ?_⟩
          · intro i' b' hi' hb' hT
            exact decided_of_closed (Nat.le_of_succ_le hn) hold hi' hb' hT
          · intro j hnj hj
            exact absurd hj (Nat.not_lt.mpr hnj)
        · rintro ⟨i, hi⟩
          rcases hi.pred with rfl | ⟨hi, -⟩
          · cases hcmd.symm.trans hi.opens.batch
            rfl
          · cases hold.symm.trans (ih.mpr ⟨i, hi⟩)
    · have hother := other_of_not_decides hdec fun b' hcmd hT => hbatch ⟨b', hcmd, hT⟩
      rw [openStep_of_other hother, ih]
      constructor
      · rintro ⟨i, hi⟩
        exact ⟨i, hi.succ hdec⟩
      · rintro ⟨i, hi⟩
        rcases hi.pred with rfl | ⟨hi, -⟩
        · exact absurd ⟨b, hi.opens.batch, hi.opens.txn⟩ hbatch
        · exact ⟨i, hi⟩

end Log

/-! ## Committed segments -/

/-- Entry `j` commits the segment with this batch. -/
def CommittedAt (log : List RaftLogEntry) (T : RaftTxnId) (ts : Timestamp) (b : PrepareBatch)
    (j : ℕ) : Prop :=
  commandAt log j = .commit T ts ∧ ∃ i, OpenAt log T i b j

/-- What the first entries of a log put into the store. -/
def logPuts (log : List RaftLogEntry) (n : ℕ) : List (Timestamp × BufferedWrite) :=
  (List.range n).flatMap fun j => putsOf (openBatches (log.take j)) (commandAt log j)

section Store

variable {log : List RaftLogEntry} {n : ℕ} {tb : TableId} {k v : Bytes} {ts : Timestamp}

theorem logPuts_succ (log : List RaftLogEntry) (n : ℕ) :
    logPuts log (n + 1) = logPuts log n ++ putsOf (openBatches (log.take n)) (commandAt log n) := by
  simp [logPuts, List.range_succ]

theorem storeOf_append (ps : List (Timestamp × BufferedWrite)) (cts : Timestamp)
    (ws : List BufferedWrite) :
    storeOf (ps ++ ws.map fun w => (cts, w)) = ws.foldl (fun s w => w.apply s cts) (storeOf ps) := by
  simp [storeOf, List.foldl_append, List.foldl_map]

/-- An entry that commits no segment puts nothing. -/
theorem putsOf_eq_nil (hn : n ≤ log.length) (h : ∀ T ts b, ¬ CommittedAt log T ts b n) :
    putsOf (openBatches (log.take n)) (commandAt log n) = [] := by
  cases hcmd : commandAt log n with
  | commit T ts =>
    cases hopen : openBatches (log.take n) T with
    | none => simp only [putsOf, hopen]
    | some b => exact absurd ⟨hcmd, (openBatches_iff hn).mp hopen⟩ (h T ts b)
  | _ => rfl

/-- **The versions that a log asks for**: the last write of each row in the batch of a
committed segment; of two with one timestamp the later counts. -/
theorem version_logPuts (hn : n ≤ log.length) :
    MVCCStore.version (storeOf (logPuts log n)) tb k ts = some v ↔
      ∃ T b j, j < n ∧ CommittedAt log T ts b j ∧ lastWrite b.writes tb k = some v ∧
        ∀ T' b' j', j < j' → j' < n → CommittedAt log T' ts b' j' →
          lastWrite b'.writes tb k = none := by
  induction n with
  | zero =>
    constructor
    · intro h
      have hempty : MVCCStore.version SortedMap.empty tb k ts = none := rfl
      cases hempty.symm.trans h
    · rintro ⟨-, -, j, hj, -⟩
      exact absurd hj (Nat.not_lt_zero j)
  | succ n ih =>
    have ih := ih (Nat.le_of_succ_le hn)
    -- the entry leaves the version as it was
    have hsame : (∀ T b, CommittedAt log T ts b n → lastWrite b.writes tb k = none) →
        (MVCCStore.version (storeOf (logPuts log n)) tb k ts = some v ↔
          ∃ T b j, j < n + 1 ∧ CommittedAt log T ts b j ∧ lastWrite b.writes tb k = some v ∧
            ∀ T' b' j', j < j' → j' < n + 1 → CommittedAt log T' ts b' j' →
              lastWrite b'.writes tb k = none) := by
      intro hnone
      rw [ih]
      constructor
      · rintro ⟨T, b, j, hj, hcom, hv, hlast⟩
        refine ⟨T, b, j, Nat.lt_succ_of_lt hj, hcom, hv, ?_⟩
        intro T' b' j' hjj hj' hcom'
        rcases Nat.lt_or_eq_of_le (Nat.lt_succ_iff.mp hj') with hlt | rfl
        · exact hlast T' b' j' hjj hlt hcom'
        · exact hnone T' b' hcom'
      · rintro ⟨T, b, j, hj, hcom, hv, hlast⟩
        rcases Nat.lt_or_eq_of_le (Nat.lt_succ_iff.mp hj) with hlt | rfl
        · refine ⟨T, b, j, hlt, hcom, hv, ?_⟩
          intro T' b' j' hjj hj' hcom'
          exact hlast T' b' j' hjj (Nat.lt_succ_of_lt hj') hcom'
        · cases hv.symm.trans (hnone T b hcom)
    rw [logPuts_succ]
    by_cases hcommits : ∃ T cts b, CommittedAt log T cts b n
    · obtain ⟨T, cts, b, hcom⟩ := hcommits
      have hopen := (openBatches_iff (Nat.le_of_succ_le hn)).mpr hcom.2
      have hunique : ∀ {T' cts' b'}, CommittedAt log T' cts' b' n → cts' = cts ∧ b' = b := by
        intro T' cts' b' hcom'
        cases hcom.1.symm.trans hcom'.1
        have hopen' := (openBatches_iff (Nat.le_of_succ_le hn)).mpr hcom'.2
        cases hopen.symm.trans hopen'
        exact ⟨rfl, rfl⟩
      have hputs : putsOf (openBatches (log.take n)) (commandAt log n) =
          b.writes.map fun w => (cts, w) := by
        simp only [hcom.1, putsOf, hopen]
      rw [hputs, storeOf_append, version_foldl_apply]
      by_cases hts : ts = cts
      · subst hts
        rw [if_pos rfl]
        cases hlast : lastWrite b.writes tb k with
        | none =>
          rw [Option.none_or]
          refine hsame ?_
          intro T' b' hcom'
          rw [(hunique hcom').2]
          exact hlast
        | some v' =>
          rw [Option.some_or]
          constructor
          · rintro ⟨⟩
            refine ⟨T, b, n, Nat.lt_succ_self n, hcom, hlast, ?_⟩
            intro _ _ j' hlt hj'
            exact absurd hj' (Nat.not_lt.mpr hlt)
          · rintro ⟨T', b', j, hj, hcom', hv, hafter⟩
            rcases Nat.lt_or_eq_of_le (Nat.lt_succ_iff.mp hj) with hlt | rfl
            · cases hlast.symm.trans (hafter T b n hlt (Nat.lt_succ_self n) hcom)
            · rw [← hv, (hunique hcom').2, hlast]
      · rw [if_neg hts]
        refine hsame ?_
        intro T' b' hcom'
        exact absurd (hunique hcom').1 hts
    · rw [putsOf_eq_nil (Nat.le_of_succ_le hn) fun T cts b hcom => hcommits ⟨T, cts, b, hcom⟩,
        List.append_nil]
      exact hsame fun T b hcom => absurd ⟨T, ts, b, hcom⟩ hcommits

end Store

end TransDb.Raft
