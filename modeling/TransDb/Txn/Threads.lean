import TransDb.Core.Machine
import TransDb.Txn.Operations

/-!
# Threads on one transaction manager

Any number of threads call one `TxnManager`, and their critical sections interleave
in any order.  A client can name a transaction only after the call that began it has
told it the id.

* `threads` — the machine: a thread starts a call, or takes its next step.
* `Threads.archive` — for every transaction the last value its record in `txns_` had.
* `Follows` — the life cycles of the transactions along a run; `run_follows` is **the
  link between the threads and the life cycles** for whole runs.
-/

namespace TransDb.Txn

open Function Storage

abbrev ThreadId := ℕ

/-- What a client sees of a call. -/
inductive Event where
  | called (th : ThreadId) (op : Op)
  | returned (th : ThreadId) (op : Op) (reply : Reply)

/-- The manager, the calls in progress, and what has been seen so far. -/
structure Threads where
  mgr : TxnManager
  calls : ThreadId → Option (Op × Call)
  /-- What the clients have seen, the last event first. -/
  history : List Event
  /-- The last value of each transaction that was ever in `txns_`. -/
  archive : TxnId → Option Transaction

/-- What a thread does next. -/
inductive ThreadAction where
  | start (th : ThreadId) (op : Op)
  | step (th : ThreadId) (timedOut : Bool)

namespace Threads

/-- No call has been made. -/
def init : Threads := ⟨.empty, fun _ => none, [], fun _ => none⟩

/-- Some call has returned this id to its client. -/
def begun (s : Threads) (txnId : TxnId) : Bool :=
  s.history.any fun e =>
    match e with
    | .called _ _ => false
    | .returned _ _ r => decide (r.txnId = some txnId)

/-- The commit of a transaction has been asked for, with this timestamp. -/
def asked (s : Threads) (txnId : TxnId) (commitTs : Timestamp) : Bool :=
  s.history.any fun e =>
    match e with
    | .called _ (.commit t ts) => decide (t = txnId ∧ ts = commitTs)
    | _ => false

/-- The operation may be asked for: its transaction is known to the client. -/
def allowed (s : Threads) (op : Op) : Bool :=
  match op.txnId with
  | none => true
  | some t => s.begun t

/-- A thread starts a call. -/
def enter (s : Threads) (th : ThreadId) (op : Op) : Threads :=
  { s with
    calls := update s.calls th (some (op, op.entry))
    history := .called th op :: s.history }

/-- A thread's call goes on or returns, and the manager is now `m`. -/
def after (s : Threads) (th : ThreadId) (op : Op) (m : TxnManager) : Outcome → Threads
  | .more c => ⟨m, update s.calls th (some (op, c)), s.history,
      fun t => (m.txns t).or (s.archive t)⟩
  | .done r => ⟨m, update s.calls th none, .returned th op r :: s.history,
      fun t => (m.txns t).or (s.archive t)⟩

/-- One turn of a thread. -/
def step (s : Threads) : ThreadAction → Option Threads
  | .start th op =>
    if (s.calls th).isNone ∧ s.allowed op = true then some (s.enter th op) else none
  | .step th timedOut =>
    match s.calls th with
    | none => none
    | some (op, c) =>
      match c.step s.mgr timedOut with
      | none => none
      | some (m, o) => some (s.after th op m o)

/-- Where each thread stands. -/
def pcs (s : Threads) : ThreadId → Option Call := fun th => (s.calls th).map Prod.snd

end Threads

/-- The machine of the threads. -/
def threads : Machine Threads ThreadAction := ⟨Threads.init, Threads.step⟩

/-! ## The life cycles along a run -/

namespace Threads

variable {s s' : Threads}

@[simp] theorem mgr_after (th : ThreadId) (op : Op) (m : TxnManager) (o : Outcome) :
    (s.after th op m o).mgr = m := by
  cases o <;> rfl

theorem archive_after (th : ThreadId) (op : Op) (m : TxnManager) (o : Outcome) (T : TxnId) :
    (s.after th op m o).archive T = (m.txns T).or (s.archive T) := by
  cases o <;> rfl

/-- An id that is known now was known before, or has just been returned. -/
theorem begun_after {th : ThreadId} {op : Op} {m : TxnManager} {o : Outcome} {T : TxnId}
    (h : (s.after th op m o).begun T = true) :
    s.begun T = true ∨ ∃ r, o = .done r ∧ r.txnId = some T := by
  cases o with
  | more c => exact .inl h
  | done r =>
    unfold begun after at h
    rw [List.any_cons, Bool.or_eq_true] at h
    rcases h with h | h
    · exact .inr ⟨r, rfl, of_decide_eq_true h⟩
    · exact .inl h

theorem pcs_eq_some {th : ThreadId} {op : Op} {c : Call} (h : s.calls th = some (op, c)) :
    s.pcs th = some c := by
  simp [pcs, h]

theorem pcs_after (th : ThreadId) (op : Op) (m : TxnManager) (o : Outcome) :
    (s.after th op m o).pcs = update s.pcs th o.next := by
  funext j
  by_cases hj : j = th
  · subst hj
    cases o <;> simp [after, pcs, Outcome.next]
  · cases o <;> simp [after, pcs, hj]

/-- What a step of the machine is: the start of a call, or a step of one. -/
theorem step_cases {a : ThreadAction} (h : s.step a = some s') :
    (∃ th op, a = .start th op ∧ s.calls th = none ∧ s.allowed op = true ∧
      s' = s.enter th op) ∨
    (∃ th timedOut op c m o, a = .step th timedOut ∧ s.calls th = some (op, c) ∧
      c.step s.mgr timedOut = some (m, o) ∧ s' = s.after th op m o) := by
  cases a with
  | start th op =>
    obtain ⟨⟨h1, h2⟩, h3⟩ := Option.ite_none_right_eq_some.mp h
    exact .inl ⟨th, op, rfl, Option.isNone_iff_eq_none.mp h1, h2, (Option.some.inj h3).symm⟩
  | step th timedOut =>
    simp only [step] at h
    cases hc : s.calls th with
    | none => simp [hc] at h
    | some oc =>
      obtain ⟨op, c⟩ := oc
      simp only [hc] at h
      cases hs : c.step s.mgr timedOut with
      | none => simp [hs] at h
      | some mo =>
        obtain ⟨m, o⟩ := mo
        rw [hs] at h
        exact .inr ⟨th, timedOut, op, c, m, o, rfl, hc, hs, (Option.some.inj h).symm⟩

theorem pcs_enter (th : ThreadId) (op : Op) :
    (s.enter th op).pcs = update s.pcs th (some op.entry) := by
  funext j
  by_cases hj : j = th
  · subst hj
    simp [enter, pcs]
  · simp [enter, pcs, hj]

end Threads

/-- The life cycles of the transactions in a state of the threads. -/
structure Follows (s : Threads) (phase : TxnId → Phase ThreadId) : Prop where
  sim : Sim s.mgr s.pcs phase
  archive : ∀ T, s.archive T = (phase T).archived
  /-- Clients know only transactions that have been in `txns_`. -/
  begun : ∀ T, s.begun T = true → (phase T).archived ≠ none

theorem Follows.init : Follows Threads.init (fun _ => .unborn) :=
  ⟨Sim.init, fun _ => rfl, fun _ h => by cases h⟩

section

variable {s s' : Threads} {phase : TxnId → Phase ThreadId}

theorem Follows.enter (h : Follows s phase) {th : ThreadId} (hth : s.calls th = none) (op : Op) :
    Follows (s.enter th op) phase := by
  refine ⟨?_, h.archive, h.begun⟩
  rw [Threads.pcs_enter]
  exact h.sim.start (by simp [Threads.pcs, hth]) op

/-- A step of a call is a move of one transaction. -/
theorem Follows.step (h : Follows s phase) {th : ThreadId} {op : Op} {c : Call} {timedOut : Bool}
    {m : TxnManager} {o : Outcome} (hc : s.calls th = some (op, c))
    (hs : c.step s.mgr timedOut = some (m, o)) :
    ∃ T p, Move th T c s.mgr.store (phase T) m.store p ∧
      Follows (s.after th op m o) (update phase T p) := by
  obtain ⟨T, p, hmove, hsim⟩ := h.sim.step (Threads.pcs_eq_some hc) hs
  have hknown : ∀ T', (phase T').archived ≠ none → (update phase T p T').archived ≠ none := by
    intro T' hT'
    by_cases hT : T' = T
    · subst hT
      rw [update_self]
      exact hmove.known hT'
    · rw [update_of_ne hT]
      exact hT'
  refine ⟨T, p, hmove, ?_, ?_, ?_⟩
  · rw [Threads.mgr_after, Threads.pcs_after]
    exact hsim
  · intro T'
    rw [Threads.archive_after, h.archive T', hsim.txns T']
    by_cases hT : T' = T
    · subst hT
      rw [update_self]
      exact hmove.archived.symm
    · rw [update_of_ne hT]
      exact Phase.txn_or_archived _
  · intro T' hT'
    rcases Threads.begun_after hT' with hold | ⟨r, rfl, hr⟩
    · exact hknown T' (h.begun T' hold)
    · have htxn := (c.step_returns hs hr).1
      rw [hsim.txns T'] at htxn
      exact fun hnone => htxn (Phase.txn_of_archived hnone)

end

end TransDb.Txn
