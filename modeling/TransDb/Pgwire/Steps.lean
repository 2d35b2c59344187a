import TransDb.Pgwire.Session

/-!
# What the handlers do

The runs of the handlers of a session, whatever the executor, the catalog and the socket answer.

* `Trace`, `executed`, `hasError`, `wrote` — what was asked during a run: the statements that
  were handed to the executor, and the messages that were written.
* `Quiet` — code that executes nothing and leaves the names and the transaction alone.
* `processSingle_spec`, `handleParse_spec`, … — each handler by what it does.
* `Step`, `Run` — the messages of a session one after the other.
-/

namespace TransDb.Pgwire

open List Function Sql
open Stateful (Runs runs_pure runs_bind runs_get runs_throw runs_request runs_get_bind
  runs_modify_bind runs_pure_bind runs_request_bind)

/-! ## Traces -/

abbrev Trace := List (Program.Event Request.Answer)

/-- It tells of an error. -/
def Request.isError : Request → Bool
  | .write (.errorResponse _ _ _) => true
  | _ => false

/-- An `ErrorResponse` was written. -/
def hasError (tr : Trace) : Bool := tr.any fun e => e.1.isError

/-- The statement that it runs. -/
def Request.executes : Request → Option Statement
  | .execute stmt _ => some stmt
  | _ => none

/-- The statements that were handed to the executor. -/
def executed (tr : Trace) : List Statement := tr.filterMap fun e => e.1.executes

/-- The message was written. -/
def wrote (m : BackendMessage) (tr : Trace) : Bool :=
  tr.any fun e => match e.1 with
    | .write m' => m' = m
    | _ => false

theorem wrote_append (m : BackendMessage) (tr tr' : Trace) :
    wrote m (tr ++ tr') = (wrote m tr || wrote m tr') := List.any_append

@[simp] theorem hasError_nil : hasError [] = false := rfl

@[simp] theorem hasError_append (tr tr' : Trace) :
    hasError (tr ++ tr') = (hasError tr || hasError tr') := List.any_append

@[simp] theorem hasError_cons (e : Program.Event Request.Answer) (tr : Trace) :
    hasError (e :: tr) = (e.1.isError || hasError tr) := rfl

@[simp] theorem executed_nil : executed [] = [] := rfl

@[simp] theorem executed_append (tr tr' : Trace) :
    executed (tr ++ tr') = executed tr ++ executed tr' := List.filterMap_append

/-! ## Small pieces -/

section Pieces

variable {s : PgSession} {tr : Trace} {β : Type}

theorem runs_write_bind {m : BackendMessage} {f : Unit → Wire β} {r : Option (β × PgSession)} :
    Runs (write m >>= f) s tr r ↔ ∃ (u : Unit) (tr' : Trace), tr = ⟨.write m, u⟩ :: tr' ∧
      Runs (f ()) { s with writeBuf := s.writeBuf ++ m.encode } tr' r := Iff.rfl

theorem runs_sendBytes_bind {bytes : Bytes} {f : Bool → Wire β} {r : Option (β × PgSession)} :
    Runs (sendBytes bytes >>= f) s tr r ↔ ∃ (ok : Bool) (tr' : Trace),
      tr = ⟨.send bytes, ok⟩ :: tr' ∧ Runs (f ok) { s with ioOk := s.ioOk && ok } tr' r := Iff.rfl

variable {r : Option (Unit × PgSession)}

theorem runs_write {m : BackendMessage} :
    Runs (write m) s tr r ↔ tr = [⟨.write m, ()⟩] ∧
      some ((), { s with writeBuf := s.writeBuf ++ m.encode }) = r := by
  rw [write, runs_request_bind]
  constructor
  · rintro ⟨⟨⟩, tr', rfl, rfl, hr⟩
    exact ⟨rfl, hr⟩
  · rintro ⟨rfl, hr⟩
    exact ⟨(), [], rfl, rfl, hr⟩

/-- Nothing is sent if nothing was written. -/
theorem runs_flush_of_nil (h : s.writeBuf = []) :
    Runs flush s tr r ↔ tr = [] ∧ some ((), s) = r := by
  rw [flush, runs_get_bind, if_pos h]
  exact runs_pure

theorem runs_flush_of_ne (h : s.writeBuf ≠ []) :
    Runs flush s tr r ↔ ∃ ok : Bool, tr = [⟨.send s.writeBuf, ok⟩] ∧
      some ((), { s with ioOk := s.ioOk && ok, writeBuf := [] }) = r := by
  rw [flush, runs_get_bind, if_neg h, runs_sendBytes_bind]
  constructor
  · rintro ⟨ok, tr', rfl, rfl, hr⟩
    exact ⟨ok, rfl, hr⟩
  · rintro ⟨ok, rfl, hr⟩
    exact ⟨ok, [], rfl, rfl, hr⟩

/-- An error is written and sent with all that was written before. -/
theorem runs_writeErrorResponse {code message : String} :
    Runs (writeErrorResponse code message) s tr r ↔ ∃ ok : Bool,
      tr = [⟨.write (.errorResponse "ERROR" code message), ()⟩,
        ⟨.send (s.writeBuf ++ (BackendMessage.errorResponse "ERROR" code message).encode), ok⟩] ∧
      some ((), { s with ioOk := s.ioOk && ok, writeBuf := [] }) = r := by
  have hne : s.writeBuf ++ (BackendMessage.errorResponse "ERROR" code message).encode ≠ [] := by
    simp [BackendMessage.encode_ne_nil]
  rw [writeErrorResponse, runs_write_bind]
  constructor
  · rintro ⟨⟨⟩, tr', rfl, hflush⟩
    obtain ⟨ok, rfl, hr⟩ := (runs_flush_of_ne hne).mp hflush
    exact ⟨ok, rfl, hr⟩
  · rintro ⟨ok, rfl, hr⟩
    exact ⟨(), _, rfl, (runs_flush_of_ne hne).mpr ⟨ok, rfl, hr⟩⟩

end Pieces

/-! ## Code that executes nothing -/

/-- The names and the transaction are as before. -/
structure Kept (s s' : PgSession) : Prop where
  preparedStmts : s'.preparedStmts = s.preparedStmts
  portals : s'.portals = s.portals
  currentTxnId : s'.currentTxnId = s.currentTxnId

theorem Kept.refl (s : PgSession) : Kept s s := ⟨rfl, rfl, rfl⟩

theorem Kept.trans {s s₁ s₂ : PgSession} (h : Kept s s₁) (h' : Kept s₁ s₂) : Kept s s₂ :=
  ⟨h'.1.trans h.1, h'.2.trans h.2, h'.3.trans h.3⟩

variable {α β : Type}

/-- Code that executes nothing, throws nothing and keeps the names and the transaction. -/
def Quiet (m : Wire α) : Prop :=
  ∀ s tr r, Runs m s tr r → executed tr = [] ∧ ∃ a s', r = some (a, s') ∧ Kept s s'

/-- Code that writes no error. -/
def Mild (m : Wire α) : Prop := ∀ s tr r, Runs m s tr r → hasError tr = false

/-- Code that has sent everything if it wrote an error. -/
def Settled (m : Wire α) : Prop :=
  ∀ s tr a s', Runs m s tr (some (a, s')) → hasError tr = true → s'.writeBuf = []

theorem quiet_pure (a : α) : Quiet (pure a) := by
  rintro s tr r ⟨rfl, rfl⟩
  exact ⟨rfl, a, s, rfl, .refl s⟩

variable {r : Option (Unit × PgSession)} {s : PgSession} {tr : Trace} {D : DoubleLib} {m : Wire α}
  {f : α → Wire β} {sql : Bytes}

theorem Quiet.bind (hm : Quiet m) (hf : ∀ a, Quiet (f a)) :
    Quiet (m >>= f) := by
  intro s tr r h
  rcases runs_bind.mp h with ⟨h, -⟩ | ⟨tr₁, a, s₁, tr₂, rfl, h₁, h₂⟩
  · obtain ⟨-, a, s', hr, -⟩ := hm s tr none h
    cases hr
  · obtain ⟨he₁, a', s', hr, hkept₁⟩ := hm s tr₁ _ h₁
    obtain ⟨rfl, rfl⟩ := Prod.mk.inj (Option.some.inj hr)
    obtain ⟨he₂, b, s₂, rfl, hkept₂⟩ := hf a s₁ tr₂ r h₂
    exact ⟨by rw [executed_append, he₁, he₂]; rfl, b, s₂, rfl, hkept₁.trans hkept₂⟩

theorem quiet_ite {c : Prop} [Decidable c] {m m' : Wire α} (hm : Quiet m) (hm' : Quiet m') :
    Quiet (if c then m else m') := by
  split_ifs
  · exact hm
  · exact hm'

theorem quiet_write (m : BackendMessage) : Quiet (write m) := by
  intro s tr r h
  obtain ⟨rfl, rfl⟩ := runs_write.mp h
  exact ⟨rfl, (), _, rfl, rfl, rfl, rfl⟩

theorem quiet_flush : Quiet flush := by
  intro s tr r h
  by_cases hbuf : s.writeBuf = []
  · obtain ⟨rfl, rfl⟩ := (runs_flush_of_nil hbuf).mp h
    exact ⟨rfl, (), s, rfl, .refl s⟩
  · obtain ⟨ok, rfl, rfl⟩ := (runs_flush_of_ne hbuf).mp h
    exact ⟨rfl, (), _, rfl, rfl, rfl, rfl⟩

theorem quiet_writeErrorResponse (code message : String) :
    Quiet (writeErrorResponse code message) :=
  (quiet_write _).bind fun _ => quiet_flush

theorem quiet_getTable (name : Bytes) : Quiet (getTable name) := by
  intro s tr r h
  obtain ⟨x, rfl, rfl⟩ := runs_request.mp h
  exact ⟨rfl, x, s, rfl, .refl s⟩

theorem quiet_selectTables (sel : SelectStmt) : Quiet (selectTables sel) := by
  refine (quiet_getTable _).bind fun left => ?_
  cases left with
  | none => exact quiet_pure _
  | some left =>
    cases sel.join with
    | none => exact quiet_pure _
    | some join =>
      refine (quiet_getTable _).bind fun right => ?_
      cases right <;> exact quiet_pure _

theorem quiet_writeRows (rows : List (List Bytes)) : Quiet (writeRows rows) := by
  induction rows with
  | nil => exact quiet_pure _
  | cons row rows ih => exact (quiet_write _).bind fun _ => ih

theorem quiet_emitSuccess (stmt : Statement) (res : ExecResult) : Quiet (emitSuccess stmt res) := by
  cases stmt with
  | select sel =>
    refine (quiet_selectTables sel).bind fun tables => ?_
    cases tables with
    | none => exact quiet_writeErrorResponse _ _
    | some tables =>
      exact (quiet_write _).bind fun _ => (quiet_writeRows _).bind fun _ => quiet_write _
  | _ => exact quiet_write _

theorem quiet_writeReadyForQuery : Quiet writeReadyForQuery := fun s tr r h =>
  quiet_write _ s tr r (runs_get_bind.mp h)

theorem mild_pure (a : α) : Mild (pure a : Wire α) := by
  rintro s tr r ⟨rfl, -⟩
  rfl

theorem Mild.bind (hm : Mild m) (hf : ∀ a, Mild (f a)) :
    Mild (m >>= f) := by
  intro s tr r h
  rcases runs_bind.mp h with ⟨h, -⟩ | ⟨tr₁, a, s₁, tr₂, rfl, h₁, h₂⟩
  · exact hm s tr none h
  · rw [hasError_append, hm s tr₁ _ h₁, hf a s₁ tr₂ r h₂]
    rfl

theorem mild_write {m : BackendMessage} (hm : Request.isError (.write m) = false) :
    Mild (write m) := by
  intro s tr r h
  obtain ⟨rfl, -⟩ := runs_write.mp h
  rw [hasError_cons, hm]
  rfl

theorem mild_selectTables (sel : SelectStmt) : Mild (selectTables sel) := by
  have hget : ∀ name, Mild (getTable name) := by
    intro name s tr r h
    obtain ⟨x, rfl, -⟩ := runs_request.mp h
    rfl
  refine (hget _).bind fun left => ?_
  cases left with
  | none => exact mild_pure _
  | some left =>
    cases sel.join with
    | none => exact mild_pure _
    | some join =>
      refine (hget _).bind fun right => ?_
      cases right <;> exact mild_pure _

theorem mild_writeRows (rows : List (List Bytes)) : Mild (writeRows rows) := by
  induction rows with
  | nil => exact mild_pure _
  | cons row rows ih => exact (mild_write rfl).bind fun _ => ih

theorem Mild.settled (h : Mild m) : Settled m := by
  intro s tr a s' hrun herror
  rw [h s tr _ hrun] at herror
  cases herror

/-- Errors come last. -/
theorem Mild.bind_settled (hm : Mild m) (hf : ∀ a, Settled (f a)) :
    Settled (m >>= f) := by
  intro s tr b s' h herror
  rcases runs_bind.mp h with ⟨-, hr⟩ | ⟨tr₁, a, s₁, tr₂, rfl, h₁, h₂⟩
  · cases hr
  · rw [hasError_append, hm s tr₁ _ h₁, Bool.false_or] at herror
    exact hf a s₁ tr₂ b s' h₂ herror

theorem settled_writeErrorResponse (code message : String) :
    Settled (writeErrorResponse code message) := by
  intro s tr a s' h _
  obtain ⟨ok, -, hr⟩ := runs_writeErrorResponse.mp h
  cases hr
  rfl

theorem settled_emitSuccess (stmt : Statement) (res : ExecResult) :
    Settled (emitSuccess stmt res) := by
  cases stmt with
  | select sel =>
    refine (mild_selectTables sel).bind_settled fun tables => ?_
    cases tables with
    | none => exact settled_writeErrorResponse _ _
    | some tables =>
      exact ((mild_write rfl).bind fun _ =>
        (mild_writeRows _).bind fun _ => mild_write rfl).settled
  | _ => exact (mild_write rfl).settled

/-! ## One statement -/

theorem runs_execute_bind {stmt : Statement} {f : ExecOutput → Wire α}
    {r : Option (α × PgSession)} (h : Runs (execute stmt >>= f) s tr r) :
    (tr = [⟨.execute stmt s.currentTxnId, none⟩] ∧ r = none) ∨
      ∃ out tr', tr = ⟨.execute stmt s.currentTxnId, some out⟩ :: tr' ∧ Runs (f out) s tr' r := by
  obtain ⟨answer, tr', rfl, h⟩ := h
  cases answer with
  | none =>
    obtain ⟨rfl, rfl⟩ := h
    exact .inl ⟨rfl, rfl⟩
  | some out => exact .inr ⟨out, tr', rfl, h⟩

/-- The statement is not handed to the executor: it does not parse, or the block has failed. -/
def refused (D : DoubleLib) (s : PgSession) (sql : Bytes) : Bool :=
  match parse D sql with
  | .error _ => true
  | .ok stmt => s.txnFailed && !isRollback stmt

/-- An error that fails the block: nothing is executed and everything is sent. -/
theorem runs_error_failBlock {code message : String}
    (h : Runs (writeErrorResponse code message >>= fun _ => failBlock) s tr r) :
    executed tr = [] ∧ hasError tr = true ∧
      ∃ s', r = some ((), s') ∧ Kept s s' ∧ s'.writeBuf = [] := by
  rcases runs_bind.mp h with ⟨herror, -⟩ | ⟨tr₁, a, s₁, tr₂, rfl, herror, rfl, rfl⟩
  · obtain ⟨ok, -, hr⟩ := runs_writeErrorResponse.mp herror
    cases hr
  · obtain ⟨ok, rfl, hr⟩ := runs_writeErrorResponse.mp herror
    cases hr
    exact ⟨rfl, rfl, _, rfl, ⟨rfl, rfl, rfl⟩, rfl⟩

theorem afterExecute_spec {stmt : Statement} {out : ExecOutput}
    (h : Runs (afterExecute stmt out) s tr r) :
    executed tr = [] ∧ ∃ s', r = some ((), s') ∧ s'.preparedStmts = s.preparedStmts ∧
      s'.portals = s.portals ∧ s'.currentTxnId = out.txnId ∧
      (hasError tr = true → s'.writeBuf = []) := by
  rw [afterExecute, runs_modify_bind] at h
  by_cases hok : out.result.ok = true
  · rw [hok, Bool.not_true, if_neg Bool.false_ne_true] at h
    -- the flag of the block is the only thing that changes before the answer
    have hemit : ∃ failed, Runs (emitSuccess stmt out.result)
        { s with currentTxnId := out.txnId, txnFailed := failed } tr r := by
      by_cases hend : (isRollback stmt || isCommit stmt) = true
      · rw [if_pos hend] at h
        exact ⟨false, h⟩
      · rw [if_neg hend] at h
        exact ⟨s.txnFailed, h⟩
    obtain ⟨failed, hemit⟩ := hemit
    obtain ⟨hexec, a, s', rfl, hkept⟩ := quiet_emitSuccess stmt out.result _ _ _ hemit
    exact ⟨hexec, s', rfl, hkept.1, hkept.2, hkept.3,
      settled_emitSuccess stmt out.result _ _ _ _ hemit⟩
  · rw [Bool.not_eq_true] at hok
    rw [hok, Bool.not_false, if_pos rfl] at h
    obtain ⟨hexec, -, s', rfl, hkept, hbuf⟩ := runs_error_failBlock h
    exact ⟨hexec, s', rfl, hkept.1, hkept.2, hkept.3, fun _ => hbuf⟩

/-- **One statement**: it is refused with an error, or it is handed to the executor in the
transaction of the session, before anything is written. -/
theorem processSingle_spec (h : Runs (processSingle D sql) s tr r) :
    (refused D s sql = true ∧ executed tr = [] ∧ hasError tr = true ∧
      ∃ s', r = some ((), s') ∧ Kept s s' ∧ s'.writeBuf = []) ∨
    (refused D s sql = false ∧ ∃ stmt, parse D sql = .ok stmt ∧
      ((tr = [⟨.execute stmt s.currentTxnId, none⟩] ∧ r = none) ∨
        ∃ out rest, tr = ⟨.execute stmt s.currentTxnId, some out⟩ :: rest ∧ executed rest = [] ∧
          ∃ s', r = some ((), s') ∧ s'.preparedStmts = s.preparedStmts ∧ s'.portals = s.portals ∧
            s'.currentTxnId = out.txnId ∧ (hasError rest = true → s'.writeBuf = []))) := by
  rw [processSingle] at h
  unfold refused
  cases hparse : parse D sql with
  | error e =>
    rw [hparse] at h
    exact .inl ⟨rfl, runs_error_failBlock h⟩
  | ok stmt =>
    rw [hparse] at h
    simp only at h ⊢
    rw [runs_get_bind] at h
    by_cases hfailed : (s.txnFailed && !isRollback stmt) = true
    · rw [if_pos hfailed] at h
      obtain ⟨ok, rfl, rfl⟩ := runs_writeErrorResponse.mp h
      exact .inl ⟨hfailed, rfl, rfl, _, rfl, ⟨rfl, rfl, rfl⟩, rfl⟩
    · rw [if_neg hfailed] at h
      refine .inr ⟨Bool.eq_false_iff.mpr hfailed, stmt, rfl, ?_⟩
      rcases runs_execute_bind h with hthrown | ⟨out, tr', rfl, hafter⟩
      · exact .inl hthrown
      · obtain ⟨hnone, hspec⟩ := afterExecute_spec hafter
        exact .inr ⟨out, tr', rfl, hnone, hspec⟩

theorem processSingle_names {s s' : PgSession} (h : Runs (processSingle D sql) s tr r)
    (hr : r = some ((), s')) : s'.preparedStmts = s.preparedStmts ∧ s'.portals = s.portals := by
  subst hr
  rcases processSingle_spec h with
    ⟨-, -, -, s₁, hs, hkept, -⟩ | ⟨-, stmt, -, ⟨-, hs⟩ | ⟨out, rest, -, -, s₁, hs, h1, h2, -⟩⟩
  · cases hs
    exact ⟨hkept.1, hkept.2⟩
  · cases hs
  · cases hs
    exact ⟨h1, h2⟩

/-- Only the statement of the text is executed. -/
theorem processSingle_executed (h : Runs (processSingle D sql) s tr r) (stmt : Statement)
    (hstmt : stmt ∈ executed tr) : parse D sql = .ok stmt := by
  rcases processSingle_spec h with
    ⟨-, hexec, -⟩ | ⟨-, stmt', hparse, ⟨rfl, -⟩ | ⟨out, rest, rfl, hexec, -⟩⟩
  · rw [hexec] at hstmt
    cases hstmt
  · obtain rfl := mem_singleton.mp hstmt
    exact hparse
  · rw [← singleton_append, executed_append, hexec, append_nil] at hstmt
    obtain rfl := mem_singleton.mp hstmt
    exact hparse

/-! ## Handlers -/

/-- The handler has asked for something, and has sent everything if it wrote an error. -/
structure Answered (tr : Trace) (r : Option (Unit × PgSession)) : Prop where
  answers : tr ≠ []
  settled : ∀ s', r = some ((), s') → hasError tr = true → s'.writeBuf = []

theorem answered_of_write {m : BackendMessage}
    (hm : Request.isError (.write m) = false) (h : tr = [⟨.write m, ()⟩]) : Answered tr r := by
  refine ⟨by rw [h]; exact cons_ne_nil _ _, fun s' _ herror => ?_⟩
  rw [h, hasError_cons, hm] at herror
  cases herror

theorem Answered.prepend {front : Trace} (h : Answered tr r) (hfront : hasError front = false) :
    Answered (front ++ tr) r := by
  refine ⟨append_ne_nil_of_right_ne_nil _ h.answers, fun s' hr herror => ?_⟩
  rw [hasError_append, hfront, Bool.false_or] at herror
  exact h.settled s' hr herror

theorem processSingle_answered (h : Runs (processSingle D sql) s tr r) : Answered tr r := by
  rcases processSingle_spec h with ⟨-, -, herror, s', rfl, -, hbuf⟩ |
    ⟨-, stmt, -, ⟨rfl, rfl⟩ | ⟨out, rest, rfl, -, s', rfl, -, -, -, hbuf⟩⟩
  · refine ⟨?_, ?_⟩
    · rintro rfl
      cases herror
    · rintro s'' ⟨⟩ -
      exact hbuf
  · exact ⟨cons_ne_nil _ _, nofun⟩
  · refine ⟨cons_ne_nil _ _, ?_⟩
    rintro s'' ⟨⟩
    exact hbuf

/-- The run of a handler that answers with an error and does nothing else. -/
def ErrorRun (s : PgSession) (tr : Trace) (r : Option (Unit × PgSession)) : Prop :=
  ∃ code message, Runs (writeErrorResponse code message) s tr r

namespace ErrorRun

theorem spec (h : ErrorRun s tr r) : executed tr = [] ∧ hasError tr = true ∧
    ∃ s', r = some ((), s') ∧ Kept s s' ∧ s'.writeBuf = [] := by
  obtain ⟨code, message, h⟩ := h
  obtain ⟨ok, rfl, rfl⟩ := runs_writeErrorResponse.mp h
  exact ⟨rfl, rfl, _, rfl, ⟨rfl, rfl, rfl⟩, rfl⟩

theorem wrote_eq_false (h : ErrorRun s tr r) {m : BackendMessage}
    (hm : Request.isError (.write m) = false) : wrote m tr = false := by
  obtain ⟨code, message, h⟩ := h
  obtain ⟨ok, rfl, rfl⟩ := runs_writeErrorResponse.mp h
  have hne : BackendMessage.errorResponse "ERROR" code message ≠ m := by
    rintro rfl
    cases hm
  simp [wrote, hne]

theorem answered (h : ErrorRun s tr r) : Answered tr r := by
  obtain ⟨-, herror, s', rfl, -, hbuf⟩ := h.spec
  refine ⟨?_, ?_⟩
  · rintro rfl
    cases herror
  · rintro s'' ⟨⟩ -
    exact hbuf

end ErrorRun

section Handlers

variable {payload : Bytes}

theorem handleParse_spec (h : Runs (handleParse payload) s tr r) :
    (∃ e, decodeParse payload = .error e ∧ ErrorRun s tr r) ∨
      ∃ m, decodeParse payload = .ok m ∧ tr = [⟨.write .parseComplete, ()⟩] ∧
        ∃ s', r = some ((), s') ∧ s'.portals = s.portals ∧ s'.currentTxnId = s.currentTxnId ∧
          s'.preparedStmts = update s.preparedStmts m.name
            (some ⟨m.name, m.query, m.paramOids⟩) := by
  rw [handleParse] at h
  cases hdecode : decodeParse payload with
  | error e =>
    rw [hdecode] at h
    exact .inl ⟨e, rfl, _, _, h⟩
  | ok m =>
    rw [hdecode] at h
    obtain ⟨rfl, rfl⟩ := runs_write.mp (runs_modify_bind.mp h)
    exact .inr ⟨m, rfl, rfl, _, rfl, rfl, rfl, rfl⟩

theorem handleBind_spec (h : Runs (handleBind payload) s tr r) :
    (∃ e, decodeBind payload = .error e ∧ ErrorRun s tr r) ∨
      ∃ m, decodeBind payload = .ok m ∧
        ((findOrUnnamed s.preparedStmts m.statement = none ∧ ErrorRun s tr r) ∨
          ∃ ps, findOrUnnamed s.preparedStmts m.statement = some ps ∧
            tr = [⟨.write .bindComplete, ()⟩] ∧
            ∃ s', r = some ((), s') ∧ s'.preparedStmts = s.preparedStmts ∧
              s'.currentTxnId = s.currentTxnId ∧
              s'.portals = update s.portals m.portal
                (some ⟨m.statement, substituteParams ps.query m.params, m.params⟩)) := by
  rw [handleBind] at h
  cases hdecode : decodeBind payload with
  | error e =>
    rw [hdecode] at h
    exact .inl ⟨e, rfl, _, _, h⟩
  | ok m =>
    rw [hdecode] at h
    refine .inr ⟨m, rfl, ?_⟩
    have h := runs_get_bind.mp h
    cases hfind : findOrUnnamed s.preparedStmts m.statement with
    | none =>
      rw [hfind] at h
      exact .inl ⟨rfl, _, _, h⟩
    | some ps =>
      rw [hfind] at h
      obtain ⟨rfl, rfl⟩ := runs_write.mp (runs_modify_bind.mp h)
      exact .inr ⟨ps, rfl, rfl, _, rfl, rfl, rfl, rfl⟩

theorem handleExecute_spec (h : Runs (handleExecute D payload) s tr r) :
    (∃ e, decodeExecute payload = .error e ∧ ErrorRun s tr r) ∨
      ∃ name, decodeExecute payload = .ok name ∧
        ((findOrUnnamed s.portals name = none ∧ ErrorRun s tr r) ∨
          ∃ portal, findOrUnnamed s.portals name = some portal ∧
            Runs (processSingle D portal.query) s tr r) := by
  rw [handleExecute] at h
  cases hdecode : decodeExecute payload with
  | error e =>
    rw [hdecode] at h
    exact .inl ⟨e, rfl, _, _, h⟩
  | ok name =>
    rw [hdecode] at h
    refine .inr ⟨name, rfl, ?_⟩
    have h := runs_get_bind.mp h
    cases hfind : findOrUnnamed s.portals name with
    | none =>
      rw [hfind] at h
      exact .inl ⟨rfl, _, _, h⟩
    | some portal =>
      rw [hfind] at h
      exact .inr ⟨portal, rfl, h⟩

/-- What is asked when the name of a `Describe` or `Close` is read. -/
def NameRead (front : Trace) : Prop := ∀ e ∈ front, ∃ bytes found, e = ⟨.stale bytes, found⟩

/-- Every name was read as it was sent. -/
def readAsSent (tr : Trace) : Bool :=
  tr.all fun e => match e with
    | ⟨.stale bytes, found⟩ => found = bytes
    | _ => true

theorem NameRead.hasError {front : Trace} (h : NameRead front) : hasError front = false := by
  refine any_eq_false.mpr fun e he => ?_
  obtain ⟨bytes, found, rfl⟩ := h e he
  exact Bool.false_ne_true

theorem NameRead.wrote {front : Trace} (h : NameRead front) (m : BackendMessage) :
    wrote m front = false := by
  refine any_eq_false.mpr fun e he => ?_
  obtain ⟨bytes, found, rfl⟩ := h e he
  exact Bool.false_ne_true

theorem runs_readNamed_bind {f : Bytes → Wire Unit} (h : Runs (readNamed payload >>= f) s tr r) :
    ∃ front rest read, tr = front ++ rest ∧ NameRead front ∧ (readAsSent front = true → read = payload) ∧
      Runs (f read) s rest r := by
  cases payload with
  | nil => exact ⟨[], tr, [], rfl, nofun, fun _ => rfl, h⟩
  | cons kind b =>
    obtain ⟨found, rest, rfl, h⟩ := h
    refine ⟨[⟨.stale b, found⟩], rest, kind :: found, rfl, ?_, ?_, h⟩
    · intro e he
      exact ⟨b, found, mem_singleton.mp he⟩
    · intro hread
      rw [of_decide_eq_true (all_eq_true.mp hread _ mem_cons_self)]

/-- **`Close`** removes the name that it read. -/
theorem handleClose_spec (h : Runs (handleClose payload) s tr r) :
    ∃ front rest read, tr = front ++ rest ∧ NameRead front ∧ (readAsSent front = true → read = payload) ∧
      (ErrorRun s rest r ∨
        rest = [⟨.write .closeComplete, ()⟩] ∧ ∃ name s', r = some ((), s') ∧
          ((decodeNamed "Close" read = .ok (83, name) ∧ s'.portals = s.portals ∧
              s'.preparedStmts = update s.preparedStmts name none) ∨
            (decodeNamed "Close" read = .ok (80, name) ∧ s'.preparedStmts = s.preparedStmts ∧
              s'.portals = update s.portals name none))) := by
  obtain ⟨front, rest, read, rfl, hfront, hread, h⟩ := runs_readNamed_bind h
  refine ⟨front, rest, read, rfl, hfront, hread, ?_⟩
  cases hdecode : decodeNamed "Close" read with
  | error e =>
    rw [hdecode] at h
    exact .inl ⟨_, _, h⟩
  | ok named =>
    obtain ⟨kind, name⟩ := named
    rw [hdecode] at h
    simp only at h
    by_cases hstmt : kind = 83
    · subst hstmt
      rw [if_pos rfl] at h
      obtain ⟨rfl, rfl⟩ := runs_write.mp (runs_modify_bind.mp h)
      exact .inr ⟨rfl, name, _, rfl, .inl ⟨rfl, rfl, rfl⟩⟩
    · rw [if_neg hstmt] at h
      by_cases hportal : kind = 80
      · subst hportal
        rw [if_pos rfl] at h
        obtain ⟨rfl, rfl⟩ := runs_write.mp (runs_modify_bind.mp h)
        exact .inr ⟨rfl, name, _, rfl, .inr ⟨rfl, rfl, rfl⟩⟩
      · rw [if_neg hportal] at h
        exact .inl ⟨_, _, h⟩

theorem quiet_describeColumns (sel : SelectStmt) (res : ExecResult) :
    Quiet (describeColumns sel res) := by
  refine quiet_ite (quiet_pure _) ((quiet_selectTables sel).bind fun tables => ?_)
  cases tables <;> exact quiet_pure _

theorem mild_describeColumns (sel : SelectStmt) (res : ExecResult) :
    Mild (describeColumns sel res) := by
  rw [describeColumns]
  split_ifs
  · exact mild_pure _
  · refine (mild_selectTables sel).bind fun tables => ?_
    cases tables <;> exact mild_pure _

/-- The session does not take over what becomes of a statement that is executed to describe it. -/
theorem describeSelectMeta_spec {query : Bytes}
    {r : Option (Option (List (Bytes × ColumnType)) × PgSession)}
    (h : Runs (describeSelectMeta D query) s tr r) :
    hasError tr = false ∧ ∀ a s', r = some (a, s') → Kept s s' := by
  have hnothing : tr = [] ∧ some (none, s) = r →
      hasError tr = false ∧ ∀ a s', r = some (a, s') → Kept s s' := by
    rintro ⟨rfl, rfl⟩
    refine ⟨rfl, ?_⟩
    rintro a s' ⟨⟩
    exact .refl s
  rw [describeSelectMeta] at h
  cases hparse : parse D query with
  | error e =>
    rw [hparse] at h
    exact hnothing h
  | ok stmt =>
    rw [hparse] at h
    cases stmt with
    | select sel =>
      rcases runs_execute_bind h with ⟨rfl, rfl⟩ | ⟨out, tr', rfl, hrest⟩
      · exact ⟨rfl, nofun⟩
      · obtain ⟨-, a, s', rfl, hkept⟩ := quiet_describeColumns sel out.result _ _ _ hrest
        have hmild := mild_describeColumns sel out.result _ _ _ hrest
        refine ⟨hmild, ?_⟩
        rintro b s'' ⟨⟩
        exact hkept
    | _ => exact hnothing h

/-- What a `Describe` can do. -/
structure Described (s : PgSession) (tr : Trace) (r : Option (Unit × PgSession)) : Prop where
  answered : Answered tr r
  kept : ∀ s', r = some ((), s') → Kept s s'

theorem ErrorRun.described (h : ErrorRun s tr r) : Described s tr r := by
  obtain ⟨-, -, s', rfl, hkept, -⟩ := h.spec
  refine ⟨h.answered, ?_⟩
  rintro s'' ⟨⟩
  exact hkept

/-- `Describe` answers, and changes neither the names nor the transaction. -/
theorem handleDescribe_spec (h : Runs (handleDescribe D payload) s tr r) : Described s tr r := by
  obtain ⟨front, tr, read, rfl, hfront, -, h⟩ := runs_readNamed_bind h
  suffices hrest : Described s tr r from ⟨hrest.answered.prepend hfront.hasError, hrest.kept⟩
  cases hdecode : decodeNamed "Describe" read with
  | error e =>
    rw [hdecode] at h
    exact ErrorRun.described ⟨_, _, h⟩
  | ok named =>
    obtain ⟨kind, name⟩ := named
    rw [hdecode] at h
    simp only at h
    by_cases hstmt : kind = 83
    · rw [if_pos hstmt] at h
      have h := runs_get_bind.mp h
      cases hfind : findOrUnnamed s.preparedStmts name with
      | none =>
        rw [hfind] at h
        exact ErrorRun.described ⟨_, _, h⟩
      | some ps =>
        rw [hfind] at h
        obtain ⟨u, tr', rfl, hrest⟩ := runs_write_bind.mp h
        rcases runs_bind.mp hrest with ⟨-, rfl⟩ | ⟨tr₁, columns, s₁, tr₂, rfl, hmeta, hlast⟩
        · exact ⟨⟨cons_ne_nil _ _, nofun⟩, nofun⟩
        · obtain ⟨hmild, hkept⟩ := describeSelectMeta_spec hmeta
          have hkept' := hkept _ _ rfl
          -- the last message is no error
          obtain ⟨m, hm, h⟩ : ∃ m, Request.isError (.write m) = false ∧ Runs (write m) s₁ tr₂ r := by
            cases columns <;> exact ⟨_, rfl, hlast⟩
          have hnone := mild_write hm _ _ _ h
          obtain ⟨rfl, rfl⟩ := runs_write.mp h
          refine ⟨⟨cons_ne_nil _ _, ?_⟩, ?_⟩
          · intro s' _ herr
            rw [hasError_cons, hasError_append, hmild, hnone] at herr
            cases herr
          · rintro s' ⟨⟩
            exact ⟨hkept'.1, hkept'.2, hkept'.3⟩
    · rw [if_neg hstmt] at h
      by_cases hportal : kind = 80
      · rw [if_pos hportal] at h
        obtain ⟨rfl, rfl⟩ := runs_write.mp h
        refine ⟨answered_of_write rfl rfl, ?_⟩
        rintro s' ⟨⟩
        exact ⟨rfl, rfl, rfl⟩
      · rw [if_neg hportal] at h
        exact ErrorRun.described ⟨_, _, h⟩

end Handlers

/-! ## The statements of a simple query -/

/-- A statement of a simple query with its run. -/
structure Part where
  before : PgSession
  chunk : Bytes
  trace : Trace

/-- Statements that are processed one after the other; only the last one may throw. -/
inductive Parts (D : DoubleLib) : PgSession → List Part → Option PgSession → Prop
  | nil (s : PgSession) : Parts D s [] (some s)
  | crash {p : Part} (h : Runs (processSingle D p.chunk) p.before p.trace none) :
      Parts D p.before [p] none
  | cons {p : Part} {s' : PgSession} {ps : List Part} {r : Option PgSession}
      (h : Runs (processSingle D p.chunk) p.before p.trace (some ((), s')))
      (hrest : Parts D s' ps r) : Parts D p.before (p :: ps) r

/-- What was asked during all of them. -/
def partsTrace (ps : List Part) : Trace := (ps.map Part.trace).flatten

section Queries

theorem processAll_spec {chunks : List Bytes} {r : Option (Bool × PgSession)}
    (h : Runs (processAll D chunks) s tr r) :
    ∃ ps, Parts D s ps (r.map Prod.snd) ∧ ps.map Part.chunk <+: chunks ∧ tr = partsTrace ps ∧
      (chunks ≠ [] → ps ≠ []) := by
  induction chunks generalizing s tr with
  | nil =>
    obtain ⟨rfl, rfl⟩ := h
    exact ⟨[], .nil s, prefix_rfl, rfl, fun h => absurd rfl h⟩
  | cons chunk chunks ih =>
    rw [processAll] at h
    rcases runs_bind.mp h with ⟨hsingle, rfl⟩ | ⟨tr₁, a, s₁, tr₂, rfl, hsingle, hrest⟩
    · refine ⟨[⟨s, chunk, tr⟩], .crash (p := ⟨s, chunk, tr⟩) hsingle, ?_, ?_, fun _ => cons_ne_nil _ _⟩
      · exact ⟨chunks, rfl⟩
      · simp [partsTrace]
    · rw [runs_get_bind] at hrest
      by_cases hio : s₁.ioOk = true
      · rw [if_pos hio] at hrest
        obtain ⟨ps, hps, ⟨more, hmore⟩, rfl, -⟩ := ih hrest
        refine ⟨⟨s, chunk, tr₁⟩ :: ps, .cons (p := ⟨s, chunk, tr₁⟩) hsingle hps, ⟨more, ?_⟩, rfl,
          fun _ => cons_ne_nil _ _⟩
        rw [map_cons, cons_append, hmore]
      · rw [if_neg hio] at hrest
        obtain ⟨rfl, rfl⟩ := hrest
        refine ⟨[⟨s, chunk, tr₁⟩], .cons (p := ⟨s, chunk, tr₁⟩) hsingle (.nil s₁), ⟨chunks, rfl⟩, ?_,
          fun _ => cons_ne_nil _ _⟩
        simp [partsTrace]

/-- The end of a simple query. -/
theorem queryEnd_spec (h : Runs (do writeReadyForQuery; flush) s tr r) :
    executed tr = [] ∧ hasError tr = false ∧ tr ≠ [] ∧ ∃ s', r = some ((), s') ∧ Kept s s' := by
  obtain ⟨hexec, a, s', rfl, hkept⟩ :=
    (quiet_writeReadyForQuery.bind fun _ => quiet_flush) s tr r h
  refine ⟨hexec, ?_, ?_, s', rfl, hkept⟩
  all_goals
    rcases runs_bind.mp h with ⟨hready, hr⟩ | ⟨tr₁, b, s₁, tr₂, rfl, hready, hflush⟩
    · cases hr
    obtain ⟨rfl, hr⟩ := runs_write.mp (runs_get_bind.mp hready)
  · rw [hasError_append]
    by_cases hbuf : s₁.writeBuf = []
    · obtain ⟨rfl, -⟩ := (runs_flush_of_nil hbuf).mp hflush
      rfl
    · obtain ⟨ok, rfl, -⟩ := (runs_flush_of_ne hbuf).mp hflush
      rfl
  · exact cons_ne_nil _ _

/-- **A simple query**: its statements one after the other, and then nothing is executed and no
error written. -/
theorem handleSimpleQuery_spec {payload : Bytes} (h : Runs (handleSimpleQuery D payload) s tr r) :
    ∃ ps tail s₁, Parts D s ps s₁ ∧
      ps.map Part.chunk <+: splitStatements (stripZeros payload) ∧ tr = partsTrace ps ++ tail ∧
      executed tail = [] ∧ hasError tail = false ∧ tr ≠ [] ∧
      (∀ s', r = some ((), s') → ∃ s₂, s₁ = some s₂ ∧ Kept s₂ s') := by
  rw [handleSimpleQuery] at h
  simp only at h
  by_cases hnone : splitStatements (stripZeros payload) = []
  · rw [if_pos hnone] at h
    obtain ⟨u, tr', rfl, hend⟩ := runs_write_bind.mp h
    rw [runs_pure_bind, if_pos rfl] at hend
    obtain ⟨hexec, hmild, -, s', rfl, hkept⟩ := queryEnd_spec hend
    refine ⟨[], ⟨.write .emptyQueryResponse, u⟩ :: tr', some s, .nil s, nil_prefix, rfl,
      hexec, hmild, cons_ne_nil _ _, ?_⟩
    rintro s'' ⟨⟩
    exact ⟨s, rfl, hkept.1, hkept.2, hkept.3⟩
  · rw [if_neg hnone] at h
    have hstart : ∀ {p : List Part} {t : Option PgSession}, Parts D s p t → p ≠ [] →
        partsTrace p ≠ [] := by
      intro p t hp hne hnil
      cases hp with
      | nil => exact hne rfl
      | crash hsingle | cons hsingle _ =>
        exact (processSingle_answered hsingle).answers (append_eq_nil_iff.mp hnil).1
    rcases runs_bind.mp h with ⟨hall, rfl⟩ | ⟨tr₁, toEnd, s₁, tr₂, rfl, hall, hend⟩
    · obtain ⟨ps, hps, hprefix, rfl, hne⟩ := processAll_spec hall
      refine ⟨ps, [], none, hps, hprefix, (append_nil _).symm, rfl, rfl,
        hstart hps (hne hnone), ?_⟩
      rintro s' ⟨⟩
    · obtain ⟨ps, hps, hprefix, rfl, hne⟩ := processAll_spec hall
      have htr : partsTrace ps ++ tr₂ ≠ [] := fun hnil =>
        hstart hps (hne hnone) (append_eq_nil_iff.mp hnil).1
      cases toEnd with
      | true =>
        rw [if_pos rfl] at hend
        obtain ⟨hexec, hmild, -, s', rfl, hkept⟩ := queryEnd_spec hend
        refine ⟨ps, tr₂, some s₁, hps, hprefix, rfl, hexec, hmild, htr, ?_⟩
        rintro s'' ⟨⟩
        exact ⟨s₁, rfl, hkept⟩
      | false =>
        rw [if_neg Bool.false_ne_true] at hend
        obtain ⟨rfl, rfl⟩ := hend
        refine ⟨ps, [], some s₁, hps, hprefix, rfl, rfl, rfl, htr, ?_⟩
        rintro s'' ⟨⟩
        exact ⟨s₁, rfl, .refl _⟩

theorem Parts.names {ps : List Part} {r : Option PgSession} (h : Parts D s ps r) {s' : PgSession}
    (hr : r = some s') : s'.preparedStmts = s.preparedStmts ∧ s'.portals = s.portals := by
  induction h with
  | nil s =>
    obtain rfl := Option.some.inj hr
    exact ⟨rfl, rfl⟩
  | crash h => cases hr
  | @cons p s₁ ps r h _ ih =>
    obtain ⟨hstmts, hportals⟩ := ih hr
    have hfirst := processSingle_names h rfl
    exact ⟨hstmts.trans hfirst.1, hportals.trans hfirst.2⟩

end Queries

/-! ## A session -/

/-- A message with the run of its handler; `after` is `none` if it threw. -/
structure Step where
  before : PgSession
  message : RawMessage
  trace : Trace
  after : Option PgSession

/-- The messages of a session, from a state on.  The last one may throw. -/
inductive Run (D : DoubleLib) : PgSession → List Step → Prop
  | nil (s : PgSession) : Run D s []
  | cons {x : Step} {rest : List Step} (hio : x.before.ioOk = true)
      (hkind : x.message.kind ≠ .terminate)
      (hrun : Runs (handle D x.message) x.before x.trace (x.after.map fun s => ((), s)))
      (hrest : ∀ s, x.after = some s → Run D s rest)
      (hend : x.after = none → rest = []) : Run D x.before (x :: rest)

section OneStep

variable {x : Step}

theorem runs_handle {handler : Wire Unit} (hhandle : handle D x.message = handler)
    (hrun : Runs (handle D x.message) x.before x.trace (x.after.map fun s => ((), s))) :
    Runs handler x.before x.trace (x.after.map fun s => ((), s)) := by
  rwa [hhandle] at hrun

theorem after_eq {s s' : PgSession} (hs : x.after = some s)
    (hr : (x.after.map fun s => ((), s)) = some ((), s')) : s' = s := by
  rw [hs] at hr
  exact (Prod.mk.inj (Option.some.inj hr)).2.symm

end OneStep

/-- A message of a session and those behind it. -/
theorem Run.split {front rest : List Step} {x : Step} (h : Run D s (front ++ x :: rest)) :
    x.message.kind ≠ .terminate ∧
      Runs (handle D x.message) x.before x.trace (x.after.map fun s => ((), s)) ∧
      (∀ s', x.after = some s' → Run D s' rest) ∧ (x.after = none → rest = []) := by
  induction front generalizing s with
  | nil =>
    cases h with
    | cons hio hkind hrun hrest hend => exact ⟨hkind, hrun, hrest, hend⟩
  | cons y front ih =>
    cases h with
    | cons hio hkind hrun hrest hend =>
      cases hafter : y.after with
      | none =>
        have hnil := hend hafter
        exact absurd hnil (append_ne_nil_of_right_ne_nil _ (cons_ne_nil _ _))
      | some s' => exact ih (hrest s' hafter)

/-! ## Sessions with given answers -/

/-- The handler of a message with these answers to its requests. -/
def stepWith (D : DoubleLib) (answer : (e : Request) → e.Answer) (s : PgSession) (m : RawMessage) :
    Step :=
  let r := Program.recorded answer ((handle D m).run s).run
  ⟨s, m, r.1, r.2.map Prod.snd⟩

/-- The messages that the loop handles, with these answers. -/
def stepsWith (D : DoubleLib) (answer : (e : Request) → e.Answer) :
    PgSession → List RawMessage → List Step
  | _, [] => []
  | s, m :: ms =>
    if s.ioOk ∧ m.kind ≠ .terminate then
      stepWith D answer s m :: match (stepWith D answer s m).after with
        | none => []
        | some s' => stepsWith D answer s' ms
    else []

theorem run_stepsWith (D : DoubleLib) (answer : (e : Request) → e.Answer) (s : PgSession)
    (ms : List RawMessage) : Run D s (stepsWith D answer s ms) := by
  induction ms generalizing s with
  | nil => exact .nil s
  | cons m ms ih =>
    rw [stepsWith]
    split_ifs with h
    · have hrun : Runs (handle D m) s (stepWith D answer s m).trace
          ((stepWith D answer s m).after.map fun s => ((), s)) := by
        have hrecorded := Program.yields_recorded answer ((handle D m).run s).run
        rw [Runs, stepWith]
        simp only [Option.map_map]
        rwa [show ((fun s => ((), s)) ∘ Prod.snd : Unit × PgSession → _) = id from rfl,
          Option.map_id]
      refine .cons (x := stepWith D answer s m) h.1 h.2 hrun ?_ ?_
      · intro s' hs
        rw [hs]
        exact ih s'
      · intro hs
        rw [hs]
    · exact .nil s

/-! ## Messages of a client -/

/-- A simple query. -/
def clientQuery (sql : String) : RawMessage := ⟨81, ascii sql ++ [0]⟩

/-- A `Parse` without types of parameters. -/
def clientParse (name query : String) : RawMessage :=
  ⟨80, ascii name ++ [0] ++ ascii query ++ [0, 0, 0]⟩

/-- A `Bind` without parameters. -/
def clientBind (portal statement : String) : RawMessage :=
  ⟨66, ascii portal ++ [0] ++ ascii statement ++ [0, 0, 0, 0, 0, 0, 0]⟩

/-- An `Execute`. -/
def clientExecute (portal : String) : RawMessage := ⟨69, ascii portal ++ [0, 0, 0, 0, 0]⟩

/-- A `Close` of a portal. -/
def clientClose (portal : String) : RawMessage := ⟨67, 80 :: ascii portal ++ [0]⟩

/-- Surroundings in which the executor refuses some statements and carries out the other ones, and
everything is sent. -/
def answering (fails : Statement → Bool) : (e : Request) → e.Answer
  | .execute stmt txnId =>
    some ⟨if fails stmt then ExecResult.init.failed "failed" else ExecResult.init, txnId⟩
  | .getTable _ => none
  | .write _ => ()
  | .send _ => true
  | .stale bytes => bytes

end TransDb.Pgwire
