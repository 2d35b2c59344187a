import TransDb.Core.Stateful
import TransDb.Sql.Executor

/-!
# The transactions of a statement

Which transactions a statement begins and ends, whatever the catalog and the coordinator answer.

* `Call.isBoundary`, `boundaries` — the calls that begin or end a transaction.
* `Inner` — code with calls of one transaction; `StaysIn` — a statement that leaves the client in
  its transaction, by one of the ways of `Course`.
* `execute_served` — what every statement that comes to its end has done: nothing to the
  transaction of the client, or a transaction of its own, or one of `BEGIN`, `COMMIT` and
  `ROLLBACK`.
* `execute_brackets` — **a transaction of its own is begun once and ended by the last call**.
-/

namespace TransDb.Sql

open Option List Storage Txn
open Program (Yields Event yields_throwing_bind)

/-! ## Calls that begin or end a transaction -/

/-- Whether the call begins or ends a transaction. -/
def Call.isBoundary : Call → Bool
  | .begin => true
  | .commit _ => true
  | .abort _ => true
  | _ => false

/-- The calls that begin or end a transaction. -/
def boundaries (tr : List (Event Call.Answer)) : List (Event Call.Answer) :=
  tr.filter fun e => e.1.isBoundary

/-- A transaction is begun. -/
abbrev began (t : CoordTxnId) : Event Call.Answer := ⟨.begin, t⟩

/-- The transaction is ended, and the coordinator answers this. -/
def EndsWith (t : CoordTxnId) (reply : Status) (e : Event Call.Answer) : Prop :=
  e = ⟨.commit t, reply⟩ ∨ e = ⟨.abort t, reply⟩

/-! ## Calls of a transaction -/

/-- The transaction that a call is made in. -/
def Call.txn? : Call → Option CoordTxnId
  | .commit t | .abort t | .read t _ _ | .write t _ _ _ | .delete t _ _ | .scan t _ _ _ _ => some t
  | .join _ req => some req.raftTxnId
  | _ => none

/-- A call that begins and ends nothing, in this transaction or in none. -/
def Call.Within (own : Option CoordTxnId) (c : Call) : Prop :=
  c.isBoundary = false ∧ (c.txn? = none ∨ c.txn? = own)

variable {c : Call}

theorem Call.Within.of_none {own : Option CoordTxnId} (h : c.Within none) :
    c.Within own :=
  ⟨h.1, .inl (h.2.elim id id)⟩

variable {α β : Type} {own : Option CoordTxnId}

/-- Code with calls of one transaction only, or of none. -/
def Inner (own : Option CoordTxnId) (m : Exec α) : Prop :=
  ∀ tr r, m.run.Yields tr r → ∀ e ∈ tr, e.1.Within own

theorem inner_pure (a : α) : Inner own (pure a) := by
  rintro tr r ⟨rfl, -⟩
  exact forall_mem_nil _

theorem inner_orThrow (a : Option α) : Inner own (orThrow a) := by
  rintro tr r ⟨rfl, -⟩
  exact forall_mem_nil _

variable {tr : List (Event Call.Answer)} {reply : Status} {e : Event Call.Answer}

theorem boundaries_of_within (h : ∀ e ∈ tr, e.1.Within own) : boundaries tr = [] :=
  filter_eq_nil_iff.mpr fun e he => by simp [(h e he).1]

theorem yields_call {r : Option c.Answer} :
    (call c).run.Yields tr r ↔ ∃ x, tr = [⟨c, x⟩] ∧ some x = r := by
  constructor
  · rintro ⟨x, tr', rfl, rfl, hr⟩
    exact ⟨x, rfl, hr⟩
  · rintro ⟨x, rfl, hr⟩
    exact ⟨x, [], rfl, rfl, hr⟩

/-- What follows a call. -/
theorem yields_call_bind {f : c.Answer → Exec β} {b : β} :
    (call c >>= f).run.Yields tr (some b) ↔
      ∃ x tr', tr = ⟨c, x⟩ :: tr' ∧ (f x).run.Yields tr' (some b) := Iff.rfl

theorem inner_call (hc : c.Within own) : Inner own (call c) := by
  intro tr r h
  obtain ⟨x, rfl, -⟩ := yields_call.mp h
  exact forall_mem_singleton.mpr hc

theorem Inner.bind {m : Exec α} {f : α → Exec β} (hm : Inner own m) (hf : ∀ a, Inner own (f a)) :
    Inner own (m >>= f) := by
  intro tr r h
  rcases yields_throwing_bind.mp h with ⟨h, -⟩ | ⟨tr₁, a, tr₂, rfl, h₁, h₂⟩
  · exact hm tr none h
  · exact forall_mem_append.mpr ⟨hm tr₁ _ h₁, hf a tr₂ r h₂⟩

theorem inner_ite {c : Prop} [Decidable c] {m m' : Exec α} (hm : Inner own m)
    (hm' : Inner own m') : Inner own (if c then m else m') := by
  split_ifs
  · exact hm
  · exact hm'

/-! ## The bodies of statements -/

section Bodies

variable (cfg : ExecConfig) {t : CoordTxnId} {table : TableDef} {conditions : WhereClause}
  {columns : List Bytes}

theorem inner_scanTable : Inner (some t) (scanTable t table) := inner_call ⟨rfl, .inr rfl⟩

theorem inner_readRow {key : Bytes} {change : List Bytes → Exec Status}
    (hchange : ∀ cells, Inner (some t) (change cells)) :
    Inner (some t) (readRow cfg table key conditions t change) := by
  refine (inner_call ⟨rfl, .inr rfl⟩).bind fun x => ?_
  refine inner_ite (inner_pure _) (inner_ite (inner_pure _) ?_)
  cases checkConditions cfg.double table (deserializeRow x.2) conditions with
  | unknownColumn => exact inner_pure _
  | mismatch => exact inner_pure _
  | passed => exact (hchange _).bind fun _ => inner_pure _

theorem inner_askShards {request : ℕ → DistributedJoinRequest}
    (h : ∀ shard, (request shard).raftTxnId = t) (shards : List ℕ) :
    Inner (some t) (askShards request shards) := by
  induction shards with
  | nil => exact inner_pure _
  | cons shard shards ih =>
    have hcall : (Call.join shard (request shard)).Within (some t) :=
      ⟨rfl, .inr (congrArg some (h shard))⟩
    exact (inner_call hcall).bind fun _ => ih.bind fun _ => inner_pure _

theorem inner_executeInnerJoin (left right : TableDef) (join : JoinClause) (op : PhysicalOp) :
    Inner (some t) (executeInnerJoin cfg t left right join op) := by
  have hbroadcast : ∀ build probe buildJoinCol probeJoinCol rows,
      Inner (some t) (runBroadcastJoin cfg t build probe buildJoinCol probeJoinCol rows) :=
    fun _ _ _ _ _ => (inner_askShards (fun _ => rfl) _).bind fun _ => inner_pure _
  refine inner_scanTable.bind fun l => inner_ite (inner_pure _) ?_
  refine inner_scanTable.bind fun r => inner_ite (inner_pure _) ?_
  cases resolveOp op l.2.length r.2.length with
  | broadcast => exact inner_ite (hbroadcast _ _ _ _ _) (hbroadcast _ _ _ _ _)
  | shuffle =>
    refine Inner.bind (inner_askShards (fun shard => ?_) _) fun _ => inner_pure _
    rfl

theorem inner_sourceRows (left : TableDef) (right : Option (TableDef × JoinClause)) :
    Inner (some t) (sourceRows cfg t left right) := by
  cases right with
  | none => exact inner_scanTable.bind fun _ => inner_ite (inner_pure _) (inner_pure _)
  | some right =>
    refine inner_ite (inner_executeInnerJoin _ _ _ _ _) ?_
    refine inner_scanTable.bind fun _ => inner_ite (inner_pure _) ?_
    exact inner_scanTable.bind fun _ => inner_ite (inner_pure _) (inner_pure _)

theorem inner_runExtended (stmt : SelectStmt) (left : TableDef)
    (right : Option (TableDef × JoinClause)) :
    Inner (some t) (runExtended cfg stmt left right t) := by
  refine (inner_sourceRows cfg left right).bind fun rows => ?_
  cases rows with
  | error st => exact inner_pure _
  | ok rows =>
    cases stmt.orderBy with
    | none => exact (inner_pure _).bind fun _ => inner_pure _
    | some o => exact (inner_call ⟨rfl, .inl rfl⟩).bind fun _ => inner_pure _

theorem inner_runPoint (key : Bytes) :
    Inner (some t) (runPoint cfg table conditions columns key t) :=
  (inner_call ⟨rfl, .inr rfl⟩).bind fun _ => inner_ite (inner_pure _) (inner_pure _)

theorem inner_runRange (kr : KeyRange) :
    Inner (some t) (runRange cfg table conditions columns kr t) :=
  (inner_call ⟨rfl, .inr rfl⟩).bind fun _ => inner_ite (inner_pure _) (inner_pure _)

end Bodies

/-! ## Statements that leave the client in its transaction -/

/-- A statement reports that it has written a row: `INSERT` by its success, `UPDATE` and `DELETE`
by the number in their tag. -/
def Statement.wroteRow : Statement → ExecResult → Bool
  | .insert _, res => res.ok
  | .update _, res => res.ok && res.commandTag = "UPDATE 1"
  | .delete _, res => res.ok && res.commandTag = "DELETE 1"
  | _, _ => false

/-- A transaction of the statement's own: it is begun, has its calls and is ended by the last call,
which is a commit that succeeds if the statement reports a row. -/
def Bracketed (stmt : Statement) (tr : List (Event Call.Answer)) (res : ExecResult) : Prop :=
  ∃ front own ops reply e, tr = front ++ began own :: (ops ++ [e]) ∧
    (∀ x ∈ front, x.1.Within none) ∧ (∀ x ∈ ops, x.1.Within (some own)) ∧ EndsWith own reply e ∧
    (stmt.wroteRow res = true → e = ⟨.commit own, reply⟩ ∧ Status.isOk reply = true)

/-- The calls of a statement behind which the client is where it was before. -/
inductive Course (stmt : Statement) :
    CoordTxnId → List (Event Call.Answer) → ExecResult → Prop
  | idle {t : CoordTxnId} {tr : List (Event Call.Answer)} {res : ExecResult}
      (htr : ∀ e ∈ tr, e.1.Within none) (hres : stmt.wroteRow res = false) : Course stmt t tr res
  | inside {t : CoordTxnId} {tr : List (Event Call.Answer)} {res : ExecResult} (ht : t ≠ 0)
      (htr : ∀ e ∈ tr, e.1.Within (some t)) : Course stmt t tr res
  | own {tr : List (Event Call.Answer)} {res : ExecResult} (h : Bracketed stmt tr res) :
      Course stmt 0 tr res

/-- A statement behind which the client is in the same transaction as before. -/
def StaysIn (stmt : Statement) (t : CoordTxnId) (m : Exec ExecOutput) : Prop :=
  ∀ tr out, m.run.Yields tr (some out) → out.txnId = t ∧ Course stmt t tr out.result

section StaysIn

variable {stmt : Statement} {t : CoordTxnId} {res : ExecResult}

theorem Course.prepend {front : List (Event Call.Answer)} (hfront : ∀ e ∈ front, e.1.Within none)
    (h : Course stmt t tr res) : Course stmt t (front ++ tr) res := by
  cases h with
  | idle htr hres => exact .idle (forall_mem_append.mpr ⟨hfront, htr⟩) hres
  | inside ht htr =>
    exact .inside ht (forall_mem_append.mpr ⟨fun e he => (hfront e he).of_none, htr⟩)
  | own h =>
    obtain ⟨front', own, ops, reply, e, rfl, hfront', hrest⟩ := h
    exact .own ⟨front ++ front', own, ops, reply, e, (append_assoc ..).symm,
      forall_mem_append.mpr ⟨hfront, hfront'⟩, hrest⟩

/-- Who fails reports no row. -/
theorem wroteRow_of_failed (h : res.ok = false) : stmt.wroteRow res = false := by
  cases stmt <;> simp [Statement.wroteRow, h]

theorem staysIn_pure (h : stmt.wroteRow res = false) : StaysIn stmt t (pure ⟨res, t⟩) := by
  rintro tr out ⟨rfl, hr⟩
  obtain rfl := some.inj hr
  exact ⟨rfl, .idle (forall_mem_nil _) h⟩

theorem staysIn_refused (error : String) : StaysIn stmt t (refused error t) :=
  staysIn_pure (wroteRow_of_failed rfl)

theorem Inner.bind_staysIn {m : Exec α} {f : α → Exec ExecOutput} (hm : Inner none m)
    (hf : ∀ a, StaysIn stmt t (f a)) : StaysIn stmt t (m >>= f) := by
  intro tr out h
  rcases yields_throwing_bind.mp h with ⟨-, hr⟩ | ⟨tr₁, a, tr₂, rfl, h₁, h₂⟩
  · cases hr
  · obtain ⟨htxn, hcourse⟩ := hf a tr₂ out h₂
    exact ⟨htxn, hcourse.prepend (hm tr₁ _ h₁)⟩

/-- An answer that may be missing. -/
theorem Inner.bind_cases {m : Exec (Option α)} {f : Option α → Exec ExecOutput} (hm : Inner none m)
    (hnone : StaysIn stmt t (f none)) (hsome : ∀ a, StaysIn stmt t (f (some a))) :
    StaysIn stmt t (m >>= f) := by
  refine hm.bind_staysIn fun o => ?_
  cases o with
  | none => exact hnone
  | some a => exact hsome a

theorem staysIn_ite {c : Prop} [Decidable c] {m m' : Exec ExecOutput} (hm : StaysIn stmt t m)
    (hm' : StaysIn stmt t m') : StaysIn stmt t (if c then m else m') := by
  split_ifs
  · exact hm
  · exact hm'

/-- A body that fails reports no row. -/
theorem wroteRow_failure {noRow : Option String}
    (h : ∀ tag ∈ noRow, ∀ res : ExecResult, stmt.wroteRow (res.tagged tag) = false) (st : Status) :
    stmt.wroteRow (failure noRow st res) = false := by
  cases noRow with
  | none => exact wroteRow_of_failed rfl
  | some tag =>
    rw [failure]
    split_ifs
    · exact h tag rfl res
    · exact wroteRow_of_failed rfl

/-- **A statement with a body** stays in the transaction of the client, or ends the one that it
has begun for itself. -/
theorem staysIn_bracket {noRow : Option String}
    (hnoRow : ∀ tag ∈ noRow, ∀ res : ExecResult, stmt.wroteRow (res.tagged tag) = false)
    (done : ExecResult → ExecResult) {body : CoordTxnId → Exec (Status × ExecResult)}
    (hbody : ∀ t, Inner (some t) (body t)) : StaysIn stmt t (bracket noRow done t body) := by
  intro tr out h
  rw [bracket] at h
  split_ifs at h with ht
  · rcases yields_throwing_bind.mp h with ⟨-, hr⟩ | ⟨tr₁, x, tr₂, rfl, hrun, rfl, hr⟩
    · cases hr
    obtain rfl := some.inj hr
    exact ⟨rfl, .inside ht (by simpa using hbody t tr₁ _ hrun)⟩
  · obtain rfl : t = 0 := not_not.mp ht
    obtain ⟨own, tr₁, rfl, hrest⟩ := yields_call_bind.mp h
    rcases yields_throwing_bind.mp hrest with ⟨-, hr⟩ | ⟨ops, ⟨st, res⟩, tr₂, rfl, hrun, hend⟩
    · cases hr
    have hown : ∀ reply e, tr₂ = [e] → EndsWith own reply e →
        (stmt.wroteRow out.result = true → e = ⟨.commit own, reply⟩ ∧ Status.isOk reply = true) →
        Course stmt 0 (began own :: (ops ++ tr₂)) out.result := by
      rintro reply e rfl he hres
      exact .own ⟨[], own, ops, reply, e, rfl, forall_mem_nil _, hbody own ops _ hrun, he, hres⟩
    -- the last call ends the transaction
    simp only at hend
    by_cases hok : Status.isOk st = true
    · rw [if_pos hok] at hend
      obtain ⟨reply, tr₃, rfl, rfl, hr⟩ := yields_call_bind.mp hend
      obtain rfl := some.inj hr
      refine ⟨rfl, hown reply _ rfl (.inl rfl) fun hrow => ⟨rfl, ?_⟩⟩
      by_contra hfailed
      rw [if_neg hfailed, wroteRow_of_failed rfl] at hrow
      cases hrow
    · rw [if_neg hok] at hend
      obtain ⟨reply, tr₃, rfl, rfl, hr⟩ := yields_call_bind.mp hend
      obtain rfl := some.inj hr
      refine ⟨rfl, hown reply _ rfl (.inr rfl) fun hrow => ?_⟩
      rw [wroteRow_failure hnoRow] at hrow
      cases hrow

theorem inner_catalog (h : c.isBoundary = false) (htxn : c.txn? = none) :
    Inner none (call c) :=
  inner_call ⟨h, .inl htxn⟩

theorem staysIn_execCreateTable (stmt : CreateTableStmt) :
    StaysIn (.createTable stmt) t (execCreateTable stmt t) :=
  (inner_catalog rfl rfl).bind_staysIn fun _ => staysIn_ite (staysIn_refused _) (staysIn_pure rfl)

variable (cfg : ExecConfig)
include cfg

theorem staysIn_execInsert (stmt : InsertStmt) :
    StaysIn (.insert stmt) t (execInsert cfg stmt t) := by
  refine (inner_catalog rfl rfl).bind_cases (staysIn_refused _) fun table => ?_
  refine staysIn_ite (staysIn_refused _) ?_
  simp only
  cases (stmt.columns.zip stmt.values).lookup table.primaryKey with
  | none => exact staysIn_refused _
  | some value =>
    simp only
    cases findColumn table table.primaryKey with
    | none => exact staysIn_refused _
    | some _ =>
      exact staysIn_bracket (by simp) _ fun _ =>
        (inner_call ⟨rfl, .inr rfl⟩).bind fun _ => inner_pure _

theorem staysIn_execUpdate (stmt : UpdateStmt) :
    StaysIn (.update stmt) t (execUpdate cfg stmt t) := by
  refine (inner_catalog rfl rfl).bind_cases (staysIn_refused _) fun table => ?_
  refine (inner_orThrow _).bind_cases (staysIn_refused _) fun pk => ?_
  refine staysIn_bracket (by simp [Statement.wroteRow, ExecResult.tagged]) _ fun _ =>
    inner_readRow _ fun cells => ?_
  refine (inner_orThrow _).bind fun changed => ?_
  cases changed with
  | error st => exact inner_pure _
  | ok cells => exact inner_call ⟨rfl, .inr rfl⟩

theorem staysIn_execDelete (stmt : DeleteStmt) :
    StaysIn (.delete stmt) t (execDelete cfg stmt t) := by
  refine (inner_catalog rfl rfl).bind_cases (staysIn_refused _) fun table => ?_
  refine (inner_orThrow _).bind_cases (staysIn_refused _) fun pk => ?_
  exact staysIn_bracket (by simp [Statement.wroteRow, ExecResult.tagged]) _ fun _ =>
    inner_readRow _ fun _ => inner_call ⟨rfl, .inr rfl⟩

theorem staysIn_selectByKey (stmt : SelectStmt) (table : TableDef) (conditions : WhereClause) :
    StaysIn (.select stmt) t (selectByKey cfg stmt table conditions t) := by
  refine (inner_orThrow _).bind_cases (staysIn_refused _) fun kr => ?_
  refine staysIn_ite (staysIn_ite (staysIn_pure rfl) ?_) (staysIn_ite (staysIn_refused _) ?_)
  · exact staysIn_bracket (by simp [Statement.wroteRow]) _ fun _ => inner_runPoint _ _
  · exact staysIn_bracket (by simp) _ fun _ => inner_runRange _ _

theorem staysIn_execSelect (stmt : SelectStmt) :
    StaysIn (.select stmt) t (execSelect cfg stmt t) := by
  have hextended : ∀ table right,
      StaysIn (.select stmt) t (bracket none id t (runExtended cfg stmt table right)) :=
    fun table right => staysIn_bracket (by simp) _ fun _ => inner_runExtended _ _ _ _
  refine (inner_catalog rfl rfl).bind_cases (staysIn_refused _) fun table => ?_
  cases hjoin : stmt.join with
  | some join =>
    exact (inner_catalog rfl rfl).bind_cases (staysIn_refused _) fun right => hextended table _
  | none =>
    cases hfilter : stmt.filter with
    | none => exact hextended table none
    | some conditions => exact staysIn_ite (hextended table none) (staysIn_selectByKey _ _ _ _)

end StaysIn

/-! ## One statement -/

/-- What a statement can do: leave the client where it is, or be one of `BEGIN`, `COMMIT` and
`ROLLBACK`. -/
inductive Served : Statement → CoordTxnId → List (Event Call.Answer) → ExecOutput → Prop
  | course {stmt : Statement} {t : CoordTxnId} {tr : List (Event Call.Answer)} {res : ExecResult}
      (h : Course stmt t tr res) : Served stmt t tr ⟨res, t⟩
  | opened {res : ExecResult} (t : CoordTxnId) : Served .begin 0 [began t] ⟨res, t⟩
  | commit {t t' : CoordTxnId} {res : ExecResult} (ht : t ≠ 0) (ht' : t' = 0 ∨ t' = t)
      (reply : Status) : Served .commit t [⟨.commit t, reply⟩] ⟨res, t'⟩
  | rollback {t : CoordTxnId} {res : ExecResult} (ht : t ≠ 0) (reply : Status) :
      Served .rollback t [⟨.abort t, reply⟩] ⟨res, 0⟩

section Statement

variable {cfg : ExecConfig} {stmt : Statement} {t : CoordTxnId} {out : ExecOutput}

theorem StaysIn.served {m : Exec ExecOutput} (hm : StaysIn stmt t m)
    (h : m.run.Yields tr (some out)) : Served stmt t tr out := by
  obtain ⟨rfl, hcourse⟩ := hm tr out h
  exact .course hcourse

/-- **Every statement that comes to its end** does one of these. -/
theorem execute_served (h : (execute cfg stmt t).run.Yields tr (some out)) :
    Served stmt t tr out := by
  cases stmt with
  | createTable stmt => exact (staysIn_execCreateTable stmt).served h
  | insert stmt => exact (staysIn_execInsert cfg stmt).served h
  | select stmt => exact (staysIn_execSelect cfg stmt).served h
  | update stmt => exact (staysIn_execUpdate cfg stmt).served h
  | delete stmt => exact (staysIn_execDelete cfg stmt).served h
  | begin =>
    rw [execute, execBegin] at h
    split_ifs at h with ht
    · exact (staysIn_refused _).served h
    · obtain rfl : t = 0 := not_not.mp ht
      obtain ⟨own, tr', rfl, rfl, hr⟩ := yields_call_bind.mp h
      obtain rfl := some.inj hr
      exact .opened own
  | commit =>
    rw [execute, execCommit] at h
    split_ifs at h with ht
    · subst ht
      exact (staysIn_refused _).served h
    · obtain ⟨reply, tr', rfl, hend⟩ := yields_call_bind.mp h
      by_cases hok : Status.isOk reply = true
      · rw [if_pos hok] at hend
        obtain ⟨rfl, hr⟩ := hend
        obtain rfl := some.inj hr
        exact .commit ht (.inl rfl) reply
      · rw [if_neg hok] at hend
        obtain ⟨rfl, hr⟩ := hend
        obtain rfl := some.inj hr
        exact .commit ht (.inr rfl) reply
  | rollback =>
    rw [execute, execRollback] at h
    split_ifs at h with ht
    · obtain ⟨reply, tr', rfl, rfl, hr⟩ := yields_call_bind.mp h
      obtain rfl := some.inj hr
      exact .rollback ht reply
    · obtain rfl : t = 0 := not_not.mp ht
      exact (staysIn_pure rfl).served h

end Statement

/-- **Transactions are bracketed once.**  Outside a transaction a statement makes calls in none, or
it begins one, has its calls in that and ends it by its last call; it reports a row only if that was
a commit which succeeded.  In a transaction it makes calls in no other one, and begins and ends
none except by `COMMIT` and `ROLLBACK`. -/
theorem execute_brackets (cfg : ExecConfig) (stmt : Statement) (t : CoordTxnId)
    (tr : List (Event Call.Answer)) (out : ExecOutput)
    (h : (execute cfg stmt t).run.Yields tr (some out)) :
    (t = 0 → stmt ≠ .begin → out.txnId = 0 ∧
      (((∀ e ∈ tr, e.1.Within none) ∧ stmt.wroteRow out.result = false) ∨
        Bracketed stmt tr out.result)) ∧
    (t ≠ 0 → (∀ e ∈ tr, e.1.txn? = none ∨ e.1.txn? = some t) ∧
      (stmt ≠ .commit → stmt ≠ .rollback → boundaries tr = [])) := by
  cases execute_served h with
  | course hcourse =>
    cases hcourse with
    | idle htr hres =>
      exact ⟨fun ht _ => ⟨ht, .inl ⟨htr, hres⟩⟩, fun _ =>
        ⟨fun e he => (htr e he).of_none.2, fun _ _ => boundaries_of_within htr⟩⟩
    | inside ht htr =>
      exact ⟨fun h0 => absurd h0 ht, fun _ =>
        ⟨fun e he => (htr e he).2, fun _ _ => boundaries_of_within htr⟩⟩
    | own hown => exact ⟨fun _ _ => ⟨rfl, .inr hown⟩, fun h0 => absurd rfl h0⟩
  | opened own => exact ⟨fun _ h => absurd rfl h, fun h0 => absurd rfl h0⟩
  | commit ht _ reply =>
    exact ⟨fun h0 => absurd h0 ht, fun _ =>
      ⟨forall_mem_singleton.mpr (.inr rfl), fun h => absurd rfl h⟩⟩
  | rollback ht reply =>
    exact ⟨fun h0 => absurd h0 ht, fun _ =>
      ⟨forall_mem_singleton.mpr (.inr rfl), fun _ h => absurd rfl h⟩⟩

/-- A catalog with one table, and a coordinator whose calls all succeed. -/
def allOk : (c : Call) → c.Answer
  | .getTable _ => some idTable
  | .createTable _ _ _ => 1
  | .begin => 1
  | .commit _ => .ok
  | .abort _ => .ok
  | .read _ _ _ => (.ok, [])
  | .write _ _ _ _ => .ok
  | .delete _ _ _ => .ok
  | .scan _ _ _ _ _ => (.ok, [])
  | .join _ _ => (.ok, ⟨true, .ok, "", []⟩)
  | .sort _ _ rows => rows

/-- `INSERT INTO t (id) VALUES (7)`, in a transaction of its own. -/
theorem execute_brackets_insert :
    let stmt := Statement.insert ⟨ascii "t", [ascii "id"], [.int 7]⟩
    let r := (execute ⟨noDoubles, 1, .auto⟩ stmt 0).run.recorded allOk
    ∃ out, r.2 = some out ∧ stmt.wroteRow out.result = true ∧ Bracketed stmt r.1 out.result := by
  intro stmt r
  have hout : r.2 = some ⟨affected "INSERT 0 1" .init, 0⟩ := by decide +kernel
  have hrow : stmt.wroteRow (affected "INSERT 0 1" .init) = true := rfl
  have hrun := Program.yields_recorded allOk (execute ⟨noDoubles, 1, .auto⟩ stmt 0).run
  rw [show _ = _ from hout] at hrun
  obtain ⟨-, hidle | hbracketed⟩ := (execute_brackets _ _ 0 _ _ hrun).1 rfl nofun
  · cases hrow.symm.trans hidle.2
  · exact ⟨_, hout, hrow, hbracketed⟩

end TransDb.Sql
