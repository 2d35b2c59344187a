import TransDb.Pgwire.Steps

/-!
# What follows an error

An error in a simple query, and an error in the messages of the extended protocol.

* `StopsAtError` — after an error nothing is handed to the executor; `stopsAtError_iff` — for a
  simple query this is so exactly if every statement behind the one that failed is `refused`.
* `Step.ActedOn` — a message asks something or changes the session; `untilSync` — the messages
  before the next `Sync`.
* `actedOn_iff` — behind an error every message is acted on but those that ask for nothing.
* `session_stops_iff` — when both hold throughout a session.
-/

namespace TransDb.Pgwire

open List Sql
open Stateful (Runs runs_pure)

/-! ## A simple query -/

/-- Nothing is handed to the executor after an error. -/
def StopsAtError (tr : Trace) : Prop :=
  tr.Pairwise fun e e' => e.1.isError = true → e'.1.executes = none

instance (tr : Trace) : Decidable (StopsAtError tr) :=
  inferInstanceAs (Decidable (List.Pairwise _ tr))

/-- The statements of a simple query with their runs; what follows them executes nothing and writes
no error. -/
def QueryParts (D : DoubleLib) (x : Step) (ps : List Part) : Prop :=
  ∃ tail s', Parts D x.before ps s' ∧
    ps.map Part.chunk <+: splitStatements (stripZeros x.message.payload) ∧
    x.trace = partsTrace ps ++ tail ∧ executed tail = [] ∧ hasError tail = false

/-- Every statement behind one that failed is refused. -/
def RefusedAfterError (D : DoubleLib) (ps : List Part) : Prop :=
  ps.Pairwise fun p q => hasError p.trace = true → refused D q.before q.chunk = true

section Query

variable {D : DoubleLib} {s : PgSession} {tr : Trace} {ps : List Part}
  {r : Option (Unit × PgSession)}

theorem executed_eq_nil_iff :
    executed tr = [] ↔ ∀ e ∈ tr, e.1.executes = none := List.filterMap_eq_nil_iff

theorem Parts.runs {r : Option PgSession} (h : Parts D s ps r) {p : Part} (hp : p ∈ ps) :
    ∃ r', Runs (processSingle D p.chunk) p.before p.trace r' := by
  induction h with
  | nil s => cases hp
  | crash hrun =>
    obtain rfl := mem_singleton.mp hp
    exact ⟨_, hrun⟩
  | cons hrun _ ih =>
    rcases mem_cons.mp hp with rfl | hp
    · exact ⟨_, hrun⟩
    · exact ih hp

/-- The executor is called before anything is written. -/
theorem stopsAtError_processSingle {sql : Bytes} (h : Runs (processSingle D sql) s tr r) :
    StopsAtError tr := by
  have hquiet : ∀ {tr : Trace}, executed tr = [] → StopsAtError tr := by
    intro tr hexec
    refine pairwise_of_forall_mem_list ?_
    intro e _ e' he' _
    exact executed_eq_nil_iff.mp hexec e' he'
  rcases processSingle_spec h with
    ⟨-, hexec, -⟩ | ⟨-, stmt, -, ⟨rfl, -⟩ | ⟨out, rest, rfl, hexec, -⟩⟩
  · exact hquiet hexec
  · exact pairwise_singleton _ _
  · refine pairwise_cons.mpr ⟨?_, hquiet hexec⟩
    intro e _ herror
    cases herror

theorem executed_processSingle {sql : Bytes} (h : Runs (processSingle D sql) s tr r) :
    executed tr = [] ↔ refused D s sql = true := by
  rcases processSingle_spec h with
    ⟨hrefused, hexec, -⟩ | ⟨hrefused, stmt, -, ⟨rfl, -⟩ | ⟨out, rest, rfl, -⟩⟩
  · exact iff_of_true hexec hrefused
  · rw [hrefused]
    exact iff_of_false (cons_ne_nil stmt _) Bool.false_ne_true
  · rw [hrefused]
    exact iff_of_false (cons_ne_nil stmt _) Bool.false_ne_true

/-- **A simple query** stops at an error exactly if the statements behind it are refused. -/
theorem stopsAtError_iff {x : Step} (h : QueryParts D x ps) :
    StopsAtError x.trace ↔ RefusedAfterError D ps := by
  obtain ⟨tail, s', hparts, -, htrace, hexec, -⟩ := h
  have htail := executed_eq_nil_iff.mp hexec
  have hends : StopsAtError x.trace ↔ StopsAtError (partsTrace ps) := by
    rw [htrace, StopsAtError, pairwise_append]
    refine ⟨fun h => h.1, fun h => ⟨h, ?_, fun _ _ e he _ => htail e he⟩⟩
    refine pairwise_of_forall_mem_list ?_
    intro e _ e' he' _
    exact htail e' he'
  -- an error in one statement and a call in another one
  have hpair : ∀ p ∈ ps, ∀ q ∈ ps,
      (∀ e ∈ p.trace, ∀ e' ∈ q.trace, e.1.isError = true → e'.1.executes = none) ↔
        (hasError p.trace = true → refused D q.before q.chunk = true) := by
    intro p _ q hq
    obtain ⟨r, hrun⟩ := hparts.runs hq
    rw [← executed_processSingle hrun, executed_eq_nil_iff, hasError, any_eq_true]
    constructor
    · rintro hnone ⟨e, he, herror⟩ e' he'
      exact hnone e he e' he' herror
    · intro hnone e he e' he' herror
      exact hnone ⟨e, he, herror⟩ e' he'
  rw [hends, partsTrace, StopsAtError, pairwise_flatten, pairwise_map]
  constructor
  · rintro ⟨-, h⟩
    exact (List.Pairwise.iff_of_mem fun hp hq => hpair _ hp _ hq).mp h
  · intro h
    refine ⟨?_, (List.Pairwise.iff_of_mem fun hp hq => hpair _ hp _ hq).mpr h⟩
    intro tr htr
    obtain ⟨p, hp, rfl⟩ := mem_map.mp htr
    obtain ⟨r, hrun⟩ := hparts.runs hp
    exact stopsAtError_processSingle hrun

end Query

/-! ## The extended protocol -/

/-- A message of the extended protocol that was answered with an error. -/
def Step.fails (x : Step) : Bool :=
  (x.message.kind ∈ [MessageKind.parse, .bind, .describe, .execute, .close]) && hasError x.trace

/-- The message asks something or changes the session. -/
def Step.ActedOn (x : Step) : Prop := x.trace ≠ [] ∨ x.after ≠ some x.before

/-- The messages before the next `Sync`. -/
def untilSync (steps : List Step) : List Step := steps.takeWhile fun x => x.message.kind ≠ .sync

/-- `Flush` and the messages of a type that the session does not know. -/
def MessageKind.idle (kind : MessageKind) : Bool := kind = .flush || kind = .unknown

section Extended

variable {D : DoubleLib} {x : Step}

section

variable (hrun : Runs (handle D x.message) x.before x.trace (x.after.map fun s => ((), s)))
include hrun

theorem answered_of_extended
    (hkind : x.message.kind ∈ [MessageKind.parse, .bind, .describe, .execute, .close]) :
    Answered x.trace (x.after.map fun s => ((), s)) := by
  cases hk : x.message.kind with
  | parse =>
    rcases handleParse_spec (runs_handle (by rw [handle, hk]) hrun) with
      ⟨e, -, h⟩ | ⟨m, -, htrace, -⟩
    · exact h.answered
    · exact answered_of_write rfl htrace
  | bind =>
    rcases handleBind_spec (runs_handle (by rw [handle, hk]) hrun) with
      ⟨e, -, h⟩ | ⟨m, -, ⟨-, h⟩ | ⟨ps, -, htrace, -⟩⟩
    · exact h.answered
    · exact h.answered
    · exact answered_of_write rfl htrace
  | execute =>
    rcases handleExecute_spec (runs_handle (by rw [handle, hk]) hrun) with
      ⟨e, -, h⟩ | ⟨name, -, ⟨-, h⟩ | ⟨portal, -, hsingle⟩⟩
    · exact h.answered
    · exact h.answered
    · exact processSingle_answered hsingle
  | describe => exact (handleDescribe_spec (runs_handle (by rw [handle, hk]) hrun)).answered
  | close =>
    obtain ⟨front, rest, read, htrace, hfront, -, hclose⟩ :=
      handleClose_spec (runs_handle (by rw [handle, hk]) hrun)
    have hrest : Answered rest (x.after.map fun s => ((), s)) := by
      rcases hclose with h | ⟨hrest, -⟩
      · exact h.answered
      · exact answered_of_write rfl hrest
    rw [htrace]
    exact hrest.prepend hfront.hasError
  | _ => simp [hk] at hkind

/-- An error is sent at once with all that was written before. -/
theorem writeBuf_of_fails
    (hfails : x.fails = true) {s : PgSession} (hs : x.after = some s) : s.writeBuf = [] := by
  obtain ⟨hkind, herror⟩ := Bool.and_eq_true_iff.mp hfails
  exact (answered_of_extended hrun (of_decide_eq_true hkind)).settled s (by rw [hs]; rfl) herror

/-- **With nothing left to send**, a message is acted on unless it asks for nothing. -/
theorem actedOn_iff
    (hbuf : x.before.writeBuf = []) (hterminate : x.message.kind ≠ .terminate)
    (hsync : x.message.kind ≠ .sync) : x.ActedOn ↔ x.message.kind.idle = false := by
  have hnothing : x.trace = [] ∧ some ((), x.before) = x.after.map (fun s => ((), s)) →
      ¬ x.ActedOn := by
    rintro ⟨htrace, hr⟩
    obtain ⟨s, hs, heq⟩ := Option.map_eq_some_iff.mp hr.symm
    rw [(Prod.mk.inj heq).2] at hs
    rintro (hne | hne)
    · exact hne htrace
    · exact hne hs
  cases hk : x.message.kind with
  | terminate => exact absurd hk hterminate
  | sync => exact absurd hk hsync
  | flush =>
    have h : Runs flush _ _ _ := runs_handle (by rw [handle, hk]) hrun
    exact iff_of_false (hnothing ((runs_flush_of_nil hbuf).mp h)) Bool.true_eq_false_eq_False
  | unknown =>
    have h : Runs (pure ()) _ _ _ := runs_handle (by rw [handle, hk]) hrun
    exact iff_of_false (hnothing (runs_pure.mp h)) Bool.true_eq_false_eq_False
  | query =>
    obtain ⟨_, _, _, -, -, -, -, -, hne, -⟩ :=
      handleSimpleQuery_spec (runs_handle (by rw [handle, hk]) hrun)
    exact iff_of_true (.inl hne) rfl
  | _ =>
    have hanswered := answered_of_extended hrun (by simp [hk])
    exact iff_of_true (.inl hanswered.answers) rfl

end

/-- The messages before the next `Sync` are passed over exactly if they all ask for nothing. -/
theorem passed_over_iff {s : PgSession} {steps : List Step} (hrun : Run D s steps)
    (hbuf : s.writeBuf = []) :
    (∀ y ∈ untilSync steps, ¬ y.ActedOn) ↔ ∀ y ∈ untilSync steps, y.message.kind.idle = true := by
  induction hrun with
  | nil s => exact iff_of_true nofun nofun
  | @cons x rest hio hkind hrun hrest hend ih =>
    rw [untilSync]
    by_cases hsync : x.message.kind = .sync
    · rw [takeWhile_cons_of_neg (by simp [hsync])]
      exact iff_of_true nofun nofun
    · rw [takeWhile_cons_of_pos (by simp [hsync])]
      rw [forall_mem_cons, forall_mem_cons]
      have hfirst : ¬ x.ActedOn ↔ x.message.kind.idle = true := by
        rw [actedOn_iff hrun hbuf hkind hsync, Bool.not_eq_false]
      rw [hfirst]
      refine and_congr_right fun hidle => ?_
      have hafter : x.after = some x.before :=
        not_not.mp fun hne => hfirst.mpr hidle (.inr hne)
      exact ih x.before hafter hbuf

end Extended

/-! ## A whole session -/

/-- **An error stops the rest of the request**, throughout a session, if and only if every
statement behind a failed one of the same query is refused, and only messages that ask for nothing
stand between an error of the extended protocol and the next `Sync`. -/
theorem session_stops_iff (D : DoubleLib) (s : PgSession) (steps : List Step)
    (hrun : Run D s steps) :
    ((∀ x ∈ steps, x.message.kind = .query → StopsAtError x.trace) ∧
      ∀ front x rest, steps = front ++ x :: rest → x.fails = true →
        ∀ y ∈ untilSync rest, ¬ y.ActedOn) ↔
    ((∀ x ∈ steps, x.message.kind = .query →
        ∃ ps, QueryParts D x ps ∧ RefusedAfterError D ps) ∧
      ∀ front x rest, steps = front ++ x :: rest → x.fails = true →
        ∀ y ∈ untilSync rest, y.message.kind.idle = true) := by
  refine and_congr ?_ ?_
  · refine forall₃_congr fun x hx hk => ?_
    obtain ⟨front, rest, rfl⟩ := append_of_mem hx
    obtain ⟨-, hstep, -⟩ := hrun.split
    obtain ⟨ps, tail, s', hparts, hprefix, htrace, hexec, hmild, -⟩ :=
      handleSimpleQuery_spec (runs_handle (by rw [handle, hk]) hstep)
    have hps : QueryParts D x ps := ⟨tail, s', hparts, hprefix, htrace, hexec, hmild⟩
    constructor
    · intro h
      exact ⟨ps, hps, (stopsAtError_iff hps).mp h⟩
    · rintro ⟨ps', hps', h⟩
      exact (stopsAtError_iff hps').mpr h
  · refine forall₅_congr fun front x rest heq hfails => ?_
    subst heq
    obtain ⟨-, hstep, hrest, hend⟩ := hrun.split
    cases hafter : x.after with
    | none =>
      rw [hend hafter]
      exact iff_of_true nofun nofun
    | some s' => exact passed_over_iff (hrest s' hafter) (writeBuf_of_fails hstep hfails hafter)

/-- A client that asks for one statement at a time and waits after an error. -/
def orderlySession : List Step :=
  stepsWith noDoubles (answering fun _ => false) .init
    [clientQuery "DELETE FROM t WHERE id = 1", clientParse "s" "DELETE FROM t WHERE id = 2",
      clientExecute "p", ⟨72, []⟩, ⟨83, []⟩, clientBind "p" "s", clientExecute "p"]

theorem session_stops_orderly :
    Run noDoubles PgSession.init orderlySession ∧
      orderlySession.any (fun x => x.fails) = true ∧
      (∀ x ∈ orderlySession, x.message.kind = .query → StopsAtError x.trace) ∧
      ∀ front x rest, orderlySession = front ++ x :: rest → x.fails = true →
        ∀ y ∈ untilSync rest, ¬ y.ActedOn := by
  have hrun : Run noDoubles PgSession.init orderlySession := run_stepsWith _ _ _ _
  refine ⟨hrun, by decide +kernel, (session_stops_iff noDoubles _ _ hrun).mpr ⟨?_, ?_⟩⟩
  · intro x hx hk
    obtain ⟨front, rest, heq⟩ := append_of_mem hx
    rw [heq] at hrun
    obtain ⟨-, hstep, -⟩ := hrun.split
    obtain ⟨ps, tail, s', hparts, hprefix, htrace, hexec, hmild, -⟩ :=
      handleSimpleQuery_spec (runs_handle (by rw [handle, hk]) hstep)
    refine ⟨ps, ⟨tail, s', hparts, hprefix, htrace, hexec, hmild⟩, ?_⟩
    -- there is only one statement
    have hsingle : orderlySession.all (fun x => x.message.kind ≠ .query ||
        (splitStatements (stripZeros x.message.payload)).length ≤ 1) = true := by decide +kernel
    have hlength := all_eq_true.mp hsingle x hx
    simp only [hk, ne_eq, not_true_eq_false, decide_false, Bool.false_or, decide_eq_true_eq]
      at hlength
    have hle := hprefix.length_le
    rw [length_map] at hle
    cases ps with
    | nil => exact List.Pairwise.nil
    | cons p ps =>
      rw [length_cons] at hle
      obtain rfl : ps = [] := length_eq_zero_iff.mp (by omega)
      exact pairwise_singleton _ _
  · intro front x rest heq hfails y hy
    have hidle : orderlySession.tails.all (fun l => match l with
        | [] => true
        | x :: rest => !x.fails || (untilSync rest).all fun y => y.message.kind.idle) = true := by
      decide +kernel
    have htail := all_eq_true.mp hidle (x :: rest) ((mem_tails _ _).mpr ⟨front, heq.symm⟩)
    simp only [hfails, Bool.not_true, Bool.false_or] at htail
    exact all_eq_true.mp htail y hy

/-- The second statement is carried out although the first one is none. -/
def brokenQuery : List Step :=
  stepsWith noDoubles (answering fun _ => false) .init
    [clientQuery "SELEKT; DELETE FROM t WHERE id = 1"]

/-- `Execute` is carried out although the `Parse` before it is malformed. -/
def brokenPipeline : List Step :=
  stepsWith noDoubles (answering fun _ => false) .init
    [clientParse "" "DELETE FROM t WHERE id = 1", clientBind "" "", ⟨80, []⟩, clientExecute ""]

theorem statements_after_error :
    (Run noDoubles PgSession.init brokenQuery ∧
      ∃ x ∈ brokenQuery, x.message.kind = .query ∧ ¬ StopsAtError x.trace) ∧
    (Run noDoubles PgSession.init brokenPipeline ∧
      ∃ front x rest, brokenPipeline = front ++ x :: rest ∧ x.fails = true ∧
        ∃ y ∈ untilSync rest, executed y.trace ≠ []) := by
  refine ⟨⟨run_stepsWith _ _ _ _, ?_⟩, run_stepsWith _ _ _ _, ?_⟩
  · have hquery : brokenQuery.any (fun x => x.message.kind = .query && !decide (StopsAtError x.trace))
        = true := by decide +kernel
    obtain ⟨x, hx, h⟩ := any_eq_true.mp hquery
    rw [Bool.and_eq_true, decide_eq_true_eq, Bool.not_eq_true', decide_eq_false_iff_not] at h
    exact ⟨x, hx, h⟩
  · have hsplit : brokenPipeline.tails.any (fun l => match l with
        | [] => false
        | x :: rest => x.fails && (untilSync rest).any fun y => executed y.trace ≠ []) = true := by
      decide +kernel
    obtain ⟨l, hl, h⟩ := any_eq_true.mp hsplit
    obtain ⟨front, heq⟩ := (mem_tails _ _).mp hl
    cases l with
    | nil => cases h
    | cons x rest =>
      obtain ⟨hfails, hrest⟩ := Bool.and_eq_true_iff.mp h
      obtain ⟨y, hy, hexec⟩ := any_eq_true.mp hrest
      exact ⟨front, x, rest, heq.symm, hfails, y, hy, of_decide_eq_true hexec⟩

end TransDb.Pgwire
