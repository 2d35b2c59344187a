import TransDb.Pgwire.Steps

/-!
# Names of statements and portals

What `Execute` and `Bind` find under a name, measured against the messages of the session.

* `NameEvent`, `Step.event`, `history` — the statements that were prepared, bound and closed, as
  the client sees it: by the messages it sent and the answers it got.
* `statementText`, `portalText` — what a name stands for after such a history.
* `Truthful` — `Execute` executes what its portal stands for; where a name stands for nothing,
  nothing is executed or bound and the answer is an error.
* `NamesAgree` — the state of the session is that of the history, unless a name was not found
  and the unnamed entry took its place, or `Close` read another name than was sent;
  `session_truthful_iff` — when a session is truthful.
-/

namespace TransDb.Pgwire

open List Function Sql
open Stateful (Runs)

/-! ## The history of the names -/

/-- What becomes of a name. -/
inductive NameEvent where
  | parsed (name query : Bytes)
  | bound (portal statement : Bytes) (params : List Bytes)
  | closedStatement (name : Bytes)
  | closedPortal (name : Bytes)

/-- What the client knows about the names from a message and its answer. -/
def Step.event (x : Step) : Option NameEvent :=
  match x.message.kind with
  | .parse =>
    match decodeParse x.message.payload with
    | .ok m => if wrote .parseComplete x.trace then some (.parsed m.name m.query) else none
    | .error _ => none
  | .bind =>
    match decodeBind x.message.payload with
    | .ok m =>
      if wrote .bindComplete x.trace then some (.bound m.portal m.statement m.params) else none
    | .error _ => none
  | .close =>
    match decodeNamed "Close" x.message.payload with
    | .ok (kind, name) =>
      if wrote .closeComplete x.trace then
        if kind = 83 then some (.closedStatement name) else some (.closedPortal name)
      else none
    | .error _ => none
  | _ => none

/-- The events of some messages, the latest one first. -/
def history (steps : List Step) : List NameEvent := (steps.filterMap Step.event).reverse

/-- The text of the latest `Parse` of a name that was not closed since. -/
def statementText : List NameEvent → Bytes → Option Bytes
  | [], _ => none
  | .parsed n query :: h, name => if n = name then some query else statementText h name
  | .closedStatement n :: h, name => if n = name then none else statementText h name
  | .bound _ _ _ :: h, name => statementText h name
  | .closedPortal _ :: h, name => statementText h name

/-- The query of the latest `Bind` to a portal that was not closed since, with the text that its
statement had then. -/
def portalText : List NameEvent → Bytes → Option Bytes
  | [], _ => none
  | .bound p n params :: h, name =>
    if p = name then (statementText h n).map fun query => substituteParams query params
    else portalText h name
  | .closedPortal p :: h, name => if p = name then none else portalText h name
  | .parsed _ _ :: h, name => portalText h name
  | .closedStatement _ :: h, name => portalText h name

/-- Nothing is executed or bound, and the answer is an error. -/
def Step.Rejected (x : Step) : Prop :=
  executed x.trace = [] ∧ hasError x.trace = true ∧
    ∀ s', x.after = some s' → s'.portals = x.before.portals

/-- `Execute` and `Bind` go by the names that the client gave. -/
def Truthful (D : DoubleLib) (h : List NameEvent) (x : Step) : Prop :=
  (∀ name, x.message.kind = .execute → decodeExecute x.message.payload = .ok name →
    (∀ query, portalText h name = some query → ∀ stmt ∈ executed x.trace, parse D query = .ok stmt) ∧
      (portalText h name = none → x.Rejected)) ∧
  (∀ m, x.message.kind = .bind → decodeBind x.message.payload = .ok m →
    statementText h m.statement = none → x.Rejected)

/-- A name that is not found is not taken for the unnamed entry: there is none, or the unnamed
portal is not executed anyway. -/
def Step.proper (D : DoubleLib) (x : Step) : Bool :=
  match x.message.kind with
  | .bind =>
    match decodeBind x.message.payload with
    | .ok m =>
      (x.before.preparedStmts m.statement).isSome || (x.before.preparedStmts []).isNone
    | .error _ => true
  | .execute =>
    match decodeExecute x.message.payload with
    | .ok name =>
      (x.before.portals name).isSome ||
        (x.before.portals []).all fun portal => refused D x.before portal.query
    | .error _ => true
  | _ => true

/-! ## The state and the history -/

/-- The names of the session are those of the history. -/
structure NamesAgree (h : List NameEvent) (s : PgSession) : Prop where
  statements : ∀ name, (s.preparedStmts name).map PreparedStmt.query = statementText h name
  portals : ∀ name, (s.portals name).map Portal.query = portalText h name

theorem NamesAgree.of_eq {h : List NameEvent} {s s' : PgSession} (hs : NamesAgree h s)
    (hstmts : s'.preparedStmts = s.preparedStmts) (hportals : s'.portals = s.portals) :
    NamesAgree h s' :=
  ⟨by rw [hstmts]; exact hs.1, by rw [hportals]; exact hs.2⟩

/-- One name is given anew, and the other ones stay. -/
theorem map_update {γ δ : Type} {f : γ → δ} {m : Bytes → Option γ} {text : Bytes → Option δ}
    (h : ∀ n, (m n).map f = text n) (name : Bytes) (v : Option γ) (n : Bytes) :
    (update m name v n).map f = if name = n then v.map f else text n := by
  by_cases hn : name = n
  · rw [if_pos hn, hn, update_self]
  · rw [if_neg hn, update_of_ne (Ne.symm hn), h]

section Entries

variable {h : List NameEvent} {s s' : PgSession} (hs : NamesAgree h s)
include hs

theorem NamesAgree.parsed {name query : Bytes} {oids : List ℕ} (hstmts : s'.preparedStmts =
      update s.preparedStmts name (some ⟨name, query, oids⟩)) (hportals : s'.portals = s.portals) :
    NamesAgree (.parsed name query :: h) s' :=
  ⟨by rw [hstmts]; exact map_update hs.1 name _, by rw [hportals]; exact hs.2⟩

theorem NamesAgree.bound {m : BindMessage} {ps : PreparedStmt}
    (hps : s.preparedStmts m.statement = some ps) (hstmts : s'.preparedStmts = s.preparedStmts)
    (hportals : s'.portals = update s.portals m.portal
      (some ⟨m.statement, substituteParams ps.query m.params, m.params⟩)) :
    NamesAgree (.bound m.portal m.statement m.params :: h) s' := by
  refine ⟨by rw [hstmts]; exact hs.1, fun n => ?_⟩
  have htext : statementText h m.statement = some ps.query := by
    rw [← hs.1 m.statement, hps]
    rfl
  rw [hportals, portalText, htext]
  exact map_update hs.2 m.portal _ n

theorem NamesAgree.closedStatement {name : Bytes}
    (hstmts : s'.preparedStmts = update s.preparedStmts name none)
    (hportals : s'.portals = s.portals) : NamesAgree (.closedStatement name :: h) s' :=
  ⟨by rw [hstmts]; exact map_update hs.1 name none, by rw [hportals]; exact hs.2⟩

theorem NamesAgree.closedPortal {name : Bytes} (hstmts : s'.preparedStmts = s.preparedStmts)
    (hportals : s'.portals = update s.portals name none) :
    NamesAgree (.closedPortal name :: h) s' :=
  ⟨by rw [hstmts]; exact hs.1, by rw [hportals]; exact map_update hs.2 name none⟩

end Entries

/-! ## One message -/

section OneStep

variable {D : DoubleLib} {h : List NameEvent} {x : Step} {s : PgSession}

/-- A handler that only answers with an error says nothing about the names. -/
theorem ErrorRun.names {tr : Trace}
    (herror : ErrorRun x.before tr (x.after.map fun s => ((), s))) (hs : x.after = some s) :
    s.preparedStmts = x.before.preparedStmts ∧ s.portals = x.before.portals := by
  obtain ⟨-, -, s', hr, hkept, -⟩ := herror.spec
  obtain rfl := after_eq hs hr
  exact ⟨hkept.1, hkept.2⟩

theorem ErrorRun.rejected
    (herror : ErrorRun x.before x.trace (x.after.map fun s => ((), s))) : x.Rejected := by
  obtain ⟨hexec, hhas, -⟩ := herror.spec
  exact ⟨hexec, hhas, fun s hs => (herror.names hs).2⟩

section

variable (hrun : Runs (handle D x.message) x.before x.trace (x.after.map fun s => ((), s)))
include hrun

/-- The other messages leave the names alone. -/
theorem names_of_other
    (hparse : x.message.kind ≠ .parse) (hbind : x.message.kind ≠ .bind)
    (hclose : x.message.kind ≠ .close) (hs : x.after = some s) :
    s.preparedStmts = x.before.preparedStmts ∧ s.portals = x.before.portals := by
  have hquiet : ∀ {m : Wire Unit}, Quiet m → handle D x.message = m →
      s.preparedStmts = x.before.preparedStmts ∧ s.portals = x.before.portals := by
    intro m hm hhandle
    obtain ⟨-, ⟨⟩, s', hr, hkept⟩ := hm _ _ _ (runs_handle hhandle hrun)
    obtain rfl := after_eq hs hr
    exact ⟨hkept.1, hkept.2⟩
  cases hkind : x.message.kind with
  | parse => exact absurd hkind hparse
  | bind => exact absurd hkind hbind
  | close => exact absurd hkind hclose
  | query =>
    obtain ⟨ps, tail, s₁, hparts, -, -, -, -, -, hend⟩ :=
      handleSimpleQuery_spec (runs_handle (by rw [handle, hkind]) hrun)
    obtain ⟨s₂, rfl, hkept⟩ := hend s (by rw [hs]; rfl)
    obtain ⟨hstmts, hportals⟩ := hparts.names rfl
    exact ⟨hkept.1.trans hstmts, hkept.2.trans hportals⟩
  | execute =>
    rcases handleExecute_spec (runs_handle (by rw [handle, hkind]) hrun) with
      ⟨e, -, herror⟩ | ⟨name, -, ⟨-, herror⟩ | ⟨portal, -, hsingle⟩⟩
    · exact herror.names hs
    · exact herror.names hs
    · exact processSingle_names hsingle (by rw [hs]; rfl)
  | describe =>
    have hdescribed := handleDescribe_spec (runs_handle (by rw [handle, hkind]) hrun)
    have hkept := hdescribed.kept s (by rw [hs]; rfl)
    exact ⟨hkept.1, hkept.2⟩
  | sync =>
    exact hquiet (quiet_writeReadyForQuery.bind fun _ => quiet_flush) (by rw [handle, hkind]; rfl)
  | flush => exact hquiet quiet_flush (by rw [handle, hkind])
  | terminate | unknown => exact hquiet (quiet_pure _) (by rw [handle, hkind])

/-- **One message**: the names stay those of the history, unless `Bind` took the unnamed
statement for one that does not exist or `Close` read another name. -/
theorem namesAgree_step
    (hagree : NamesAgree h x.before) (hproper : x.proper D = true)
    (hread : x.message.kind = .close → readAsSent x.trace = true) (hs : x.after = some s) :
    NamesAgree (history [x] ++ h) s := by
  have hnone : x.event = none → NamesAgree h s → NamesAgree (history [x] ++ h) s := by
    intro hevent hagree
    rwa [history, filterMap_cons_none hevent]
  have hsome : ∀ {e}, x.event = some e → NamesAgree (e :: h) s →
      NamesAgree (history [x] ++ h) s := by
    intro e hevent hagree
    rwa [history, filterMap_cons_some hevent]
  by_cases hparse : x.message.kind = .parse
  · rcases handleParse_spec (runs_handle (by rw [handle, hparse]) hrun) with
      ⟨e, hdecode, herror⟩ | ⟨m, hdecode, htrace, s', hr, hportals, -, hstmts⟩
    · refine hnone ?_ (hagree.of_eq (herror.names hs).1 (herror.names hs).2)
      simp only [Step.event, hparse, hdecode]
    · obtain rfl := after_eq hs hr
      refine hsome ?_ (hagree.parsed hstmts hportals)
      simp only [Step.event, hparse, hdecode, htrace]
      rfl
  by_cases hbind : x.message.kind = .bind
  · rcases handleBind_spec (runs_handle (by rw [handle, hbind]) hrun) with
      ⟨e, hdecode, herror⟩ | ⟨m, hdecode, ⟨-, herror⟩ |
        ⟨ps, hfind, htrace, s', hr, hstmts, -, hportals⟩⟩
    · refine hnone ?_ (hagree.of_eq (herror.names hs).1 (herror.names hs).2)
      simp only [Step.event, hbind, hdecode]
    · refine hnone ?_ (hagree.of_eq (herror.names hs).1 (herror.names hs).2)
      simp only [Step.event, hbind, hdecode, herror.wrote_eq_false (m := .bindComplete) rfl]
      rfl
    · obtain rfl := after_eq hs hr
      have hps : x.before.preparedStmts m.statement = some ps := by
        cases hown : x.before.preparedStmts m.statement with
        | some ps' =>
          rw [findOrUnnamed, hown, Option.some_or] at hfind
          exact hfind
        | none =>
          rw [findOrUnnamed, hown, Option.none_or] at hfind
          simp [Step.proper, hbind, hdecode, hown, hfind] at hproper
      refine hsome ?_ (hagree.bound hps hstmts hportals)
      simp only [Step.event, hbind, hdecode, htrace]
      rfl
  by_cases hclose : x.message.kind = .close
  · obtain ⟨front, rest, read, htrace, hfront, hsent, hspec⟩ :=
      handleClose_spec (runs_handle (by rw [handle, hclose]) hrun)
    obtain rfl : read = x.message.payload := by
      have hall := hread hclose
      rw [htrace, readAsSent, all_append] at hall
      exact hsent (Bool.and_eq_true_iff.mp hall).1
    have hwrote : wrote .closeComplete x.trace = wrote .closeComplete rest := by
      rw [htrace, wrote_append, hfront.wrote, Bool.false_or]
    rcases hspec with herror | ⟨rfl, name, s', hr, ⟨hdecode, hportals, hstmts⟩ |
      ⟨hdecode, hstmts, hportals⟩⟩
    · refine hnone ?_ (hagree.of_eq (herror.names hs).1 (herror.names hs).2)
      simp only [Step.event, hclose, hwrote, herror.wrote_eq_false (m := .closeComplete) rfl]
      cases decodeNamed "Close" x.message.payload <;> rfl
    · obtain rfl := after_eq hs hr
      refine hsome ?_ (hagree.closedStatement hstmts hportals)
      simp only [Step.event, hclose, hdecode, hwrote]
      rfl
    · obtain rfl := after_eq hs hr
      refine hsome ?_ (hagree.closedPortal hstmts hportals)
      simp only [Step.event, hclose, hdecode, hwrote]
      rfl
  · obtain ⟨hstmts, hportals⟩ := names_of_other hrun hparse hbind hclose hs
    refine hnone ?_ (hagree.of_eq hstmts hportals)
    rw [Step.event]
    split <;> first | rfl | contradiction

end

/-- A statement that is not refused is handed to the executor. -/
theorem rejected_iff_refused {query : Bytes}
    (hrun : Runs (processSingle D query) x.before x.trace (x.after.map fun s => ((), s))) :
    x.Rejected ↔ refused D x.before query = true := by
  rcases processSingle_spec hrun with ⟨hrefused, hexec, herror, s', hr, hkept, -⟩ |
    ⟨hrefused, stmt, -, hexec⟩
  · refine iff_of_true ⟨hexec, herror, ?_⟩ hrefused
    intro s hs
    obtain rfl := after_eq hs hr
    exact hkept.2
  · rw [hrefused]
    refine iff_of_false ?_ Bool.false_ne_true
    rintro ⟨hnothing, -, -⟩
    rcases hexec with ⟨htrace, -⟩ | ⟨out, rest, htrace, -⟩
    all_goals
      rw [htrace] at hnothing
      cases hnothing

/-- **One message** is truthful exactly if no unnamed entry takes the place of a missing one. -/
theorem truthful_step_iff
    (hrun : Runs (handle D x.message) x.before x.trace (x.after.map fun s => ((), s)))
    (hagree : NamesAgree h x.before) : Truthful D h x ↔ x.proper D = true := by
  by_cases hbind : x.message.kind = .bind
  · rcases handleBind_spec (runs_handle (by rw [handle, hbind]) hrun) with
      ⟨e, hdecode, herror⟩ | ⟨m, hdecode, hfind⟩
    · simp [Truthful, Step.proper, hbind, hdecode]
    · have htruthful : Truthful D h x ↔ (statementText h m.statement = none → x.Rejected) := by
        simp [Truthful, hbind, hdecode]
      rw [htruthful, ← hagree.1 m.statement, Option.map_eq_none_iff]
      simp only [Step.proper, hbind, hdecode, Bool.or_eq_true, Option.isSome_iff_ne_none,
        Option.isNone_iff_eq_none]
      rcases hfind with ⟨hfind, herror⟩ | ⟨ps, hfind, htrace, -⟩
      · refine iff_of_true (fun _ => herror.rejected) (.inr ?_)
        exact (Option.or_eq_none_iff.mp hfind).2
      · have hnot : ¬ x.Rejected := by
          rintro ⟨-, herror, -⟩
          rw [htrace] at herror
          cases herror
        constructor
        · intro ht
          exact .inl fun hnone => hnot (ht hnone)
        · rintro (hsome | hnone) hmissing
          · exact absurd hmissing hsome
          · rw [findOrUnnamed, hmissing, hnone] at hfind
            cases hfind
  by_cases hexecute : x.message.kind = .execute
  · rcases handleExecute_spec (runs_handle (by rw [handle, hexecute]) hrun) with
      ⟨e, hdecode, herror⟩ | ⟨name, hdecode, hfind⟩
    · simp [Truthful, Step.proper, hexecute, hdecode]
    · have htruthful : Truthful D h x ↔
          (∀ query, portalText h name = some query →
            ∀ stmt ∈ executed x.trace, parse D query = .ok stmt) ∧
            (portalText h name = none → x.Rejected) := by
        simp [Truthful, hexecute, hdecode]
      rw [htruthful, ← hagree.2 name]
      simp only [Step.proper, hexecute, hdecode]
      cases hown : x.before.portals name with
      | some portal =>
        refine iff_of_true ⟨?_, nofun⟩ rfl
        rintro query hquery stmt hstmt
        obtain rfl := Option.some.inj hquery
        rcases hfind with ⟨hfind, -⟩ | ⟨portal', hfind, hsingle⟩
        · rw [findOrUnnamed, hown] at hfind
          cases hfind
        · rw [findOrUnnamed, hown, Option.some_or] at hfind
          obtain rfl := Option.some.inj hfind
          exact processSingle_executed hsingle stmt hstmt
      | none =>
        rw [findOrUnnamed, hown, Option.none_or] at hfind
        have hrest : ((∀ query, Option.map Portal.query none = some query →
            ∀ stmt ∈ executed x.trace, parse D query = .ok stmt) ∧
            (Option.map Portal.query none = none → x.Rejected)) ↔ x.Rejected :=
          ⟨fun ht => ht.2 rfl, fun hr => ⟨nofun, fun _ => hr⟩⟩
        rw [hrest]
        rcases hfind with ⟨hfind, herror⟩ | ⟨portal, hfind, hsingle⟩
        · rw [hfind]
          exact iff_of_true herror.rejected rfl
        · rw [hfind, rejected_iff_refused hsingle]
          rfl
  · refine iff_of_true ⟨fun _ hk => absurd hk hexecute, fun _ hk => absurd hk hbind⟩ ?_
    rw [Step.proper]
    split <;> first | rfl | contradiction

end OneStep

/-! ## A whole session -/

theorem history_append (steps steps' : List Step) :
    history (steps ++ steps') = history steps' ++ history steps := by
  rw [history, filterMap_append, reverse_append]
  rfl

theorem truthful_run_iff {D : DoubleLib} {s : PgSession} {steps : List Step} (hrun : Run D s steps)
    (hread : ∀ x ∈ steps, x.message.kind = .close → readAsSent x.trace = true) {h : List NameEvent}
    (hagree : NamesAgree h s) :
    (∀ front x rest, steps = front ++ x :: rest → Truthful D (history front ++ h) x) ↔
      ∀ x ∈ steps, x.proper D = true := by
  induction hrun generalizing h with
  | nil s =>
    refine iff_of_true ?_ nofun
    intro front x rest hnil
    exact absurd hnil.symm (append_ne_nil_of_right_ne_nil _ (cons_ne_nil _ _))
  | @cons x steps hio hkind hrun hrest hend ih =>
    obtain ⟨hown, hothers⟩ := forall_mem_cons.mp hread
    have hfirst := truthful_step_iff hrun hagree
    -- the later messages, measured against the history with this one
    have hlater : x.proper D = true →
        ((∀ front y rest, steps = front ++ y :: rest →
          Truthful D (history front ++ (history [x] ++ h)) y) ↔ ∀ y ∈ steps, y.proper D = true) := by
      intro hproper
      cases hafter : x.after with
      | none =>
        rw [hend hafter]
        refine iff_of_true ?_ nofun
        intro front y rest hnil
        exact absurd hnil.symm (append_ne_nil_of_right_ne_nil _ (cons_ne_nil _ _))
      | some s => exact ih s hafter hothers (namesAgree_step hrun hagree hproper hown hafter)
    constructor
    · intro ht
      have hproper : x.proper D = true := hfirst.mp (ht [] x steps rfl)
      have hsteps := (hlater hproper).mp fun front y rest heq => by
        have hy := ht (x :: front) y rest (by rw [heq]; rfl)
        rwa [← singleton_append, history_append, append_assoc] at hy
      exact forall_mem_cons.mpr ⟨hproper, hsteps⟩
    · intro hproper front y rest heq
      have hx := hproper x mem_cons_self
      cases front with
      | nil =>
        obtain ⟨rfl, -⟩ := cons.inj heq
        exact hfirst.mpr hx
      | cons z front =>
        obtain ⟨rfl, htail⟩ := cons.inj heq
        rw [← singleton_append, history_append, append_assoc]
        exact (hlater hx).mpr (fun w hw => hproper w (mem_cons_of_mem _ hw)) front y rest htail

/-- **`Execute` executes what was bound** under exactly its name, throughout a session that starts
without names and in which every `Close` reads the name that was sent, if and only if no unnamed
entry ever takes the place of a missing one. -/
theorem session_truthful_iff (D : DoubleLib) (steps : List Step) (hrun : Run D PgSession.init steps)
    (hread : ∀ x ∈ steps, x.message.kind = .close → readAsSent x.trace = true) :
    (∀ front x rest, steps = front ++ x :: rest → Truthful D (history front) x) ↔
      ∀ x ∈ steps, x.proper D = true := by
  have hinit : NamesAgree [] PgSession.init := ⟨fun _ => rfl, fun _ => rfl⟩
  have hsession := truthful_run_iff hrun hread hinit
  simpa only [append_nil] using hsession

/-- A portal that is bound, executed and closed, and executed once more. -/
def deleteSession : List Step :=
  stepsWith noDoubles (answering fun _ => false) .init
    [clientParse "s" "DELETE FROM t WHERE id = 1", clientBind "p" "s", clientExecute "p",
      clientClose "p", clientExecute "p"]

theorem session_truthful_delete :
    Run noDoubles PgSession.init deleteSession ∧ deleteSession.length = 5 ∧
      ∀ front x rest, deleteSession = front ++ x :: rest →
        Truthful noDoubles (history front) x := by
  have hrun : Run noDoubles PgSession.init deleteSession := run_stepsWith _ _ _ _
  have hproper : ∀ x ∈ deleteSession, x.proper noDoubles = true :=
    all_eq_true.mp (by decide +kernel)
  have hread : ∀ x ∈ deleteSession, readAsSent x.trace = true :=
    all_eq_true.mp (by decide +kernel)
  exact ⟨hrun, by decide +kernel, (session_truthful_iff noDoubles _ hrun fun x hx _ =>
    hread x hx).mpr hproper⟩

/-- The unnamed portal is executed again by an `Execute` of a portal that was never bound. -/
def strayExecute : List Step :=
  stepsWith noDoubles (answering fun _ => false) .init
    [clientParse "" "DELETE FROM t WHERE id = 1", clientBind "" "", clientExecute "q"]

/-- Zeros are found in the place of the name of the portal that is closed. -/
def closedExecute : List Step :=
  stepsWith noDoubles (fun
    | .stale bytes => bytes.map fun _ => 0
    | e => answering (fun _ => false) e) .init
    [clientParse "s" "DELETE FROM t WHERE id = 1", clientBind "a_long_portal_name" "s",
      clientClose "a_long_portal_name", clientExecute "a_long_portal_name"]

/-- The last message of a session executes a portal that does not exist. -/
def ExecutesUnbound (steps : List Step) (name : Bytes) : Prop :=
  ∃ front x, steps = front ++ [x] ∧ x.message.kind = .execute ∧
    decodeExecute x.message.payload = .ok name ∧ portalText (history front) name = none ∧
      executed x.trace ≠ []

theorem unnamed_portal_executed :
    (Run noDoubles PgSession.init strayExecute ∧ ExecutesUnbound strayExecute (ascii "q")) ∧
      Run noDoubles PgSession.init closedExecute ∧
        ExecutesUnbound closedExecute (ascii "a_long_portal_name") := by
  have hlast : ∀ {steps : List Step} {name : Bytes} (hne : steps.isEmpty = false),
      (steps.getLast (isEmpty_eq_false_iff.mp hne)).message.kind = .execute →
      decodeExecute (steps.getLast (isEmpty_eq_false_iff.mp hne)).message.payload = .ok name →
      portalText (history steps.dropLast) name = none →
      executed (steps.getLast (isEmpty_eq_false_iff.mp hne)).trace ≠ [] →
      ExecutesUnbound steps name := by
    intro steps name hne hkind hname hnone hexec
    exact ⟨_, _, (dropLast_append_getLast _).symm, hkind, hname, hnone, hexec⟩
  refine ⟨⟨run_stepsWith _ _ _ _, hlast (by decide +kernel) ?_ ?_ ?_ ?_⟩,
    run_stepsWith _ _ _ _, hlast (by decide +kernel) ?_ ?_ ?_ ?_⟩
  all_goals decide +kernel

end TransDb.Pgwire
