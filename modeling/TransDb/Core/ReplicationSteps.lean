import TransDb.Core.Replication

/-!
# The operations of log replication keep the invariant

The six things that happen to a `Replication.State`: a node moves to a later
term (`raise`), stands as a candidate (`stand`), grants a vote (`grant`), is
elected (`elect`), extends its log as a leader (`extend`), or takes over a prefix
of its leader's log (`accept`).  Each is a function with its precondition, and
each keeps `Inv`.

`Grows` is what all six have in common: leaders stay, and leader logs only grow.
Rootedness, losses and chosen prefixes survive growth (`Rooted.mono`,
`Inv.lost_mono`, `Chosen.mono`), so the proofs only look at what an operation
changes.
-/

namespace TransDb.Replication

open Option List Function

variable {ν α : Type*} {stamp : α → ℕ} {Q : Quorums ν}

/-! ## Growth -/

/-- Leaders stay and their logs only grow. -/
structure Grows (s s' : State ν α) : Prop where
  leaderLog : ∀ T, s.leaderLog T <+: s'.leaderLog T
  leader : ∀ T, s.leader T ≠ none → s'.leader T = s.leader T

theorem Grows.refl (s : State ν α) : Grows s s := ⟨fun _ => List.prefix_rfl, fun _ _ => rfl⟩

theorem Grows.trans {s t u : State ν α} (h : Grows s t) (h' : Grows t u) : Grows s u where
  leaderLog T := (h.leaderLog T).trans (h'.leaderLog T)
  leader T hT := by
    have h1 := h.leader T hT
    rw [h'.leader T (by rw [h1]; exact hT), h1]

variable {s s' : State ν α} {c : ν} {A : Finset ν} {l : List α} {v : ν}

theorem Rooted.mono (hg : Grows s s') (h : Rooted stamp s l) : Rooted stamp s' l :=
  fun p e hp => (h p e hp).trans (hg.leaderLog _)

variable {T U n : ℕ}

/-- A prefix that fits into a list is the same prefix of a longer list. -/
theorem take_eq_take_left {l l' : List α} (h : l <+: l') (hn : n ≤ l.length) :
    l'.take n = l.take n := by
  obtain ⟨t, rfl⟩ := h
  exact take_append_of_le_length hn

/-- A loss stays a loss: a leader that lacks a prefix of an earlier leader's log
already has an entry of its own, so its log can only grow away from it. -/
theorem Inv.lost_mono (h : Inv stamp Q s) (hg : Grows s s') {U' : ℕ}
    (hn : n ≤ (s.leaderLog T).length) (hU : U ≤ U') (hl : Lost s T n U) : Lost s' T n U' := by
  obtain ⟨V, hTV, hVU, hV, hnot⟩ := hl
  refine ⟨V, hTV, hVU.trans hU, by rw [hg.leader V hV]; exact hV, ?_⟩
  rw [take_eq_take_left (hg.leaderLog T) hn]
  intro hpre
  rcases prefix_or_prefix_of_prefix hpre (hg.leaderLog V) with h1 | h1
  · exact hnot h1
  · obtain ⟨p, e, hpe, he⟩ := h.leader_own hV
    have hmem : e ∈ s.leaderLog T := (h1.trans <| take_prefix _ _).subset (by simp [hpe])
    have := h.leader_le hmem
    omega

/-- What a node is known to hold of a leader's log after growth. -/
theorem Inv.held_mono (h : Inv stamp Q s) (hg : Grows s s') {U' : ℕ} {l l' : List α}
    (hn : n ≤ (s.leaderLog T).length) (hU : U ≤ U') (hl : l <+: l')
    (hh : (s.leaderLog T).take n <+: l ∨ Lost s T n U) :
    (s'.leaderLog T).take n <+: l' ∨ Lost s' T n U' := by
  rcases hh with hp | hlost
  · left
    rw [take_eq_take_left (hg.leaderLog T) hn]
    exact hp.trans hl
  · exact Or.inr (h.lost_mono hg hn hU hlost)

/-- A chosen prefix stays chosen. -/
theorem Chosen.mono (hg : Grows s s') (hack : ∀ v T, s.acked v T ≤ s'.acked v T)
    (h : Chosen stamp Q s T n) : Chosen stamp Q s' T n := by
  obtain ⟨⟨p, e, hP, he, hlen⟩, A, hA, hv⟩ := h
  have hn : n ≤ (s.leaderLog T).length := by
    have := congrArg length hP
    simp only [length_take, length_append, length_singleton] at this
    omega
  refine ⟨⟨p, e, ?_, he, hlen⟩, A, hA, fun v hvA => (hv v hvA).trans (hack v T)⟩
  rw [take_eq_take_left (hg.leaderLog T) hn, hP]

theorem Chosen.le_length (h : Chosen stamp Q s T n) : n ≤ (s.leaderLog T).length := by
  obtain ⟨⟨p, e, hP, -, hlen⟩, -⟩ := h
  have := congrArg length hP
  simp only [length_take, length_append, length_singleton] at this
  omega

/-! ## Moving to a later term -/

variable [DecidableEq ν]

/-- Node `v` moves to term `T`. -/
def State.raise (s : State ν α) (v : ν) (T : ℕ) : State ν α :=
  { s with term := update s.term v T }

theorem State.grows_raise (s : State ν α) (v : ν) (T : ℕ) : Grows s (s.raise v T) :=
  ⟨fun _ => prefix_rfl, fun _ _ => rfl⟩

theorem State.term_le_raise (hT : s.term v ≤ T) (w : ν) :
    s.term w ≤ (s.raise v T).term w := by
  by_cases hw : w = v
  · subst hw; simpa [State.raise] using hT
  · simp [State.raise, hw]

theorem Inv.raise (h : Inv stamp Q s) (hT : s.term v ≤ T) : Inv stamp Q (s.raise v T) := by
  have hle := State.term_le_raise hT
  refine { h with
    log_le := fun he => (h.log_le he).trans (hle _)
    leader_term := fun hc => (h.leader_term hc).trans (hle _)
    leader_log := ?_
    vote_term := fun hv => ⟨(h.vote_term hv).1.trans (hle _), (h.vote_term hv).2.trans (hle _)⟩
    acked_term := fun ha => (h.acked_term ha).trans (hle _)
    acked_log := fun {w U n} hn => h.held_mono ⟨fun _ => prefix_rfl, fun _ _ => rfl⟩ (hn.trans (h.acked_le w U)) (hle w)
      prefix_rfl (h.acked_log hn) }
  intro U c hc hU
  have h1 : U ≤ s.term c := h.leader_term hc
  have h2 : s.term c ≤ U := hU ▸ hle c
  exact h.leader_log hc (le_antisymm h2 h1)

/-! ## Standing as a candidate -/

/-- Change a two-argument table at one place. -/
def upd {β : Type*} (f : ν → ℕ → β) (v : ν) (T : ℕ) (x : β) : ν → ℕ → β :=
  fun w U => if w = v ∧ U = T then x else f w U

@[simp] theorem upd_self {β : Type*} (f : ν → ℕ → β) (v : ν) (T : ℕ) (x : β) :
    upd f v T x v T = x := by
  simp [upd]

theorem upd_of_ne {β : Type*} (f : ν → ℕ → β) {v w : ν} (x : β) (h : ¬ (w = v ∧ U = T)) :
    upd f v T x w U = f w U := by
  rw [upd, if_neg h]

/-- Node `v` moves to the next term, stands on the log it holds, and votes for
itself. -/
def State.stand (s : State ν α) (v : ν) : State ν α :=
  { s with
    term := update s.term v (s.term v + 1)
    candLog := upd s.candLog v (s.term v + 1) (s.log v)
    vote := upd s.vote v (s.term v + 1) (some (v, s.log v)) }

theorem State.grows_stand (s : State ν α) (v : ν) : Grows s (s.stand v) :=
  ⟨fun _ => prefix_rfl, fun _ _ => rfl⟩

/-! ## Granting a vote -/

/-- Node `v` votes for `c` in its term. -/
def State.grant (s : State ν α) (v c : ν) : State ν α :=
  { s with vote := upd s.vote v (s.term v) (some (c, s.log v)) }

theorem State.grows_grant (s : State ν α) (v c : ν) : Grows s (s.grant v c) :=
  ⟨fun _ => prefix_rfl, fun _ _ => rfl⟩

theorem State.vote_grant {v d w c : ν} (hv : (s.grant v d).vote w U = some (c, l)) :
    (w = v ∧ U = s.term v ∧ c = d ∧ l = s.log v) ∨ s.vote w U = some (c, l) := by
  by_cases hw : w = v ∧ U = s.term v
  · obtain ⟨rfl, rfl⟩ := hw
    simp only [State.grant, upd_self, some.injEq, Prod.mk.injEq] at hv
    exact Or.inl ⟨rfl, rfl, hv.1.symm, hv.2.symm⟩
  · simp only [State.grant] at hv
    rw [upd_of_ne _ _ hw] at hv
    exact Or.inr hv

/-- A first vote in a term leaves the earlier ones alone. -/
theorem State.vote_grant_of_vote {v d w c : ν} (hnone : s.vote v (s.term v) = none)
    (hv : s.vote w U = some (c, l)) : (s.grant v d).vote w U = some (c, l) := by
  have hne : ¬ (w = v ∧ U = s.term v) := by
    rintro ⟨rfl, rfl⟩
    rw [hnone] at hv
    cases hv
  simp only [State.grant]
  rw [upd_of_ne _ _ hne, hv]

theorem Inv.grant (h : Inv stamp Q s) {v d : ν} (hnone : s.vote v (s.term v) = none)
    (hd : s.term v ≤ s.term d) (hup : UpToDate stamp (s.candLog d (s.term v)) (s.log v)) :
    Inv stamp Q (s.grant v d) := by
  refine { h with
    rooted_vote := ?_
    elected := ?_
    vote_term := ?_
    vote_upToDate := ?_
    acked_vote := ?_
    acked_elector := ?_ }
  · intro w U c l hv
    rcases State.vote_grant hv with ⟨-, -, -, rfl⟩ | hv
    · exact h.rooted_log v
    · exact h.rooted_vote hv
  · intro U c hc
    refine ⟨(h.elected hc).1, fun w hw => ?_⟩
    obtain ⟨l, hl⟩ := (h.elected hc).2 w hw
    exact ⟨l, State.vote_grant_of_vote hnone hl⟩
  · intro w U c l hv
    rcases State.vote_grant hv with ⟨rfl, rfl, rfl, -⟩ | hv
    · exact ⟨le_rfl, hd⟩
    · exact h.vote_term hv
  · intro w U c l hv
    rcases State.vote_grant hv with ⟨rfl, rfl, rfl, rfl⟩ | hv
    · exact hup
    · exact h.vote_upToDate hv
  · intro w T U n c l hv hTU hn
    rcases State.vote_grant hv with ⟨rfl, rfl, -, rfl⟩ | hv
    · exact h.acked_log hn
    · exact h.acked_vote hv hTU hn
  · intro w T U n c l hU hw hv hTU hn
    rcases State.vote_grant hv with ⟨rfl, rfl, -, -⟩ | hv
    · obtain ⟨e, he⟩ := ne_none_iff_exists'.mp hU
      obtain ⟨l', hl'⟩ := (h.elected he).2 w hw
      rw [hnone] at hl'
      cases hl'
    · exact h.acked_elector hU hw hv hTU hn

/-- Node `v` runs in its term on the log it holds. -/
def State.nominate (s : State ν α) (v : ν) : State ν α :=
  { s with candLog := upd s.candLog v (s.term v) (s.log v) }

/-- To stand is to move to the next term, to run in it and to vote for oneself. -/
theorem State.stand_eq (v : ν) :
    s.stand v = ((s.raise v (s.term v + 1)).nominate v).grant v v := by
  simp [State.stand, State.nominate, State.grant, State.raise]

theorem Inv.nominate (h : Inv stamp Q s) (hlog : ∀ e ∈ s.log v, stamp e < s.term v)
    (hlead : s.leader (s.term v) ≠ some v) (hvote : ∀ w l, s.vote w (s.term v) ≠ some (v, l)) :
    Inv stamp Q (s.nominate v) := by
  have hself : (s.nominate v).candLog v (s.term v) = s.log v := upd_self _ _ _ _
  have hother : ∀ {U c}, ¬ (c = v ∧ U = s.term v) → (s.nominate v).candLog c U = s.candLog c U :=
    fun hne => upd_of_ne _ _ hne
  refine { h with
    rooted_cand := ?_
    cand_lt := ?_
    cand_leader := ?_
    vote_upToDate := ?_ }
  · intro c U
    by_cases hc : c = v ∧ U = s.term v
    · obtain ⟨rfl, rfl⟩ := hc
      rw [hself]
      exact h.rooted_log c
    · rw [hother hc]
      exact h.rooted_cand c U
  · intro c U e he
    by_cases hc : c = v ∧ U = s.term v
    · obtain ⟨rfl, rfl⟩ := hc
      exact hlog e (hself ▸ he)
    · rw [hother hc] at he
      exact h.cand_lt he
  · intro U c hc
    rw [hother]
    · exact h.cand_leader hc
    · rintro ⟨rfl, rfl⟩
      exact hlead hc
  · intro w U c l hv
    rw [hother]
    · exact h.vote_upToDate hv
    · rintro ⟨rfl, rfl⟩
      exact hvote w l hv

theorem Inv.stand (h : Inv stamp Q s) (v : ν) : Inv stamp Q (s.stand v) := by
  have hterm : (s.raise v (s.term v + 1)).term v = s.term v + 1 := update_self _ _ _
  rw [State.stand_eq]
  refine Inv.grant (Inv.nominate (h.raise (Nat.le_succ _)) ?_ ?_ ?_) ?_ le_rfl ?_
  · intro e he
    rw [hterm]
    exact Nat.lt_succ_of_le (h.log_le he)
  -- nobody leads, and nobody has voted for `v` or as `v`, in the new term
  · intro hc
    have : s.term v + 1 ≤ s.term v := h.leader_term (hterm ▸ hc)
    omega
  · intro w l hv
    have : s.term v + 1 ≤ s.term v := (h.vote_term (hterm ▸ hv)).2
    omega
  · by_contra hvote
    obtain ⟨⟨c, l⟩, hv⟩ := ne_none_iff_exists'.mp hvote
    have : s.term v + 1 ≤ s.term v := (h.vote_term (hterm ▸ hv)).1
    omega
  · have hcand : ((s.raise v (s.term v + 1)).nominate v).candLog v
        (((s.raise v (s.term v + 1)).nominate v).term v) = s.log v := upd_self _ _ _ _
    rw [hcand]
    exact Or.inr ⟨rfl, le_rfl⟩

/-! ## Extending a log as a leader -/

/-- Node `c` puts an entry at the end of its log, makes that log the leader log
of its term, and acknowledges it. -/
def State.push (s : State ν α) (c : ν) (e : α) : State ν α :=
  { s with
    log := update s.log c (s.log c ++ [e])
    leaderLog := update s.leaderLog (s.term c) (s.log c ++ [e])
    acked := upd s.acked c (s.term c) ((s.log c).length + 1) }

/-- The leader of its term extends its log. -/
def State.extend (s : State ν α) (c : ν) (e : α) : State ν α := s.push c e

/-- Node `c` is elected by `A` and opens its term with an entry. -/
def State.elect (s : State ν α) (c : ν) (A : Finset ν) (e : α) : State ν α :=
  { s.push c e with
    leader := update s.leader (s.term c) (some c)
    electors := update s.electors (s.term c) A }

theorem State.grows_push (e : α) (hT : s.leaderLog (s.term c) <+: s.log c) :
    Grows s (s.push c e) := by
  refine ⟨fun U => ?_, fun _ _ => rfl⟩
  by_cases hU : U = s.term c
  · subst hU
    simpa [State.push] using hT.trans (prefix_append _ _)
  · simp [State.push, hU]

theorem State.acked_le_push (h : Inv stamp Q s) (e : α)
    (hT : s.leaderLog (s.term c) <+: s.log c) (v : ν) (U : ℕ) :
    s.acked v U ≤ (s.push c e).acked v U := by
  by_cases hv : v = c ∧ U = s.term c
  · obtain ⟨rfl, rfl⟩ := hv
    simp only [State.push, upd_self]
    have := (h.acked_le v (s.term v)).trans hT.length_le
    omega
  · simp [State.push, upd_of_ne _ _ hv]

theorem State.log_prefix_push (c : ν) (e : α) (w : ν) : s.log w <+: (s.push c e).log w := by
  by_cases hw : w = c
  · subst hw; simp [State.push]
  · simp [State.push, hw]

section Push

variable {e : α} (h : Inv stamp Q s) (hT : s.leaderLog (s.term c) <+: s.log c)
  (he : stamp e = s.term c)

include h hT he

/-- The extended log is rooted. -/
theorem Inv.rooted_push : Rooted stamp (s.push c e) (s.log c ++ [e]) := by
  intro p x hp
  rcases prefix_concat_iff.mp hp with heq | hpre
  · obtain ⟨-, rfl⟩ : p = s.log c ∧ x = e := by simpa using heq
    rw [heq, he]
    simp [State.push]
  · exact (h.rooted_log c).mono (State.grows_push e hT) p x hpre

theorem Inv.rooted_log_push (w : ν) : Rooted stamp (s.push c e) ((s.push c e).log w) := by
  by_cases hw : w = c
  · subst hw
    simpa [State.push] using h.rooted_push hT he
  · have : (s.push c e).log w = s.log w := by simp [State.push, hw]
    rw [this]
    exact (h.rooted_log w).mono (State.grows_push e hT)

theorem Inv.rooted_leader_push (U : ℕ) :
    Rooted stamp (s.push c e) ((s.push c e).leaderLog U) := by
  by_cases hU : U = s.term c
  · subst hU
    simpa [State.push] using h.rooted_push hT he
  · have : (s.push c e).leaderLog U = s.leaderLog U := by simp [State.push, hU]
    rw [this]
    exact (h.rooted_leader U).mono (State.grows_push e hT)

omit hT in
theorem Inv.log_le_push {w : ν} {x : α} (hx : x ∈ (s.push c e).log w) :
    stamp x ≤ s.term w := by
  by_cases hw : w = c
  · subst hw
    simp only [State.push, update_self, mem_append, mem_singleton] at hx
    rcases hx with hx | rfl
    · exact h.log_le hx
    · exact he.le
  · simp only [State.push, update_of_ne hw] at hx
    exact h.log_le hx

omit hT in
theorem Inv.leader_le_push {U : ℕ} {x : α} (hx : x ∈ (s.push c e).leaderLog U) :
    stamp x ≤ U := by
  by_cases hU : U = s.term c
  · subst hU
    simp only [State.push, update_self, mem_append, mem_singleton] at hx
    rcases hx with hx | rfl
    · exact h.log_le hx
    · exact he.le
  · simp only [State.push, update_of_ne hU] at hx
    exact h.leader_le hx

omit he in
theorem Inv.acked_le_push (v : ν) (U : ℕ) :
    (s.push c e).acked v U ≤ ((s.push c e).leaderLog U).length := by
  by_cases hv : v = c ∧ U = s.term c
  · obtain ⟨rfl, rfl⟩ := hv
    simp [State.push]
  · have hack : (s.push c e).acked v U = s.acked v U := upd_of_ne _ _ hv
    rw [hack]
    exact (h.acked_le v U).trans ((State.grows_push e hT).leaderLog U).length_le

omit hT he in
theorem Inv.acked_term_push {U : ℕ} (ha : 0 < (s.push c e).acked v U) :
    U ≤ s.term v := by
  by_cases hv : v = c ∧ U = s.term c
  · exact hv.1 ▸ hv.2.le
  · have hack : (s.push c e).acked v U = s.acked v U := upd_of_ne _ _ hv
    exact h.acked_term (hack ▸ ha)

omit h hT he in
/-- An acknowledgement after the extension is the leader's own, or an old one. -/
theorem State.acked_push {U n : ℕ} (hn : n ≤ (s.push c e).acked v U) :
    (v = c ∧ U = s.term c) ∨ n ≤ s.acked v U := by
  by_cases hv : v = c ∧ U = s.term c
  · exact Or.inl hv
  · have hack : (s.push c e).acked v U = s.acked v U := upd_of_ne _ _ hv
    exact Or.inr (hack ▸ hn)

end Push

theorem State.elect_eq (c : ν) (A : Finset ν) (e : α) :
    (s.elect c A e).leaderLog = (s.push c e).leaderLog ∧ (s.elect c A e).log = (s.push c e).log ∧
      (s.elect c A e).acked = (s.push c e).acked := ⟨rfl, rfl, rfl⟩

omit [DecidableEq ν] in
/-- A node with a quorum of votes is the first to lead its term. -/
theorem Inv.leader_eq_none (h : Inv stamp Q s) (hA : Q.isQuorum A)
    (hvotes : ∀ v ∈ A, ∃ l, s.vote v (s.term c) = some (c, l))
    (hc : s.leader (s.term c) ≠ some c) : s.leader (s.term c) = none := by
  cases hd : s.leader (s.term c) with
  | none => rfl
  | some d =>
    obtain ⟨hE, hE'⟩ := h.elected hd
    obtain ⟨v, hvA, hvE⟩ := Q.inter hA hE
    obtain ⟨l, hl⟩ := hvotes v hvA
    obtain ⟨l', hl'⟩ := hE' v hvE
    rw [hl] at hl'
    obtain ⟨rfl, -⟩ : c = d ∧ l = l' := by simpa using hl'
    exact absurd hd hc

/-- Node `c` can lead its term with the electors `A`: nobody leads it, or it does so already. -/
def State.MayLead (s : State ν α) (c : ν) (A : Finset ν) : Prop :=
  s.leader (s.term c) = none ∨ s.leader (s.term c) = some c ∧ s.electors (s.term c) = A

/-- To extend the log is to lead as before. -/
theorem State.extend_eq (e : α) (hc : s.leader (s.term c) = some c) :
    s.extend c e = s.elect c (s.electors (s.term c)) e := by
  rw [State.elect, update_eq_self, ← hc, update_eq_self]
  rfl

theorem State.grows_elect (e : α) (hT : s.leaderLog (s.term c) <+: s.log c) (hmay : s.MayLead c A) :
    Grows s (s.elect c A e) where
  leaderLog := (State.grows_push e hT).leaderLog
  leader U hU := by
    by_cases hUT : U = s.term c
    · subst hUT
      rw [(hmay.resolve_left hU).1]
      exact update_self _ _ _
    · exact update_of_ne hUT _ _

variable {m : ℕ} {e : α}

/-- **A leader puts an entry at the end of its log**, the first one of its term or a later one. -/
theorem Inv.lead (h : Inv stamp Q s) (hA : Q.isQuorum A)
    (hvotes : ∀ v ∈ A, ∃ l, s.vote v (s.term c) = some (c, l))
    (hcand : s.candLog c (s.term c) <+: s.log c) (hT : s.leaderLog (s.term c) <+: s.log c)
    (hmay : s.MayLead c A) (he : stamp e = s.term c) : Inv stamp Q (s.elect c A e) := by
  have hg : Grows s (s.elect c A e) := State.grows_elect e hT hmay
  have hleader : ∀ {U}, U ≠ s.term c → (s.push c e).leaderLog U = s.leaderLog U :=
    fun hU => update_of_ne hU _ _
  have hself : (s.push c e).leaderLog (s.term c) = s.log c ++ [e] := update_self _ _ _
  -- who leads after the election
  have hlead : ∀ {U d}, (s.elect c A e).leader U = some d →
      (U = s.term c ∧ d = c) ∨ (U ≠ s.term c ∧ s.leader U = some d) := by
    intro U d hd
    exact (update_eq_cases hd).imp_left fun hnew => ⟨hnew.1, (some.inj hnew.2).symm⟩
  have helect : ∀ {U}, U ≠ s.term c → (s.elect c A e).electors U = s.electors U :=
    fun hU => update_of_ne hU _ _
  exact {
    rooted_log := h.rooted_log_push hT he
    rooted_leader := h.rooted_leader_push hT he
    rooted_cand := fun d U => (h.rooted_cand d U).mono hg
    rooted_vote := fun hv => (h.rooted_vote hv).mono hg
    log_le := h.log_le_push he
    leader_le := h.leader_le_push he
    cand_lt := h.cand_lt
    no_leader := by
      intro U hU
      have hne : U ≠ s.term c := by
        rintro rfl
        simp [State.elect] at hU
      have hold : s.leader U = none := by simpa [State.elect, hne] using hU
      exact (hleader hne).trans (h.no_leader hold)
    leader_term := by
      intro U d hd
      rcases hlead hd with ⟨rfl, rfl⟩ | ⟨-, hd⟩
      · exact le_rfl
      · exact h.leader_term hd
    leader_log := by
      intro U d hd hU
      rcases hlead hd with ⟨rfl, rfl⟩ | ⟨hne, hd⟩
      · exact (update_self _ _ _).trans hself.symm
      · have hdc : d ≠ c := by
          rintro rfl
          exact hne hU.symm
        rw [(State.elect_eq c A e).1, hleader hne, ← h.leader_log hd hU]
        exact update_of_ne hdc _ _
    leader_own := by
      intro U hU
      by_cases hUT : U = s.term c
      · subst hUT
        exact ⟨s.log c, e, hself, he⟩
      · rw [(State.elect_eq c A e).1, hleader hUT]
        refine h.leader_own ?_
        simpa [State.elect, hUT] using hU
    cand_leader := by
      intro U d hd
      rcases hlead hd with ⟨rfl, rfl⟩ | ⟨-, hd⟩
      · show s.candLog d (s.term d) <+: (s.push d e).leaderLog (s.term d)
        rw [hself]
        exact hcand.trans (prefix_append _ _)
      · exact (h.cand_leader hd).trans (hg.leaderLog _)
    elected := by
      intro U d hd
      rcases hlead hd with ⟨rfl, rfl⟩ | ⟨hne, hd⟩
      · have hE : (s.elect d A e).electors (s.term d) = A := update_self _ _ _
        rw [hE]
        exact ⟨hA, hvotes⟩
      · rw [helect hne]
        exact h.elected hd
    vote_term := h.vote_term
    vote_upToDate := h.vote_upToDate
    acked_le := h.acked_le_push hT
    acked_term := h.acked_term_push (e := e)
    acked_log := by
      intro v U n hn
      rcases State.acked_push (e := e) hn with ⟨rfl, rfl⟩ | hold
      · left
        have hv : (s.push v e).log v = s.log v ++ [e] := update_self _ _ _
        rw [(State.elect_eq v A e).1, (State.elect_eq v A e).2.1, hself, hv]
        exact take_prefix _ _
      · exact h.held_mono hg (hold.trans (h.acked_le v U)) le_rfl (State.log_prefix_push c e v)
          (h.acked_log hold)
    acked_vote := by
      intro v T U n d l hv hTU hn
      rcases State.acked_push (e := e) hn with ⟨rfl, rfl⟩ | hold
      · have hle : U ≤ s.term v := (h.vote_term hv).1
        omega
      · exact h.held_mono hg (hold.trans (h.acked_le v T)) le_rfl prefix_rfl
          (h.acked_vote hv hTU hold)
    acked_elector := by
      intro v T U n d l hU hv hvote hTU hn
      rcases State.acked_push (e := e) hn with ⟨rfl, rfl⟩ | hold
      · have hle : U ≤ s.term v := (h.vote_term hvote).1
        omega
      · refine h.held_mono hg (hold.trans (h.acked_le v T)) le_rfl prefix_rfl ?_
        by_cases hUT : U = s.term c
        · subst hUT
          rcases hmay with hnone | ⟨hc, rfl⟩
          · -- no loss can lie in a term that had no leader
            rcases h.acked_vote hvote hTU hold with hp | ⟨V, hTV, hVU, hV, hnot⟩
            · exact Or.inl hp
            · have hne : V ≠ s.term c := by
                rintro rfl
                exact hV hnone
              exact Or.inr ⟨V, hTV, by omega, hV, hnot⟩
          · have hE : (s.elect c (s.electors (s.term c)) e).electors (s.term c) =
                s.electors (s.term c) := update_self _ _ _
            rw [hE] at hv
            exact h.acked_elector (by rw [hc]; simp) hv hvote hTU hold
        · rw [helect hUT] at hv
          refine h.acked_elector ?_ hv hvote hTU hold
          simpa [State.elect, hUT] using hU }

theorem Inv.extend (h : Inv stamp Q s) (hc : s.leader (s.term c) = some c)
    (he : stamp e = s.term c) : Inv stamp Q (s.extend c e) := by
  have hlog : s.log c = s.leaderLog (s.term c) := h.leader_log hc rfl
  obtain ⟨hA, hvotes⟩ := h.elected hc
  rw [State.extend_eq e hc]
  exact h.lead hA hvotes (hlog ▸ h.cand_leader hc) (hlog ▸ prefix_rfl) (.inr ⟨hc, rfl⟩) he

theorem Inv.elect (h : Inv stamp Q s) (hA : Q.isQuorum A)
    (hvotes : ∀ v ∈ A, ∃ l, s.vote v (s.term c) = some (c, l))
    (hcand : s.log c = s.candLog c (s.term c)) (hc : s.leader (s.term c) ≠ some c)
    (he : stamp e = s.term c) : Inv stamp Q (s.elect c A e) := by
  have hnone := h.leader_eq_none hA hvotes hc
  exact h.lead hA hvotes (hcand ▸ prefix_rfl) (h.no_leader hnone ▸ nil_prefix) (.inl hnone) he

/-! ## Taking over a prefix of the leader's log -/

open Classical in
/-- Bring a log in line with a prefix `P` of the leader's log: nothing happens if
the log has it, and otherwise the log becomes `P`. -/
noncomputable def overwrite (l P : List α) : List α := if P <+: l then l else P

theorem prefix_overwrite (l P : List α) : P <+: overwrite l P := by
  unfold overwrite
  split
  · assumption
  · exact prefix_rfl

/-- Node `v` takes over the first `m` entries of the log of the leader of its
term, and acknowledges them. -/
noncomputable def State.accept (s : State ν α) (v : ν) (m : ℕ) : State ν α :=
  { s with
    log := update s.log v (overwrite (s.log v) ((s.leaderLog (s.term v)).take m))
    acked := upd s.acked v (s.term v) (max (s.acked v (s.term v)) m) }

theorem State.grows_accept (s : State ν α) (v : ν) (m : ℕ) : Grows s (s.accept v m) :=
  ⟨fun _ => prefix_rfl, fun _ _ => rfl⟩

theorem State.acked_le_accept (v : ν) (m : ℕ) (w : ν) (U : ℕ) :
    s.acked w U ≤ (s.accept v m).acked w U := by
  by_cases hw : w = v ∧ U = s.term v
  · obtain ⟨rfl, rfl⟩ := hw
    simp [State.accept]
  · simp [State.accept, upd_of_ne _ _ hw]

theorem State.acked_accept {v w : ν} (hn : n ≤ (s.accept v m).acked w U) :
    (w = v ∧ U = s.term v ∧ n ≤ m) ∨ n ≤ s.acked w U := by
  by_cases hw : w = v ∧ U = s.term v
  · obtain ⟨rfl, rfl⟩ := hw
    simp only [State.accept, upd_self, le_max_iff] at hn
    rcases hn with hn | hn
    · exact Or.inr hn
    · exact Or.inl ⟨rfl, rfl, hn⟩
  · simp only [State.accept] at hn
    rw [upd_of_ne _ _ hw] at hn
    exact Or.inr hn

omit [DecidableEq ν] in
/-- What a node held before taking over a prefix of its leader's log, it still
holds, or its leader lacks it. -/
theorem Inv.held_overwrite (h : Inv stamp Q s) (hn : n ≤ s.acked v T)
    (hlead : s.leader (s.term v) ≠ none) (hp : (s.leaderLog T).take n <+: s.log v) :
    (s.leaderLog T).take n <+: overwrite (s.log v) ((s.leaderLog (s.term v)).take m) ∨
      Lost s T n (s.term v) := by
  unfold overwrite
  split
  case isTrue => exact Or.inl hp
  case isFalse hnot =>
    rcases Nat.eq_zero_or_pos n with rfl | hpos
    · exact Or.inl (by simp)
    have hle : T ≤ s.term v := h.acked_term (lt_of_lt_of_le hpos hn)
    by_cases hin : (s.leaderLog T).take n <+: s.leaderLog (s.term v)
    · have hcut := take_prefix m (s.leaderLog (s.term v))
      rcases prefix_or_prefix_of_prefix hin hcut with h1 | h1
      · exact Or.inl h1
      · exact absurd (h1.trans hp) hnot
    · refine Or.inr ⟨s.term v, lt_of_le_of_ne hle ?_, le_rfl, hlead, hin⟩
      rintro rfl
      exact hin <| take_prefix _ _

theorem Inv.accept (h : Inv stamp Q s) {v c : ν} (hc : s.leader (s.term v) = some c)
    (hcv : c ≠ v) (hm : m ≤ (s.leaderLog (s.term v)).length) : Inv stamp Q (s.accept v m) := by
  have hg := s.grows_accept v m
  have hlog : (s.accept v m).log v =
      overwrite (s.log v) ((s.leaderLog (s.term v)).take m) := update_self _ _ _
  have hother : ∀ {w}, w ≠ v → (s.accept v m).log w = s.log w :=
    fun hw => update_of_ne hw _ _
  refine { h with
    rooted_log := ?_
    log_le := ?_
    leader_log := ?_
    acked_le := ?_
    acked_term := ?_
    acked_log := ?_
    acked_vote := ?_
    acked_elector := ?_ }
  · intro w
    by_cases hw : w = v
    · subst hw
      rw [hlog]
      unfold overwrite
      split
      · exact (h.rooted_log w).mono hg
      · exact ((h.rooted_leader _).anti <| take_prefix _ _).mono hg
    · rw [hother hw]
      exact (h.rooted_log w).mono hg
  · intro w x hx
    by_cases hw : w = v
    · subst hw
      rw [hlog] at hx
      unfold overwrite at hx
      split at hx
      · exact h.log_le hx
      · exact h.leader_le (mem_of_mem_take hx)
    · rw [hother hw] at hx
      exact h.log_le hx
  · intro U d hd hU
    have hdv : d ≠ v := by
      rintro rfl
      obtain rfl : s.term d = U := hU
      exact hcv (some.inj (hc.symm.trans hd))
    rw [hother hdv]
    exact h.leader_log hd hU
  · intro w U
    rcases State.acked_accept (le_refl ((s.accept v m).acked w U)) with ⟨rfl, rfl, hle⟩ | hle
    · exact hle.trans hm
    · exact hle.trans (h.acked_le w U)
  · intro w U ha
    rcases State.acked_accept (Nat.succ_le_of_lt ha) with ⟨rfl, rfl, -⟩ | hle
    · exact le_rfl
    · exact h.acked_term hle
  · intro w U n hn
    by_cases hw : w = v
    · subst hw
      rw [hlog]
      rcases State.acked_accept hn with ⟨-, rfl, hle⟩ | hold
      · exact Or.inl ((take_prefix_take_left hle).trans (prefix_overwrite _ _))
      · rcases h.acked_log hold with hp | hlost
        · exact h.held_overwrite hold (by rw [hc]; simp) hp
        · exact Or.inr hlost
    · rw [hother hw]
      rcases State.acked_accept hn with ⟨rfl, -, -⟩ | hold
      · exact absurd rfl hw
      · exact h.acked_log hold
  · intro w T U n d l hv hTU hn
    rcases State.acked_accept hn with ⟨rfl, rfl, -⟩ | hold
    · have := (h.vote_term hv).1
      omega
    · exact h.acked_vote hv hTU hold
  · intro w T U n d l hU hw hv hTU hn
    rcases State.acked_accept hn with ⟨rfl, rfl, -⟩ | hold
    · have := (h.vote_term hv).1
      omega
    · exact h.acked_elector hU hw hv hTU hold

omit [DecidableEq ν] in
/-- A chosen prefix that a node holds survives taking over a prefix of the
current leader's log. -/
theorem Inv.chosen_overwrite (h : Inv stamp Q s) {m k : ℕ} (hch : Chosen stamp Q s T n)
    (hTU : T ≤ U) (hU : s.leader U ≠ none) (hk : k ≤ n) (hl : (s.leaderLog T).take k <+: l) :
    (s.leaderLog T).take k <+: overwrite l ((s.leaderLog U).take m) := by
  unfold overwrite
  split
  · exact hl
  case isFalse hnot =>
    have hin : (s.leaderLog T).take k <+: s.leaderLog U :=
      (take_prefix_take_left hk).trans (h.chosen_leader hch hTU hU)
    have hcut := take_prefix m (s.leaderLog U)
    rcases prefix_or_prefix_of_prefix hin hcut with h1 | h1
    · exact h1
    · exact absurd (h1.trans hl) hnot

end TransDb.Replication
