import TransDb.Core.ReplicationSteps

/-!
# What a step of one node leaves alone

A program that refines `Replication.State` takes its steps node by node.
`Moves v s s'` says that `v` is the node that moved: the history only grew, and
the other nodes are as they were.  Every operation of
`TransDb.Core.ReplicationSteps` is such a move, and moves compose, so a handler
that performs several operations is still one move of its node.
-/

namespace TransDb.Replication

open Function

variable {ν α : Type*} {stamp : α → ℕ} {Q : Quorums ν} {s s' t : State ν α}

/-- Node `v` moved from `s` to `s'`. -/
structure Moves (v : ν) (s s' : State ν α) : Prop where
  grows : Grows s s'
  term_le : s.term v ≤ s'.term v
  /-- Votes are never taken back. -/
  vote_kept : ∀ {w T c l}, s.vote w T = some (c, l) → s'.vote w T = some (c, l)
  cand_kept : ∀ {T}, T ≤ s.term v → s'.candLog v T = s.candLog v T
  acked_le : ∀ w T, s.acked w T ≤ s'.acked w T
  term_other : ∀ {w}, w ≠ v → s'.term w = s.term w
  log_other : ∀ {w}, w ≠ v → s'.log w = s.log w
  vote_other : ∀ {w} T, w ≠ v → s'.vote w T = s.vote w T
  cand_other : ∀ {w} T, w ≠ v → s'.candLog w T = s.candLog w T
  /-- The only new leader is the node that moved. -/
  leader_new : ∀ T, s'.leader T = s.leader T ∨ s'.leader T = some v

theorem Moves.refl (v : ν) (s : State ν α) : Moves v s s where
  grows := Grows.refl s
  term_le := le_rfl
  vote_kept h := h
  cand_kept _ := rfl
  acked_le _ _ := le_rfl
  term_other _ := rfl
  log_other _ := rfl
  vote_other _ _ := rfl
  cand_other _ _ := rfl
  leader_new _ := Or.inl rfl

variable {v : ν} {c : ν}

theorem Moves.trans (h : Moves v s s') (h' : Moves v s' t) : Moves v s t where
  grows := h.grows.trans h'.grows
  term_le := h.term_le.trans h'.term_le
  vote_kept hv := h'.vote_kept (h.vote_kept hv)
  cand_kept hT := by rw [h'.cand_kept (hT.trans h.term_le), h.cand_kept hT]
  acked_le w T := (h.acked_le w T).trans (h'.acked_le w T)
  term_other hw := by rw [h'.term_other hw, h.term_other hw]
  log_other hw := by rw [h'.log_other hw, h.log_other hw]
  vote_other T hw := by rw [h'.vote_other T hw, h.vote_other T hw]
  cand_other T hw := by rw [h'.cand_other T hw, h.cand_other T hw]
  leader_new T := by
    rcases h'.leader_new T with h1 | h1
    · rw [h1]
      exact h.leader_new T
    · exact Or.inr h1

/-- No node ever goes back to an earlier term. -/
theorem Moves.term_mono (h : Moves v s s') (w : ν) : s.term w ≤ s'.term w := by
  by_cases hw : w = v
  · exact hw ▸ h.term_le
  · exact (h.term_other hw).ge

variable {T : ℕ}

/-- The log of a candidacy that has begun is never changed. -/
theorem Moves.cand_eq (h : Moves v s s') (hT : T ≤ s.term c) :
    s'.candLog c T = s.candLog c T := by
  by_cases hc : c = v
  · subst hc
    exact h.cand_kept hT
  · exact h.cand_other T hc

theorem Moves.leader_some (h : Moves v s s') (hc : s.leader T = some c) :
    s'.leader T = some c := by
  rw [h.grows.leader T (by simp [hc]), hc]

variable [DecidableEq ν]

theorem moves_raise (hT : s.term v ≤ T) : Moves v s (s.raise v T) where
  grows := s.grows_raise v T
  term_le := by simpa [State.raise] using hT
  vote_kept h := h
  cand_kept _ := rfl
  acked_le _ _ := le_rfl
  term_other hw := by simp [State.raise, hw]
  log_other _ := rfl
  vote_other _ _ := rfl
  cand_other _ _ := rfl
  leader_new _ := Or.inl rfl

theorem moves_stand (h : Inv stamp Q s) (v : ν) : Moves v s (s.stand v) where
  grows := s.grows_stand v
  term_le := by simp [State.stand]
  vote_kept := by
    intro w T c l hv
    have hne : ¬ (w = v ∧ T = s.term v + 1) := by
      rintro ⟨rfl, rfl⟩
      have := (h.vote_term hv).1
      omega
    rw [← hv]
    exact upd_of_ne _ _ hne
  cand_kept := by
    intro T hT
    exact upd_of_ne _ _ (by omega)
  acked_le _ _ := le_rfl
  term_other hw := by simp [State.stand, hw]
  log_other _ := rfl
  vote_other T hw := upd_of_ne _ _ (fun hc => hw hc.1)
  cand_other T hw := upd_of_ne _ _ (fun hc => hw hc.1)
  leader_new _ := Or.inl rfl

theorem moves_grant {v c : ν} (hnone : s.vote v (s.term v) = none) : Moves v s (s.grant v c) where
  grows := s.grows_grant v c
  term_le := le_rfl
  vote_kept hv := State.vote_grant_of_vote hnone hv
  cand_kept _ := rfl
  acked_le _ _ := le_rfl
  term_other _ := rfl
  log_other _ := rfl
  vote_other _ hw := upd_of_ne _ _ (fun hc => hw hc.1)
  cand_other _ _ := rfl
  leader_new _ := Or.inl rfl

theorem moves_lead (h : Inv stamp Q s) {A : Finset ν} (e : α)
    (hT : s.leaderLog (s.term c) <+: s.log c) (hmay : s.MayLead c A) :
    Moves c s (s.elect c A e) where
  grows := State.grows_elect e hT hmay
  term_le := le_rfl
  vote_kept hv := hv
  cand_kept _ := rfl
  acked_le := State.acked_le_push h e hT
  term_other _ := rfl
  log_other hw := update_of_ne hw _ _
  vote_other _ _ := rfl
  cand_other _ _ := rfl
  leader_new := by
    intro T
    by_cases hT : T = s.term c
    · subst hT
      exact Or.inr (update_self _ _ _)
    · exact Or.inl (update_of_ne hT _ _)

theorem moves_extend (h : Inv stamp Q s) (e : α) (hc : s.leader (s.term c) = some c) :
    Moves c s (s.extend c e) := by
  rw [State.extend_eq e hc]
  exact moves_lead h e (h.leader_log hc rfl ▸ List.prefix_rfl) (.inr ⟨hc, rfl⟩)

theorem moves_elect (h : Inv stamp Q s) (A : Finset ν) (e : α)
    (hnone : s.leader (s.term c) = none) : Moves c s (s.elect c A e) :=
  moves_lead h e (h.no_leader hnone ▸ List.nil_prefix) (.inl hnone)

theorem moves_accept (v : ν) (m : ℕ) : Moves v s (s.accept v m) where
  grows := s.grows_accept v m
  term_le := le_rfl
  vote_kept h := h
  cand_kept _ := rfl
  acked_le := State.acked_le_accept v m
  term_other _ := rfl
  log_other hw := update_of_ne hw _ _
  vote_other _ _ := rfl
  cand_other _ _ := rfl
  leader_new _ := Or.inl rfl

end TransDb.Replication
