import Mathlib.Data.Finset.Card

/-!
# Quorum systems

A quorum system is a family of finite sets any two of which meet.  The one used
throughout is the majorities of a finite set of members (`majority`).
-/

namespace TransDb

/-- A family of finite sets any two of which have a common element. -/
structure Quorums (ν : Type*) where
  /-- Which sets are quorums. -/
  isQuorum : Finset ν → Prop
  /-- Any two quorums meet. -/
  inter : ∀ {A B : Finset ν}, isQuorum A → isQuorum B → ∃ v, v ∈ A ∧ v ∈ B

variable {ν : Type*} [DecidableEq ν]

/-- The majorities of a finite set of members. -/
def majority (M : Finset ν) : Quorums ν where
  isQuorum A := A ⊆ M ∧ M.card < 2 * A.card
  inter hA hB := by
    obtain ⟨v, hv⟩ := Finset.inter_nonempty_of_card_lt_card_add_card hA.1 hB.1 (by omega)
    exact ⟨v, Finset.mem_inter.mp hv⟩

end TransDb
