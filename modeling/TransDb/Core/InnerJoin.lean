import Mathlib.Data.List.Flatten
import Mathlib.Data.List.Perm.Basic
import Mathlib.Data.List.Range

/-!
# Inner joins of lists

The inner join of two lists by a key, and the ways to compute it in parts.

* `innerJoin` — every pair of elements with the same key, joined.
* `innerJoin_swap` — **either list may be gone through first**.
* `innerJoin_partition` — **one list may be split by any placement**, with the other list as a
  whole in every part.
* `innerJoin_shuffle` — **both lists may be split by a placement of their keys**.
-/

namespace TransDb

open List

variable {α β γ κ : Type*} [DecidableEq κ]

/-- The pairs of elements with the same key, the first list outside. -/
def innerJoin (key : α → κ) (key' : β → κ) (join : α → β → γ) (as : List α) (bs : List β) :
    List γ :=
  as.flatMap fun a => (bs.filter fun b => decide (key' b = key a)).map (join a)

variable {key : α → κ} {key' : β → κ} {join : α → β → γ}

theorem innerJoin_cons (a : α) (as : List α) (bs : List β) :
    innerJoin key key' join (a :: as) bs =
      (bs.filter fun b => decide (key' b = key a)).map (join a) ++ innerJoin key key' join as bs :=
  rfl

theorem innerJoin_nil_right (as : List α) : innerJoin key key' join as [] = [] := by
  simp [innerJoin]

theorem map_innerJoin {δ : Type*} (f : γ → δ) (as : List α) (bs : List β) :
    (innerJoin key key' join as bs).map f = innerJoin key key' (fun a b => f (join a b)) as bs := by
  rw [innerJoin, map_flatMap]
  simp only [map_map]
  rfl

/-- Joined elements that are only equal for the elements at hand. -/
theorem innerJoin_congr {join' : α → β → γ} {as : List α} {bs : List β}
    (h : ∀ a ∈ as, ∀ b ∈ bs, join a b = join' a b) :
    innerJoin key key' join as bs = innerJoin key key' join' as bs := by
  refine flatMap_congr fun a ha => map_congr_left fun b hb => ?_
  exact h a ha b (mem_of_mem_filter hb)

/-- More elements have more pairs. -/
theorem innerJoin_sublist {as as' : List α} {bs bs' : List β} (has : as <+ as') (hbs : bs <+ bs') :
    innerJoin key key' join as bs <+ innerJoin key key' join as' bs' :=
  (has.flatMap _).trans (.flatMap_right _ fun _ _ => (hbs.filter _).map _)

theorem map_filter_eq_flatMap (p : β → Prop) [DecidablePred p] (f : β → γ) (bs : List β) :
    (bs.filter fun b => decide (p b)).map f = bs.flatMap fun b => if p b then [f b] else [] := by
  induction bs with
  | nil => rfl
  | cons b bs ih => by_cases hb : p b <;> simp [hb, ih]

/-- **Either list may be gone through first.** -/
theorem innerJoin_swap (as : List α) (bs : List β) :
    (innerJoin key key' join as bs).Perm (innerJoin key' key (fun b a => join a b) bs as) := by
  induction as with
  | nil => rw [innerJoin_nil_right]; rfl
  | cons a as ih =>
    have hsplit : innerJoin key' key (fun b a => join a b) bs (a :: as) =
        bs.flatMap fun b => (if key' b = key a then [join a b] else []) ++
          (as.filter fun a => decide (key a = key' b)).map fun a => join a b := by
      refine flatMap_congr fun b _ => ?_
      by_cases hb : key' b = key a
      · simp [hb]
      · simp [hb, Ne.symm hb]
    rw [innerJoin_cons, map_filter_eq_flatMap, hsplit]
    exact (List.Perm.append_left _ ih).trans (flatMap_append_perm _ _ _)

/-- A placement splits a list. -/
theorem flatMap_filter_perm (place : α → ℕ) (as : List α) (n : ℕ) :
    ((List.range n).flatMap fun i => as.filter fun a => decide (place a = i)).Perm
      (as.filter fun a => decide (place a < n)) := by
  induction n with
  | zero => simp
  | succ n ih =>
    rw [range_succ, flatMap_append, flatMap_singleton]
    refine (ih.append_right _).trans ?_
    have hperm := filter_append_perm (fun a => decide (place a < n))
      (as.filter fun a => decide (place a < n + 1))
    rw [filter_filter, filter_filter] at hperm
    refine List.Perm.trans (List.Perm.of_eq ?_) hperm
    congr 1 <;> refine filter_congr fun a _ => ?_ <;>
      rw [Bool.eq_iff_iff] <;> simp only [Bool.and_eq_true, Bool.not_eq_true', decide_eq_true_eq,
        decide_eq_false_iff_not] <;> omega

/-- **One list may be split by any placement**, with the other one as a whole in every part. -/
theorem innerJoin_partition {place : α → ℕ} {as : List α} {n : ℕ} (h : ∀ a ∈ as, place a < n)
    (bs : List β) :
    ((List.range n).flatMap fun i =>
        innerJoin key key' join (as.filter fun a => decide (place a = i)) bs).Perm
      (innerJoin key key' join as bs) := by
  have hall : (as.filter fun a => decide (place a < n)) = as :=
    filter_eq_self.mpr fun a ha => decide_eq_true (h a ha)
  have hperm := flatMap_filter_perm place as n
  rw [hall] at hperm
  have hflat : ((range n).flatMap fun i =>
      innerJoin key key' join (as.filter fun a => decide (place a = i)) bs) =
      innerJoin key key' join
        ((range n).flatMap fun i => as.filter fun a => decide (place a = i)) bs := by
    rw [innerJoin, flatMap_assoc]
    rfl
  rw [hflat]
  exact hperm.flatMap_right _

/-- **Both lists may be split by a placement of their keys.** -/
theorem innerJoin_shuffle {place : κ → ℕ} {n : ℕ} (h : ∀ k, place k < n) (as : List α)
    (bs : List β) :
    ((List.range n).flatMap fun i =>
        innerJoin key key' join (as.filter fun a => decide (place (key a) = i))
          (bs.filter fun b => decide (place (key' b) = i))).Perm
      (innerJoin key key' join as bs) := by
  have hwhole : ∀ i, innerJoin key key' join (as.filter fun a => decide (place (key a) = i))
      (bs.filter fun b => decide (place (key' b) = i)) =
      innerJoin key key' join (as.filter fun a => decide (place (key a) = i)) bs := by
    intro i
    refine flatMap_congr fun a ha => congrArg _ ?_
    have hplace : place (key a) = i := of_decide_eq_true (mem_filter.mp ha).2
    rw [filter_filter]
    refine filter_congr fun b _ => ?_
    by_cases hb : key' b = key a <;> simp [hb, hplace]
  simp only [hwhole]
  exact innerJoin_partition (fun a _ => h (key a)) bs

end TransDb
