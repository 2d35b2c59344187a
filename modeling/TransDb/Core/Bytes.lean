import Mathlib.Data.List.Lex
import Mathlib.Order.Lattice
import Mathlib.Tactic.Ring

/-!
# Bytes and fixed-width numbers

Strings of bytes in their lexicographic order, and numbers written with a fixed
number of bytes, least or most significant byte first.

* `leBytes`, `leNat` — little endian; `leNat_leBytes` and `leBytes_leNat` are the
  two round trips.
* `takeLe` — read a number off the front of a string; `takeLe_append` reads back
  what `leBytes` wrote.
* `beBytes`, `beNat` — big endian; `beBytes_lt` says that the byte order of the
  strings is the order of the numbers.
-/

namespace TransDb

open List

/-- A string of bytes. -/
abbrev Bytes := List UInt8

instance linearOrderUInt8 : LinearOrder UInt8 where
  le_refl := UInt8.le_refl
  le_trans _ _ _ := UInt8.le_trans
  lt_iff_le_not_ge a b := by
    rw [UInt8.lt_iff_toNat_lt, UInt8.le_iff_toNat_le, UInt8.le_iff_toNat_le]
    omega
  le_antisymm _ _ := UInt8.le_antisymm
  le_total := UInt8.le_total
  toDecidableLE := inferInstance

instance lawfulBEqBytes : LawfulBEq Bytes := inferInstance

/-! ## Little endian -/

/-- The lowest `w` bytes of a number, the least significant first. -/
def leBytes : ℕ → ℕ → Bytes
  | 0, _ => []
  | w + 1, n => UInt8.ofNat n :: leBytes w (n / 256)

/-- The number a string of bytes stands for, the least significant byte first. -/
def leNat : Bytes → ℕ
  | [] => 0
  | b :: bs => b.toNat + 256 * leNat bs

@[simp] theorem length_leBytes (w n : ℕ) : (leBytes w n).length = w := by
  induction w generalizing n with
  | zero => rfl
  | succ w ih => simp [leBytes, ih]

theorem leNat_leBytes (w n : ℕ) : leNat (leBytes w n) = n % 256 ^ w := by
  induction w generalizing n with
  | zero => simp [leBytes, leNat, Nat.mod_one]
  | succ w ih =>
    have hb : (UInt8.ofNat n).toNat = n % 256 := by simp
    rw [leBytes, leNat, ih, hb, Nat.pow_succ, Nat.mul_comm (256 ^ w), Nat.mod_mul]

variable {bs : Bytes} {w : ℕ}

theorem leNat_lt (h : bs.length = w) : leNat bs < 256 ^ w := by
  subst h
  induction bs with
  | nil => simp [leNat]
  | cons b bs ih =>
    have hb := b.toNat_lt
    rw [leNat, length_cons, Nat.pow_succ]
    omega

theorem leBytes_leNat (h : bs.length = w) : leBytes w (leNat bs) = bs := by
  subst h
  induction bs with
  | nil => rfl
  | cons b bs ih =>
    have hb := b.toNat_lt
    have hdiv : (b.toNat + 256 * leNat bs) / 256 = leNat bs := by omega
    have hmod : UInt8.ofNat (b.toNat + 256 * leNat bs) = b := by
      apply UInt8.toNat_inj.mp
      simp
    rw [leNat, length_cons, leBytes, hdiv, ih, hmod]

/-- Strings of one length are told apart by their numbers. -/
theorem leNat_inj {as bs : Bytes} (hlen : as.length = bs.length) (h : leNat as = leNat bs) :
    as = bs := by
  rw [← leBytes_leNat hlen, h, leBytes_leNat rfl]

/-- Read a number of `w` bytes off the front: the number and the rest. -/
def takeLe (w : ℕ) (bs : Bytes) : Option (ℕ × Bytes) :=
  if bs.length < w then none else some (leNat (bs.take w), bs.drop w)

theorem takeLe_append (w n : ℕ) (rest : Bytes) :
    takeLe w (leBytes w n ++ rest) = some (n % 256 ^ w, rest) := by
  have hlen : ¬ (leBytes w n ++ rest).length < w := by simp
  rw [takeLe, if_neg hlen, take_left' (length_leBytes w n), drop_left' (length_leBytes w n),
    leNat_leBytes]

theorem takeLe_of_lt {w n : ℕ} (hn : n < 256 ^ w) (rest : Bytes) :
    takeLe w (leBytes w n ++ rest) = some (n, rest) := by
  rw [takeLe_append, Nat.mod_eq_of_lt hn]

theorem eq_of_takeLe {w n : ℕ} {data rest : Bytes} (h : takeLe w data = some (n, rest)) :
    n < 256 ^ w ∧ data = leBytes w n ++ rest := by
  unfold takeLe at h
  split_ifs at h with hlen
  cases h
  have hw : (data.take w).length = w := length_take_of_le (Nat.not_lt.mp hlen)
  exact ⟨leNat_lt hw, by rw [leBytes_leNat hw, take_append_drop]⟩

/-! ## Big endian -/

/-- The lowest `w` bytes of a number, the most significant first. -/
def beBytes (w n : ℕ) : Bytes := (leBytes w n).reverse

/-- The number a string of bytes stands for, the most significant byte first. -/
def beNat (bs : Bytes) : ℕ := leNat bs.reverse

@[simp] theorem length_beBytes (w n : ℕ) : (beBytes w n).length = w := by
  simp [beBytes]

theorem beNat_beBytes (w n : ℕ) : beNat (beBytes w n) = n % 256 ^ w := by
  rw [beNat, beBytes, reverse_reverse, leNat_leBytes]

theorem beNat_lt (h : bs.length = w) : beNat bs < 256 ^ w :=
  leNat_lt (length_reverse.trans h)

theorem beBytes_beNat (h : bs.length = w) : beBytes w (beNat bs) = bs := by
  rw [beBytes, beNat, leBytes_leNat (length_reverse.trans h), reverse_reverse]

theorem leNat_append (as bs : Bytes) : leNat (as ++ bs) = leNat as + 256 ^ as.length * leNat bs := by
  induction as with
  | nil => simp [leNat]
  | cons a as ih =>
    rw [cons_append, leNat, leNat, ih, length_cons, Nat.pow_succ]
    ring

theorem beNat_cons (b : UInt8) (bs : Bytes) :
    beNat (b :: bs) = beNat bs + 256 ^ bs.length * b.toNat := by
  rw [beNat, beNat, reverse_cons, leNat_append, length_reverse]
  simp [leNat]

/-- Strings of one length are ordered like the numbers they stand for. -/
theorem lt_of_beNat_lt : ∀ {as bs : Bytes}, as.length = bs.length → beNat as < beNat bs → as < bs := by
  intro as
  induction as with
  | nil =>
    intro bs hlen h
    rw [length_nil] at hlen
    rw [length_eq_zero_iff.mp hlen.symm] at h
    exact absurd h (Nat.lt_irrefl _)
  | cons a as ih =>
    intro bs hlen h
    cases bs with
    | nil => simp at hlen
    | cons b bs =>
      have hlen' : as.length = bs.length := by simpa using hlen
      rw [cons_lt_cons_iff]
      rcases lt_trichotomy a b with hab | rfl | hab
      · exact Or.inl hab
      · rw [beNat_cons, beNat_cons, hlen'] at h
        exact Or.inr ⟨rfl, ih hlen' (by omega)⟩
      · -- the leading byte decides
        rw [beNat_cons, beNat_cons, hlen'] at h
        have hb : b.toNat + 1 ≤ a.toNat := UInt8.lt_iff_toNat_lt.mp hab
        have hlt : beNat bs < 256 ^ bs.length := beNat_lt rfl
        have hmul := Nat.mul_le_mul_left (256 ^ bs.length) hb
        rw [Nat.mul_add, Nat.mul_one] at hmul
        omega

theorem beBytes_lt {w m n : ℕ} (hn : n < 256 ^ w) (h : m < n) : beBytes w m < beBytes w n := by
  refine lt_of_beNat_lt (by simp) ?_
  rw [beNat_beBytes, beNat_beBytes, Nat.mod_eq_of_lt hn, Nat.mod_eq_of_lt (h.trans hn)]
  exact h

end TransDb
