import Mathlib.Data.List.Basic
import TransDb.Core.Bytes

/-!
# Files of records

A file is written by appending the bytes of one record after the other, and read from its
beginning until what follows is not a whole record.  A crash cuts it anywhere.

* `Framing` — how one record is written and read; a record that has been cut is not read.
* `Framing.readAll` — all records of a file; `readAll_encodeAll` reads back what was written.
* `Framing.contained` — the records that lie within the first bytes of a file.
* `readAll_take` — **a file that has been cut has just these**, whatever the place of the cut.
* `readAll_append_iff` — **when records can be appended to it.**
-/

namespace TransDb

open List

/-- How the records of a file are written and read.  `Fits` says which records the format
can hold. -/
structure Framing (α : Type*) where
  encode : α → Bytes
  /-- A record off the front, and the bytes after it. -/
  decode : Bytes → Option (α × Bytes)
  Fits : α → Prop
  decode_encode : ∀ a rest, Fits a → decode (encode a ++ rest) = some (a, rest)
  decode_sound : ∀ bs a rest, decode bs = some (a, rest) → Fits a ∧ bs = encode a ++ rest
  decode_cut : ∀ a n, Fits a → n < (encode a).length → decode ((encode a).take n) = none
  decode_length : ∀ bs a rest, decode bs = some (a, rest) → rest.length < bs.length

namespace Framing

/-- Where records are read as they were written and nothing else is read, what was cut is not. -/
theorem cut_of_sound {α : Type*} {encode : α → Bytes} {decode : Bytes → Option (α × Bytes)}
    {Fits : α → Prop} (hread : ∀ a rest, Fits a → decode (encode a ++ rest) = some (a, rest))
    (hsound : ∀ bs a rest, decode bs = some (a, rest) → Fits a ∧ bs = encode a ++ rest)
    (a : α) (n : ℕ) (ha : Fits a) (hn : n < (encode a).length) :
    decode ((encode a).take n) = none := by
  cases hcut : decode ((encode a).take n) with
  | none => rfl
  | some r =>
    obtain ⟨ha', heq⟩ := hsound _ r.1 r.2 hcut
    have hwhole := hread a [] ha
    rw [append_nil, ← take_append_drop n (encode a), heq, append_assoc, hread _ _ ha'] at hwhole
    have hnil := (append_eq_nil_iff.mp (Prod.mk.inj (Option.some.inj hwhole)).2).2
    exact absurd (drop_eq_nil_iff.mp hnil) (Nat.not_le.mpr hn)

variable {α : Type*} (F : Framing α)

/-- The bytes of a file with these records. -/
def encodeAll (as : List α) : Bytes := as.flatMap F.encode

/-- Read records as long as there are whole ones. -/
def readLoop : ℕ → Bytes → List α
  | 0, _ => []
  | fuel + 1, bs =>
    match F.decode bs with
    | none => []
    | some (a, rest) => a :: readLoop fuel rest

/-- The records of a file.  Each of them takes a byte at least. -/
def readAll (bs : Bytes) : List α := F.readLoop bs.length bs

@[simp] theorem encodeAll_nil : F.encodeAll [] = [] := rfl

@[simp] theorem encodeAll_cons (a : α) (as : List α) :
    F.encodeAll (a :: as) = F.encode a ++ F.encodeAll as := rfl

theorem encodeAll_append (as bs : List α) :
    F.encodeAll (as ++ bs) = F.encodeAll as ++ F.encodeAll bs := by
  simp [encodeAll]

/-! ## Whole files -/

variable {bs : Bytes}

theorem readLoop_eq {fuel : ℕ} (h : bs.length ≤ fuel) :
    F.readLoop fuel bs = F.readAll bs := by
  -- two loops with enough fuel go the same way
  have hboth : ∀ (n m : ℕ) (bs : Bytes), bs.length ≤ n → bs.length ≤ m →
      F.readLoop n bs = F.readLoop m bs := by
    intro n
    induction n with
    | zero =>
      intro m bs hn _
      obtain rfl := length_eq_zero_iff.mp (Nat.le_zero.mp hn)
      cases m with
      | zero => rfl
      | succ m =>
        cases hd : F.decode [] with
        | none => simp [readLoop, hd]
        | some r => exact absurd (F.decode_length _ _ _ hd) (Nat.not_lt_zero _)
    | succ n ih =>
      intro m bs hn hm
      cases hd : F.decode bs with
      | none => cases m <;> simp [readLoop, hd]
      | some r =>
        have hlt := F.decode_length _ _ _ hd
        cases m with
        | zero => exact absurd (lt_of_lt_of_le hlt hm) (Nat.not_lt_zero _)
        | succ m =>
          simp only [readLoop, hd]
          rw [ih m r.2 (by omega) (by omega)]
  exact hboth fuel bs.length bs h (le_refl _)

theorem readAll_of_none (h : F.decode bs = none) : F.readAll bs = [] := by
  unfold readAll
  cases bs.length with
  | zero => rfl
  | succ n => simp [readLoop, h]

theorem readAll_of_some {bs rest : Bytes} {a : α} (h : F.decode bs = some (a, rest)) :
    F.readAll bs = a :: F.readAll rest := by
  have hlt := F.decode_length _ _ _ h
  obtain ⟨n, hn⟩ := Nat.exists_eq_succ_of_ne_zero (Nat.ne_zero_of_lt hlt)
  rw [← F.readLoop_eq (le_refl bs.length), hn]
  simp only [readLoop, h]
  rw [F.readLoop_eq (by omega)]

variable {as : List α} {n : ℕ}

/-- The records that were written are read first. -/
theorem readAll_encodeAll_append (h : ∀ a ∈ as, F.Fits a) (rest : Bytes) :
    F.readAll (F.encodeAll as ++ rest) = as ++ F.readAll rest := by
  induction as with
  | nil => rfl
  | cons a as ih =>
    have hd := F.decode_encode a (F.encodeAll as ++ rest) (h a mem_cons_self)
    rw [encodeAll_cons, append_assoc, F.readAll_of_some hd,
      ih fun a' ha' => h a' (mem_cons_of_mem a ha'), cons_append]

/-- **What was written is read back.** -/
theorem readAll_encodeAll (h : ∀ a ∈ as, F.Fits a) :
    F.readAll (F.encodeAll as) = as := by
  have hall := F.readAll_encodeAll_append h []
  rwa [append_nil, show F.readAll [] = [] from rfl, append_nil] at hall

/-- **What is read are the records at the front of the file**, up to bytes that are none. -/
theorem readAll_eq_iff :
    F.readAll bs = as ↔ (∀ a ∈ as, F.Fits a) ∧
      ∃ tail, bs = F.encodeAll as ++ tail ∧ F.decode tail = none := by
  constructor
  · intro h
    induction as generalizing bs with
    | nil =>
      cases hd : F.decode bs with
      | none => exact ⟨by simp, bs, rfl, hd⟩
      | some r =>
        rw [F.readAll_of_some hd] at h
        cases h
    | cons a as ih =>
      cases hd : F.decode bs with
      | none =>
        rw [F.readAll_of_none hd] at h
        cases h
      | some r =>
        obtain ⟨a', rest⟩ := r
        rw [F.readAll_of_some hd] at h
        obtain ⟨rfl, hrest⟩ := cons.inj h
        obtain ⟨hfits, hbs⟩ := F.decode_sound bs a' rest hd
        obtain ⟨hall, tail, htail, hnone⟩ := ih hrest
        refine ⟨forall_mem_cons.mpr ⟨hfits, hall⟩, tail, ?_, hnone⟩
        rw [hbs, htail, encodeAll_cons, append_assoc]
  · rintro ⟨hfits, tail, rfl, hnone⟩
    rw [F.readAll_encodeAll_append hfits, F.readAll_of_none hnone, append_nil]

/-! ## Files that were cut -/

/-- The records that lie within the first `n` bytes. -/
def contained (n : ℕ) : List α → List α
  | [] => []
  | a :: as =>
    if (F.encode a).length ≤ n then a :: contained (n - (F.encode a).length) as else []

theorem contained_prefix (n : ℕ) (as : List α) : F.contained n as <+: as := by
  induction as generalizing n with
  | nil => exact nil_prefix
  | cons a as ih =>
    unfold contained
    split_ifs
    · exact (prefix_cons_inj a).mpr (ih _)
    · exact nil_prefix

theorem mem_of_mem_contained {a : α} (h : a ∈ F.contained n as) : a ∈ as :=
  (F.contained_prefix n as).subset h

/-- They take `n` bytes at most. -/
theorem length_encodeAll_contained (n : ℕ) (as : List α) :
    (F.encodeAll (F.contained n as)).length ≤ n := by
  induction as generalizing n with
  | nil => exact Nat.zero_le n
  | cons a as ih =>
    unfold contained
    split_ifs with h
    · have hrest := ih (n - (F.encode a).length)
      rw [encodeAll_cons, length_append]
      omega
    · exact Nat.zero_le n

/-- A file that is cut holds the records within it, and the first bytes of the next. -/
theorem take_encodeAll (n : ℕ) (as : List α) :
    (F.encodeAll as).take n = F.encodeAll (F.contained n as) ∨
      ∃ a post m, as = F.contained n as ++ a :: post ∧ 0 < m ∧ m < (F.encode a).length ∧
        (F.encodeAll as).take n = F.encodeAll (F.contained n as) ++ (F.encode a).take m := by
  induction as generalizing n with
  | nil => exact .inl (by simp [contained])
  | cons a as ih =>
    unfold contained
    split_ifs with h
    · have htake : (F.encodeAll (a :: as)).take n =
          F.encode a ++ (F.encodeAll as).take (n - (F.encode a).length) := by
        rw [encodeAll_cons, take_append, take_of_length_le h]
      rcases ih (n - (F.encode a).length) with heq | ⟨a', post, m, has, hpos, hm, heq⟩
      · exact .inl (by rw [htake, heq, encodeAll_cons])
      · refine .inr ⟨a', post, m, by rw [cons_append, ← has], hpos, hm, ?_⟩
        rw [htake, heq, encodeAll_cons, append_assoc]
    · have hlt := Nat.lt_of_not_le h
      have htake : (F.encodeAll (a :: as)).take n = (F.encode a).take n := by
        rw [encodeAll_cons, take_append_of_le_length (Nat.le_of_lt hlt)]
      rcases Nat.eq_zero_or_pos n with rfl | hpos
      · exact .inl (by simp)
      · exact .inr ⟨a, as, n, rfl, hpos, hlt, by rw [htake]; rfl⟩

/-- **A file that was cut has the records within it**, and no other. -/
theorem readAll_take (h : ∀ a ∈ as, F.Fits a) (n : ℕ) :
    F.readAll ((F.encodeAll as).take n) = F.contained n as := by
  have hfits : ∀ a ∈ F.contained n as, F.Fits a := fun a ha => h a (F.mem_of_mem_contained ha)
  rcases F.take_encodeAll n as with heq | ⟨a, post, m, has, -, hm, heq⟩
  · rw [heq, F.readAll_encodeAll hfits]
  · have ha : F.Fits a := h a (by rw [has]; simp)
    rw [heq, F.readAll_encodeAll_append hfits, F.readAll_of_none (F.decode_cut a m ha hm),
      append_nil]

/-- The file is cut between two records, or not at all. -/
def CutsBetween (n : ℕ) (as : List α) : Prop :=
  (F.encodeAll as).take n = F.encodeAll (F.contained n as)

instance (n : ℕ) (as : List α) : Decidable (F.CutsBetween n as) :=
  inferInstanceAs (Decidable (_ = _))

/-- What a cut leaves of the record that it goes through. -/
def torn (n : ℕ) (as : List α) : Bytes :=
  ((F.encodeAll as).take n).drop (F.encodeAll (F.contained n as)).length

theorem take_eq_torn (n : ℕ) (as : List α) :
    (F.encodeAll as).take n = F.encodeAll (F.contained n as) ++ F.torn n as := by
  unfold torn
  rcases F.take_encodeAll n as with heq | ⟨a, post, m, -, -, -, heq⟩
  · rw [heq, drop_length, append_nil]
  · rw [heq, drop_left' rfl]

/-- The records are read as they are behind these bytes, which go through them to the end
of the file. -/
def Harmless (t : Bytes) (as : List α) : Prop :=
  ∃ tail, t ++ F.encodeAll as = F.encodeAll as ++ tail ∧ F.decode tail = none

/-- **When appending to a file that was cut does what it should**: the records fit, and
what the cut has left does no harm. -/
theorem readAll_append_iff {as bs : List α} :
    F.readAll ((F.encodeAll as).take n ++ F.encodeAll bs) = F.contained n as ++ bs ↔
      (∀ a ∈ F.contained n as ++ bs, F.Fits a) ∧ F.Harmless (F.torn n as) bs := by
  rw [F.readAll_eq_iff, F.take_eq_torn, encodeAll_append]
  refine and_congr_right fun _ => exists_congr fun tail => and_congr_left fun _ => ?_
  rw [append_assoc, append_assoc, append_cancel_left_eq]

/-- The record that a byte of the file lies in. -/
theorem exists_record (h : n < (F.encodeAll as).length) :
    ∃ a post m, as = F.contained n as ++ a :: post ∧ m < (F.encode a).length ∧
      n = (F.encodeAll (F.contained n as)).length + m := by
  induction as generalizing n with
  | nil => exact absurd h (Nat.not_lt_zero n)
  | cons a as ih =>
    unfold contained
    split_ifs with hle
    · rw [encodeAll_cons, length_append] at h
      obtain ⟨a', post, m, has, hm, hn⟩ := ih (n := n - (F.encode a).length) (by omega)
      refine ⟨a', post, m, by rw [cons_append, ← has], hm, ?_⟩
      rw [encodeAll_cons, length_append]
      omega
    · exact ⟨a, as, n, rfl, Nat.lt_of_not_le hle, by simp⟩

theorem contained_of_le (h : (F.encodeAll as).length ≤ n) :
    F.contained n as = as := by
  induction as generalizing n with
  | nil => rfl
  | cons a as ih =>
    rw [encodeAll_cons, length_append] at h
    unfold contained
    rw [if_pos (by omega), ih (by omega)]

/-- They are the longest beginning of the list that the bytes hold. -/
theorem contained_eq_take (n : ℕ) (as : List α) :
    ∃ k ≤ as.length, F.contained n as = as.take k ∧ (F.encodeAll (as.take k)).length ≤ n ∧
      (k < as.length → n < (F.encodeAll (as.take (k + 1))).length) := by
  have hprefix := F.contained_prefix n as
  have htake := prefix_iff_eq_take.mp hprefix
  refine ⟨(F.contained n as).length, hprefix.length_le, htake, ?_, ?_⟩
  · rw [← htake]
    exact F.length_encodeAll_contained n as
  · intro hk
    have hn : n < (F.encodeAll as).length := by
      by_contra hn
      rw [F.contained_of_le (Nat.le_of_not_lt hn)] at hk
      exact Nat.lt_irrefl _ hk
    obtain ⟨a, post, m, has, hm, hn⟩ := F.exists_record hn
    have hsucc : as.take ((F.contained n as).length + 1) = F.contained n as ++ [a] :=
      calc as.take ((F.contained n as).length + 1)
          = (F.contained n as ++ a :: post).take ((F.contained n as).length + 1) :=
            congrArg _ has
        _ = F.contained n as ++ [a] := by
            rw [take_append, take_of_length_le (Nat.le_succ _)]
            simp
    rw [hsucc, encodeAll_append, length_append, encodeAll_cons, encodeAll_nil,
      append_nil]
    omega

end Framing

end TransDb
