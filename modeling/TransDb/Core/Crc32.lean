import Mathlib.Logic.Function.Iterate
import TransDb.Core.Bytes

/-!
# CRC-32

The checksum of a string of bytes, with the reflected IEEE polynomial and one table
lookup a byte.

* `crc32Table`, `crc32Step`, `crc32Ieee` — the checksum as it is computed.
* `crc32Table_xor`, `crc32Table_top_inj` — the table is linear, and its highest bytes are
  all different.
* `crc32Step_injective` — **a step loses nothing**: the highest byte of the result tells
  which entry of the table was used.
* `crc32Ieee_ne_of_byte` — **one byte that is changed changes the checksum**, however long
  the string is.
-/

namespace TransDb

/-- The reversed polynomial. -/
def crc32Poly : UInt32 := 0xEDB88320

/-- One bit of an entry of the table. -/
def crc32Bit (c : UInt32) : UInt32 := if c &&& 1 ≠ 0 then crc32Poly ^^^ (c >>> 1) else c >>> 1

/-- The entry of the table for a byte. -/
def crc32Table (i : UInt8) : UInt32 := Nat.iterate crc32Bit 8 i.toUInt32

/-- One byte; the index is the lowest byte of `c ^ b`. -/
def crc32Step (c : UInt32) (b : UInt8) : UInt32 :=
  crc32Table (c ^^^ b.toUInt32).toUInt8 ^^^ (c >>> 8)

/-- The checksum of a string. -/
def crc32Ieee (data : Bytes) : UInt32 := 0xFFFFFFFF ^^^ data.foldl crc32Step 0xFFFFFFFF

/-! ## The table -/

theorem low_bit_cases (c : UInt32) : c &&& 1 = 0 ∨ c &&& 1 = 1 := by
  have h : (c &&& 1).toNat = c.toNat % 2 := by simp [Nat.and_one_is_mod]
  rcases Nat.mod_two_eq_zero_or_one c.toNat with h0 | h1
  · exact .inl (UInt32.toNat_inj.mp (by rw [h, h0]; rfl))
  · exact .inr (UInt32.toNat_inj.mp (by rw [h, h1]; rfl))

/-- The polynomial is subtracted where the lowest bit is set. -/
theorem crc32Bit_eq (c : UInt32) : crc32Bit c = (c >>> 1) ^^^ (if c &&& 1 = 1 then crc32Poly else 0) := by
  unfold crc32Bit
  rcases low_bit_cases c with h | h
  · simp [h]
  · simp [h, UInt32.xor_comm]

theorem crc32Bit_xor (a b : UInt32) : crc32Bit (a ^^^ b) = crc32Bit a ^^^ crc32Bit b := by
  have hbit : (a ^^^ b) &&& 1 = (a &&& 1) ^^^ (b &&& 1) :=
    UInt32.toNat_inj.mp Nat.and_xor_distrib_right
  -- what is subtracted of the sum
  have hpoly : (if (a ^^^ b) &&& 1 = 1 then crc32Poly else 0) =
      (if a &&& 1 = 1 then crc32Poly else 0) ^^^ (if b &&& 1 = 1 then crc32Poly else 0) := by
    rw [hbit]
    rcases low_bit_cases a with ha | ha <;> rcases low_bit_cases b with hb | hb <;> rw [ha, hb] <;>
      decide
  rw [crc32Bit_eq, crc32Bit_eq a, crc32Bit_eq b, hpoly, UInt32.shiftRight_xor]
  ac_rfl

/-- The table is linear. -/
theorem crc32Table_xor (i j : UInt8) : crc32Table (i ^^^ j) = crc32Table i ^^^ crc32Table j := by
  have hiter : ∀ (n : ℕ) (a b : UInt32), Nat.iterate crc32Bit n (a ^^^ b) =
      Nat.iterate crc32Bit n a ^^^ Nat.iterate crc32Bit n b := by
    intro n
    induction n with
    | zero => exact fun _ _ => rfl
    | succ n ih =>
      intro a b
      rw [Function.iterate_succ_apply, Function.iterate_succ_apply, Function.iterate_succ_apply,
        crc32Bit_xor, ih]
  unfold crc32Table
  rw [UInt8.toUInt32_xor, hiter]

/-- The highest bytes of the entries are all different.  The table is linear, so it is
enough that none but the first is zero. -/
theorem crc32Table_top_inj {i j : UInt8} (h : crc32Table i >>> 24 = crc32Table j >>> 24) : i = j := by
  have hzero : ∀ n < 256, crc32Table (UInt8.ofNat n) >>> 24 = 0 → n = 0 := by decide +kernel
  have hsum : crc32Table (i ^^^ j) >>> 24 = 0 := by
    rw [crc32Table_xor, UInt32.shiftRight_xor, h, UInt32.xor_self]
  have hnat := hzero (i ^^^ j).toNat (i ^^^ j).toNat_lt (by rw [UInt8.ofNat_toNat]; exact hsum)
  exact UInt8.xor_eq_zero_iff.mp (UInt8.toNat_inj.mp hnat)

/-! ## Steps -/

/-- The highest byte of a step is that of the entry. -/
theorem crc32Step_top (c : UInt32) (b : UInt8) :
    crc32Step c b >>> 24 = crc32Table (c ^^^ b.toUInt32).toUInt8 >>> 24 := by
  have hzero : c >>> 8 >>> 24 = 0 := by
    apply UInt32.toNat_inj.mp
    have hc := c.toNat_lt
    simp [Nat.shiftRight_eq_div_pow]
    omega
  rw [crc32Step, UInt32.shiftRight_xor, hzero, UInt32.xor_zero]

/-- A number is known by its lowest byte and the others. -/
theorem eq_of_low_high {c c' : UInt32} (hlow : c.toUInt8 = c'.toUInt8) (hhigh : c >>> 8 = c' >>> 8) :
    c = c' := by
  have hl := congrArg UInt8.toNat hlow
  have hh := congrArg UInt32.toNat hhigh
  simp [Nat.shiftRight_eq_div_pow] at hl hh
  apply UInt32.toNat_inj.mp
  omega

/-- **A step can be undone**: different checksums stay different. -/
theorem crc32Step_injective (b : UInt8) : Function.Injective fun c => crc32Step c b := by
  intro c c' h
  have h : crc32Step c b = crc32Step c' b := h
  have hindex : (c ^^^ b.toUInt32).toUInt8 = (c' ^^^ b.toUInt32).toUInt8 := by
    refine crc32Table_top_inj ?_
    rw [← crc32Step_top, ← crc32Step_top, h]
  refine eq_of_low_high ?_ ?_
  · rwa [UInt32.toUInt8_xor, UInt32.toUInt8_xor, UInt8.xor_left_inj] at hindex
  · rwa [crc32Step, crc32Step, hindex, UInt32.xor_right_inj] at h

/-- Different bytes lead to different checksums. -/
theorem crc32Step_inj_byte {c : UInt32} {b b' : UInt8} (h : crc32Step c b = crc32Step c b') :
    b = b' := by
  have hindex : (c ^^^ b.toUInt32).toUInt8 = (c ^^^ b'.toUInt32).toUInt8 := by
    refine crc32Table_top_inj ?_
    rw [← crc32Step_top, ← crc32Step_top, h]
  rw [UInt32.toUInt8_xor, UInt32.toUInt8_xor, UInt8.xor_right_inj] at hindex
  simpa using hindex

theorem foldl_crc32Step_injective (data : Bytes) :
    Function.Injective fun c => data.foldl crc32Step c := by
  induction data with
  | nil => exact fun _ _ h => h
  | cons b data ih =>
    intro c c' h
    exact crc32Step_injective b (ih h)

/-- **A byte that is changed changes the checksum.** -/
theorem crc32Ieee_ne_of_byte (pre post : Bytes) {b b' : UInt8} (h : b ≠ b') :
    crc32Ieee (pre ++ b :: post) ≠ crc32Ieee (pre ++ b' :: post) := by
  intro heq
  rw [crc32Ieee, crc32Ieee, UInt32.xor_right_inj, List.foldl_append, List.foldl_append,
    List.foldl_cons, List.foldl_cons] at heq
  exact h (crc32Step_inj_byte (foldl_crc32Step_injective post heq))

/-- The checksum of the nine digits, as it is published. -/
example : crc32Ieee [0x31, 0x32, 0x33, 0x34, 0x35, 0x36, 0x37, 0x38, 0x39] = 0xCBF43926 := by
  decide +kernel

end TransDb
