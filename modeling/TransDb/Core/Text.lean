import Mathlib.Data.Nat.Digits.Lemmas
import Mathlib.Data.List.TakeWhile
import Mathlib.Tactic.Ring
import TransDb.Core.Bytes

/-!
# Bytes as text

Character classes and numerals, as the C++ library has them in the "C" locale.

* `isSpace`, `isDigit`, `isAlpha`, `isAlnum`, `toUpper`, `toLower` — characters.
* `decimal`, `decimalInt` — what `std::to_string` writes.
* `digitsValue`, `stoll` — what is read back; `stoll_decimalInt` is the round trip.
* `isUtf8` — the texts that protobuf takes for a `string`.
-/

namespace TransDb

open List

/-! ## Characters -/

/-- The bytes of an ASCII text. -/
def ascii (s : String) : Bytes := s.toList.map fun c => UInt8.ofNat c.toNat

/-- `std::isspace`. -/
def isSpace (c : UInt8) : Bool := c == 32 || (9 ≤ c && c ≤ 13)

/-- `std::isdigit`. -/
def isDigit (c : UInt8) : Bool := 48 ≤ c && c ≤ 57

/-- A capital letter. -/
def isUpper (c : UInt8) : Bool := 65 ≤ c && c ≤ 90

/-- A small letter. -/
def isLower (c : UInt8) : Bool := 97 ≤ c && c ≤ 122

/-- `std::isalpha`. -/
def isAlpha (c : UInt8) : Bool := isUpper c || isLower c

/-- `std::isalnum`. -/
def isAlnum (c : UInt8) : Bool := isAlpha c || isDigit c

/-- `std::toupper`. -/
def toUpper (c : UInt8) : UInt8 := if isLower c then c - 32 else c

/-- `std::tolower`. -/
def toLower (c : UInt8) : UInt8 := if isUpper c then c + 32 else c

/-- The ranges of the bytes that follow the first byte of a UTF-8 character. -/
def utf8Tail (c : UInt8) : Option (List (UInt8 × UInt8)) :=
  let tail := (128, 191)
  if c < 128 then some []
  else if 194 ≤ c ∧ c ≤ 223 then some [tail]
  -- no overlong forms, no surrogates and nothing after U+10FFFF
  else if c = 224 then some [(160, 191), tail]
  else if c = 237 then some [(128, 159), tail]
  else if 225 ≤ c ∧ c ≤ 239 then some [tail, tail]
  else if c = 240 then some [(144, 191), tail, tail]
  else if c = 244 then some [(128, 143), tail, tail]
  else if 241 ≤ c ∧ c ≤ 243 then some [tail, tail, tail]
  else none

/-- Whether the text goes on as UTF-8, where a character still wants bytes of these ranges. -/
def isUtf8From : List (UInt8 × UInt8) → Bytes → Bool
  | wanted, [] => wanted.isEmpty
  | [], c :: text => (utf8Tail c).any fun wanted => isUtf8From wanted text
  | range :: wanted, c :: text => range.1 ≤ c && c ≤ range.2 && isUtf8From wanted text

/-- The text is UTF-8. -/
def isUtf8 (text : Bytes) : Bool := isUtf8From [] text

/-- What holds of every byte can be tried out. -/
instance decidableForallByte {p : UInt8 → Prop} [DecidablePred p] : Decidable (∀ c, p c) :=
  decidable_of_iff (∀ n : Fin 256, p (UInt8.ofNat n))
    ⟨fun h c => by simpa using h ⟨c.toNat, c.toNat_lt⟩, fun h _ => h _⟩

/-- Bytes of a class are not the bytes outside of it. -/
theorem ne_of_class {p : UInt8 → Bool} {c x : UInt8} (hc : p c = true) (hx : p x = false) :
    c ≠ x := by
  rintro rfl
  rw [hc] at hx
  cases hx

/-! ## Numerals -/

/-- The digits of a number. -/
def decimal (n : ℕ) : Bytes :=
  if n = 0 then [48] else ((Nat.digits 10 n).map fun d => UInt8.ofNat (48 + d)).reverse

/-- An integer in decimal. -/
def decimalInt (z : ℤ) : Bytes :=
  if z < 0 then 45 :: decimal z.natAbs else decimal z.natAbs

/-- The number that digits stand for. -/
def digitsValue (ds : Bytes) : ℕ := ds.foldl (fun n c => 10 * n + (c.toNat - 48)) 0

/-- `std::stoll`: blanks, a sign, digits, and anything after them; `none` where it throws. -/
def stoll (text : Bytes) : Option Int64 :=
  let text := text.dropWhile isSpace
  let negative := text.head? == some 45
  let rest := if negative || text.head? == some 43 then text.tail else text
  let ds := rest.takeWhile isDigit
  let z : ℤ := if negative then -digitsValue ds else digitsValue ds
  if ds = [] then none
  else if -2 ^ 63 ≤ z ∧ z < 2 ^ 63 then some (Int64.ofInt z)
  else none

/-- `std::from_chars` over a whole text: a minus sign at most, and digits. -/
def parseInt64 (text : Bytes) : Option Int64 :=
  let negative := text.head? == some 45
  let ds := if negative then text.tail else text
  let z : ℤ := if negative then -digitsValue ds else digitsValue ds
  if ds = [] ∨ ds.all isDigit = false then none
  else if -2 ^ 63 ≤ z ∧ z < 2 ^ 63 then some (Int64.ofInt z)
  else none

/-! ## Digits -/

theorem isDigit_iff {c : UInt8} : isDigit c = true ↔ 48 ≤ c.toNat ∧ c.toNat ≤ 57 := by
  simp [isDigit, UInt8.le_iff_toNat_le]

theorem toNat_digit {d : ℕ} (h : d < 10) : (UInt8.ofNat (48 + d)).toNat = 48 + d :=
  UInt8.toNat_ofNat_of_lt' (by rw [UInt8.size]; omega)

theorem isDigit_digit {d : ℕ} (h : d < 10) : isDigit (UInt8.ofNat (48 + d)) = true := by
  rw [isDigit_iff, toNat_digit h]
  omega

theorem isDigit_of_mem_decimal {n : ℕ} {c : UInt8} (h : c ∈ decimal n) : isDigit c = true := by
  unfold decimal at h
  split_ifs at h
  · obtain rfl := mem_singleton.mp h
    decide
  · obtain ⟨d, hd, rfl⟩ := mem_map.mp (mem_reverse.mp h)
    exact isDigit_digit (Nat.digits_lt_base (by norm_num) hd)

theorem decimal_ne_nil (n : ℕ) : decimal n ≠ [] := by
  unfold decimal
  split_ifs with h
  · exact cons_ne_nil _ _
  · simpa [Nat.digits_eq_nil_iff_eq_zero] using h

theorem digitsValue_append (ds : Bytes) (c : UInt8) :
    digitsValue (ds ++ [c]) = 10 * digitsValue ds + (c.toNat - 48) := by
  simp [digitsValue]

theorem digitsValue_reverse_map {ns : List ℕ} (h : ∀ d ∈ ns, d < 10) :
    digitsValue (ns.map fun d => UInt8.ofNat (48 + d)).reverse = Nat.ofDigits 10 ns := by
  induction ns with
  | nil => rfl
  | cons d ns ih =>
    obtain ⟨hd, hns⟩ := forall_mem_cons.mp h
    rw [map_cons, reverse_cons, digitsValue_append, ih hns, Nat.ofDigits_cons,
      toNat_digit hd]
    omega

/-- **A number is read back from its digits.** -/
theorem digitsValue_decimal (n : ℕ) : digitsValue (decimal n) = n := by
  unfold decimal
  split_ifs with h
  · subst h
    rfl
  · rw [digitsValue_reverse_map fun d hd => Nat.digits_lt_base (by norm_num) hd,
      Nat.ofDigits_digits]

theorem head?_decimal (n : ℕ) : ∃ c ds, decimal n = c :: ds ∧ isDigit c = true := by
  obtain ⟨c, ds, h⟩ := exists_cons_of_ne_nil (decimal_ne_nil n)
  exact ⟨c, ds, h, isDigit_of_mem_decimal (h ▸ mem_cons_self)⟩

/-! ## Integers -/

theorem decimalInt_of_nonneg {z : ℤ} (h : 0 ≤ z) : decimalInt z = decimal z.natAbs :=
  if_neg (by omega)

theorem decimalInt_of_neg {z : ℤ} (h : z < 0) : decimalInt z = 45 :: decimal z.natAbs := if_pos h

theorem takeWhile_isDigit_decimal (n : ℕ) : (decimal n).takeWhile isDigit = decimal n :=
  takeWhile_eq_self_iff.mpr fun _ hc => isDigit_of_mem_decimal hc

/-- **A 64-bit integer is read back from its text.** -/
theorem stoll_decimalInt (v : Int64) : stoll (decimalInt v.toInt) = some v := by
  have hlo := v.le_toInt
  have hhi := v.toInt_lt
  have hfit : ∀ z : ℤ, z = v.toInt → (if -2 ^ 63 ≤ z ∧ z < 2 ^ 63 then some (Int64.ofInt z) else none)
      = some v := by
    rintro z rfl
    rw [if_pos ⟨hlo, hhi⟩, Int64.ofInt_toInt]
  unfold stoll
  by_cases hneg : v.toInt < 0
  · have hdrop : (45 :: decimal v.toInt.natAbs).dropWhile isSpace = 45 :: decimal v.toInt.natAbs :=
      dropWhile_cons_of_neg (by decide)
    simp only [decimalInt_of_neg hneg, hdrop, head?_cons, BEq.rfl, Bool.true_or, if_true,
      tail_cons, takeWhile_isDigit_decimal, digitsValue_decimal, decimal_ne_nil, if_false]
    exact hfit _ (by omega)
  · obtain ⟨c, ds, hcons, hc⟩ := head?_decimal v.toInt.natAbs
    have hnat := isDigit_iff.mp hc
    have hspace : isSpace c = false := by
      simp only [isSpace, Bool.or_eq_false_iff, beq_eq_false_iff_ne, Bool.and_eq_false_iff,
        decide_eq_false_iff_not, UInt8.le_iff_toNat_le]
      refine ⟨?_, .inr ?_⟩
      · rintro rfl
        exact absurd hnat.1 (by decide)
      · have : (13 : UInt8).toNat = 13 := rfl
        omega
    have hminus : (some c == some (45 : UInt8)) = false := by
      simp only [Option.some_beq_some, beq_eq_false_iff_ne]
      rintro rfl
      exact absurd hnat.1 (by decide)
    have hplus : (some c == some (43 : UInt8)) = false := by
      simp only [Option.some_beq_some, beq_eq_false_iff_ne]
      rintro rfl
      exact absurd hnat.1 (by decide)
    have hdrop : (decimal v.toInt.natAbs).dropWhile isSpace = decimal v.toInt.natAbs := by
      rw [hcons]
      exact dropWhile_cons_of_neg (by simp [hspace])
    have hhead : (decimal v.toInt.natAbs).head? = some c := by rw [hcons]; rfl
    simp only [decimalInt_of_nonneg (not_lt.mp hneg), hdrop, hhead, hminus, hplus, Bool.or_self,
      Bool.false_eq_true, if_false, takeWhile_isDigit_decimal, digitsValue_decimal, decimal_ne_nil]
    exact hfit _ (by omega)

theorem decimalInt_injective : Function.Injective (fun v : Int64 => decimalInt v.toInt) := by
  intro v w h
  have hv := stoll_decimalInt v
  have h' : decimalInt v.toInt = decimalInt w.toInt := h
  rw [h', stoll_decimalInt] at hv
  exact (Option.some.inj hv).symm

end TransDb
