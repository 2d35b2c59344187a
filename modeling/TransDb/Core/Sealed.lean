import TransDb.Core.Crc32

/-!
# Layouts of records

Two layouts that file formats are made of: a head of two words, a byte and a count with
data behind it, and a string with its length before it and its checksum behind it.

* `headed`, `headWord0`, … , `headCount` — the head and its fields; `eq_headed` says that
  the fields determine the bytes.
* `sealed`, `Checked` — length and checksum; `not_checked_of_byte` **finds a byte that was
  changed.**
-/

namespace TransDb

open List

/-! ## Heads -/

/-- Two words, a byte and a count, and data behind them. -/
def headed (a b : UInt64) (t : UInt8) (n : ℕ) (data : Bytes) : Bytes :=
  leBytes 8 a.toNat ++ (leBytes 8 b.toNat ++ (t :: (leBytes 4 n ++ data)))

/-- The first word. -/
def headWord0 (bs : Bytes) : UInt64 := UInt64.ofNat (leNat (bs.take 8))

/-- The second word. -/
def headWord1 (bs : Bytes) : UInt64 := UInt64.ofNat (leNat ((bs.drop 8).take 8))

/-- The byte. -/
def headByte (bs : Bytes) : UInt8 := (bs.drop 16).headD 0

/-- The count. -/
def headCount (bs : Bytes) : ℕ := leNat ((bs.drop 17).take 4)

section Head

variable (a b : UInt64) (t : UInt8) (n : ℕ) (data : Bytes)

@[simp] theorem length_headed : (headed a b t n data).length = data.length + 21 := by
  simp [headed]
  omega

theorem headed_append (rest : Bytes) :
    headed a b t n data ++ rest = headed a b t n (data ++ rest) := by
  simp [headed]

theorem take_headed (k : ℕ) : (headed a b t n data).take (k + 21) = headed a b t n (data.take k) := by
  have hsplit : ∀ data, headed a b t n data = headed a b t n [] ++ data := fun data => by
    rw [headed_append, nil_append]
  rw [hsplit data, hsplit (data.take k), take_append, length_headed,
    take_of_length_le (by rw [length_headed]; simp)]
  simp

theorem drop8_headed :
    (headed a b t n data).drop 8 = leBytes 8 b.toNat ++ (t :: (leBytes 4 n ++ data)) :=
  drop_left' (length_leBytes 8 _)

theorem drop16_headed : (headed a b t n data).drop 16 = t :: (leBytes 4 n ++ data) := by
  rw [show 16 = 8 + 8 from rfl, ← drop_drop, drop8_headed, drop_left' (length_leBytes 8 _)]

theorem drop17_headed : (headed a b t n data).drop 17 = leBytes 4 n ++ data := by
  rw [show 17 = 16 + 1 from rfl, ← drop_drop, drop16_headed]
  rfl

@[simp] theorem drop21_headed : (headed a b t n data).drop 21 = data := by
  rw [show 21 = 17 + 4 from rfl, ← drop_drop, drop17_headed, drop_left' (length_leBytes 4 _)]

theorem ofNat_leNat_leBytes : UInt64.ofNat (leNat (leBytes 8 a.toNat)) = a := by
  have hlt : a.toNat < 256 ^ 8 := a.toNat_lt
  rw [leNat_leBytes, Nat.mod_eq_of_lt hlt, UInt64.ofNat_toNat]

@[simp] theorem headWord0_headed : headWord0 (headed a b t n data) = a := by
  rw [headWord0, headed, take_left' (length_leBytes 8 _), ofNat_leNat_leBytes]

@[simp] theorem headWord1_headed : headWord1 (headed a b t n data) = b := by
  rw [headWord1, drop8_headed, take_left' (length_leBytes 8 _), ofNat_leNat_leBytes]

@[simp] theorem headByte_headed : headByte (headed a b t n data) = t := by
  rw [headByte, drop16_headed]
  rfl

theorem headCount_headed : headCount (headed a b t n data) = n % 2 ^ 32 := by
  rw [headCount, drop17_headed, take_left' (length_leBytes 4 _), leNat_leBytes,
    show 256 ^ 4 = 2 ^ 32 from rfl]

end Head

variable {bs : Bytes}

/-- A word is known by its bytes. -/
theorem leBytes_ofNat_leNat (h : bs.length = 8) :
    leBytes 8 (UInt64.ofNat (leNat bs)).toNat = bs := by
  rw [UInt64.toNat_ofNat_of_lt' (leNat_lt h), leBytes_leNat h]

/-- **The fields determine the bytes.** -/
theorem eq_headed (h : 21 ≤ bs.length) :
    bs = headed (headWord0 bs) (headWord1 bs) (headByte bs) (headCount bs) (bs.drop 21) := by
  have hw0 : leBytes 8 (headWord0 bs).toNat = bs.take 8 :=
    leBytes_ofNat_leNat (by rw [length_take]; omega)
  have hw1 : leBytes 8 (headWord1 bs).toNat = (bs.drop 8).take 8 :=
    leBytes_ofNat_leNat (by rw [length_take, length_drop]; omega)
  have hcount : leBytes 4 (headCount bs) = (bs.drop 17).take 4 :=
    leBytes_leNat (by rw [length_take, length_drop]; omega)
  have hbyte : headByte bs :: bs.drop 17 = bs.drop 16 := by
    have hlt : 16 < bs.length := by omega
    rw [headByte, drop_eq_getElem_cons hlt]
    rfl
  calc bs = bs.take 8 ++ bs.drop 8 := (take_append_drop 8 bs).symm
    _ = bs.take 8 ++ ((bs.drop 8).take 8 ++ (bs.drop 8).drop 8) := by
        rw [take_append_drop 8 (bs.drop 8)]
    _ = bs.take 8 ++ ((bs.drop 8).take 8 ++ bs.drop 16) := by rw [drop_drop]
    _ = bs.take 8 ++ ((bs.drop 8).take 8 ++
          (headByte bs :: ((bs.drop 17).take 4 ++ (bs.drop 17).drop 4))) := by
        rw [take_append_drop 4 (bs.drop 17), hbyte]
    _ = bs.take 8 ++ ((bs.drop 8).take 8 ++
          (headByte bs :: ((bs.drop 17).take 4 ++ bs.drop 21))) := by rw [drop_drop]
    _ = _ := by rw [headed, hw0, hw1, hcount]

/-- The count is read of the first bytes alone. -/
theorem headCount_take {k : ℕ} (h : 21 ≤ k) : headCount (bs.take k) = headCount bs := by
  rw [headCount, headCount, drop_take, take_take, Nat.min_eq_left (by omega)]

/-! ## Strings with length and checksum -/

/-- A string with its checksum. -/
def withCrc (content : Bytes) : Bytes := content ++ leBytes 4 (crc32Ieee content).toNat

/-- A string with its checksum, and the length of both before it. -/
def sealed (content : Bytes) : Bytes := leBytes 4 (withCrc content).length ++ withCrc content

/-- The last four bytes are the checksum of the others. -/
def Checked (body : Bytes) : Prop :=
  (crc32Ieee (body.take (body.length - 4))).toNat = leNat (body.drop (body.length - 4))

instance (body : Bytes) : Decidable (Checked body) := inferInstanceAs (Decidable (_ = _))

@[simp] theorem length_withCrc (content : Bytes) : (withCrc content).length = content.length + 4 := by
  simp [withCrc]

@[simp] theorem length_sealed (content : Bytes) : (sealed content).length = content.length + 8 := by
  simp [sealed]
  omega

theorem leNat_crc32 (content : Bytes) :
    leNat (leBytes 4 (crc32Ieee content).toNat) = (crc32Ieee content).toNat := by
  have hlt : (crc32Ieee content).toNat < 256 ^ 4 := (crc32Ieee content).toNat_lt
  rw [leNat_leBytes, Nat.mod_eq_of_lt hlt]

theorem checked_append_iff {content crc : Bytes} (hcrc : crc.length = 4) :
    Checked (content ++ crc) ↔ (crc32Ieee content).toNat = leNat crc := by
  have hlen : (content ++ crc).length - 4 = content.length := by simp [hcrc]
  rw [Checked, hlen, take_left' rfl, drop_left' rfl]

theorem checked_withCrc (content : Bytes) : Checked (withCrc content) := by
  rw [withCrc, checked_append_iff (length_leBytes 4 _), leNat_crc32]

/-- **A byte that was changed is found**, in the string as in its checksum. -/
theorem not_checked_of_byte {content pre post : Bytes} {b b' : UInt8}
    (h : withCrc content = pre ++ b :: post) (hb : b ≠ b') : ¬ Checked (pre ++ b' :: post) := by
  have hlen := length_leBytes 4 (crc32Ieee content).toNat
  -- a byte of the checksum
  have hcrc : ∀ as, leBytes 4 (crc32Ieee content).toNat = as ++ b :: post →
      ¬ Checked (content ++ (as ++ b' :: post)) := by
    intro as has
    rw [has] at hlen
    rw [checked_append_iff (by simpa using hlen), ← leNat_crc32, has]
    intro heq
    have hsame := leNat_inj (by simp) heq
    rw [append_cancel_left_eq] at hsame
    exact hb (cons.inj hsame).1
  rcases append_eq_append_iff.mp h with ⟨as, rfl, has⟩ | ⟨cs, hcontent, hcs⟩
  · rw [append_assoc]
    exact hcrc as has
  · cases cs with
    | nil =>
      rw [append_nil] at hcontent
      subst hcontent
      exact hcrc [] hcs.symm
    | cons c cs =>
      rw [cons_append] at hcs
      obtain ⟨rfl, rfl⟩ := cons.inj hcs
      rw [← cons_append, ← append_assoc, checked_append_iff hlen, leNat_crc32, hcontent]
      intro heq
      exact crc32Ieee_ne_of_byte pre cs hb.symm (UInt32.toNat_inj.mp heq)

/-- The length is read first. -/
theorem takeLe_sealed {content : Bytes} (h : content.length + 4 < 2 ^ 32) (rest : Bytes) :
    takeLe 4 (sealed content ++ rest) = some (content.length + 4, withCrc content ++ rest) := by
  rw [sealed, append_assoc, length_withCrc, takeLe_of_lt (show _ < 256 ^ 4 from h)]

theorem eq_withCrc {body : Bytes} (h : 4 ≤ body.length) (hcrc : Checked body) :
    body = withCrc (body.take (body.length - 4)) := by
  have hlen : (body.drop (body.length - 4)).length = 4 := by
    rw [length_drop]
    omega
  rw [withCrc, show _ = _ from hcrc, leBytes_leNat hlen, take_append_drop]

/-- **Length and string determine the bytes.** -/
theorem eq_sealed {data rest : Bytes} {k : ℕ} (h : takeLe 4 data = some (k, rest))
    (hk : 4 ≤ k) (hend : k ≤ rest.length) (hcrc : Checked (rest.take k)) :
    data = sealed ((rest.take k).take (k - 4)) ++ rest.drop k := by
  have hlen : (rest.take k).length = k := length_take_of_le hend
  have hbody := eq_withCrc (by rw [hlen]; exact hk) hcrc
  rw [hlen] at hbody
  rw [(eq_of_takeLe h).2, sealed, ← hbody, hlen, append_assoc, take_append_drop]

end TransDb
