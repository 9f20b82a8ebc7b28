import Mathlib.Data.Nat.Digits.Lemmas

/-!
# Little-endian byte strings

`LittleEndian.toNat` reads a byte string as a number, least significant byte first, and
`LittleEndian.ofNat w` writes a number in `w` bytes. Writing truncates to `256 ^ w`;
below that bound the two are inverse to each other.
-/

namespace LittleEndian

/-- The number a byte string denotes. -/
def toNat (bytes : List UInt8) : ℕ := Nat.ofDigits 256 (bytes.map UInt8.toNat)

/-- The `w` low bytes of `n`. -/
def ofNat : ℕ → ℕ → List UInt8
  | 0, _ => []
  | w + 1, n => UInt8.ofNat n :: ofNat w (n / 256)

@[simp] theorem toNat_nil : toNat [] = 0 := rfl

@[simp] theorem toNat_cons (b : UInt8) (bytes : List UInt8) :
    toNat (b :: bytes) = b.toNat + 256 * toNat bytes := by
  simp [toNat, Nat.ofDigits_cons]

theorem toNat_append (as bs : List UInt8) :
    toNat (as ++ bs) = toNat as + 256 ^ as.length * toNat bs := by
  simp [toNat, Nat.ofDigits_append]

theorem toNat_lt (bytes : List UInt8) : toNat bytes < 256 ^ bytes.length := by
  induction bytes with
  | nil => simp
  | cons b bytes ih =>
    have hb : b.toNat < 256 := b.toNat_lt
    rw [toNat_cons, List.length_cons, pow_succ]
    omega

@[simp] theorem length_ofNat (w n : ℕ) : (ofNat w n).length = w := by
  induction w generalizing n with
  | zero => rfl
  | succ w ih => rw [ofNat, List.length_cons, ih]

/-- The first bytes of a number are its low bytes. -/
theorem take_ofNat {k w : ℕ} (h : k ≤ w) (n : ℕ) : (ofNat w n).take k = ofNat k n := by
  induction k generalizing w n with
  | zero => rfl
  | succ k ih =>
    obtain ⟨w, rfl⟩ : ∃ w', w = w' + 1 := ⟨w - 1, by omega⟩
    rw [ofNat, List.take_succ_cons, ih (by omega), ofNat]

/-- Reading back what was written. -/
theorem toNat_ofNat (w n : ℕ) : toNat (ofNat w n) = n % 256 ^ w := by
  induction w generalizing n with
  | zero => simp [ofNat, Nat.mod_one]
  | succ w ih =>
    rw [ofNat, toNat_cons, ih, pow_succ, Nat.mul_comm (256 ^ w) 256, Nat.mod_mul]
    simp

theorem toNat_ofNat_of_lt {w n : ℕ} (h : n < 256 ^ w) : toNat (ofNat w n) = n := by
  rw [toNat_ofNat, Nat.mod_eq_of_lt h]

/-- Writing back what was read. -/
theorem ofNat_toNat (bytes : List UInt8) : ofNat bytes.length (toNat bytes) = bytes := by
  induction bytes with
  | nil => rfl
  | cons b bytes ih =>
    have hb : b.toNat < 256 := b.toNat_lt
    have hhead : UInt8.ofNat (b.toNat + 256 * toNat bytes) = b := by
      apply UInt8.toNat_inj.mp
      simp
    have htail : (b.toNat + 256 * toNat bytes) / 256 = toNat bytes := by omega
    rw [toNat_cons, List.length_cons, ofNat, hhead, htail, ih]

end LittleEndian

/-! ### Slices and machine words -/

/-- Byte `i` of a byte string that is known to be long enough. -/
def byteAt (bytes : List UInt8) (i : ℕ) : UInt8 := bytes.getD i 0

/-- `bytes[start..stop]` -/
def slice (bytes : List UInt8) (start stop : ℕ) : List UInt8 := (bytes.take stop).drop start

/-- `u16::from_le_bytes` -/
def u16FromLe (bytes : List UInt8) : UInt16 := UInt16.ofNat (LittleEndian.toNat bytes)

/-- `u32::from_le_bytes` -/
def u32FromLe (bytes : List UInt8) : UInt32 := UInt32.ofNat (LittleEndian.toNat bytes)

/-- `u64::from_le_bytes` -/
def u64FromLe (bytes : List UInt8) : UInt64 := UInt64.ofNat (LittleEndian.toNat bytes)

/-- `u32::to_le_bytes` -/
def u32ToLe (value : UInt32) : List UInt8 := LittleEndian.ofNat 4 value.toNat

theorem u32FromLe_toNat {bytes : List UInt8} (h : bytes.length = 4) :
    (u32FromLe bytes).toNat = LittleEndian.toNat bytes := by
  have hlt := LittleEndian.toNat_lt bytes
  rw [h] at hlt
  exact UInt32.toNat_ofNat_of_lt' (by simpa using hlt)

theorem u32ToLe_length (value : UInt32) : (u32ToLe value).length = 4 :=
  LittleEndian.length_ofNat 4 _

theorem u32FromLe_u32ToLe (value : UInt32) : u32FromLe (u32ToLe value) = value := by
  apply UInt32.toNat_inj.mp
  have hlt : value.toNat < 256 ^ 4 := value.toNat_lt
  rw [u32FromLe_toNat (u32ToLe_length value), u32ToLe, LittleEndian.toNat_ofNat_of_lt hlt]

theorem u32ToLe_u32FromLe {bytes : List UInt8} (h : bytes.length = 4) :
    u32ToLe (u32FromLe bytes) = bytes := by
  rw [u32ToLe, u32FromLe_toNat h, ← h, LittleEndian.ofNat_toNat]

theorem u16FromLe_ofNat (value : UInt16) :
    u16FromLe (LittleEndian.ofNat 2 value.toNat) = value := by
  rw [u16FromLe, LittleEndian.toNat_ofNat_of_lt (show value.toNat < 256 ^ 2 from value.toNat_lt)]
  exact UInt16.ofNat_toNat

theorem ofNat_u16FromLe {bytes : List UInt8} (h : bytes.length = 2) :
    LittleEndian.ofNat 2 (u16FromLe bytes).toNat = bytes := by
  have hlt := LittleEndian.toNat_lt bytes
  rw [h] at hlt
  rw [u16FromLe, UInt16.toNat_ofNat_of_lt' hlt, ← h, LittleEndian.ofNat_toNat]

/-- Two words side by side read as one number. -/
theorem u64FromLe_words (lo hi : UInt32) :
    (u64FromLe (u32ToLe lo ++ u32ToLe hi)).toNat = lo.toNat + 2 ^ 32 * hi.toNat := by
  have hlo : lo.toNat < 256 ^ 4 := lo.toNat_lt
  have hhi : hi.toNat < 256 ^ 4 := hi.toNat_lt
  have hvalue : LittleEndian.toNat (u32ToLe lo ++ u32ToLe hi) = lo.toNat + 2 ^ 32 * hi.toNat := by
    rw [LittleEndian.toNat_append, u32ToLe_length, u32ToLe, u32ToLe,
      LittleEndian.toNat_ofNat_of_lt hlo, LittleEndian.toNat_ofNat_of_lt hhi]
    rfl
  rw [u64FromLe, hvalue]
  exact UInt64.toNat_ofNat_of_lt' (by simp only [UInt64.size]; omega)
