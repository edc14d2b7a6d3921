import Mathlib.Data.UInt
import Mathlib.Algebra.Order.Ring.Nat

/-!
Fixed-width unsigned integers in memory, least significant byte first: the layout that
a raw read or write of such an object puts on the wire.
-/

set_option autoImplicit false

namespace TransmissionPlatform.LittleEndian

def bytes : Nat → Nat → List UInt8
  | 0, _ => []
  | k + 1, n => UInt8.ofNat n :: bytes k (n / 256)

def value : List UInt8 → Nat
  | [] => 0
  | b :: bs => b.toNat + 256 * value bs

@[simp] theorem bytes_length (k n : Nat) : (bytes k n).length = k := by
  induction k generalizing n with
  | zero => rfl
  | succ k ih => simp [bytes, ih]

theorem value_bytes (k n : Nat) : value (bytes k n) = n % 256 ^ k := by
  induction k generalizing n with
  | zero => simp [bytes, value, Nat.mod_one]
  | succ k ih =>
    have low : (UInt8.ofNat n).toNat = n % 256 := by simp
    have split : n % (256 * 256 ^ k) = n % 256 + 256 * (n / 256 % 256 ^ k) := Nat.mod_mul
    rw [bytes, value, ih, low, Nat.pow_succ']
    omega

theorem value_bytes_of_lt {k n : Nat} (h : n < 256 ^ k) : value (bytes k n) = n := by
  rw [value_bytes, Nat.mod_eq_of_lt h]

theorem value_lt (bs : List UInt8) : value bs < 256 ^ bs.length := by
  induction bs with
  | nil => simp [value]
  | cons b bs ih =>
    have hb := b.toNat_lt
    rw [value, List.length_cons, Nat.pow_succ]
    omega

theorem bytes_value (bs : List UInt8) : bytes bs.length (value bs) = bs := by
  induction bs with
  | nil => rfl
  | cons b bs ih =>
    have hb : b.toNat < 256 := b.toNat_lt
    have hdiv : (b.toNat + 256 * value bs) / 256 = value bs := by omega
    rw [List.length_cons, bytes, value, hdiv, ih]
    congr 1
    apply UInt8.toNat_inj.mp
    rw [UInt8.toNat_ofNat']
    omega

def ofUInt32 (n : UInt32) : List UInt8 := bytes 4 n.toNat

def toUInt32 (bs : List UInt8) : UInt32 := UInt32.ofNat (value bs)

def ofUInt64 (n : UInt64) : List UInt8 := bytes 8 n.toNat

def toUInt64 (bs : List UInt8) : UInt64 := UInt64.ofNat (value bs)

@[simp] theorem ofUInt32_length (n : UInt32) : (ofUInt32 n).length = 4 := bytes_length 4 _

@[simp] theorem ofUInt64_length (n : UInt64) : (ofUInt64 n).length = 8 := bytes_length 8 _

@[simp] theorem toUInt32_ofUInt32 (n : UInt32) : toUInt32 (ofUInt32 n) = n := by
  have h : n.toNat < 256 ^ 4 := n.toNat_lt
  rw [toUInt32, ofUInt32, value_bytes_of_lt h, UInt32.ofNat_toNat]

@[simp] theorem toUInt64_ofUInt64 (n : UInt64) : toUInt64 (ofUInt64 n) = n := by
  have h : n.toNat < 256 ^ 8 := n.toNat_lt
  rw [toUInt64, ofUInt64, value_bytes_of_lt h, UInt64.ofNat_toNat]

theorem ofUInt32_toUInt32 {bs : List UInt8} (h : bs.length = 4) : ofUInt32 (toUInt32 bs) = bs := by
  have hlt : value bs < 2 ^ 32 := by
    have := value_lt bs
    rw [h] at this
    exact this
  rw [ofUInt32, toUInt32, UInt32.toNat_ofNat_of_lt' hlt, ← h]
  exact bytes_value bs

theorem ofUInt64_toUInt64 {bs : List UInt8} (h : bs.length = 8) : ofUInt64 (toUInt64 bs) = bs := by
  have hlt : value bs < 2 ^ 64 := by
    have := value_lt bs
    rw [h] at this
    exact this
  rw [ofUInt64, toUInt64, UInt64.toNat_ofNat_of_lt' hlt, ← h]
  exact bytes_value bs

end TransmissionPlatform.LittleEndian
