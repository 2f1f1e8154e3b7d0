import Mathlib.Algebra.Order.Group.Nat
import Mathlib.Tactic.Common

/-!
# Big-endian numbers

Numbers of a fixed width, the most significant byte first. A number that is too large for its width
loses its upper digits (`fromBigEndian_bigEndian`).
-/

namespace BigEndian

/-- The lowest `width` bytes of a number. -/
def bigEndian : ℕ → ℕ → List UInt8
  | 0, _ => []
  | width + 1, n => UInt8.ofNat (n / 256 ^ width) :: bigEndian width n

/-- The number that some bytes stand for. -/
def fromBigEndian : List UInt8 → ℕ
  | [] => 0
  | b :: bytes => b.toNat * 256 ^ bytes.length + fromBigEndian bytes

/-- Reads a number of this width from the front. -/
def read (width : ℕ) (bytes : List UInt8) : Option (ℕ × List UInt8) :=
  if bytes.length < width then none
  else some (fromBigEndian (bytes.take width), bytes.drop width)

@[simp] theorem length_bigEndian (width n : ℕ) : (bigEndian width n).length = width := by
  induction width with
  | zero => rfl
  | succ width ih => rw [bigEndian, List.length_cons, ih]

theorem fromBigEndian_bigEndian (width n : ℕ) :
    fromBigEndian (bigEndian width n) = n % 256 ^ width := by
  induction width with
  | zero => simp [bigEndian, fromBigEndian, Nat.mod_one]
  | succ width ih =>
    rw [bigEndian, fromBigEndian, ih, length_bigEndian, pow_succ, Nat.mod_mul, UInt8.toNat_ofNat']
    rw [Nat.mul_comm, Nat.add_comm]

theorem fromBigEndian_lt (bytes : List UInt8) : fromBigEndian bytes < 256 ^ bytes.length := by
  induction bytes with
  | nil => simp [fromBigEndian]
  | cons b bytes ih =>
    have hb : b.toNat + 1 ≤ 256 := b.toNat_lt
    calc fromBigEndian (b :: bytes)
      _ < b.toNat * 256 ^ bytes.length + 256 ^ bytes.length := Nat.add_lt_add_left ih _
      _ = (b.toNat + 1) * 256 ^ bytes.length := (Nat.succ_mul _ _).symm
      _ ≤ 256 * 256 ^ bytes.length := Nat.mul_le_mul_right _ hb
      _ = 256 ^ (b :: bytes).length := by rw [List.length_cons, pow_succ, Nat.mul_comm]

theorem lt_of_read {width n : ℕ} {bytes rest : List UInt8} (h : read width bytes = some (n, rest)) :
    n < 256 ^ width := by
  unfold read at h
  split_ifs at h with hlen
  cases h
  have hlt := fromBigEndian_lt (bytes.take width)
  rwa [List.length_take, Nat.min_eq_left (Nat.le_of_not_lt hlen)] at hlt

theorem read_bigEndian (width n : ℕ) (rest : List UInt8) :
    read width (bigEndian width n ++ rest) = some (n % 256 ^ width, rest) := by
  have hlen : ¬ (bigEndian width n ++ rest).length < width := by simp
  rw [read, if_neg hlen, List.take_append_of_le_length (by simp),
    List.take_of_length_le (by simp), List.drop_append_of_le_length (by simp),
    List.drop_of_length_le (by simp), List.nil_append, fromBigEndian_bigEndian]

theorem read_append {width : ℕ} {bytes : List UInt8} (h : width ≤ bytes.length) (rest : List UInt8) :
    read width (bytes ++ rest) = some (fromBigEndian (bytes.take width), bytes.drop width ++ rest) := by
  have hlen : ¬ (bytes ++ rest).length < width := by
    rw [List.length_append]
    omega
  rw [read, if_neg hlen, List.take_append_of_le_length h, List.drop_append_of_le_length h]

/-- The digits above the width make no difference. -/
theorem bigEndian_fromBigEndian (bytes : List UInt8) (n : ℕ) :
    bigEndian bytes.length (n * 256 ^ bytes.length + fromBigEndian bytes) = bytes := by
  induction bytes generalizing n with
  | nil => rfl
  | cons b bytes ih =>
    have hlt := fromBigEndian_lt bytes
    have hpos : 0 < 256 ^ bytes.length := Nat.lt_of_le_of_lt (Nat.zero_le _) hlt
    have hsum : n * 256 ^ (b :: bytes).length + fromBigEndian (b :: bytes) =
        (n * 256 + b.toNat) * 256 ^ bytes.length + fromBigEndian bytes := by
      rw [fromBigEndian, List.length_cons, pow_succ', ← Nat.mul_assoc, ← Nat.add_assoc, ← Nat.add_mul]
    have hhead : ((n * 256 + b.toNat) * 256 ^ bytes.length + fromBigEndian bytes) /
        256 ^ bytes.length = n * 256 + b.toNat := by
      rw [Nat.add_comm, Nat.add_mul_div_right _ _ hpos, Nat.div_eq_of_lt hlt, Nat.zero_add]
    have hbyte : UInt8.ofNat (n * 256 + b.toNat) = b := by
      apply UInt8.toNat_inj.1
      have hb := b.toNat_lt
      rw [UInt8.toNat_ofNat']
      omega
    rw [hsum, List.length_cons, bigEndian, ih, hhead, hbyte]

/-- What is read from the front stands there. -/
theorem eq_of_read {width n : ℕ} {bytes rest : List UInt8} (h : read width bytes = some (n, rest)) :
    bytes = bigEndian width n ++ rest := by
  unfold read at h
  split_ifs at h with hlen
  cases h
  have hwidth : (bytes.take width).length = width := by
    rw [List.length_take, Nat.min_eq_left (Nat.le_of_not_lt hlen)]
  have hfront := bigEndian_fromBigEndian (bytes.take width) 0
  rw [hwidth, Nat.zero_mul, Nat.zero_add] at hfront
  rw [hfront, List.take_append_drop]

end BigEndian
