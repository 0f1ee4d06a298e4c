import Mathlib
import SysBytes.Word

/-!
Byte layouts: reading a little-endian layout back gives the number modulo its width, and a
32-bit integer survives its layout. Slices of a concatenation read one side, and an overwrite
keeps the length and is read byte by byte: the patch where it lies, the old bytes elsewhere.
-/
namespace SysBytes.Word

@[simp] theorem length_encodeLE (width n : Nat) : (encodeLE width n).length = width := by
  induction width generalizing n with
  | zero => rfl
  | succ w ih => simp [encodeLE, ih]

@[simp] theorem length_encodeInt32 (x : Int32) : (encodeInt32 x).length = 4 := by
  simp [encodeInt32]

theorem decodeLE_encodeLE (width n : Nat) : decodeLE (encodeLE width n) = n % 256 ^ width := by
  induction width generalizing n with
  | zero => simp [encodeLE, decodeLE, Nat.mod_one]
  | succ w ih =>
    have low : (n % 256).toUInt8.toNat = n % 256 := by simp [Nat.toUInt8]
    simp only [encodeLE, decodeLE, ih, low]
    rw [Nat.pow_succ, Nat.mul_comm _ 256, Nat.mod_mul]

theorem decodeLE_lt (bytes : List UInt8) : decodeLE bytes < 256 ^ bytes.length := by
  induction bytes with
  | nil => simp [decodeLE]
  | cons b rest ih =>
    have low : b.toNat < 256 := b.toNat_lt
    simp only [decodeLE, List.length_cons, Nat.pow_succ]
    omega

theorem encodeLE_decodeLE (bytes : List UInt8) : encodeLE bytes.length (decodeLE bytes) = bytes := by
  induction bytes with
  | nil => rfl
  | cons b rest ih =>
    have low : b.toNat < 256 := b.toNat_lt
    have digit : (b.toNat + 256 * decodeLE rest) % 256 = b.toNat := by omega
    have shifted : (b.toNat + 256 * decodeLE rest) / 256 = decodeLE rest := by omega
    simp only [List.length_cons, encodeLE, decodeLE, digit, shifted, ih]
    simp

@[simp] theorem length_encodeBE (width n : Nat) : (encodeBE width n).length = width := by
  simp [encodeBE]

theorem decodeBE_encodeBE (width n : Nat) : decodeBE (encodeBE width n) = n % 256 ^ width := by
  rw [decodeBE, encodeBE, List.reverse_reverse, decodeLE_encodeLE]

theorem decodeBE_lt (bytes : List UInt8) : decodeBE bytes < 256 ^ bytes.length := by
  rw [decodeBE, ← List.length_reverse]
  exact decodeLE_lt _

theorem encodeBE_decodeBE (bytes : List UInt8) : encodeBE bytes.length (decodeBE bytes) = bytes := by
  rw [encodeBE, decodeBE, ← List.length_reverse, encodeLE_decodeLE, List.reverse_reverse]

theorem encodeBE_decodeBE_two {bytes : List UInt8} (two : bytes.length = 2) :
    encodeBE 2 (decodeBE bytes).toUInt16.toNat = bytes := by
  have below := decodeBE_lt bytes
  rw [two] at below
  rw [show (decodeBE bytes).toUInt16.toNat = decodeBE bytes from
    UInt16.toNat_ofNat_of_lt' below, ← two, encodeBE_decodeBE]

theorem encodeLE_decodeLE_four {bytes : List UInt8} (four : bytes.length = 4) :
    encodeLE 4 (decodeLE bytes).toUInt32.toNat = bytes := by
  have below := decodeLE_lt bytes
  rw [four] at below
  rw [show (decodeLE bytes).toUInt32.toNat = decodeLE bytes from
    UInt32.toNat_ofNat_of_lt' below, ← four, encodeLE_decodeLE]

@[simp] theorem ofNat_decodeBE_encodeBE (p : UInt16) :
    UInt16.ofNat (decodeBE (encodeBE 2 p.toNat)) = p := by
  have below : p.toNat < 256 ^ 2 := p.toNat_lt
  rw [decodeBE_encodeBE, Nat.mod_eq_of_lt below]
  simp

@[simp] theorem ofNat_decodeLE_encodeLE (x : UInt32) :
    UInt32.ofNat (decodeLE (encodeLE 4 x.toNat)) = x := by
  have below : x.toNat < 256 ^ 4 := x.toNat_lt
  rw [decodeLE_encodeLE, Nat.mod_eq_of_lt below]
  simp

@[simp] theorem decodeInt32_encodeInt32 (x : Int32) : decodeInt32 (encodeInt32 x) = x := by
  simp only [decodeInt32, encodeInt32, decodeLE_encodeLE, bitsOfInt32, int32OfBits]
  have below : x.toUInt32.toNat < 256 ^ 4 := x.toUInt32.toNat_lt
  rw [Nat.mod_eq_of_lt below]
  simp

@[simp] theorem length_slice (bytes : List UInt8) (o n : Nat) :
    (slice bytes o n).length = min n (bytes.length - o) := by
  simp [slice]

theorem slice_append_left {a b : List UInt8} {o n : Nat} (inside : o + n ≤ a.length) :
    slice (a ++ b) o n = slice a o n := by
  simp only [slice, List.drop_append_of_le_length (by omega : o ≤ a.length)]
  rw [List.take_append_of_le_length (by simp; omega)]

theorem slice_append_right {a b : List UInt8} {o n : Nat} (after : a.length ≤ o) :
    slice (a ++ b) o n = slice b (o - a.length) n := by
  simp [slice, List.drop_append, List.drop_eq_nil_of_le after]

theorem slice_whole {a b : List UInt8} (n : Nat) (exact : b.length = n) :
    slice (a ++ b) a.length n = b := by
  rw [slice_append_right (Nat.le_refl _), Nat.sub_self, slice, List.drop_zero,
    List.take_of_length_le (by omega)]

theorem slice_middle {a b c : List UInt8} {o n : Nat} (at_b : o = a.length)
    (count : n = b.length) : slice (a ++ b ++ c) o n = b := by
  rw [at_b, count, List.append_assoc, slice_append_right (Nat.le_refl _), Nat.sub_self, slice,
    List.drop_zero, List.take_left]

theorem slice_last {a b : List UInt8} {o n : Nat} (at_b : o = a.length) (count : n = b.length) :
    slice (a ++ b) o n = b := by
  subst at_b
  exact slice_whole n count.symm

theorem take_add_slice (bytes : List UInt8) (o n : Nat) :
    bytes.take (o + n) = bytes.take o ++ slice bytes o n :=
  List.take_add

@[simp] theorem length_overwrite (bytes patch : List UInt8) (o : Nat) :
    (overwrite bytes o patch).length = bytes.length := by
  simp only [overwrite, List.length_append, List.length_take, List.length_drop]
  omega

theorem getElem?_overwrite (bytes patch : List UInt8) (o i : Nat) :
    (overwrite bytes o patch)[i]? =
      if o ≤ i ∧ i < o + patch.length ∧ i < bytes.length then patch[i - o]? else bytes[i]? := by
  by_cases outside : bytes.length ≤ i
  · rw [if_neg (by omega), List.getElem?_eq_none (by simpa using outside),
      List.getElem?_eq_none outside]
  have kept : (bytes.take o).length = min o bytes.length := List.length_take
  have written : (patch.take (bytes.length - o)).length = min (bytes.length - o) patch.length :=
    List.length_take
  unfold overwrite
  by_cases before : i < o
  · rw [if_neg (by omega), List.getElem?_append_left (by simp; omega),
      List.getElem?_append_left (by omega), List.getElem?_take_of_lt before]
  by_cases within : i < o + patch.length
  · rw [if_pos ⟨by omega, within, by omega⟩, List.getElem?_append_left (by simp; omega),
      List.getElem?_append_right (by omega), kept, List.getElem?_take_of_lt (by omega)]
    congr 1
    omega
  · rw [if_neg (by omega), List.getElem?_append_right (by simp; omega), List.getElem?_drop]
    simp only [List.length_append, kept, written]
    congr 1
    omega

theorem overwrite_zero_of_length {bytes patch : List UInt8} (same : patch.length = bytes.length) :
    overwrite bytes 0 patch = patch := by
  simp [overwrite, same, List.take_of_length_le]

theorem take_overwrite (cells : List UInt8) (o : Nat) (patch : List UInt8)
    (fits : o + patch.length ≤ cells.length) :
    (overwrite cells o patch).take (o + patch.length) = cells.take o ++ patch := by
  have whole : patch.take (cells.length - o) = patch := List.take_of_length_le (by omega)
  have front : (cells.take o).length = o := by simp only [List.length_take]; omega
  rw [overwrite, whole, List.append_assoc, List.take_append, front, Nat.add_sub_cancel_left,
    List.take_left, List.take_of_length_le (by omega)]

theorem take_overwrite_zero {cells p : List UInt8} (room : p.length ≤ cells.length) :
    (overwrite cells 0 p).take p.length = p := by
  simp [overwrite, List.take_of_length_le room]

end SysBytes.Word
