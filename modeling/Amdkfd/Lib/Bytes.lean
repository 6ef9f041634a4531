import Mathlib.Data.UInt

/-!
# Little-endian fields

Numbers as fields of a packed structure: a field of `n` bytes is the number modulo
`256 ^ n`, with its lowest byte first. A structure is the concatenation of its fields, and a
field is read at its offset.
-/

namespace Amdkfd.Lib

open List

/-- The `n` bytes of a field with the value `v`. -/
def toBytes : Nat → Nat → List UInt8
  | 0, _ => []
  | n + 1, v => UInt8.ofNat v :: toBytes n (v / 256)

def ofBytes : List UInt8 → Nat
  | [] => 0
  | b :: bs => b.toNat + 256 * ofBytes bs

/-- The value of the field of `n` bytes at `off`. -/
def readAt (bytes : List UInt8) (off n : Nat) : Nat :=
  ofBytes ((bytes.drop off).take n)

@[simp] theorem length_toBytes (n v : Nat) : (toBytes n v).length = n := by
  induction n generalizing v with
  | zero => rfl
  | succ n ih => rw [toBytes, length_cons, ih]

theorem ofBytes_toBytes (n v : Nat) : ofBytes (toBytes n v) = v % 256 ^ n := by
  induction n generalizing v with
  | zero => rw [pow_zero, Nat.mod_one]; rfl
  | succ n ih =>
    rw [toBytes, ofBytes, ih, UInt8.toNat_ofNat']
    show v % 256 + 256 * (v / 256 % 256 ^ n) = v % 256 ^ (n + 1)
    rw [Nat.pow_succ', Nat.mod_mul]

theorem ofBytes_lt (bytes : List UInt8) : ofBytes bytes < 256 ^ bytes.length := by
  induction bytes with
  | nil => exact Nat.one_pos
  | cons b bytes ih =>
    rw [ofBytes, length_cons, Nat.pow_succ]
    have := b.toNat_lt
    omega

theorem readAt_lt (bytes : List UInt8) (off n : Nat) : readAt bytes off n < 256 ^ n := by
  have hlen : ((bytes.drop off).take n).length ≤ n := length_take_le ..
  exact (ofBytes_lt _).trans_le (Nat.pow_le_pow_right (by decide) hlen)

theorem readAt_append (pre bytes : List UInt8) (off n : Nat) :
    readAt (pre ++ bytes) (pre.length + off) n = readAt bytes off n := by
  rw [readAt, readAt, drop_append, drop_eq_nil_of_le (Nat.le_add_right _ _),
    nil_append, Nat.add_sub_cancel_left]

theorem readAt_append_left {bytes : List UInt8} {off n : Nat} (h : off + n ≤ bytes.length)
    (rest : List UInt8) : readAt (bytes ++ rest) off n = readAt bytes off n := by
  rw [readAt, readAt, drop_append_of_le_length (by omega), take_append_of_le_length]
  rw [length_drop]
  omega

@[simp] theorem readAt_field (n v : Nat) (rest : List UInt8) :
    readAt (toBytes n v ++ rest) 0 n = v % 256 ^ n := by
  have htake : (toBytes n v ++ rest).take n = toBytes n v := by
    rw [take_append_of_le_length (Nat.le_of_eq (length_toBytes n v).symm)]
    exact take_of_length_le (Nat.le_of_eq (length_toBytes n v))
  rw [readAt, drop_zero, htake, ofBytes_toBytes]

theorem readAt_skip {m off : Nat} (h : m ≤ off) (v n : Nat) (rest : List UInt8) :
    readAt (toBytes m v ++ rest) off n = readAt rest (off - m) n := by
  have hoff : off = (toBytes m v).length + (off - m) := by
    rw [length_toBytes]
    omega
  conv_lhs => rw [hoff]
  exact readAt_append ..

end Amdkfd.Lib
