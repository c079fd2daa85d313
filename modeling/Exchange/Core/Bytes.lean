import Mathlib.Algebra.Ring.Nat
import Mathlib.Data.List.Basic

/-!
# Little-endian bytes

Unsigned integers as byte lists, least significant byte first, and records as byte lists with fields
at fixed offsets.

* `ofLE_toLE` — decoding undoes encoding;
* `slice_append_left`, `slice_append_right` — how a field is found in a record that is written as
  one piece after the other.

`getU64` and its like read a field at an offset; where the record is too short they read zeros.
-/

namespace Exchange.Bytes

/-! ## Integers -/

/-- The `n` low bytes of a number. -/
def toLE : Nat → Nat → List UInt8
  | 0, _ => []
  | n + 1, x => UInt8.ofNat x :: toLE n (x / 256)

def ofLE : List UInt8 → Nat
  | [] => 0
  | b :: bs => b.toNat + 256 * ofLE bs

@[simp] theorem length_toLE (n x : Nat) : (toLE n x).length = n := by
  induction n generalizing x with
  | zero => rfl
  | succ n ih => rw [toLE, List.length_cons, ih]

theorem ofLE_toLE {n x : Nat} (h : x < 256 ^ n) : ofLE (toLE n x) = x := by
  induction n generalizing x with
  | zero =>
      rw [Nat.pow_zero, Nat.lt_one_iff] at h
      rw [h]
      rfl
  | succ n ih =>
      have hdiv : x / 256 < 256 ^ n := by
        rw [Nat.div_lt_iff_lt_mul (by decide), ← Nat.pow_succ]
        exact h
      rw [toLE, ofLE, ih hdiv, UInt8.toNat_ofNat']
      omega

/-! ## Fields -/

variable {α : Type} {xs ys : List α} {off n : Nat}

/-- The `n` bytes at an offset. -/
def slice (off n : Nat) (xs : List α) : List α := (xs.drop off).take n

theorem slice_append_left (h : xs.length = n) : slice 0 n (xs ++ ys) = xs := by
  rw [slice, List.drop_zero, List.take_left' h]

theorem slice_append_right (h : xs.length ≤ off) :
    slice off n (xs ++ ys) = slice (off - xs.length) n ys := by
  rw [slice, slice, List.drop_append, List.drop_of_length_le h, List.nil_append]

theorem slice_cons_succ (x : α) : slice (off + 1) n (x :: xs) = slice off n xs := rfl

theorem slice_cons_one (x : α) : slice 0 1 (x :: xs) = [x] := by
  rw [slice, List.drop_zero, List.take_succ_cons, List.take_zero]

/-- The field that ends a record. -/
theorem slice_self (h : xs.length = n) : slice 0 n xs = xs := by
  rw [slice, List.drop_zero, List.take_of_length_le (Nat.le_of_eq h)]

/-- The first `n` bytes, as a vector. -/
def toVector (n : Nat) (bs : List UInt8) : Vector UInt8 n := Vector.ofFn fun i => bs[i]?.getD 0

@[simp] theorem toVector_toList (v : Vector UInt8 n) : toVector n v.toList = v := by
  apply Vector.ext
  intro i hi
  simp [toVector]

/-! ## Fields of fixed width -/

def putU32 (x : UInt32) : List UInt8 := toLE 4 x.toNat

def putU64 (x : UInt64) : List UInt8 := toLE 8 x.toNat

def getU8 (off : Nat) (bs : List UInt8) : UInt8 := (slice off 1 bs).headD 0

def getU32 (off : Nat) (bs : List UInt8) : UInt32 := .ofNat (ofLE (slice off 4 bs))

def getU64 (off : Nat) (bs : List UInt8) : UInt64 := .ofNat (ofLE (slice off 8 bs))

@[simp] theorem length_putU32 (x : UInt32) : (putU32 x).length = 4 := length_toLE 4 _

@[simp] theorem length_putU64 (x : UInt64) : (putU64 x).length = 8 := length_toLE 8 _

theorem getU8_of_slice {bs : List UInt8} {x : UInt8} (h : slice off 1 bs = [x]) :
    getU8 off bs = x := by
  rw [getU8, h]
  rfl

theorem getU32_of_slice {bs : List UInt8} {x : UInt32} (h : slice off 4 bs = putU32 x) :
    getU32 off bs = x := by
  rw [getU32, h, putU32, ofLE_toLE x.toNat_lt, UInt32.ofNat_toNat]

theorem getU64_of_slice {bs : List UInt8} {x : UInt64} (h : slice off 8 bs = putU64 x) :
    getU64 off bs = x := by
  rw [getU64, h, putU64, ofLE_toLE x.toNat_lt, UInt64.ofNat_toNat]

end Exchange.Bytes
