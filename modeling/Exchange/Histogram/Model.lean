import Exchange.Core.LogLinear
import Mathlib.Algebra.BigOperators.Pi
import Mathlib.Algebra.Order.Floor.Semiring
import Mathlib.Data.Fintype.BigOperators
import Mathlib.Data.Rat.Floor
import Mathlib.Data.UInt

/-!
# The latency histogram

`LatencyHistogram` of `utils/histogram.hpp`.  A value is counted in a bucket: below 128 each value
has its own, and from there on sixteen share a power of two, as in `LogLinear` with `n = 7` and
`s = 4`.  But there are only 256 buckets, and the last of them takes whatever is left
(`valueToBucket_eq`).

Counts and sums are `uint64_t`, and addition wraps.  The `double` that `percentile` multiplies with
is an exact rational number here, which is what it is as long as the count is far below `2 ^ 53`.

A `LatencyHistogram` carries what `record` and `merge` keep: the minimum starts at `MAX_VALUE`, and
the counts of the buckets add up to the count.
-/

namespace Exchange

open Function (update)

namespace LatencyHistogram

def NUM_BUCKETS : Nat := 256

/-- One nanosecond. -/
def MIN_VALUE : UInt64 := 1

/-- One second. -/
def MAX_VALUE : UInt64 := 1000000000

/-! ## Buckets -/

/-- `63 - __builtin_clzll(value)` is the logarithm to base two. -/
def valueToBucket (value : UInt64) : Nat :=
  if value < 128 then value.toNat
  else if value ≥ MAX_VALUE then NUM_BUCKETS - 1
  else
    let log := value.toNat.log2
    let bucket := 128 + (log - 7) * 16 + ((value.toNat >>> (log - 4)) &&& 0xF)
    min bucket (NUM_BUCKETS - 1)

def bucketToValue (bucket : Nat) : UInt64 :=
  if bucket < 128 then .ofNat bucket
  else if bucket ≥ NUM_BUCKETS then MAX_VALUE
  else
    let log := 7 + (bucket - 128) / 16
    let frac := (bucket - 128) % 16
    .ofNat ((1 <<< log) + (frac <<< (log - 4)))

def bucketBoundaries : List UInt64 := (List.range (NUM_BUCKETS + 1)).map bucketToValue

variable {v w : UInt64} {b c : Nat}

/-- The last bucket begins where the numbers have run out. -/
lemma lower_last : LogLinear.lower 7 4 (NUM_BUCKETS - 1) = 31744 := rfl

/-- **A value is in its log-linear bucket, or in the last one.** -/
lemma valueToBucket_eq (v : UInt64) :
    valueToBucket v = min (LogLinear.index 7 4 v.toNat) (NUM_BUCKETS - 1) := by
  have hmax : MAX_VALUE.toNat = 1000000000 := rfl
  rw [valueToBucket]
  split_ifs with hlinear hover
  · have hv : v.toNat < 2 ^ 7 := UInt64.lt_iff_toNat_lt.mp hlinear
    rw [LogLinear.index, if_pos hv, NUM_BUCKETS]
    omega
  · have hv : 1000000000 ≤ v.toNat := hmax ▸ UInt64.le_iff_toNat_le.mp hover
    have hlast : NUM_BUCKETS - 1 ≤ LogLinear.index 7 4 v.toNat :=
      (LogLinear.lower_le_iff (by decide)).mp (by rw [lower_last]; omega)
    exact (Nat.min_eq_right hlast).symm
  · have hv : ¬ v.toNat < 2 ^ 7 := fun hlt => hlinear (UInt64.lt_iff_toNat_lt.mpr hlt)
    have hmask : v.toNat >>> (v.toNat.log2 - 4) &&& 0xF
        = v.toNat / 2 ^ (v.toNat.log2 - 4) % 2 ^ 4 := by
      rw [Nat.shiftRight_eq_div_pow]
      exact Nat.and_two_pow_sub_one_eq_mod _ 4
    rw [LogLinear.index, if_neg hv, ← hmask]
    rfl

lemma valueToBucket_lt (v : UInt64) : valueToBucket v < NUM_BUCKETS := by
  rw [valueToBucket_eq]
  exact Nat.lt_of_le_of_lt (Nat.min_le_right _ _) (by decide)

lemma lower_lt (hb : b < NUM_BUCKETS) : LogLinear.lower 7 4 b < 32768 :=
  LogLinear.lower_strictMono (by decide) hb

/-- Where a bucket of the histogram begins. -/
lemma toNat_bucketToValue (hb : b < NUM_BUCKETS) :
    (bucketToValue b).toNat = LogLinear.lower 7 4 b := by
  have hbound := lower_lt hb
  rw [bucketToValue]
  split_ifs with hlinear hover
  · rw [LogLinear.lower_of_lt hlinear, UInt64.toNat_ofNat', Nat.mod_eq_of_lt (by omega)]
  · exact absurd hb (Nat.not_lt.mpr hover)
  · have hlower : LogLinear.lower 7 4 b
        = (2 ^ 4 + (b - 128) % 16) * 2 ^ (3 + (b - 128) / 16) := if_neg hlinear
    have hwidth : 7 + (b - 128) / 16 - 4 = 3 + (b - 128) / 16 := by omega
    have hpow : 2 ^ (7 + (b - 128) / 16) = 2 ^ 4 * 2 ^ (3 + (b - 128) / 16) := by
      rw [← Nat.pow_add]
      congr 1
      omega
    have hparts : (1 <<< (7 + (b - 128) / 16)) + ((b - 128) % 16) <<< (7 + (b - 128) / 16 - 4)
        = LogLinear.lower 7 4 b := by
      rw [Nat.shiftLeft_eq, Nat.shiftLeft_eq, Nat.one_mul, hwidth, hpow, hlower, Nat.add_mul]
    dsimp only
    rw [hparts, UInt64.toNat_ofNat', Nat.mod_eq_of_lt (by omega)]

end LatencyHistogram

open LatencyHistogram (NUM_BUCKETS MAX_VALUE valueToBucket valueToBucket_lt bucketToValue)

/-- The members of the class. -/
structure LatencyHistogram where
  count : UInt64
  sum : UInt64
  min : UInt64
  max : UInt64
  buckets : Fin NUM_BUCKETS → UInt64
  min_le : min ≤ MAX_VALUE
  count_eq : ∑ i, buckets i = count

namespace LatencyHistogram

/-- The invariants add nothing to what a histogram is. -/
lemma ext {h h' : LatencyHistogram} (hcount : h.count = h'.count) (hsum : h.sum = h'.sum)
    (hmin : h.min = h'.min) (hmax : h.max = h'.max) (hbuckets : h.buckets = h'.buckets) :
    h = h' := by
  cases h
  cases h'
  cases hcount
  cases hsum
  cases hmin
  cases hmax
  cases hbuckets
  rfl

lemma toNat_min (v w : UInt64) : (Min.min v w).toNat = Min.min v.toNat w.toNat := by
  rw [show Min.min v w = if v ≤ w then v else w from rfl, Nat.min_def]
  simp only [UInt64.le_iff_toNat_le]
  split_ifs <;> rfl

lemma toNat_max (v w : UInt64) : (Max.max v w).toNat = Max.max v.toNat w.toNat := by
  rw [show Max.max v w = if v ≤ w then w else v from rfl, Nat.max_def]
  simp only [UInt64.le_iff_toNat_le]
  split_ifs <;> rfl

/-- A minimum that is not above `MAX_VALUE` stays there. -/
lemma min_le_max_value {v : UInt64} (hv : v ≤ MAX_VALUE) (w : UInt64) :
    Min.min v w ≤ MAX_VALUE := by
  rw [UInt64.le_iff_toNat_le] at hv ⊢
  rw [toNat_min]
  exact Nat.le_trans (Nat.min_le_left _ _) hv

/-- One bucket counts one more. -/
lemma sum_update (buckets : Fin NUM_BUCKETS → UInt64) (i : Fin NUM_BUCKETS) :
    ∑ j, update buckets i (buckets i + 1) j = ∑ j, buckets j + 1 := by
  rw [Finset.sum_update_of_mem (Finset.mem_univ i),
    Finset.sum_eq_add_sum_sdiff_singleton_of_mem (Finset.mem_univ i), UInt64.add_assoc,
    UInt64.add_comm 1, ← UInt64.add_assoc]

variable (h : LatencyHistogram)

/-! ## The functions of the class -/

/-- The bucket of a value, as an index. -/
def bucketOf (value : UInt64) : Fin NUM_BUCKETS := ⟨valueToBucket value, valueToBucket_lt value⟩

def reset : LatencyHistogram where
  count := 0
  sum := 0
  min := MAX_VALUE
  max := 0
  buckets := fun _ => 0
  min_le := UInt64.le_refl _
  count_eq := Finset.sum_const_zero

def record (value : UInt64) : LatencyHistogram where
  count := h.count + 1
  sum := h.sum + value
  min := Min.min h.min value
  max := Max.max h.max value
  buckets := update h.buckets (bucketOf value) (h.buckets (bucketOf value) + 1)
  min_le := min_le_max_value h.min_le value
  count_eq := by rw [sum_update, h.count_eq]

/-- The scan of `percentile` over the buckets. -/
def firstReaching (target : UInt64) : UInt64 → List (Fin NUM_BUCKETS) → Option (Fin NUM_BUCKETS)
  | _, [] => none
  | cumulative, i :: is =>
      let cumulative := cumulative + h.buckets i
      if cumulative ≥ target then some i else firstReaching target cumulative is

def percentile (p : ℚ) : UInt64 :=
  if h.count = 0 then 0
  else
    let target := UInt64.ofNat ⌊(h.count.toNat : ℚ) * p / 100⌋₊
    match h.firstReaching target 0 (List.finRange NUM_BUCKETS) with
    | some i => bucketToValue i
    | none => h.max

/-- What `min()` returns. -/
def minimum : UInt64 := if h.count > 0 then h.min else 0

def merge (other : LatencyHistogram) : LatencyHistogram where
  count := h.count + other.count
  sum := h.sum + other.sum
  min := Min.min h.min other.min
  max := Max.max h.max other.max
  buckets := fun i => h.buckets i + other.buckets i
  min_le := min_le_max_value h.min_le other.min
  count_eq := by rw [Finset.sum_add_distrib, h.count_eq, other.count_eq]

/-- A histogram that has recorded the values. -/
def recorded (values : List UInt64) : LatencyHistogram := values.foldl record reset

end LatencyHistogram

end Exchange
