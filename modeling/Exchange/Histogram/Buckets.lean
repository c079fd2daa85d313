import Exchange.Histogram.Model
import Mathlib.Algebra.Order.Ring.Rat
import Mathlib.Tactic.Linarith

/-!
# The buckets of the latency histogram

**`buckets_consistent`** — `value_to_bucket` and `bucket_to_value` are computed apart from each
other, and they fit: the boundaries go up, and a value below `MAX_VALUE` is counted in the bucket
whose boundaries it is between.

**`bucket_error_iff`** — what is reported for a value is within a sixteenth of it just as long as
the value is at most 33860.  The sixteen buckets for each power of two come to an end at `2 ^ 15`;
everything beyond, be it a tenth of a second, is reported as 31744.
-/

namespace Exchange.LatencyHistogram

variable {v w : UInt64} {b c : Nat}

lemma valueToBucket_mono (hvw : v ≤ w) : valueToBucket v ≤ valueToBucket w := by
  rw [valueToBucket_eq, valueToBucket_eq]
  have hindex := LogLinear.index_mono (n := 7) (s := 4) (by decide) (UInt64.le_iff_toNat_le.mp hvw)
  omega

lemma bucketToValue_last : bucketToValue NUM_BUCKETS = MAX_VALUE := rfl

lemma bucketToValue_strictMono (hbc : b < c) (hc : c ≤ NUM_BUCKETS) :
    bucketToValue b < bucketToValue c := by
  have hb : b < NUM_BUCKETS := Nat.lt_of_lt_of_le hbc hc
  rw [UInt64.lt_iff_toNat_lt, toNat_bucketToValue hb]
  rcases Nat.lt_or_eq_of_le hc with hc | rfl
  · rw [toNat_bucketToValue hc]
    exact LogLinear.lower_strictMono (by decide) hbc
  · exact Nat.lt_trans (lower_lt hb) (by decide)

lemma bucketToValue_mono (hbc : b ≤ c) (hc : c ≤ NUM_BUCKETS) :
    bucketToValue b ≤ bucketToValue c := by
  rcases Nat.lt_or_eq_of_le hbc with hlt | rfl
  · exact UInt64.le_of_lt (bucketToValue_strictMono hlt hc)
  · exact UInt64.le_refl _

lemma bucketToValue_inj (hb : b ≤ NUM_BUCKETS) (hc : c ≤ NUM_BUCKETS)
    (heq : bucketToValue b = bucketToValue c) : b = c := by
  rcases Nat.lt_trichotomy b c with hlt | heq' | hlt
  · exact absurd (heq ▸ bucketToValue_strictMono hlt hc) (UInt64.lt_irrefl _)
  · exact heq'
  · exact absurd (heq ▸ bucketToValue_strictMono hlt hb) (UInt64.lt_irrefl _)

/-- A bucket begins at or below a value just if the value is in it or beyond it. -/
lemma bucketToValue_le_iff (hb : b < NUM_BUCKETS) : bucketToValue b ≤ v ↔ b ≤ valueToBucket v := by
  rw [UInt64.le_iff_toNat_le, toNat_bucketToValue hb, LogLinear.lower_le_iff (by decide),
    valueToBucket_eq]
  omega

/-- Only zero is counted in the first bucket. -/
lemma valueToBucket_eq_zero : valueToBucket v = 0 ↔ v = 0 := by
  have hone : bucketToValue 1 ≤ v ↔ 1 ≤ valueToBucket v := bucketToValue_le_iff (by decide)
  rw [UInt64.le_iff_toNat_le, show (bucketToValue 1).toNat = 1 from rfl] at hone
  rw [← UInt64.toNat_inj, show (0 : UInt64).toNat = 0 from rfl]
  omega

/-- The interval of a bucket. -/
lemma valueToBucket_eq_iff (hv : v < MAX_VALUE) (hb : b < NUM_BUCKETS) :
    valueToBucket v = b ↔ bucketToValue b ≤ v ∧ v < bucketToValue (b + 1) := by
  rw [bucketToValue_le_iff hb]
  rcases Nat.lt_or_eq_of_le (Nat.succ_le_iff.mpr hb) with hnext | hlast
  · rw [← UInt64.not_le, bucketToValue_le_iff hnext]
    omega
  · have hend : bucketToValue (b + 1) = MAX_VALUE := by
      rw [show b + 1 = NUM_BUCKETS from hlast, bucketToValue_last]
    have hlt := valueToBucket_lt v
    rw [hend]
    constructor
    · exact fun heq => ⟨Nat.le_of_eq heq.symm, hv⟩
    · exact fun hle => by omega

lemma getElem?_bucketBoundaries (hb : b ≤ NUM_BUCKETS) :
    bucketBoundaries[b]? = some (bucketToValue b) := by
  rw [bucketBoundaries, List.getElem?_map, List.getElem?_range (Nat.lt_succ_of_le hb)]
  rfl

/-- **Index and boundaries are consistent.** -/
theorem buckets_consistent :
    (∀ v, valueToBucket v < NUM_BUCKETS) ∧
    (∀ v w, v ≤ w → valueToBucket v ≤ valueToBucket w) ∧
    (∀ b c, b < c → c ≤ NUM_BUCKETS → bucketToValue b < bucketToValue c) ∧
    (∀ v < MAX_VALUE, bucketToValue (valueToBucket v) ≤ v ∧
      v < bucketToValue (valueToBucket v + 1)) ∧
    bucketBoundaries.length = NUM_BUCKETS + 1 ∧
    ∀ (h : LatencyHistogram) (i : Fin NUM_BUCKETS), ∃ low high,
      bucketBoundaries[i.val]? = some low ∧ bucketBoundaries[i.val + 1]? = some high ∧
      ∀ v < MAX_VALUE, (h.record v).buckets i
        = h.buckets i + if low ≤ v ∧ v < high then 1 else 0 := by
  refine ⟨valueToBucket_lt, fun _ _ => valueToBucket_mono, fun _ _ => bucketToValue_strictMono,
    fun v hv => (valueToBucket_eq_iff hv (valueToBucket_lt v)).mp rfl, ?_, fun h i => ?_⟩
  · rw [bucketBoundaries, List.length_map, List.length_range]
  · refine ⟨_, _, getElem?_bucketBoundaries i.isLt.le, getElem?_bucketBoundaries i.isLt,
      fun v hv => ?_⟩
    simp only [← valueToBucket_eq_iff hv i.isLt]
    by_cases hi : valueToBucket v = i.val
    · have hbucket : bucketOf v = i := Fin.ext hi
      rw [if_pos hi, ← hbucket]
      exact Function.update_self ..
    · have hbucket : i ≠ bucketOf v := fun heq => hi (congrArg Fin.val heq).symm
      rw [if_neg hi, UInt64.add_zero]
      exact Function.update_of_ne hbucket _ _

/-! ## The error -/

/-- An error of at most a sixteenth, in whole numbers. -/
lemma sub_div_le_iff (v r : Nat) : (v : ℚ) - v / 16 ≤ r ↔ 15 * v ≤ 16 * r := by
  have hscale : (v : ℚ) - v / 16 ≤ r ↔ (15 * v : ℚ) ≤ 16 * r := by
    constructor <;> intro hle <;> linarith
  rw [hscale]
  exact_mod_cast Iff.rfl

/-- **The error is bounded up to 33860**, and no further. -/
theorem bucket_error_iff (v : UInt64) :
    (bucketToValue (valueToBucket v) ≤ v ∧
      (v.toNat : ℚ) - v.toNat / 16 ≤ (bucketToValue (valueToBucket v)).toNat) ↔ v ≤ 33860 := by
  have hbegin : bucketToValue (valueToBucket v) ≤ v :=
    (bucketToValue_le_iff (valueToBucket_lt v)).mpr (Nat.le_refl _)
  rw [and_iff_right hbegin, sub_div_le_iff, toNat_bucketToValue (valueToBucket_lt v),
    valueToBucket_eq, UInt64.le_iff_toNat_le, show (33860 : UInt64).toNat = 33860 from rfl]
  by_cases hv : v.toNat < 32768
  · -- Below `2 ^ 15` the buckets are as narrow as they should be.
    have hindex : ¬ NUM_BUCKETS ≤ LogLinear.index 7 4 v.toNat := fun hle =>
      Nat.not_le.mpr hv ((LogLinear.lower_le_iff (by decide)).mpr hle)
    have herror := LogLinear.sub_lower_index_le (n := 7) (s := 4) (by decide) v.toNat
    rw [Nat.min_eq_left (Nat.le_sub_one_of_lt (Nat.lt_of_not_le hindex))]
    omega
  · have hindex : NUM_BUCKETS ≤ LogLinear.index 7 4 v.toNat :=
      (LogLinear.lower_le_iff (b := NUM_BUCKETS) (by decide)).mp (Nat.not_lt.mp hv)
    rw [Nat.min_eq_right (Nat.le_trans (Nat.sub_le _ _) hindex), lower_last]
    omega

theorem bucket_error_unbounded : ¬ ∀ v : UInt64, MIN_VALUE ≤ v → v < MAX_VALUE →
    bucketToValue (valueToBucket v) ≤ v ∧
      (v.toNat : ℚ) - v.toNat / 16 ≤ (bucketToValue (valueToBucket v)).toNat := by
  intro hall
  have herror := (hall 33861 (by decide) (by decide)).2
  rw [sub_div_le_iff] at herror
  exact absurd herror (by decide +kernel)

end Exchange.LatencyHistogram
