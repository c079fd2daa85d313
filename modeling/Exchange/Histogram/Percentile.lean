import Exchange.Core.Rank
import Exchange.Histogram.Buckets
import Mathlib.Data.List.GetD
import Mathlib.Data.List.Sort
import Mathlib.Tactic.Linarith

/-!
# Percentiles

`percentile(p)` scans the buckets until `⌊count * p / 100⌋` values have been met.  That is the
bucket of the sample of this rank, or, where the rank is zero, the first bucket whatever it counts
(`percentile_recorded`).

The nearest rank is `⌈count * p / 100⌉`.  **`percentile_iff`** says when that makes no difference;
that the percentile goes up with `p` is true in any case.
-/

namespace Exchange.LatencyHistogram

variable {xs : List UInt64} {p q : ℚ} {t m : Nat}

/-! ## What the buckets count -/

/-- How many values are in buckets before the `i`-th. -/
def countBelow (xs : List UInt64) (i : Nat) : Nat := xs.countP (valueToBucket · < i)

lemma recorded_concat (xs : List UInt64) (v : UInt64) :
    recorded (xs ++ [v]) = (recorded xs).record v := by
  rw [recorded, List.foldl_append]
  rfl

lemma count_recorded (xs : List UInt64) : (recorded xs).count = .ofNat xs.length := by
  induction xs using List.reverseRecOn with
  | nil => rfl
  | append_singleton xs v ih =>
      rw [recorded_concat, List.length_append, UInt64.ofNat_add, ← ih]
      rfl

lemma buckets_recorded (xs : List UInt64) (i : Fin NUM_BUCKETS) :
    (recorded xs).buckets i = .ofNat (xs.countP (valueToBucket · = i.val)) := by
  induction xs using List.reverseRecOn with
  | nil => rfl
  | append_singleton xs v ih =>
      rw [recorded_concat, List.countP_append, UInt64.ofNat_add, ← ih]
      show Function.update (recorded xs).buckets (bucketOf v)
        ((recorded xs).buckets (bucketOf v) + 1) i = _
      by_cases hi : valueToBucket v = i.val
      · have hbucket : bucketOf v = i := Fin.ext hi
        rw [hbucket, Function.update_self, List.countP_singleton, decide_eq_true hi]
        rfl
      · have hbucket : i ≠ bucketOf v := fun heq => hi (congrArg Fin.val heq).symm
        rw [Function.update_of_ne hbucket, List.countP_singleton, decide_eq_false hi]
        exact (UInt64.add_zero _).symm

lemma countBelow_succ (xs : List UInt64) (i : Nat) :
    countBelow xs (i + 1) = countBelow xs i + xs.countP (valueToBucket · = i) := by
  rw [countBelow, countBelow]
  induction xs with
  | nil => rfl
  | cons v xs ih =>
      simp only [List.countP_cons, decide_eq_true_eq] at ih ⊢
      split_ifs <;> omega

lemma countBelow_le (xs : List UInt64) (i : Nat) : countBelow xs i ≤ xs.length :=
  List.countP_le_length

/-! ## The scan -/

/-- One bucket of the scan, with the values in the buckets before it counted. -/
lemma firstReaching_drop (hlen : xs.length < 2 ^ 64) (ht : t ≤ xs.length) {i : Nat}
    (hi : i < NUM_BUCKETS) :
    (recorded xs).firstReaching (.ofNat t) (.ofNat (countBelow xs i))
        ((List.finRange NUM_BUCKETS).drop i)
      = if t ≤ countBelow xs (i + 1) then some ⟨i, hi⟩
        else (recorded xs).firstReaching (.ofNat t) (.ofNat (countBelow xs (i + 1)))
          ((List.finRange NUM_BUCKETS).drop (i + 1)) := by
  have hcount := countBelow_le xs (i + 1)
  have hreach : UInt64.ofNat (countBelow xs (i + 1)) ≥ UInt64.ofNat t ↔
      t ≤ countBelow xs (i + 1) :=
    UInt64.ofNat_le_iff_le (Nat.lt_of_le_of_lt ht hlen) (Nat.lt_of_le_of_lt hcount hlen)
  have hindex : i < (List.finRange NUM_BUCKETS).length := by rwa [List.length_finRange]
  have hbucket : (List.finRange NUM_BUCKETS)[i] = ⟨i, hi⟩ := List.getElem_finRange _
  rw [List.drop_eq_getElem_cons hindex, hbucket, firstReaching]
  simp only [buckets_recorded, ← UInt64.ofNat_add, ← countBelow_succ, hreach]

/-- The scan stops in the first bucket where there are enough. -/
lemma firstReaching_eq (hlen : xs.length < 2 ^ 64) (ht : t ≤ xs.length) (hm : m < NUM_BUCKETS)
    (hreach : t ≤ countBelow xs (m + 1)) (hbefore : ∀ i < m, countBelow xs (i + 1) < t) :
    (recorded xs).firstReaching (.ofNat t) 0 (List.finRange NUM_BUCKETS) = some ⟨m, hm⟩ := by
  have hscan : ∀ k i, m = i + k → (recorded xs).firstReaching (.ofNat t)
      (.ofNat (countBelow xs i)) ((List.finRange NUM_BUCKETS).drop i) = some ⟨m, hm⟩ := by
    intro k
    induction k with
    | zero =>
        rintro i rfl
        rw [firstReaching_drop hlen ht hm, if_pos hreach]
    | succ k ih =>
        intro i hi
        rw [firstReaching_drop hlen ht (by omega), if_neg (Nat.not_le.mpr (hbefore i (by omega)))]
        exact ih (i + 1) (by omega)
  have hnone : countBelow xs 0 = 0 := List.countP_eq_zero.mpr (by simp)
  have hstart := hscan m 0 (Nat.zero_add m).symm
  rw [hnone, List.drop_zero] at hstart
  exact hstart

/-! ## Samples -/

/-- The sample of a rank, counted from one. -/
def sampleOfRank (xs : List UInt64) (rank : Nat) : UInt64 :=
  (xs.insertionSort (· ≤ ·)).getD (rank - 1) 0

/-- The rank that `percentile` counts to. -/
def truncatedRank (count : Nat) (p : ℚ) : Nat := ⌊(count : ℚ) * p / 100⌋₊

/-- The nearest rank. -/
def nearestRank (count : Nat) (p : ℚ) : Nat := ⌈(count : ℚ) * p / 100⌉₊

/-- Enough values are in the buckets up to the `i`-th just if the sample of that rank is. -/
lemma le_countBelow_iff {i : Nat} (ht : 0 < t) (hlen : t ≤ xs.length) :
    t ≤ countBelow xs (i + 1) ↔ valueToBucket (sampleOfRank xs t) ≤ i := by
  let sorted := xs.insertionSort (· ≤ ·)
  have hperm : sorted.Perm xs := List.perm_insertionSort _ xs
  have hsorted : (sorted.map valueToBucket).Pairwise (· ≤ ·) :=
    List.pairwise_map.mpr ((List.pairwise_insertionSort _ xs).imp valueToBucket_mono)
  have hcount : countBelow xs (i + 1) = (sorted.map valueToBucket).countP (· ≤ i) := by
    rw [List.countP_map, hperm.countP_eq, countBelow]
    simp only [Nat.lt_succ_iff]
    rfl
  have hindex : t - 1 < sorted.length := by
    rw [hperm.length_eq]
    omega
  have hsample : sampleOfRank xs t = sorted[t - 1] := List.getD_eq_getElem _ 0 hindex
  have hrank := Rank.lt_countP_iff (b := i) hsorted
    (by rwa [List.length_map] : t - 1 < (sorted.map valueToBucket).length)
  rw [List.getElem_map] at hrank
  rw [hcount, hsample, ← hrank]
  omega

lemma sampleOfRank_mem (ht : 0 < t) (hlen : t ≤ xs.length) : sampleOfRank xs t ∈ xs := by
  have hindex : t - 1 < (xs.insertionSort (· ≤ ·)).length := by
    rw [List.length_insertionSort]
    omega
  rw [sampleOfRank, List.getD_eq_getElem _ 0 hindex]
  exact (List.mem_insertionSort _).mp (List.getElem_mem hindex)

/-- The bucket in which the scan stops. -/
def stopBucket (xs : List UInt64) (rank : Nat) : Nat :=
  if rank = 0 then 0 else valueToBucket (sampleOfRank xs rank)

lemma stopBucket_lt (xs : List UInt64) (t : Nat) : stopBucket xs t < NUM_BUCKETS := by
  rw [stopBucket]
  split_ifs
  · decide
  · exact valueToBucket_lt _

/-- Where the scan stops, and where it does not. -/
lemma stopBucket_le_iff {i : Nat} (hlen : t ≤ xs.length) :
    stopBucket xs t ≤ i ↔ t ≤ countBelow xs (i + 1) := by
  rw [stopBucket]
  split_ifs with hzero
  · rw [hzero]
    exact iff_of_true (Nat.zero_le _) (Nat.zero_le _)
  · exact (le_countBelow_iff (Nat.pos_of_ne_zero hzero) hlen).symm

lemma stopBucket_mono {t' : Nat} (htt' : t ≤ t') (hlen : t' ≤ xs.length) :
    stopBucket xs t ≤ stopBucket xs t' := by
  have hstop := (stopBucket_le_iff hlen).mp (Nat.le_refl (stopBucket xs t'))
  exact (stopBucket_le_iff (Nat.le_trans htt' hlen)).mpr (Nat.le_trans htt' hstop)

lemma truncatedRank_le (n : Nat) (hp' : p ≤ 100) : truncatedRank n p ≤ n := by
  refine Nat.floor_le_of_le ?_
  have hn : (0 : ℚ) ≤ n := Nat.cast_nonneg n
  rw [div_le_iff₀ (by norm_num)]
  exact mul_le_mul_of_nonneg_left hp' hn

/-- **What `percentile` returns.** -/
lemma percentile_recorded (hne : xs ≠ []) (hlen : xs.length < 2 ^ 64) (hp' : p ≤ 100) :
    (recorded xs).percentile p = bucketToValue (stopBucket xs (truncatedRank xs.length p)) := by
  have hrank := truncatedRank_le (p := p) xs.length hp'
  have hcount : (recorded xs).count.toNat = xs.length := by
    rw [count_recorded, UInt64.toNat_ofNat', Nat.mod_eq_of_lt hlen]
  have hsome : ¬ (recorded xs).count = 0 := fun hzero => by
    rw [hzero] at hcount
    exact hne (List.length_eq_zero_iff.mp hcount.symm)
  have hscan : (recorded xs).firstReaching (.ofNat ⌊(xs.length : ℚ) * p / 100⌋₊) 0
      (List.finRange NUM_BUCKETS) = some ⟨stopBucket xs (truncatedRank xs.length p), _⟩ :=
    firstReaching_eq hlen hrank (stopBucket_lt xs _)
      ((stopBucket_le_iff hrank).mp (Nat.le_refl _))
      fun i hi => Nat.lt_of_not_le fun hle => Nat.not_le.mpr hi ((stopBucket_le_iff hrank).mpr hle)
  simp only [percentile, if_neg hsome, hcount, hscan]

/-! ## The nearest rank -/

lemma nearestRank_pos {n : Nat} (hn : 0 < n) (hp : 0 < p) : 0 < nearestRank n p := by
  have hn : (0 : ℚ) < n := Nat.cast_pos.mpr hn
  exact Nat.ceil_pos.mpr (by positivity)

lemma nearestRank_le (n : Nat) (hp' : p ≤ 100) : nearestRank n p ≤ n := by
  have hn : (0 : ℚ) ≤ n := Nat.cast_nonneg n
  refine Nat.ceil_le.mpr ?_
  rw [div_le_iff₀ (by norm_num)]
  exact mul_le_mul_of_nonneg_left hp' hn

/-- Below a whole sample the nearest rank is the first. -/
lemma nearestRank_eq_one {n : Nat} (hn : 0 < n) (hp : 0 < p) (hzero : truncatedRank n p = 0) :
    nearestRank n p = 1 := by
  have hlt : (n : ℚ) * p / 100 < 1 := Nat.floor_eq_zero.mp hzero
  have hle : nearestRank n p ≤ 1 := Nat.ceil_le.mpr (by exact_mod_cast hlt.le)
  have hpos := nearestRank_pos hn hp
  omega

/-- The scan stops in the bucket of the nearest rank. -/
lemma stopBucket_eq_iff (hne : xs ≠ []) (hp : 0 < p) :
    stopBucket xs (truncatedRank xs.length p)
        = valueToBucket (sampleOfRank xs (nearestRank xs.length p)) ↔
      if truncatedRank xs.length p = 0 then sampleOfRank xs 1 = 0
      else valueToBucket (sampleOfRank xs (truncatedRank xs.length p))
        = valueToBucket (sampleOfRank xs (nearestRank xs.length p)) := by
  rw [stopBucket]
  split_ifs with hzero
  · rw [nearestRank_eq_one (List.length_pos_of_ne_nil hne) hp hzero, eq_comm, valueToBucket_eq_zero]
  · exact Iff.rfl

/-- **When it is the nearest rank.** -/
theorem percentile_iff (hne : xs ≠ []) (hlen : xs.length < 2 ^ 53) (hp : 0 < p) (hp' : p ≤ 100) :
    ((recorded xs).percentile p
        = bucketToValue (valueToBucket (sampleOfRank xs (nearestRank xs.length p))) ∧
      (∃ x ∈ xs, (recorded xs).percentile p = bucketToValue (valueToBucket x)) ∧
      ∀ q, p ≤ q → q ≤ 100 → (recorded xs).percentile p ≤ (recorded xs).percentile q) ↔
    if truncatedRank xs.length p = 0 then sampleOfRank xs 1 = 0
    else valueToBucket (sampleOfRank xs (truncatedRank xs.length p))
      = valueToBucket (sampleOfRank xs (nearestRank xs.length p)) := by
  have hlen' : xs.length < 2 ^ 64 := by omega
  have hreturns : ∀ q ≤ 100, (recorded xs).percentile q
      = bucketToValue (stopBucket xs (truncatedRank xs.length q)) := fun q hq =>
    percentile_recorded hne hlen' hq
  have hmem : sampleOfRank xs (nearestRank xs.length p) ∈ xs :=
    sampleOfRank_mem (nearestRank_pos (List.length_pos_of_ne_nil hne) hp) (nearestRank_le _ hp')
  rw [← stopBucket_eq_iff hne hp, hreturns p hp']
  constructor
  · exact fun h => bucketToValue_inj (stopBucket_lt _ _).le (valueToBucket_lt _).le h.1
  · intro hstop
    have hvalue := congrArg bucketToValue hstop
    refine ⟨hvalue, ⟨_, hmem, hvalue⟩, fun q hpq hq => ?_⟩
    have hrank : truncatedRank xs.length p ≤ truncatedRank xs.length q := by
      refine Nat.floor_le_floor ?_
      have hn : (0 : ℚ) ≤ xs.length := Nat.cast_nonneg _
      exact div_le_div_of_nonneg_right (mul_le_mul_of_nonneg_left hpq hn) (by norm_num)
    rw [hreturns q hq]
    exact bucketToValue_mono (stopBucket_mono hrank (truncatedRank_le _ hq)) (stopBucket_lt _ _).le

/-- Ranks that are whole numbers. -/
theorem percentile_iff_median :
    (recorded [100, 5, 7, 7]).percentile 50
      = bucketToValue (valueToBucket (sampleOfRank [100, 5, 7, 7] (nearestRank 4 50))) :=
  ((percentile_iff (by simp) (by norm_num) (by norm_num) (by norm_num)).mpr (by decide +kernel)).1

/-- The median of a single sample. -/
theorem percentile_below_minimum : ¬ ∀ (xs : List UInt64) (p : ℚ), xs ≠ [] →
    xs.length < 2 ^ 53 → (∀ x ∈ xs, x < MAX_VALUE) → 0 < p → p ≤ 100 →
    (recorded xs).percentile p
        = bucketToValue (valueToBucket (sampleOfRank xs (nearestRank xs.length p))) ∧
      (∃ x ∈ xs, (recorded xs).percentile p = bucketToValue (valueToBucket x)) ∧
      ∀ q, p ≤ q → q ≤ 100 → (recorded xs).percentile p ≤ (recorded xs).percentile q := by
  intro hall
  have hbelow : ∀ x ∈ [(100 : UInt64)], x < MAX_VALUE := by
    intro x hx
    rw [List.mem_singleton.mp hx]
    decide
  have hmedian := (hall [100] 50 (by simp) (by norm_num) hbelow (by norm_num) (by norm_num)).1
  exact absurd hmedian (by decide +kernel)

end Exchange.LatencyHistogram
