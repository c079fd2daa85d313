import Mathlib.Data.Nat.Log
import Mathlib.Order.Monotone.Basic
import Mathlib.Tactic.Ring

/-!
# Log-linear buckets

The natural numbers in buckets.  Below `2 ^ n` each number has a bucket of its own; from there on
every power of two has `2 ^ s` buckets of equal width.

* `lower n s b` — where bucket `b` begins, and `index n s v` — the bucket of a number;
* **`lower_strictMono`**, **`lower_le_iff`** — the buckets are consecutive intervals, and `index`
  says which of them a number is in;
* **`sub_lower_index_le`** — a number is above the beginning of its bucket by at most a part in
  `2 ^ s` of itself.
-/

namespace Exchange.LogLinear

/-- Where a bucket begins. -/
def lower (n s b : Nat) : Nat :=
  if b < 2 ^ n then b
  else (2 ^ s + (b - 2 ^ n) % 2 ^ s) * 2 ^ (n - s + (b - 2 ^ n) / 2 ^ s)

/-- The bucket of a number. -/
def index (n s v : Nat) : Nat :=
  if v < 2 ^ n then v
  else 2 ^ n + (v.log2 - n) * 2 ^ s + v / 2 ^ (v.log2 - s) % 2 ^ s

variable {n s k f b v w : Nat}

lemma lower_of_lt (hb : b < 2 ^ n) : lower n s b = b := if_pos hb

/-- The `f`-th bucket of the `k`-th power of two. -/
lemma lower_eq (hf : f < 2 ^ s) :
    lower n s (2 ^ n + (k * 2 ^ s + f)) = (2 ^ s + f) * 2 ^ (n - s + k) := by
  have hs : 0 < 2 ^ s := Nat.two_pow_pos s
  have hmod : (k * 2 ^ s + f) % 2 ^ s = f := by
    rw [Nat.add_comm, Nat.add_mul_mod_self_right, Nat.mod_eq_of_lt hf]
  have hdiv : (k * 2 ^ s + f) / 2 ^ s = k := by
    rw [Nat.add_comm, Nat.add_mul_div_right _ _ hs, Nat.div_eq_of_lt hf, Nat.zero_add]
  rw [lower, if_neg (Nat.not_lt.mpr (Nat.le_add_right _ _)), Nat.add_sub_cancel_left, hmod, hdiv]

/-- And where it ends. -/
lemma lower_succ_eq (hf : f < 2 ^ s) :
    lower n s (2 ^ n + (k * 2 ^ s + f) + 1) = (2 ^ s + f + 1) * 2 ^ (n - s + k) := by
  by_cases hlast : f + 1 < 2 ^ s
  · exact lower_eq hlast
  · have hend : f + 1 = 2 ^ s := by omega
    have hcarry : 2 ^ n + (k * 2 ^ s + f) + 1 = 2 ^ n + ((k + 1) * 2 ^ s + 0) := by
      rw [Nat.add_assoc, Nat.add_assoc, hend]
      ring
    rw [hcarry, lower_eq (Nat.two_pow_pos s), Nat.add_assoc, hend, ← Nat.add_assoc, Nat.pow_succ]
    ring

/-- Every bucket beyond the linear ones is one of these. -/
lemma exists_parts (hb : 2 ^ n ≤ b) : ∃ k f, f < 2 ^ s ∧ b = 2 ^ n + (k * 2 ^ s + f) := by
  refine ⟨(b - 2 ^ n) / 2 ^ s, (b - 2 ^ n) % 2 ^ s, Nat.mod_lt _ (Nat.two_pow_pos s), ?_⟩
  have hdiv := Nat.div_add_mod' (b - 2 ^ n) (2 ^ s)
  omega

/-- **The buckets follow one another.** -/
theorem lower_strictMono (hs : s ≤ n) : StrictMono (lower n s) := by
  refine strictMono_nat_of_lt_succ fun b => ?_
  by_cases hb : b < 2 ^ n
  · rw [lower_of_lt hb]
    by_cases hb' : b + 1 < 2 ^ n
    · rw [lower_of_lt hb']
      exact Nat.lt_succ_self b
    · -- The seam: the first bucket beyond the linear ones.
      have hseam : b + 1 = 2 ^ n + (0 * 2 ^ s + 0) := by omega
      have hpow : 2 ^ s * 2 ^ (n - s) = 2 ^ n := by
        rw [← Nat.pow_add, Nat.add_sub_cancel' hs]
      rw [hseam, lower_eq (Nat.two_pow_pos s), Nat.add_zero, Nat.add_zero, hpow]
      exact hb
  · obtain ⟨k, f, hf, rfl⟩ := exists_parts (s := s) (Nat.not_lt.mp hb)
    rw [lower_eq hf, lower_succ_eq hf]
    exact Nat.mul_lt_mul_of_pos_right (Nat.lt_succ_self _) (Nat.two_pow_pos _)

/-- A number beyond the linear buckets. -/
lemma exists_index (hs : s ≤ n) (hv : 2 ^ n ≤ v) :
    ∃ k f, f < 2 ^ s ∧ index n s v = 2 ^ n + (k * 2 ^ s + f) ∧
      (2 ^ s + f) * 2 ^ (n - s + k) ≤ v ∧ v < (2 ^ s + f + 1) * 2 ^ (n - s + k) := by
  have hpos : v ≠ 0 := fun hzero => by
    have := Nat.two_pow_pos n
    omega
  have hlog : n ≤ v.log2 := (Nat.le_log2 hpos).mpr hv
  obtain ⟨k, hk⟩ := Nat.exists_eq_add_of_le hlog
  have hwidth : v.log2 - s = n - s + k := by omega
  have hlow : 2 ^ s * 2 ^ (n - s + k) ≤ v := by
    rw [← Nat.pow_add]
    exact (Nat.le_log2 hpos).mp (by omega)
  have hhigh : v < 2 * 2 ^ s * 2 ^ (n - s + k) := by
    rw [Nat.mul_assoc, ← Nat.pow_add, Nat.mul_comm, ← Nat.pow_succ]
    exact (Nat.log2_lt hpos).mp (by omega)
  -- The quotient is `2 ^ s` and the number of the bucket.
  have hquot : 2 ^ s ≤ v / 2 ^ (n - s + k) := (Nat.le_div_iff_mul_le (Nat.two_pow_pos _)).mpr hlow
  have hquot' : v / 2 ^ (n - s + k) < 2 * 2 ^ s :=
    (Nat.div_lt_iff_lt_mul (Nat.two_pow_pos _)).mpr hhigh
  have hmod : v / 2 ^ (n - s + k) % 2 ^ s = v / 2 ^ (n - s + k) - 2 ^ s := by
    rw [Nat.mod_eq_sub_mod hquot, Nat.mod_eq_of_lt (by omega)]
  have hsum : 2 ^ s + (v / 2 ^ (n - s + k) - 2 ^ s) = v / 2 ^ (n - s + k) :=
    Nat.add_sub_cancel' hquot
  refine ⟨k, v / 2 ^ (n - s + k) - 2 ^ s, by omega, ?_, ?_, ?_⟩
  · rw [index, if_neg (Nat.not_lt.mpr hv), hwidth, hmod, hk, Nat.add_sub_cancel_left, Nat.add_assoc]
  · rw [hsum]
    exact Nat.div_mul_le_self v _
  · rw [hsum]
    exact Nat.lt_mul_of_div_lt (Nat.lt_succ_self _) (Nat.two_pow_pos _)

/-- A number is in the interval of its bucket. -/
lemma lower_index_le (hs : s ≤ n) (v : Nat) :
    lower n s (index n s v) ≤ v ∧ v < lower n s (index n s v + 1) := by
  by_cases hv : v < 2 ^ n
  · have hlower : lower n s v = v := lower_of_lt hv
    have hnext := lower_strictMono hs (Nat.lt_succ_self v)
    rw [hlower] at hnext
    rw [index, if_pos hv, hlower]
    exact ⟨Nat.le_refl v, hnext⟩
  · obtain ⟨k, f, hf, hindex, hle, hlt⟩ := exists_index hs (Nat.not_lt.mp hv)
    rw [hindex, lower_eq hf, lower_succ_eq hf]
    exact ⟨hle, hlt⟩

/-- **Which bucket a number is in.** -/
theorem lower_le_iff (hs : s ≤ n) : lower n s b ≤ v ↔ b ≤ index n s v := by
  obtain ⟨hle, hlt⟩ := lower_index_le hs v
  constructor
  · intro hb
    exact Nat.lt_succ_iff.mp ((lower_strictMono hs).lt_iff_lt.mp (Nat.lt_of_le_of_lt hb hlt))
  · exact fun hb => Nat.le_trans ((lower_strictMono hs).monotone hb) hle

lemma index_mono (hs : s ≤ n) : Monotone (index n s) := fun v _ hvw =>
  (lower_le_iff hs).mp (Nat.le_trans (lower_index_le hs v).1 hvw)

/-- **The error of a bucket.** -/
theorem sub_lower_index_le (hs : s ≤ n) (v : Nat) :
    2 ^ s * (v - lower n s (index n s v)) ≤ v := by
  by_cases hv : v < 2 ^ n
  · rw [index, if_pos hv, lower_of_lt hv, Nat.sub_self, Nat.mul_zero]
    exact Nat.zero_le v
  · obtain ⟨k, f, hf, hindex, hle, hlt⟩ := exists_index hs (Nat.not_lt.mp hv)
    rw [hindex, lower_eq hf]
    have hwidth : v - (2 ^ s + f) * 2 ^ (n - s + k) ≤ 2 ^ (n - s + k) := by
      rw [Nat.succ_mul] at hlt
      omega
    calc 2 ^ s * (v - (2 ^ s + f) * 2 ^ (n - s + k)) ≤ 2 ^ s * 2 ^ (n - s + k) :=
          Nat.mul_le_mul_left _ hwidth
      _ ≤ (2 ^ s + f) * 2 ^ (n - s + k) := Nat.mul_le_mul_right _ (Nat.le_add_right _ _)
      _ ≤ v := hle

end Exchange.LogLinear
