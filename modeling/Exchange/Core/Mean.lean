import Mathlib.Algebra.BigOperators.Group.List.Basic
import Mathlib.Algebra.Order.Ring.Int
import Mathlib.Tactic.Ring

/-!
# Weighted means, rounded toward zero

A list of values, each with a weight that is a natural number.

**`mean_eq_iff`** — the mean rounds to `p` just if what the values exceed `p` by, in all and by
weight, is less than the weight in all, and does not point toward zero.
-/

namespace Exchange.Mean

def weight (l : List (ℤ × ℕ)) : ℕ := (l.map Prod.snd).sum

def total (l : List (ℤ × ℕ)) : ℤ := (l.map fun x => x.1 * (x.2 : ℤ)).sum

def mean (l : List (ℤ × ℕ)) : ℤ := (total l).tdiv (weight l)

/-- What the values exceed `p` by. -/
def excess (p : ℤ) (l : List (ℤ × ℕ)) : ℤ := (l.map fun x => (x.1 - p) * (x.2 : ℤ)).sum

lemma total_eq (p : ℤ) (l : List (ℤ × ℕ)) : total l = p * weight l + excess p l := by
  induction l with
  | nil => simp [total, weight, excess]
  | cons x l ih =>
      simp only [total, weight, excess, List.map_cons, List.sum_cons, Nat.cast_add] at ih ⊢
      rw [ih]
      ring

variable {p d t : ℤ}

/-- An excess that does not point toward zero. -/
lemma tdiv_outward (ht : 0 < t) (hp : 0 ≤ p) (hd : 0 ≤ d) :
    (p * t + d).tdiv t = p ↔ d < t := by
  have hsum : 0 ≤ p * t + d := add_nonneg (mul_nonneg hp ht.le) hd
  rw [Int.tdiv_eq_ediv_of_nonneg hsum, Int.ediv_eq_iff_of_pos ht, Int.add_lt_add_iff_left]
  exact and_iff_right (Int.le_add_of_nonneg_right hd)

/-- One that does changes the quotient, however small it is. -/
lemma tdiv_inward (ht : 0 < t) (hp : p < 0) (hd : 0 ≤ d) :
    (p * t + d).tdiv t = p ↔ d = 0 := by
  constructor
  · intro h
    by_contra hne
    have hless : p * t < p * t + d := by omega
    by_cases hsum : 0 ≤ p * t + d
    · have hquot := Int.tdiv_nonneg hsum ht.le
      omega
    · have hquot : -(p * t + d) / t < -p := by
        refine Int.ediv_lt_of_lt_mul ht ?_
        rw [Int.neg_mul]
        omega
      rw [← Int.neg_neg (p * t + d), Int.neg_tdiv, Int.tdiv_eq_ediv_of_nonneg (by omega)] at h
      omega
  · rintro rfl
    rw [Int.add_zero]
    exact Int.mul_tdiv_cancel p ht.ne'

lemma tdiv_neg_eq_iff : (-p * t + -d).tdiv t = -p ↔ (p * t + d).tdiv t = p := by
  rw [show -p * t + -d = -(p * t + d) by ring, Int.neg_tdiv, Int.neg_inj]

theorem mean_eq_iff {l : List (ℤ × ℕ)} (h : 0 < weight l) (p : ℤ) :
    mean l = p ↔ |excess p l| < weight l ∧ (0 < p → 0 ≤ excess p l) ∧ (p < 0 → excess p l ≤ 0) := by
  have ht : (0 : ℤ) < weight l := Int.natCast_pos.mpr h
  rw [mean, total_eq p]
  generalize excess p l = d
  rcases le_total 0 d with hd | hd
  · rw [abs_of_nonneg hd]
    rcases lt_or_ge p 0 with hp | hp
    · rw [tdiv_inward ht hp hd]
      omega
    · rw [tdiv_outward ht hp hd]
      omega
  · have hd' : 0 ≤ -d := Int.neg_nonneg_of_nonpos hd
    rw [abs_of_nonpos hd, ← tdiv_neg_eq_iff]
    rcases lt_or_ge 0 p with hp | hp
    · rw [tdiv_inward ht (Int.neg_neg_of_pos hp) hd']
      omega
    · rw [tdiv_outward ht (Int.neg_nonneg_of_nonpos hp) hd']
      omega

end Exchange.Mean
