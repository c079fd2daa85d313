import Mathlib.Data.List.Sort

/-!
# Ranks

Which element of a sorted list has a given rank, and how many elements are at or below a bound, are
two sides of the same thing: **`lt_countP_iff`**.
-/

namespace Exchange.Rank

universe u

variable {α : Type u} [LinearOrder α] {l : List α} {b : α} {k : Nat}

/-- **More than `k` elements are at or below `b`** just if the `k`-th is, counted from zero. -/
theorem lt_countP_iff (hsorted : l.Pairwise (· ≤ ·)) (hk : k < l.length) :
    k < l.countP (· ≤ b) ↔ l[k] ≤ b := by
  induction l generalizing k with
  | nil => cases hk
  | cons a l ih =>
      obtain ⟨hle, hrest⟩ := List.pairwise_cons.mp hsorted
      by_cases ha : a ≤ b
      · rw [List.countP_cons_of_pos (p := (· ≤ b)) (decide_eq_true ha)]
        cases k with
        | zero => exact iff_of_true (Nat.succ_pos _) ha
        | succ k =>
            rw [Nat.succ_lt_succ_iff, List.getElem_cons_succ]
            exact ih hrest _
      · -- All of them are above the bound.
        have hnone : (a :: l).countP (· ≤ b) = 0 := by
          rw [List.countP_eq_zero]
          intro c hc
          rcases List.mem_cons.mp hc with rfl | hc
          · simpa using ha
          · simpa using (lt_of_not_ge ha).trans_le (hle c hc)
        have hfirst : a ≤ (a :: l)[k] := by
          cases k with
          | zero => exact le_refl a
          | succ k => exact hle _ (List.getElem_mem _)
        rw [hnone]
        exact iff_of_false (Nat.not_lt_zero k) fun hb => ha (hfirst.trans hb)

end Exchange.Rank
