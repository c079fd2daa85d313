import Exchange.Histogram.Model

/-!
# Merging histograms

Histograms are a commutative monoid under `merge`, with the histogram after `reset` as its zero
(`LatencyHistogram.instAddCommMonoid`), and to record a value is to add the histogram that has
recorded just that value.

**`merge_recorded`** — so what has been recorded, whichever way, is the sum over the values, and the
histograms of two lists merge into that of both.
-/

namespace Exchange.LatencyHistogram

variable {h h' : LatencyHistogram} {v w : UInt64} {xs ys : List UInt64}

lemma min_comm (v w : UInt64) : Min.min v w = Min.min w v := by
  rw [← UInt64.toNat_inj, toNat_min, toNat_min, Nat.min_comm]

lemma min_assoc (u v w : UInt64) : Min.min (Min.min u v) w = Min.min u (Min.min v w) := by
  simp only [← UInt64.toNat_inj, toNat_min, Nat.min_assoc]

lemma max_comm (v w : UInt64) : Max.max v w = Max.max w v := by
  rw [← UInt64.toNat_inj, toNat_max, toNat_max, Nat.max_comm]

lemma max_assoc (u v w : UInt64) : Max.max (Max.max u v) w = Max.max u (Max.max v w) := by
  simp only [← UInt64.toNat_inj, toNat_max, Nat.max_assoc]

/-! ## The monoid -/

lemma merge_comm (h h' : LatencyHistogram) : h.merge h' = h'.merge h :=
  ext (UInt64.add_comm _ _) (UInt64.add_comm _ _) (min_comm _ _) (max_comm _ _)
    (funext fun _ => UInt64.add_comm _ _)

lemma merge_assoc (h h' h'' : LatencyHistogram) :
    (h.merge h').merge h'' = h.merge (h'.merge h'') :=
  ext (UInt64.add_assoc _ _ _) (UInt64.add_assoc _ _ _) (min_assoc _ _ _) (max_assoc _ _ _)
    (funext fun _ => UInt64.add_assoc _ _ _)

/-- The minimum starts at `MAX_VALUE`, which is neutral because no minimum is above it. -/
lemma min_max_value (h : LatencyHistogram) : Min.min h.min MAX_VALUE = h.min := by
  rw [← UInt64.toNat_inj, toNat_min]
  exact Nat.min_eq_left (UInt64.le_iff_toNat_le.mp h.min_le)

lemma max_zero (v : UInt64) : Max.max v 0 = v := by
  rw [← UInt64.toNat_inj, toNat_max]
  exact Nat.max_eq_left (Nat.zero_le _)

lemma merge_reset (h : LatencyHistogram) : h.merge reset = h :=
  ext (UInt64.add_zero _) (UInt64.add_zero _) (min_max_value h) (max_zero _)
    (funext fun _ => UInt64.add_zero _)

instance : Add LatencyHistogram := ⟨merge⟩

instance : Zero LatencyHistogram := ⟨reset⟩

instance : AddCommMonoid LatencyHistogram where
  add_assoc := merge_assoc
  zero_add h := (merge_comm _ _).trans (merge_reset h)
  add_zero := merge_reset
  add_comm := merge_comm
  nsmul := nsmulRec

lemma merge_eq_add (h h' : LatencyHistogram) : h.merge h' = h + h' := rfl

/-! ## Recording -/

lemma record_eq_add (h : LatencyHistogram) (v : UInt64) : h.record v = h + reset.record v := by
  refine ext ?_ ?_ ?_ ?_ ?_
  · exact (congrArg (h.count + ·) (UInt64.zero_add 1)).symm
  · exact (congrArg (h.sum + ·) (UInt64.zero_add v)).symm
  · show Min.min h.min v = Min.min h.min (Min.min MAX_VALUE v)
    rw [← min_assoc, min_max_value]
  · show Max.max h.max v = Max.max h.max (Max.max 0 v)
    rw [← max_assoc, max_zero]
  · funext i
    show Function.update h.buckets (bucketOf v) (h.buckets (bucketOf v) + 1) i
      = h.buckets i + Function.update (fun _ => (0 : UInt64)) (bucketOf v) (0 + 1) i
    by_cases hi : i = bucketOf v
    · rw [hi, Function.update_self, Function.update_self, UInt64.zero_add]
    · rw [Function.update_of_ne hi, Function.update_of_ne hi, UInt64.add_zero]

/-- **What has been recorded is the sum over the values.** -/
lemma recorded_eq_sum (xs : List UInt64) : recorded xs = (xs.map reset.record).sum := by
  have hfold : ∀ h : LatencyHistogram, xs.foldl record h = h + (xs.map reset.record).sum := by
    induction xs with
    | nil => exact fun h => (add_zero h).symm
    | cons v xs ih =>
        intro h
        rw [List.foldl_cons, ih, record_eq_add, List.map_cons, List.sum_cons, add_assoc]
  exact (hfold reset).trans (zero_add _)

/-- **Merging is a homomorphism** from lists to histograms. -/
theorem merge_recorded :
    (∀ xs ys, (recorded xs).merge (recorded ys) = recorded (xs ++ ys) ∧
      ((recorded xs).merge (recorded ys)).minimum = (recorded (xs ++ ys)).minimum ∧
      ∀ p, ((recorded xs).merge (recorded ys)).percentile p
        = (recorded (xs ++ ys)).percentile p) ∧
    (∀ xs ys zs, ((recorded xs).merge (recorded ys)).merge (recorded zs)
      = (recorded xs).merge ((recorded ys).merge (recorded zs))) ∧
    (∀ xs ys, (recorded xs).merge (recorded ys) = (recorded ys).merge (recorded xs)) ∧
    (∀ xs, ∑ i, (recorded xs).buckets i = (recorded xs).count) ∧
    ∀ xs ys, xs.Perm ys → recorded xs = recorded ys := by
  refine ⟨fun xs ys => ?_, fun _ _ _ => merge_assoc _ _ _, fun _ _ => merge_comm _ _,
    fun xs => (recorded xs).count_eq, fun xs ys hperm => ?_⟩
  · have hmerge : (recorded xs).merge (recorded ys) = recorded (xs ++ ys) := by
      rw [merge_eq_add, recorded_eq_sum, recorded_eq_sum, recorded_eq_sum, List.map_append,
        List.sum_append]
    rw [hmerge]
    exact ⟨rfl, rfl, fun _ => rfl⟩
  · rw [recorded_eq_sum, recorded_eq_sum]
    exact (hperm.map _).sum_eq

end Exchange.LatencyHistogram
