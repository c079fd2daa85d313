import Exchange.Core.Draw
import Mathlib.Algebra.Order.BigOperators.Group.List
import Mathlib.Algebra.Order.Group.Nat
import Mathlib.Algebra.Order.Monoid.Unbundled.Pow
import Mathlib.Tactic.Abel

/-!
# Draws are best, and may be sliced

Supplies have prices, and a draw from a queue of them costs what it takes times the price it is
taken at.

* **`sum_le_reach`**, **`cost_drawn_le`** — from a queue sorted by price a draw takes as much as
  any choice from the supplies before the stops can take, and among the choices of as much none
  costs less;
* **`left_add`**, `sum_drawn_add`, `cost_drawn_add` — drawing some and then some more is drawing
  all at once: it leaves, takes and costs the same.
-/

namespace Exchange.Draw

universe u v

variable {α : Type u} {M : Type v} [AddCommMonoid M] {stop : α → Bool} {avail : α → ℕ}
  {price : α → M} {reduce : α → ℕ → α} {l : List α} {m n : ℕ}

/-- What has been taken, times the prices it was taken at. -/
def cost (price : α → M) (taken : List (α × ℕ)) : M := (taken.map fun x => x.2 • price x.1).sum

lemma cost_nil : cost price ([] : List (α × ℕ)) = 0 := rfl

lemma cost_cons {x : α × ℕ} {taken : List (α × ℕ)} :
    cost price (x :: taken) = x.2 • price x.1 + cost price taken := by
  rw [cost, List.map_cons, List.sum_cons, cost]

/-- The first supply gives what it has or what is wanted. -/
lemma cost_drawn_cons (a : α) (want : ℕ) (hopen : stop a = false) :
    cost price (drawn stop avail want (a :: l))
      = min want (avail a) • price a
        + cost price (drawn stop avail (want - min want (avail a)) l) := by
  by_cases hwant : want = 0
  · subst hwant
    rw [drawn_zero, Nat.zero_min, Nat.zero_sub, drawn_zero, zero_nsmul, zero_add]
  · rw [drawn, if_neg (by simp [hwant, hopen]), cost_cons]

/-- Beyond the first stop nothing is taken. -/
lemma drawn_takeWhile (want : ℕ) :
    drawn (fun _ => false) avail want (l.takeWhile fun a => !stop a)
      = drawn stop avail want l := by
  induction l generalizing want with
  | nil => rfl
  | cons a l ih =>
      cases hstop : stop a with
      | true =>
          rw [List.takeWhile_cons_of_neg (by simp [hstop]), drawn, drawn, if_pos (Or.inr hstop)]
      | false =>
          rw [List.takeWhile_cons_of_pos (by simp [hstop]), drawn, drawn, hstop, ih]

/-- Wanting more than is in reach costs nothing. -/
lemma cost_drawn_min (want : ℕ) :
    cost price (drawn stop avail (min want (reach stop avail l)) l)
      = cost price (drawn stop avail want l) := by
  induction l generalizing want with
  | nil => rfl
  | cons a l ih =>
      cases hstop : stop a with
      | true => rw [drawn, drawn, if_pos (Or.inr hstop), if_pos (Or.inr hstop)]
      | false =>
          have hfirst : min (min want (avail a + reach stop avail l)) (avail a)
              = min want (avail a) := by omega
          have hrest : min want (avail a + reach stop avail l) - min want (avail a)
              = min (want - min want (avail a)) (reach stop avail l) := by omega
          rw [reach_cons_open hstop, cost_drawn_cons a _ hstop, cost_drawn_cons a _ hstop, hfirst,
            hrest, ih]

/-! ## Choices -/

section Best

variable [PartialOrder M] [IsOrderedAddMonoid M] {floor : M}

/-- Taking more costs at least the lowest price for what is taken more. -/
lemma cost_drawn_add_le (hfloor : ∀ a ∈ l, floor ≤ price a) (h : m + n ≤ (l.map avail).sum) :
    cost price (drawn (fun _ => false) avail m l) + n • floor
      ≤ cost price (drawn (fun _ => false) avail (m + n) l) := by
  induction l generalizing m n with
  | nil =>
      obtain ⟨rfl, rfl⟩ : m = 0 ∧ n = 0 := by simpa using h
      simp [cost]
  | cons a l ih =>
      have hle : floor ≤ price a := hfloor a List.mem_cons_self
      have hrest : ∀ b ∈ l, floor ≤ price b := fun b hb => hfloor b (List.mem_cons_of_mem _ hb)
      rw [List.map_cons, List.sum_cons] at h
      rw [cost_drawn_cons a m rfl, cost_drawn_cons a (m + n) rfl]
      -- the first supply gives `k` more, the others `j` more
      obtain ⟨k, hk⟩ := Nat.exists_eq_add_of_le
        (show min m (avail a) ≤ min (m + n) (avail a) by omega)
      obtain ⟨j, hj⟩ := Nat.exists_eq_add_of_le
        (show m - min m (avail a) ≤ m + n - min (m + n) (avail a) by omega)
      have hn : n = k + j := by omega
      have hmore := ih hrest (m := m - min m (avail a)) (n := j) (by omega)
      rw [← hj] at hmore
      calc min m (avail a) • price a
            + cost price (drawn (fun _ => false) avail (m - min m (avail a)) l) + n • floor
          = min m (avail a) • price a + k • floor
            + (cost price (drawn (fun _ => false) avail (m - min m (avail a)) l) + j • floor) := by
            rw [hn, add_nsmul]
            abel
        _ ≤ min m (avail a) • price a + k • price a
            + cost price (drawn (fun _ => false) avail (m + n - min (m + n) (avail a)) l) :=
            add_le_add (add_le_add_right (nsmul_le_nsmul_right hle k) _) hmore
        _ = _ := by rw [← add_nsmul, ← hk]

/-- **No choice costs less.**  What any choice takes from each supply of a sorted queue, drawn
instead, costs no more. -/
theorem cost_drawn_le {taken : List (α × ℕ)} (hsorted : (taken.map (·.1)).Pairwise fun a b =>
      price a ≤ price b) (hle : ∀ x ∈ taken, x.2 ≤ avail x.1) :
    cost price (drawn (fun _ => false) avail (taken.map (·.2)).sum (taken.map (·.1)))
      ≤ cost price taken := by
  induction taken with
  | nil => exact le_rfl
  | cons x taken ih =>
      rw [List.map_cons, List.pairwise_cons] at hsorted
      have hx := hle x List.mem_cons_self
      have htaken : ∀ y ∈ taken, y.2 ≤ avail y.1 := fun y hy => hle y (List.mem_cons_of_mem _ hy)
      have htotal : (taken.map (·.2)).sum ≤ ((taken.map (·.1)).map avail).sum := by
        rw [List.map_map]
        exact List.sum_le_sum htaken
      rw [List.map_cons, List.map_cons, List.sum_cons, cost_drawn_cons _ _ rfl, cost_cons]
      -- the draw takes `k` more from the first supply, and so less from the others
      obtain ⟨k, hk⟩ := Nat.exists_eq_add_of_le
        (show x.2 ≤ min (x.2 + (taken.map (·.2)).sum) (avail x.1) by omega)
      obtain ⟨j, hj⟩ := Nat.exists_eq_add_of_le
        (show k ≤ (taken.map (·.2)).sum by omega)
      have hless : x.2 + (taken.map (·.2)).sum
          - min (x.2 + (taken.map (·.2)).sum) (avail x.1) = j := by omega
      have hmore : cost price (drawn (fun _ => false) avail j (taken.map (·.1))) + k • price x.1
          ≤ cost price (drawn (fun _ => false) avail (j + k) (taken.map (·.1))) :=
        cost_drawn_add_le hsorted.1 (by omega)
      rw [Nat.add_comm j k, ← hj] at hmore
      rw [hless, hk, add_nsmul]
      calc x.2 • price x.1 + k • price x.1
            + cost price (drawn (fun _ => false) avail j (taken.map (·.1)))
          = x.2 • price x.1
            + (cost price (drawn (fun _ => false) avail j (taken.map (·.1))) + k • price x.1) := by
            abel
        _ ≤ x.2 • price x.1 + cost price taken :=
            add_le_add_right (hmore.trans (ih hsorted.2 htaken)) _

end Best

/-- Where stops come last, what is nothing at each of them adds up before the first. -/
lemma sum_map_takeWhile {f : α → M} (hlast : l.Pairwise fun a b => stop a = true → stop b = true)
    (hzero : ∀ a ∈ l, stop a = true → f a = 0) :
    ((l.takeWhile fun a => !stop a).map f).sum = (l.map f).sum := by
  induction l with
  | nil => rfl
  | cons a l ih =>
      rw [List.pairwise_cons] at hlast
      have hrest : ∀ b ∈ l, stop b = true → f b = 0 := fun b hb =>
        hzero b (List.mem_cons_of_mem _ hb)
      cases hstop : stop a with
      | true =>
          have hnone : ∀ b ∈ l, f b = 0 := fun b hb => hrest b hb (hlast.1 b hb hstop)
          rw [List.takeWhile_cons_of_neg (by simp [hstop]), List.map_cons, List.sum_cons,
            hzero a List.mem_cons_self hstop, List.map_congr_left hnone]
          simp
      | false =>
          rw [List.takeWhile_cons_of_pos (by simp [hstop]), List.map_cons, List.map_cons,
            List.sum_cons, List.sum_cons, ih hlast.2 hrest]

/-- What is chosen from supplies before the stops is in reach. -/
theorem sum_le_reach {pick : α → ℕ}
    (hlast : l.Pairwise fun a b => stop a = true → stop b = true)
    (hle : ∀ a ∈ l, pick a ≤ avail a) (hstop : ∀ a ∈ l, stop a = true → pick a = 0) :
    (l.map pick).sum ≤ reach stop avail l := by
  rw [← sum_map_takeWhile hlast hstop, reach]
  exact List.sum_le_sum fun a ha => hle a ((List.takeWhile_sublist _).mem ha)

/-- **No choice from the supplies before the stops costs less.** -/
theorem cost_drawn_le_choice [PartialOrder M] [IsOrderedAddMonoid M] {pick : α → ℕ}
    (hsorted : l.Pairwise fun a b => price a ≤ price b)
    (hlast : l.Pairwise fun a b => stop a = true → stop b = true)
    (hle : ∀ a ∈ l, pick a ≤ avail a) (hstop : ∀ a ∈ l, stop a = true → pick a = 0) :
    cost price (drawn stop avail (l.map pick).sum l)
      ≤ (l.map fun a => pick a • price a).sum := by
  obtain ⟨taken, htaken⟩ : ∃ taken : List (α × ℕ),
      taken = (l.takeWhile fun a => !stop a).map fun a => (a, pick a) := ⟨_, rfl⟩
  have hkeys : taken.map (·.1) = l.takeWhile fun a => !stop a := by
    rw [htaken, List.map_map]
    exact List.map_id' _
  have htotal : (taken.map (·.2)).sum = (l.map pick).sum := by
    rw [htaken, List.map_map]
    exact sum_map_takeWhile hlast hstop
  have hcost : cost price taken = (l.map fun a => pick a • price a).sum := by
    rw [htaken, cost, List.map_map]
    exact sum_map_takeWhile (f := fun a => pick a • price a) hlast fun a ha hs => by
      rw [hstop a ha hs, zero_nsmul]
  have hsorted' : (taken.map (·.1)).Pairwise fun a b => price a ≤ price b := by
    rw [hkeys]
    exact hsorted.sublist (List.takeWhile_sublist _)
  have hle' : ∀ x ∈ taken, x.2 ≤ avail x.1 := by
    rw [htaken]
    intro x hx
    obtain ⟨a, ha, rfl⟩ := List.mem_map.mp hx
    exact hle a ((List.takeWhile_sublist _).mem ha)
  have hbest := cost_drawn_le hsorted' hle'
  rwa [hkeys, htotal, hcost, drawn_takeWhile] at hbest

/-! ## Slices -/

lemma left_cons_stop (a : α) (want : ℕ) (hstop : stop a = true) :
    left stop avail reduce want (a :: l) = a :: l := by
  rw [left, if_pos (Or.inr hstop)]

lemma left_cons_open (a : α) {want : ℕ} (hwant : want ≠ 0) (hopen : stop a = false) :
    left stop avail reduce want (a :: l)
      = if avail a ≤ want then left stop avail reduce (want - avail a) l
        else reduce a want :: l := by
  rw [left, if_neg (by simp [hwant, hopen])]

/-- **Drawing some and then some more** leaves what drawing all at once leaves. -/
theorem left_add (hstop : ∀ a q, stop (reduce a q) = stop a)
    (havail : ∀ a ∈ l, ∀ q < avail a, avail (reduce a q) = avail a - q)
    (hreduce : ∀ a ∈ l, ∀ q q', q + q' < avail a → reduce (reduce a q) q' = reduce a (q + q')) :
    left stop avail reduce (m + n) l
      = left stop avail reduce n (left stop avail reduce m l) := by
  induction l generalizing m n with
  | nil => rfl
  | cons a l ih =>
      by_cases hm : m = 0
      · rw [hm, Nat.zero_add, left_zero]
      cases hopen : stop a with
      | true => rw [left_cons_stop a _ hopen, left_cons_stop a _ hopen, left_cons_stop a _ hopen]
      | false =>
          rw [left_cons_open a (by omega) hopen, left_cons_open a hm hopen]
          by_cases hfirst : avail a ≤ m
          · have hmore : m + n - avail a = m - avail a + n := by omega
            rw [if_pos (by omega), if_pos hfirst, hmore]
            exact ih (fun b hb => havail b (List.mem_cons_of_mem _ hb))
              fun b hb => hreduce b (List.mem_cons_of_mem _ hb)
          · -- the first supply is still there, with what the first draw has not taken
            have hrest := havail a List.mem_cons_self m (by omega)
            rw [if_neg hfirst]
            by_cases hn : n = 0
            · rw [hn, left_zero, Nat.add_zero, if_neg hfirst]
            rw [left_cons_open (reduce a m) hn ((hstop a m).trans hopen), hrest]
            by_cases hall : avail a ≤ m + n
            · have hmore : m + n - avail a = n - (avail a - m) := by omega
              rw [if_pos hall, if_pos (by omega), hmore]
            · rw [if_neg hall, if_neg (by omega), hreduce a List.mem_cons_self m n (by omega)]

/-- It costs the same. -/
theorem cost_drawn_add (hstop : ∀ a q, stop (reduce a q) = stop a)
    (hprice : ∀ a q, price (reduce a q) = price a)
    (havail : ∀ a ∈ l, ∀ q < avail a, avail (reduce a q) = avail a - q) :
    cost price (drawn stop avail (m + n) l)
      = cost price (drawn stop avail m l)
        + cost price (drawn stop avail n (left stop avail reduce m l)) := by
  induction l generalizing m n with
  | nil => simp [drawn, left, cost]
  | cons a l ih =>
      cases hopen : stop a with
      | true =>
          have hclosed : ∀ want, drawn stop avail want (a :: l) = [] := fun want => by
            rw [drawn, if_pos (Or.inr hopen)]
          rw [left_cons_stop a _ hopen, hclosed, hclosed, hclosed, cost_nil, zero_add]
      | false =>
          by_cases hm : m = 0
          · rw [hm, Nat.zero_add, left_zero, drawn_zero, cost_nil, zero_add]
          rw [cost_drawn_cons a (m + n) hopen, cost_drawn_cons a m hopen, left_cons_open a hm hopen]
          by_cases hfirst : avail a ≤ m
          · have hmore : m + n - avail a = m - avail a + n := by omega
            rw [if_pos hfirst, Nat.min_eq_right (by omega), Nat.min_eq_right hfirst, hmore,
              ih fun b hb => havail b (List.mem_cons_of_mem _ hb), add_assoc]
          · have hrest := havail a List.mem_cons_self m (by omega)
            have htake : min (m + n) (avail a) = m + min n (avail a - m) := by omega
            have hmore : m + n - min (m + n) (avail a) = n - min n (avail a - m) := by omega
            rw [if_neg hfirst, cost_drawn_cons (reduce a m) n ((hstop a m).trans hopen), hprice,
              hrest, hmore, htake, Nat.min_eq_left (by omega : m ≤ avail a), Nat.sub_self,
              drawn_zero, cost_nil, add_zero, add_nsmul, add_assoc]

/-- It takes the same. -/
lemma sum_drawn_add (hstop : ∀ a q, stop (reduce a q) = stop a)
    (havail : ∀ a ∈ l, ∀ q < avail a, avail (reduce a q) = avail a - q) :
    ((drawn stop avail (m + n) l).map (·.2)).sum
      = ((drawn stop avail m l).map (·.2)).sum
        + ((drawn stop avail n (left stop avail reduce m l)).map (·.2)).sum := by
  have hsum : ∀ taken : List (α × ℕ), cost (fun _ => 1) taken = (taken.map (·.2)).sum := by
    intro taken
    simp [cost]
  rw [← hsum, ← hsum, ← hsum]
  exact cost_drawn_add hstop (fun _ _ => rfl) havail

end Exchange.Draw
