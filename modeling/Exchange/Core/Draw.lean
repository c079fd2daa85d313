import Mathlib.Algebra.Ring.Nat
import Mathlib.Data.List.TakeWhile
import Mathlib.Tactic.SplitIfs

/-!
# Drawing from a queue of supplies

A demand `want` is met from a list of supplies in order: each gives what it has available or what is
still wanted, whichever is less, until nothing is wanted or the next supply is a *stop*.

* `drawn want l` — what was taken from which supply;
* `left want l` — the supplies afterwards, the last one touched reduced by what was taken from it;
* `reach l` — what is available before the first stop.

A loop that draws a supply at a time is proved equal to these by `drawn_step` and `left_step`, which
say that taking the first step and drawing on is drawing; **`sum_drawn`** says how much is taken in
all, and `sum_left` that nothing is lost.
-/

namespace Exchange.Draw

universe u

variable {α : Type u}

def drawn (stop : α → Bool) (avail : α → Nat) (want : Nat) : List α → List (α × Nat)
  | [] => []
  | a :: as =>
      if want = 0 ∨ stop a = true then []
      else (a, min want (avail a)) :: drawn stop avail (want - min want (avail a)) as

def left (stop : α → Bool) (avail : α → Nat) (reduce : α → Nat → α) (want : Nat) :
    List α → List α
  | [] => []
  | a :: as =>
      if want = 0 ∨ stop a = true then a :: as
      else if avail a ≤ want then left stop avail reduce (want - avail a) as
      else reduce a want :: as

def reach (stop : α → Bool) (avail : α → Nat) (l : List α) : Nat :=
  ((l.takeWhile fun a => !stop a).map avail).sum

/-- What the first supply of a queue becomes when `min want (avail a)` is taken from it. -/
def rest (avail : α → Nat) (reduce : α → Nat → α) (want : Nat) (a : α) (as : List α) : List α :=
  if avail a ≤ want then as else reduce a want :: as

variable {stop : α → Bool} {avail : α → Nat} {reduce : α → Nat → α} {want : Nat} {a : α}
  {l as : List α}

/-! ## One step -/

@[simp] lemma drawn_zero : drawn stop avail 0 l = [] := by cases l <;> simp [drawn]

@[simp] lemma left_zero : left stop avail reduce 0 l = l := by cases l <;> simp [left]

lemma drawn_step (reduce : α → Nat → α) (hwant : want ≠ 0) (hopen : stop a = false) :
    drawn stop avail want (a :: as) = (a, min want (avail a)) ::
      drawn stop avail (want - min want (avail a)) (rest avail reduce want a as) := by
  rw [drawn, if_neg (by simp [hwant, hopen]), rest]
  split_ifs with havail
  · rfl
  · have hzero : want - min want (avail a) = 0 := by omega
    rw [hzero, drawn_zero, drawn_zero]

lemma left_step (hwant : want ≠ 0) (hopen : stop a = false) :
    left stop avail reduce want (a :: as)
      = left stop avail reduce (want - min want (avail a)) (rest avail reduce want a as) := by
  rw [left, if_neg (by simp [hwant, hopen]), rest]
  split_ifs with havail
  · rw [Nat.min_eq_right havail]
  · have hzero : want - min want (avail a) = 0 := by omega
    rw [hzero, left_zero]

/-- A queue is closed to a demand that is met, or when its head is a stop. -/
def Closed (stop : α → Bool) (want : Nat) (l : List α) : Prop :=
  want = 0 ∨ ∀ a as, l = a :: as → stop a = true

lemma Closed.drawn_eq (h : Closed stop want l) : drawn stop avail want l = [] := by
  cases l with
  | nil => rfl
  | cons a as => rw [drawn, if_pos (h.imp_right fun hstop => hstop a as rfl)]

lemma Closed.left_eq (h : Closed stop want l) : left stop avail reduce want l = l := by
  cases l with
  | nil => rfl
  | cons a as => rw [left, if_pos (h.imp_right fun hstop => hstop a as rfl)]

/-- Only what it says of the supplies in the queue matters of a stop. -/
lemma drawn_congr {stop' : α → Bool} (h : ∀ a ∈ l, stop a = stop' a) :
    drawn stop avail want l = drawn stop' avail want l := by
  induction l generalizing want with
  | nil => rfl
  | cons a as ih =>
      rw [drawn, drawn, h a List.mem_cons_self, ih fun b hb => h b (List.mem_cons_of_mem _ hb)]

lemma left_congr {stop' : α → Bool} (h : ∀ a ∈ l, stop a = stop' a) :
    left stop avail reduce want l = left stop' avail reduce want l := by
  induction l generalizing want with
  | nil => rfl
  | cons a as ih =>
      rw [left, left, h a List.mem_cons_self, ih fun b hb => h b (List.mem_cons_of_mem _ hb)]

lemma mem_of_mem_drawn {x : α × Nat} (hx : x ∈ drawn stop avail want l) : x.1 ∈ l := by
  induction l generalizing want with
  | nil => cases hx
  | cons a as ih =>
      rw [drawn] at hx
      split_ifs at hx
      · cases hx
      · rcases List.mem_cons.mp hx with rfl | hx
        · exact List.mem_cons_self
        · exact List.mem_cons_of_mem _ (ih hx)

/-- Supplies that all have something to give are never asked for nothing. -/
lemma drawn_pos (hpos : ∀ a ∈ l, 0 < avail a) {x : α × Nat}
    (hx : x ∈ drawn stop avail want l) : 0 < x.2 := by
  induction l generalizing want with
  | nil => cases hx
  | cons a as ih =>
      rw [drawn] at hx
      split_ifs at hx with hclosed
      · cases hx
      · have ha := hpos a List.mem_cons_self
        rcases List.mem_cons.mp hx with rfl | hx
        · have hwant : want ≠ 0 := fun h => hclosed (Or.inl h)
          show 0 < min want (avail a)
          omega
        · exact ih (fun b hb => hpos b (List.mem_cons_of_mem _ hb)) hx

/-- A demand for more than there is draws on every supply. -/
lemma length_drawn (h : (l.map avail).sum < want) :
    (drawn (fun _ => false) avail want l).length = l.length := by
  induction l generalizing want with
  | nil => rfl
  | cons a as ih =>
      rw [List.map_cons, List.sum_cons] at h
      have hwant : want ≠ 0 := by omega
      rw [drawn, if_neg (by simp [hwant]), List.length_cons, List.length_cons, ih (by omega)]

lemma drawn_open_eq_nil_iff : drawn (fun _ => false) avail want l = [] ↔ want = 0 ∨ l = [] := by
  cases l with
  | nil => simp [drawn]
  | cons a as => by_cases hwant : want = 0 <;> simp [drawn, hwant]

/-- A supply to stop at stays in the queue from the first stop on. -/
lemma mem_dropWhile_of_stop (ha : a ∈ l) (hstop : stop a = true) :
    a ∈ l.dropWhile fun b => !stop b := by
  rw [← List.takeWhile_append_dropWhile (p := fun b => !stop b) (l := l)] at ha
  rcases List.mem_append.mp ha with htaken | hleft
  · have hopen := List.mem_takeWhile_imp htaken
    simp [hstop] at hopen
  · exact hleft

/-! ## Totals -/

lemma reach_cons_stop (hstop : stop a = true) : reach stop avail (a :: as) = 0 := by
  simp [reach, hstop]

lemma reach_cons_open (hopen : stop a = false) :
    reach stop avail (a :: as) = avail a + reach stop avail as := by
  simp [reach, hopen]

lemma reach_append_of_open (h : ∀ a ∈ l, stop a = false) :
    reach stop avail (l ++ as) = (l.map avail).sum + reach stop avail as := by
  induction l with
  | nil => simp
  | cons a l ih =>
      rw [List.cons_append, reach_cons_open (h a List.mem_cons_self),
        ih fun b hb => h b (List.mem_cons_of_mem _ hb), List.map_cons, List.sum_cons, Nat.add_assoc]

/-- A demand for more than is in reach uses up everything before the first stop. -/
lemma left_of_reach_lt (h : reach stop avail l < want) :
    left stop avail reduce want l = l.dropWhile fun a => !stop a := by
  induction l generalizing want with
  | nil => rfl
  | cons a as ih =>
      cases hstop : stop a with
      | true => rw [left, if_pos (Or.inr hstop), List.dropWhile_cons_of_neg (by simp [hstop])]
      | false =>
          rw [reach_cons_open hstop] at h
          have hwant : want ≠ 0 := by omega
          rw [left, if_neg (by simp [hwant, hstop]), if_pos (by omega),
            List.dropWhile_cons_of_pos (by simp [hstop]), ih (by omega)]

/-- **What is drawn in all**: all that is wanted, or all that is in reach. -/
theorem sum_drawn : ((drawn stop avail want l).map (·.2)).sum = min want (reach stop avail l) := by
  induction l generalizing want with
  | nil => simp [drawn, reach]
  | cons a as ih =>
      by_cases hwant : want = 0
      · simp [hwant]
      · cases hstop : stop a with
        | true => simp [drawn, hstop, reach_cons_stop]
        | false =>
            rw [drawn, if_neg (by simp [hwant, hstop]), reach_cons_open hstop, List.map_cons,
              List.sum_cons, ih]
            omega

/-- **Nothing is lost**: what is left and what was drawn make up what there was. -/
theorem sum_left (stop : α → Bool) (want : Nat)
    (hreduce : ∀ a ∈ l, ∀ q < avail a, avail (reduce a q) = avail a - q) :
    ((left stop avail reduce want l).map avail).sum + ((drawn stop avail want l).map (·.2)).sum
      = (l.map avail).sum := by
  induction l generalizing want with
  | nil => rfl
  | cons a as ih =>
      by_cases hclosed : want = 0 ∨ stop a = true
      · rw [drawn, left, if_pos hclosed, if_pos hclosed]
        simp
      · rw [drawn, left, if_neg hclosed, if_neg hclosed]
        split_ifs with havail
        · have := ih (want - avail a) fun b hb => hreduce b (List.mem_cons_of_mem _ hb)
          rw [Nat.min_eq_right havail]
          simp only [List.map_cons, List.sum_cons]
          omega
        · have hzero : want - min want (avail a) = 0 := by omega
          have := hreduce a List.mem_cons_self want (by omega)
          simp only [hzero, drawn_zero, List.map_cons, List.map_nil, List.sum_cons, List.sum_nil]
          omega

/-- Supplies that all have something to give are drawn on unless the queue is closed. -/
theorem drawn_eq_nil_iff (hpos : ∀ a ∈ l, 0 < avail a) :
    drawn stop avail want l = [] ↔ want = 0 ∨ reach stop avail l = 0 := by
  cases l with
  | nil => simp [drawn, reach]
  | cons a as =>
      have := hpos a List.mem_cons_self
      cases hstop : stop a with
      | true => simp [drawn, hstop, reach_cons_stop]
      | false =>
          rw [drawn, reach_cons_open hstop]
          by_cases hwant : want = 0
          · simp [hwant]
          · simp only [hwant, hstop, Bool.false_eq_true, or_self, if_false, false_or]
            exact iff_of_false (by simp) (by omega)

end Exchange.Draw
