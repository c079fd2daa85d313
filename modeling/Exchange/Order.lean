import Exchange.Types
import Mathlib.Tactic.SplitIfs

/-!
# Orders

`include/core/order.hpp`.  The open quantity of an order is not stored but computed, by an unchecked
`uint32_t` subtraction; `fill` is the only place a fill is recorded in the order.

The laws of `fill` come in two groups: those that hold for every order, wrapped subtraction included
(`fill_remaining_isFilled`), and those of an order that is not over-filled, where the subtraction is
the one on natural numbers (`toNat_remaining`, `remaining_fill`).
-/

namespace Exchange

structure Order where
  id : OrderId
  price : Price
  quantity : Quantity
  filledQty : Quantity := 0
  side : Side
  type : OrderType := .Limit
  tif : TimeInForce := .Day
  status : OrderStatus := .New
  symbol : Symbol
  timestamp : Timestamp := 0
deriving DecidableEq, Repr

namespace Order

/-- `quantity - filled_qty`, which wraps when the order is over-filled. -/
def remaining (o : Order) : Quantity := o.quantity - o.filledQty

def isFilled (o : Order) : Bool := o.filledQty ≥ o.quantity

/-- `fill(fill_qty)`: the quantity actually filled, and the order afterwards. -/
def fill (o : Order) (fillQty : Quantity) : Quantity × Order :=
  let actual := min fillQty o.remaining
  let o := { o with filledQty := o.filledQty + actual }
  (actual,
    if o.isFilled then { o with status := .Filled }
    else if o.filledQty > 0 then { o with status := .PartiallyFilled }
    else o)

def hasPricePriorityOver (o other : Order) : Bool :=
  match o.side with
  | .Buy => o.price > other.price
  | .Sell => o.price < other.price

def wouldCross (o : Order) (otherPrice : Price) : Bool :=
  match o.side with
  | .Buy => o.price ≥ otherPrice
  | .Sell => o.price ≤ otherPrice

end Order

/-! ## What `fill` leaves alone -/

namespace Order

section Frame

variable (o : Order) (q : Quantity)

@[simp] lemma fill_id : (o.fill q).2.id = o.id := by simp only [fill]; split_ifs <;> rfl

@[simp] lemma fill_price : (o.fill q).2.price = o.price := by
  simp only [fill]; split_ifs <;> rfl

@[simp] lemma fill_quantity : (o.fill q).2.quantity = o.quantity := by
  simp only [fill]; split_ifs <;> rfl

@[simp] lemma fill_side : (o.fill q).2.side = o.side := by simp only [fill]; split_ifs <;> rfl

@[simp] lemma fill_type : (o.fill q).2.type = o.type := by simp only [fill]; split_ifs <;> rfl

@[simp] lemma fill_tif : (o.fill q).2.tif = o.tif := by simp only [fill]; split_ifs <;> rfl

@[simp] lemma fill_filledQty : (o.fill q).2.filledQty = o.filledQty + min q o.remaining := by
  simp only [fill]; split_ifs <;> rfl

/-- The status says what the order has been filled by. -/
lemma fill_status : (o.fill q).2.status
    = if (o.fill q).2.isFilled then .Filled
      else if (o.fill q).2.filledQty > 0 then .PartiallyFilled else o.status := by
  have hdone : (o.fill q).2.isFilled = decide (o.filledQty + min q o.remaining ≥ o.quantity) := by
    rw [isFilled, fill_filledQty, fill_quantity]
  rw [hdone, fill_filledQty]
  by_cases hfilled : o.filledQty + min q o.remaining ≥ o.quantity
  · simp only [fill, isFilled, hfilled, decide_true, if_true]
  · by_cases hpart : o.filledQty + min q o.remaining > 0
    · simp only [fill, isFilled, hfilled, hpart, decide_false, Bool.false_eq_true, if_false, if_true]
    · simp only [fill, isFilled, hfilled, hpart, decide_false, Bool.false_eq_true, if_false]

end Frame

/-! ## Quantities -/

/-- `std::min` on quantities. -/
lemma min_quantity (a b : Quantity) : min a b = if a ≤ b then a else b := rfl

lemma min_quantity_le_left (a b : Quantity) : min a b ≤ a := by
  rw [min_quantity]
  split
  · exact UInt32.le_refl _
  · rename_i h
    exact UInt32.le_of_lt (UInt32.not_le.mp h)

lemma min_quantity_le_right (a b : Quantity) : min a b ≤ b := by
  rw [min_quantity]
  split
  · assumption
  · exact UInt32.le_refl _

lemma toNat_min_quantity (a b : Quantity) : (min a b).toNat = min a.toNat b.toNat := by
  rw [min_quantity]
  split
  · rename_i h
    exact (Nat.min_eq_left (UInt32.le_iff_toNat_le.mp h)).symm
  · rename_i h
    exact (Nat.min_eq_right (Nat.le_of_lt (UInt32.lt_iff_toNat_lt.mp (UInt32.not_le.mp h)))).symm

variable {o : Order} {q : Quantity}

theorem isFilled_iff : o.isFilled = true ↔ o.quantity ≤ o.filledQty := by
  simp [isFilled]

theorem not_isFilled_iff : o.isFilled = false ↔ o.filledQty < o.quantity := by
  simp [isFilled]

/-- `remaining()` as a natural number; nothing for an order that is over-filled. -/
def leaves (o : Order) : Nat := o.quantity.toNat - o.filledQty.toNat

/-- Where the subtraction does not wrap it is the one on natural numbers. -/
lemma toNat_remaining (h : o.filledQty ≤ o.quantity) : o.remaining.toNat = o.leaves := by
  rw [remaining, UInt32.toNat_sub_of_le _ _ h, leaves]

theorem leaves_eq_zero_iff : o.leaves = 0 ↔ o.isFilled = true := by
  rw [isFilled_iff, UInt32.le_iff_toNat_le, leaves]
  omega

lemma leaves_pos (h : o.isFilled = false) : 0 < o.leaves := by
  rw [Nat.pos_iff_ne_zero, ne_eq, leaves_eq_zero_iff, h]
  exact Bool.false_ne_true

/-- An order that is not filled has something left. -/
lemma remaining_pos (h : o.isFilled = false) : 0 < o.remaining.toNat := by
  rw [toNat_remaining (UInt32.le_of_lt (not_isFilled_iff.mp h))]
  exact leaves_pos h

/-- **Filling what remains fills the order**, even where `remaining` has wrapped: `uint32_t`
addition undoes the subtraction. -/
theorem fill_remaining_isFilled (o : Order) : (o.fill o.remaining).2.isFilled = true := by
  rw [isFilled_iff, fill_quantity, fill_filledQty]
  rw [min_quantity, if_pos (UInt32.le_refl _), remaining, UInt32.add_comm, UInt32.sub_add_cancel]
  exact UInt32.le_refl _

/-- Filling two orders by the smaller of their open quantities completes one of them. -/
theorem fill_min_completes (a b : Order) :
    (a.fill (min a.remaining b.remaining)).2.isFilled = true ∨
      (b.fill (min a.remaining b.remaining)).2.isFilled = true := by
  rw [min_quantity]
  split
  · exact Or.inl (fill_remaining_isFilled a)
  · exact Or.inr (fill_remaining_isFilled b)

lemma toNat_fill_filledQty (h : o.filledQty ≤ o.quantity) (hq : q ≤ o.remaining) :
    (o.fill q).2.filledQty.toNat = o.filledQty.toNat + q.toNat := by
  have hle := UInt32.le_iff_toNat_le.mp h
  have hq' := UInt32.le_iff_toNat_le.mp hq
  have hlt := o.quantity.toNat_lt
  rw [toNat_remaining h, leaves] at hq'
  rw [fill_filledQty, min_quantity, if_pos hq, UInt32.toNat_add, Nat.mod_eq_of_lt (by omega)]

lemma fill_le (h : o.filledQty ≤ o.quantity) (hq : q ≤ o.remaining) :
    (o.fill q).2.filledQty ≤ (o.fill q).2.quantity := by
  rw [UInt32.le_iff_toNat_le, toNat_fill_filledQty h hq, fill_quantity]
  have hq' := UInt32.le_iff_toNat_le.mp hq
  have hle := UInt32.le_iff_toNat_le.mp h
  rw [toNat_remaining h, leaves] at hq'
  omega

lemma leaves_fill (h : o.filledQty ≤ o.quantity) (hq : q ≤ o.remaining) :
    (o.fill q).2.leaves = o.leaves - q.toNat := by
  rw [leaves, fill_quantity, toNat_fill_filledQty h hq, leaves]
  omega

/-- A fill takes its quantity off the remaining one. -/
lemma remaining_fill (hq : q ≤ o.remaining) :
    (o.fill q).2.remaining = o.remaining - q := by
  rw [remaining, fill_quantity, fill_filledQty, min_quantity, if_pos hq, remaining]
  grind

/-- An order that is not over-filled is filled by exactly its remaining quantity. -/
theorem fill_isFilled_iff (h : o.filledQty ≤ o.quantity) (hq : q ≤ o.remaining) :
    (o.fill q).2.isFilled = true ↔ q = o.remaining := by
  have hle := UInt32.le_iff_toNat_le.mp h
  have hq' := UInt32.le_iff_toNat_le.mp hq
  rw [toNat_remaining h, leaves] at hq'
  rw [isFilled_iff, UInt32.le_iff_toNat_le, toNat_fill_filledQty h hq, fill_quantity,
    ← UInt32.toNat_inj, toNat_remaining h, leaves]
  omega

end Order

end Exchange
