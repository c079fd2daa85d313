import Exchange.OrderBook.Refinement
import Exchange.OrderBook.Taker

/-!
# What the fill-or-kill check counts

The check adds up the totals of the levels that the order crosses, from the lowest price up, until
they reach what the order wants.  The totals are 32 bits wide and so is the sum: at `2 ^ 32` it goes
back to zero, and the check may go past the one sum that was large enough.

* **`le_availableQuantity_iff`** — the check passes just if one of the partial sums is large enough
  modulo `2 ^ 32`;
* **`fill_or_kill_served_iff`** — so an order is served where there is enough for it;
* `served_of_lt` — which is always the case where there is less than `2 ^ 32` to be had.
-/

namespace Exchange.OrderBook

open MatchState

variable {b : OrderBook} {order : Order}

/-- A partial sum of a list is 0, or begins with its head. -/
lemma exists_sum_take_cons {P : ℕ → Prop} (x : ℕ) (l : List ℕ) :
    (∃ k, P ((x :: l).take k).sum) ↔ P 0 ∨ ∃ k, P (x + (l.take k).sum) := by
  constructor
  · rintro ⟨k, hk⟩
    cases k with
    | zero => exact .inl hk
    | succ k => exact .inr ⟨k, by rwa [List.take_succ_cons, List.sum_cons] at hk⟩
  · rintro (hzero | ⟨k, hk⟩)
    · exact ⟨0, hzero⟩
    · exact ⟨k + 1, by rwa [List.take_succ_cons, List.sum_cons]⟩

/-- What the count is after a level. -/
lemma toNat_counted (taker : Order) (p : Price) (level : PriceLevel) (available : Quantity) :
    (if crosses taker p = true then available + level.totalQuantity else available).toNat
      = (available.toNat + if crosses taker p then level.openQuantity else 0) % 2 ^ 32 := by
  split_ifs
  · rw [UInt32.toNat_add, level.wf.total_eq, Nat.add_mod_mod]
  · exact (Nat.mod_eq_of_lt available.toNat_lt).symm

/-- **The check passes at one of the partial sums, or not at all.** -/
theorem le_availableQuantity_iff (taker : Order) (levels : List (Price × PriceLevel))
    {available : Quantity} (h : available < taker.quantity) :
    taker.quantity ≤ availableQuantity taker levels available ↔
      ∃ k, taker.quantity.toNat ≤ (available.toNat + ((levels.map fun x =>
        if crosses taker x.1 then x.2.openQuantity else 0).take k).sum) % 2 ^ 32 := by
  have hnone : ∀ a : Quantity, a < taker.quantity →
      ¬ taker.quantity.toNat ≤ (a.toNat + 0) % 2 ^ 32 := by
    intro a ha
    rw [Nat.add_zero, Nat.mod_eq_of_lt a.toNat_lt]
    exact Nat.not_le.mpr (UInt32.lt_iff_toNat_lt.mp ha)
  induction levels generalizing available with
  | nil =>
      refine iff_of_false (UInt32.not_le.mpr h) ?_
      rintro ⟨k, hk⟩
      rw [List.map_nil, List.take_nil] at hk
      exact hnone available h hk
  | cons x levels ih =>
      obtain ⟨price, level⟩ := x
      have hiff : (taker.type = .Market || taker.wouldCross price) = crosses taker price := by
        cases htype : taker.type <;> simp [crosses, htype]
      have hcounted := toNat_counted taker price level available
      rw [availableQuantity, hiff, List.map_cons, exists_sum_take_cons
        (P := fun sum => taker.quantity.toNat ≤ (available.toNat + sum) % 2 ^ 32),
        or_iff_right (hnone available h)]
      dsimp only
      generalize (if crosses taker price = true then available + level.totalQuantity
        else available) = counted at hcounted ⊢
      generalize (if crosses taker price then level.openQuantity else 0) = offer at hcounted ⊢
      by_cases hreached : counted ≥ taker.quantity
      · rw [if_pos hreached]
        refine iff_of_true hreached ⟨0, ?_⟩
        rw [List.take_zero, List.sum_nil, Nat.add_zero, ← hcounted]
        exact UInt32.le_iff_toNat_le.mp hreached
      · rw [if_neg hreached]
        refine (ih (UInt32.not_le.mp hreached)).trans (exists_congr fun k => ?_)
        rw [hcounted, Nat.mod_add_mod, Nat.add_assoc]

/-- What is left of the orders that an order crosses. -/
def liquidity (b : OrderBook) (order : Order) : ℕ :=
  (((b.store.restingOrders order.side.opposite).filter
    fun o => crosses (withMarketPrice order) o.price).map Order.leaves).sum

/-- What is left at each price of the other side that the order crosses, and nothing at the others,
from the lowest price up. -/
def ladder (b : OrderBook) (order : Order) : List ℕ :=
  (b.store.levels order.side.opposite).keys.map
    (offered b.store order.side.opposite (withMarketPrice order))

/-- One of the partial sums reaches the quantity modulo `2 ^ 32`. -/
def CountReaches (b : OrderBook) (order : Order) : Prop :=
  ∃ k, order.quantity.toNat ≤ ((b.ladder order).take k).sum % 2 ^ 32

/-- An order is accepted if there is enough for it. -/
def ServedIfLiquid (b : OrderBook) (order : Order) : Prop :=
  order.quantity.toNat ≤ b.liquidity order → (b.addOrder order).1.success = true

instance (b : OrderBook) (order : Order) : Decidable (ServedIfLiquid b order) :=
  inferInstanceAs (Decidable (_ → _))

/-- The steps of the ladder add up to all that there is. -/
lemma sum_ladder (h : b.store.Agrees) (order : Order) :
    (b.ladder order).sum = b.liquidity order := by
  have hat : ∀ p, (((b.store.ordersAt order.side.opposite p).filter
      fun o => crosses (withMarketPrice order) o.price).map Order.leaves).sum
        = offered b.store order.side.opposite (withMarketPrice order) p := by
    intro p
    rw [offered]
    by_cases hp : crosses (withMarketPrice order) p = true
    · rw [if_pos hp, List.filter_eq_self.mpr fun o ho => by rw [(h.mem_ordersAt ho).2.2, hp]]
    · rw [if_neg hp, List.filter_eq_nil_iff.mpr fun o ho => by rwa [(h.mem_ordersAt ho).2.2]]
      rfl
  rw [ladder, ((keys_perm_bestFirst b.store _).map _).sum_nat, liquidity, Store.restingOrders]
  induction b.store.bestFirst order.side.opposite with
  | nil => rfl
  | cons p prices ih =>
      rw [List.map_cons, List.sum_cons, ih, List.flatMap_cons, List.filter_append, List.map_append,
        List.sum_append, hat]

/-- A fresh fill-or-kill order that nothing else speaks against succeeds just if the count gets to
its quantity. -/
theorem success_iff_countReaches (hb : Standing b) (hagrees : b.store.Agrees) (hfresh : Fresh order)
    (hfok : isFillOrKill order = true) (hquantity : order.quantity ≠ 0)
    (hprice : order.type = .Limit → 0 < order.price) (hnew : b.store.orders[order.id]? = none)
    (hpost : ¬ CrossesPostOnly b order) :
    (b.addOrder order).1.success = true ↔ CountReaches b order := by
  have hcount : CountReaches b order ↔ order.quantity ≤ availableQuantity (withMarketPrice order)
      (b.store.levels order.side.opposite).toList 0 := by
    have hpos : 0 < (withMarketPrice order).quantity := by
      rw [withMarketPrice_quantity]
      exact UInt32.pos_iff_ne_zero.mpr hquantity
    have hcheck := le_availableQuantity_iff (withMarketPrice order)
      (b.store.levels order.side.opposite).toList hpos
    rw [map_offered hagrees, UInt32.toNat_zero, withMarketPrice_quantity] at hcheck
    simp only [Nat.zero_add] at hcheck
    exact hcheck.symm
  rw [(addOrder_result hb.toSound order).1, hcount]
  constructor
  · rintro ⟨hpass, -⟩
    exact hpass.displayed hfok
  · intro hdisplayed
    refine ⟨⟨hquantity, hprice, hnew, fun htype henabled => ?_, fun _ => hdisplayed⟩,
      fun hkilled => ?_⟩
    · refine Bool.eq_false_iff.mpr fun hcross => hpost ⟨hquantity, hnew, htype, henabled, ?_⟩
      rwa [withMarketPrice, if_neg (by simp [htype])] at hcross
    · exact hkilled.not_filled hb.toSound (isFilled_of_filledQty
        (matchOrder_filledQty hb.toExact hagrees hb.stp_off hfresh hdisplayed))

section Runs

variable {symbol : Symbol} {config : OrderBookConfig} {onTrade onExecution onBbo : Bool}
  {clock : Stream' Timestamp} {ops : List Op}

/-- **When fill-or-kill is served where there is enough**, with self-trade prevention off, in every
book that valid prices and replaces to another price lead to. -/
theorem fill_or_kill_served_iff (hstp : config.enableSelfTradePrevention = false)
    (hops : Run.Admitted apply (fun b op => ValidPrices b op ∧ MovesPrice b op)
      (new symbol config onTrade onExecution onBbo clock) ops)
    (hfresh : Fresh order) (hfok : order.type = .FillOrKill ∨ order.tif = .FillOrKill)
    (hquantity : order.quantity ≠ 0) (hprice : order.type = .Limit → 0 < order.price)
    (hnew : (after (new symbol config onTrade onExecution onBbo clock) ops).store.orders[order.id]?
      = none)
    (hpost : ¬ CrossesPostOnly (after (new symbol config onTrade onExecution onBbo clock) ops)
      order) :
    ServedIfLiquid (after (new symbol config onTrade onExecution onBbo clock) ops) order ↔
      (order.quantity.toNat
          ≤ liquidity (after (new symbol config onTrade onExecution onBbo clock) ops) order →
        CountReaches (after (new symbol config onTrade onExecution onBbo clock) ops) order) := by
  have hstanding : Standing (after (new symbol config onTrade onExecution onBbo clock) ops) :=
    standing_after hstp (hops.mono fun _ _ h => h.1)
  have hagrees : (after (new symbol config onTrade onExecution onBbo clock) ops).store.Agrees :=
    agrees_after (hops.mono fun _ _ h => h.2.unfilledInPlace)
  have hisFok : isFillOrKill order = true := by
    simpa [isFillOrKill] using hfok.symm
  rw [ServedIfLiquid, success_iff_countReaches hstanding hagrees hfresh hisFok hquantity hprice hnew
    hpost]

/-- **Where there is less than `2 ^ 32` to be had**, fill-or-kill is served. -/
theorem served_of_lt (hstp : config.enableSelfTradePrevention = false)
    (hops : Run.Admitted apply (fun b op => ValidPrices b op ∧ MovesPrice b op)
      (new symbol config onTrade onExecution onBbo clock) ops)
    (hfresh : Fresh order) (hfok : order.type = .FillOrKill ∨ order.tif = .FillOrKill)
    (hquantity : order.quantity ≠ 0) (hprice : order.type = .Limit → 0 < order.price)
    (hnew : (after (new symbol config onTrade onExecution onBbo clock) ops).store.orders[order.id]?
      = none)
    (hpost : ¬ CrossesPostOnly (after (new symbol config onTrade onExecution onBbo clock) ops)
      order)
    (hlt : liquidity (after (new symbol config onTrade onExecution onBbo clock) ops) order
      < 2 ^ 32) :
    ServedIfLiquid (after (new symbol config onTrade onExecution onBbo clock) ops) order := by
  have hstanding : Standing (after (new symbol config onTrade onExecution onBbo clock) ops) :=
    standing_after hstp (hops.mono fun _ _ h => h.1)
  have hagrees : (after (new symbol config onTrade onExecution onBbo clock) ops).store.Agrees :=
    agrees_after (hops.mono fun _ _ h => h.2.unfilledInPlace)
  have hisFok : isFillOrKill order = true := by
    simpa [isFillOrKill] using hfok.symm
  intro hle
  rw [success_iff_countReaches hstanding hagrees hfresh hisFok hquantity hprice hnew hpost]
  refine ⟨(ladder (after (new symbol config onTrade onExecution onBbo clock) ops) order).length, ?_⟩
  rw [List.take_length, sum_ladder hagrees, Nat.mod_eq_of_lt hlt]
  exact hle

end Runs

/-- A buy order for 20 that fills or is killed, and two asks for 10. -/
theorem fill_or_kill_served :
    ServedIfLiquid
      (after (makeBook {}) [.add (limitOrder 1 .Sell 100 10), .add (limitOrder 2 .Sell 101 10)])
      { limitOrder 3 .Buy 101 20 with tif := .FillOrKill } :=
  Iff.mpr
    (fill_or_kill_served_iff rfl (by decide +kernel) rfl (.inr rfl) (by decide) (by decide)
      (by decide +kernel) fun h => absurd h.type_eq (by decide))
    fun _ => ⟨2, by decide +kernel⟩

/-- An order for `2 ^ 32 - 1` is refused where an ask for 10 is followed by one for `2 ^ 32 - 5`:
the count goes from 10 to 5. -/
theorem fill_or_kill_not_served :
    ¬ ServedIfLiquid
      (after (makeBook {})
        [.add (limitOrder 1 .Sell 100 10), .add (limitOrder 2 .Sell 101 4294967291)])
      { limitOrder 3 .Buy 101 4294967295 with tif := .FillOrKill } := by
  decide +kernel

end Exchange.OrderBook
