import Exchange.Core.Greedy
import Exchange.OrderBook.FairTrades
import Exchange.OrderBook.MarketByPrice

/-!
# Best execution

An exchange owes an incoming order the best that its book has to offer.  A `Choice` is any way the
order could have been filled: some quantity of each order that rests on the other side, no more than
that order has left, and nothing of one whose price the incoming order does not accept.

**`best_execution`** — with self-trade prevention off, no choice fills more of the order than
`add_order` does, and none that fills as much is better: a buyer would not have paid less for it, a
seller not received more.
-/

namespace Exchange.OrderBook

open MatchState

variable {b : OrderBook} {order : Order}

/-- A way to fill an order from orders of the other side. -/
structure Choice (order : Order) (makers : List Order) (pick : Order → ℕ) : Prop where
  available : ∀ maker ∈ makers, pick maker ≤ maker.leaves
  accepted : ∀ maker ∈ makers, pick maker ≠ 0 →
    order.type = .Market ∨ order.wouldCross maker.price = true
  wanted : (makers.map pick).sum ≤ order.leaves

/-- Quantities times ranks: what a buyer pays, or what a seller forgoes. -/
def worth (side : Side) (xs : List Execution) : ℤ :=
  (xs.map fun x => x.quantity.toNat • side.rank x.price).sum

lemma crosses_withMarketPrice {p : Price} :
    crosses (withMarketPrice order) p = true
      ↔ order.type = .Market ∨ order.wouldCross p = true := by
  rw [crosses, withMarketPrice_type, Bool.or_eq_true, beq_iff_eq]
  by_cases htype : order.type = .Market
  · simp [htype]
  · rw [Order.wouldCross, Order.wouldCross, withMarketPrice_side, withMarketPrice_price htype]

/-- What a call of `add_order` trades, where matching stops only at prices it does not cross. -/
theorem executed_draws (h : Standing b) (hagrees : b.store.Agrees) (order : Order)
    (hpass : b.rejectReason order = none) :
    ∃ xs, (b.addOrder order).2.executed = b.executed ++ xs ∧
      (xs.map (·.quantity.toNat)).sum
        = ((referenceFills (withMarketPrice order)
            (b.store.restingOrders order.side.opposite)).map (·.2)).sum ∧
      worth order.side.opposite xs
        = Draw.cost (fun maker : Order => order.side.opposite.rank maker.price)
          (referenceFills (withMarketPrice order) (b.store.restingOrders order.side.opposite)) := by
  have hpasses := rejectReason_eq_none_iff.mp hpass
  have hside := withMarketPrice_side order
  obtain ⟨fills, hexecuted, hdrawn, -, hexecution, -⟩ :=
    matchOrder_draws hagrees h.toSound (withMarketPrice order)
  rw [hside, h.toExact.visited_eq, drawn, Draw.drawn_congr (stopsAt_eq h.toExact hagrees h.stp_off
    (withMarketPrice order) order.side.opposite), ← referenceFills] at hdrawn
  refine ⟨fills.map Fill.execution, ?_, ?_, ?_⟩
  · rw [executed, executed_addOrder hpasses, hexecuted, List.map_append, executed]
  · rw [← hdrawn, List.map_map, List.map_map]
    refine congrArg List.sum (List.map_congr_left fun f _ => ?_)
    rw [Function.comp, Fill.execution, executionOf_quantity]
    rfl
  · rw [worth, Draw.cost, ← hdrawn, List.map_map, List.map_map]
    refine congrArg List.sum (List.map_congr_left fun f hf => ?_)
    rw [Function.comp, hexecution f hf, executionOf_quantity, executionOf_price]
    rfl

/-- No choice is better than a draw. -/
lemma Choice.le_referenceFills (hagrees : b.store.Agrees) {pick : Order → ℕ}
    (hchoice : Choice order (b.store.restingOrders order.side.opposite) pick) :
    let makers := b.store.restingOrders order.side.opposite
    let fills := referenceFills (withMarketPrice order) makers
    (makers.map pick).sum ≤ (fills.map (·.2)).sum ∧
      ((makers.map pick).sum = (fills.map (·.2)).sum →
        Draw.cost (fun maker : Order => order.side.opposite.rank maker.price) fills
          ≤ (makers.map fun maker => pick maker • order.side.opposite.rank maker.price).sum) := by
  intro makers fills
  have hsorted := hagrees.restingOrders_pairwise order.side.opposite
  have hlast : makers.Pairwise fun o o' =>
      (!crosses (withMarketPrice order) o.price) = true →
        (!crosses (withMarketPrice order) o'.price) = true := by
    refine hsorted.imp fun {o o'} hrank hstop => ?_
    rw [Bool.not_eq_true', Bool.eq_false_iff] at hstop ⊢
    exact fun hcross => hstop (crosses_of_rank_le (by rwa [withMarketPrice_side]) hcross)
  have hstop : ∀ o ∈ makers, (!crosses (withMarketPrice order) o.price) = true → pick o = 0 := by
    intro o ho hstop
    rw [Bool.not_eq_true', Bool.eq_false_iff] at hstop
    by_contra hpick
    exact hstop (crosses_withMarketPrice.mpr (hchoice.accepted o ho hpick))
  have hfilled : (fills.map (·.2)).sum = min order.leaves (Draw.reach
      (fun maker => !crosses (withMarketPrice order) maker.price) Order.leaves makers) := by
    rw [← leaves_withMarketPrice]
    exact Draw.sum_drawn
  have hreach := Draw.sum_le_reach hlast hchoice.available hstop
  refine ⟨by rw [hfilled]; exact le_min hchoice.wanted hreach, fun heq => ?_⟩
  have hbest := Draw.cost_drawn_le_choice hsorted hlast hchoice.available hstop
  rwa [heq, hfilled, Draw.cost_drawn_min, ← leaves_withMarketPrice] at hbest

section Runs

variable {symbol : Symbol} {config : OrderBookConfig} {onExecution onBbo : Bool}
  {clock : Stream' Timestamp} {ops : List Op}

/-- **Best execution.**  In every book that a run leads to, with self-trade prevention off, valid
prices and replaces in place of unfilled orders only, whatever fresh order comes in that is not
refused: its trades come to the quantity it is told, no choice from the orders that rest on the
other side comes to more, and any choice that comes to as much costs at least as much. -/
theorem best_execution (hstp : config.enableSelfTradePrevention = false)
    (hops : Run.Admitted apply (fun b op => ValidPrices b op ∧ UnfilledInPlace b op)
      (new symbol config true onExecution onBbo clock) ops)
    {order : Order} (hfresh : Fresh order)
    (hpass : (after (new symbol config true onExecution onBbo clock) ops).rejectReason order
      = none) :
    let b := after (new symbol config true onExecution onBbo clock) ops
    let makers := b.store.restingOrders order.side.opposite
    let added := b.addOrder order
    ∃ xs, added.2.executions = b.executions ++ xs ∧
      (xs.map (·.quantity.toNat)).sum = added.1.filledQty.toNat ∧
      ∀ pick, Choice order makers pick →
        (makers.map pick).sum ≤ added.1.filledQty.toNat ∧
          ((makers.map pick).sum = added.1.filledQty.toNat → worth order.side.opposite xs
            ≤ (makers.map fun maker => pick maker • order.side.opposite.rank maker.price).sum) := by
  intro b makers added
  have hstanding : Standing b := standing_after hstp (hops.mono fun _ _ h => h.1)
  have hagrees : b.store.Agrees := agrees_after (hops.mono fun _ _ h => h.2)
  have hpasses := rejectReason_eq_none_iff.mp hpass
  have hannounced : Announced b := announced_after symbol config onExecution onBbo clock ops
  obtain ⟨xs, hexecuted, hquantity, hworth⟩ := executed_draws hstanding hagrees order hpass
  obtain ⟨-, hadded, -⟩ := addOrder_keeps_matching hagrees hpasses
    fun hk => isFilled_of_filledQty (matchOrder_filledQty hstanding.toExact hagrees
      hstanding.stp_off hfresh (hpasses.displayed hk.fok))
  have hfilled : added.1.filledQty.toNat
      = ((referenceFills (withMarketPrice order) makers).map (·.2)).sum := by
    rw [hadded, (matchOrder_reference hstanding.toExact hagrees hstanding.stp_off _).2.1,
      withMarketPrice_side, withMarketPrice_filledQty, hfresh, UInt32.toNat_zero, Nat.zero_add]
  refine ⟨xs, ?_, by rw [hquantity, hfilled], fun pick hchoice => ?_⟩
  · rw [(announced_calls.addOrder hannounced trivial).executions_eq_executed, hexecuted,
      hannounced.executions_eq_executed]
  · rw [hfilled, hworth]
    exact hchoice.le_referenceFills hagrees

end Runs

/-- A market order meets three asks at two prices, one of them replaced in place. -/
theorem best_execution_sample :
    let b := after (new ⟨#v[84, 69, 83, 84, 0, 0, 0, 0]⟩ {} true true true fun n => n.toUInt64)
      [.add (limitOrder 1 .Sell 101 10), .add (limitOrder 2 .Sell 100 10), .replace {} 2 100 4,
        .add (limitOrder 3 .Sell 101 5)]
    let order := { limitOrder 4 .Buy 0 16 with type := .Market }
    let makers := b.store.restingOrders order.side.opposite
    let added := b.addOrder order
    ∃ xs, added.2.executions = b.executions ++ xs ∧
      (xs.map (·.quantity.toNat)).sum = added.1.filledQty.toNat ∧
      ∀ pick, Choice order makers pick →
        (makers.map pick).sum ≤ added.1.filledQty.toNat ∧
          ((makers.map pick).sum = added.1.filledQty.toNat → worth order.side.opposite xs
            ≤ (makers.map fun maker => pick maker • order.side.opposite.rank maker.price).sum) :=
  best_execution rfl (by decide +kernel) rfl (by decide +kernel)

end Exchange.OrderBook
