import Exchange.OrderBook.Agreement

/-!
# Replaces that fail

`replace_order` changes a price by cancelling the order and adding another.  When the second half is
refused the first is not undone: the call reports failure and the order is gone.

**`failed_replace_unchanged_iff`** says when that happens, in any book a run of calls can lead to:
exactly when the order is there, is not replaced in place, and its replacement is one that
`add_order` refuses.  Only three of the refusals of `add_order` are possible: the id has just been
freed, and what rests in a book is never fill-or-kill.
-/

namespace Exchange.OrderBook

open MatchState

/-- The replacement of `existing` is refused: no quantity, a limit price that is not positive, or a
post-only order that would trade. -/
def RefusesReplacement (b : OrderBook) (existing : Order) (id : OrderId) (newPrice : Price)
    (newQty : Quantity) : Prop :=
  newQty = 0 ∨ (existing.type = .Limit ∧ newPrice ≤ 0) ∨
    (existing.type = .PostOnly ∧ b.config.enablePostOnlyRejection = true ∧
      postOnlyWouldCross b.store (replacement existing id newPrice newQty) = true)

instance (b : OrderBook) (existing : Order) (id : OrderId) (newPrice : Price)
    (newQty : Quantity) : Decidable (RefusesReplacement b existing id newPrice newQty) :=
  inferInstanceAs (Decidable (_ ∨ _ ∨ _))

/-- The order is there, the same-price branch is not taken, and the replacement is refused. -/
def LosesOrder (b : OrderBook) (id : OrderId) (newPrice : Price) (newQty : Quantity) : Prop :=
  ∃ existing, b.store.orders[id]? = some existing ∧
    (existing.price = newPrice → (b.store.levels existing.side)[existing.price]? = none) ∧
    RefusesReplacement b existing id newPrice newQty

/-- The post-only check reads the opposite cached best price only. -/
lemma postOnlyWouldCross_congr {s s' : Store} {order : Order}
    (h : s'.best order.side.opposite = s.best order.side.opposite) :
    postOnlyWouldCross s' order = postOnlyWouldCross s order := by
  simp only [postOnlyWouldCross]
  cases hside : order.side <;> rw [hside] at h <;> simp only [Side.opposite, Store.best] at h <;>
    rw [h]

/-- Once the order is cancelled, its replacement passes the checks unless it is refused. -/
theorem passes_replacement_iff {b c : OrderBook} {id : OrderId} {existing : Order}
    (hkind : Restable existing)
    (hcancel : Quiet { b with store := b.store.cancelOrder id existing } c) (newPrice : Price)
    (newQty : Quantity) :
    Passes c (replacement existing id newPrice newQty) ↔
      ¬ RefusesReplacement b existing id newPrice newQty := by
  have hmarket : withMarketPrice (replacement existing id newPrice newQty)
      = replacement existing id newPrice newQty :=
    (hkind.replacement id newPrice newQty).withMarketPrice_eq
  have hcross : postOnlyWouldCross c.store (replacement existing id newPrice newQty)
      = postOnlyWouldCross b.store (replacement existing id newPrice newQty) := by
    refine postOnlyWouldCross_congr ?_
    rw [hcancel.store_eq]
    exact Store.best_cancelOrder_of_ne (by simp [replacement])
  have hnew : c.store.orders[id]? = none := by
    rw [hcancel.store_eq]
    simp only [Store.getElem?_orders_cancelOrder, if_true]
  rw [RefusesReplacement]
  rw [not_or, not_or]
  constructor
  · rintro ⟨h1, h2, -, h4, -⟩
    rw [hmarket, hcross, hcancel.config_eq] at h4
    refine ⟨h1, fun h => ?_, fun h => ?_⟩
    · exact Int64.not_le.mpr (h2 h.1) h.2
    · rw [h4 h.1 h.2.1] at h
      cases h.2.2
  · rintro ⟨h1, h2, h3⟩
    refine ⟨h1, fun ht => Int64.not_le.mp fun hle => h2 ⟨ht, hle⟩, hnew, fun ht he => ?_,
      fun hf => ?_⟩
    · rw [hmarket, hcross]
      rw [hcancel.config_eq] at he
      exact Bool.eq_false_iff.mpr fun hc => h3 ⟨ht, he, hc⟩
    · rw [(hkind.replacement id newPrice newQty).not_isFillOrKill] at hf
      cases hf

/-- A replace that goes through `add_order` fails exactly when the replacement is refused, and then
the order is gone. -/
lemma replace_moved {b : OrderBook} {id : OrderId} {existing : Order}
    (ho : b.store.orders[id]? = some existing) (hkind : Restable existing) (newPrice : Price)
    (newQty : Quantity) :
    let added := (b.cancelOrder id).2.addOrder (replacement existing id newPrice newQty)
    if RefusesReplacement b existing id newPrice newQty then
      added.1.success = false ∧ added.2.store.orders[id]? = none
    else added.1.success = true := by
  have hcancel : Quiet { b with store := b.store.cancelOrder id existing } (b.cancelOrder id).2 := by
    cases cancelOrder_cases b id with
    | missing hnone _ _ =>
        rw [ho] at hnone
        cases hnone
    | cancelled ho' _ hquiet =>
        rw [ho] at ho'
        cases ho'
        exact hquiet
  have hpasses := passes_replacement_iff hkind hcancel newPrice newQty
  have hkind' := hkind.replacement id newPrice newQty
  dsimp only
  cases addOrder_cases (b.cancelOrder id).2 (replacement existing id newPrice newQty) with
  | rejected reason hr hfail hquiet =>
      have hrefused : RefusesReplacement b existing id newPrice newQty := by
        by_contra hnot
        exact not_passes_of_rejected hr (hpasses.mpr hnot)
      rw [if_pos hrefused]
      refine ⟨hfail, ?_⟩
      rw [hquiet.store_eq, hcancel.store_eq]
      simp only [Store.getElem?_orders_cancelOrder, if_true]
  | killed _ hkills => exact absurd hkills hkind'.not_killsRemainder
  | rested hr _ _ hok =>
      rw [if_neg (hpasses.mp (rejectReason_eq_none_iff.mp hr))]
      exact hok
  | passed hr _ _ hok =>
      rw [if_neg (hpasses.mp (rejectReason_eq_none_iff.mp hr))]
      exact hok

/-- **A failed replace changes nothing, unless it loses the order.**  In every book that a run of
calls leads to, whatever is replaced by what. -/
theorem failed_replace_unchanged_iff (symbol : Symbol) (config : OrderBookConfig)
    (onTrade onExecution onBbo : Bool) (clock : Stream' Timestamp) (ops : List Op)
    (uninit : OrderResult) (id : OrderId) (newPrice : Price) (newQty : Quantity) :
    let b := after (new symbol config onTrade onExecution onBbo clock) ops
    let replaced := b.replaceOrder uninit id newPrice newQty
    (replaced.1.success = false → replaced.2.store = b.store) ↔
      ¬ LosesOrder b id newPrice newQty := by
  intro b replaced
  have hrestable : AllOrders b.store Restable := restable_after ops
  cases replaceOrder_cases b uninit id newPrice newQty with
  | missing hnone _ hsame =>
      refine iff_of_true (fun _ => congrArg OrderBook.store hsame) ?_
      rintro ⟨existing, ho, -⟩
      rw [hnone] at ho
      cases ho
  | inPlace hin hok _ =>
      refine iff_of_true (fun hfail => ?_) ?_
      · rw [hok] at hfail
        cases hfail
      · rintro ⟨existing, ho, hmoved, -⟩
        rw [hin.order_eq] at ho
        cases ho
        exact nomatch hin.level_eq.symm.trans (hmoved hin.price_eq)
  | @moved existing ho hmoved hres hbook =>
      have hadded := replace_moved ho (hrestable _ _ ho) newPrice newQty
      simp only [← hres, ← hbook] at hadded
      have hloses : LosesOrder b id newPrice newQty ↔
          RefusesReplacement b existing id newPrice newQty := by
        refine ⟨?_, fun h => ⟨existing, ho, hmoved, h⟩⟩
        rintro ⟨existing', ho', -, h⟩
        rw [ho] at ho'
        cases ho'
        exact h
      rw [hloses]
      split_ifs at hadded with hrefused
      · refine iff_of_false (fun hsame => ?_) (not_not.mpr hrefused)
        rw [hsame hadded.1, ho] at hadded
        exact nomatch hadded.2
      · refine iff_of_true (fun hfail => ?_) hrefused
        rw [hadded] at hfail
        cases hfail

/-- A post-only sell at 105 is replaced by one at 100, where there is a bid: the replace fails and
the sell is gone. -/
theorem failed_replace_loses_order :
    let b := after (makeBook {}) [.add { limitOrder 1 .Sell 105 10 with type := .PostOnly },
      .add (limitOrder 2 .Buy 100 10)]
    let replaced := b.replaceOrder {} 1 100 10
    replaced.1.success = false ∧ replaced.2.store ≠ b.store ∧
      b.store.orders.contains 1 = true ∧ replaced.2.store.orders.contains 1 = false := by
  have hbefore : (after (makeBook {}) [.add { limitOrder 1 .Sell 105 10 with type := .PostOnly },
      .add (limitOrder 2 .Buy 100 10)]).store.orders.contains 1 = true := by decide +kernel
  have hafter : ((after (makeBook {}) [.add { limitOrder 1 .Sell 105 10 with type := .PostOnly },
      .add (limitOrder 2 .Buy 100 10)]).replaceOrder {} 1 100 10).2.store.orders.contains 1
        = false := by decide +kernel
  refine ⟨by decide +kernel, fun heq => ?_, hbefore, hafter⟩
  rw [heq, hbefore] at hafter
  cases hafter

end Exchange.OrderBook
