import Exchange.OrderBook.Calls

/-!
# The ids a book knows

`orders_` has an entry for each order that rests.  A call brings at most one id into it, that of an
order it accepts; a cancelled order's id is free again.

* `addOrder_duplicate_iff` — when an order is refused as a duplicate;
* `addOrder_orders_none`, `cancelOrder_orders_none`, `replaceOrder_orders_none` — an id stays
  unknown until an order is accepted under it;
* `cancelOrder_orders_self` — a cancelled id is unknown.
-/

namespace Exchange

namespace OrderBook

open MatchState

variable {b : OrderBook} {order : Order} {id : OrderId}

lemma rejectReason_settle (b : OrderBook) (order : Order) :
    (b.settle order).1.rejectReason ≠ .DuplicateOrderId := by
  have hfinish : ∀ b : OrderBook, (b.finish order).1.rejectReason = .None := fun _ => rfl
  rw [settle]
  split_ifs
  all_goals
    try rw [hfinish]
    exact RejectReason.noConfusion

/-- An order is refused as a duplicate if its id is taken, and it is not refused before. -/
lemma addOrder_duplicate_iff : (b.addOrder order).1.success = false ∧
    (b.addOrder order).1.rejectReason = .DuplicateOrderId ↔
      order.quantity ≠ 0 ∧ ¬ (order.type = .Limit ∧ order.price ≤ 0) ∧
        b.store.orders[order.id]? ≠ none := by
  have hreason : b.rejectReason order = some .DuplicateOrderId ↔
      order.quantity ≠ 0 ∧ ¬ (order.type = .Limit ∧ order.price ≤ 0) ∧
        b.store.orders[order.id]? ≠ none := by
    rw [← Option.isSome_iff_ne_none, ← Std.ExtTreeMap.contains_eq_isSome_getElem?]
    simp only [rejectReason, withMarketPrice_id]
    split_ifs <;> simp_all
  rw [← hreason, addOrder]
  cases hr : b.rejectReason order with
  | none =>
      exact iff_of_false (fun h => rejectReason_settle _ _ h.2) (Option.some_ne_none _).symm
  | some reason => simp

/-- Only an order that is accepted brings a new id into the book. -/
lemma addOrder_orders_none (h : b.store.orders[id]? = none)
    (hnew : id = order.id → (b.addOrder order).1.success = false) :
    (b.addOrder order).2.store.orders[id]? = none := by
  have hmatched := matchOrder_orders_none b (withMarketPrice order) h
  have hcases := addOrder_cases b order
  revert hcases hnew
  generalize b.addOrder order = res
  intro hnew hcases
  cases hcases with
  | rejected _ _ _ hquiet => rw [hquiet.store_eq, h]
  | killed _ _ _ _ hquiet => rw [hquiet.store_eq, hmatched]
  | rested _ _ _ hok _ hquiet =>
      rw [hquiet.store_eq]
      refine (Store.getElem?_orders_insertRestingOrder _ _ id).trans ?_
      rw [if_neg fun hid => ?_, hmatched]
      rw [(matchOrder_sameTaker b _).id_eq, withMarketPrice_id] at hid
      rw [hnew hid] at hok
      cases hok
  | passed _ _ _ _ _ hquiet => rw [hquiet.store_eq, hmatched]

lemma cancelOrder_orders_none {id' : OrderId} (h : b.store.orders[id]? = none) :
    (b.cancelOrder id').2.store.orders[id]? = none := by
  cases cancelOrder_cases b id' with
  | missing _ _ hsame => rw [hsame, h]
  | @cancelled order _ _ hquiet =>
      rw [hquiet.store_eq]
      refine (Store.getElem?_orders_cancelOrder b.store id' order id).trans ?_
      split_ifs
      · rfl
      · exact h

/-- A cancel succeeds if the order rests. -/
lemma cancelOrder_success_iff : (b.cancelOrder id).1.success = true ↔
    b.store.orders[id]? ≠ none := by
  cases ho : b.store.orders[id]? with
  | none =>
      rw [cancelOrder_of_none ho]
      simp
  | some o =>
      rw [cancelOrder_of_some ho]
      simp

lemma cancelOrder_orders_self (b : OrderBook) (id : OrderId) :
    (b.cancelOrder id).2.store.orders[id]? = none := by
  cases cancelOrder_cases b id with
  | missing ho _ hsame => rw [hsame, ho]
  | @cancelled order _ _ hquiet =>
      rw [hquiet.store_eq]
      refine (Store.getElem?_orders_cancelOrder b.store id order id).trans ?_
      rw [if_pos rfl]

/-- A replacement has the id of the order it replaces. -/
lemma replaceOrder_orders_none {uninit : OrderResult} {id' : OrderId} {newPrice : Price}
    {newQty : Quantity} (h : b.store.orders[id]? = none) :
    (b.replaceOrder uninit id' newPrice newQty).2.store.orders[id]? = none := by
  cases replaceOrder_cases b uninit id' newPrice newQty with
  | missing _ _ hsame => rw [hsame, h]
  | @inPlace existing level hin _ hquiet =>
      have hid : id ≠ id' := by
        rintro rfl
        exact absurd (h.symm.trans hin.order_eq) nofun
      rw [hquiet.store_eq]
      show (amend b.store id' existing level newQty).orders[id]? = none
      rw [amend, Store.getElem?_setOrder, Store.orders_setLevel, if_neg hid, h]
  | moved ho _ _ hbook =>
      rw [hbook]
      refine addOrder_orders_none (cancelOrder_orders_none h) fun hid => ?_
      -- the order that is added has the id of the one that was there
      have hid : id = id' := hid
      rw [← hid, h] at ho
      cases ho

end OrderBook

end Exchange
