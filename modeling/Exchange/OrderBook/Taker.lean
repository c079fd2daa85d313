import Exchange.OrderBook.Walk

/-!
# What becomes of the order added

`match_order` works on the order that `add_order` was given, which afterwards has what it was filled
by (`filledQty_matchOrder`) and a status to match (`status_matchOrder`).  The result and the reports
are made from it.
-/

namespace Exchange.OrderBook

open MatchState

variable {b : OrderBook} {order : Order}

/-- Matching fills the order by what it trades. -/
lemma filledQty_matchOrder (b : OrderBook) (order : Order) :
    ∃ fills, (b.matchOrder order).book.history.executed = b.history.executed ++ fills ∧
      (b.matchOrder order).order.filledQty.toNat
        = order.filledQty.toNat + (fills.map (·.quantity.toNat)).sum := by
  have hinv : MatchInvariant
      (fun m => ∃ fills, m.book.history.executed = b.history.executed ++ fills ∧
        m.order.filledQty.toNat = order.filledQty.toNat + (fills.map (·.quantity.toNat)).sum)
      (fun _ m => ∃ fills, m.book.history.executed = b.history.executed ++ fills ∧
        m.order.filledQty.toNat
          = order.filledQty.toNat + (fills.map (·.quantity.toNat)).sum) := by
    refine .of_uniform (fun _ h => h) (fun _ _ _ _ _ h _ _ => h) (fun _ h => h) ?_
      fun _ _ _ h _ _ => h
    rintro p m level n rest resting ⟨fills, hexecuted, hfilled⟩ hfill
    have hle : m.order.filledQty ≤ m.order.quantity :=
      UInt32.le_of_lt (Order.not_isFilled_iff.mp hfill.notFilled)
    have hq : m.fillQty resting ≤ m.order.remaining := Order.min_quantity_le_left _ _
    refine ⟨fills ++ [{
        taker := m.order
        maker := resting
        price := p
        quantity := m.fillQty resting
        resting := m.book.store.orders
        entered := m.book.history.entered }], ?_, ?_⟩
    · rw [← List.append_assoc, ← hexecuted]
      rfl
    · rw [order_fillFront, Order.toNat_fill_filledQty hle hq, hfilled]
      simp [Nat.add_assoc]
  exact hinv.matchOrder b order ⟨[], by simp, by simp⟩

/-- The status that goes with what is filled of an order. -/
def statusOf (o : Order) : OrderStatus :=
  if o.filledQty = 0 then .New else if o.isFilled then .Filled else .PartiallyFilled

lemma statusOf_fill {o : Order} (hopen : o.isFilled = false) (h : o.status = statusOf o)
    (q : Quantity) : (o.fill q).2.status = statusOf (o.fill q).2 := by
  have hlt := UInt32.lt_iff_toNat_lt.mp (Order.not_isFilled_iff.mp hopen)
  rw [Order.fill_status, statusOf]
  by_cases hzero : (o.fill q).2.filledQty = 0
  · -- nothing is filled now, so nothing was filled before
    have hnone : ¬ (o.fill q).2.filledQty > 0 := by
      rw [hzero]
      exact UInt32.lt_irrefl 0
    have hnot : ¬ (o.fill q).2.isFilled = true := by
      rw [Order.isFilled_iff, hzero, Order.fill_quantity, UInt32.le_iff_toNat_le]
      exact Nat.not_le_of_lt (Nat.zero_lt_of_lt hlt)
    have hold : o.filledQty = 0 := by
      have hroom := UInt32.le_iff_toNat_le.mp (Order.min_quantity_le_right q o.remaining)
      have hsum := congrArg UInt32.toNat hzero
      have hquantity := o.quantity.toNat_lt
      rw [Order.toNat_remaining (UInt32.le_of_lt (Order.not_isFilled_iff.mp hopen)),
        Order.leaves] at hroom
      rw [Order.fill_filledQty, UInt32.toNat_add, Nat.mod_eq_of_lt (by omega)] at hsum
      rw [← UInt32.toNat_inj]
      exact (Nat.add_eq_zero_iff.mp hsum).1
    rw [if_neg hnot, if_neg hnone, if_pos hzero, h, statusOf, if_pos hold]
  · have hpos : (o.fill q).2.filledQty > 0 := by
      rw [gt_iff_lt, UInt32.lt_iff_toNat_lt]
      refine Nat.pos_of_ne_zero fun h => hzero ?_
      rw [← UInt32.toNat_inj, h]
      rfl
    rw [if_neg hzero, if_pos hpos]

/-- Matching leaves a fresh order with the status that it has earned. -/
lemma status_matchOrder (b : OrderBook) {order : Order} (h : order.status = statusOf order) :
    (b.matchOrder order).order.status = statusOf (b.matchOrder order).order := by
  have hinv : MatchInvariant (fun m => m.order.status = statusOf m.order)
      fun _ m => m.order.status = statusOf m.order := by
    refine .of_uniform (fun _ h => h) (fun _ _ _ _ _ h _ _ => h) (fun _ h => h) ?_
      fun _ _ _ h _ _ => h
    intro p m level n rest resting h hfill
    rw [order_fillFront]
    exact statusOf_fill hfill.notFilled h _
  exact hinv.matchOrder b order h

/-- What an order trades that passes the checks. -/
def tradable (b : OrderBook) (order : Order) : Nat := min order.leaves (b.supply order)

lemma sum_fills (hb : b.store.Sound) {fills : List Fill}
    (hexecuted : (b.matchOrder (withMarketPrice order)).book.history.executed
      = b.history.executed ++ fills) :
    (fills.map (·.quantity.toNat)).sum = b.tradable order := by
  obtain ⟨-, fills', hexecuted', hdrawn⟩ := matchOrder_contenders hb order
  obtain rfl : fills' = fills := List.append_cancel_left (hexecuted'.symm.trans hexecuted)
  have hsum := congrArg (fun l => (l.map (·.2)).sum) hdrawn
  simp only [draws, Draw.sum_drawn, List.map_map] at hsum
  rw [Draw.reach, List.takeWhile_eq_self_iff.mpr (by simp)] at hsum
  exact hsum

/-- **The result of `add_order`**: it succeeds unless the order is refused or killed, and reports
what was filled before together with what it traded. -/
theorem addOrder_result (hb : b.store.Sound) (order : Order) :
    ((b.addOrder order).1.success = true ↔ Passes b order ∧ ¬ Killed b order) ∧
      ((b.addOrder order).1.success = true →
        (b.addOrder order).1.filledQty.toNat = order.filledQty.toNat + b.tradable order) := by
  obtain ⟨hopen_iff, -⟩ := matchOrder_contenders hb order
  obtain ⟨fills, hexecuted, hfilled⟩ := filledQty_matchOrder b (withMarketPrice order)
  rw [withMarketPrice_filledQty, sum_fills hb hexecuted] at hfilled
  cases addOrder_cases b order with
  | rejected _ hr hfail _ =>
      rw [hfail]
      exact ⟨iff_of_false Bool.false_ne_true fun h => not_passes_of_rejected hr h.1,
        fun h => absurd h Bool.false_ne_true⟩
  | killed hr hkills hopen hfail _ =>
      rw [hfail]
      exact ⟨iff_of_false Bool.false_ne_true fun h =>
        h.2 ⟨rejectReason_eq_none_iff.mp hr, hkills, hopen_iff.mp hopen⟩,
        fun h => absurd h Bool.false_ne_true⟩
  | rested hr hkind _ hok hqty _ =>
      rw [hok, hqty]
      exact ⟨iff_of_true rfl ⟨rejectReason_eq_none_iff.mp hr,
        fun h => hkind.not_killsRemainder h.kind⟩, fun _ => hfilled⟩
  | passed hr _ hkills hok hqty _ =>
      rw [hok, hqty]
      exact ⟨iff_of_true rfl ⟨rejectReason_eq_none_iff.mp hr, fun h =>
        h.not_filled hb (hkills h.kind)⟩, fun _ => hfilled⟩

end Exchange.OrderBook
