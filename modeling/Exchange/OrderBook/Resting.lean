import Exchange.OrderBook.Agreement
import Exchange.OrderBook.Reports

/-!
# What becomes of a resting order

An order that rests keeps its place in `orders_` through every call that is not a replace, changed
in what is filled of it only, until a fill completes it or a cancel takes it out.

`RestsAs` is what one says of an order as long as it rests, and `Ended` what a call has done when it
does not any more.
-/

namespace Exchange

namespace Order

/-- The order later on: more may have been filled of it. -/
def Later (o o' : Order) : Prop := { o' with filledQty := o.filledQty, status := o.status } = o

lemma Later.refl (o : Order) : o.Later o := rfl

lemma Later.fill {o o' : Order} (h : o.Later o') (q : Quantity) : o.Later (o'.fill q).2 := by
  refine Eq.trans ?_ h
  simp only [Order.fill]
  split_ifs <;> rfl

end Order

/-- The fill leaves nothing of the maker open. -/
def Fill.Completes (f : Fill) (id : OrderId) : Prop :=
  f.maker.id = id ∧ f.maker.filledQty.toNat + f.quantity.toNat = f.maker.quantity.toNat

namespace OrderBook

open MatchState

/-- The order rests, as it was or with more filled of it. -/
def RestsAs (b : OrderBook) (id : OrderId) (o : Order) : Prop :=
  ∃ o', b.store.orders[id]? = some o' ∧ o.Later o'

variable {b b' : OrderBook} {order : Order} {id : OrderId} {o : Order}

lemma RestsAs.quiet (h : RestsAs b id o) (hquiet : Quiet b b') : RestsAs b' id o := by
  obtain ⟨o', ho', hlater⟩ := h
  exact ⟨o', by rwa [hquiet.store_eq], hlater⟩

/-! ## Matching -/

/-- What holds while an order is matched against `b`. -/
structure Followed (b : OrderBook) (m : MatchState) : Prop where
  id_eq : ∀ (id : OrderId) (o : Order), m.book.store.orders[id]? = some o → o.id = id
  filled_le : ∀ (id : OrderId) (o : Order), m.book.store.orders[id]? = some o →
    o.filledQty ≤ o.quantity
  followed : ∃ fills, m.book.history.executed = b.history.executed ++ fills ∧
    ∀ id o, RestsAs b id o → RestsAs m.book id o ∨ ∃ f ∈ fills, f.Completes id

lemma Followed.congr {m m' : MatchState} (h : Followed b m)
    (horders : m'.book.store.orders = m.book.store.orders)
    (hexecuted : m'.book.history.executed = m.book.history.executed) : Followed b m' where
  id_eq id o ho := h.id_eq id o (horders ▸ ho)
  filled_le id o ho := h.filled_le id o (horders ▸ ho)
  followed := by
    obtain ⟨fills, hfills, hall⟩ := h.followed
    refine ⟨fills, hexecuted.trans hfills, fun id o hrests => (hall id o hrests).imp ?_ fun h => h⟩
    rintro ⟨o', ho', hlater⟩
    exact ⟨o', by rwa [horders], hlater⟩

theorem Followed.fillFront {p : Price} {m : MatchState} {level : PriceLevel} {n : OrderNode}
    {rest : List OrderNode} {resting : Order} (h : Followed b m)
    (hfill : AtFill p m level n rest resting) :
    Followed b (m.fillFront p level n.orderId resting) := by
  have hid := h.id_eq _ _ hfill.order_eq
  have hle := h.filled_le _ _ hfill.order_eq
  have hq : m.fillQty resting ≤ resting.remaining := Order.min_quantity_le_right _ _
  refine ⟨fun id o ho => ?_, fun id o ho => ?_, ?_⟩
  · rw [store_fillFront, getElem?_orders_fillStore] at ho
    split_ifs at ho with hi hfilled
    · cases ho
      rw [Order.fill_id, hid, hi]
    · exact h.id_eq id o ho
  · rw [store_fillFront, getElem?_orders_fillStore] at ho
    split_ifs at ho with hi hfilled
    · cases ho
      exact Order.fill_le hle hq
    · exact h.filled_le id o ho
  · obtain ⟨fills, hfills, hall⟩ := h.followed
    let fill : Fill :=
      { taker := m.order
        maker := resting
        price := p
        quantity := m.fillQty resting
        resting := m.book.store.orders
        entered := m.book.history.entered }
    refine ⟨fills ++ [fill], ?_, fun id o hrests => ?_⟩
    · rw [← List.append_assoc, ← hfills]
      rfl
    · rcases hall id o hrests with ⟨o', ho', hlater⟩ | ⟨f, hf, hcompletes⟩
      · by_cases hi : id = n.orderId
        · have hsame : o' = resting := by
            rw [hi, hfill.order_eq] at ho'
            exact (Option.some.inj ho').symm
          by_cases hfilled : (resting.fill (m.fillQty resting)).2.isFilled = true
          · -- the maker is complete
            refine Or.inr ⟨fill, List.mem_append_right _ List.mem_cons_self, hid.trans hi.symm, ?_⟩
            have hall := (Order.fill_isFilled_iff hle hq).mp hfilled
            show resting.filledQty.toNat + (m.fillQty resting).toNat = resting.quantity.toNat
            rw [hall, Order.toNat_remaining hle, Order.leaves]
            have := UInt32.le_iff_toNat_le.mp hle
            omega
          · refine Or.inl ⟨(resting.fill (m.fillQty resting)).2, ?_, ?_⟩
            · rw [store_fillFront, getElem?_orders_fillStore, if_pos hi, if_neg hfilled]
            · exact (hsame ▸ hlater).fill _
        · refine Or.inl ⟨o', ?_, hlater⟩
          rw [store_fillFront, getElem?_orders_fillStore, if_neg hi, ho']
      · exact Or.inr ⟨f, List.mem_append_left _ hf, hcompletes⟩

theorem followed_invariant (b : OrderBook) :
    MatchInvariant (Followed b) fun _ => Followed b :=
  .of_uniform (fun _ h => h.congr (by simp [refreshBest]) rfl)
    (fun _ _ _ _ _ h _ _ => h.congr (by simp) rfl) (fun _ h => h.congr rfl rfl)
    (fun _ _ _ _ _ _ h hfill => h.fillFront hfill)
    (fun _ _ _ h _ _ => h.congr (by simp) rfl)

/-! ## Calls -/

/-- Matching leaves the order in the book or completes it. -/
lemma RestsAs.matchOrder (h : RestsAs b id o) (hb : b.store.Agrees) (order : Order) :
    RestsAs (b.matchOrder order).book id o ∨
      ∃ f ∈ fillsSince b (b.matchOrder order).book, f.Completes id := by
  obtain ⟨-, -, fills, hfills, hall⟩ := (followed_invariant b).matchOrder b order
    ⟨fun _ _ ho => hb.id_eq ho, fun _ _ ho => hb.filled_le ho, [], by simp,
      fun _ _ h => Or.inl h⟩
  rw [fillsSince_append hfills]
  exact hall id o h

lemma RestsAs.addOrder (h : RestsAs b id o) (hb : b.store.Agrees) (order : Order) :
    RestsAs (b.addOrder order).2 id o ∨
      ∃ f ∈ fillsSince b (b.addOrder order).2, f.Completes id := by
  have hmatched := h.matchOrder hb (withMarketPrice order)
  cases addOrder_cases b order with
  | rejected _ _ _ hquiet => exact Or.inl (h.quiet hquiet)
  | killed _ _ _ _ hquiet =>
      rw [fillsSince, hquiet.history_eq]
      exact hmatched.imp (fun h => h.quiet hquiet) fun h => h
  | rested hr _ _ _ _ hquiet =>
      rw [fillsSince, hquiet.history_eq, executed_insertRestingOrder]
      refine hmatched.imp (fun hrests => ?_) fun h => h
      obtain ⟨o', ho', hlater⟩ := hrests
      refine RestsAs.quiet ⟨o', ?_, hlater⟩ hquiet
      refine (Store.getElem?_orders_insertRestingOrder _ _ id).trans ?_
      -- the new order has an id that no resting order has
      rw [if_neg ?_, ho']
      rintro rfl
      rw [(matchOrder_sameTaker b _).id_eq, withMarketPrice_id,
        matchOrder_orders_none b _ (rejectReason_eq_none_iff.mp hr).id_new] at ho'
      cases ho'
  | passed _ _ _ _ _ hquiet =>
      rw [fillsSince, hquiet.history_eq]
      exact hmatched.imp (fun h => h.quiet hquiet) fun h => h

lemma RestsAs.cancelOrder (h : RestsAs b id o) (id' : OrderId) :
    RestsAs (b.cancelOrder id').2 id o ∨ (id' = id ∧ (b.cancelOrder id').1.success = true) := by
  cases cancelOrder_cases b id' with
  | missing _ _ hsame =>
      rw [hsame]
      exact Or.inl h
  | @cancelled order _ hok hquiet =>
      by_cases hid : id = id'
      · exact Or.inr ⟨hid.symm, hok⟩
      · obtain ⟨o', ho', hlater⟩ := h
        refine Or.inl (RestsAs.quiet ⟨o', ?_, hlater⟩ hquiet)
        show (b.store.cancelOrder id' order).orders[id]? = some o'
        rw [Store.getElem?_orders_cancelOrder, if_neg hid, ho']

/-- The call has completed the order, or cancelled it. -/
def Ended (b : OrderBook) (op : Op) (id : OrderId) : Prop :=
  (∃ f ∈ fillsSince b (apply b op), f.Completes id) ∨
    (op = .cancel id ∧ (b.cancelOrder id).1.success = true)

/-- **No call but a replace loses an order.** -/
theorem RestsAs.apply (h : RestsAs b id o) (hb : b.store.Agrees) {op : Op} (hop : NoReplace b op) :
    RestsAs (apply b op) id o ∨ Ended b op id := by
  cases op with
  | add order => exact (h.addOrder hb order).imp_right Or.inl
  | cancel id' =>
      refine (h.cancelOrder id').imp_right ?_
      rintro ⟨rfl, hok⟩
      exact Or.inr ⟨rfl, hok⟩
  | replace => cases hop
  | flush => exact Or.inl h

end OrderBook

end Exchange
