import Exchange.Core.Run
import Exchange.OrderBook.Matching

/-!
# What a call can do

One case analysis for each public operation, over which every later statement about calls and runs
is proved.  Notifications change nothing that matching reads: `Quiet b b'` says that `b'` is `b`
after some of them, so each case names the book the call leaves up to `Quiet`.

The second half fixes the vocabulary of runs: `Fresh` orders, `ValidPrice`s and the conditions on
calls that the results about runs assume.  `CallInvariant` is how they are proved: a property that
survives what a call does to a book is kept by every call (`CallInvariant.step`) and every run
(`CallInvariant.run`).
-/

namespace Exchange.OrderBook

open MatchState

/-! ## Notifications -/

/-- `b'` differs from `b` by notifications only, none of which is a trade. -/
structure Quiet (b b' : OrderBook) : Prop where
  store_eq : b'.store = b.store
  history_eq : b'.history = b.history
  config_eq : b'.config = b.config
  symbol_eq : b'.symbol = b.symbol
  trades_eq : b'.feed.trades = b.feed.trades
  live : b.feed.Live b.config → b'.feed.Live b.config

namespace Quiet

lemma refl (b : OrderBook) : Quiet b b := ⟨rfl, rfl, rfl, rfl, rfl, fun h => h⟩

lemma trans {a b c : OrderBook} (h : Quiet a b) (h' : Quiet b c) : Quiet a c where
  store_eq := h'.store_eq.trans h.store_eq
  history_eq := h'.history_eq.trans h.history_eq
  config_eq := h'.config_eq.trans h.config_eq
  symbol_eq := h'.symbol_eq.trans h.symbol_eq
  trades_eq := h'.trades_eq.trans h.trades_eq
  live hl := by
    have := h'.live (by rw [h.config_eq]; exact h.live hl)
    rwa [h.config_eq] at this

lemma emitExecutionReport (b : OrderBook) (order : Order) (filled : Quantity) (avg : Price) :
    Quiet b (b.emitExecutionReport order filled avg) :=
  ⟨rfl, rfl, rfl, rfl, by simp [OrderBook.emitExecutionReport],
    fun h => h.emitExecutionReport order filled avg⟩

lemma flushTrades (b : OrderBook) : Quiet b b.flushTrades :=
  ⟨rfl, rfl, rfl, rfl, by simp [OrderBook.flushTrades], fun h => h.flushTrades⟩

lemma maybeEmitBbo (b : OrderBook) : Quiet b b.maybeEmitBbo :=
  ⟨rfl, rfl, rfl, rfl, by simp [OrderBook.maybeEmitBbo], fun h => h.maybeEmitBbo b.symbol b.store⟩

lemma finish (b : OrderBook) (order : Order) : Quiet b (b.finish order).2 := by
  have hreport : Quiet b (if order.filledQty > 0 then
      b.emitExecutionReport order order.filledQty (avgFillPrice order) else b) := by
    split_ifs
    · exact emitExecutionReport b order _ _
    · exact refl b
  rw [OrderBook.finish]
  dsimp only
  split_ifs
  all_goals first
    | exact (emitExecutionReport b order _ _).trans (flushTrades _)
    | exact emitExecutionReport b order _ _
    | exact flushTrades b
    | exact refl b

end Quiet

/-- An insertion executes nothing. -/
lemma executed_insertRestingOrder (b : OrderBook) (order : Order) :
    (b.insertRestingOrder order).history.executed = b.history.executed := by
  rw [OrderBook.insertRestingOrder]
  rw [(Quiet.maybeEmitBbo _).history_eq]

/-! ## `add_order` -/

@[simp] lemma withMarketPrice_id (o : Order) : (withMarketPrice o).id = o.id := by
  rw [withMarketPrice]; split <;> rfl

@[simp] lemma withMarketPrice_quantity (o : Order) :
    (withMarketPrice o).quantity = o.quantity := by
  rw [withMarketPrice]; split <;> rfl

@[simp] lemma withMarketPrice_filledQty (o : Order) :
    (withMarketPrice o).filledQty = o.filledQty := by
  rw [withMarketPrice]; split <;> rfl

@[simp] lemma withMarketPrice_side (o : Order) : (withMarketPrice o).side = o.side := by
  rw [withMarketPrice]; split <;> rfl

@[simp] lemma withMarketPrice_type (o : Order) : (withMarketPrice o).type = o.type := by
  rw [withMarketPrice]; split <;> rfl

@[simp] lemma withMarketPrice_tif (o : Order) : (withMarketPrice o).tif = o.tif := by
  rw [withMarketPrice]; split <;> rfl

lemma leaves_withMarketPrice (o : Order) : (withMarketPrice o).leaves = o.leaves := by
  rw [Order.leaves, Order.leaves, withMarketPrice_quantity, withMarketPrice_filledQty]

lemma withMarketPrice_price {o : Order} (h : o.type ≠ .Market) :
    (withMarketPrice o).price = o.price := by
  rw [withMarketPrice, if_neg h]

/-- The kinds of order whose remainder is put in the book. -/
structure Restable (o : Order) : Prop where
  type_ok : o.type = .Limit ∨ o.type = .PostOnly
  tif_ok : o.tif = .Day ∨ o.tif = .GoodTillCancel

/-- Limit and post-only orders keep their price. -/
lemma Restable.withMarketPrice_eq {o : Order} (h : Restable o) : withMarketPrice o = o := by
  rw [withMarketPrice, if_neg]
  rcases h.type_ok with ht | ht <;> simp [ht]

lemma Restable.not_immediate {o : Order} (h : Restable o) :
    ¬ (o.tif = .ImmediateOrCancel ∨ o.type = .ImmediateOrCancel) := by
  obtain ⟨h1 | h1, h2 | h2⟩ := h <;> simp [h1, h2]

lemma Restable.not_isFillOrKill {o : Order} (h : Restable o) : isFillOrKill o = false := by
  obtain ⟨h1 | h1, h2 | h2⟩ := h <;> simp [isFillOrKill, h1, h2]

/-- An order that passes every check made before matching. -/
structure Passes (b : OrderBook) (order : Order) : Prop where
  quantity_ne : order.quantity ≠ 0
  price_pos : order.type = .Limit → 0 < order.price
  id_new : b.store.orders[order.id]? = none
  post_only : order.type = .PostOnly → b.config.enablePostOnlyRejection = true →
    postOnlyWouldCross b.store (withMarketPrice order) = false
  displayed : isFillOrKill order = true → order.quantity ≤
    availableQuantity (withMarketPrice order) (b.store.levels order.side.opposite).toList 0

lemma isFillOrKill_withMarketPrice (o : Order) :
    isFillOrKill (withMarketPrice o) = isFillOrKill o := by
  simp [isFillOrKill]

theorem rejectReason_eq_none_iff {b : OrderBook} {order : Order} :
    b.rejectReason order = none ↔ Passes b order := by
  have hnew : b.store.orders.contains order.id = true ↔ ¬ b.store.orders[order.id]? = none := by
    rw [Std.ExtTreeMap.contains_eq_isSome_getElem?]
    cases b.store.orders[order.id]? <;> simp
  rw [rejectReason]
  simp only [withMarketPrice_id, withMarketPrice_type, withMarketPrice_quantity,
    withMarketPrice_side, isFillOrKill_withMarketPrice]
  constructor
  · intro h
    split_ifs at h with h1 h2 h3 h4 h5
    refine ⟨h1, fun ht => ?_, by_contra fun hne => h3 (hnew.mpr hne), fun ht he => ?_,
      fun hf => ?_⟩
    · exact Int64.not_le.mp fun hle => h2 ⟨ht, hle⟩
    · exact Bool.eq_false_iff.mpr fun hc => h4 ⟨ht, he, hc⟩
    · exact UInt32.not_lt.mp fun hlt => h5 ⟨hf, hlt⟩
  · rintro ⟨h1, h2, h3, h4, h5⟩
    rw [if_neg h1, if_neg (fun h => Int64.not_le.mpr (h2 h.1) h.2), if_neg (fun h => hnew.mp h h3),
      if_neg (fun h => Bool.eq_false_iff.mp (h4 h.1 h.2.1) h.2.2),
      if_neg (fun h => UInt32.not_lt.mpr (h5 h.1) h.2)]

/-- A post-only order that `add_order` refuses for crossing. -/
structure CrossesPostOnly (b : OrderBook) (order : Order) : Prop where
  quantity_ne : order.quantity ≠ 0
  id_new : b.store.orders[order.id]? = none
  type_eq : order.type = .PostOnly
  enabled : b.config.enablePostOnlyRejection = true
  crosses : postOnlyWouldCross b.store order = true

theorem rejectReason_eq_wouldCross_iff {b : OrderBook} {order : Order} :
    b.rejectReason order = some .WouldCross ↔ CrossesPostOnly b order := by
  have hnew : b.store.orders.contains order.id = true ↔ ¬ b.store.orders[order.id]? = none := by
    rw [Std.ExtTreeMap.contains_eq_isSome_getElem?]
    cases b.store.orders[order.id]? <;> simp
  have hprice : order.type = .PostOnly → withMarketPrice order = order := fun ht => by
    rw [withMarketPrice, if_neg (by simp [ht])]
  rw [rejectReason]
  simp only [withMarketPrice_id, withMarketPrice_type]
  constructor
  · intro h
    split_ifs at h with h1 h2 h3 h4 h5
    · cases h
    · cases h
    · cases h
    · obtain ⟨htype, henabled, hcross⟩ := h4
      rw [hprice htype] at hcross
      exact ⟨h1, by_contra fun hne => h3 (hnew.mpr hne), htype, henabled, hcross⟩
    · cases h
  · rintro ⟨hquantity, hid, htype, henabled, hcross⟩
    rw [if_neg hquantity, if_neg fun h => by simp [htype] at h, if_neg fun h => hnew.mp h hid,
      hprice htype, if_pos ⟨htype, henabled, hcross⟩]

lemma not_passes_of_rejected {b : OrderBook} {order : Order} {reason : RejectReason}
    (hr : b.rejectReason order = some reason) : ¬ Passes b order := by
  intro h
  rw [rejectReason_eq_none_iff.mpr h] at hr
  cases hr

/-- The orders `add_order` rejects when matching has left them open. -/
structure KillsRemainder (o : Order) : Prop where
  fok : isFillOrKill o = true
  tif_ne : o.tif ≠ .ImmediateOrCancel
  type_ne : o.type ≠ .ImmediateOrCancel

lemma KillsRemainder.not_immediate {o : Order} (h : KillsRemainder o) :
    ¬ (o.tif = .ImmediateOrCancel ∨ o.type = .ImmediateOrCancel) :=
  not_or.mpr ⟨h.tif_ne, h.type_ne⟩

lemma Restable.not_killsRemainder {o : Order} (h : Restable o) : ¬ KillsRemainder o := by
  intro hk
  have hfok := hk.fok
  rw [h.not_isFillOrKill] at hfok
  cases hfok

/-- The ways out of `add_order`: what it returns and the book it leaves, notifications included. -/
inductive AddExit (b : OrderBook) (order : Order) : OrderResult × OrderBook → Prop
  | refused (reason : RejectReason) (h : b.rejectReason order = some reason)
      (hreason : reason ≠ .WouldCross) :
      AddExit b order ({ rejectReason := reason, orderId := order.id }, b)
  | wouldCross (h : b.rejectReason order = some .WouldCross) :
      AddExit b order ({ rejectReason := .WouldCross, orderId := order.id },
        b.emitExecutionReport (withMarketPrice order) 0 0)
  | killed (h : b.rejectReason order = none) (hkills : KillsRemainder order)
      (hopen : (b.matchOrder (withMarketPrice order)).order.isFilled = false) :
      AddExit b order
        ({ rejectReason := .InvalidQuantity
           orderId := (b.matchOrder (withMarketPrice order)).order.id
           avgFillPrice := avgFillPrice (b.matchOrder (withMarketPrice order)).order },
          (b.matchOrder (withMarketPrice order)).book)
  | rested (h : b.rejectReason order = none) (hkind : Restable order)
      (hopen : (b.matchOrder (withMarketPrice order)).order.isFilled = false) :
      AddExit b order (((b.matchOrder (withMarketPrice order)).book.insertRestingOrder
        (b.matchOrder (withMarketPrice order)).order).finish
          (b.matchOrder (withMarketPrice order)).order)
  /-- what an immediate-or-cancel order has left is reported and dropped -/
  | dropped (h : b.rejectReason order = none)
      (hioc : order.tif = .ImmediateOrCancel ∨ order.type = .ImmediateOrCancel)
      (hopen : (b.matchOrder (withMarketPrice order)).order.isFilled = false) :
      AddExit b order (((b.matchOrder (withMarketPrice order)).book.emitExecutionReport
        (b.matchOrder (withMarketPrice order)).order
        (b.matchOrder (withMarketPrice order)).order.filledQty
        (avgFillPrice (b.matchOrder (withMarketPrice order)).order)).finish
          (b.matchOrder (withMarketPrice order)).order)
  | finished (h : b.rejectReason order = none)
      (hgone : (b.matchOrder (withMarketPrice order)).order.isFilled = true ∨ ¬ Restable order)
      (hkills : KillsRemainder order →
        (b.matchOrder (withMarketPrice order)).order.isFilled = true) :
      AddExit b order ((b.matchOrder (withMarketPrice order)).book.finish
        (b.matchOrder (withMarketPrice order)).order)

/-- What matching leaves alone decides which way out is taken. -/
lemma settle_exit {b : OrderBook} {order : Order} (hr : b.rejectReason order = none) :
    AddExit b order ((b.matchOrder (withMarketPrice order)).book.settle
      (b.matchOrder (withMarketPrice order)).order) := by
  have htaker := matchOrder_sameTaker b (withMarketPrice order)
  have htype : (b.matchOrder (withMarketPrice order)).order.type = order.type := by
    rw [htaker.type_eq, withMarketPrice_type]
  have htif : (b.matchOrder (withMarketPrice order)).order.tif = order.tif := by
    rw [htaker.tif_eq, withMarketPrice_tif]
  have hfok : isFillOrKill (b.matchOrder (withMarketPrice order)).order = isFillOrKill order := by
    rw [isFillOrKill, isFillOrKill, htype, htif]
  rw [settle]
  rw [htype, htif, hfok]
  by_cases hioc : order.tif = .ImmediateOrCancel ∨ order.type = .ImmediateOrCancel
  · rw [if_pos hioc]
    by_cases hfilled : (b.matchOrder (withMarketPrice order)).order.isFilled = true
    · simp only [hfilled, Bool.not_true, Bool.false_eq_true, if_false]
      exact .finished hr (Or.inl hfilled) fun _ => hfilled
    · simp only [hfilled, Bool.not_false, if_true]
      exact .dropped hr hioc (by simpa using hfilled)
  rw [if_neg hioc]
  by_cases hk : isFillOrKill order = true
  · rw [if_pos hk]
    by_cases hfilled : (b.matchOrder (withMarketPrice order)).order.isFilled = true
    · simp only [hfilled, Bool.not_true, Bool.false_eq_true, if_false]
      exact .finished hr (Or.inl hfilled) fun _ => hfilled
    · simp only [hfilled, Bool.not_false, if_true]
      exact .killed hr ⟨hk, fun h => hioc (Or.inl h), fun h => hioc (Or.inr h)⟩
        (by simpa using hfilled)
  rw [if_neg hk]
  by_cases hfilled : (b.matchOrder (withMarketPrice order)).order.isFilled = true
  · simp only [hfilled, Bool.not_true, Bool.false_eq_true, false_and, if_false]
    exact .finished hr (Or.inl hfilled) fun h => absurd h.fok hk
  have hopen : (b.matchOrder (withMarketPrice order)).order.isFilled = false := by
    simpa using hfilled
  simp only [hopen, Bool.not_false, true_and]
  have htifs : order.tif = .Day ∨ order.tif = .GoodTillCancel := by
    cases htif' : order.tif <;> simp [isFillOrKill, htif'] at hioc hk ⊢
  split_ifs with hlimit hpost
  · exact .rested hr ⟨Or.inl hlimit, htifs⟩ hopen
  · exact .rested hr ⟨Or.inr hpost, htifs⟩ hopen
  · refine .finished hr (Or.inr ?_) fun h => absurd h.fok hk
    rintro ⟨h1 | h1, -⟩
    · exact hlimit h1
    · exact hpost h1

theorem addOrder_exit (b : OrderBook) (order : Order) : AddExit b order (b.addOrder order) := by
  rw [addOrder]
  cases hr : b.rejectReason order with
  | some reason =>
      dsimp only
      by_cases hcross : reason = .WouldCross
      · subst hcross
        rw [if_pos rfl]
        exact .wouldCross hr
      · rw [if_neg hcross]
        exact .refused reason hr hcross
  | none => exact settle_exit hr

/-- What `add_order` does, by what becomes of the order. -/
inductive AddCase (b : OrderBook) (order : Order) : OrderResult → OrderBook → Prop
  /-- refused before matching -/
  | rejected {res b'} (reason : RejectReason) (h : b.rejectReason order = some reason)
      (hfail : res.success = false) (hquiet : Quiet b b') : AddCase b order res b'
  /-- a fill-or-kill order that matching did not complete -/
  | killed {res b'} (h : b.rejectReason order = none) (hkills : KillsRemainder order)
      (hopen : (b.matchOrder (withMarketPrice order)).order.isFilled = false)
      (hfail : res.success = false)
      (hquiet : Quiet (b.matchOrder (withMarketPrice order)).book b') : AddCase b order res b'
  /-- the remainder rests -/
  | rested {res b'} (h : b.rejectReason order = none) (hkind : Restable order)
      (hopen : (b.matchOrder (withMarketPrice order)).order.isFilled = false)
      (hok : res.success = true)
      (hqty : res.filledQty = (b.matchOrder (withMarketPrice order)).order.filledQty)
      (hquiet : Quiet ((b.matchOrder (withMarketPrice order)).book.insertRestingOrder
        (b.matchOrder (withMarketPrice order)).order) b') : AddCase b order res b'
  /-- filled, or the remainder is dropped -/
  | passed {res b'} (h : b.rejectReason order = none)
      (hgone : (b.matchOrder (withMarketPrice order)).order.isFilled = true ∨ ¬ Restable order)
      (hkills : KillsRemainder order →
        (b.matchOrder (withMarketPrice order)).order.isFilled = true)
      (hok : res.success = true)
      (hqty : res.filledQty = (b.matchOrder (withMarketPrice order)).order.filledQty)
      (hquiet : Quiet (b.matchOrder (withMarketPrice order)).book b') : AddCase b order res b'

theorem addOrder_cases (b : OrderBook) (order : Order) :
    AddCase b order (b.addOrder order).1 (b.addOrder order).2 := by
  have hexit := addOrder_exit b order
  generalize b.addOrder order = added at hexit
  cases hexit with
  | refused reason hr _ => exact .rejected reason hr rfl (Quiet.refl b)
  | wouldCross hr => exact .rejected _ hr rfl (Quiet.emitExecutionReport _ _ _ _)
  | killed hr hkills hopen => exact .killed hr hkills hopen rfl (Quiet.refl _)
  | rested hr hkind hopen => exact .rested hr hkind hopen rfl rfl (Quiet.finish _ _)
  | dropped hr hioc _ =>
      exact .passed hr (Or.inr fun hkind => hkind.not_immediate hioc)
        (fun hk => absurd hioc hk.not_immediate) rfl rfl
        ((Quiet.emitExecutionReport _ _ _ _).trans (Quiet.finish _ _))
  | finished hr hgone hkills => exact .passed hr hgone hkills rfl rfl (Quiet.finish _ _)

/-- All fills of a call are those of matching. -/
lemma executed_addOrder {b : OrderBook} {order : Order} (h : Passes b order) :
    (b.addOrder order).2.history.executed
      = (b.matchOrder (withMarketPrice order)).book.history.executed := by
  cases addOrder_cases b order with
  | rejected _ hr => exact absurd h (not_passes_of_rejected hr)
  | killed _ _ _ _ hquiet => rw [hquiet.history_eq]
  | rested _ _ _ _ _ hquiet => rw [hquiet.history_eq, executed_insertRestingOrder]
  | passed _ _ _ _ _ hquiet => rw [hquiet.history_eq]

/-! ## `cancel_order` and `replace_order` -/

/-- What `cancel_order` does. -/
inductive CancelCase (b : OrderBook) (id : OrderId) : OrderResult → OrderBook → Prop
  | missing {res b'} (h : b.store.orders[id]? = none) (hfail : res.success = false)
      (hsame : b' = b) : CancelCase b id res b'
  | cancelled {res b'} {order : Order} (h : b.store.orders[id]? = some order)
      (hok : res.success = true)
      (hquiet : Quiet { b with store := b.store.cancelOrder id order } b') :
      CancelCase b id res b'

lemma cancelOrder_of_none {b : OrderBook} {id : OrderId} (h : b.store.orders[id]? = none) :
    b.cancelOrder id = ({ rejectReason := .OrderNotFound, orderId := id }, b) := by
  simp only [cancelOrder, h]

lemma cancelOrder_of_some {b : OrderBook} {id : OrderId} {order : Order}
    (h : b.store.orders[id]? = some order) :
    b.cancelOrder id = ({ success := true, orderId := id },
      { b with store := b.store.cancelOrder id order }.maybeEmitBbo) := by
  simp only [cancelOrder, h]

theorem cancelOrder_cases (b : OrderBook) (id : OrderId) :
    CancelCase b id (b.cancelOrder id).1 (b.cancelOrder id).2 := by
  cases ho : b.store.orders[id]? with
  | none =>
      rw [cancelOrder_of_none ho]
      exact .missing ho rfl rfl
  | some order =>
      rw [cancelOrder_of_some ho]
      exact .cancelled ho rfl (Quiet.maybeEmitBbo _)

/-- The store after the same-price branch of `replace_order`. -/
def amend (s : Store) (id : OrderId) (existing : Order) (level : PriceLevel) (newQty : Quantity) :
    Store :=
  (s.setLevel existing.side existing.price (level.modifyQuantity id newQty)).setOrder id
    { existing with quantity := newQty }

/-- The same-price branch of `replace_order` is taken, on the order `existing`. -/
structure InPlace (s : Store) (id : OrderId) (newPrice : Price) (existing : Order)
    (level : PriceLevel) : Prop where
  order_eq : s.orders[id]? = some existing
  price_eq : existing.price = newPrice
  level_eq : (s.levels existing.side)[existing.price]? = some level

/-- A replacement is of the kind of the order it replaces. -/
lemma Restable.replacement {existing : Order} (h : Restable existing) (id : OrderId)
    (newPrice : Price) (newQty : Quantity) :
    Restable (replacement existing id newPrice newQty) :=
  ⟨h.type_ok, h.tif_ok⟩

/-- What `replace_order` does. -/
inductive ReplaceCase (b : OrderBook) (id : OrderId) (newPrice : Price) (newQty : Quantity) :
    OrderResult → OrderBook → Prop
  | missing {res b'} (h : b.store.orders[id]? = none) (hfail : res.success = false)
      (hsame : b' = b) : ReplaceCase b id newPrice newQty res b'
  | inPlace {res b'} {existing : Order} {level : PriceLevel}
      (h : InPlace b.store id newPrice existing level) (hok : res.success = true)
      (hquiet : Quiet { b with store := amend b.store id existing level newQty } b') :
      ReplaceCase b id newPrice newQty res b'
  | moved {res b'} {existing : Order} (h : b.store.orders[id]? = some existing)
      (hmoved : existing.price = newPrice →
        (b.store.levels existing.side)[existing.price]? = none)
      (hres : res
        = ((b.cancelOrder id).2.addOrder (replacement existing id newPrice newQty)).1)
      (hbook : b'
        = ((b.cancelOrder id).2.addOrder (replacement existing id newPrice newQty)).2) :
      ReplaceCase b id newPrice newQty res b'

section Replace

variable {b : OrderBook} {id : OrderId} {newPrice : Price} {existing : Order}

lemma replaceOrder_of_none (h : b.store.orders[id]? = none) (uninit : OrderResult)
    (newPrice : Price) (newQty : Quantity) :
    b.replaceOrder uninit id newPrice newQty = ({ uninit with success := false }, b) := by
  simp only [replaceOrder, h]

lemma replaceOrder_of_inPlace {level : PriceLevel}
    (h : InPlace b.store id newPrice existing level) (uninit : OrderResult) (newQty : Quantity) :
    b.replaceOrder uninit id newPrice newQty = ({ uninit with success := true },
      { b with store := amend b.store id existing level newQty }.maybeEmitBbo) := by
  simp only [replaceOrder, h.order_eq, h.price_eq, if_true]
  rw [← h.price_eq]
  simp only [h.level_eq, amend]

lemma replaceOrder_of_moved (h : b.store.orders[id]? = some existing)
    (hmoved : existing.price = newPrice → (b.store.levels existing.side)[existing.price]? = none)
    (uninit : OrderResult) (newQty : Quantity) :
    b.replaceOrder uninit id newPrice newQty
      = (b.cancelOrder id).2.addOrder (replacement existing id newPrice newQty) := by
  have hok : (b.cancelOrder id).1.success = true := by
    rw [cancelOrder_of_some h]
  simp only [replaceOrder, h, hok, Bool.not_true, Bool.false_eq_true, if_false]
  split_ifs with hprice
  · simp only [hmoved hprice]
  · rfl

/-- Which of these it is. -/
lemma replace_ways (s : Store) (id : OrderId) (newPrice : Price) :
    s.orders[id]? = none ∨
      (∃ existing, s.orders[id]? = some existing ∧
        (existing.price = newPrice → (s.levels existing.side)[existing.price]? = none)) ∨
      ∃ existing level, InPlace s id newPrice existing level := by
  cases ho : s.orders[id]? with
  | none => exact .inl rfl
  | some existing =>
      by_cases hmoved : existing.price = newPrice →
          (s.levels existing.side)[existing.price]? = none
      · exact .inr (.inl ⟨existing, rfl, hmoved⟩)
      · obtain ⟨hprice, hlevel⟩ := Classical.not_imp.mp hmoved
        obtain ⟨level, hlevel⟩ := Option.ne_none_iff_exists'.mp hlevel
        exact .inr (.inr ⟨existing, level, ho, hprice, hlevel⟩)

end Replace

theorem replaceOrder_cases (b : OrderBook) (uninit : OrderResult) (id : OrderId)
    (newPrice : Price) (newQty : Quantity) :
    ReplaceCase b id newPrice newQty (b.replaceOrder uninit id newPrice newQty).1
      (b.replaceOrder uninit id newPrice newQty).2 := by
  rcases replace_ways b.store id newPrice with
    hmissing | ⟨existing, ho, hmoved⟩ | ⟨existing, level, hin⟩
  · rw [replaceOrder_of_none hmissing]
    exact .missing hmissing rfl rfl
  · rw [replaceOrder_of_moved ho hmoved]
    exact .moved ho hmoved rfl rfl
  · rw [replaceOrder_of_inPlace hin]
    exact .inPlace hin rfl (Quiet.maybeEmitBbo _)

/-! ## Runs -/

instance {α : Type} (x : Option α) (P : α → Prop) [DecidablePred P] :
    Decidable (∀ a, x = some a → P a) :=
  match x with
  | none => isTrue fun _ h => nomatch h
  | some a => decidable_of_iff (P a) ⟨fun h _ ha => Option.some.inj ha ▸ h, fun h => h a rfl⟩

/-- Neither of the two prices that stand for "no price", nor a negative one. -/
def ValidPrice (p : Price) : Prop := 0 < p ∧ p < invalidPrice

instance (p : Price) : Decidable (ValidPrice p) := inferInstanceAs (Decidable (_ ∧ _))

/-- An order of which nothing is filled yet. -/
def Fresh (o : Order) : Prop := o.filledQty = 0

instance (o : Order) : Decidable (Fresh o) := inferInstanceAs (Decidable (_ = _))

/-- `add_order` is given fresh orders. -/
def FreshAdds (_ : OrderBook) : Op → Prop
  | .add order => Fresh order
  | _ => True

instance (b : OrderBook) : (op : Op) → Decidable (FreshAdds b op)
  | .add order => inferInstanceAs (Decidable (Fresh order))
  | .cancel _ | .replace _ _ _ _ | .flush => isTrue trivial

/-- Every price that can enter the book is valid: those of orders other than market orders, and
those of replaces. -/
def ValidPrices (_ : OrderBook) : Op → Prop
  | .add order => order.type ≠ .Market → ValidPrice order.price
  | .replace _ _ newPrice _ => ValidPrice newPrice
  | _ => True

instance (b : OrderBook) : (op : Op) → Decidable (ValidPrices b op)
  | .add order => inferInstanceAs (Decidable (order.type ≠ .Market → ValidPrice order.price))
  | .replace _ _ newPrice _ => inferInstanceAs (Decidable (ValidPrice newPrice))
  | .cancel _ | .flush => isTrue trivial

/-- A replace names a price that differs from the current one of the order. -/
def MovesPrice (b : OrderBook) : Op → Prop
  | .replace _ id newPrice _ => ∀ o, b.store.orders[id]? = some o → o.price ≠ newPrice
  | _ => True

instance (b : OrderBook) : (op : Op) → Decidable (MovesPrice b op)
  | .replace _ id newPrice _ =>
      inferInstanceAs (Decidable (∀ o, b.store.orders[id]? = some o → o.price ≠ newPrice))
  | .add _ | .cancel _ | .flush => isTrue trivial

/-- No replace. -/
def NoReplace (_ : OrderBook) : Op → Prop
  | .replace _ _ _ _ => False
  | _ => True

instance (b : OrderBook) : (op : Op) → Decidable (NoReplace b op)
  | .replace _ _ _ _ => isFalse id
  | .add _ | .cancel _ | .flush => isTrue trivial

/-- What a call returns; `flush_pending` returns nothing. -/
def result (b : OrderBook) : Op → Option OrderResult
  | .add order => some (b.addOrder order).1
  | .cancel orderId => some (b.cancelOrder orderId).1
  | .replace uninit orderId newPrice newQty =>
      some (b.replaceOrder uninit orderId newPrice newQty).1
  | .flush => none

/-- The book a run of calls leads to. -/
abbrev after (b : OrderBook) (ops : List Op) : OrderBook := Run.run apply b ops

/-- The book of the tests: `make_book` of `tests/test_order_book.cpp`, with every callback
registered. -/
def makeBook (config : OrderBookConfig) : OrderBook :=
  new ⟨#v[84, 69, 83, 84, 0, 0, 0, 0]⟩ config true true true fun n => n.toUInt64

/-- A limit order for that book. -/
def limitOrder (id : OrderId) (side : Side) (price : Price) (quantity : Quantity) : Order :=
  { id, side, price, quantity, symbol := ⟨#v[84, 69, 83, 84, 0, 0, 0, 0]⟩ }

lemma NoReplace.movesPrice {b : OrderBook} {op : Op} (h : NoReplace b op) : MovesPrice b op := by
  cases op with
  | replace => exact absurd h id
  | _ => trivial

/-! ## Invariants of calls

What a property of the book has to survive to be kept by every call that is `ok`: the four things a
call does to a book (it matches an order, puts one in, takes one out, rewrites one in place), and
notifications.  A replace to another price is a cancel and an add, so its add has to be `ok`.
-/

structure CallInvariant (ok : OrderBook → Op → Prop) (I : OrderBook → Prop) : Prop where
  quiet : ∀ {b b' : OrderBook}, I b → Quiet b b' → I b'
  matched : ∀ {b : OrderBook} {order : Order}, I b → ok b (.add order) → Passes b order →
    I (b.matchOrder (withMarketPrice order)).book
  rested : ∀ {b : OrderBook} {order : Order}, I b → ok b (.add order) → Passes b order →
    Restable order → (b.matchOrder (withMarketPrice order)).order.isFilled = false →
    I ((b.matchOrder (withMarketPrice order)).book.insertRestingOrder
      (b.matchOrder (withMarketPrice order)).order)
  cancelled : ∀ {b : OrderBook} {id : OrderId} {order : Order}, I b →
    b.store.orders[id]? = some order → I { b with store := b.store.cancelOrder id order }
  inPlace : ∀ {b : OrderBook} {uninit : OrderResult} {id : OrderId} {newPrice : Price}
    {newQty : Quantity} {existing : Order} {level : PriceLevel}, I b →
    ok b (.replace uninit id newPrice newQty) → InPlace b.store id newPrice existing level →
    I { b with store := amend b.store id existing level newQty }
  moved : ∀ {b : OrderBook} {uninit : OrderResult} {id : OrderId} {newPrice : Price}
    {newQty : Quantity} {existing : Order}, ok b (.replace uninit id newPrice newQty) →
    b.store.orders[id]? = some existing →
    ok (b.cancelOrder id).2 (.add (replacement existing id newPrice newQty))

namespace CallInvariant

variable {ok : OrderBook → Op → Prop} {I : OrderBook → Prop} {b : OrderBook}

theorem addOrder (h : CallInvariant ok I) (hb : I b) {order : Order} (hok : ok b (.add order)) :
    I (b.addOrder order).2 := by
  cases addOrder_cases b order with
  | rejected _ _ _ hquiet => exact h.quiet hb hquiet
  | killed hr _ _ _ hquiet =>
      exact h.quiet (h.matched hb hok (rejectReason_eq_none_iff.mp hr)) hquiet
  | rested hr hkind hopen _ _ hquiet =>
      exact h.quiet (h.rested hb hok (rejectReason_eq_none_iff.mp hr) hkind hopen) hquiet
  | passed hr _ _ _ _ hquiet =>
      exact h.quiet (h.matched hb hok (rejectReason_eq_none_iff.mp hr)) hquiet

theorem cancelOrder (h : CallInvariant ok I) (hb : I b) (id : OrderId) :
    I (b.cancelOrder id).2 := by
  cases cancelOrder_cases b id with
  | missing _ _ hsame => rw [hsame]; exact hb
  | cancelled ho _ hquiet => exact h.quiet (h.cancelled hb ho) hquiet

/-- The step lemma. -/
theorem step (h : CallInvariant ok I) (hb : I b) {op : Op} (hok : ok b op) : I (apply b op) := by
  cases op with
  | add order => exact h.addOrder hb hok
  | cancel id => exact h.cancelOrder hb id
  | flush => exact h.quiet hb (Quiet.flushTrades b)
  | replace uninit id newPrice newQty =>
      rw [apply]
      cases replaceOrder_cases b uninit id newPrice newQty with
      | missing _ _ hsame => rw [hsame]; exact hb
      | inPlace hin _ hquiet => exact h.quiet (h.inPlace hb hok hin) hquiet
      | moved ho _ _ hbook =>
          rw [hbook]
          exact h.addOrder (h.cancelOrder hb id) (h.moved hok ho)

/-- **The run lemma.** -/
theorem run (h : CallInvariant ok I) {ops : List Op} (hops : Run.Admitted apply ok b ops)
    (hb : I b) : I (after b ops) :=
  Run.Admitted.invariant (I := I) (fun _ _ hb hok => h.step hb hok) hops hb

end CallInvariant

/-! ## Invariants of the feed

A property of the feed alone is kept by every call if it survives the four ways to notify.
-/

section Feed

variable {b : OrderBook} {I : Feed → Prop}

/-- A fill announces one trade. -/
lemma feed_fillFront {P : Feed → Prop} (m : MatchState) (p : Price) (level : PriceLevel)
    (id : OrderId) (resting : Order)
    (h : ∀ (buy sell : Order) (price : Price) (qty : Quantity) (aggressor : Side),
      P (m.book.feed.emitTrade m.book.config m.book.symbol buy sell price qty aggressor)) :
    P (m.fillFront p level id resting).book.feed := by
  simp only [fillFront]
  cases (m.order.fill (m.fillQty resting)).2.side
  · exact h _ _ _ _ _
  · exact h _ _ _ _ _

/-- Matching announces trades and nothing else. -/
theorem feed_matchOrder
    (htrade : ∀ (f : Feed) (buy sell : Order) (price : Price) (qty : Quantity) (aggressor : Side),
      I f → I (f.emitTrade b.config b.symbol buy sell price qty aggressor))
    (h : I b.feed) (order : Order) : I (b.matchOrder order).book.feed := by
  have hinv : MatchInvariant
      (fun m => I m.book.feed ∧ m.book.config = b.config ∧ m.book.symbol = b.symbol)
      (fun _ m => I m.book.feed ∧ m.book.config = b.config ∧ m.book.symbol = b.symbol) := by
    refine .of_uniform (fun _ h => h) (fun _ _ _ _ _ h _ _ => h) (fun _ h => h) ?_
      fun _ _ _ h _ _ => h
    intro p m level n rest resting hm _
    refine ⟨feed_fillFront m p level _ resting fun _ _ _ _ _ => ?_, hm.2⟩
    rw [hm.2.1, hm.2.2]
    exact htrade _ _ _ _ _ _ hm.1
  exact (hinv.matchOrder b order ⟨h, rfl, rfl⟩).1

/-- The last lines of `add_order` report to the order added, and flush. -/
theorem feed_finish {order : Order}
    (hreport : ∀ (f : Feed) (filled : Quantity) (avg : Price),
      I f → I (f.emitExecutionReport order filled avg))
    (hflush : ∀ f : Feed, I f → I f.flushTrades) (h : I b.feed) : I (b.finish order).2.feed := by
  rw [finish]
  dsimp only
  split_ifs
  · exact hflush _ (hreport _ _ _ h)
  · exact hreport _ _ _ h
  · exact hflush _ h
  · exact h

structure FeedInvariant (config : OrderBookConfig) (I : Feed → Prop) : Prop where
  emitTrade : ∀ (f : Feed) (symbol : Symbol) (buy sell : Order) (price : Price) (qty : Quantity)
    (aggressor : Side), I f → I (f.emitTrade config symbol buy sell price qty aggressor)
  emitExecutionReport : ∀ (f : Feed) (order : Order) (filled : Quantity) (avg : Price),
    I f → I (f.emitExecutionReport order filled avg)
  flushTrades : ∀ f : Feed, I f → I f.flushTrades
  maybeEmitBbo : ∀ (f : Feed) (symbol : Symbol) (s : Store), I f → I (f.maybeEmitBbo symbol s)

namespace FeedInvariant

theorem addOrder (h : FeedInvariant b.config I) (hb : I b.feed) (order : Order) :
    I (b.addOrder order).2.feed := by
  have hmatch := feed_matchOrder (fun f => h.emitTrade f b.symbol) hb (withMarketPrice order)
  have hexit := addOrder_exit b order
  generalize b.addOrder order = added at hexit
  cases hexit with
  | refused => exact hb
  | wouldCross => exact h.emitExecutionReport _ _ _ _ hb
  | killed => exact hmatch
  | rested =>
      exact feed_finish (fun f => h.emitExecutionReport f _) h.flushTrades
        (h.maybeEmitBbo _ _ _ hmatch)
  | dropped =>
      exact feed_finish (fun f => h.emitExecutionReport f _) h.flushTrades
        (h.emitExecutionReport _ _ _ _ hmatch)
  | finished => exact feed_finish (fun f => h.emitExecutionReport f _) h.flushTrades hmatch

theorem cancelOrder (h : FeedInvariant b.config I) (hb : I b.feed) (id : OrderId) :
    I (b.cancelOrder id).2.feed := by
  cases ho : b.store.orders[id]? with
  | none =>
      rw [cancelOrder_of_none ho]
      exact hb
  | some order =>
      rw [cancelOrder_of_some ho]
      exact h.maybeEmitBbo _ _ _ hb

theorem replaceOrder (h : FeedInvariant b.config I) (hb : I b.feed) (uninit : OrderResult)
    (id : OrderId) (newPrice : Price) (newQty : Quantity) :
    I (b.replaceOrder uninit id newPrice newQty).2.feed := by
  rcases replace_ways b.store id newPrice with
    hmissing | ⟨existing, ho, hmoved⟩ | ⟨existing, level, hin⟩
  · rw [replaceOrder_of_none hmissing]
    exact hb
  · have hcancelled := h.cancelOrder hb id
    have hconfig : (b.cancelOrder id).2.config = b.config := by
      rw [cancelOrder_of_some ho]
      rfl
    rw [replaceOrder_of_moved ho hmoved]
    rw [← hconfig] at h
    exact h.addOrder hcancelled _
  · rw [replaceOrder_of_inPlace hin]
    exact h.maybeEmitBbo _ _ _ hb

theorem step (h : FeedInvariant b.config I) (hb : I b.feed) (op : Op) : I (apply b op).feed := by
  cases op with
  | add order => exact h.addOrder hb order
  | cancel id => exact h.cancelOrder hb id
  | flush => exact h.flushTrades _ hb
  | replace uninit id newPrice newQty => exact h.replaceOrder hb uninit id newPrice newQty

/-- No call changes the options. -/
theorem config_calls (config : OrderBookConfig) :
    CallInvariant (fun _ _ => True) fun b => b.config = config where
  quiet h hquiet := by rw [hquiet.config_eq, h]
  matched {b order} h _ _ := by rw [(matchOrder_sameTaker b _).config_eq, h]
  rested {b order} h _ _ _ _ := by
    show (b.matchOrder (withMarketPrice order)).book.config = config
    rw [(matchOrder_sameTaker b _).config_eq, h]
  cancelled h _ := h
  inPlace h _ _ := h
  moved _ _ := trivial

theorem run (h : FeedInvariant b.config I) (hb : I b.feed) (ops : List Op) :
    I (after b ops).feed := by
  have hrun : I (after b ops).feed ∧ (after b ops).config = b.config := by
    refine (Run.admitted_trivial b ops).invariant
      (I := fun b' => I b'.feed ∧ b'.config = b.config) (fun b' op hb' _ => ?_) ⟨hb, rfl⟩
    exact ⟨step (hb'.2 ▸ h) hb'.1 op, (config_calls b.config).step hb'.2 trivial⟩
  exact hrun.1

end FeedInvariant

end Feed

end Exchange.OrderBook
