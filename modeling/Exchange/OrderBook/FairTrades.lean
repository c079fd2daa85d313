import Exchange.OrderBook.Conservation
import Exchange.OrderBook.Reports

/-!
# Between whom a trade is

A trade names two orders.  One is the order that the call has brought in; the other rested when the
call was made.

* **`trades_fair`** — each trade of a call is with an order that rested on the other side, at the
  price of that order and within the limit of the one that came in.  No resting order trades twice
  in a call, or for more than it had open, and no order trades more than it was brought in with.
  Where self-trade prevention is on, no trade is between ids that it takes for one's own.
* **`gone_for_good`** — an order that has left the book takes no part in a trade until an order is
  added under its id again.
-/

namespace Exchange

/-- The order that was in the book. -/
def Execution.makerId (x : Execution) : OrderId :=
  match x.aggressorSide with
  | .Buy => x.sellOrderId
  | .Sell => x.buyOrderId

/-- The order that came in. -/
def Execution.takerId (x : Execution) : OrderId :=
  match x.aggressorSide with
  | .Buy => x.buyOrderId
  | .Sell => x.sellOrderId

section Execution

variable (taker maker : Order) (p : Price) (q : Quantity)

@[simp] lemma executionOf_makerId : (executionOf taker maker p q).makerId = maker.id := by
  cases h : taker.side <;> simp [executionOf, h, Execution.makerId]

@[simp] lemma executionOf_takerId : (executionOf taker maker p q).takerId = taker.id := by
  cases h : taker.side <;> simp [executionOf, h, Execution.takerId]

@[simp] lemma executionOf_aggressorSide :
    (executionOf taker maker p q).aggressorSide = taker.side := by
  cases h : taker.side <;> simp [executionOf, h]

@[simp] lemma executionOf_price : (executionOf taker maker p q).price = p := by
  cases h : taker.side <;> simp [executionOf, h]

end Execution

lemma Execution.names_iff (x : Execution) (id : OrderId) :
    x.names id = true ↔ x.makerId = id ∨ x.takerId = id := by
  rw [Execution.names, Execution.makerId, Execution.takerId]
  cases x.aggressorSide <;> simp [or_comm]

namespace OrderBook

open MatchState

variable {b b' : OrderBook} {taker order : Order} {id : OrderId}

/-! ## Fair trades -/

/-- `taker` trades with `maker`, which rests in `b`. -/
structure FairWith (b : OrderBook) (taker : Order) (x : Execution) (maker : Order) : Prop where
  maker_rests : b.store.orders[x.makerId]? = some maker
  taker_eq : x.takerId = taker.id
  aggressor_eq : x.aggressorSide = taker.side
  across : maker.side = taker.side.opposite
  price_eq : x.price = maker.price
  within : taker.type = .Market ∨ taker.wouldCross x.price = true
  quantity_le : x.quantity ≤ maker.remaining
  apart : b.config.enableSelfTradePrevention = true → nearIds taker.id maker.id = false

/-- What an order executes when it comes in. -/
structure Fair (b : OrderBook) (taker : Order) (xs : List Execution) : Prop where
  each : ∀ x ∈ xs, ∃ maker, FairWith b taker x maker
  once : (xs.map Execution.makerId).Nodup
  total : (xs.map (·.quantity.toNat)).sum ≤ taker.remaining.toNat

lemma Fair.nil (b : OrderBook) (taker : Order) : Fair b taker [] where
  each _ hx := absurd hx List.not_mem_nil
  once := List.nodup_nil
  total := Nat.zero_le _

/-- Matching has got as far as `xs`.  As long as the order is open, whoever has traded is gone, and
whoever has not is as it was. -/
structure Serving (b : OrderBook) (taker : Order) (xs : List Execution) (m : MatchState) :
    Prop where
  agrees : m.book.store.Agrees
  same : SameTaker b taker m
  executed_eq : m.book.executed = b.executed ++ xs
  fair : Fair b taker xs
  balance : (xs.map (·.quantity.toNat)).sum + m.order.remaining.toNat = taker.remaining.toNat
  untouched : m.order.isFilled = false → ∀ (id : OrderId) (o : Order),
    m.book.store.orders[id]? = some o → b.store.orders[id]? = some o
  gone : m.order.isFilled = false → ∀ x ∈ xs, m.book.store.orders[x.makerId]? = none

variable {xs : List Execution} {m m' : MatchState} {p : Price} {level : PriceLevel}
  {n : OrderNode} {rest : List OrderNode} {resting : Order}

/-- Levels and cached prices are none of its business. -/
lemma Serving.congr (h : Serving b taker xs m) (hagrees : m'.book.store.Agrees)
    (hsame : SameTaker b taker m') (horders : m'.book.store.orders = m.book.store.orders)
    (hhistory : m'.book.history = m.book.history) (horder : m'.order = m.order) :
    Serving b taker xs m' where
  agrees := hagrees
  same := hsame
  executed_eq := by rw [executed, hhistory, ← executed, h.executed_eq]
  fair := h.fair
  balance := by rw [horder, h.balance]
  untouched := by
    rw [horder, horders]
    exact h.untouched
  gone := by
    rw [horder, horders]
    exact h.gone

/-- The limit of the order is that of the one that came in. -/
lemma MatchState.SameTaker.crosses_iff (h : SameTaker b taker m) (p : Price) :
    m.order.type = .Market ∨ m.order.wouldCross p = true ↔
      taker.type = .Market ∨ taker.wouldCross p = true := by
  rw [Order.wouldCross, Order.wouldCross, h.type_eq, h.side_eq, h.price_eq]

/-- The next trade is fair. -/
lemma Serving.fairWith (h : Serving b taker xs m)
    (hcross : taker.type = .Market ∨ taker.wouldCross p = true)
    (hfill : AtFill p m level n rest resting) :
    FairWith b taker (executionOf m.order resting p (m.fillQty resting)) resting := by
  obtain ⟨hid, hside, hprice, -, -⟩ := h.agrees.front hfill
  constructor
  · rw [executionOf_makerId, hid]
    exact h.untouched hfill.notFilled _ _ hfill.order_eq
  · rw [executionOf_takerId, h.same.id_eq]
  · rw [executionOf_aggressorSide, h.same.side_eq]
  · rw [hside, opposite, h.same.side_eq]
  · rw [executionOf_price, hprice]
  · rw [executionOf_price]
    exact hcross
  · rw [executionOf_quantity]
    exact Order.min_quantity_le_right _ _
  · intro henabled
    rw [← h.same.id_eq]
    exact hfill.notNear (by rw [h.same.config_eq, henabled])

/-- **One trade more.**  If the order is open afterwards, the resting one is gone. -/
theorem Serving.fillFront (h : Serving b taker xs m)
    (hcross : taker.type = .Market ∨ taker.wouldCross p = true)
    (hfill : AtFill p m level n rest resting)
    (hsame : SameTaker b taker (m.fillFront p level n.orderId resting)) :
    Serving b taker (xs ++ [executionOf m.order resting p (m.fillQty resting)])
      (m.fillFront p level n.orderId resting) := by
  obtain ⟨hid, -, -, -, -⟩ := h.agrees.front hfill
  have hle : m.fillQty resting ≤ m.order.remaining := Order.min_quantity_le_left _ _
  have hbalance : ((xs ++ [executionOf m.order resting p (m.fillQty resting)]).map
      (·.quantity.toNat)).sum + (m.order.fill (m.fillQty resting)).2.remaining.toNat
        = taker.remaining.toNat := by
    have hle' := UInt32.le_iff_toNat_le.mp hle
    rw [Order.remaining_fill hle, UInt32.toNat_sub_of_le _ _ hle, List.map_append, List.sum_append,
      List.map_singleton, List.sum_singleton, executionOf_quantity, ← h.balance]
    omega
  -- the smaller of the two open quantities completes one of the orders
  have hdone : (m.order.fill (m.fillQty resting)).2.isFilled = false →
      (resting.fill (m.fillQty resting)).2.isFilled = true := by
    intro hopen
    refine (Order.fill_min_completes m.order resting).resolve_left fun hfilled => ?_
    rw [MatchState.fillQty, hfilled] at hopen
    cases hopen
  have hopen : (m.fillFront p level n.orderId resting).order.isFilled = false →
      (resting.fill (m.fillQty resting)).2.isFilled = true := by
    rw [order_fillFront]
    exact hdone
  refine ⟨h.agrees.fillStore hfill, hsame, ?_, ⟨?_, ?_, ?_⟩, ?_, ?_, ?_⟩
  · rw [executed_fillFront, h.executed_eq, List.append_assoc]
  · intro x hx
    rcases List.mem_append.mp hx with hx | hx
    · exact h.fair.each x hx
    · rw [List.mem_singleton.mp hx]
      exact ⟨resting, h.fairWith hcross hfill⟩
  · rw [List.map_append, List.map_singleton, executionOf_makerId, hid]
    refine h.fair.once.append (List.nodup_singleton _) fun i hi hnew => ?_
    -- the node at the front has its order, those who have traded have none
    obtain ⟨x, hx, rfl⟩ := List.mem_map.mp hi
    have hgone := h.gone hfill.notFilled x hx
    rw [List.mem_singleton.mp hnew, hfill.order_eq] at hgone
    cases hgone
  · omega
  · rw [order_fillFront]
    exact hbalance
  · intro hfilled id o ho
    rw [store_fillFront, getElem?_orders_fillStore, if_pos (hopen hfilled)] at ho
    split_ifs at ho
    exact h.untouched hfill.notFilled id o ho
  · intro hfilled x hx
    rw [store_fillFront, getElem?_orders_fillStore, if_pos (hopen hfilled)]
    split_ifs with hat
    · rfl
    · rcases List.mem_append.mp hx with hx | hx
      · exact h.gone hfill.notFilled x hx
      · rw [List.mem_singleton.mp hx, executionOf_makerId, hid] at hat
        exact absurd rfl hat

theorem serving_invariant (b : OrderBook) (taker : Order) :
    MatchInvariant (fun m => ∃ xs, Serving b taker xs m) fun p m =>
      (∃ xs, Serving b taker xs m) ∧ (taker.type = .Market ∨ taker.wouldCross p = true) where
  stale m h hrun hstale := by
    obtain ⟨xs, h⟩ := h
    exact ⟨xs, h.congr (agrees_invariant.stale m h.agrees hrun hstale)
      ((sameTaker_invariant b taker).stale m h.same hrun hstale) (by simp [refreshBest]) rfl rfl⟩
  enter m level h hrun hlevel hne := by
    obtain ⟨xs, h⟩ := h
    exact ⟨⟨xs, h⟩, (h.same.crosses_iff _).mp hrun.crosses⟩
  ghost p m level n rest h hfront gone := by
    obtain ⟨⟨xs, h⟩, -⟩ := h
    exact absurd gone (h.agrees.not_ghost hfront)
  selfTrade p m level n rest resting h hfront found enabled near := by
    obtain ⟨⟨xs, h⟩, hcross⟩ := h
    exact ⟨⟨xs, h.congr h.agrees ((sameTaker_invariant b taker).selfTrade p m level n rest resting
      h.same hfront found enabled near) rfl rfl rfl⟩, hcross⟩
  fill p m level n rest resting h hfill := by
    obtain ⟨⟨xs, h⟩, hcross⟩ := h
    exact ⟨⟨_, h.fillFront hcross hfill ((sameTaker_invariant b taker).fill p m level n rest resting
      h.same hfill)⟩, hcross⟩
  close p m level h hlevel hnil := by
    obtain ⟨⟨xs, h⟩, -⟩ := h
    exact ⟨xs, h.congr (agrees_invariant.close p m level h.agrees hlevel hnil)
      ((sameTaker_invariant b taker).close p m level h.same hlevel hnil) (by simp [refreshBest])
      rfl rfl⟩
  keep p m h _ := h.1

/-- **Matching is fair.** -/
theorem fair_matchOrder (h : b.store.Agrees) (taker : Order) :
    ∃ xs, (b.matchOrder taker).book.executed = b.executed ++ xs ∧ Fair b taker xs := by
  have hstart : Serving b taker [] { book := b, order := taker } :=
    { agrees := h
      same := ⟨rfl, rfl, rfl, rfl, rfl, rfl, rfl, rfl⟩
      executed_eq := (List.append_nil _).symm
      fair := Fair.nil b taker
      balance := Nat.zero_add _
      untouched := fun _ _ _ ho => ho
      gone := fun _ _ hx => absurd hx List.not_mem_nil }
  obtain ⟨xs, hend⟩ := (serving_invariant b taker).matchOrder b taker ⟨[], hstart⟩
  exact ⟨xs, hend.executed_eq, hend.fair⟩

/-! ## Calls -/

/-- What an add executes is what its matching does, if it gets there. -/
lemma executed_addOrder_cases (b : OrderBook) (order : Order) :
    (b.addOrder order).2.executed = b.executed ∨
      (b.addOrder order).2.executed = (b.matchOrder (withMarketPrice order)).book.executed := by
  cases addOrder_cases b order with
  | rejected _ _ _ hquiet => exact .inl hquiet.executed_eq
  | killed _ _ _ _ hquiet => exact .inr hquiet.executed_eq
  | rested _ _ _ _ _ hquiet =>
      refine .inr (hquiet.executed_eq.trans ?_)
      rw [executed, executed_insertRestingOrder, executed]
  | passed _ _ _ _ _ hquiet => exact .inr hquiet.executed_eq

lemma executed_cancelOrder (b : OrderBook) (id : OrderId) :
    (b.cancelOrder id).2.executed = b.executed := by
  cases cancelOrder_cases b id with
  | missing _ _ hsame => rw [hsame]
  | cancelled _ _ hquiet => exact hquiet.executed_eq

lemma fair_addOrder (h : b.store.Agrees) (order : Order) :
    ∃ xs, (b.addOrder order).2.executed = b.executed ++ xs ∧
      Fair b (withMarketPrice order) xs := by
  rcases executed_addOrder_cases b order with hsame | hmatched
  · exact ⟨[], by rw [hsame, List.append_nil], Fair.nil _ _⟩
  · rw [hmatched]
    exact fair_matchOrder h (withMarketPrice order)

/-- The order that a call brings in, with the book it meets.  A replace brings one in if it does not
keep the price. -/
def incoming (b : OrderBook) : Op → Option (OrderBook × Order)
  | .add order => some (b, withMarketPrice order)
  | .replace _ id newPrice newQty =>
      (b.store.orders[id]?).bind fun existing =>
        if existing.price = newPrice ∧ ((b.store.levels existing.side)[existing.price]?).isSome then
          none
        else
          some ((b.cancelOrder id).2, withMarketPrice (replacement existing id newPrice newQty))
  | .cancel _ | .flush => none

/-- What a call executes is fair to those it is with; a call that brings no order in executes
nothing. -/
def FairCall (b : OrderBook) (op : Op) (xs : List Execution) : Prop :=
  match incoming b op with
  | none => xs = []
  | some (met, taker) => Fair met taker xs

/-- The step lemma. -/
lemma fairCall_apply (h : b.store.Agrees) (op : Op) :
    ∃ xs, (apply b op).executed = b.executed ++ xs ∧ FairCall b op xs := by
  cases op with
  | add order => exact fair_addOrder h order
  | cancel id => exact ⟨[], by rw [apply, executed_cancelOrder, List.append_nil], rfl⟩
  | flush => exact ⟨[], by rw [List.append_nil]; exact (Quiet.flushTrades b).executed_eq, rfl⟩
  | replace uninit id newPrice newQty =>
      rw [apply]
      cases replaceOrder_cases b uninit id newPrice newQty with
      | missing ho _ hsame =>
          refine ⟨[], by rw [hsame, List.append_nil], ?_⟩
          rw [FairCall, incoming, ho]
          rfl
      | inPlace hin _ hquiet =>
          refine ⟨[], by rw [List.append_nil]; exact hquiet.executed_eq, ?_⟩
          rw [FairCall, incoming, hin.order_eq, Option.bind_some,
            if_pos ⟨hin.price_eq, by rw [hin.level_eq]; rfl⟩]
      | @moved existing ho hmoved _ hbook =>
          obtain ⟨xs, hexecuted, hfair⟩ := fair_addOrder
            (agrees_calls.cancelOrder h id) (replacement existing id newPrice newQty)
          refine ⟨xs, by rw [hbook, hexecuted, executed_cancelOrder], ?_⟩
          have hnot : ¬ (existing.price = newPrice ∧
              ((b.store.levels existing.side)[existing.price]?).isSome = true) := by
            rintro ⟨hprice, hlevel⟩
            rw [hmoved hprice] at hlevel
            cases hlevel
          rw [FairCall, incoming, ho, Option.bind_some, if_neg hnot]
          exact hfair

/-! ## Runs -/

/-- The trades that the call adds to those delivered and pending are fair. -/
def TradesFair (b : OrderBook) (op : Op) : Prop :=
  ∃ xs, (apply b op).executions = b.executions ++ xs ∧ FairCall b op xs

lemma Announced.executions_eq_executed (h : Announced b) : b.executions = b.executed :=
  h.executions_eq

/-- **Trades are fair.**  In every run whose replaces in place meet no order of which something is
filled, in any configuration, every trade of a call is between the order that the call brings in and
one that rested on the other side: at the price of the resting order, within the limit of the other,
for at most what the resting one had open, and between ids that self-trade prevention, where it is
on, does not stop.  No resting order trades twice in a call, and the trades of a call come to at
most the quantity brought in.  Cancels, flushes and replaces in place execute nothing. -/
theorem trades_fair (symbol : Symbol) (config : OrderBookConfig) (onExecution onBbo : Bool)
    (clock : Stream' Timestamp) {ops : List Op}
    (hops : Run.Admitted apply UnfilledInPlace
      (new symbol config true onExecution onBbo clock) ops) :
    Run.Admitted apply TradesFair (new symbol config true onExecution onBbo clock) ops := by
  rw [Run.admitted_iff_forall_split]
  rintro before op after' rfl
  have hannounced := announced_after symbol config onExecution onBbo clock before
  have hagrees : (after (new symbol config true onExecution onBbo clock) before).store.Agrees :=
    agrees_calls.run (Run.admitted_append.mp hops).1 Store.Agrees.empty
  obtain ⟨xs, hexecuted, hfair⟩ := fairCall_apply hagrees op
  refine ⟨xs, ?_, hfair⟩
  rw [(announced_calls.step hannounced trivial).executions_eq_executed, hexecuted,
    hannounced.executions_eq_executed]

/-- A bid meets an ask that is near to it, one that is not, and is replaced. -/
theorem trades_fair_sample :
    Run.Admitted apply TradesFair
      (new ⟨#v[84, 69, 83, 84, 0, 0, 0, 0]⟩ { enableSelfTradePrevention := true } true true true
        fun n => n.toUInt64)
      [.add (limitOrder 500 .Sell 100 10), .add (limitOrder 2 .Buy 101 15),
        .add (limitOrder 3 .Sell 101 10), .replace {} 2 100 5, .add (limitOrder 900 .Sell 100 1)] :=
  trades_fair _ _ _ _ _ (by decide +kernel)

/-! ## Prices -/

/-- Whatever rests and whatever has been traded has a price that satisfies `P`. -/
structure Priced (P : Price → Prop) (b : OrderBook) : Prop where
  agrees : b.store.Agrees
  resting : AllOrders b.store fun o => P o.price
  traded : ∀ x ∈ b.executed, P x.price

/-- The prices of orders that may rest, and of replaces, satisfy `P`. -/
def GivesPrices (P : Price → Prop) (b : OrderBook) (op : Op) : Prop :=
  UnfilledInPlace b op ∧
    match op with
    | .add order => Restable order → P order.price
    | .replace _ _ newPrice _ => P newPrice
    | .cancel _ | .flush => True

lemma Priced.matchOrder {P : Price → Prop} (h : Priced P b) (taker : Order) :
    Priced P (b.matchOrder taker).book := by
  obtain ⟨xs, hexecuted, hfair⟩ := fair_matchOrder h.agrees taker
  refine ⟨agrees_invariant.matchOrder b taker h.agrees, h.resting.matchOrder (fun o q ho _ => ?_) _,
    fun x hx => ?_⟩
  · rw [Order.fill_price]
    exact ho
  · rw [hexecuted] at hx
    rcases List.mem_append.mp hx with hx | hx
    · exact h.traded x hx
    · obtain ⟨maker, hwith⟩ := hfair.each x hx
      rw [hwith.price_eq]
      exact h.resting _ maker hwith.maker_rests

/-- **Trades are at prices that orders had**: they are those of the makers. -/
theorem priced_calls (P : Price → Prop) : CallInvariant (GivesPrices P) (Priced P) where
  quiet h hquiet := by
    refine ⟨agrees_calls.quiet h.agrees hquiet, ?_, ?_⟩
    · rw [hquiet.store_eq]
      exact h.resting
    · rw [hquiet.executed_eq]
      exact h.traded
  matched h _ _ := h.matchOrder _
  rested {b order} h hok hpass hkind hopen := by
    have hmatched := h.matchOrder (withMarketPrice order)
    have hprice : (b.matchOrder (withMarketPrice order)).order.price = order.price := by
      rw [(matchOrder_sameTaker b _).price_eq, hkind.withMarketPrice_eq]
    refine ⟨agrees_calls.rested h.agrees hok.1 hpass hkind hopen, fun i o ho => ?_, ?_⟩
    · have ho := (Store.getElem?_orders_insertRestingOrder _ _ i).symm.trans ho
      split_ifs at ho
      · cases ho
        show P _
        rw [hprice]
        exact hok.2 hkind
      · exact hmatched.resting i o ho
    · rw [executed, executed_insertRestingOrder, ← executed]
      exact hmatched.traded
  cancelled {b id order} h ho := by
    refine ⟨agrees_calls.cancelled h.agrees ho, fun i o ho => ?_, h.traded⟩
    have ho := (Store.getElem?_orders_cancelOrder b.store id order i).symm.trans ho
    split_ifs at ho
    exact h.resting i o ho
  inPlace {b uninit id newPrice newQty existing level} h hok hin := by
    refine ⟨agrees_calls.inPlace h.agrees hok.1 hin, fun i o ho => ?_, h.traded⟩
    have ho : (amend b.store id existing level newQty).orders[i]? = some o := ho
    rw [amend, Store.getElem?_setOrder, Store.orders_setLevel] at ho
    split_ifs at ho
    · cases ho
      exact h.resting id existing hin.order_eq
    · exact h.resting i o ho
  moved hok ho := ⟨agrees_calls.moved hok.1 ho, fun _ => hok.2⟩

lemma priced_new (P : Price → Prop) (symbol : Symbol) (config : OrderBookConfig)
    (onTrade onExecution onBbo : Bool) (clock : Stream' Timestamp) :
    Priced P (new symbol config onTrade onExecution onBbo clock) :=
  ⟨Store.Agrees.empty, allOrders_new, fun _ hx => absurd hx List.not_mem_nil⟩

/-! ## Orders that are gone -/

/-- No order rests under the id, nor has any that rests it, and since `b` no trade has named it. -/
structure Absent (b : OrderBook) (id : OrderId) (b' : OrderBook) : Prop where
  absent : b'.store.orders[id]? = none
  others : AllOrders b'.store fun o => o.id ≠ id
  unnamed : ∃ xs, b'.executed = b.executed ++ xs ∧ ∀ x ∈ xs, x.names id = false

lemma Absent.congr {c c' : OrderBook} (h : Absent b id c)
    (horders : c'.store.orders = c.store.orders) (hexecuted : c'.executed = c.executed) :
    Absent b id c' where
  absent := by rw [horders, h.absent]
  others := by
    rw [AllOrders, horders]
    exact h.others
  unnamed := by
    rw [hexecuted]
    exact h.unnamed

/-- Somebody else's order trades with one that rests. -/
lemma Absent.fillFront (h : Absent b id m.book) (hne : m.order.id ≠ id)
    (hfill : AtFill p m level n rest resting) :
    Absent b id (m.fillFront p level n.orderId resting).book := by
  have hmaker : resting.id ≠ id := h.others _ _ hfill.order_eq
  have hat : n.orderId ≠ id := by
    intro hn
    have hnone := h.absent
    rw [← hn, hfill.order_eq] at hnone
    cases hnone
  obtain ⟨xs, hexecuted, hxs⟩ := h.unnamed
  refine ⟨?_, fun i o ho => ?_, xs ++ [executionOf m.order resting p (m.fillQty resting)], ?_,
    fun x hx => ?_⟩
  · rw [store_fillFront, getElem?_orders_fillStore, if_neg hat.symm, h.absent]
  · rw [store_fillFront, getElem?_orders_fillStore] at ho
    split_ifs at ho
    · cases ho
      rwa [Order.fill_id]
    · exact h.others i o ho
  · rw [executed_fillFront, hexecuted, List.append_assoc]
  · rcases List.mem_append.mp hx with hx | hx
    · exact hxs x hx
    · rw [List.mem_singleton.mp hx, Bool.eq_false_iff, ne_eq, Execution.names_iff,
        executionOf_makerId, executionOf_takerId]
      exact fun hnames => hnames.elim hmaker hne

lemma Absent.matchOrder {c : OrderBook} (h : Absent b id c) (hne : order.id ≠ id) :
    Absent b id (c.matchOrder order).book := by
  have hinv : MatchInvariant (fun m => Absent b id m.book ∧ m.order.id ≠ id)
      fun _ m => Absent b id m.book ∧ m.order.id ≠ id := by
    refine .of_uniform ?_ ?_ (fun _ h => h) ?_ ?_
    · exact fun m h => ⟨h.1.congr (by simp [refreshBest]) rfl, h.2⟩
    · exact fun p m level n rest h _ _ => ⟨h.1.congr (by simp) rfl, h.2⟩
    · intro p m level n rest resting h hfill
      exact ⟨h.1.fillFront h.2 hfill, by rw [order_fillFront, Order.fill_id]; exact h.2⟩
    · exact fun p m level h _ _ => ⟨h.1.congr (by simp) rfl, h.2⟩
  exact (hinv.matchOrder c order ⟨h, hne⟩).1

/-- No order is added under the id, and none that rests under it is replaced. -/
def Avoids (id : OrderId) (b : OrderBook) : Op → Prop
  | .add order => order.id ≠ id
  | .replace _ i _ _ => i = id → b.store.orders[i]? = none
  | .cancel _ | .flush => True

theorem absent_calls (b : OrderBook) (id : OrderId) :
    CallInvariant (Avoids id) fun b' => Absent b id b' where
  quiet h hquiet := h.congr (by rw [hquiet.store_eq]) hquiet.executed_eq
  matched {c order} h hok _ := h.matchOrder (by rw [withMarketPrice_id]; exact hok)
  rested {c order} h hok _ _ _ := by
    have hok : order.id ≠ id := hok
    have hmatched : Absent b id (c.matchOrder (withMarketPrice order)).book :=
      h.matchOrder (by rw [withMarketPrice_id]; exact hok)
    have hid : (c.matchOrder (withMarketPrice order)).order.id = order.id := by
      rw [(matchOrder_sameTaker c (withMarketPrice order)).id_eq, withMarketPrice_id]
    refine ⟨?_, fun i o ho => ?_, ?_⟩
    · refine (Store.getElem?_orders_insertRestingOrder _ _ id).trans ?_
      rw [hid, if_neg hok.symm, hmatched.absent]
    · have ho := (Store.getElem?_orders_insertRestingOrder _ _ i).symm.trans ho
      split_ifs at ho
      · cases ho
        show _ ≠ id
        rwa [hid]
      · exact hmatched.others i o ho
    · rw [executed, executed_insertRestingOrder, ← executed]
      exact hmatched.unnamed
  cancelled {c i o} h _ := by
    have horders := Store.getElem?_orders_cancelOrder c.store i o
    refine ⟨?_, fun j o' ho' => ?_, h.unnamed⟩
    · refine (horders id).trans ?_
      split_ifs
      · rfl
      · exact h.absent
    · have ho' := (horders j).symm.trans ho'
      split_ifs at ho'
      exact h.others j o' ho'
  inPlace {c _ i _ newQty existing level} h _ hin := by
    have horders : ∀ j, (amend c.store i existing level newQty).orders[j]?
        = if j = i then some { existing with quantity := newQty } else c.store.orders[j]? := by
      intro j
      rw [amend, Store.getElem?_setOrder, Store.orders_setLevel]
    have hne : id ≠ i := by
      rintro rfl
      have hnone := h.absent
      rw [hin.order_eq] at hnone
      cases hnone
    refine ⟨?_, fun j o' ho' => ?_, h.unnamed⟩
    · refine (horders id).trans ?_
      rw [if_neg hne, h.absent]
    · have ho' := (horders j).symm.trans ho'
      split_ifs at ho'
      · cases ho'
        exact h.others i existing hin.order_eq
      · exact h.others j o' ho'
  moved {c _ i _ _ existing} hok ho := by
    intro hi
    rw [hok hi] at ho
    cases ho

/-- **What is gone is gone for good.**  From any book that a run leads to, in any configuration:
if no order rests under an id, because it was cancelled, filled or never accepted, then whatever
calls follow, as long as none of them adds an order under the id, none rests under it in the end,
and no trade that was executed in between names it. -/
theorem gone_for_good (symbol : Symbol) (config : OrderBookConfig) (onExecution onBbo : Bool)
    (clock : Stream' Timestamp) (before ops : List Op) (id : OrderId)
    (hgone : (after (new symbol config true onExecution onBbo clock) before).store.orders[id]?
      = none)
    (hnew : ∀ order, Op.add order ∈ ops → order.id ≠ id) :
    let b := after (new symbol config true onExecution onBbo clock) before
    (after b ops).store.orders[id]? = none ∧
      ∃ xs, (after b ops).executions = b.executions ++ xs ∧ ∀ x ∈ xs, x.names id = false := by
  intro b
  have hkeyed : Keyed b.store := keyed_calls.run (Run.admitted_trivial _ _) fun i o ho => by
    simp [new] at ho
  have hothers : AllOrders b.store fun o => o.id ≠ id := by
    intro i o ho hid
    rw [← hid, hkeyed i o ho, ho] at hgone
    cases hgone
  have hstart : Absent b id b :=
    ⟨hgone, hothers, [], (List.append_nil _).symm, fun _ hx => absurd hx List.not_mem_nil⟩
  have hops : Run.Admitted apply (fun _ op => ∀ order, op = .add order → order.id ≠ id) b ops :=
    Run.admitted_of_forall b fun op hop order horder => hnew order (horder ▸ hop)
  have hend : Absent b id (after b ops) := by
    refine hops.invariant (I := fun b' => Absent b id b') (fun b' op h hop => ?_) hstart
    refine (absent_calls b id).step h ?_
    cases op with
    | add order => exact hop order rfl
    | cancel i => trivial
    | replace uninit i newPrice newQty => exact fun hi => hi ▸ h.absent
    | flush => trivial
  have hannounced : Announced b := announced_after symbol config onExecution onBbo clock before
  obtain ⟨xs, hexecuted, hxs⟩ := hend.unnamed
  refine ⟨hend.absent, xs, ?_, hxs⟩
  rw [(announced_calls.run (Run.admitted_trivial b ops) hannounced).executions_eq_executed,
    hexecuted, hannounced.executions_eq_executed]

/-- An order that is filled in part is cancelled, and the next one on its side is hit. -/
theorem gone_for_good_sample :
    let b := after (new ⟨#v[84, 69, 83, 84, 0, 0, 0, 0]⟩ {} true true true fun n => n.toUInt64)
      [.add (limitOrder 1 .Sell 100 10), .add (limitOrder 2 .Sell 100 10),
        .add (limitOrder 3 .Buy 100 4), .cancel 1]
    let ops := [Op.add (limitOrder 4 .Buy 100 10), .replace {} 1 100 5]
    (after b ops).store.orders[(1 : OrderId)]? = none ∧
      ∃ xs, (after b ops).executions = b.executions ++ xs ∧ ∀ x ∈ xs, x.names 1 = false := by
  refine gone_for_good _ _ _ _ _ _ _ 1 (by decide +kernel) fun order horder => ?_
  rcases List.mem_cons.mp horder with hop | hop
  · cases hop
    decide
  · cases List.mem_singleton.mp hop

end OrderBook

end Exchange
