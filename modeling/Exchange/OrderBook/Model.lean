import Exchange.Core.Loop
import Exchange.OrderBook.Feed

/-!
# The order book

`OrderBook` of `engine/order_book.cpp`: adding, matching, cancelling and replacing orders.

* `matchOrder` — the two nested loops of `match_order`, as step functions for `Loop.run`.  The
  cut-offs `matchFuel` and `sweepFuel` are part of the model, not of the source; that they are
  never reached is `matchOrder_exits` and `sweepLevel_exits`.
* `addOrder`, `cancelOrder`, `replaceOrder` — the public operations, each with its result.
* `Op` and `apply` — one call of the public interface, for runs.

`History` is ghost state: nothing reads it.  It records when an order last entered the book, and
every fill with the orders that were resting at that moment.
-/

namespace Exchange

/-- One execution of the fill branch of `match_order`: the two orders just before it, and what else
was resting. -/
structure Fill where
  taker : Order
  maker : Order
  price : Price
  quantity : Quantity
  resting : Orders
  entered : OrderId → Nat

/-- Ghost state.  `entered id` is the number of insertions before the last one of `id`. -/
structure History where
  insertions : Nat := 0
  entered : OrderId → Nat := fun _ => 0
  executed : List Fill := []

structure OrderBook where
  symbol : Symbol
  config : OrderBookConfig
  store : Store := {}
  feed : Feed
  history : History := {}

namespace OrderBook

/-! ## Matching -/

/-- The variables live in `match_order`. -/
structure MatchState where
  book : OrderBook
  order : Order
  stoppedForSelfTrade : Bool := false

/-- `std::abs(static_cast<int64_t>(order.id - resting.id)) < 100`.  `std::abs` leaves the least
`int64_t` as it is, so that ids `2 ^ 63` apart are near, too. -/
def nearIds (a b : OrderId) : Bool := (a - b).toInt64.abs < 100

example : nearIds 9223372036854775809 1 = true := by decide

namespace MatchState

/-- The side `opposite_levels` refers to. -/
def opposite (m : MatchState) : Side := m.order.side.opposite

def level? (m : MatchState) (price : Price) : Option PriceLevel :=
  (m.book.store.levels m.opposite)[price]?

def setStore (m : MatchState) (s : Store) : MatchState := { m with book := { m.book with store := s } }

/-- `level.pop_front()` on a node whose order is gone. -/
def popGhost (m : MatchState) (bestOpposite : Price) (level : PriceLevel) : MatchState :=
  m.setStore (m.book.store.setLevel m.opposite bestOpposite level.popFront)

def fillQty (m : MatchState) (resting : Order) : Quantity :=
  min m.order.remaining resting.remaining

/-- The book after the two orders and the level have been filled. -/
def fillStore (m : MatchState) (bestOpposite : Price) (level : PriceLevel) (restingId : OrderId)
    (resting : Order) : Store :=
  let q := m.fillQty resting
  let filled := (resting.fill q).2
  let s := (m.book.store.setOrder restingId filled).setLevel m.opposite bestOpposite
    (level.fillFront q)
  if filled.isFilled then s.eraseOrder restingId else s

/-- The fill branch: fill both orders and the level, emit the trade, drop a maker that is full. -/
def fillFront (m : MatchState) (bestOpposite : Price) (level : PriceLevel) (restingId : OrderId)
    (resting : Order) : MatchState :=
  let q := m.fillQty resting
  let order := (m.order.fill q).2
  let filled := (resting.fill q).2
  let feed := match order.side with
    | .Buy => m.book.feed.emitTrade m.book.config m.book.symbol order filled bestOpposite q .Buy
    | .Sell => m.book.feed.emitTrade m.book.config m.book.symbol filled order bestOpposite q .Sell
  let fill : Fill :=
    { taker := m.order
      maker := resting
      price := bestOpposite
      quantity := q
      resting := m.book.store.orders
      entered := m.book.history.entered }
  { m with
    order := order
    book := { m.book with
      store := m.fillStore bestOpposite level restingId resting
      feed := feed
      history := { m.book.history with executed := m.book.history.executed ++ [fill] } } }

/-- One round of the inner loop, `while (!order.is_filled() && !level.empty())`.  The reference
`level` is alive throughout, so the first case does not arise. -/
def sweepStep (bestOpposite : Price) (m : MatchState) : ForInStep MatchState :=
  match m.level? bestOpposite with
  | none => .done m
  | some level =>
      if m.order.isFilled || level.empty then .done m
      else
        let restingId := level.frontOrderId
        match m.book.store.orders[restingId]? with
        | none => .yield (m.popGhost bestOpposite level)
        | some resting =>
            if m.book.config.enableSelfTradePrevention && nearIds m.order.id resting.id then
              .done { m with stoppedForSelfTrade := true }
            else .yield (m.fillFront bestOpposite level restingId resting)

def sweepFuel (bestOpposite : Price) (m : MatchState) : Nat :=
  m.book.store.orders.size + ((m.level? bestOpposite).elim 0 (·.orderCount)) + 2

/-- The inner loop. -/
def sweepLevel (bestOpposite : Price) (m : MatchState) : MatchState :=
  Loop.run (sweepStep bestOpposite) (m.sweepFuel bestOpposite) m

def refreshBest (m : MatchState) : MatchState :=
  m.setStore (m.book.store.updateBest m.opposite)

/-- What follows the inner loop: an exhausted level leaves the map. -/
def closeLevel (bestOpposite : Price) (m : MatchState) : MatchState :=
  match m.level? bestOpposite with
  | none => m
  | some level =>
      if level.empty then
        (m.setStore (m.book.store.eraseLevel m.opposite bestOpposite)).refreshBest
      else m

/-- One round of the outer loop, `while (!order.is_filled() && !stopped_for_self_trade)`. -/
def matchStep (m : MatchState) : ForInStep MatchState :=
  if m.order.isFilled || m.stoppedForSelfTrade then .done m
  else
    let bestOpposite := m.book.store.best m.opposite
    if bestOpposite == invalidPrice || bestOpposite == 0 then .done m
    else if !(m.order.type == .Market || m.order.wouldCross bestOpposite) then .done m
    else
      match m.level? bestOpposite with
      | none => .yield m.refreshBest
      | some level =>
          if level.empty then .yield m.refreshBest
          else .yield ((m.sweepLevel bestOpposite).closeLevel bestOpposite)

end MatchState

def matchFuel (b : OrderBook) (order : Order) : Nat := (b.store.levels order.side.opposite).size + 2

/-- `match_order`: the book and the order when the outer loop has been left. -/
def matchOrder (b : OrderBook) (order : Order) : MatchState :=
  Loop.run MatchState.matchStep (b.matchFuel order) { book := b, order := order }

/-! ## Notifications -/

def emitExecutionReport (b : OrderBook) (order : Order) (filled : Quantity) (avgPrice : Price) :
    OrderBook :=
  { b with feed := b.feed.emitExecutionReport order filled avgPrice }

def flushTrades (b : OrderBook) : OrderBook := { b with feed := b.feed.flushTrades }

def maybeEmitBbo (b : OrderBook) : OrderBook :=
  { b with feed := b.feed.maybeEmitBbo b.symbol b.store }

/-- `insert_resting_order`. -/
def insertRestingOrder (b : OrderBook) (order : Order) : OrderBook :=
  { b with
    store := b.store.insertRestingOrder order
    history := { b.history with
      insertions := b.history.insertions + 1
      entered := fun id => if id = order.id then b.history.insertions else b.history.entered id }
  }.maybeEmitBbo

/-! ## `add_order` -/

/-- A market order gets the price that crosses everything. -/
def withMarketPrice (order : Order) : Order :=
  if order.type = .Market then
    { order with price := match order.side with | .Buy => invalidPrice | .Sell => 0 }
  else order

/-- The `would_cross` of the post-only check, against the cached best prices. -/
def postOnlyWouldCross (s : Store) (order : Order) : Bool :=
  match order.side with
  | .Buy => s.bestAsk ≠ invalidPrice ∧ order.price ≥ s.bestAsk
  | .Sell => s.bestBid ≠ invalidPrice ∧ order.price ≤ s.bestBid

def isFillOrKill (order : Order) : Bool := order.tif = .FillOrKill ∨ order.type = .FillOrKill

/-- The liquidity loop of the fill-or-kill check, over the levels in map order. -/
def availableQuantity (order : Order) : List (Price × PriceLevel) → Quantity → Quantity
  | [], available => available
  | (price, level) :: rest, available =>
      let available :=
        if order.type = .Market || order.wouldCross price then available + level.totalQuantity
        else available
      if available ≥ order.quantity then available else availableQuantity order rest available

/-- The checks `add_order` makes before matching, in order: the reason of the first that fails. -/
def rejectReason (b : OrderBook) (order : Order) : Option RejectReason :=
  if order.quantity = 0 then some .InvalidQuantity
  else if order.type = .Limit ∧ order.price ≤ 0 then some .InvalidPrice
  else
    let order := withMarketPrice order
    if b.store.orders.contains order.id then some .DuplicateOrderId
    else if order.type = .PostOnly ∧ b.config.enablePostOnlyRejection
        ∧ postOnlyWouldCross b.store order then some .WouldCross
    else if isFillOrKill order
        ∧ availableQuantity order (b.store.levels order.side.opposite).toList 0 < order.quantity then
      some .InvalidQuantity
    else none

/-- `(order.price * order.filled_qty) / order.filled_qty`, in `int64_t`. -/
def avgFillPrice (order : Order) : Price :=
  if order.filledQty > 0 then
    order.price * order.filledQty.toUInt64.toInt64 / order.filledQty.toUInt64.toInt64
  else 0

/-- The last lines of `add_order`: report the fills, flush the batch, succeed. -/
def finish (b : OrderBook) (order : Order) : OrderResult × OrderBook :=
  let b := if order.filledQty > 0 then
      b.emitExecutionReport order order.filledQty (avgFillPrice order) else b
  let b := if b.config.batchCallbacks then b.flushTrades else b
  ({ success := true
     orderId := order.id
     filledQty := order.filledQty
     avgFillPrice := avgFillPrice order }, b)

/-- `add_order` after matching: what becomes of the remainder. -/
def settle (b : OrderBook) (order : Order) : OrderResult × OrderBook :=
  if order.tif = .ImmediateOrCancel ∨ order.type = .ImmediateOrCancel then
    let b := if !order.isFilled then
        b.emitExecutionReport order order.filledQty (avgFillPrice order) else b
    b.finish order
  else if isFillOrKill order then
    if !order.isFilled then
      ({ rejectReason := .InvalidQuantity
         orderId := order.id
         avgFillPrice := avgFillPrice order }, b)
    else b.finish order
  else if !order.isFilled ∧ order.type = .Limit then (b.insertRestingOrder order).finish order
  else if !order.isFilled ∧ order.type = .PostOnly then (b.insertRestingOrder order).finish order
  else b.finish order

def addOrder (b : OrderBook) (order : Order) : OrderResult × OrderBook :=
  match b.rejectReason order with
  | some reason =>
      ({ rejectReason := reason, orderId := order.id },
        if reason = .WouldCross then b.emitExecutionReport (withMarketPrice order) 0 0 else b)
  | none =>
      let m := b.matchOrder (withMarketPrice order)
      m.book.settle m.order

/-! ## `cancel_order` and `replace_order` -/

def cancelOrder (b : OrderBook) (orderId : OrderId) : OrderResult × OrderBook :=
  match b.store.orders[orderId]? with
  | none => ({ rejectReason := .OrderNotFound, orderId }, b)
  | some order =>
      ({ success := true, orderId },
        { b with store := b.store.cancelOrder orderId order }.maybeEmitBbo)

/-- The order `replace_order` adds in place of the one it cancelled. -/
def replacement (existing : Order) (orderId : OrderId) (newPrice : Price) (newQty : Quantity) :
    Order :=
  { id := orderId
    symbol := existing.symbol
    side := existing.side
    price := newPrice
    quantity := newQty
    type := existing.type
    tif := existing.tif }

/-- `replace_order`.  `uninit` is the indeterminate content of `OrderResult result;`. -/
def replaceOrder (b : OrderBook) (uninit : OrderResult) (orderId : OrderId) (newPrice : Price)
    (newQty : Quantity) : OrderResult × OrderBook :=
  let result := { uninit with success := false }
  match b.store.orders[orderId]? with
  | none => (result, b)
  | some existing =>
      let cancelAndAdd :=
        let (cancelResult, b) := b.cancelOrder orderId
        if !cancelResult.success then (cancelResult, b)
        else b.addOrder (replacement existing orderId newPrice newQty)
      if existing.price = newPrice then
        match (b.store.levels existing.side)[existing.price]? with
        | some level =>
            let s := b.store.setLevel existing.side existing.price
              (level.modifyQuantity orderId newQty)
            let s := s.setOrder orderId { existing with quantity := newQty }
            ({ result with success := true }, { b with store := s }.maybeEmitBbo)
        | none => cancelAndAdd
      else cancelAndAdd

/-! ## Runs -/

/-- A new book: `OrderBook(symbol, config)` with its callbacks registered. -/
def new (symbol : Symbol) (config : OrderBookConfig) (onTrade onExecution onBbo : Bool)
    (clock : Stream' Timestamp) : OrderBook :=
  { symbol, config, feed := { onTrade, onExecution, onBbo, clock } }

/-- A call of the public interface. -/
inductive Op
  | add (order : Order)
  | cancel (orderId : OrderId)
  | replace (uninit : OrderResult) (orderId : OrderId) (newPrice : Price) (newQty : Quantity)
  | flush

def apply (b : OrderBook) : Op → OrderBook
  | .add order => (b.addOrder order).2
  | .cancel orderId => (b.cancelOrder orderId).2
  | .replace uninit orderId newPrice newQty => (b.replaceOrder uninit orderId newPrice newQty).2
  | .flush => b.flushTrades

end OrderBook

end Exchange
