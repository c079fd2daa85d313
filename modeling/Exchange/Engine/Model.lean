import Exchange.Core.Loop
import Exchange.Core.Registry
import Exchange.OrderBook.Calls
import Exchange.SpscQueue.Model

/-!
# The matching engine

`MatchingEngine` of `engine/matching_engine.cpp`: one order book for each symbol, behind a map that
owns it and a map of plain pointers, a queue of inbound messages, and statistics.

* `submitOrder`, `cancelOrder`, `replaceOrder` — a request made directly;
* `enqueueOrder`, `enqueueCancel`, `enqueueReplace` — the same request made through the queue;
* `processOne`, `processQueue` — what the other end of the queue does with it.

`Request` is what a caller asks for, by either way, and `Op` is a call of the public interface.

`EngineHistory` is ghost state: the callbacks invoked by all books in the order in which that
happened, and the trades of all books.  A book that is destroyed leaves its part behind there.
-/

namespace Exchange

inductive MessageType
  | NewOrder
  | CancelOrder
  | ReplaceOrder
deriving DecidableEq, Repr

/-- `InboundMessage`; the constructor assigns `type` only. -/
structure InboundMessage where
  type : MessageType
  order : Order
  orderId : OrderId
  symbol : Symbol
  newPrice : Price
  newQty : Quantity
deriving DecidableEq, Repr

/-- Something to fill the slots of a new queue with. -/
instance : Inhabited InboundMessage where
  default :=
    { type := .NewOrder
      order := { id := 0, price := 0, quantity := 0, side := .Buy, symbol := .ofChars [] }
      orderId := 0
      symbol := .ofChars []
      newPrice := 0
      newQty := 0 }

structure EngineStats where
  ordersReceived : UInt64 := 0
  ordersMatched : UInt64 := 0
  ordersCancelled : UInt64 := 0
  tradesExecuted : UInt64 := 0
  totalVolume : UInt64 := 0
  messagesProcessed : UInt64 := 0
deriving DecidableEq, Repr

/-- Ghost state. -/
structure EngineHistory where
  events : List Event := []
  trades : List Trade := []

/-- What a call of a book has announced. -/
def EngineHistory.record (h : EngineHistory) (b b' : OrderBook) : EngineHistory where
  events := h.events ++ b'.feed.events.drop b.feed.events.length
  trades := h.trades ++ b'.feed.trades.drop b.feed.trades.length

/-- `SPSCQueue<InboundMessage, 65536>`. -/
def inboundCapacity : Capacity := ⟨65536, by decide, by decide⟩

/-- `clocks` gives each book that will be created the times it will read. -/
structure MatchingEngine where
  bookConfig : OrderBookConfig
  books : Registry Symbol OrderBook := .empty
  inboundQueue : SPSCQueue InboundMessage := .empty
  stats : EngineStats := {}
  tradeCallback : Bool := false
  executionCallback : Bool := false
  clocks : Nat → Stream' Timestamp
  history : EngineHistory := {}

namespace OrderBook

def setTradeCallback (b : OrderBook) (registered : Bool) : OrderBook :=
  { b with feed := { b.feed with onTrade := registered } }

def setExecutionCallback (b : OrderBook) (registered : Bool) : OrderBook :=
  { b with feed := { b.feed with onExecution := registered } }

end OrderBook

/-! ## Requests -/

/-- What a caller asks for. -/
inductive Request
  | order (order : Order)
  | cancel (symbol : Symbol) (orderId : OrderId)
  | replace (symbol : Symbol) (orderId : OrderId) (newPrice : Price) (newQty : Quantity)
deriving DecidableEq, Repr

namespace MatchingEngine

variable (e : MatchingEngine)

/-! ## Books -/

/-- `get_book`: the pointer, with what it points to. -/
def getBook (symbol : Symbol) : Option (Nat × OrderBook) := e.books.find? symbol

/-- The book a symbol leads to. -/
def book? (symbol : Symbol) : Option OrderBook := e.books.get? symbol

/-- A call of the book at an address has turned `b` into `b'`. -/
def update (a : Nat) (b b' : OrderBook) : MatchingEngine :=
  { e with books := e.books.modify a fun _ => b', history := e.history.record b b' }

def addSymbol (symbol : Symbol) : MatchingEngine :=
  let book := OrderBook.new symbol e.bookConfig e.tradeCallback e.executionCallback false
    (e.clocks e.books.fresh)
  { e with books := e.books.add symbol book }

def setTradeCallback (registered : Bool) : MatchingEngine :=
  { e with
    tradeCallback := registered
    books := e.books.forEach fun b => b.setTradeCallback registered }

def setExecutionCallback (registered : Bool) : MatchingEngine :=
  { e with
    executionCallback := registered
    books := e.books.forEach fun b => b.setExecutionCallback registered }

def resetStats : MatchingEngine := { e with stats := {} }

/-! ## Direct requests

`uninit` is the indeterminate content of `OrderResult result;`. -/

def unknownSymbol (uninit : OrderResult) : OrderResult :=
  { uninit with success := false, rejectReason := .UnknownSymbol }

def submitOrder (uninit : OrderResult) (order : Order) : OrderResult × MatchingEngine :=
  let e := { e with stats.ordersReceived := e.stats.ordersReceived + 1 }
  match e.getBook order.symbol with
  | none => (unknownSymbol uninit, e)
  | some (a, b) =>
      let (result, b') := b.addOrder order
      let e := e.update a b b'
      if result.success ∧ result.filledQty > 0 then
        (result, { e with stats := { e.stats with
          ordersMatched := e.stats.ordersMatched + 1
          tradesExecuted := e.stats.tradesExecuted + if result.filledQty > 0 then 1 else 0
          totalVolume := e.stats.totalVolume + result.filledQty.toUInt64 } })
      else (result, e)

def cancelOrder (uninit : OrderResult) (symbol : Symbol) (orderId : OrderId) :
    OrderResult × MatchingEngine :=
  match e.getBook symbol with
  | none => (unknownSymbol uninit, e)
  | some (a, b) =>
      let (result, b') := b.cancelOrder orderId
      let e := e.update a b b'
      if result.success then
        (result, { e with stats.ordersCancelled := e.stats.ordersCancelled + 1 })
      else (result, e)

def replaceOrder (uninit : OrderResult) (symbol : Symbol) (orderId : OrderId) (newPrice : Price)
    (newQty : Quantity) : OrderResult × MatchingEngine :=
  match e.getBook symbol with
  | none => (unknownSymbol uninit, e)
  | some (a, b) =>
      let (result, b') := b.replaceOrder uninit orderId newPrice newQty
      (result, e.update a b b')

/-- A request made directly. -/
def handle (uninit : OrderResult) : Request → OrderResult × MatchingEngine
  | .order order => e.submitOrder uninit order
  | .cancel symbol orderId => e.cancelOrder uninit symbol orderId
  | .replace symbol orderId newPrice newQty =>
      e.replaceOrder uninit symbol orderId newPrice newQty

/-! ## The queue

`uninit` is a message of which only `type` has been assigned. -/

def push (msg : InboundMessage) : Bool × MatchingEngine :=
  let (ok, queue) := e.inboundQueue.tryPush inboundCapacity msg
  (ok, { e with inboundQueue := queue })

def enqueueOrder (uninit : InboundMessage) (order : Order) : Bool × MatchingEngine :=
  e.push { uninit with type := .NewOrder, order }

def enqueueCancel (uninit : InboundMessage) (symbol : Symbol) (orderId : OrderId) :
    Bool × MatchingEngine :=
  e.push { uninit with type := .CancelOrder, orderId, symbol }

def enqueueReplace (uninit : InboundMessage) (symbol : Symbol) (orderId : OrderId)
    (newPrice : Price) (newQty : Quantity) : Bool × MatchingEngine :=
  e.push { uninit with type := .ReplaceOrder, orderId, symbol, newPrice, newQty }

/-- A request made through the queue. -/
def enqueue (uninit : InboundMessage) : Request → Bool × MatchingEngine
  | .order order => e.enqueueOrder uninit order
  | .cancel symbol orderId => e.enqueueCancel uninit symbol orderId
  | .replace symbol orderId newPrice newQty =>
      e.enqueueReplace uninit symbol orderId newPrice newQty

/-- `process_one`.  It drops the results of the three functions, so that what is indeterminate in
them does not matter. -/
def processOne : Bool × MatchingEngine :=
  let (popped, queue) := e.inboundQueue.tryPop inboundCapacity
  let e := { e with inboundQueue := queue }
  match popped with
  | none => (false, e)
  | some msg =>
      let e := { e with stats.messagesProcessed := e.stats.messagesProcessed + 1 }
      match msg.type with
      | .NewOrder => (true, (e.submitOrder {} msg.order).2)
      | .CancelOrder => (true, (e.cancelOrder {} msg.symbol msg.orderId).2)
      | .ReplaceOrder =>
          (true, (e.replaceOrder {} msg.symbol msg.orderId msg.newPrice msg.newQty).2)

/-- One round of the loop of `process_queue`, with the number of messages processed so far. -/
def processStep (s : Nat × MatchingEngine) : ForInStep (Nat × MatchingEngine) :=
  match s.2.processOne with
  | (false, e) => .done (s.1, e)
  | (true, e) => .yield (s.1 + 1, e)

def processFuel : Nat := (e.inboundQueue.sizeApprox inboundCapacity).toNat + 1

def processQueue : Nat × MatchingEngine := Loop.run processStep e.processFuel (0, e)

/-! ## Runs -/

/-- A call of the public interface. -/
inductive Op
  | addSymbol (symbol : Symbol)
  | setTradeCallback (registered : Bool)
  | setExecutionCallback (registered : Bool)
  | resetStats
  | direct (uninit : OrderResult) (request : Request)
  | enqueue (uninit : InboundMessage) (request : Request)
  | processOne
  | processQueue

def apply : Op → MatchingEngine
  | .addSymbol symbol => e.addSymbol symbol
  | .setTradeCallback registered => e.setTradeCallback registered
  | .setExecutionCallback registered => e.setExecutionCallback registered
  | .resetStats => e.resetStats
  | .direct uninit request => (e.handle uninit request).2
  | .enqueue uninit request => (e.enqueue uninit request).2
  | .processOne => e.processOne.2
  | .processQueue => e.processQueue.2

/-- An engine with callbacks to which some symbols have been added. -/
def start (config : OrderBookConfig) (tradeCallback executionCallback : Bool)
    (clocks : Nat → Stream' Timestamp) (symbols : List Symbol) : MatchingEngine :=
  symbols.foldl addSymbol
    { bookConfig := config, tradeCallback, executionCallback, clocks }

end MatchingEngine

end Exchange
