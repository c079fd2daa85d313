import Exchange.OrderBook.Store
import Mathlib.Data.Stream.Init

/-!
# What an order book tells its subscribers

The members of `OrderBook` behind the callbacks: which callbacks are registered, the shared sequence
counter, the batch of pending trades and the last best bid and offer announced.  `events` is the
list of callback invocations made so far, oldest first; callbacks do not call back into the book.

`clock` is the sequence of values that successive calls of `Timing::now_ns` will return.  Nothing in
the book reads a timestamp.
-/

namespace Exchange

/-- The options of `OrderBookConfig` that the book reads. -/
structure OrderBookConfig where
  enableSelfTradePrevention : Bool := false
  enablePostOnlyRejection : Bool := true
  batchCallbacks : Bool := true
  tradeBatchSize : Nat := 100
deriving DecidableEq, Repr

/-- One invocation of a callback. -/
inductive Event
  | trade (t : Trade)
  | execution (r : ExecutionReport)
  | bbo (u : BBOUpdate)
deriving DecidableEq, Repr

def Event.trade? : Event → Option Trade
  | .trade t => some t
  | _ => none

def Event.execution? : Event → Option ExecutionReport
  | .execution r => some r
  | _ => none

/-- A trade, apart from its time. -/
def Trade.untimed (t : Trade) : Trade := { t with timestamp := 0 }

structure Feed where
  onTrade : Bool
  onExecution : Bool
  onBbo : Bool
  nextSeqNum : SequenceNum := 1
  lastBboBid : Price := invalidPrice
  lastBboAsk : Price := invalidPrice
  pendingTrades : List Trade := []
  events : List Event := []
  clock : Stream' Timestamp

namespace Feed

def flushTrades (f : Feed) : Feed :=
  if f.pendingTrades.isEmpty ∨ !f.onTrade then f
  else { f with events := f.events ++ f.pendingTrades.map .trade, pendingTrades := [] }

def emitTrade (f : Feed) (config : OrderBookConfig) (symbol : Symbol) (buy sell : Order)
    (price : Price) (qty : Quantity) (aggressor : Side) : Feed :=
  if !f.onTrade then f
  else
    let trade : Trade :=
      { seqNum := f.nextSeqNum
        symbol := symbol
        price := price
        quantity := qty
        buyOrderId := buy.id
        sellOrderId := sell.id
        timestamp := f.clock.head
        aggressorSide := aggressor }
    let f := { f with nextSeqNum := f.nextSeqNum + 1, clock := f.clock.tail }
    if config.batchCallbacks then
      let f := { f with pendingTrades := f.pendingTrades ++ [trade] }
      if f.pendingTrades.length ≥ config.tradeBatchSize then f.flushTrades else f
    else { f with events := f.events ++ [.trade trade] }

/-- `bid_quantity_at` and `ask_quantity_at`. -/
def quantityAt (s : Store) (side : Side) (price : Price) : Quantity :=
  match (s.levels side)[price]? with
  | none => 0
  | some level => level.totalQuantity

def maybeEmitBbo (f : Feed) (symbol : Symbol) (s : Store) : Feed :=
  if !f.onBbo then f
  else if s.bestBid ≠ f.lastBboBid ∨ s.bestAsk ≠ f.lastBboAsk then
    let bbo : BBOUpdate :=
      { symbol := symbol
        bidPrice := s.bestBid
        bidQty := quantityAt s .Buy s.bestBid
        askPrice := s.bestAsk
        askQty := quantityAt s .Sell s.bestAsk
        timestamp := f.clock.head }
    { f with
      clock := f.clock.tail
      events := f.events ++ [.bbo bbo]
      lastBboBid := s.bestBid
      lastBboAsk := s.bestAsk }
  else f

def emitExecutionReport (f : Feed) (order : Order) (filled : Quantity) (avgPrice : Price) : Feed :=
  if !f.onExecution then f
  else
    let report : ExecutionReport :=
      { orderId := order.id
        execId := f.nextSeqNum
        symbol := order.symbol
        side := order.side
        status := order.status
        price := order.price
        orderQty := order.quantity
        filledQty := filled
        leavesQty := order.quantity - filled
        avgPrice := avgPrice
        timestamp := f.clock.head
        lastPrice := avgPrice
        lastQty := filled }
    { f with
      nextSeqNum := f.nextSeqNum + 1
      clock := f.clock.tail
      events := f.events ++ [.execution report] }

/-! ## The trade stream

Every trade executed so far: those delivered, followed by those still waiting in the batch.  Only
`emitTrade` extends it; flushing moves trades from the second part to the first.
-/

def trades (f : Feed) : List Trade := f.events.filterMap Event.trade? ++ f.pendingTrades

/-- The trades delivered so far. -/
def delivered (f : Feed) : List Trade := f.events.filterMap Event.trade?

/-- The trade that `emit_trade` makes up. -/
def nextTrade (f : Feed) (symbol : Symbol) (buy sell : Order) (price : Price) (qty : Quantity)
    (aggressor : Side) : Trade :=
  { seqNum := f.nextSeqNum, symbol, price, quantity := qty, buyOrderId := buy.id,
    sellOrderId := sell.id, timestamp := f.clock.head, aggressorSide := aggressor }

section Frame

variable (f : Feed) (config : OrderBookConfig) (symbol : Symbol) (buy sell order : Order)
  (price : Price) (qty : Quantity) (aggressor : Side) (s : Store)

@[simp] lemma onTrade_flushTrades : f.flushTrades.onTrade = f.onTrade := by
  simp only [flushTrades]; split <;> rfl

@[simp] lemma onTrade_emitTrade :
    (f.emitTrade config symbol buy sell price qty aggressor).onTrade = f.onTrade := by
  simp only [emitTrade]; split_ifs <;> simp

@[simp] lemma onTrade_maybeEmitBbo : (f.maybeEmitBbo symbol s).onTrade = f.onTrade := by
  simp only [maybeEmitBbo]; split_ifs <;> rfl

@[simp] lemma onTrade_emitExecutionReport :
    (f.emitExecutionReport order qty price).onTrade = f.onTrade := by
  simp only [emitExecutionReport]; split_ifs <;> rfl

@[simp] lemma onExecution_flushTrades : f.flushTrades.onExecution = f.onExecution := by
  simp only [flushTrades]; split <;> rfl

@[simp] lemma onExecution_emitTrade :
    (f.emitTrade config symbol buy sell price qty aggressor).onExecution = f.onExecution := by
  simp only [emitTrade]; split_ifs <;> simp

@[simp] lemma onExecution_maybeEmitBbo : (f.maybeEmitBbo symbol s).onExecution = f.onExecution := by
  simp only [maybeEmitBbo]; split_ifs <;> rfl

@[simp] lemma onExecution_emitExecutionReport :
    (f.emitExecutionReport order qty price).onExecution = f.onExecution := by
  simp only [emitExecutionReport]; split_ifs <;> rfl

@[simp] lemma trades_flushTrades : f.flushTrades.trades = f.trades := by
  simp only [flushTrades]
  split
  · rfl
  · have hmap : (f.pendingTrades.map Event.trade).filterMap Event.trade? = f.pendingTrades := by
      rw [List.filterMap_map]
      exact List.filterMap_some
    simp [trades, hmap]

@[simp] lemma trades_maybeEmitBbo : (f.maybeEmitBbo symbol s).trades = f.trades := by
  simp only [maybeEmitBbo]
  split_ifs <;> simp [trades, Event.trade?]

@[simp] lemma trades_emitExecutionReport :
    (f.emitExecutionReport order qty price).trades = f.trades := by
  simp only [emitExecutionReport]
  split_ifs <;> simp [trades, Event.trade?]

end Frame

/-- A trade that is listened to is the only one that `emitTrade` adds. -/
lemma mem_trades_emitTrade {f : Feed} {config : OrderBookConfig} {symbol : Symbol}
    {buy sell : Order} {price : Price} {qty : Quantity} {aggressor : Side} {t : Trade}
    (ht : t ∈ (f.emitTrade config symbol buy sell price qty aggressor).trades) :
    t ∈ f.trades ∨ t = f.nextTrade symbol buy sell price qty aggressor := by
  simp only [emitTrade] at ht
  split_ifs at ht
  · exact Or.inl ht
  · rw [trades_flushTrades] at ht
    simpa [trades, nextTrade, or_assoc] using ht
  · simpa [trades, nextTrade, or_assoc] using ht
  · simpa [trades, nextTrade, Event.trade?, or_assoc, or_comm, or_left_comm] using ht

/-- Trades are listened to, and a book that does not batch has nothing pending. -/
structure Live (config : OrderBookConfig) (f : Feed) : Prop where
  onTrade : f.onTrade = true
  pending : config.batchCallbacks = false → f.pendingTrades = []

variable {f : Feed} {config : OrderBookConfig}

/-- **A trade executed is announced once**, whether the book batches or not. -/
theorem Live.trades_emitTrade (h : f.Live config) (symbol : Symbol) (buy sell : Order)
    (price : Price) (qty : Quantity) (aggressor : Side) :
    (f.emitTrade config symbol buy sell price qty aggressor).trades
      = f.trades ++ [f.nextTrade symbol buy sell price qty aggressor] := by
  by_cases hbatch : config.batchCallbacks = true
  · simp only [emitTrade, h.onTrade, hbatch, Bool.not_true, Bool.false_eq_true, if_false, if_true]
    split
    · rw [trades_flushTrades]
      simp [trades, nextTrade]
    · simp [trades, nextTrade]
  · have hnil := h.pending (by simpa using hbatch)
    simp [emitTrade, h.onTrade, hbatch, trades, nextTrade, hnil, Event.trade?]

lemma Live.flushTrades (h : f.Live config) : f.flushTrades.Live config where
  onTrade := by rw [onTrade_flushTrades, h.onTrade]
  pending hbatch := by
    simp only [Feed.flushTrades]
    split
    · exact h.pending hbatch
    · rfl

lemma Live.emitTrade (h : f.Live config) (symbol : Symbol) (buy sell : Order) (price : Price)
    (qty : Quantity) (aggressor : Side) :
    (f.emitTrade config symbol buy sell price qty aggressor).Live config where
  onTrade := by rw [onTrade_emitTrade, h.onTrade]
  pending hbatch := by
    simpa [Feed.emitTrade, h.onTrade, hbatch] using h.pending hbatch

lemma Live.maybeEmitBbo (h : f.Live config) (symbol : Symbol) (s : Store) :
    (f.maybeEmitBbo symbol s).Live config where
  onTrade := by rw [onTrade_maybeEmitBbo, h.onTrade]
  pending hbatch := by
    simp only [Feed.maybeEmitBbo]
    split_ifs <;> exact h.pending hbatch

lemma Live.emitExecutionReport (h : f.Live config) (order : Order) (filled : Quantity)
    (avgPrice : Price) : (f.emitExecutionReport order filled avgPrice).Live config where
  onTrade := by rw [onTrade_emitExecutionReport, h.onTrade]
  pending hbatch := by
    simp only [Feed.emitExecutionReport]
    split_ifs <;> exact h.pending hbatch

/-! ## What is delivered -/

/-- From `f` to `f'` there are more events, each of them such as `P` says. -/
def Adds (P : Event → Prop) (f f' : Feed) : Prop :=
  ∃ events, f'.events = f.events ++ events ∧ ∀ e ∈ events, P e

variable {P : Event → Prop} {f' f'' : Feed}

lemma Adds.refl (P : Event → Prop) (f : Feed) : Adds P f f :=
  ⟨[], (List.append_nil _).symm, fun _ he => absurd he List.not_mem_nil⟩

lemma Adds.trans (h : Adds P f f') (h' : Adds P f' f'') : Adds P f f'' := by
  obtain ⟨events, heq, hall⟩ := h
  obtain ⟨events', heq', hall'⟩ := h'
  refine ⟨events ++ events', by rw [heq', heq, List.append_assoc], fun e he => ?_⟩
  exact (List.mem_append.mp he).elim (hall e) (hall' e)

lemma Adds.mono {Q : Event → Prop} (himp : ∀ e, P e → Q e) (h : Adds P f f') : Adds Q f f' := by
  obtain ⟨events, heq, hall⟩ := h
  exact ⟨events, heq, fun e he => himp e (hall e he)⟩

/-- One more event. -/
lemma Adds.one {e : Event} (h : f'.events = f.events ++ [e]) (he : P e) : Adds P f f' :=
  ⟨[e], h, fun e' he' => by rw [List.mem_singleton.mp he']; exact he⟩

lemma adds_flushTrades (f : Feed) (h : ∀ t, P (.trade t)) : Adds P f f.flushTrades := by
  rw [flushTrades]
  split_ifs
  · exact .refl P f
  · refine ⟨_, rfl, fun e he => ?_⟩
    obtain ⟨t, -, rfl⟩ := List.mem_map.mp he
    exact h t

lemma adds_emitTrade (f : Feed) (config : OrderBookConfig) (symbol : Symbol) (buy sell : Order)
    (price : Price) (qty : Quantity) (aggressor : Side) (h : ∀ t, P (.trade t)) :
    Adds P f (f.emitTrade config symbol buy sell price qty aggressor) := by
  simp only [emitTrade]
  split_ifs
  · exact .refl P f
  · exact adds_flushTrades { f with
      nextSeqNum := f.nextSeqNum + 1
      clock := f.clock.tail
      pendingTrades := f.pendingTrades ++ [f.nextTrade symbol buy sell price qty aggressor] } h
  · exact ⟨[], (List.append_nil _).symm, fun _ he => absurd he List.not_mem_nil⟩
  · exact .one rfl (h _)

/-- The quote that `maybe_emit_bbo` makes up. -/
def nextQuote (f : Feed) (symbol : Symbol) (s : Store) : BBOUpdate :=
  { symbol
    bidPrice := s.bestBid
    bidQty := quantityAt s .Buy s.bestBid
    askPrice := s.bestAsk
    askQty := quantityAt s .Sell s.bestAsk
    timestamp := f.clock.head }

lemma adds_maybeEmitBbo (f : Feed) (symbol : Symbol) (s : Store)
    (h : P (.bbo (f.nextQuote symbol s))) : Adds P f (f.maybeEmitBbo symbol s) := by
  simp only [maybeEmitBbo]
  split_ifs
  · exact .refl P f
  · exact .one rfl h
  · exact .refl P f

lemma adds_emitExecutionReport (f : Feed) (order : Order) (filled : Quantity) (avgPrice : Price)
    (h : ∀ r, r.orderId = order.id → P (.execution r)) :
    Adds P f (f.emitExecutionReport order filled avgPrice) := by
  simp only [emitExecutionReport]
  split_ifs
  · exact .refl P f
  · exact .one rfl (h _ rfl)

end Feed

end Exchange
