import Exchange.Engine.Model

/-!
# The agents

`agents/market_maker.cpp`, `momentum.cpp` and `noise.cpp`.  No agent looks at what the engine
answers, so that `on_tick` is a list of requests, in the order in which they are made, and the agent
afterwards.

What is random or computed in floating point is a parameter.  `Draws` holds what one call of
`on_tick` draws; the ranges of the two integer draws are not assumed.  `MarketMakerConfig.skew` and
`MomentumConfig.side` stand for the two functions of `inventory_skew` and `threshold`.
-/

namespace Exchange

/-- The base class. -/
structure Agent where
  /-- `next_order_id_` -/
  counter : OrderId := 1
deriving DecidableEq, Repr

def Agent.nextOrderId (a : Agent) : OrderId × Agent := (a.counter, ⟨a.counter + 1⟩)

/-- What one call of `on_tick` draws. -/
structure Draws where
  /-- how the first draw compares with the probability of doing something -/
  acts : Bool
  side : Side := .Buy
  size : Quantity := 0
  isMarket : Bool := false
  deviation : Price := 0

/-! ## Market makers -/

structure MarketMakerConfig where
  symbol : Symbol
  baseSize : Quantity := 100
  halfSpread : Price := 10
  /-- `static_cast<Price>(position * inventory_skew * PRICE_SCALE)` -/
  skew : Int64 → Price
  maxPosition : Quantity := 1000

structure MarketMaker extends Agent where
  config : MarketMakerConfig
  position : Int64 := 0
  numTrades : UInt64 := 0
  lastMid : Price := 0
  bidOrderId : OrderId := 0
  askOrderId : OrderId := 0

namespace MarketMaker

variable (m : MarketMaker)

def computeFairValue : Price := m.lastMid

/-- The quote of one side: an order with the next id. -/
def quote (side : Side) (price : Price) : Order :=
  { id := m.toAgent.nextOrderId.1
    symbol := m.config.symbol
    side := side
    price := price
    quantity := m.config.baseSize }

def updateQuotes : List Request × MarketMaker :=
  let fair := if m.computeFairValue = 0 then 100 * priceScale else m.computeFairValue
  let skew := m.config.skew m.position
  let bid := fair - m.config.halfSpread - skew
  let ask := fair + m.config.halfSpread - skew
  let limit := m.config.maxPosition.toUInt64.toInt64
  let cancelBid :=
    if m.bidOrderId > 0 then [.cancel m.config.symbol m.bidOrderId] else []
  let cancelAsk :=
    if m.askOrderId > 0 then [.cancel m.config.symbol m.askOrderId] else []
  let (submitBid, m) :=
    if m.position < limit then
      let order := m.quote .Buy bid
      ([.order order], { m with bidOrderId := order.id, toAgent := m.toAgent.nextOrderId.2 })
    else ([], m)
  let (submitAsk, m) :=
    if m.position > -limit then
      let order := m.quote .Sell ask
      ([.order order], { m with askOrderId := order.id, toAgent := m.toAgent.nextOrderId.2 })
    else ([], m)
  (cancelBid ++ cancelAsk ++ submitBid ++ submitAsk, m)

def cancelAll : List Request × MarketMaker :=
  let (cancelBid, m) :=
    if m.bidOrderId > 0 then
      ([.cancel m.config.symbol m.bidOrderId], { m with bidOrderId := 0 })
    else ([], m)
  let (cancelAsk, m) :=
    if m.askOrderId > 0 then
      ([.cancel m.config.symbol m.askOrderId], { m with askOrderId := 0 })
    else ([], m)
  (cancelBid ++ cancelAsk, m)

def onTick (draws : Draws) : List Request × MarketMaker :=
  if draws.acts then m.updateQuotes else ([], m)

def onFill (report : ExecutionReport) : MarketMaker :=
  let position := match report.side with
    | .Buy => m.position + report.lastQty.toUInt64.toInt64
    | .Sell => m.position - report.lastQty.toUInt64.toInt64
  { m with position := position, numTrades := m.numTrades + 1 }

def onBbo (bbo : BBOUpdate) : MarketMaker :=
  { m with lastMid := (bbo.bidPrice + bbo.askPrice) / 2 }

end MarketMaker

/-! ## Momentum agents -/

structure MomentumConfig where
  symbol : Symbol
  lookbackTicks : Nat := 100
  /-- the side on which the signal is beyond `threshold`; the signal is 0.0, or the difference of
  two prices divided by the first -/
  side : Option (Price × Price) → Option Side
  orderSize : Quantity := 50

structure MomentumAgent extends Agent where
  config : MomentumConfig
  priceHistory : List Price := []
  position : Int64 := 0

namespace MomentumAgent

variable (m : MomentumAgent)

/-- The prices that the signal is computed from, unless it is 0.0. -/
def computeSignal : Option (Price × Price) :=
  match m.priceHistory.head?, m.priceHistory.getLast? with
  | some first, some last =>
      if m.priceHistory.length < 2 then none
      else if first = 0 then none
      else some (first, last)
  | _, _ => none

def onTick (draws : Draws) : List Request × MomentumAgent :=
  if m.priceHistory.length < m.config.lookbackTicks then ([], m)
  else if !draws.acts then ([], m)
  else
    match m.config.side m.computeSignal with
    | none => ([], m)
    | some side =>
        let order : Order :=
          { id := m.toAgent.nextOrderId.1
            symbol := m.config.symbol
            side := side
            price := 0
            quantity := m.config.orderSize
            type := .Market }
        ([.order order], { m with toAgent := m.toAgent.nextOrderId.2 })

def onFill (report : ExecutionReport) : MomentumAgent :=
  let position := match report.side with
    | .Buy => m.position + report.lastQty.toUInt64.toInt64
    | .Sell => m.position - report.lastQty.toUInt64.toInt64
  { m with position := position }

def onBbo (bbo : BBOUpdate) : MomentumAgent :=
  let mid := (bbo.bidPrice + bbo.askPrice) / 2
  let priceHistory := m.priceHistory ++ [mid]
  { m with
    priceHistory :=
      if priceHistory.length > m.config.lookbackTicks then priceHistory.tail else priceHistory }

end MomentumAgent

/-! ## Noise traders -/

structure NoiseTraderConfig where
  symbol : Symbol
  maxDeviation : Price := 100

structure NoiseTrader extends Agent where
  config : NoiseTraderConfig
  lastMid : Price := 100 * priceScale

namespace NoiseTrader

variable (n : NoiseTrader)

/-- The price of a limit order. -/
def limitPrice (draws : Draws) : Price :=
  let price := match draws.side with
    | .Buy => n.lastMid - n.config.maxDeviation / 2 + draws.deviation
    | .Sell => n.lastMid + n.config.maxDeviation / 2 + draws.deviation
  if price ≤ 0 then 1 else price

def onTick (draws : Draws) : List Request × NoiseTrader :=
  if !draws.acts then ([], n)
  else
    let order : Order :=
      { id := n.toAgent.nextOrderId.1
        symbol := n.config.symbol
        side := draws.side
        price := if draws.isMarket then 0 else n.limitPrice draws
        quantity := draws.size
        type := if draws.isMarket then .Market else .Limit }
    ([.order order], { n with toAgent := n.toAgent.nextOrderId.2 })

def onBbo (bbo : BBOUpdate) : NoiseTrader :=
  if bbo.bidPrice > 0 ∧ bbo.askPrice < invalidPrice then
    { n with lastMid := (bbo.bidPrice + bbo.askPrice) / 2 }
  else n

end NoiseTrader

/-! ## Any agent -/

/-- What `std::unique_ptr<Agent>` points to. -/
inductive AnyAgent
  | marketMaker (m : MarketMaker)
  | momentum (m : MomentumAgent)
  | noise (n : NoiseTrader)

namespace AnyAgent

def base : AnyAgent → Agent
  | .marketMaker m => m.toAgent
  | .momentum m => m.toAgent
  | .noise n => n.toAgent

def onTick (draws : Draws) : AnyAgent → List Request × AnyAgent
  | .marketMaker m => (m.onTick draws).map id .marketMaker
  | .momentum m => (m.onTick draws).map id .momentum
  | .noise n => (n.onTick draws).map id .noise

/-- The noise trader inherits the `on_fill` that does nothing. -/
def onFill (report : ExecutionReport) : AnyAgent → AnyAgent
  | .marketMaker m => .marketMaker (m.onFill report)
  | .momentum m => .momentum (m.onFill report)
  | .noise n => .noise n

def onBbo (bbo : BBOUpdate) : AnyAgent → AnyAgent
  | .marketMaker m => .marketMaker (m.onBbo bbo)
  | .momentum m => .momentum (m.onBbo bbo)
  | .noise n => .noise (n.onBbo bbo)

end AnyAgent

/-- What an agent is created from. -/
inductive AgentConfig
  | marketMaker (config : MarketMakerConfig)
  | momentum (config : MomentumConfig)
  | noise (config : NoiseTraderConfig)

/-- `create_market_maker`, `create_momentum` and `create_noise_trader`. -/
def AgentConfig.create : AgentConfig → AnyAgent
  | .marketMaker config => .marketMaker { config }
  | .momentum config => .momentum { config }
  | .noise config => .noise { config }

end Exchange
