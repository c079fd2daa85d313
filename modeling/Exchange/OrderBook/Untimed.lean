import Exchange.OrderBook.Lockstep

/-!
# Timestamps aside

Nothing in a book reads a timestamp, so that books which differ only in the times they have read and
will read answer the same calls alike and go on differing only in those times.

**`untimed_simulation`** — that the feeds are the same apart from times survives every notification.
-/

namespace Exchange

/-- A report, apart from its time. -/
def ExecutionReport.untimed (r : ExecutionReport) : ExecutionReport := { r with timestamp := 0 }

/-- A quote, apart from its time. -/
def BBOUpdate.untimed (u : BBOUpdate) : BBOUpdate := { u with timestamp := 0 }

def Event.untimed : Event → Event
  | .trade t => .trade t.untimed
  | .execution r => .execution r.untimed
  | .bbo u => .bbo u.untimed

@[simp] lemma Trade.untimed_untimed : Trade.untimed ∘ Trade.untimed = Trade.untimed := rfl

@[simp] lemma Event.untimed_untimed : Event.untimed ∘ Event.untimed = Event.untimed := by
  funext x
  cases x <;> rfl

namespace Feed

/-- A feed apart from the times it has read and will read. -/
def untimed (f : Feed) : Feed :=
  { f with
    pendingTrades := f.pendingTrades.map Trade.untimed
    events := f.events.map Event.untimed
    clock := fun _ => 0 }

section Untimed

variable (f : Feed) (config : OrderBookConfig) (symbol : Symbol) (buy sell order : Order)
  (price : Price) (qty : Quantity) (aggressor : Side) (s : Store)

lemma untimed_flushTrades : f.flushTrades.untimed = f.untimed.flushTrades := by
  have hempty : (f.pendingTrades.map Trade.untimed).isEmpty = f.pendingTrades.isEmpty := by simp
  simp only [flushTrades, untimed, hempty]
  split_ifs
  · rfl
  · simp only [List.map_append, List.map_map, Function.comp_def, Event.untimed, List.map_nil]

/-! Notifications read no time, so that the times may as well be forgotten before. -/

lemma untimed_emitTrade :
    (f.emitTrade config symbol buy sell price qty aggressor).untimed
      = (f.untimed.emitTrade config symbol buy sell price qty aggressor).untimed := by
  have honTrade : f.untimed.onTrade = f.onTrade := rfl
  simp only [emitTrade, honTrade]
  split_ifs with hoff hbatch hfull hfull' hfull'
  · simp [untimed]
  · rw [untimed_flushTrades, untimed_flushTrades]
    congr 1
    simp [untimed, Trade.untimed]
  · simp [untimed] at hfull hfull'
    omega
  · simp [untimed] at hfull hfull'
    omega
  · simp [untimed, Trade.untimed]
  · simp [untimed, Event.untimed, Trade.untimed]

lemma untimed_maybeEmitBbo :
    (f.maybeEmitBbo symbol s).untimed = (f.untimed.maybeEmitBbo symbol s).untimed := by
  have honBbo : f.untimed.onBbo = f.onBbo := rfl
  have hbid : f.untimed.lastBboBid = f.lastBboBid := rfl
  have hask : f.untimed.lastBboAsk = f.lastBboAsk := rfl
  simp only [maybeEmitBbo, honBbo, hbid, hask]
  split_ifs
  · simp [untimed]
  · simp [untimed, Event.untimed, BBOUpdate.untimed]
  · simp [untimed]

lemma untimed_emitExecutionReport :
    (f.emitExecutionReport order qty price).untimed
      = (f.untimed.emitExecutionReport order qty price).untimed := by
  have honExecution : f.untimed.onExecution = f.onExecution := rfl
  simp only [emitExecutionReport, honExecution]
  split_ifs
  · simp [untimed]
  · simp [untimed, Event.untimed, ExecutionReport.untimed]

end Untimed

end Feed

namespace OrderBook

/-- **The times do not matter.** -/
theorem untimed_simulation (config : OrderBookConfig) :
    FeedSimulation config config fun f f' => f'.untimed = f.untimed where
  selfTrade_eq := rfl
  postOnly_eq := rfl
  emitTrade f f' symbol buy sell price qty aggressor h := by
    rw [Feed.untimed_emitTrade, h, ← Feed.untimed_emitTrade]
  emitExecutionReport f f' order filled avg h := by
    rw [Feed.untimed_emitExecutionReport, h, ← Feed.untimed_emitExecutionReport]
  maybeEmitBbo f f' symbol s h := by
    rw [Feed.untimed_maybeEmitBbo, h, ← Feed.untimed_maybeEmitBbo]
  flushTrades f f' h := by rw [Feed.untimed_flushTrades, Feed.untimed_flushTrades, h]
  flushBatch f f' h := by
    split_ifs
    · rw [Feed.untimed_flushTrades, Feed.untimed_flushTrades, h]
    · exact h

/-- Two books that are the same apart from times. -/
abbrev SameButTimes (b b' : OrderBook) : Prop :=
  Alike b.config b.config (fun f f' => f'.untimed = f.untimed) b b'

namespace SameButTimes

variable {b b' : OrderBook}

lemma step (h : SameButTimes b b') (op : Op) : SameButTimes (b.apply op) (b'.apply op) := by
  have hstep := (Alike.step h (untimed_simulation b.config) op).1
  rwa [← hstep.config_eq] at hstep

lemma result_eq (h : SameButTimes b b') (op : Op) : b'.result op = b.result op :=
  (Alike.step h (untimed_simulation b.config) op).2

/-- The callbacks invoked and the trades, apart from their times. -/
lemma events_eq (h : SameButTimes b b') :
    b'.feed.events.map Event.untimed = b.feed.events.map Event.untimed :=
  congrArg Feed.events h.feed

lemma trades_eq (h : SameButTimes b b') :
    b'.feed.trades.map Trade.untimed = b.feed.trades.map Trade.untimed := by
  have htrade : ∀ f : Feed, f.trades.map Trade.untimed = f.untimed.trades := by
    intro f
    have hevents : ∀ x : Event, x.trade?.map Trade.untimed = x.untimed.trade? := by
      intro x
      cases x <;> rfl
    simp only [Feed.trades, Feed.untimed, List.map_append, List.map_filterMap,
      List.filterMap_map, Function.comp_def, hevents]
  rw [htrade, htrade, h.feed]

/-- Books of one symbol that have been made at different times. -/
lemma new (symbol : Symbol) (config : OrderBookConfig) (onTrade onExecution onBbo : Bool)
    (clock clock' : Stream' Timestamp) :
    SameButTimes (new symbol config onTrade onExecution onBbo clock)
      (OrderBook.new symbol config onTrade onExecution onBbo clock') :=
  ⟨rfl, rfl, rfl, rfl, rfl⟩

end SameButTimes

end OrderBook

end Exchange
