import Exchange.OrderBook.Calls

/-!
# The trades announced are the fills executed

With a trade callback registered, the trades delivered or pending are, one for one and in order, the
fills that `match_order` has executed (`announced_after`): none is lost in the batch, none is
announced twice, and each names the two orders, the maker's price and the quantity.  Statements
about fills are therefore statements about trades, and the other way round.
-/

namespace Exchange

/-- What a trade says, apart from its number and time. -/
structure Execution where
  price : Price
  quantity : Quantity
  buyOrderId : OrderId
  sellOrderId : OrderId
  aggressorSide : Side
deriving DecidableEq, Repr

def Trade.execution (t : Trade) : Execution :=
  { price := t.price
    quantity := t.quantity
    buyOrderId := t.buyOrderId
    sellOrderId := t.sellOrderId
    aggressorSide := t.aggressorSide }

/-- The execution of a taker against a maker. -/
def executionOf (taker maker : Order) (price : Price) (quantity : Quantity) : Execution :=
  match taker.side with
  | .Buy => { price, quantity, buyOrderId := taker.id, sellOrderId := maker.id, aggressorSide := .Buy }
  | .Sell =>
      { price, quantity, buyOrderId := maker.id, sellOrderId := taker.id, aggressorSide := .Sell }

lemma executionOf_congr {taker taker' : Order} (hside : taker'.side = taker.side)
    (hid : taker'.id = taker.id) (maker : Order) (price : Price) (quantity : Quantity) :
    executionOf taker' maker price quantity = executionOf taker maker price quantity := by
  simp only [executionOf, hside, hid]

def Fill.execution (f : Fill) : Execution := executionOf f.taker f.maker f.price f.quantity

@[simp] lemma executionOf_quantity (taker maker : Order) (price : Price) (quantity : Quantity) :
    (executionOf taker maker price quantity).quantity = quantity := by
  cases h : taker.side <;> simp [executionOf, h]

namespace OrderBook

open MatchState

/-- Trades are listened to, and they are the fills executed. -/
structure Announced (b : OrderBook) : Prop where
  live : b.feed.Live b.config
  executions_eq : b.feed.trades.map Trade.execution = b.history.executed.map Fill.execution

lemma Announced.quiet {b b' : OrderBook} (h : Announced b) (hquiet : Quiet b b') :
    Announced b' where
  live := by
    rw [hquiet.config_eq]
    exact hquiet.live h.live
  executions_eq := by rw [hquiet.trades_eq, hquiet.history_eq, h.executions_eq]

/-- What rests in the book is none of its business. -/
lemma Announced.congr {b b' : OrderBook} (h : Announced b) (hfeed : b'.feed = b.feed)
    (hconfig : b'.config = b.config) (hexecuted : b'.history.executed = b.history.executed) :
    Announced b' where
  live := by
    rw [hfeed, hconfig]
    exact h.live
  executions_eq := by rw [hfeed, hexecuted, h.executions_eq]

/-- One fill, one trade. -/
theorem Announced.fillFront {m : MatchState} (h : Announced m.book) (p : Price)
    (level : PriceLevel) (id : OrderId) (resting : Order) :
    Announced (m.fillFront p level id resting).book := by
  have hside : (m.order.fill (m.fillQty resting)).2.side = m.order.side := Order.fill_side _ _
  constructor
  · simp only [MatchState.fillFront, hside]
    cases m.order.side
    · exact h.live.emitTrade _ _ _ _ _ _
    · exact h.live.emitTrade _ _ _ _ _ _
  · simp only [MatchState.fillFront, hside]
    cases htaker : m.order.side
    · dsimp only
      rw [h.live.trades_emitTrade, List.map_append, List.map_append, h.executions_eq]
      simp [Trade.execution, Fill.execution, executionOf, Feed.nextTrade, htaker]
    · dsimp only
      rw [h.live.trades_emitTrade, List.map_append, List.map_append, h.executions_eq]
      simp [Trade.execution, Fill.execution, executionOf, Feed.nextTrade, htaker]

theorem announced_invariant :
    MatchInvariant (fun m => Announced m.book) fun _ m => Announced m.book :=
  .of_uniform (fun _ h => h.congr rfl rfl rfl) (fun _ _ _ _ _ h _ _ => h.congr rfl rfl rfl)
    (fun _ h => h) (fun p _ level _ _ _ h _ => h.fillFront p level _ _)
    (fun _ _ _ h _ _ => h.congr rfl rfl rfl)

theorem announced_calls : CallInvariant (fun _ _ => True) Announced where
  quiet := Announced.quiet
  matched h _ _ := announced_invariant.matchOrder _ _ h
  rested {b order} h _ _ _ _ := by
    refine Announced.quiet ?_ (Quiet.maybeEmitBbo _)
    exact (announced_invariant.matchOrder b (withMarketPrice order) h).congr rfl rfl rfl
  cancelled h _ := h.congr rfl rfl rfl
  inPlace h _ _ := h.congr rfl rfl rfl
  moved _ _ := trivial

/-- **Every fill is announced once**, in every run with a trade callback. -/
theorem announced_after (symbol : Symbol) (config : OrderBookConfig) (onExecution onBbo : Bool)
    (clock : Stream' Timestamp) (ops : List Op) :
    Announced (after (new symbol config true onExecution onBbo clock) ops) :=
  announced_calls.run (Run.admitted_trivial _ _) ⟨⟨rfl, fun _ => rfl⟩, rfl⟩

/-! ## With or without a callback -/

/-- The execution that the fill branch announces. -/
lemma execution_nextTrade (m : MatchState) (p : Price) (level : PriceLevel) (id : OrderId)
    (resting : Order) {t : Trade} (ht : t ∈ (m.fillFront p level id resting).book.feed.trades) :
    t ∈ m.book.feed.trades ∨
      t.execution = executionOf m.order resting p (m.fillQty resting) := by
  have hside : (m.order.fill (m.fillQty resting)).2.side = m.order.side := Order.fill_side _ _
  simp only [MatchState.fillFront, hside] at ht
  cases htaker : m.order.side <;> rw [htaker] at ht <;> dsimp only at ht <;>
    rcases Feed.mem_trades_emitTrade ht with hold | rfl
  all_goals first
    | exact Or.inl hold
    | exact Or.inr (by simp [Trade.execution, executionOf, Feed.nextTrade, htaker])

/-- Every trade announced is a fill that was executed. -/
def Backed (b : OrderBook) : Prop :=
  ∀ t ∈ b.feed.trades, ∃ f ∈ b.history.executed, t.execution = f.execution

theorem backed_invariant : MatchInvariant (fun m => Backed m.book) fun _ m => Backed m.book := by
  refine .of_uniform (fun _ h => h) (fun _ _ _ _ _ h _ _ => h) (fun _ h => h) ?_ fun _ _ _ h _ _ => h
  intro p m level n rest resting h _ t ht
  rcases execution_nextTrade m p level n.orderId resting ht with hold | hnew
  · obtain ⟨f, hf, heq⟩ := h t hold
    exact ⟨f, List.mem_append_left _ hf, heq⟩
  · exact ⟨_, List.mem_append_right _ List.mem_cons_self, hnew⟩

theorem backed_calls : CallInvariant (fun _ _ => True) Backed where
  quiet h hquiet t ht := by
    rw [hquiet.trades_eq] at ht
    rw [hquiet.history_eq]
    exact h t ht
  matched h _ _ := backed_invariant.matchOrder _ _ h
  rested {b order} h _ _ _ _ t ht := by
    rw [executed_insertRestingOrder]
    refine backed_invariant.matchOrder b (withMarketPrice order) h t ?_
    rwa [OrderBook.insertRestingOrder, (Quiet.maybeEmitBbo _).trades_eq] at ht
  cancelled h _ := h
  inPlace h _ _ := h
  moved _ _ := trivial

/-- No run announces a trade that was not executed. -/
theorem backed_after (symbol : Symbol) (config : OrderBookConfig) (onTrade onExecution onBbo : Bool)
    (clock : Stream' Timestamp) (ops : List Op) :
    Backed (after (new symbol config onTrade onExecution onBbo clock) ops) :=
  backed_calls.run (Run.admitted_trivial _ _) fun t ht => by cases ht

end OrderBook

end Exchange
