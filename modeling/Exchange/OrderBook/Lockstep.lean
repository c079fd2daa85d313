import Exchange.OrderBook.Calls

/-!
# Books that differ in what they tell

Nothing that `OrderBook` decides depends on what it has told its subscribers, when, or whether
trades are batched.  Two books with the same contents and the same rules for orders, fed the same
calls, return the same results and keep the same contents; and a relation between their feeds that
survives the notifications (`FeedSimulation`) holds after every call (**`FeedSimulation.run`**).
-/

namespace Exchange.OrderBook

open MatchState Loop

/-- The options that decide about orders. -/
structure SameRules (config config' : OrderBookConfig) : Prop where
  selfTrade_eq : config'.enableSelfTradePrevention = config.enableSelfTradePrevention
  postOnly_eq : config'.enablePostOnlyRejection = config.enablePostOnlyRejection

/-- A relation between feeds that survives the same notifications on both sides. -/
structure FeedSimulation (config config' : OrderBookConfig) (F : Feed → Feed → Prop) : Prop
    extends SameRules config config' where
  emitTrade : ∀ (f f' : Feed) (symbol : Symbol) (buy sell : Order) (price : Price) (qty : Quantity)
    (aggressor : Side), F f f' → F (f.emitTrade config symbol buy sell price qty aggressor)
      (f'.emitTrade config' symbol buy sell price qty aggressor)
  emitExecutionReport : ∀ (f f' : Feed) (order : Order) (filled : Quantity) (avg : Price), F f f' →
    F (f.emitExecutionReport order filled avg) (f'.emitExecutionReport order filled avg)
  maybeEmitBbo : ∀ (f f' : Feed) (symbol : Symbol) (s : Store), F f f' →
    F (f.maybeEmitBbo symbol s) (f'.maybeEmitBbo symbol s)
  flushTrades : ∀ f f' : Feed, F f f' → F f.flushTrades f'.flushTrades
  /-- the last lines of `add_order` flush where trades are batched -/
  flushBatch : ∀ f f' : Feed, F f f' →
    F (if config.batchCallbacks then f.flushTrades else f)
      (if config'.batchCallbacks then f'.flushTrades else f')

/-- Two books with the same contents and related feeds. -/
structure Alike (config config' : OrderBookConfig) (F : Feed → Feed → Prop) (b b' : OrderBook) :
    Prop where
  config_eq : b.config = config
  config_eq' : b'.config = config'
  symbol_eq : b'.symbol = b.symbol
  store_eq : b'.store = b.store
  feed : F b.feed b'.feed

/-- Two books at the same point of matching the same order. -/
structure AlikeAt (config config' : OrderBookConfig) (F : Feed → Feed → Prop)
    (m m' : MatchState) : Prop where
  book : Alike config config' F m.book m'.book
  order_eq : m'.order = m.order
  stopped_eq : m'.stoppedForSelfTrade = m.stoppedForSelfTrade

variable {config config' : OrderBookConfig} {F : Feed → Feed → Prop} {b b' : OrderBook}
  {m m' : MatchState}

/-! ## Matching -/

namespace AlikeAt

lemma opposite_eq (h : AlikeAt config config' F m m') : m'.opposite = m.opposite := by
  rw [opposite, opposite, h.order_eq]

lemma level?_eq (h : AlikeAt config config' F m m') (p : Price) : m'.level? p = m.level? p := by
  rw [level?, level?, h.opposite_eq, h.book.store_eq]

lemma selfTrade_eq (h : AlikeAt config config' F m m') (hF : FeedSimulation config config' F) :
    m'.book.config.enableSelfTradePrevention = m.book.config.enableSelfTradePrevention := by
  rw [h.book.config_eq, h.book.config_eq', hF.selfTrade_eq]

lemma setStore (h : AlikeAt config config' F m m') (s : Store) :
    AlikeAt config config' F (m.setStore s) (m'.setStore s) :=
  ⟨⟨h.book.config_eq, h.book.config_eq', h.book.symbol_eq, rfl, h.book.feed⟩, h.order_eq,
    h.stopped_eq⟩

lemma refreshBest (h : AlikeAt config config' F m m') :
    AlikeAt config config' F m.refreshBest m'.refreshBest := by
  rw [MatchState.refreshBest, MatchState.refreshBest, h.opposite_eq, h.book.store_eq]
  exact h.setStore _

lemma popGhost (h : AlikeAt config config' F m m') (p : Price) (level : PriceLevel) :
    AlikeAt config config' F (m.popGhost p level) (m'.popGhost p level) := by
  rw [MatchState.popGhost, MatchState.popGhost, h.opposite_eq, h.book.store_eq]
  exact h.setStore _

/-- The same fill, announced on both sides. -/
lemma fillFront (h : AlikeAt config config' F m m') (hF : FeedSimulation config config' F)
    (p : Price) (level : PriceLevel) (id : OrderId) (resting : Order) :
    AlikeAt config config' F (m.fillFront p level id resting)
      (m'.fillFront p level id resting) := by
  have hq : m'.fillQty resting = m.fillQty resting := by rw [fillQty, fillQty, h.order_eq]
  refine ⟨⟨h.book.config_eq, h.book.config_eq', h.book.symbol_eq, ?_, ?_⟩, ?_, h.stopped_eq⟩
  · simp only [MatchState.fillFront, fillStore, hq, h.opposite_eq, h.book.store_eq]
  · simp only [MatchState.fillFront, hq, h.order_eq, h.book.config_eq, h.book.config_eq',
      h.book.symbol_eq]
    cases (m.order.fill (m.fillQty resting)).2.side
    · exact hF.emitTrade _ _ _ _ _ _ _ _ h.book.feed
    · exact hF.emitTrade _ _ _ _ _ _ _ _ h.book.feed
  · simp only [MatchState.fillFront, hq, h.order_eq]

theorem sweepStep (h : AlikeAt config config' F m m') (hF : FeedSimulation config config' F)
    (p : Price) : InStep (AlikeAt config config' F) (m.sweepStep p) (m'.sweepStep p) := by
  rw [MatchState.sweepStep, MatchState.sweepStep, h.level?_eq, h.order_eq, h.book.store_eq,
    h.selfTrade_eq hF]
  cases m.level? p with
  | none => exact .done h
  | some level =>
      dsimp only
      split_ifs
      · exact .done h
      · cases m.book.store.orders[level.frontOrderId]? with
        | none => exact .yield (h.popGhost p level)
        | some resting =>
            dsimp only
            split_ifs
            · exact .done ⟨h.book, rfl, rfl⟩
            · exact .yield (h.fillFront hF p level _ resting)

lemma sweepLevel (h : AlikeAt config config' F m m') (hF : FeedSimulation config config' F)
    (p : Price) : AlikeAt config config' F (m.sweepLevel p) (m'.sweepLevel p) := by
  have hfuel : m'.sweepFuel p = m.sweepFuel p := by
    rw [sweepFuel, sweepFuel, h.level?_eq, h.book.store_eq]
  rw [MatchState.sweepLevel, MatchState.sweepLevel, hfuel]
  exact run_inStep (fun _ _ h => h.sweepStep hF p) _ h

lemma closeLevel (h : AlikeAt config config' F m m') (p : Price) :
    AlikeAt config config' F (m.closeLevel p) (m'.closeLevel p) := by
  rw [MatchState.closeLevel, MatchState.closeLevel, h.level?_eq, h.opposite_eq, h.book.store_eq]
  cases m.level? p with
  | none => exact h
  | some level =>
      dsimp only
      split_ifs
      · exact (h.setStore _).refreshBest
      · exact h

theorem matchStep (h : AlikeAt config config' F m m') (hF : FeedSimulation config config' F) :
    InStep (AlikeAt config config' F) m.matchStep m'.matchStep := by
  rw [MatchState.matchStep, MatchState.matchStep, h.order_eq, h.stopped_eq, h.opposite_eq,
    h.book.store_eq]
  dsimp only
  rw [h.level?_eq]
  split_ifs
  · exact .done h
  · exact .done h
  · exact .done h
  · cases m.level? (m.book.store.best m.opposite) with
    | none => exact .yield h.refreshBest
    | some level =>
        dsimp only
        split_ifs
        · exact .yield h.refreshBest
        · exact .yield ((h.sweepLevel hF _).closeLevel _)

end AlikeAt

namespace Alike

theorem matchOrder (h : Alike config config' F b b') (hF : FeedSimulation config config' F)
    (order : Order) :
    AlikeAt config config' F (b.matchOrder order) (b'.matchOrder order) := by
  have hfuel : b'.matchFuel order = b.matchFuel order := by
    rw [matchFuel, matchFuel, h.store_eq]
  rw [OrderBook.matchOrder, OrderBook.matchOrder, hfuel]
  exact run_inStep (fun _ _ h => h.matchStep hF) _ ⟨h, rfl, rfl⟩

/-! ## Calls -/

lemma withFeed (h : Alike config config' F b b') {f f' : Feed} (hf : F f f') :
    Alike config config' F { b with feed := f } { b' with feed := f' } :=
  ⟨h.config_eq, h.config_eq', h.symbol_eq, h.store_eq, hf⟩

lemma maybeEmitBbo (h : Alike config config' F b b') (hF : FeedSimulation config config' F) :
    Alike config config' F b.maybeEmitBbo b'.maybeEmitBbo := by
  refine ⟨h.config_eq, h.config_eq', h.symbol_eq, h.store_eq, ?_⟩
  simp only [OrderBook.maybeEmitBbo, h.symbol_eq, h.store_eq]
  exact hF.maybeEmitBbo _ _ _ _ h.feed

lemma insertRestingOrder (h : Alike config config' F b b') (hF : FeedSimulation config config' F)
    (order : Order) :
    Alike config config' F (b.insertRestingOrder order) (b'.insertRestingOrder order) := by
  refine maybeEmitBbo ⟨h.config_eq, h.config_eq', h.symbol_eq, ?_, h.feed⟩ hF
  rw [h.store_eq]

lemma finish (h : Alike config config' F b b') (hF : FeedSimulation config config' F)
    (order : Order) :
    (b'.finish order).1 = (b.finish order).1 ∧
      Alike config config' F (b.finish order).2 (b'.finish order).2 := by
  refine ⟨rfl, ?_⟩
  have hreport : Alike config config' F
      (if order.filledQty > 0 then
        b.emitExecutionReport order order.filledQty (avgFillPrice order) else b)
      (if order.filledQty > 0 then
        b'.emitExecutionReport order order.filledQty (avgFillPrice order) else b') := by
    split_ifs
    · exact h.withFeed (hF.emitExecutionReport _ _ _ _ _ h.feed)
    · exact h
  rw [OrderBook.finish, OrderBook.finish]
  dsimp only
  generalize (if order.filledQty > 0 then
    b.emitExecutionReport order order.filledQty (avgFillPrice order) else b) = r at hreport ⊢
  generalize (if order.filledQty > 0 then
    b'.emitExecutionReport order order.filledQty (avgFillPrice order) else b') = r' at hreport ⊢
  have hflush := hF.flushBatch _ _ hreport.feed
  rw [hreport.config_eq, hreport.config_eq']
  split_ifs at hflush ⊢
  all_goals exact hreport.withFeed hflush

lemma settle (h : Alike config config' F b b') (hF : FeedSimulation config config' F)
    (order : Order) :
    (b'.settle order).1 = (b.settle order).1 ∧
      Alike config config' F (b.settle order).2 (b'.settle order).2 := by
  rw [OrderBook.settle, OrderBook.settle]
  dsimp only
  split_ifs
  · exact finish (h.withFeed (hF.emitExecutionReport _ _ _ _ _ h.feed)) hF order
  · exact h.finish hF order
  · exact ⟨rfl, h⟩
  · exact h.finish hF order
  · exact (h.insertRestingOrder hF order).finish hF order
  · exact (h.insertRestingOrder hF order).finish hF order
  · exact h.finish hF order

lemma rejectReason_eq (h : Alike config config' F b b') (hF : FeedSimulation config config' F)
    (order : Order) : b'.rejectReason order = b.rejectReason order := by
  rw [rejectReason, rejectReason]
  rw [h.store_eq, h.config_eq, h.config_eq', hF.postOnly_eq]

theorem addOrder (h : Alike config config' F b b') (hF : FeedSimulation config config' F)
    (order : Order) :
    (b'.addOrder order).1 = (b.addOrder order).1 ∧
      Alike config config' F (b.addOrder order).2 (b'.addOrder order).2 := by
  rw [OrderBook.addOrder, OrderBook.addOrder, h.rejectReason_eq hF]
  cases b.rejectReason order with
  | some reason =>
      refine ⟨rfl, ?_⟩
      dsimp only
      split_ifs
      · exact h.withFeed (hF.emitExecutionReport _ _ _ _ _ h.feed)
      · exact h
  | none =>
      have hm := h.matchOrder hF (withMarketPrice order)
      dsimp only
      rw [hm.order_eq]
      exact hm.book.settle hF _

theorem cancelOrder (h : Alike config config' F b b') (hF : FeedSimulation config config' F)
    (id : OrderId) :
    (b'.cancelOrder id).1 = (b.cancelOrder id).1 ∧
      Alike config config' F (b.cancelOrder id).2 (b'.cancelOrder id).2 := by
  rw [OrderBook.cancelOrder, OrderBook.cancelOrder, h.store_eq]
  cases b.store.orders[id]? with
  | none => exact ⟨rfl, h⟩
  | some order =>
      exact ⟨rfl, maybeEmitBbo ⟨h.config_eq, h.config_eq', h.symbol_eq, rfl, h.feed⟩ hF⟩

theorem replaceOrder (h : Alike config config' F b b') (hF : FeedSimulation config config' F)
    (uninit : OrderResult) (id : OrderId) (newPrice : Price) (newQty : Quantity) :
    (b'.replaceOrder uninit id newPrice newQty).1 = (b.replaceOrder uninit id newPrice newQty).1 ∧
      Alike config config' F (b.replaceOrder uninit id newPrice newQty).2
        (b'.replaceOrder uninit id newPrice newQty).2 := by
  rcases replace_ways b.store id newPrice with
    hmissing | ⟨existing, ho, hmoved⟩ | ⟨existing, level, hin⟩
  · rw [replaceOrder_of_none hmissing, replaceOrder_of_none (by rw [h.store_eq, hmissing])]
    exact ⟨rfl, h⟩
  · have ho' : b'.store.orders[id]? = some existing := by rw [h.store_eq, ho]
    rw [replaceOrder_of_moved ho hmoved,
      replaceOrder_of_moved ho' (by rw [h.store_eq]; exact hmoved)]
    exact (h.cancelOrder hF id).2.addOrder hF _
  · have hin' : InPlace b'.store id newPrice existing level := by rwa [h.store_eq]
    rw [replaceOrder_of_inPlace hin, replaceOrder_of_inPlace hin', h.store_eq]
    exact ⟨rfl, maybeEmitBbo ⟨h.config_eq, h.config_eq', h.symbol_eq, rfl, h.feed⟩ hF⟩

/-- The step lemma. -/
theorem step (h : Alike config config' F b b') (hF : FeedSimulation config config' F) (op : Op) :
    Alike config config' F (apply b op) (apply b' op) ∧ b'.result op = b.result op := by
  cases op with
  | add order => exact ⟨(h.addOrder hF order).2, congrArg some (h.addOrder hF order).1⟩
  | cancel id => exact ⟨(h.cancelOrder hF id).2, congrArg some (h.cancelOrder hF id).1⟩
  | replace uninit id newPrice newQty =>
      have hreplace := h.replaceOrder hF uninit id newPrice newQty
      exact ⟨hreplace.2, congrArg some hreplace.1⟩
  | flush => exact ⟨h.withFeed (hF.flushTrades _ _ h.feed), rfl⟩

end Alike

/-- **The run lemma.**  Books that start out alike return the same results and stay alike. -/
theorem FeedSimulation.run (hF : FeedSimulation config config' F)
    (h : Alike config config' F b b') (ops : List Op) :
    Alike config config' F (after b ops) (after b' ops) ∧
      Run.outputs apply result b' ops = Run.outputs apply result b ops := by
  have hrun := (Run.admitted_trivial b ops).simulates (R := Alike config config' F)
    (fun _ _ op h _ => h.step hF op) h
  rwa [List.map_id'] at hrun

end Exchange.OrderBook
