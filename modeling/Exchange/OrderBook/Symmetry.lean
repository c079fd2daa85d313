import Exchange.OrderBook.Mirror

/-!
# Buy and sell are mirror images

A book fed the mirrored calls does the mirrored thing: related states take the same way through both
loops of `match_order` and through every call (`MirroredAt.matchStep`, `MirroredBook.step`), so runs
end in mirrored books, return the same verdicts and produce mirrored trades
(**`buy_sell_symmetry`**).

Two kinds of order are left out.  A price outside of 0 and `K` has no image with the same standing;
and the check of a fill-or-kill order adds up quantities modulo `2 ^ 32` in the order of the map,
which the mirror reverses.
-/

namespace Exchange

open OrderBook MatchState Loop

/-! ## Results and trades -/

/-- What is compared of a result: the average price is not preserved. -/
def OrderResult.verdict (res : OrderResult) : Bool × RejectReason × Quantity :=
  (res.success, res.rejectReason, res.filledQty)

/-- Buyer and seller exchanged, at the mirrored price. -/
def mirrorTrade (K : Price) (t : Trade) : Trade :=
  { t with
    price := mirrorPrice K t.price
    buyOrderId := t.sellOrderId
    sellOrderId := t.buyOrderId
    aggressorSide := t.aggressorSide.opposite }

/-- Two feeds that tell of mirrored trades, times aside. -/
structure MirroredFeed (K : Price) (f f' : Feed) : Prop where
  onTrade_eq : f'.onTrade = f.onTrade
  onExecution_eq : f'.onExecution = f.onExecution
  nextSeqNum_eq : f'.nextSeqNum = f.nextSeqNum
  pending_eq : f'.pendingTrades.map Trade.untimed
    = f.pendingTrades.map fun t => (mirrorTrade K t).untimed
  delivered_eq : f'.delivered.map Trade.untimed
    = f.delivered.map fun t => (mirrorTrade K t).untimed

namespace MirroredFeed

variable {K : Price} {f f' : Feed}

lemma length_pending (h : MirroredFeed K f f') :
    f'.pendingTrades.length = f.pendingTrades.length := by
  have hlength := congrArg List.length h.pending_eq
  rwa [List.length_map, List.length_map] at hlength

lemma flushTrades (h : MirroredFeed K f f') : MirroredFeed K f.flushTrades f'.flushTrades := by
  have hempty : f'.pendingTrades.isEmpty = f.pendingTrades.isEmpty := by
    rw [Bool.eq_iff_iff, List.isEmpty_iff_length_eq_zero, List.isEmpty_iff_length_eq_zero,
      h.length_pending]
  have hdelivered := h.delivered_eq
  simp only [Feed.delivered] at hdelivered
  rw [Feed.flushTrades, Feed.flushTrades, hempty, h.onTrade_eq]
  split_ifs
  · exact h
  · refine ⟨rfl, h.onExecution_eq, h.nextSeqNum_eq, rfl, ?_⟩
    have hpending : ∀ trades : List Trade,
        (trades.map Event.trade).filterMap Event.trade? = trades := by
      intro trades
      rw [List.filterMap_map]
      exact List.filterMap_some
    simp only [Feed.delivered, List.filterMap_append, hpending, List.map_append, hdelivered,
      h.pending_eq]

lemma emitTrade (h : MirroredFeed K f f') {buy sell buy' sell' : Order} (hbuy : buy'.id = sell.id)
    (hsell : sell'.id = buy.id) (config : OrderBookConfig) (symbol : Symbol) (price : Price)
    (qty : Quantity) (aggressor : Side) :
    MirroredFeed K (f.emitTrade config symbol buy sell price qty aggressor)
      (f'.emitTrade config symbol buy' sell' (mirrorPrice K price) qty aggressor.opposite) := by
  have hdelivered := h.delivered_eq
  simp only [Feed.delivered] at hdelivered
  simp only [Feed.emitTrade, h.onTrade_eq, h.nextSeqNum_eq, hbuy, hsell, List.length_append,
    List.length_singleton, h.length_pending]
  split_ifs
  · exact h
  · refine flushTrades ⟨rfl, h.onExecution_eq, rfl, ?_, h.delivered_eq⟩
    simp only [List.map_append, h.pending_eq]
    rfl
  · refine ⟨rfl, h.onExecution_eq, rfl, ?_, h.delivered_eq⟩
    simp only [List.map_append, h.pending_eq]
    rfl
  · refine ⟨rfl, h.onExecution_eq, rfl, h.pending_eq, ?_⟩
    simp only [Feed.delivered, List.filterMap_append, List.map_append, hdelivered]
    rfl

/-- Quotes have no part in it. -/
lemma maybeEmitBbo (h : MirroredFeed K f f') (symbol symbol' : Symbol) (s s' : Store) :
    MirroredFeed K (f.maybeEmitBbo symbol s) (f'.maybeEmitBbo symbol' s') := by
  have hsame : ∀ (f : Feed) (symbol : Symbol) (s : Store),
      (f.maybeEmitBbo symbol s).onTrade = f.onTrade ∧
      (f.maybeEmitBbo symbol s).onExecution = f.onExecution ∧
      (f.maybeEmitBbo symbol s).nextSeqNum = f.nextSeqNum ∧
      (f.maybeEmitBbo symbol s).pendingTrades = f.pendingTrades ∧
      (f.maybeEmitBbo symbol s).delivered = f.delivered := by
    intro f symbol s
    rw [Feed.maybeEmitBbo]
    split_ifs <;> simp [Feed.delivered, Event.trade?]
  obtain ⟨h1, h2, h3, h4, h5⟩ := hsame f symbol s
  obtain ⟨h1', h2', h3', h4', h5'⟩ := hsame f' symbol' s'
  exact ⟨by rw [h1, h1', h.onTrade_eq], by rw [h2, h2', h.onExecution_eq],
    by rw [h3, h3', h.nextSeqNum_eq], by rw [h4, h4', h.pending_eq],
    by rw [h5, h5', h.delivered_eq]⟩

/-- Of reports only their number matters. -/
lemma emitExecutionReport (h : MirroredFeed K f f') (order order' : Order)
    (filled filled' : Quantity) (avg avg' : Price) :
    MirroredFeed K (f.emitExecutionReport order filled avg)
      (f'.emitExecutionReport order' filled' avg') := by
  have hdelivered := h.delivered_eq
  simp only [Feed.delivered] at hdelivered
  simp only [Feed.emitExecutionReport, h.onExecution_eq, h.nextSeqNum_eq]
  split_ifs
  · exact h
  · refine ⟨h.onTrade_eq, rfl, rfl, h.pending_eq, ?_⟩
    simp only [Feed.delivered, List.filterMap_append, List.map_append, hdelivered]
    rfl

end MirroredFeed

namespace OrderBook

/-! ## The taker -/

/-- The image of an order that is being matched: a market order has a price of its own on each
side. -/
def mirrorTaker (K : Price) (o : Order) : Order := withMarketPrice (mirrorOrder K o)

/-- The price that crosses everything. -/
def marketPrice : Side → Price
  | .Buy => invalidPrice
  | .Sell => 0

def reprice (p : Price) (o : Order) : Order := { o with price := p }

section Taker

variable (K : Price) (o : Order) (q : Quantity)

lemma mirrorTaker_withMarketPrice :
    mirrorTaker K (withMarketPrice o) = withMarketPrice (mirrorOrder K o) := by
  rw [mirrorTaker, withMarketPrice, withMarketPrice, withMarketPrice]
  by_cases hmarket : o.type = .Market <;> simp [mirrorOrder, hmarket]

lemma mirrorTaker_eq {o : Order} (h : o.type ≠ .Market) : mirrorTaker K o = mirrorOrder K o := by
  rw [mirrorTaker, withMarketPrice, if_neg]
  exact h

@[simp] lemma mirrorTaker_id : (mirrorTaker K o).id = o.id := withMarketPrice_id _

@[simp] lemma mirrorTaker_side : (mirrorTaker K o).side = o.side.opposite := withMarketPrice_side _

@[simp] lemma mirrorTaker_type : (mirrorTaker K o).type = o.type := withMarketPrice_type _

@[simp] lemma mirrorTaker_tif : (mirrorTaker K o).tif = o.tif := withMarketPrice_tif _

@[simp] lemma mirrorTaker_quantity : (mirrorTaker K o).quantity = o.quantity :=
  withMarketPrice_quantity _

@[simp] lemma mirrorTaker_filledQty : (mirrorTaker K o).filledQty = o.filledQty :=
  withMarketPrice_filledQty _

@[simp] lemma mirrorTaker_remaining : (mirrorTaker K o).remaining = o.remaining := by
  rw [Order.remaining, Order.remaining, mirrorTaker_quantity, mirrorTaker_filledQty]

@[simp] lemma mirrorTaker_isFilled : (mirrorTaker K o).isFilled = o.isFilled := by
  rw [Order.isFilled, Order.isFilled, mirrorTaker_quantity, mirrorTaker_filledQty]

/-- The price has no part in a fill. -/
lemma fill_reprice (p : Price) : ((reprice p o).fill q).2 = reprice p (o.fill q).2 := by
  rw [Order.fill, Order.fill]
  dsimp only
  rw [apply_ite (reprice p), apply_ite (reprice p)]
  rfl

lemma withMarketPrice_eq :
    withMarketPrice o = if o.type = .Market then reprice (marketPrice o.side) o else o :=
  rfl

lemma fill_withMarketPrice : ((withMarketPrice o).fill q).2 = withMarketPrice (o.fill q).2 := by
  rw [withMarketPrice_eq, withMarketPrice_eq, Order.fill_type, Order.fill_side]
  by_cases hmarket : o.type = .Market
  · rw [if_pos hmarket, if_pos hmarket, fill_reprice]
  · rw [if_neg hmarket, if_neg hmarket]

lemma fill_mirrorTaker : ((mirrorTaker K o).fill q).2 = mirrorTaker K (o.fill q).2 := by
  rw [mirrorTaker, fill_withMarketPrice, fill_mirrorOrder, mirrorTaker]

/-- It crosses the mirrored prices. -/
lemma wouldCross_mirrorTaker {o : Order} {p : Price}
    (ho : o.type ≠ .Market → Between K o.price) (hp : Between K p) :
    (o.type == .Market || (mirrorTaker K o).wouldCross (mirrorPrice K p))
      = (o.type == .Market || o.wouldCross p) := by
  by_cases hmarket : o.type = .Market
  · simp [hmarket]
  · rw [mirrorTaker_eq K hmarket, Order.wouldCross, Order.wouldCross]
    cases hside : o.side <;>
      simp [mirrorOrder, hside, Side.opposite, (ho hmarket).mirrorPrice_le_iff hp,
        hp.mirrorPrice_le_iff (ho hmarket)]

end Taker

/-! ## Matching -/

/-- A book and its mirror image. -/
structure MirroredBook (K : Price) (b b' : OrderBook) : Prop where
  config_eq : b'.config = b.config
  symbol_eq : b'.symbol = b.symbol
  store : Mirrored K b.store b'.store
  feed : MirroredFeed K b.feed b'.feed

/-- Two books at the same point of matching an order and its image. -/
structure MirroredAt (K : Price) (m m' : MatchState) : Prop where
  book : MirroredBook K m.book m'.book
  order_eq : m'.order = mirrorTaker K m.order
  between : m.order.type ≠ .Market → Between K m.order.price
  stopped_eq : m'.stoppedForSelfTrade = m.stoppedForSelfTrade

variable {K : Price} {m m' : MatchState} {b b' : OrderBook}

namespace MirroredAt

lemma opposite_eq (h : MirroredAt K m m') : m'.opposite = m.opposite.opposite := by
  rw [opposite, opposite, h.order_eq, mirrorTaker_side]

lemma level?_eq (h : MirroredAt K m m') (p : Price) :
    m'.level? (mirrorPrice K p) = (m.level? p).map (mirrorLevel K) := by
  rw [level?, level?, h.opposite_eq, h.book.store.level]

lemma between_of_level? (h : MirroredAt K m m') {p : Price} {level : PriceLevel}
    (hl : m.level? p = some level) : Between K p :=
  h.book.store.levels_between m.opposite p (KeyList.mem_iff_exists_getElem?.mpr ⟨level, hl⟩)

lemma setStore (h : MirroredAt K m m') {s s' : Store} (hs : Mirrored K s s') :
    MirroredAt K (m.setStore s) (m'.setStore s') :=
  ⟨⟨h.book.config_eq, h.book.symbol_eq, hs, h.book.feed⟩, h.order_eq, h.between, h.stopped_eq⟩

lemma refreshBest (h : MirroredAt K m m') : MirroredAt K m.refreshBest m'.refreshBest := by
  rw [MatchState.refreshBest, MatchState.refreshBest, h.opposite_eq]
  exact h.setStore (h.book.store.updateBest _)

lemma popGhost (h : MirroredAt K m m') {p : Price} (hp : Between K p) (level : PriceLevel) :
    MirroredAt K (m.popGhost p level) (m'.popGhost (mirrorPrice K p) (mirrorLevel K level)) := by
  rw [MatchState.popGhost, MatchState.popGhost, h.opposite_eq, ← mirrorLevel_popFront]
  exact h.setStore (h.book.store.setLevel _ hp _)

lemma fillQty_eq (h : MirroredAt K m m') (resting : Order) :
    m'.fillQty (mirrorOrder K resting) = m.fillQty resting := by
  rw [fillQty, fillQty, h.order_eq, mirrorTaker_remaining, remaining_mirrorOrder]

lemma fillStore (h : MirroredAt K m m') {p : Price} (hp : Between K p) (level : PriceLevel)
    (id : OrderId) {resting : Order} (hresting : Mirrorable K resting) :
    Mirrored K (m.fillStore p level id resting)
      (m'.fillStore (mirrorPrice K p) (mirrorLevel K level) id (mirrorOrder K resting)) := by
  have hwritten := (h.book.store.setOrder id (hresting.fill (m.fillQty resting))).setLevel
    m.opposite hp (level.fillFront (m.fillQty resting))
  rw [← h.opposite_eq, mirrorLevel_fillFront] at hwritten
  simp only [MatchState.fillStore, h.fillQty_eq, fill_mirrorOrder, isFilled_mirrorOrder]
  split_ifs
  · exact hwritten.eraseOrder id
  · exact hwritten

/-- Of two mirrored fills one is announced by the buyer, the other by the seller. -/
lemma fillFront (h : MirroredAt K m m') {p : Price} (hp : Between K p) (level : PriceLevel)
    (id : OrderId) {resting : Order} (hresting : Mirrorable K resting) :
    MirroredAt K (m.fillFront p level id resting)
      (m'.fillFront (mirrorPrice K p) (mirrorLevel K level) id (mirrorOrder K resting)) := by
  have hfilled : (m'.order.fill (m.fillQty resting)).2
      = mirrorTaker K (m.order.fill (m.fillQty resting)).2 := by
    rw [h.order_eq, fill_mirrorTaker]
  refine ⟨⟨h.book.config_eq, h.book.symbol_eq, h.fillStore hp level id hresting, ?_⟩, ?_, ?_,
    h.stopped_eq⟩
  · simp only [MatchState.fillFront, h.fillQty_eq, hfilled, fill_mirrorOrder, mirrorTaker_side,
      h.book.config_eq, h.book.symbol_eq]
    cases (m.order.fill (m.fillQty resting)).2.side
    · exact h.book.feed.emitTrade rfl (mirrorTaker_id _ _) _ _ _ _ .Buy
    · exact h.book.feed.emitTrade (mirrorTaker_id _ _) rfl _ _ _ _ .Sell
  · simp only [MatchState.fillFront, h.fillQty_eq, hfilled]
  · rw [order_fillFront, Order.fill_type, Order.fill_price]
    exact h.between

theorem sweepStep (h : MirroredAt K m m') (p : Price) :
    InStep (MirroredAt K) (m.sweepStep p) (m'.sweepStep (mirrorPrice K p)) := by
  rw [MatchState.sweepStep, MatchState.sweepStep, h.level?_eq, h.order_eq, h.book.config_eq,
    mirrorTaker_isFilled, mirrorTaker_id]
  cases hl : m.level? p with
  | none => exact .done h
  | some level =>
      have hp := h.between_of_level? hl
      rw [Option.map_some]
      dsimp only
      rw [empty_mirrorLevel, frontOrderId_mirrorLevel, h.book.store.order]
      split_ifs
      · exact .done h
      · cases ho : m.book.store.orders[level.frontOrderId]? with
        | none => exact .yield (h.popGhost hp level)
        | some resting =>
            rw [Option.map_some]
            have hid : (mirrorOrder K resting).id = resting.id := rfl
            dsimp only
            rw [hid]
            split_ifs
            · exact .done ⟨h.book, rfl, h.between, rfl⟩
            · exact .yield (h.fillFront hp level _ (h.book.store.mirrorable _ _ ho))

lemma sweepLevel (h : MirroredAt K m m') (p : Price) :
    MirroredAt K (m.sweepLevel p) (m'.sweepLevel (mirrorPrice K p)) := by
  have hfuel : m'.sweepFuel (mirrorPrice K p) = m.sweepFuel p := by
    rw [sweepFuel, sweepFuel, h.level?_eq, h.book.store.size_orders_eq]
    cases m.level? p <;> rfl
  rw [MatchState.sweepLevel, MatchState.sweepLevel, hfuel]
  exact run_inStep (fun _ _ h => h.sweepStep p) _ h

lemma closeLevel (h : MirroredAt K m m') (p : Price) :
    MirroredAt K (m.closeLevel p) (m'.closeLevel (mirrorPrice K p)) := by
  rw [MatchState.closeLevel, MatchState.closeLevel, h.level?_eq, h.opposite_eq]
  cases m.level? p with
  | none => exact h
  | some level =>
      rw [Option.map_some]
      dsimp only
      rw [empty_mirrorLevel]
      split_ifs
      · exact (h.setStore (h.book.store.eraseLevel _ _)).refreshBest
      · exact h

theorem matchStep (h : MirroredAt K m m') : InStep (MirroredAt K) m.matchStep m'.matchStep := by
  have hbest := h.book.store.best m.opposite
  rw [MatchState.matchStep, MatchState.matchStep, h.order_eq, h.stopped_eq, h.opposite_eq, hbest,
    mirrorTaker_isFilled, mirrorTaker_type]
  by_cases hover : (m.order.isFilled || m.stoppedForSelfTrade) = true
  · rw [if_pos hover, if_pos hover]
    exact .done h
  rw [if_neg hover, if_neg hover]
  dsimp only
  rcases h.book.store.best_between m.opposite with hinvalid | hp
  · rw [hinvalid, mirrorBest_invalid]
    exact .done h
  · have hsentinel : ∀ p : Price, Between K p → (p == invalidPrice || p == 0) = false := by
      intro p hp
      simp [hp.validPrice.ne_invalid, hp.validPrice.ne_zero]
    rw [hp.mirrorBest_eq, hsentinel _ hp, hsentinel _ hp.mirrorPrice,
      wouldCross_mirrorTaker K h.between hp, h.level?_eq, if_neg Bool.false_ne_true,
      if_neg Bool.false_ne_true]
    split_ifs
    · exact .done h
    · cases m.level? (m.book.store.best m.opposite) with
      | none => exact .yield h.refreshBest
      | some level =>
          rw [Option.map_some]
          dsimp only
          rw [empty_mirrorLevel]
          split_ifs
          · exact .yield h.refreshBest
          · exact .yield ((h.sweepLevel _).closeLevel _)

end MirroredAt

/-! ## Calls -/

/-- The post-only checks agree. -/
lemma postOnlyWouldCross_mirrorOrder {s s' : Store} (h : Mirrored K s s') {o : Order}
    (ho : Between K o.price) :
    postOnlyWouldCross s' (mirrorOrder K o) = postOnlyWouldCross s o := by
  have hbest := h.best o.side.opposite
  have hbetween := h.best_between o.side.opposite
  rw [Side.opposite_opposite] at hbest
  cases hside : o.side with
  | Buy =>
      simp only [hside, Side.opposite, Store.best] at hbest hbetween
      simp only [postOnlyWouldCross, mirrorOrder, hside, Side.opposite, hbest]
      rcases hbetween with hinvalid | hp
      · simp [hinvalid]
      · simp [hp.mirrorBest_eq, hp.mirrorPrice.validPrice.ne_invalid, hp.validPrice.ne_invalid,
          hp.mirrorPrice_le_iff ho]
  | Sell =>
      simp only [hside, Side.opposite, Store.best] at hbest hbetween
      simp only [postOnlyWouldCross, mirrorOrder, hside, Side.opposite, hbest]
      rcases hbetween with hinvalid | hp
      · simp [hinvalid]
      · simp [hp.mirrorBest_eq, hp.mirrorPrice.validPrice.ne_invalid, hp.validPrice.ne_invalid,
          ho.mirrorPrice_le_iff hp]

namespace MirroredBook

theorem matchOrder (h : MirroredBook K b b') {order : Order}
    (hprice : order.type ≠ .Market → Between K order.price) :
    MirroredAt K (b.matchOrder order) (b'.matchOrder (mirrorTaker K order)) := by
  have hfuel : b'.matchFuel (mirrorTaker K order) = b.matchFuel order := by
    rw [matchFuel, matchFuel, mirrorTaker_side, h.store.size_levels_eq]
  rw [OrderBook.matchOrder, OrderBook.matchOrder, hfuel]
  exact run_inStep (fun _ _ h => h.matchStep) _ ⟨h, rfl, hprice, rfl⟩

lemma withFeed (h : MirroredBook K b b') {f f' : Feed} (hf : MirroredFeed K f f') :
    MirroredBook K { b with feed := f } { b' with feed := f' } :=
  ⟨h.config_eq, h.symbol_eq, h.store, hf⟩

lemma maybeEmitBbo (h : MirroredBook K b b') : MirroredBook K b.maybeEmitBbo b'.maybeEmitBbo :=
  h.withFeed (h.feed.maybeEmitBbo _ _ _ _)

lemma emitExecutionReport (h : MirroredBook K b b') (order order' : Order)
    (filled filled' : Quantity) (avg avg' : Price) :
    MirroredBook K (b.emitExecutionReport order filled avg)
      (b'.emitExecutionReport order' filled' avg') :=
  h.withFeed (h.feed.emitExecutionReport _ _ _ _ _ _)

lemma insertRestingOrder (h : MirroredBook K b b') {order : Order} (ho : Mirrorable K order) :
    MirroredBook K (b.insertRestingOrder order)
      (b'.insertRestingOrder (mirrorOrder K order)) :=
  maybeEmitBbo ⟨h.config_eq, h.symbol_eq, h.store.insertRestingOrder ho, h.feed⟩

lemma finish (h : MirroredBook K b b') (order : Order) :
    (b'.finish (mirrorTaker K order)).1.verdict = (b.finish order).1.verdict ∧
      MirroredBook K (b.finish order).2 (b'.finish (mirrorTaker K order)).2 := by
  refine ⟨by simp [OrderBook.finish, OrderResult.verdict], ?_⟩
  have hreport : MirroredBook K
      (if order.filledQty > 0 then
        b.emitExecutionReport order order.filledQty (avgFillPrice order) else b)
      (if order.filledQty > 0 then
        b'.emitExecutionReport (mirrorTaker K order) order.filledQty
          (avgFillPrice (mirrorTaker K order)) else b') := by
    split_ifs
    · exact h.emitExecutionReport _ _ _ _ _ _
    · exact h
  rw [OrderBook.finish, OrderBook.finish]
  dsimp only
  rw [mirrorTaker_filledQty, hreport.config_eq]
  split_ifs at hreport ⊢
  all_goals first
    | exact hreport.withFeed hreport.feed.flushTrades
    | exact hreport

lemma settle (h : MirroredBook K b b') {order : Order}
    (hprice : order.type ≠ .Market → Between K order.price) :
    (b'.settle (mirrorTaker K order)).1.verdict = (b.settle order).1.verdict ∧
      MirroredBook K (b.settle order).2 (b'.settle (mirrorTaker K order)).2 := by
  have hfok : isFillOrKill (mirrorTaker K order) = isFillOrKill order := by simp [isFillOrKill]
  rw [OrderBook.settle, OrderBook.settle]
  simp only [mirrorTaker_tif, mirrorTaker_type, mirrorTaker_isFilled, hfok]
  split_ifs with hioc hopen hkill hopen hlimit hpost
  · exact (h.emitExecutionReport _ _ _ _ _ _).finish order
  · exact h.finish order
  · exact ⟨rfl, h⟩
  · exact h.finish order
  · have ho : Mirrorable K order :=
      ⟨by rw [hlimit.2]; decide, Bool.eq_false_iff.mpr hkill, hprice (by rw [hlimit.2]; decide)⟩
    have hrest := h.insertRestingOrder ho
    rw [← mirrorTaker_eq K ho.type_ne] at hrest
    exact hrest.finish order
  · have ho : Mirrorable K order :=
      ⟨by rw [hpost.2]; decide, Bool.eq_false_iff.mpr hkill, hprice (by rw [hpost.2]; decide)⟩
    have hrest := h.insertRestingOrder ho
    rw [← mirrorTaker_eq K ho.type_ne] at hrest
    exact hrest.finish order
  · exact h.finish order

/-- The two prices of a limit order are both positive, and no quantity has to be added up. -/
lemma rejectReason_eq (h : MirroredBook K b b') {order : Order} (hfok : isFillOrKill order = false)
    (hprice : order.type ≠ .Market → Between K order.price) :
    b'.rejectReason (mirrorOrder K order) = b.rejectReason order := by
  have hlimit : ¬ (order.type = .Limit ∧ order.price ≤ 0) := by
    rintro ⟨htype, hle⟩
    exact Int64.not_le.mpr (hprice (by rw [htype]; decide)).1 hle
  have hlimit' : ¬ ((mirrorOrder K order).type = .Limit ∧ (mirrorOrder K order).price ≤ 0) := by
    rintro ⟨htype, hle⟩
    rw [mirrorOrder_type] at htype
    exact Int64.not_le.mpr (hprice (by rw [htype]; decide)).mirrorPrice.1 hle
  have hfok' : isFillOrKill (mirrorOrder K order) = false := hfok
  have hnew : b'.store.orders.contains order.id = b.store.orders.contains order.id := by
    rw [Std.ExtTreeMap.contains_eq_isSome_getElem?, Std.ExtTreeMap.contains_eq_isSome_getElem?,
      h.store.order, Option.isSome_map]
  have hcross : order.type = .PostOnly →
      postOnlyWouldCross b'.store (withMarketPrice (mirrorOrder K order))
        = postOnlyWouldCross b.store (withMarketPrice order) := by
    intro htype
    have hne : order.type ≠ .Market := by rw [htype]; decide
    rw [← mirrorTaker, mirrorTaker_eq K hne, withMarketPrice, if_neg hne]
    exact postOnlyWouldCross_mirrorOrder h.store (hprice hne)
  rw [rejectReason, rejectReason, if_neg hlimit, if_neg hlimit']
  simp only [withMarketPrice_id, withMarketPrice_type, isFillOrKill_withMarketPrice, hfok, hfok',
    mirrorOrder_id, mirrorOrder_quantity, mirrorOrder_type, h.config_eq, hnew, Bool.false_eq_true,
    false_and, if_false]
  by_cases htype : order.type = .PostOnly
  · simp only [hcross htype]
  · simp only [htype, false_and, if_false]

theorem addOrder (h : MirroredBook K b b') {order : Order} (hfok : isFillOrKill order = false)
    (hprice : order.type ≠ .Market → Between K order.price) :
    (b'.addOrder (mirrorOrder K order)).1.verdict = (b.addOrder order).1.verdict ∧
      MirroredBook K (b.addOrder order).2 (b'.addOrder (mirrorOrder K order)).2 := by
  rw [OrderBook.addOrder, OrderBook.addOrder, h.rejectReason_eq hfok hprice]
  cases b.rejectReason order with
  | some reason =>
      refine ⟨rfl, ?_⟩
      dsimp only
      split_ifs
      · exact h.emitExecutionReport _ _ _ _ _ _
      · exact h
  | none =>
      have hprice' : (withMarketPrice order).type ≠ .Market →
          Between K (withMarketPrice order).price := by
        intro hne
        rw [withMarketPrice_type] at hne
        rw [withMarketPrice_price hne]
        exact hprice hne
      have hm := h.matchOrder hprice'
      rw [mirrorTaker_withMarketPrice] at hm
      dsimp only
      rw [hm.order_eq]
      exact hm.book.settle hm.between

theorem cancelOrder (h : MirroredBook K b b') (id : OrderId) :
    (b'.cancelOrder id).1.verdict = (b.cancelOrder id).1.verdict ∧
      MirroredBook K (b.cancelOrder id).2 (b'.cancelOrder id).2 := by
  rw [OrderBook.cancelOrder, OrderBook.cancelOrder, h.store.order]
  cases b.store.orders[id]? with
  | none => exact ⟨rfl, h⟩
  | some order =>
      exact ⟨rfl, maybeEmitBbo ⟨h.config_eq, h.symbol_eq, h.store.cancelOrder id order, h.feed⟩⟩

theorem replaceOrder (h : MirroredBook K b b') (uninit : OrderResult) (id : OrderId)
    {newPrice : Price} (hprice : Between K newPrice) (newQty : Quantity) :
    (b'.replaceOrder uninit id (mirrorPrice K newPrice) newQty).1.verdict
        = (b.replaceOrder uninit id newPrice newQty).1.verdict ∧
      MirroredBook K (b.replaceOrder uninit id newPrice newQty).2
        (b'.replaceOrder uninit id (mirrorPrice K newPrice) newQty).2 := by
  have hlevel' : ∀ existing : Order, _ := fun existing =>
    h.store.level existing.side existing.price
  rcases replace_ways b.store id newPrice with
    hmissing | ⟨existing, ho, hmoved⟩ | ⟨existing, level, hin⟩
  · rw [replaceOrder_of_none hmissing,
      replaceOrder_of_none (by rw [h.store.order, hmissing, Option.map_none])]
    exact ⟨rfl, h⟩
  · have ho' : b'.store.orders[id]? = some (mirrorOrder K existing) := by
      rw [h.store.order, ho, Option.map_some]
    have hmoved' : (mirrorOrder K existing).price = mirrorPrice K newPrice →
        (b'.store.levels (mirrorOrder K existing).side)[(mirrorOrder K existing).price]?
          = none := by
      intro heq
      exact (hlevel' existing).trans (by rw [hmoved (mirrorPrice_inj.mp heq), Option.map_none])
    rw [replaceOrder_of_moved ho hmoved, replaceOrder_of_moved ho' hmoved']
    have hfok : isFillOrKill (replacement existing id newPrice newQty) = false :=
      (h.store.mirrorable id existing ho).not_fillOrKill
    exact (h.cancelOrder id).2.addOrder hfok fun _ => hprice
  · have hmirrorable := h.store.mirrorable id existing hin.order_eq
    have hin' : InPlace b'.store id (mirrorPrice K newPrice) (mirrorOrder K existing)
        (mirrorLevel K level) :=
      ⟨by rw [h.store.order, hin.order_eq, Option.map_some], mirrorPrice_inj.mpr hin.price_eq,
        (hlevel' existing).trans (by rw [hin.level_eq, Option.map_some])⟩
    rw [replaceOrder_of_inPlace hin, replaceOrder_of_inPlace hin']
    exact ⟨rfl, maybeEmitBbo
      ⟨h.config_eq, h.symbol_eq, h.store.amend id hmirrorable level newQty, h.feed⟩⟩

end MirroredBook

/-! ## Runs -/

/-- The image of a call. -/
def mirrorOp (K : Price) : Op → Op
  | .add order => .add (mirrorOrder K order)
  | .cancel orderId => .cancel orderId
  | .replace uninit orderId newPrice newQty =>
      .replace uninit orderId (mirrorPrice K newPrice) newQty
  | .flush => .flush

/-- The calls that are mirrored: no fill-or-kill order, and prices between 0 and `K`. -/
def HasImage (K : Price) : Op → Prop
  | .add order => isFillOrKill order = false ∧ (order.type ≠ .Market → Between K order.price)
  | .cancel _ => True
  | .replace _ _ newPrice _ => Between K newPrice
  | .flush => True

instance (K : Price) : (op : Op) → Decidable (HasImage K op)
  | .add _ => inferInstanceAs (Decidable (_ ∧ _))
  | .cancel _ => inferInstanceAs (Decidable True)
  | .replace _ _ newPrice _ => inferInstanceAs (Decidable (Between K newPrice))
  | .flush => inferInstanceAs (Decidable True)

/-- What is compared of a call's result. -/
def verdict (b : OrderBook) (op : Op) : Option (Bool × RejectReason × Quantity) :=
  (b.result op).map OrderResult.verdict

/-- The step lemma. -/
theorem MirroredBook.step (h : MirroredBook K b b') (op : Op) (hop : HasImage K op) :
    MirroredBook K (apply b op) (apply b' (mirrorOp K op)) ∧
      b'.verdict (mirrorOp K op) = b.verdict op := by
  cases op with
  | add order =>
      have hadd := h.addOrder hop.1 hop.2
      exact ⟨hadd.2, congrArg some hadd.1⟩
  | cancel id =>
      have hcancel := h.cancelOrder id
      exact ⟨hcancel.2, congrArg some hcancel.1⟩
  | replace uninit id newPrice newQty =>
      have hreplace := h.replaceOrder uninit id hop newQty
      exact ⟨hreplace.2, congrArg some hreplace.1⟩
  | flush => exact ⟨h.withFeed h.feed.flushTrades, rfl⟩

/-- **Buy and sell are mirror images.**  The mirrored run gives the same verdicts, produces the
mirrored trades and ends in the mirror image of the book.  `INVALID_PRICE` is the greatest price, so
`K` may be any. -/
theorem buy_sell_symmetry (K : Price) (symbol : Symbol) (config : OrderBookConfig)
    (onTrade onExecution onBbo : Bool) (clock clock' : Stream' Timestamp) (ops : List Op)
    (h : ∀ op ∈ ops, HasImage K op) :
    let b := new symbol config onTrade onExecution onBbo clock
    let b' := new symbol config onTrade onExecution onBbo clock'
    Run.outputs apply verdict b' (ops.map (mirrorOp K)) = Run.outputs apply verdict b ops ∧
      MirrorImage K (after b ops).store (after b' (ops.map (mirrorOp K))).store ∧
      (after b' (ops.map (mirrorOp K))).feed.delivered.map Trade.untimed
        = (after b ops).feed.delivered.map (fun t => (mirrorTrade K t).untimed) ∧
      (after b' (ops.map (mirrorOp K))).feed.pendingTrades.map Trade.untimed
        = (after b ops).feed.pendingTrades.map (fun t => (mirrorTrade K t).untimed) := by
  intro b b'
  have hstart : MirroredBook K b b' := ⟨rfl, rfl, Mirrored.empty K, rfl, rfl, rfl, rfl, rfl⟩
  have hrun : Run.Admitted apply (fun _ => HasImage K) b ops := Run.admitted_of_forall b h
  have hmirrored : MirroredBook K (after b ops) (after b' (ops.map (mirrorOp K))) ∧
      Run.outputs apply verdict b' (ops.map (mirrorOp K)) = Run.outputs apply verdict b ops :=
    hrun.simulates (fun _ _ op h hop => h.step op hop) hstart
  obtain ⟨hend, hverdicts⟩ := hmirrored
  exact ⟨hverdicts, hend.store.toMirrorImage, hend.feed.delivered_eq, hend.feed.pending_eq⟩

/-- A sell is bid for, replaced and cancelled, or the other way round. -/
theorem buy_sell_symmetry_sample :
    let ops := [.add (limitOrder 1 .Sell 110 10), .add (limitOrder 2 .Buy 120 4),
      .replace {} 1 130 6, .add { limitOrder 3 .Buy 0 2 with type := .Market }, .cancel 1]
    let b := makeBook {}
    Run.outputs apply verdict b (ops.map (mirrorOp 200)) = Run.outputs apply verdict b ops ∧
      MirrorImage 200 (after b ops).store (after b (ops.map (mirrorOp 200))).store ∧
      (after b (ops.map (mirrorOp 200))).feed.delivered.map Trade.untimed
        = (after b ops).feed.delivered.map (fun t => (mirrorTrade 200 t).untimed) ∧
      (after b (ops.map (mirrorOp 200))).feed.pendingTrades.map Trade.untimed
        = (after b ops).feed.pendingTrades.map (fun t => (mirrorTrade 200 t).untimed) :=
  buy_sell_symmetry 200 _ _ _ _ _ _ _ _ (by decide +kernel)

end OrderBook

end Exchange
