import Exchange.Core.Mean
import Exchange.OrderBook.TakerReports

/-!
# The average price that `add_order` tells

`avg_fill_price` is `(order.price * order.filled_qty) / order.filled_qty`: no price of a fill enters
it, and what it amounts to is the price of the order.

* `quotes` — the makers in line with the prices they are met at;
* **`matchOrder_quotes`** — the fills are drawn from them at those prices;
* **`average_iff`** — the average is told just if the product fits, something is traded, and the
  prices drawn on exceed that of the order by less than a tick for each share, away from zero.
-/

namespace Exchange.OrderBook

open MatchState

/-! ## The prices of the fills -/

/-- The makers in line, as `lineUp` has them, each with the price it is met at. -/
def quotes (config : OrderBookConfig) (taker : Order) (orders : Orders) :
    List (Price × OrderNode) → List (Price × Order)
  | [] => []
  | (p, n) :: queue =>
      if !reaches taker p then []
      else
        match orders[n.orderId]? with
        | none => quotes config taker orders queue
        | some maker =>
            if isOwn config taker maker then []
            else (p, maker) :: quotes config taker (orders.erase n.orderId) queue

/-- What is drawn from quotes until the order has what it wants. -/
def purchased (want : Nat) (l : List (Price × Order)) : List ((Price × Order) × Nat) :=
  Draw.drawn (fun _ => false) (fun x => offer x.2) want l

variable {config : OrderBookConfig} {taker maker : Order} {orders : Orders} {p : Price}
  {n : OrderNode} {queue : List (Price × OrderNode)} {b : OrderBook}

lemma quotes_fill (config : OrderBookConfig) (taker : Order) (q : Quantity) (orders : Orders)
    (queue : List (Price × OrderNode)) :
    quotes config (taker.fill q).2 orders queue = quotes config taker orders queue := by
  induction queue generalizing orders with
  | nil => rfl
  | cons x queue ih => simp only [quotes, reaches_fill, isOwn_fill, ih]

lemma quotes_of_gone (h : reaches taker p = true) (gone : orders[n.orderId]? = none) :
    quotes config taker orders ((p, n) :: queue) = quotes config taker orders queue := by
  simp [quotes, h, gone]

lemma quotes_of_found (h : reaches taker p = true) (found : orders[n.orderId]? = some maker)
    (hown : isOwn config taker maker = false) :
    quotes config taker orders ((p, n) :: queue)
      = (p, maker) :: quotes config taker (orders.erase n.orderId) queue := by
  simp [quotes, h, found, hown]

/-- A fill draws on the first quote, and leaves the others. -/
lemma purchased_fill (hopen : taker.isFilled = false) (h : reaches taker p = true)
    (found : orders[n.orderId]? = some maker) (hown : isOwn config taker maker = false) :
    let q := fillQuantity taker maker
    purchased taker.leaves (quotes config taker orders ((p, n) :: queue))
      = ((p, maker), q.toNat) :: purchased (taker.fill q).2.leaves
          (quotes config (taker.fill q).2 (writeBack orders n.orderId (maker.fill q).2)
            (if q ≥ n.quantity then queue
              else (p, { n with quantity := n.quantity - q }) :: queue)) := by
  intro q
  obtain ⟨hq, hleaves⟩ := leaves_fill_fillQuantity hopen maker
  have hwant : taker.leaves ≠ 0 := Nat.pos_iff_ne_zero.mp (Order.leaves_pos hopen)
  have hfirst : purchased taker.leaves (quotes config taker orders ((p, n) :: queue))
      = ((p, maker), q.toNat) :: purchased (taker.fill q).2.leaves
          (quotes config taker (orders.erase n.orderId) queue) := by
    rw [quotes_of_found h found hown, purchased, Draw.drawn, if_neg (by simp [hwant]), hq, hleaves]
    rfl
  rw [hfirst, quotes_fill]
  by_cases hdone : (taker.fill q).2.isFilled = true
  · rw [Order.leaves_eq_zero_iff.mpr hdone, purchased, purchased, Draw.drawn_zero, Draw.drawn_zero]
  · have hopen' : (taker.fill q).2.isFilled = false := by simpa using hdone
    rw [writeBack_of_isFilled _ _ (maker_isFilled hopen')]
    split_ifs with hall
    · rfl
    · -- the node outlives its order
      rw [quotes_of_gone (n := { n with quantity := n.quantity - q }) h (by simp)]

/-- What is still to be drawn. -/
def MatchState.toDraw (m : MatchState) : List ((Price × Order) × Nat) :=
  purchased m.order.leaves
    (quotes m.book.config m.order m.book.store.orders (m.book.store.queue m.opposite))

/-- A fill as a draw on a quote. -/
def priced (f : Fill) : (Price × Order) × Nat := ((f.price, f.maker), f.quantity.toNat)

/-- What has been filled so far, followed by what is still to be drawn, is all that is drawn. -/
def Pricing (b : OrderBook) (taker : Order) (m : MatchState) : Prop :=
  ∃ fills, m.book.history.executed = b.history.executed ++ fills ∧
    MatchState.toDraw { book := b, order := taker } = fills.map priced ++ m.toDraw

lemma Pricing.congr {m m' : MatchState} (h : Pricing b taker m) (hdraw : m'.toDraw = m.toDraw)
    (hexecuted : m'.book.history.executed = m.book.history.executed) : Pricing b taker m' := by
  rw [Pricing, hexecuted, hdraw]
  exact h

lemma toDraw_popGhost {m : MatchState} {level : PriceLevel} {rest : List OrderNode}
    (hfront : AtFront p m level n rest) (hbest : m.book.store.best m.opposite = p)
    (hreach : reaches m.order p = true) (gone : m.book.store.orders[n.orderId]? = none) :
    (m.popGhost p level).toDraw = m.toDraw := by
  have horders : (m.popGhost p level).book.store.orders = m.book.store.orders := by simp
  rw [toDraw, toDraw, opposite_popGhost, queue_popGhost hfront hbest, horders,
    queue_front hfront hbest, quotes_of_gone hreach gone]
  rfl

lemma toDraw_fillFront {m : MatchState} {level : PriceLevel} {rest : List OrderNode}
    (hfill : AtFill p m level n rest maker) (hbest : m.book.store.best m.opposite = p)
    (hreach : reaches m.order p = true) :
    m.toDraw = ((p, maker), (m.fillQty maker).toNat)
      :: (m.fillFront p level n.orderId maker).toDraw := by
  rw [toDraw, queue_front hfill.toAtFront hbest,
    purchased_fill hfill.notFilled hreach hfill.order_eq (isOwn_eq_false hfill), toDraw,
    opposite_fillFront, queue_fillFront hfill hbest, store_fillFront, orders_fillStore]
  rfl

theorem pricing_invariant (b : OrderBook) (taker : Order) :
    MatchInvariant (fun m => Pricing b taker m ∧ Walking b taker m ∧ m.book.store.Sound)
      fun p m => Pricing b taker m ∧ WalkingAt b taker p m where
  stale m hm hrun hstale := absurd hstale (hrun.not_stale hm.2.2)
  enter m level hm hrun hlevel hne :=
    ⟨hm.1, (walking_invariant b taker).enter m level hm.2 hrun hlevel hne⟩
  ghost p m level n rest hm hfront gone :=
    ⟨hm.1.congr (toDraw_popGhost hfront hm.2.best_eq hm.2.reaches gone) rfl,
      (walking_invariant b taker).ghost p m level n rest hm.2 hfront gone⟩
  selfTrade p m level n rest resting hm hfront found enabled near :=
    ⟨hm.1.congr rfl rfl,
      (walking_invariant b taker).selfTrade p m level n rest resting hm.2 hfront found enabled near⟩
  fill p m level n rest resting hm hfill := by
    refine ⟨?_, (walking_invariant b taker).fill p m level n rest resting hm.2 hfill⟩
    obtain ⟨⟨fills, hexecuted, hdraw⟩, hat⟩ := hm
    refine ⟨fills ++ [{
        taker := m.order
        maker := resting
        price := p
        quantity := m.fillQty resting
        resting := m.book.store.orders
        entered := m.book.history.entered }], ?_, ?_⟩
    · rw [← List.append_assoc, ← hexecuted]
      rfl
    · rw [hdraw, toDraw_fillFront hfill hat.best_eq hat.reaches, List.map_append, List.append_assoc]
      rfl
  close p m level hm hlevel hnil := by
    refine ⟨hm.1.congr ?_ rfl, (walking_invariant b taker).close p m level hm.2 hlevel hnil⟩
    have hqueue := Store.queue_close hlevel hnil hm.2.best_eq
    have horders : ((m.book.store.eraseLevel m.opposite p).updateBest m.opposite).orders
        = m.book.store.orders := by simp
    simp only [toDraw, refreshBest, store_setStore, opposite_setStore, hqueue, horders]
    rfl
  keep p m hm hkeep := ⟨hm.1, (walking_invariant b taker).keep p m hm.2 hkeep⟩

/-- A loop that has been left has nothing left to draw. -/
lemma toDraw_done {m : MatchState} (h : Walking b taker m) (hsound : m.book.store.Sound)
    (hdone : ¬ Running m) : m.toDraw = [] := by
  rw [toDraw]
  by_cases hfilled : m.order.isFilled = true
  · rw [Order.leaves_eq_zero_iff.mpr hfilled, purchased, Draw.drawn_zero]
  by_cases hstopped : m.stoppedForSelfTrade = true
  · obtain ⟨p, n, queue, maker, hqueue, found, hown⟩ := h.stopped hstopped
    rw [hqueue]
    simp [quotes, found, hown, purchased, Draw.drawn]
  cases hqueue : m.book.store.queue m.opposite with
  | nil => rfl
  | cons x queue =>
      have hreach := not_reaches_of_done hsound hdone hfilled hstopped hqueue
      simp [quotes, hreach, purchased, Draw.drawn]

/-- What an order draws on, at which prices. -/
def purchases (b : OrderBook) (order : Order) : List (ℤ × ℕ) :=
  (purchased order.leaves (quotes b.config (withMarketPrice order) b.store.orders
    (b.store.queue order.side.opposite))).map fun x => (x.1.1.toInt, x.2)

/-- Fills as prices with quantities. -/
def prices (fills : List Fill) : List (ℤ × ℕ) :=
  fills.map fun f => (f.price.toInt, f.quantity.toNat)

/-- **The fills are drawn from the quotes**, in every sound book. -/
theorem matchOrder_quotes (hb : b.store.Sound) {order : Order} {fills : List Fill}
    (hexecuted : (b.matchOrder (withMarketPrice order)).book.history.executed
      = b.history.executed ++ fills) :
    prices fills = b.purchases order := by
  obtain ⟨⟨fills', hexecuted', hdraw⟩, hwalking, hsound⟩ :=
    (pricing_invariant b (withMarketPrice order)).matchOrder b (withMarketPrice order)
      ⟨⟨[], by simp, rfl⟩, Walking.start b _, hb⟩
  obtain rfl : fills' = fills := List.append_cancel_left (hexecuted'.symm.trans hexecuted)
  rw [toDraw_done hwalking hsound (matchOrder_done hb _), List.append_nil, toDraw,
    MatchState.opposite] at hdraw
  dsimp only at hdraw
  rw [withMarketPrice_side, leaves_withMarketPrice] at hdraw
  rw [purchases, hdraw, List.map_map]
  rfl

/-! ## The average -/

variable {order : Order}

/-- What an `int64_t` can hold. -/
def FitsInt64 (x : ℤ) : Prop := -2 ^ 63 ≤ x ∧ x < 2 ^ 63

instance (x : ℤ) : Decidable (FitsInt64 x) := inferInstanceAs (Decidable (_ ∧ _))

/-- The price that an order is matched at. -/
def limit (order : Order) : ℤ := (withMarketPrice order).price.toInt

/-- An add that succeeds and says that it filled something tells the average price of its trades,
in its result and in its reports, and has computed it without overflow. -/
def TellsAverage (b : OrderBook) (order : Order) : Prop :=
  (b.addOrder order).1.success = true → 0 < (b.addOrder order).1.filledQty.toNat →
    FitsInt64 (limit order * (b.addOrder order).1.filledQty.toNat) ∧
    0 < Mean.weight (prices (fillsSince b (b.addOrder order).2)) ∧
    (b.addOrder order).1.avgFillPrice.toInt
      = Mean.mean (prices (fillsSince b (b.addOrder order).2)) ∧
    ∀ r ∈ reportsSince b (b.addOrder order).2,
      r.avgPrice = (b.addOrder order).1.avgFillPrice ∧
        r.lastPrice = (b.addOrder order).1.avgFillPrice

instance (b : OrderBook) (order : Order) : Decidable (TellsAverage b order) :=
  inferInstanceAs (Decidable (_ → _ → _ ∧ _ ∧ _ ∧ _))

/-- An order that is not refused and gets something: its price times what it will have filled fits,
and what it draws on is worth its price but for less than a tick a share, away from zero. -/
structure PricedAtLimit (b : OrderBook) (order : Order) : Prop where
  fits : FitsInt64 (limit order * (order.filledQty.toNat + b.tradable order : ℕ))
  trades : 0 < b.tradable order
  small : |Mean.excess (limit order) (b.purchases order)| < b.tradable order
  nonneg : 0 < limit order → 0 ≤ Mean.excess (limit order) (b.purchases order)
  nonpos : limit order < 0 → Mean.excess (limit order) (b.purchases order) ≤ 0

/-- What `avg_fill_price` is where the product fits. -/
lemma toInt_avgFillPrice {o : Order} (hpos : 0 < o.filledQty.toNat)
    (hfits : FitsInt64 (o.price.toInt * o.filledQty.toNat)) :
    (avgFillPrice o).toInt = o.price.toInt := by
  have hqty := toInt_quantity o.filledQty
  have hsome : o.filledQty > 0 := UInt32.lt_iff_toNat_lt.mpr hpos
  have hprice := o.price.le_toInt
  have hprice' := o.price.toInt_lt
  have hproduct : (o.price * o.filledQty.toUInt64.toInt64).toInt
      = o.price.toInt * o.filledQty.toNat := by
    rw [Int64.toInt_mul, hqty]
    exact Int.bmod_eq_of_le hfits.1 hfits.2
  rw [avgFillPrice, if_pos hsome, Int64.toInt_div, hproduct, hqty,
    Int.mul_tdiv_cancel _ (Int.natCast_pos.mpr hpos).ne']
  exact Int.bmod_eq_of_le hprice hprice'

/-- A result that says that something was filled has the average of the order as it was matched. -/
lemma result_addOrder (h : (b.addOrder order).1.success = true) :
    (b.addOrder order).1.filledQty = (b.matched order).filledQty ∧
      (b.addOrder order).1.avgFillPrice = avgFillPrice (b.matched order) := by
  have hexit := addOrder_exit b order
  generalize b.addOrder order = added at hexit h
  cases hexit with
  | refused => cases h
  | wouldCross => cases h
  | killed => cases h
  | rested => exact ⟨rfl, rfl⟩
  | dropped => exact ⟨rfl, rfl⟩
  | finished => exact ⟨rfl, rfl⟩

lemma reports_average (hpass : Passes b order) {r : ExecutionReport}
    (hr : r ∈ reportsSince b (b.addOrder order).2) :
    r.avgPrice = avgFillPrice (b.matched order) ∧ r.lastPrice = avgFillPrice (b.matched order) := by
  have hmem := List.mem_map_of_mem (f := ExecutionReport.content) hr
  rw [reports_addOrder, told_of_passes hpass] at hmem
  split_ifs at hmem
  · have hcontent := mem_toldMatched hmem
    exact ⟨congrArg (·.avgPrice) hcontent, congrArg (·.lastPrice) hcontent⟩
  · exact absurd hmem List.not_mem_nil

/-- One call. -/
theorem tellsAverage_iff (hb : b.store.Sound) :
    TellsAverage b order ↔ (Passes b order → ¬ Killed b order →
      0 < order.filledQty.toNat + b.tradable order → PricedAtLimit b order) := by
  obtain ⟨hsuccess, hfilled⟩ := addOrder_result hb order
  by_cases hok : (b.addOrder order).1.success = true
  swap
  · exact iff_of_true (fun h => absurd h hok) fun hpass hkilled =>
      absurd (hsuccess.mpr ⟨hpass, hkilled⟩) hok
  obtain ⟨hpass, hkilled⟩ := hsuccess.mp hok
  obtain ⟨hqty, havg⟩ := result_addOrder hok
  have hprice : (b.matched order).price.toInt = limit order :=
    congrArg Int64.toInt (matchOrder_sameTaker b (withMarketPrice order)).price_eq
  obtain ⟨-, fills, hexecuted, -⟩ := matchOrder_contenders hb order
  have hfills : prices (fillsSince b (b.addOrder order).2) = b.purchases order := by
    rw [fillsSince_append (by rw [executed_addOrder hpass, hexecuted])]
    exact matchOrder_quotes hb hexecuted
  have hweight : Mean.weight (b.purchases order) = b.tradable order := by
    rw [← hfills, ← sum_fillsSince hb hpass, Mean.weight, prices, List.map_map]
    rfl
  rw [TellsAverage, hfills, hweight]
  have hnat := hfilled hok
  constructor
  · intro h _ _ hpos
    rw [← hnat] at hpos
    obtain ⟨hfits, htrades, hmean, -⟩ := h hok hpos
    rw [havg, toInt_avgFillPrice (by rw [← hqty]; exact hpos) (by rw [hprice, ← hqty]; exact hfits),
      hprice] at hmean
    obtain ⟨hsmall, hnonneg, hnonpos⟩ := (Mean.mean_eq_iff (by omega) _).mp hmean.symm
    rw [hweight] at hsmall
    rw [hnat] at hfits
    exact ⟨hfits, htrades, hsmall, hnonneg, hnonpos⟩
  · intro h _ hpos
    have hlimit := h hpass hkilled (by omega)
    have hfits := hlimit.fits
    rw [← hnat] at hfits
    have hmean := (Mean.mean_eq_iff (hweight ▸ hlimit.trades) (limit order)).mpr
      ⟨by rw [hweight]; exact hlimit.small, hlimit.nonneg, hlimit.nonpos⟩
    refine ⟨hfits, hlimit.trades, ?_, fun r hr => ?_⟩
    · rw [havg, toInt_avgFillPrice (by rw [← hqty]; exact hpos)
        (by rw [hprice, ← hqty]; exact hfits), hprice, hmean]
    · rw [havg]
      exact reports_average hpass hr

section Reachable

variable (symbol : Symbol) (config : OrderBookConfig) (onTrade onExecution onBbo : Bool)
  (clock : Stream' Timestamp) (ops : List Op)

/-- **When the average price is told.** -/
theorem average_iff (order : Order) :
    TellsAverage (after (new symbol config onTrade onExecution onBbo clock) ops) order ↔
      (Passes (after (new symbol config onTrade onExecution onBbo clock) ops) order →
        ¬ Killed (after (new symbol config onTrade onExecution onBbo clock) ops) order →
        0 < order.filledQty.toNat
          + tradable (after (new symbol config onTrade onExecution onBbo clock) ops) order →
        PricedAtLimit (after (new symbol config onTrade onExecution onBbo clock) ops) order) :=
  tellsAverage_iff (sound_after _ _ _ _ _ _ _)

/-- A buy order at 101 that is filled at 100 is told 101. -/
theorem improved_price_not_told :
    ¬ TellsAverage (after (makeBook {}) [.add (limitOrder 1 .Sell 100 10)])
      (limitOrder 2 .Buy 101 10) := by
  decide +kernel

end Reachable

end Exchange.OrderBook
