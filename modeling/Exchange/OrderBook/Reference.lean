import Exchange.OrderBook.Trades
import Exchange.OrderBook.Visited

/-!
# Matching draws from the opposite queue

`match_order` walks a map of levels by a cached price, a linked list per level and a separate map of
orders.  Where these agree it does nothing but draw the taker's open quantity from one list, the
resting orders of the opposite side in the order it meets them (`Store.visited`), up to the first
it must stop at (`stopsAt`).

* **`matchOrder_draws`** — the fills are what `Draw.drawn` draws, and the opposite side is what
  `Draw.left` leaves, for every configuration and whatever the prices in the book.
* `Drawing` is the invariant of the two loops: what has been filled so far, followed by what would
  be drawn from here, is what is drawn in all.
-/

namespace Exchange.OrderBook

open MatchState

/-- What matching does not trade with: a maker at one of the sentinel prices, one whose price the
taker does not cross, and one that self-trade prevention takes for the taker's own. -/
def stopsAt (config : OrderBookConfig) (taker maker : Order) : Bool :=
  maker.price == invalidPrice || maker.price == 0 ||
    !(taker.type == .Market || taker.wouldCross maker.price) ||
    (config.enableSelfTradePrevention && nearIds taker.id maker.id)

theorem stopsAt_eq_false_iff {config : OrderBookConfig} {taker maker : Order} :
    stopsAt config taker maker = false ↔
      (maker.price ≠ invalidPrice ∧ maker.price ≠ 0 ∧
        (taker.type = .Market ∨ taker.wouldCross maker.price = true)) ∧
      (config.enableSelfTradePrevention = true → nearIds taker.id maker.id = false) := by
  cases hc : config.enableSelfTradePrevention <;> simp [stopsAt, hc, and_assoc, or_iff_not_imp_left]

/-- The maker after `q` of it has been taken. -/
def reduce (maker : Order) (q : Nat) : Order := (maker.fill (UInt32.ofNat q)).2

/-- What is drawn from a queue of makers. -/
def drawn (config : OrderBookConfig) (taker : Order) (want : Nat) (makers : List Order) :
    List (Order × Nat) :=
  Draw.drawn (stopsAt config taker) Order.leaves want makers

/-- What is left of a queue of makers. -/
def left (config : OrderBookConfig) (taker : Order) (want : Nat) (makers : List Order) :
    List Order :=
  Draw.left (stopsAt config taker) Order.leaves reduce want makers

/-- The maker of a fill and the quantity taken from it. -/
def taken (f : Fill) : Order × Nat := (f.maker, f.quantity.toNat)

/-! ## A fill works on the head of the queue -/

lemma toNat_fillQty {m : MatchState} {resting : Order} (hopen : m.order.isFilled = false)
    (hle : resting.filledQty ≤ resting.quantity) :
    (m.fillQty resting).toNat = min m.order.leaves resting.leaves := by
  rw [fillQty, Order.toNat_min_quantity,
    Order.toNat_remaining (UInt32.le_of_lt (Order.not_isFilled_iff.mp hopen)),
    Order.toNat_remaining hle]

/-- The head of the queue at work, before and after the fill. -/
lemma ordersAt_fillStore {m : MatchState} (h : m.book.store.Agrees) {p : Price}
    {level : PriceLevel} {n : OrderNode} {rest : List OrderNode} {resting : Order}
    (hfill : AtFill p m level n rest resting) :
    ∃ queue, m.book.store.ordersAt m.opposite p = resting :: queue ∧
      (m.fillStore p level n.orderId resting).ordersAt m.opposite p
        = Draw.rest Order.leaves reduce m.order.leaves resting queue := by
  obtain ⟨-, -, -, -, hle⟩ := h.front hfill
  have hq : m.fillQty resting ≤ resting.remaining := Order.min_quantity_le_right _ _
  have hmin := toNat_fillQty hfill.notFilled hle
  have hat : ((m.fillStore p level n.orderId resting).levels m.opposite)[p]?
      = some (level.fillFront (m.fillQty resting)) := by
    rw [getElem?_levels_fillStore, if_pos ⟨rfl, rfl⟩]
  have hself : (m.fillStore p level n.orderId resting).orders[n.orderId]?
      = if (resting.fill (m.fillQty resting)).2.isFilled then none
        else some (resting.fill (m.fillQty resting)).2 := by
    rw [getElem?_orders_fillStore, if_pos rfl]
  -- the nodes behind the front one are not touched
  have hbehind : (rest.filterMap fun k =>
      (m.fillStore p level n.orderId resting).orders[k.orderId]?)
        = rest.filterMap fun k => m.book.store.orders[k.orderId]? := by
    refine List.filterMap_congr fun k hk => ?_
    rw [getElem?_orders_fillStore, if_neg (h.rest_orderId_ne hfill.toAtFront hk)]
  have hfull : (resting.fill (m.fillQty resting)).2.isFilled = true ↔
      resting.leaves ≤ m.order.leaves := by
    rw [Order.fill_isFilled_iff hle hq, ← UInt32.toNat_inj, hmin, Order.toNat_remaining hle]
    omega
  refine ⟨_, Store.ordersAt_cons hfill.level_eq hfill.nodes_eq hfill.order_eq, ?_⟩
  rw [Store.ordersAt_eq hat, h.nodes_fillFront hfill, Draw.rest]
  by_cases hdone : resting.leaves ≤ m.order.leaves
  · rw [if_pos (hfull.mpr hdone), if_pos hdone, hbehind]
  · rw [if_neg (mt hfull.mp hdone), if_neg hdone]
    have hqty : m.fillQty resting = UInt32.ofNat m.order.leaves := by
      rw [← UInt32.toNat_inj, hmin, UInt32.toNat_ofNat', Nat.min_eq_left (by omega),
        Nat.mod_eq_of_lt]
      exact Nat.lt_of_le_of_lt (Nat.sub_le _ _) m.order.quantity.toNat_lt
    rw [if_neg (mt hfull.mp hdone)] at hself
    simp only [List.filterMap_cons, hself, hbehind]
    rw [hqty, reduce]

/-- The other queues are not touched. -/
lemma ordersAt_fillStore_of_ne {m : MatchState} (h : m.book.store.Agrees) {p k : Price}
    {level : PriceLevel} {n : OrderNode} {rest : List OrderNode} {resting : Order}
    (hfill : AtFill p m level n rest resting) (hk : k ≠ p) :
    (m.fillStore p level n.orderId resting).ordersAt m.opposite k
      = m.book.store.ordersAt m.opposite k := by
  refine Store.ordersAt_congr ?_ fun n' hn' => ?_
  · rw [getElem?_levels_fillStore, if_neg fun hat => hk hat.2]
  · rw [getElem?_orders_fillStore, if_neg]
    intro hid
    exact hk (h.node_unique hn' (Store.queues_front hfill.toAtFront) hid).2.1

/-- **A fill takes the head of the list that is met.** -/
theorem visited_fillStore {m : MatchState} (h : m.book.store.Agrees) {p : Price}
    {level : PriceLevel} {n : OrderNode} {rest : List OrderNode} {resting : Order}
    (hfill : AtFill p m level n rest resting) (hbest : m.book.store.best m.opposite = p) :
    ∃ queue, m.book.store.visited m.opposite = resting :: queue ∧
      (m.fillStore p level n.orderId resting).visited m.opposite
        = Draw.rest Order.leaves reduce m.order.leaves resting queue := by
  obtain ⟨queue, hqueue, hqueue'⟩ := ordersAt_fillStore h hfill
  have hmem := hfill.mem_levels
  have hkeys : ∀ k, k ∈ (m.fillStore p level n.orderId resting).levels m.opposite ↔
      k ∈ m.book.store.levels m.opposite := fun k => mem_levels_fillStore hfill.toAtFront
  have hbest' : (m.fillStore p level n.orderId resting).best m.opposite = p := by
    rw [best_fillStore, hbest]
  rw [Store.visited, Store.visited, Store.visitedPrices_of_mem (by rw [hbest]; exact hmem),
    Store.visitedPrices_of_mem (by rw [hbest', hkeys]; exact hmem), hbest, hbest',
    Store.bestFirst_congr hkeys, List.flatMap_cons, List.flatMap_cons, hqueue, hqueue']
  refine ⟨_, List.cons_append, ?_⟩
  have hothers : ((m.book.store.bestFirst m.opposite).filter (· ≠ p)).flatMap
      ((m.fillStore p level n.orderId resting).ordersAt m.opposite)
        = ((m.book.store.bestFirst m.opposite).filter (· ≠ p)).flatMap
          (m.book.store.ordersAt m.opposite) :=
    List.flatMap_congr fun k hk =>
      ordersAt_fillStore_of_ne h hfill (by simpa using (List.mem_filter.mp hk).2)
  rw [hothers, Draw.rest, Draw.rest]
  split_ifs <;> rfl

/-- **Closing a used-up level leaves the list that is met as it is.** -/
theorem visited_close {s : Store} {side : Side} {p : Price} {level : PriceLevel}
    (hlevel : (s.levels side)[p]? = some level) (hnil : level.nodes = [])
    (hbest : s.best side = p) :
    ((s.eraseLevel side p).updateBest side).visited side = s.visited side := by
  have hmem : p ∈ s.levels side := KeyList.mem_iff_exists_getElem?.mpr ⟨level, hlevel⟩
  have hprices : ((s.eraseLevel side p).updateBest side).bestFirst side
      = (s.bestFirst side).filter (· ≠ p) := by
    rw [Store.bestFirst_congr (s := s.eraseLevel side p) (by simp), Store.bestFirst_eraseLevel]
  have hhead : ((s.eraseLevel side p).updateBest side).best side
      = (((s.eraseLevel side p).updateBest side).bestFirst side).head?.getD invalidPrice := by
    rw [Store.best_updateBest, hprices, Store.bestFirst_eraseLevel]
  have hempty : s.ordersAt side p = [] := by
    rw [Store.ordersAt_eq hlevel, hnil, List.filterMap_nil]
  rw [Store.visited, Store.visited, Store.visitedPrices_of_head hhead, hprices,
    Store.visitedPrices_of_mem (by rw [hbest]; exact hmem), hbest, List.flatMap_cons, hempty,
    List.nil_append]
  refine List.flatMap_congr fun k hk => ?_
  have hk : k ≠ p := by simpa using (List.mem_filter.mp hk).2
  refine Store.ordersAt_congr ?_ fun _ _ => by simp
  rw [Store.levels_updateBest, Store.getElem?_eraseLevel, if_neg fun hat => hk hat.2]

/-! ## The invariant of the two loops -/

/-- The loops have drawn some of what is to be drawn, and are about to draw the rest. -/
structure Drawing (b : OrderBook) (taker : Order) (m : MatchState) : Prop
    extends SameTaker b taker m where
  fills : ∃ fills, m.book.history.executed = b.history.executed ++ fills ∧
    drawn b.config taker taker.leaves (b.store.visited taker.side.opposite)
      = fills.map taken ++
        drawn b.config taker m.order.leaves (m.book.store.visited taker.side.opposite) ∧
    m.order.filledQty.toNat = taker.filledQty.toNat + (fills.map (·.quantity.toNat)).sum ∧
    ∀ f ∈ fills, f.execution = executionOf taker f.maker f.maker.price f.quantity
  left_eq : left b.config taker taker.leaves (b.store.visited taker.side.opposite)
    = left b.config taker m.order.leaves (m.book.store.visited taker.side.opposite)
  stopped : m.stoppedForSelfTrade = true → Draw.Closed (stopsAt b.config taker) m.order.leaves
    (m.book.store.visited taker.side.opposite)

variable {b : OrderBook} {taker : Order}

lemma Drawing.opposite_eq {m : MatchState} (h : Drawing b taker m) :
    m.opposite = taker.side.opposite := by
  rw [MatchState.opposite, h.side_eq]

lemma Drawing.start (b : OrderBook) (taker : Order) :
    Drawing b taker { book := b, order := taker } where
  toSameTaker := ⟨rfl, rfl, rfl, rfl, rfl, rfl, rfl, rfl⟩
  fills := ⟨[], by simp, by simp, by simp, by simp⟩
  left_eq := rfl
  stopped h := by cases h

/-- Where the list that is met and the taker are the same, so is what is left to do. -/
lemma Drawing.congr {m m' : MatchState} (h : Drawing b taker m)
    (horder : m'.order = m.order) (hconfig : m'.book.config = m.book.config)
    (hsymbol : m'.book.symbol = m.book.symbol) (hhistory : m'.book.history = m.book.history)
    (hvisited : m'.book.store.visited taker.side.opposite
      = m.book.store.visited taker.side.opposite)
    (hstopped : m'.stoppedForSelfTrade = m.stoppedForSelfTrade) : Drawing b taker m' where
  toSameTaker := ⟨by rw [hconfig, h.config_eq], by rw [hsymbol, h.symbol_eq],
    by rw [horder, h.id_eq], by rw [horder, h.side_eq], by rw [horder, h.type_eq],
    by rw [horder, h.tif_eq], by rw [horder, h.price_eq], by rw [horder, h.quantity_eq]⟩
  fills := by
    rw [hhistory, horder, hvisited]
    exact h.fills
  left_eq := by rw [h.left_eq, horder, hvisited]
  stopped hs := by
    rw [horder, hvisited]
    exact h.stopped (hstopped ▸ hs)

/-- The inner loop is at work on the level at the cached best price, which the taker crosses. -/
structure DrawingAt (b : OrderBook) (taker : Order) (p : Price) (m : MatchState) : Prop
    extends Drawing b taker m where
  agrees : m.book.store.Agrees
  sound : SoundExcept p m
  best_eq : m.book.store.best m.opposite = p
  ne_invalid : p ≠ invalidPrice
  ne_zero : p ≠ 0
  crosses : taker.type = .Market ∨ taker.wouldCross p = true

/-- What the inner loop is about to fill is not a stop. -/
lemma DrawingAt.open {p : Price} {m : MatchState} (h : DrawingAt b taker p m)
    {level : PriceLevel} {n : OrderNode} {rest : List OrderNode} {resting : Order}
    (hfill : AtFill p m level n rest resting) : stopsAt b.config taker resting = false := by
  obtain ⟨-, -, hprice, -, -⟩ := h.agrees.front hfill
  rw [stopsAt_eq_false_iff, hprice, ← h.config_eq, ← h.id_eq]
  exact ⟨⟨h.ne_invalid, h.ne_zero, h.crosses⟩, hfill.notNear⟩

theorem Drawing.fillFront {p : Price} {m : MatchState} (h : DrawingAt b taker p m)
    {level : PriceLevel} {n : OrderNode} {rest : List OrderNode} {resting : Order}
    (hfill : AtFill p m level n rest resting) :
    Drawing b taker (m.fillFront p level n.orderId resting) := by
  obtain ⟨-, -, hprice, -, hle⟩ := h.agrees.front hfill
  obtain ⟨queue, hqueue, hqueue'⟩ := visited_fillStore h.agrees hfill h.best_eq
  rw [h.opposite_eq] at hqueue hqueue'
  have hopen := h.open hfill
  have hwant : m.order.leaves ≠ 0 := Nat.pos_iff_ne_zero.mp (Order.leaves_pos hfill.notFilled)
  have hle' : m.order.filledQty ≤ m.order.quantity :=
    UInt32.le_of_lt (Order.not_isFilled_iff.mp hfill.notFilled)
  have hq : m.fillQty resting ≤ m.order.remaining := Order.min_quantity_le_left _ _
  have hmin := toNat_fillQty hfill.notFilled hle
  have hleaves : (m.fillFront p level n.orderId resting).order.leaves
      = m.order.leaves - min m.order.leaves resting.leaves := by
    rw [order_fillFront, Order.leaves_fill hle' hq, hmin]
  have hvisited : (m.fillFront p level n.orderId resting).book.store.visited taker.side.opposite
      = Draw.rest Order.leaves reduce m.order.leaves resting queue := hqueue'
  refine ⟨(sameTaker_invariant b taker).fill p m level n rest resting h.toSameTaker hfill,
    ?_, ?_, ?_⟩
  · obtain ⟨fills, hexecuted, hdrawn, hfilled, hexecution⟩ := h.fills
    refine ⟨fills ++ [{
        taker := m.order
        maker := resting
        price := p
        quantity := m.fillQty resting
        resting := m.book.store.orders
        entered := m.book.history.entered }], ?_, ?_, ?_, ?_⟩
    · rw [← List.append_assoc, ← hexecuted]
      rfl
    · rw [hdrawn, hqueue, drawn, Draw.drawn_step reduce hwant hopen, hleaves, hvisited,
        List.map_append, List.append_assoc]
      simp only [List.map_cons, List.map_nil, taken, hmin, List.cons_append, List.nil_append, drawn]
    · rw [order_fillFront, Order.toNat_fill_filledQty hle' hq, hfilled]
      simp only [List.map_append, List.map_cons, List.map_nil, List.sum_append, List.sum_cons,
        List.sum_nil]
      omega
    · intro f hf
      rcases List.mem_append.mp hf with hf | hf
      · exact hexecution f hf
      · rw [List.mem_singleton.mp hf, Fill.execution, hprice]
        exact executionOf_congr h.side_eq h.id_eq _ _ _
  · rw [h.left_eq, hqueue, left, Draw.left_step hwant hopen, hleaves, hvisited]
    rfl
  · intro hs
    rcases h.stopped hs with hzero | hstop
    · exact absurd hzero hwant
    · rw [hstop resting queue hqueue] at hopen
      cases hopen

theorem drawing_invariant (b : OrderBook) (taker : Order) :
    MatchInvariant
      (fun m => Drawing b taker m ∧ m.book.store.Agrees ∧ m.book.store.Sound)
      (DrawingAt b taker) where
  stale m hm hrun hstale := absurd hstale (hrun.not_stale hm.2.2)
  enter m level hm hrun hlevel hne := by
    refine ⟨hm.1, hm.2.1, sound_invariant.enter m level hm.2.2 hrun hlevel hne, rfl,
      hrun.ne_invalid, hrun.ne_zero, ?_⟩
    have hcrosses := hrun.crosses
    rwa [hm.1.type_eq, Order.wouldCross, hm.1.side_eq, hm.1.price_eq] at hcrosses
  ghost p m level n rest hm hfront gone := absurd gone (hm.agrees.not_ghost hfront)
  selfTrade p m level n rest resting hm hfront found enabled near := by
    refine ⟨⟨⟨hm.1.1.1, hm.1.1.2, hm.1.1.3, hm.1.1.4, hm.1.1.5, hm.1.1.6, hm.1.1.7, hm.1.1.8⟩,
      hm.fills, hm.left_eq, fun _ => Or.inr fun a as ha => ?_⟩, hm.agrees,
      ⟨hm.sound.mem, hm.sound.noEmpty, hm.sound.bestLive⟩, hm.best_eq, hm.ne_invalid, hm.ne_zero,
      hm.crosses⟩
    -- the order at the front of the queue is the one that is met next
    have hqueue := Store.ordersAt_cons hfront.level_eq hfront.nodes_eq found
    have hmem : m.book.store.best m.opposite ∈ m.book.store.levels m.opposite := by
      rw [hm.best_eq]
      exact hm.sound.mem
    rw [← hm.opposite_eq, Store.visited, Store.visitedPrices_of_mem hmem, List.flatMap_cons,
      hm.best_eq, hqueue, List.cons_append] at ha
    cases ha
    have hnear : nearIds taker.id resting.id = true := by rw [← hm.id_eq]; exact near
    have henabled : b.config.enableSelfTradePrevention = true := by rw [← hm.config_eq]; exact enabled
    simp [stopsAt, hnear, henabled]
  fill p m level n rest resting hm hfill :=
    ⟨Drawing.fillFront hm hfill, agrees_invariant.fill p m level n rest resting hm.agrees hfill,
      sound_invariant.fill p m level n rest resting hm.sound hfill,
      by rw [opposite_fillFront, store_fillFront, best_fillStore, hm.best_eq],
      hm.ne_invalid, hm.ne_zero, hm.crosses⟩
  close p m level hm hlevel hnil := by
    refine ⟨hm.toDrawing.congr rfl rfl rfl rfl ?_ rfl,
      agrees_invariant.close p m level hm.agrees hlevel hnil,
      sound_invariant.close p m level hm.sound hlevel hnil⟩
    rw [← hm.opposite_eq]
    exact visited_close hlevel hnil hm.best_eq
  keep p m hm hkeep := ⟨hm.toDrawing, hm.agrees, sound_invariant.keep p m hm.sound hkeep⟩

/-! ## The whole of matching -/

/-- A loop that has been left has nothing left to draw. -/
lemma Drawing.closed {m : MatchState} (h : Drawing b taker m) (hagrees : m.book.store.Agrees)
    (hsound : m.book.store.Sound) (hdone : ¬ Running m) :
    Draw.Closed (stopsAt b.config taker) m.order.leaves
      (m.book.store.visited taker.side.opposite) := by
  by_cases hfilled : m.order.isFilled = true
  · exact Or.inl (Order.leaves_eq_zero_iff.mpr hfilled)
  by_cases hstopped : m.stoppedForSelfTrade = true
  · exact h.stopped hstopped
  refine Or.inr fun maker makers hvisited => ?_
  rw [← h.opposite_eq] at hvisited
  by_contra hopen
  obtain ⟨⟨hinvalid, hzero, hcrosses⟩, -⟩ :=
    stopsAt_eq_false_iff.mp (Bool.not_eq_true _ ▸ hopen)
  -- the first order met has the cached best price, so the loop would have gone on
  have hbest : maker.price = m.book.store.best m.opposite := by
    rcases hsound.bestLive m.opposite with hmem | ⟨-, hnone⟩
    · exact hagrees.visited_head hsound hmem hvisited
    · rw [Store.visited, Store.visitedPrices_eq_nil hnone] at hvisited
      cases hvisited
  rw [hbest] at hinvalid hzero hcrosses
  refine hdone ⟨by simpa using hfilled, by simpa using hstopped, hinvalid, hzero, ?_⟩
  rwa [h.type_eq, Order.wouldCross, h.side_eq, h.price_eq]

/-- **Matching draws from the opposite queue.**  In a book whose orders, nodes and levels agree,
the fills of `match_order` are those of a draw of the taker's open quantity from the orders met, and
what is met afterwards is what that draw leaves. -/
theorem matchOrder_draws (hagrees : b.store.Agrees) (hsound : b.store.Sound) (taker : Order) :
    ∃ fills, (b.matchOrder taker).book.history.executed = b.history.executed ++ fills ∧
      fills.map taken
        = drawn b.config taker taker.leaves (b.store.visited taker.side.opposite) ∧
      (b.matchOrder taker).order.filledQty.toNat
        = taker.filledQty.toNat + (fills.map (·.quantity.toNat)).sum ∧
      (∀ f ∈ fills, f.execution = executionOf taker f.maker f.maker.price f.quantity) ∧
      (b.matchOrder taker).book.store.visited taker.side.opposite
        = left b.config taker taker.leaves (b.store.visited taker.side.opposite) := by
  obtain ⟨hdrawing, hagrees', hsound'⟩ :=
    (drawing_invariant b taker).matchOrder b taker ⟨Drawing.start b taker, hagrees, hsound⟩
  have hclosed := hdrawing.closed hagrees' hsound' (matchOrder_done hsound taker)
  obtain ⟨fills, hexecuted, hdrawn, hfilled, hexecution⟩ := hdrawing.fills
  refine ⟨fills, hexecuted, ?_, hfilled, hexecution, ?_⟩
  · rw [hdrawn, drawn, hclosed.drawn_eq, List.append_nil]
  · rw [hdrawing.left_eq, left, hclosed.left_eq]

end Exchange.OrderBook
