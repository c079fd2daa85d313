import Exchange.OrderBook.BestExecution

/-!
# Slicing an order

An order that takes what it can at once and never rests may be sent in slices: one after the other
they trade what the whole would trade, and leave the book it would leave.  The reason is that
matching is a draw, and that a draw may be sliced (`Draw.left_add`, `Draw.cost_drawn_add`).

**`sliced`** — with self-trade prevention off, two ways to slice an order of one total end in books
that are alike, and have traded the same quantity for the same money.
-/

namespace Exchange

namespace Store

variable {s s' : Store} {side : Side}

/-- The same orders in the same queues, with the same best prices and quantities. -/
structure Alike (s s' : Store) : Prop where
  orders : ∀ id : OrderId, s'.orders[id]? = s.orders[id]?
  queues : ∀ side, s'.restingOrders side = s.restingOrders side
  best : ∀ side, s'.best side = s.best side
  quantityAt : ∀ side p, Feed.quantityAt s' side p = Feed.quantityAt s side p

/-- A price has a level if an order rests at it. -/
lemma Agrees.mem_levels_iff (h : s.Agrees) (hs : s.Sound) {p : Price} :
    p ∈ s.levels side ↔ ∃ o ∈ s.restingOrders side, o.price = p := by
  constructor
  · intro hp
    obtain ⟨level, hlevel⟩ := KeyList.mem_iff_exists_getElem?.mp hp
    obtain ⟨n, hn⟩ := List.exists_mem_of_ne_nil _ (hs.noEmpty _ _ _ hlevel)
    obtain ⟨o, ho, hside, hprice, -⟩ := h.node ⟨level, hlevel, hn⟩
    exact ⟨o, h.mem_restingOrders.mpr ⟨by rw [h.id_eq ho, ho], hside⟩, hprice⟩
  · rintro ⟨o, ho, rfl⟩
    obtain ⟨hat, rfl⟩ := h.mem_restingOrders.mp ho
    obtain ⟨n, ⟨level, hlevel, -⟩, -⟩ := h.queued hat
    exact KeyList.mem_iff_exists_getElem?.mpr ⟨level, hlevel⟩

lemma Agrees.orders_eq_some_iff (h : s.Agrees) {id : OrderId} {o : Order} :
    s.orders[id]? = some o ↔ o.id = id ∧ ∃ side, o ∈ s.restingOrders side := by
  constructor
  · intro ho
    have hid := h.id_eq ho
    exact ⟨hid, o.side, h.mem_restingOrders.mpr ⟨by rw [hid, ho], rfl⟩⟩
  · rintro ⟨rfl, side, ho⟩
    exact (h.mem_restingOrders.mp ho).1

/-- **The resting orders determine the book**, where orders and nodes agree and the caches are
exact. -/
theorem Agrees.alike (h : s.Agrees) (h' : s'.Agrees) (hs : s.Exact) (hs' : s'.Exact)
    (hqueues : ∀ side, s'.restingOrders side = s.restingOrders side) : Alike s s' where
  orders id := by
    ext o
    rw [h.orders_eq_some_iff, h'.orders_eq_some_iff]
    simp only [hqueues]
  queues := hqueues
  best side := by
    have hprices : s'.bestFirst side = s.bestFirst side := bestFirst_congr fun p => by
      rw [h.mem_levels_iff hs.toSound, h'.mem_levels_iff hs'.toSound, hqueues]
    rw [hs'.best_eq_head, hs.best_eq_head, hprices]
  quantityAt side p := by
    have hdepth : s'.depth side = s.depth side := by rw [depth, depth, hqueues]
    rw [← UInt32.toNat_inj, Feed.toNat_quantityAt h, Feed.toNat_quantityAt h', ← h.depth_rank,
      ← h'.depth_rank, hdepth]

end Store

namespace OrderBook

open MatchState

variable {b : OrderBook} {order : Order}

/-! ## The order's own side -/

/-- The own side of the taker while an order is matched. -/
structure OwnSide (b : OrderBook) (side : Side) (m : MatchState) : Prop where
  agrees : m.book.store.Agrees
  side_eq : m.order.side = side
  levels : ∀ p : Price, (m.book.store.levels side)[p]? = (b.store.levels side)[p]?
  orders : ∀ (id : OrderId) (o : Order), b.store.orders[id]? = some o → o.side = side →
    m.book.store.orders[id]? = some o

lemma OwnSide.ne_opposite {side : Side} {m : MatchState} (h : OwnSide b side m) :
    side ≠ m.opposite := by
  rw [MatchState.opposite, h.side_eq]
  exact (Side.opposite_ne _).symm

lemma ownSide_invariant (b : OrderBook) (side : Side) :
    MatchInvariant (OwnSide b side) fun _ => OwnSide b side where
  stale m hm hrun hstale :=
    ⟨agrees_invariant.stale m hm.agrees hrun hstale, hm.side_eq,
      fun k => by simp [refreshBest, hm.levels], fun id o ho hside => by
        simpa [refreshBest] using hm.orders id o ho hside⟩
  enter _ _ hm _ _ _ := hm
  ghost p m level n rest hm hfront gone := absurd gone (hm.agrees.not_ghost hfront)
  selfTrade _ _ _ _ _ _ hm _ _ _ _ := ⟨hm.agrees, hm.side_eq, hm.levels, hm.orders⟩
  fill p m level n rest resting hm hfill := by
    refine ⟨agrees_invariant.fill p m level n rest resting hm.agrees hfill, ?_, fun k => ?_,
      fun id o ho hside => ?_⟩
    · rw [order_fillFront, Order.fill_side, hm.side_eq]
    · rw [store_fillFront, getElem?_levels_fillStore, if_neg fun hat => hm.ne_opposite hat.1,
        hm.levels]
    · have hfound := hm.orders id o ho hside
      rw [store_fillFront, getElem?_orders_fillStore, if_neg, hfound]
      -- the order at the front rests on the other side
      rintro rfl
      obtain ⟨-, hopposite, -⟩ := hm.agrees.front hfill
      rw [hfill.order_eq] at hfound
      cases hfound
      exact hm.ne_opposite (hside.symm.trans hopposite)
  close p m level hm hlevel hnil := by
    have hagrees := agrees_invariant.close p m level hm.agrees hlevel hnil
    have hlevels : ∀ k : Price, ((m.book.store.eraseLevel m.opposite p).levels side)[k]?
        = (b.store.levels side)[k]? := fun k => by
      rw [Store.getElem?_eraseLevel, if_neg fun hat => hm.ne_opposite hat.1, hm.levels]
    exact ⟨hagrees, hm.side_eq, fun k => by simp [refreshBest, hlevels], fun id o ho hside => by
      simpa [refreshBest] using hm.orders id o ho hside⟩
  keep _ _ hm _ := hm

/-- Matching leaves the queues of the order's own side as they are. -/
lemma restingOrders_matchOrder_own (hagrees : b.store.Agrees) (order : Order) :
    (b.matchOrder order).book.store.restingOrders order.side
      = b.store.restingOrders order.side := by
  have hown : OwnSide b order.side (b.matchOrder order) :=
    (ownSide_invariant b order.side).matchOrder b order
      ⟨hagrees, rfl, fun _ => rfl, fun _ _ ho _ => ho⟩
  have hprices : (b.matchOrder order).book.store.bestFirst order.side
      = b.store.bestFirst order.side :=
    Store.bestFirst_congr fun p => by simp only [KeyList.mem_iff_exists_getElem?, hown.levels]
  rw [Store.restingOrders, Store.restingOrders, hprices]
  refine List.flatMap_congr fun p _ => Store.ordersAt_congr (hown.levels p) fun n hn => ?_
  obtain ⟨o, ho, hside, -⟩ := hagrees.node hn
  rw [ho, hown.orders _ o ho hside]

/-! ## Filling a maker twice -/

lemma toNat_ofNat_of_lt_leaves {maker : Order} {q : ℕ} (hq : q < maker.leaves) :
    (UInt32.ofNat q).toNat = q := by
  have hlt := maker.quantity.toNat_lt
  rw [Order.leaves] at hq
  rw [UInt32.toNat_ofNat', Nat.mod_eq_of_lt (by omega)]

/-- What is taken from a maker that keeps something, without the checks. -/
lemma reduce_eq {maker : Order} (hle : maker.filledQty ≤ maker.quantity) {q : ℕ}
    (hq : q < maker.leaves) :
    reduce maker q = { maker with
      filledQty := maker.filledQty + UInt32.ofNat q
      status := if maker.filledQty + UInt32.ofNat q > 0 then .PartiallyFilled
        else maker.status } := by
  have hnat := toNat_ofNat_of_lt_leaves hq
  have hremaining : UInt32.ofNat q ≤ maker.remaining := by
    rw [UInt32.le_iff_toNat_le, hnat, Order.toNat_remaining hle]
    omega
  have hmin : min (UInt32.ofNat q) maker.remaining = UInt32.ofNat q := by
    rw [Order.min_quantity, if_pos hremaining]
  have hopen : ¬ maker.filledQty + UInt32.ofNat q ≥ maker.quantity := by
    have hfilled : (reduce maker q).isFilled = false := by
      rw [← Bool.not_eq_true, ← Order.leaves_eq_zero_iff, leaves_reduce hle hq]
      omega
    rw [Order.not_isFilled_iff, reduce, Order.fill_filledQty, hmin, Order.fill_quantity] at hfilled
    exact UInt32.not_le.mpr hfilled
  simp only [reduce, Order.fill, Order.isFilled, hmin, decide_eq_true_eq, if_neg hopen]
  split_ifs <;> rfl

/-- **Taking some and then some more** from a maker that keeps something. -/
lemma reduce_add {maker : Order} (hle : maker.filledQty ≤ maker.quantity) {q q' : ℕ}
    (hq : q + q' < maker.leaves) : reduce (reduce maker q) q' = reduce maker (q + q') := by
  have hfirst : q < maker.leaves := by omega
  have hleaves := leaves_reduce hle hfirst
  have hle' : (reduce maker q).filledQty ≤ (reduce maker q).quantity := by
    refine UInt32.le_of_lt (Order.not_isFilled_iff.mp ?_)
    rw [← Bool.not_eq_true, ← Order.leaves_eq_zero_iff, hleaves]
    omega
  -- nothing wraps, so what has been filled once stays filled
  have hgrows : maker.filledQty + UInt32.ofNat q > 0 →
      maker.filledQty + (UInt32.ofNat q + UInt32.ofNat q') > 0 := by
    have hquantity := maker.quantity.toNat_lt
    rw [Order.leaves] at hq
    rw [← UInt32.ofNat_add]
    simp only [gt_iff_lt, UInt32.lt_iff_toNat_lt, UInt32.toNat_add, UInt32.toNat_ofNat',
      UInt32.toNat_zero]
    omega
  rw [reduce_eq hle' (by rw [hleaves]; omega), reduce_eq hle hq, reduce_eq hle hfirst]
  simp only [UInt32.ofNat_add, UInt32.add_assoc]
  split_ifs with hboth hfirst'
  · rfl
  · exact absurd (hgrows hfirst') hboth
  · rfl

/-! ## Slices -/

/-- An order that takes what it can at once and never rests. -/
structure Sweeps (order : Order) : Prop where
  fresh : Fresh order
  kind : order.type = .Market ∨ order.type = .ImmediateOrCancel ∨
    order.type = .Limit ∧ order.tif = .ImmediateOrCancel
  not_fillOrKill : isFillOrKill order = false
  valid : order.type ≠ .Market → ValidPrice order.price

lemma Sweeps.not_restable (h : Sweeps order) : ¬ Restable order := by
  rintro ⟨htype, htif⟩
  rcases h.kind with hkind | hkind | ⟨-, hkind⟩ <;> simp [hkind] at htype htif

/-- Some of an order, under an id of its own. -/
def slice (order : Order) (x : OrderId × Quantity) : Order :=
  { order with
    id := x.1
    quantity := x.2 }

lemma Sweeps.slice (h : Sweeps order) (x : OrderId × Quantity) : Sweeps (slice order x) :=
  ⟨h.fresh, h.kind, h.not_fillOrKill, h.valid⟩

lemma crosses_slice (order : Order) (x : OrderId × Quantity) (p : Price) :
    crosses (withMarketPrice (slice order x)) p = crosses (withMarketPrice order) p := by
  rw [Bool.eq_iff_iff, crosses_withMarketPrice, crosses_withMarketPrice]
  rfl

/-- An order that sweeps is refused only for its quantity or its id. -/
lemma Sweeps.passes (h : Sweeps order) (hquantity : order.quantity ≠ 0)
    (hnew : b.store.orders[order.id]? = none) : Passes b order where
  quantity_ne := hquantity
  price_pos htype := (h.valid (by simp [htype])).1
  id_new := hnew
  post_only htype := by rcases h.kind with hkind | hkind | ⟨hkind, -⟩ <;> simp [hkind] at htype
  displayed hfok := by
    rw [h.not_fillOrKill] at hfok
    cases hfok

/-- `b'` is `b` after `total` of the order has been drawn from the other side. -/
structure Swept (order : Order) (b : OrderBook) (total : ℕ) (b' : OrderBook) : Prop where
  standing : Standing b'
  agrees : b'.store.Agrees
  none_new : ∀ id : OrderId, b.store.orders[id]? = none → b'.store.orders[id]? = none
  own : b'.store.restingOrders order.side = b.store.restingOrders order.side
  opposite : b'.store.restingOrders order.side.opposite
    = Draw.left (fun maker => !crosses (withMarketPrice order) maker.price) Order.leaves reduce
      total (b.store.restingOrders order.side.opposite)
  trades : ∃ xs, b'.executed = b.executed ++ xs ∧
    (xs.map (·.quantity.toNat)).sum
      = ((Draw.drawn (fun maker => !crosses (withMarketPrice order) maker.price) Order.leaves total
          (b.store.restingOrders order.side.opposite)).map (·.2)).sum ∧
    worth order.side.opposite xs
      = Draw.cost (fun maker : Order => order.side.opposite.rank maker.price)
        (Draw.drawn (fun maker => !crosses (withMarketPrice order) maker.price) Order.leaves total
          (b.store.restingOrders order.side.opposite))

lemma Swept.nothing (h : Standing b) (hagrees : b.store.Agrees) : Swept order b 0 b where
  standing := h
  agrees := hagrees
  none_new _ hid := hid
  own := rfl
  opposite := by rw [Draw.left_zero]
  trades := ⟨[], by rw [List.append_nil], by rw [Draw.drawn_zero]; rfl, by
    rw [Draw.drawn_zero]
    rfl⟩

/-- Sweeping some and then some more. -/
lemma Swept.more {b' b'' : OrderBook} {m n : ℕ} (hagrees : b.store.Agrees)
    (h : Swept order b m b') (h' : Swept order b' n b'') : Swept order b (m + n) b'' where
  standing := h'.standing
  agrees := h'.agrees
  none_new id hid := h'.none_new id (h.none_new id hid)
  own := h'.own.trans h.own
  opposite := by
    have hle := fun maker (hmaker : maker ∈ b.store.restingOrders order.side.opposite) =>
      hagrees.filled_le (hagrees.mem_restingOrders.mp hmaker).1
    rw [h'.opposite, h.opposite]
    refine (Draw.left_add (fun maker q => by rw [reduce, Order.fill_price])
      (fun maker hmaker q hq => leaves_reduce (hle maker hmaker) hq)
      fun maker hmaker q q' hq => reduce_add (hle maker hmaker) hq).symm
  trades := by
    have hle := fun maker (hmaker : maker ∈ b.store.restingOrders order.side.opposite) =>
      hagrees.filled_le (hagrees.mem_restingOrders.mp hmaker).1
    obtain ⟨xs, hexecuted, hquantity, hworth⟩ := h.trades
    obtain ⟨ys, hexecuted', hquantity', hworth'⟩ := h'.trades
    rw [h.opposite] at hquantity' hworth'
    refine ⟨xs ++ ys, by rw [hexecuted', hexecuted, List.append_assoc], ?_, ?_⟩
    · rw [List.map_append, List.sum_append, hquantity, hquantity']
      exact (Draw.sum_drawn_add (fun maker q => by rw [reduce, Order.fill_price])
        fun maker hmaker q hq => leaves_reduce (hle maker hmaker) hq).symm
    · rw [worth, List.map_append, List.sum_append, ← worth, ← worth, hworth, hworth']
      exact (Draw.cost_drawn_add (fun maker q => by rw [reduce, Order.fill_price])
        (fun maker q => by rw [reduce, Order.fill_price])
        fun maker hmaker q hq => leaves_reduce (hle maker hmaker) hq).symm

/-- The step lemma: one slice. -/
theorem swept_slice (h : Standing b) (hagrees : b.store.Agrees) (hsweeps : Sweeps order)
    {x : OrderId × Quantity} (hquantity : x.2 ≠ 0) (hnew : b.store.orders[x.1]? = none) :
    Swept order b x.2.toNat (b.addOrder (slice order x)).2 := by
  have hslice := hsweeps.slice x
  have hpasses : Passes b (slice order x) := hslice.passes hquantity hnew
  have hpass := rejectReason_eq_none_iff.mpr hpasses
  have hstore : (b.addOrder (slice order x)).2.store
      = (b.matchOrder (withMarketPrice (slice order x))).book.store := by
    cases addOrder_cases b (slice order x) with
    | rejected _ hr => exact absurd hpasses (not_passes_of_rejected hr)
    | killed _ hkills =>
        have hfok := hkills.fok
        rw [hslice.not_fillOrKill] at hfok
        cases hfok
    | rested _ hkind => exact absurd hkind hslice.not_restable
    | passed _ _ _ _ _ hquiet => exact hquiet.store_eq
  have hleaves : (withMarketPrice (slice order x)).leaves = x.2.toNat := by
    rw [leaves_withMarketPrice, Order.leaves, show (slice order x).filledQty = 0 from hsweeps.fresh]
    rfl
  have hstop : (fun maker : Order => !crosses (withMarketPrice (slice order x)) maker.price)
      = fun maker => !crosses (withMarketPrice order) maker.price := by
    funext maker
    rw [crosses_slice]
  refine ⟨standing_calls.addOrder h hslice.valid, agrees_calls.addOrder hagrees trivial,
    fun id hid => ?_, ?_, ?_, ?_⟩
  · rw [hstore]
    exact matchOrder_orders_none b _ hid
  · have hown := restingOrders_matchOrder_own hagrees (withMarketPrice (slice order x))
    rw [withMarketPrice_side] at hown
    rw [hstore]
    exact hown
  · have hleft :=
      (matchOrder_reference h.toExact hagrees h.stp_off (withMarketPrice (slice order x))).2.2
    rw [withMarketPrice_side, unconsumed, hleaves, hstop] at hleft
    rw [hstore]
    exact hleft
  · obtain ⟨xs, hexecuted, hsum, hworth⟩ := executed_draws h hagrees (slice order x) hpass
    rw [referenceFills, hleaves, hstop] at hsum hworth
    exact ⟨xs, hexecuted, hsum, hworth⟩

/-- The slices, one after the other. -/
def slices (order : Order) (xs : List (OrderId × Quantity)) : List Op :=
  xs.map fun x => .add (slice order x)

/-- The run lemma. -/
theorem swept_slices (h : Standing b) (hagrees : b.store.Agrees) (hsweeps : Sweeps order)
    {xs : List (OrderId × Quantity)}
    (hxs : ∀ x ∈ xs, x.2 ≠ 0 ∧ b.store.orders[x.1]? = none) :
    Swept order b (xs.map (·.2.toNat)).sum (after b (slices order xs)) := by
  induction xs generalizing b with
  | nil => exact .nothing h hagrees
  | cons x xs ih =>
      obtain ⟨hquantity, hnew⟩ := hxs x List.mem_cons_self
      have hfirst := swept_slice h hagrees hsweeps hquantity hnew
      rw [List.map_cons, List.sum_cons]
      refine hfirst.more hagrees (ih hfirst.standing hfirst.agrees fun y hy => ?_)
      obtain ⟨hquantity', hnew'⟩ := hxs y (List.mem_cons_of_mem _ hy)
      exact ⟨hquantity', hfirst.none_new _ hnew'⟩

/-- What has been swept, whatever the slices. -/
lemma Swept.alike {b' b'' : OrderBook} {total : ℕ} (h : Swept order b total b')
    (h' : Swept order b total b'') : Store.Alike b'.store b''.store := by
  refine h.agrees.alike h'.agrees h.standing.toExact h'.standing.toExact fun side => ?_
  by_cases hside : order.side = side
  · rw [← hside, h'.own, h.own]
  · rw [← Side.opposite_eq_of_ne hside, h'.opposite, h.opposite]

section Runs

variable {symbol : Symbol} {config : OrderBookConfig} {onExecution onBbo : Bool}
  {clock : Stream' Timestamp} {ops : List Op}

/-- **Slicing an order makes no difference.**  From every book that a run leads to, with self-trade
prevention off, valid prices and replaces in place of unfilled orders only: an order that never
rests may be sent in any slices under ids that are not in use; any two ways that come to the same
quantity end with the same orders in the same queues, the same best prices and quantities, and have
traded the same quantity for the same money. -/
theorem sliced (hstp : config.enableSelfTradePrevention = false)
    (hops : Run.Admitted apply (fun b op => ValidPrices b op ∧ UnfilledInPlace b op)
      (new symbol config true onExecution onBbo clock) ops)
    {order : Order} (hsweeps : Sweeps order) {xs ys : List (OrderId × Quantity)}
    (hslices : ∀ x ∈ xs ++ ys, x.2 ≠ 0 ∧
      (after (new symbol config true onExecution onBbo clock) ops).store.orders[x.1]? = none)
    (htotal : (xs.map (·.2.toNat)).sum = (ys.map (·.2.toNat)).sum) :
    let b := after (new symbol config true onExecution onBbo clock) ops
    let one := after b (slices order xs)
    let other := after b (slices order ys)
    Store.Alike one.store other.store ∧
      ∃ us vs, one.executions = b.executions ++ us ∧ other.executions = b.executions ++ vs ∧
        (us.map (·.quantity.toNat)).sum = (vs.map (·.quantity.toNat)).sum ∧
        worth order.side.opposite us = worth order.side.opposite vs := by
  intro b one other
  have hstanding : Standing b := standing_after hstp (hops.mono fun _ _ h => h.1)
  have hagrees : b.store.Agrees := agrees_after (hops.mono fun _ _ h => h.2)
  have hannounced : Announced b := announced_after symbol config onExecution onBbo clock ops
  have hexecutions : ∀ ops, (after b ops).executions = (after b ops).executed := fun ops =>
    (announced_calls.run (Run.admitted_trivial b ops) hannounced).executions_eq_executed
  have hone : Swept order b (xs.map (·.2.toNat)).sum one :=
    swept_slices hstanding hagrees hsweeps fun x hx => hslices x (List.mem_append_left _ hx)
  have hother : Swept order b (xs.map (·.2.toNat)).sum other := by
    rw [htotal]
    exact swept_slices hstanding hagrees hsweeps fun x hx => hslices x (List.mem_append_right _ hx)
  obtain ⟨us, hus, husum, huworth⟩ := hone.trades
  obtain ⟨vs, hvs, hvsum, hvworth⟩ := hother.trades
  refine ⟨hone.alike hother, us, vs, ?_, ?_, by rw [husum, hvsum], by rw [huworth, hvworth]⟩
  · rw [hexecutions, hus, hannounced.executions_eq_executed]
  · rw [hexecutions, hvs, hannounced.executions_eq_executed]

end Runs

/-- A market order for 12 at once, and in three slices. -/
theorem sliced_sample :
    let b := after (new ⟨#v[84, 69, 83, 84, 0, 0, 0, 0]⟩ {} true true true fun n => n.toUInt64)
      [.add (limitOrder 1 .Sell 101 10), .add (limitOrder 2 .Sell 100 6)]
    let order := { limitOrder 3 .Buy 0 12 with type := .Market }
    let one := after b (slices order [(3, 12)])
    let other := after b (slices order [(3, 5), (4, 3), (5, 4)])
    Store.Alike one.store other.store ∧
      ∃ us vs, one.executions = b.executions ++ us ∧ other.executions = b.executions ++ vs ∧
        (us.map (·.quantity.toNat)).sum = (vs.map (·.quantity.toNat)).sum ∧
        worth order.side.opposite us = worth order.side.opposite vs := by
  have hsweeps : Sweeps { limitOrder 3 .Buy 0 12 with type := .Market } :=
    ⟨rfl, Or.inl rfl, rfl, fun hne => absurd rfl hne⟩
  refine sliced rfl (by decide +kernel) hsweeps (List.forall_iff_forall_mem.mp ?_) (by decide)
  -- one slice after the other: the ids are a finite type too, too large to run through
  decide +kernel

end OrderBook

end Exchange
