import Exchange.OrderBook.Reports
import Exchange.OrderBook.Taker

/-!
# What the post-only check refuses

The check reads the cached best price; a limit order in its place walks along the levels and the
orders in them.

* **`supply_pos_iff`** — somebody is in line just if the walk gets as far as the best price;
* `matchOrder_of_not_reaches` — where it does not, matching leaves everything as it is;
* **`post_only_exact`** — so a post-only order is refused just if a limit order would trade, and
  otherwise rests as the limit order would.
-/

namespace Exchange.OrderBook

open MatchState

variable {b : OrderBook} {order : Order}

/-- The same order with type `Limit`. -/
def asLimit (o : Order) : Order := { o with type := .Limit }

/-- `add_order` refuses the order for crossing, which leaves the book as it is. -/
structure RefusedForCrossing (b : OrderBook) (order : Order) : Prop where
  failed : (b.addOrder order).1.success = false
  reason_eq : (b.addOrder order).1.rejectReason = .WouldCross
  quiet : Quiet b (b.addOrder order).2

/-- `add_order` puts the whole order in the book and trades nothing. -/
structure RestsWhole (b : OrderBook) (order : Order) : Prop where
  success : (b.addOrder order).1.success = true
  order_eq : (b.addOrder order).2.store.orders[order.id]? = some order
  no_fill : fillsSince b (b.addOrder order).2 = []
  trades_eq : (b.addOrder order).2.feed.trades = b.feed.trades

/-- `s'` holds what `s` does, in the same queues, but for the type of one order. -/
structure SameAsLimit (order : Order) (s s' : Store) : Prop where
  levels_eq : ∀ side, s'.levels side = s.levels side
  best_eq : ∀ side, s'.best side = s.best side
  orders_eq : ∀ id, s'.orders[id]? = if id = order.id then some (asLimit order) else s.orders[id]?

/-! ## The best price and the line behind it -/

/-- Nobody is in line where the best price is out of reach. -/
lemma contenders_of_not_reaches (hb : b.store.Sound)
    (h : reaches (withMarketPrice order) (b.store.best order.side.opposite) = false) :
    b.contenders order = [] := by
  have hbest := hb.best_eq order.side.opposite
  rw [contenders]
  cases hqueue : b.store.queue order.side.opposite with
  | nil => rfl
  | cons x queue =>
      obtain ⟨p, n⟩ := x
      rw [hqueue] at hbest
      rw [show b.store.best order.side.opposite = p from hbest] at h
      simp only [lineUp, h, Bool.not_false, if_true]

/-- The first node in the queue belongs to an order that is there and has something left. -/
lemma contenders_of_reaches (hb : b.store.Sound) (hagrees : b.store.Agrees)
    (hstp : b.config.enableSelfTradePrevention = false)
    (h : reaches (withMarketPrice order) (b.store.best order.side.opposite) = true) :
    ∃ maker rest, b.contenders order = maker :: rest := by
  have hne : b.store.best order.side.opposite ≠ invalidPrice := by
    intro hinvalid
    simp [reaches, hinvalid] at h
  have hmem := (hb.bestLive order.side.opposite).resolve_right fun hnone => hne hnone.1
  obtain ⟨level, hl⟩ := KeyList.mem_iff_exists_getElem?.mp hmem
  obtain ⟨n, nodes, hnodes⟩ := List.exists_cons_of_ne_nil (hb.noEmpty _ _ _ hl)
  have hqueues : b.store.Queues order.side.opposite (b.store.best order.side.opposite) n :=
    ⟨level, hl, by rw [hnodes]; exact List.mem_cons_self⟩
  obtain ⟨maker, found, -⟩ := hagrees.node hqueues
  have hown : isOwn b.config (withMarketPrice order) maker = false := by
    rw [isOwn, hstp, Bool.false_and]
  rw [contenders, Store.queue_of_best hl rfl, hnodes]
  simp [lineUp, h, found, hown]

/-- **Somebody is in line just if the best price is within reach**, where whatever rests is open and
nothing is an order's own. -/
theorem supply_pos_iff (hb : b.store.Sound) (hagrees : b.store.Agrees)
    (hopen : AllOrders b.store fun o => o.isFilled = false)
    (hstp : b.config.enableSelfTradePrevention = false) :
    0 < b.supply order
      ↔ reaches (withMarketPrice order) (b.store.best order.side.opposite) = true := by
  constructor
  · intro hpos
    by_contra hreach
    rw [supply, contenders_of_not_reaches hb (Bool.eq_false_iff.mpr hreach)] at hpos
    exact Nat.lt_irrefl 0 hpos
  · intro hreach
    obtain ⟨maker, rest, hline⟩ := contenders_of_reaches hb hagrees hstp hreach
    have hmem : maker ∈ b.contenders order := by
      rw [hline]
      exact List.mem_cons_self
    obtain ⟨id, hid⟩ := mem_contenders hmem
    rw [supply, hline, List.map_cons, List.sum_cons]
    exact Nat.add_pos_left (Order.remaining_pos (hopen id maker hid)) _

/-- The post-only check asks the first thing that matching asks. -/
lemma reaches_best_iff (hb : b.store.Exact) (htype : order.type ≠ .Market) :
    reaches order (b.store.best order.side.opposite) = true
      ↔ postOnlyWouldCross b.store order = true := by
  have hzero : b.store.best order.side.opposite ≠ invalidPrice →
      b.store.best order.side.opposite ≠ 0 := fun hne =>
    (hb.valid _ _ (hb.mem_of_ne_invalid _ hne)).ne_zero
  have hcheck : postOnlyWouldCross b.store order = true
      ↔ b.store.best order.side.opposite ≠ invalidPrice ∧
        order.wouldCross (b.store.best order.side.opposite) = true := by
    cases hside : order.side with
    | Buy =>
        simp only [postOnlyWouldCross, Order.wouldCross, hside, decide_eq_true_eq]
        exact Iff.rfl
    | Sell =>
        simp only [postOnlyWouldCross, Order.wouldCross, hside, decide_eq_true_eq]
        exact Iff.rfl
  rw [hcheck]
  simp only [reaches, Bool.and_eq_true, Bool.or_eq_true, bne_iff_ne, beq_iff_eq, htype, false_or]
  constructor
  · rintro ⟨⟨hne, -⟩, hcross⟩
    exact ⟨hne, hcross⟩
  · rintro ⟨hne, hcross⟩
    exact ⟨⟨hne, hzero hne⟩, hcross⟩

/-- Where the best price is out of reach, matching leaves everything as it is. -/
lemma matchOrder_of_not_reaches {taker : Order}
    (h : reaches taker (b.store.best taker.side.opposite) = false) :
    b.matchOrder taker = { book := b, order := taker } := by
  have hexit : ¬ Running { book := b, order := taker } := by
    intro hrun
    have hreach : reaches taker (b.store.best taker.side.opposite) = true := by
      have hne := hrun.ne_invalid
      have hzero := hrun.ne_zero
      have hcross := hrun.crosses
      simp only [MatchState.opposite] at hne hzero hcross
      simp [reaches, hne, hzero, hcross]
    rw [h] at hreach
    cases hreach
  have hstep : matchStep { book := b, order := taker } = .done { book := b, order := taker } := by
    have hcase := matchStep_cases { book := b, order := taker }
    generalize matchStep { book := b, order := taker } = step at hcase
    cases hcase with
    | exit => rfl
    | stale hrun => exact absurd hrun hexit
    | sweep hrun => exact absurd hrun hexit
  exact Loop.run_succ_done hstep

/-! ## The two orders -/

lemma reaches_asLimit (htype : order.type ≠ .Market) (p : Price) :
    reaches (asLimit order) p = reaches order p := by
  rw [reaches, reaches, beq_eq_false_iff_ne.mpr htype]
  rfl

/-- A refusal for crossing is the post-only check's. -/
lemma refusedForCrossing_iff : RefusedForCrossing b order ↔ CrossesPostOnly b order := by
  rw [← rejectReason_eq_wouldCross_iff]
  have hexit := addOrder_exit b order
  constructor
  · rintro ⟨hfailed, hreason, -⟩
    generalize b.addOrder order = added at hexit hfailed hreason
    cases hexit with
    | refused _ _ hne => exact absurd hreason hne
    | wouldCross hr => exact hr
    | killed => cases hreason
    | rested => cases hfailed
    | dropped => cases hfailed
    | finished => cases hfailed
  · intro hr
    have heq : b.addOrder order = ({ rejectReason := .WouldCross, orderId := order.id },
        b.emitExecutionReport (withMarketPrice order) 0 0) := by
      simp only [addOrder, hr, if_true]
    refine ⟨?_, ?_, ?_⟩
    · rw [heq]
    · rw [heq]
    · rw [heq]
      exact Quiet.emitExecutionReport b _ 0 0

/-- A limit or post-only order at a valid price passes every check but, if it is post-only, one. -/
lemma passes_of_restable (hkind : Restable order) (hquantity : order.quantity ≠ 0)
    (hprice : ValidPrice order.price) (hnew : b.store.orders[order.id]? = none)
    (hclear : order.type = .PostOnly → postOnlyWouldCross b.store order = false) :
    Passes b order where
  quantity_ne := hquantity
  price_pos _ := hprice.1
  id_new := hnew
  post_only htype _ := by
    rw [hkind.withMarketPrice_eq]
    exact hclear htype
  displayed hfok := by
    rw [hkind.not_isFillOrKill] at hfok
    cases hfok

lemma leaves_pos_of_fresh (hfresh : Fresh order) (hquantity : order.quantity ≠ 0) :
    0 < order.leaves := by
  rw [Order.leaves, show order.filledQty = 0 from hfresh]
  exact Nat.pos_of_ne_zero fun h => hquantity (UInt32.toNat_inj.mp h)

/-- A fresh order that may rest trades just if somebody is in line. -/
lemma filledQty_pos_iff (hb : b.store.Sound) (hpass : Passes b order) (hkind : Restable order)
    (hfresh : Fresh order) : 0 < (b.addOrder order).1.filledQty ↔ 0 < b.supply order := by
  obtain ⟨hsuccess, hresult⟩ := addOrder_result hb order
  have hqty := hresult (hsuccess.mpr ⟨hpass, fun h => hkind.not_killsRemainder h.kind⟩)
  have hwants := leaves_pos_of_fresh hfresh hpass.quantity_ne
  rw [show order.filledQty = 0 from hfresh, UInt32.toNat_zero, Nat.zero_add, tradable] at hqty
  rw [UInt32.lt_iff_toNat_lt, hqty, UInt32.toNat_zero, Nat.lt_min]
  exact and_iff_right hwants

section Untouched

variable (hb : b.store.Sound) (hpass : Passes b order) (hkind : Restable order)
  (hfresh : Fresh order) (hreach : reaches order (b.store.best order.side.opposite) = false)

include hb hpass hkind hfresh hreach

/-- An order that may rest and meets nobody is put in the book as it is. -/
lemma addOrder_of_not_reaches :
    b.addOrder order = (b.insertRestingOrder order).finish order := by
  have hline : b.contenders order = [] :=
    contenders_of_not_reaches hb (by rw [hkind.withMarketPrice_eq, hreach])
  have hrests : Rests b order := by
    refine ⟨hpass, hkind, ?_⟩
    rw [supply, hline]
    exact leaves_pos_of_fresh hfresh hpass.quantity_ne
  rw [hrests.addOrder_eq hb, hkind.withMarketPrice_eq, matchOrder_of_not_reaches hreach]

lemma store_addOrder_of_not_reaches :
    (b.addOrder order).2.store = b.store.insertRestingOrder order := by
  rw [addOrder_of_not_reaches hb hpass hkind hfresh hreach, (Quiet.finish _ _).store_eq]
  rfl

/-- It trades nothing. -/
theorem restsWhole_of_not_reaches : RestsWhole b order := by
  have heq := addOrder_of_not_reaches hb hpass hkind hfresh hreach
  refine ⟨?_, ?_, fillsSince_eq_nil ?_, ?_⟩
  · rw [heq]
    rfl
  · rw [store_addOrder_of_not_reaches hb hpass hkind hfresh hreach,
      Store.getElem?_orders_insertRestingOrder, if_pos rfl]
  · rw [heq, (Quiet.finish _ _).history_eq, executed_insertRestingOrder]
  · rw [heq, (Quiet.finish _ _).trades_eq]
    exact Feed.trades_maybeEmitBbo _ _ _

end Untouched

/-- Inserting a limit order instead changes one order in the book. -/
lemma sameAsLimit_insertRestingOrder (s : Store) (order : Order) :
    SameAsLimit order (s.insertRestingOrder order) (s.insertRestingOrder (asLimit order)) where
  levels_eq side := by
    rw [Store.insertRestingOrder, Store.insertRestingOrder, Store.raiseBest_setOrder,
      Store.raiseBest_setOrder, Store.levels_setOrder, Store.levels_setOrder]
    rfl
  best_eq side := by
    rw [Store.insertRestingOrder, Store.insertRestingOrder, Store.raiseBest_setOrder,
      Store.raiseBest_setOrder, Store.best_setOrder, Store.best_setOrder]
    rfl
  orders_eq id := by
    rw [Store.getElem?_orders_insertRestingOrder, Store.getElem?_orders_insertRestingOrder]
    show (if id = order.id then _ else _) = _
    split_ifs <;> rfl

/-- One call. -/
theorem postOnly_iff (hb : Standing b) (hagrees : b.store.Agrees)
    (hopen : AllOrders b.store fun o => o.isFilled = false)
    (henabled : b.config.enablePostOnlyRejection = true) (hfresh : Fresh order)
    (htype : order.type = .PostOnly) (htif : order.tif = .Day ∨ order.tif = .GoodTillCancel)
    (hquantity : order.quantity ≠ 0) (hprice : ValidPrice order.price)
    (hnew : b.store.orders[order.id]? = none) :
    (RefusedForCrossing b order ↔ 0 < (b.addOrder (asLimit order)).1.filledQty) ∧
      (¬ 0 < (b.addOrder (asLimit order)).1.filledQty →
        RestsWhole b order ∧ SameAsLimit order (b.addOrder order).2.store
          (b.addOrder (asLimit order)).2.store) := by
  have hmarket : order.type ≠ .Market := by simp [htype]
  have hkind : Restable order := ⟨.inr htype, htif⟩
  have hlimit : Restable (asLimit order) := ⟨.inl rfl, htif⟩
  have hpassLimit : Passes b (asLimit order) :=
    passes_of_restable hlimit hquantity hprice hnew fun h => by cases h
  have hfilled : 0 < (b.addOrder (asLimit order)).1.filledQty
      ↔ postOnlyWouldCross b.store order = true := by
    rw [filledQty_pos_iff hb.toSound hpassLimit hlimit hfresh,
      supply_pos_iff hb.toSound hagrees hopen hb.stp_off, hlimit.withMarketPrice_eq,
      reaches_asLimit hmarket]
    exact reaches_best_iff hb.toExact hmarket
  rw [refusedForCrossing_iff, hfilled]
  refine ⟨⟨fun h => h.crosses, fun h => ⟨hquantity, hnew, htype, henabled, h⟩⟩, fun hclear => ?_⟩
  have hreach : reaches order (b.store.best order.side.opposite) = false := by
    rw [← Bool.not_eq_true, reaches_best_iff hb.toExact hmarket]
    exact hclear
  have hreachLimit : reaches (asLimit order) (b.store.best order.side.opposite) = false := by
    rw [reaches_asLimit hmarket, hreach]
  have hpass : Passes b order :=
    passes_of_restable hkind hquantity hprice hnew fun _ => by simpa using hclear
  refine ⟨restsWhole_of_not_reaches hb.toSound hpass hkind hfresh hreach, ?_⟩
  rw [store_addOrder_of_not_reaches hb.toSound hpass hkind hfresh hreach,
    store_addOrder_of_not_reaches hb.toSound hpassLimit hlimit hfresh hreachLimit]
  exact sameAsLimit_insertRestingOrder b.store order

section Runs

variable {symbol : Symbol} {config : OrderBookConfig} {onTrade onExecution onBbo : Bool}
  {clock : Stream' Timestamp} {ops : List Op}

/-- **A post-only order is refused just if it would take**, and otherwise rests as a limit order,
with self-trade prevention off, in every book that valid prices and replaces to another price lead
to. -/
theorem post_only_exact (henabled : config.enablePostOnlyRejection = true)
    (hstp : config.enableSelfTradePrevention = false)
    (hops : Run.Admitted apply (fun b op => ValidPrices b op ∧ MovesPrice b op)
      (new symbol config onTrade onExecution onBbo clock) ops)
    (hfresh : Fresh order) (htype : order.type = .PostOnly)
    (htif : order.tif = .Day ∨ order.tif = .GoodTillCancel) (hquantity : order.quantity ≠ 0)
    (hprice : ValidPrice order.price)
    (hnew : (after (new symbol config onTrade onExecution onBbo clock) ops).store.orders[order.id]?
      = none) :
    let b := after (new symbol config onTrade onExecution onBbo clock) ops
    (RefusedForCrossing b order ↔ 0 < (b.addOrder (asLimit order)).1.filledQty) ∧
      (¬ 0 < (b.addOrder (asLimit order)).1.filledQty →
        RestsWhole b order ∧ SameAsLimit order (b.addOrder order).2.store
          (b.addOrder (asLimit order)).2.store) := by
  intro b
  have hconfig : b.config = config :=
    (FeedInvariant.config_calls config).run (Run.admitted_trivial _ _) rfl
  refine postOnly_iff (standing_after hstp (hops.mono fun _ _ h => h.1))
    (agrees_after (hops.mono fun _ _ h => h.2.unfilledInPlace))
    (fun i o ho => ((open_after (hops.mono fun _ _ h => h.2)) i o ho).2) ?_ hfresh htype htif
    hquantity hprice hnew
  rw [hconfig, henabled]

end Runs

/-- With the ask at 100 filled and the one at 101 moved away, a post-only buy order is refused at 102
and rests at 101. -/
theorem post_only_exact_sample :
    let b := after (makeBook {})
      [.add (limitOrder 1 .Sell 100 10), .add (limitOrder 2 .Sell 102 10),
        .add (limitOrder 3 .Buy 102 15), .add (limitOrder 4 .Sell 101 10), .replace {} 4 103 10]
    RefusedForCrossing b { limitOrder 5 .Buy 102 20 with type := .PostOnly } ∧
      RestsWhole b { limitOrder 5 .Buy 101 20 with type := .PostOnly } := by
  refine ⟨(post_only_exact (by decide) (by decide) (by decide +kernel) (by decide) (by decide)
    (by decide) (by decide) (by decide) (by decide +kernel)).1.mpr (by decide +kernel), ?_⟩
  exact ((post_only_exact (by decide) (by decide) (by decide +kernel) (by decide) (by decide)
    (by decide) (by decide) (by decide) (by decide +kernel)).2 (by decide +kernel)).1

end Exchange.OrderBook
