import Exchange.OrderBook.Reports
import Exchange.OrderBook.Taker

/-!
# What the order added is told

`add_order` reports to the order it was given from three places.  `told` is what it reports in all,
by what becomes of the order (`reports_addOrder`).

**`told_once_iff`** — the quantities reported add up to what was traded unless an order that may not
wait is left over after some of it was.

**`told_alive_iff`** — the status last reported says whether the order rests unless a post-only
order is refused for crossing, or what is left over of an order is dropped.
-/

namespace Exchange

/-- A report, apart from its number and time. -/
def ExecutionReport.content (r : ExecutionReport) : ExecutionReport :=
  { r with execId := 0, timestamp := 0 }

/-- What `emit_execution_report` says of an order. -/
def Order.report (o : Order) (filled : Quantity) (avgPrice : Price) : ExecutionReport where
  orderId := o.id
  execId := 0
  symbol := o.symbol
  side := o.side
  status := o.status
  price := o.price
  orderQty := o.quantity
  filledQty := filled
  leavesQty := o.quantity - filled
  avgPrice := avgPrice
  timestamp := 0
  lastPrice := avgPrice
  lastQty := filled

namespace Feed

/-- From `f` to `f'` there are more events, and the reports among them, if anybody listens, are
`rs`. -/
structure Emits (rs : List ExecutionReport) (f f' : Feed) : Prop where
  onExecution_eq : f'.onExecution = f.onExecution
  events_eq : ∃ events, f'.events = f.events ++ events ∧
    (events.filterMap Event.execution?).map ExecutionReport.content
      = if f.onExecution then rs else []

variable {rs rs' : List ExecutionReport} {f f' f'' : Feed}

/-- Events without a report. -/
lemma Emits.of_silent (hon : f'.onExecution = f.onExecution)
    (h : f.Adds (fun e => e.execution? = none) f') : Emits [] f f' := by
  obtain ⟨events, heq, hnone⟩ := h
  refine ⟨hon, events, heq, ?_⟩
  rw [List.filterMap_eq_nil_iff.mpr hnone, ite_self]
  rfl

lemma Emits.refl (f : Feed) : Emits [] f f := .of_silent rfl (.refl _ f)

lemma Emits.trans (h : Emits rs f f') (h' : Emits rs' f' f'') : Emits (rs ++ rs') f f'' := by
  obtain ⟨hon, events, heq, hrs⟩ := h
  obtain ⟨hon', events', heq', hrs'⟩ := h'
  refine ⟨hon'.trans hon, events ++ events', by rw [heq', heq, List.append_assoc], ?_⟩
  rw [List.filterMap_append, List.map_append, hrs, hrs', hon]
  split_ifs <;> rfl

variable (f) (config : OrderBookConfig) (symbol : Symbol) (buy sell order : Order)
  (price : Price) (qty : Quantity) (aggressor : Side) (s : Store)

lemma emits_flushTrades : Emits [] f f.flushTrades :=
  .of_silent (onExecution_flushTrades f) (adds_flushTrades f fun _ => rfl)

lemma emits_emitTrade : Emits [] f (f.emitTrade config symbol buy sell price qty aggressor) :=
  .of_silent (onExecution_emitTrade f config symbol buy sell price qty aggressor)
    (adds_emitTrade f config symbol buy sell price qty aggressor fun _ => rfl)

lemma emits_maybeEmitBbo : Emits [] f (f.maybeEmitBbo symbol s) :=
  .of_silent (onExecution_maybeEmitBbo f symbol s) (adds_maybeEmitBbo f symbol s rfl)

lemma emits_emitExecutionReport :
    Emits [order.report qty price] f (f.emitExecutionReport order qty price) := by
  rw [emitExecutionReport]
  cases h : f.onExecution with
  | false => exact ⟨rfl, [], (List.append_nil _).symm, by rw [h]; rfl⟩
  | true => exact ⟨h.symm, _, rfl, by rw [h]; rfl⟩

end Feed

namespace OrderBook

open MatchState

variable {b : OrderBook} {order : Order}

/-- The order as matching leaves it. -/
def matched (b : OrderBook) (order : Order) : Order := (b.matchOrder (withMarketPrice order)).order

/-- An order that may not wait for more. -/
def Immediate (o : Order) : Prop := o.tif = .ImmediateOrCancel ∨ o.type = .ImmediateOrCancel

instance (o : Order) : Decidable (Immediate o) := inferInstanceAs (Decidable (_ ∨ _))

/-- The report that `add_order` ends with. -/
def closing (o : Order) : List ExecutionReport :=
  if o.filledQty > 0 then [o.report o.filledQty (avgFillPrice o)] else []

/-- What an order is told after it has been matched. -/
def toldMatched (o : Order) : List ExecutionReport :=
  if o.isFilled then closing o
  else if Immediate o then o.report o.filledQty (avgFillPrice o) :: closing o
  else if isFillOrKill o then []
  else closing o

/-- What an order is told that is added. -/
def told (b : OrderBook) (order : Order) : List ExecutionReport :=
  match b.rejectReason order with
  | some .WouldCross => [(withMarketPrice order).report 0 0]
  | some _ => []
  | none => toldMatched (b.matched order)

/-! ## The reports of an add -/

lemma emits_matchOrder (b : OrderBook) (order : Order) :
    b.feed.Emits [] (b.matchOrder order).book.feed := by
  refine feed_matchOrder (I := b.feed.Emits []) (fun f _ _ _ _ _ h => ?_) (.refl _) order
  exact h.trans (Feed.emits_emitTrade _ _ _ _ _ _ _ _)

lemma emits_finish (b : OrderBook) (o : Order) :
    b.feed.Emits (closing o) (b.finish o).2.feed := by
  have hreport := Feed.emits_emitExecutionReport b.feed o (avgFillPrice o) o.filledQty
  rw [finish, closing]
  dsimp only
  split_ifs
  · exact hreport.trans (Feed.emits_flushTrades _)
  · exact hreport
  · exact Feed.emits_flushTrades _
  · exact .refl _

lemma emits_settle (b : OrderBook) (o : Order) :
    b.feed.Emits (toldMatched o) (b.settle o).2.feed := by
  have hreport := Feed.emits_emitExecutionReport b.feed o (avgFillPrice o) o.filledQty
  have hbbo := Feed.emits_maybeEmitBbo b.feed b.symbol (b.store.insertRestingOrder o)
  have hrest : b.feed.Emits (closing o) ((b.insertRestingOrder o).finish o).2.feed :=
    hbbo.trans (emits_finish (b.insertRestingOrder o) o)
  rw [settle, toldMatched]
  by_cases hfilled : o.isFilled = true
  · have hclosed := emits_finish b o
    simp only [hfilled, Bool.not_true, Bool.false_eq_true, if_true, if_false, false_and, ite_self]
    exact hclosed
  have hopen : o.isFilled = false := by simpa using hfilled
  simp only [hopen, Bool.not_false, Bool.false_eq_true, if_true, if_false, true_and]
  by_cases himmediate : o.tif = .ImmediateOrCancel ∨ o.type = .ImmediateOrCancel
  · rw [if_pos himmediate, if_pos (show Immediate o from himmediate)]
    exact hreport.trans (emits_finish (b.emitExecutionReport o o.filledQty (avgFillPrice o)) o)
  rw [if_neg himmediate, if_neg (show ¬ Immediate o from himmediate)]
  split_ifs
  · exact .refl _
  · exact hrest
  · exact hrest
  · exact emits_finish b o

/-- **What `add_order` reports.** -/
theorem reports_addOrder (b : OrderBook) (order : Order) :
    (reportsSince b (b.addOrder order).2).map ExecutionReport.content
      = if b.feed.onExecution then b.told order else [] := by
  have hemits : b.feed.Emits (b.told order) (b.addOrder order).2.feed := by
    rw [addOrder, told]
    cases b.rejectReason order with
    | some reason =>
        cases reason with
        | WouldCross => exact Feed.emits_emitExecutionReport _ _ _ _
        | _ => exact .refl _
    | none =>
        have hmatch := emits_matchOrder b (withMarketPrice order)
        exact hmatch.trans (emits_settle _ _)
  obtain ⟨-, events, heq, hrs⟩ := hemits
  rw [reportsSince, heq, List.drop_left, hrs]

/-- All of it names the order added. -/
lemma filter_reportsSince (b : OrderBook) (order : Order) :
    (reportsSince b (b.addOrder order).2).filter (·.orderId = order.id)
      = reportsSince b (b.addOrder order).2 := by
  refine List.filter_eq_self.mpr fun r hr => ?_
  rw [orderId_of_mem_reportsSince (reportsOnly_addOrder b order) hr]
  exact decide_eq_true rfl

lemma mem_closing {o : Order} {r : ExecutionReport} (hr : r ∈ closing o) :
    r = o.report o.filledQty (avgFillPrice o) := by
  rw [closing] at hr
  split_ifs at hr
  · exact List.mem_singleton.mp hr
  · exact absurd hr List.not_mem_nil

/-- Whatever is told of an order that was matched is the same. -/
lemma mem_toldMatched {o : Order} {r : ExecutionReport} (hr : r ∈ toldMatched o) :
    r = o.report o.filledQty (avgFillPrice o) := by
  rw [toldMatched] at hr
  split_ifs at hr
  · exact mem_closing hr
  · exact (List.mem_cons.mp hr).elim id mem_closing
  · exact absurd hr List.not_mem_nil
  · exact mem_closing hr

/-! ## The order as matching leaves it -/

lemma immediate_matched (b : OrderBook) (order : Order) :
    Immediate (b.matched order) ↔ Immediate order := by
  have htaker := matchOrder_sameTaker b (withMarketPrice order)
  rw [Immediate, matched, htaker.tif_eq, htaker.type_eq, withMarketPrice_tif, withMarketPrice_type]
  exact Iff.rfl

lemma isFillOrKill_matched (b : OrderBook) (order : Order) :
    isFillOrKill (b.matched order) = isFillOrKill order := by
  have htaker := matchOrder_sameTaker b (withMarketPrice order)
  rw [isFillOrKill, matched, htaker.tif_eq, htaker.type_eq, withMarketPrice_tif,
    withMarketPrice_type]
  rfl

lemma filledQty_matched (hb : b.store.Sound) (hfresh : Fresh order) :
    (b.matched order).filledQty.toNat = b.tradable order := by
  obtain ⟨fills, hexecuted, hfilled⟩ := filledQty_matchOrder b (withMarketPrice order)
  rw [withMarketPrice_filledQty, hfresh, sum_fills hb hexecuted] at hfilled
  exact hfilled.trans (Nat.zero_add _)

lemma matched_isFilled_iff (hb : b.store.Sound) :
    (b.matched order).isFilled = false ↔ b.supply order < order.leaves :=
  (matchOrder_contenders hb order).1

lemma fills_of_not_passes (h : ¬ Passes b order) : fillsSince b (b.addOrder order).2 = [] := by
  cases addOrder_cases b order with
  | rejected _ _ _ hquiet => exact fillsSince_eq_nil (congrArg _ hquiet.history_eq)
  | killed hr => exact absurd (rejectReason_eq_none_iff.mp hr) h
  | rested hr => exact absurd (rejectReason_eq_none_iff.mp hr) h
  | passed hr => exact absurd (rejectReason_eq_none_iff.mp hr) h

lemma sum_fillsSince (hb : b.store.Sound) (hpass : Passes b order) :
    ((fillsSince b (b.addOrder order).2).map (·.quantity.toNat)).sum = b.tradable order := by
  obtain ⟨-, fills, hexecuted, -⟩ := matchOrder_contenders hb order
  rw [fillsSince_append (by rw [executed_addOrder hpass, hexecuted]), sum_fills hb hexecuted]

/-- An add that fails says that nothing was filled. -/
lemma filledQty_of_failed (h : (b.addOrder order).1.success = false) :
    (b.addOrder order).1.filledQty = 0 := by
  have hexit := addOrder_exit b order
  generalize b.addOrder order = added at hexit h
  cases hexit with
  | refused => rfl
  | wouldCross => rfl
  | killed => rfl
  | rested => cases h
  | dropped => cases h
  | finished => cases h

/-- No run changes whether reports are listened to. -/
lemma onExecution_after (symbol : Symbol) (config : OrderBookConfig)
    (onTrade onExecution onBbo : Bool) (clock : Stream' Timestamp) (ops : List Op) :
    (after (new symbol config onTrade onExecution onBbo clock) ops).feed.onExecution
      = onExecution := by
  have hfeed : FeedInvariant config fun f => f.onExecution = onExecution := {
    emitTrade f symbol buy sell price qty aggressor h := by rw [Feed.onExecution_emitTrade, h]
    emitExecutionReport f order filled avg h := by rw [Feed.onExecution_emitExecutionReport, h]
    flushTrades f h := by rw [Feed.onExecution_flushTrades, h]
    maybeEmitBbo f symbol s h := by rw [Feed.onExecution_maybeEmitBbo, h] }
  exact FeedInvariant.run (b := new symbol config onTrade onExecution onBbo clock) hfeed rfl ops

/-! ## Quantities -/

/-- The reports of an add to the order added, its result and its trades agree on what was filled. -/
def FillsToldOnce (b : OrderBook) (order : Order) : Prop :=
  (((reportsSince b (b.addOrder order).2).filter (·.orderId = order.id)).map
      (·.lastQty.toNat)).sum = (b.addOrder order).1.filledQty.toNat ∧
    (b.addOrder order).1.filledQty.toNat
      = ((fillsSince b (b.addOrder order).2).map (·.quantity.toNat)).sum

instance (b : OrderBook) (order : Order) : Decidable (FillsToldOnce b order) :=
  inferInstanceAs (Decidable (_ ∧ _))

/-- An order that gets past the checks and may not wait is completed, or finds nothing. -/
def TakesNothingOrAll (b : OrderBook) (order : Order) : Prop :=
  Passes b order → Immediate order ∨ isFillOrKill order = true →
    order.leaves ≤ b.supply order ∨ b.supply order = 0

lemma sum_closing (o : Order) : ((closing o).map (·.lastQty.toNat)).sum = o.filledQty.toNat := by
  rw [closing]
  split_ifs with h
  · exact Nat.add_zero _
  · have hzero : o.filledQty.toNat = 0 :=
      Nat.eq_zero_of_not_pos fun hpos => h (UInt32.lt_iff_toNat_lt.mpr hpos)
    exact hzero.symm

/-- What is told in all of an order that was matched. -/
lemma sum_toldMatched (o : Order) :
    ((toldMatched o).map (·.lastQty.toNat)).sum
      = if o.isFilled then o.filledQty.toNat
        else if Immediate o then o.filledQty.toNat + o.filledQty.toNat
        else if isFillOrKill o then 0
        else o.filledQty.toNat := by
  rw [toldMatched]
  split_ifs
  · exact sum_closing o
  · rw [List.map_cons, List.sum_cons, sum_closing]
    rfl
  · rfl
  · exact sum_closing o

lemma sum_reports (h : b.feed.onExecution = true) (order : Order) :
    (((reportsSince b (b.addOrder order).2).filter (·.orderId = order.id)).map
      (·.lastQty.toNat)).sum = ((b.told order).map (·.lastQty.toNat)).sum := by
  have hreports := reports_addOrder b order
  rw [h, if_pos rfl] at hreports
  rw [filter_reportsSince, ← hreports, List.map_map]
  rfl

/-- An order that is refused is told of no fill. -/
lemma told_of_not_passes (h : ¬ Passes b order) :
    ((b.told order).map (·.lastQty.toNat)).sum = 0 := by
  rw [told]
  cases hr : b.rejectReason order with
  | none => exact absurd (rejectReason_eq_none_iff.mp hr) h
  | some reason => cases reason <;> rfl

lemma told_of_passes (h : Passes b order) : b.told order = toldMatched (b.matched order) := by
  rw [told, rejectReason_eq_none_iff.mpr h]

lemma isFilled_matched_iff (hb : b.store.Sound) :
    (b.matched order).isFilled = true ↔ order.leaves ≤ b.supply order := by
  rw [← Bool.not_eq_false, matched_isFilled_iff hb, Nat.not_lt]

/-- What reports, result and trades say of an order that gets past the checks. -/
lemma fillsToldOnce_iff_of_passes (hb : b.store.Sound) (hon : b.feed.onExecution = true)
    (hfresh : Fresh order) (hpass : Passes b order) :
    FillsToldOnce b order ↔
      (if order.leaves ≤ b.supply order then b.tradable order
        else if Immediate order then b.tradable order + b.tradable order
        else if isFillOrKill order then 0
        else b.tradable order) = (b.addOrder order).1.filledQty.toNat ∧
      (b.addOrder order).1.filledQty.toNat = b.tradable order := by
  rw [FillsToldOnce, sum_reports hon, told_of_passes hpass, sum_toldMatched,
    filledQty_matched hb hfresh, sum_fillsSince hb hpass]
  simp only [immediate_matched, isFillOrKill_matched, isFilled_matched_iff hb]

/-- One call. -/
theorem fillsToldOnce_iff (hb : b.store.Sound) (hon : b.feed.onExecution = true)
    (hfresh : Fresh order) : FillsToldOnce b order ↔ TakesNothingOrAll b order := by
  obtain ⟨hsuccess, hfilled⟩ := addOrder_result hb order
  by_cases hpass : Passes b order
  swap
  · have hfail : (b.addOrder order).1.success = false :=
      Bool.eq_false_iff.mpr fun h => hpass (hsuccess.mp h).1
    rw [FillsToldOnce, sum_reports hon, told_of_not_passes hpass, filledQty_of_failed hfail,
      fills_of_not_passes hpass]
    exact iff_of_true ⟨rfl, rfl⟩ fun h => absurd h hpass
  have hresult : ¬ Killed b order → (b.addOrder order).1.filledQty.toNat = b.tradable order := by
    intro hkilled
    rw [hfilled (hsuccess.mpr ⟨hpass, hkilled⟩), hfresh]
    exact Nat.zero_add _
  rw [fillsToldOnce_iff_of_passes hb hon hfresh hpass]
  by_cases hle : order.leaves ≤ b.supply order
  · rw [if_pos hle, hresult fun h => Nat.not_le_of_lt h.short hle]
    exact iff_of_true ⟨rfl, rfl⟩ fun _ _ => .inl hle
  have hshort := Nat.lt_of_not_le hle
  have htradable : b.tradable order = b.supply order := Nat.min_eq_right (Nat.le_of_lt hshort)
  rw [if_neg hle]
  by_cases himmediate : Immediate order
  · -- told twice
    rw [if_pos himmediate, hresult fun h => h.kind.not_immediate himmediate, htradable]
    constructor
    · rintro ⟨htwice, -⟩ _ _
      exact .inr (by omega)
    · intro h
      have hzero := (h hpass (.inl himmediate)).resolve_left hle
      exact ⟨by omega, rfl⟩
  rw [if_neg himmediate]
  by_cases hfok : isFillOrKill order = true
  · -- not told at all
    have hkilled : Killed b order :=
      ⟨hpass, ⟨hfok, fun h => himmediate (.inl h), fun h => himmediate (.inr h)⟩, hshort⟩
    have hfail : (b.addOrder order).1.success = false :=
      Bool.eq_false_iff.mpr fun h => (hsuccess.mp h).2 hkilled
    rw [if_pos hfok, filledQty_of_failed hfail, htradable]
    constructor
    · rintro ⟨-, hzero⟩ _ _
      exact .inr hzero.symm
    · intro h
      exact ⟨rfl, ((h hpass (.inr hfok)).resolve_left hle).symm⟩
  · rw [if_neg hfok, hresult fun h => hfok h.kind.fok]
    exact iff_of_true ⟨rfl, rfl⟩ fun _ h => absurd h (not_or.mpr ⟨himmediate, hfok⟩)

/-! ## The status -/

/-- `is_active` of an order with this status. -/
def Live (status : OrderStatus) : Prop := status = .New ∨ status = .PartiallyFilled

instance (status : OrderStatus) : Decidable (Live status) := inferInstanceAs (Decidable (_ ∨ _))

/-- The last report of an add to the order added tells whether it rests. -/
def LastTellsLive (b : OrderBook) (order : Order) : Prop :=
  ∀ r, ((reportsSince b (b.addOrder order).2).filter (·.orderId = order.id)).getLast? = some r →
    (Live r.status ↔ (b.addOrder order).2.store.orders[order.id]?.isSome = true)

instance (b : OrderBook) (order : Order) : Decidable (LastTellsLive b order) :=
  inferInstanceAs (Decidable (∀ r, _ = some r → (_ ↔ _)))

/-- What is left over of an order that gets past the checks rests, or is killed without a report, or
the order may wait and has found nothing. -/
def LeftoverTold (b : OrderBook) (order : Order) : Prop :=
  Passes b order → b.supply order < order.leaves →
    Restable order ∨ KillsRemainder order ∨ (¬ Immediate order ∧ b.supply order = 0)

/-- The order rests after the add just if what those in line left of it was put in the book. -/
lemma isSome_addOrder_iff (hb : b.store.Sound) (hnew : b.store.orders[order.id]? = none) :
    (b.addOrder order).2.store.orders[order.id]?.isSome = true ↔ Rests b order := by
  have hgone : (b.matchOrder (withMarketPrice order)).book.store.orders[order.id]? = none :=
    matchOrder_orders_none b _ hnew
  have hopen_iff := (matchOrder_contenders hb order).1
  cases addOrder_cases b order with
  | rejected _ hr _ hquiet =>
      rw [hquiet.store_eq, hnew]
      exact iff_of_false (by simp) fun h => not_passes_of_rejected hr h.passes
  | killed _ hkills _ _ hquiet =>
      rw [hquiet.store_eq, hgone]
      exact iff_of_false (by simp) fun h => h.kind.not_killsRemainder hkills
  | rested hr hkind hopen _ _ hquiet =>
      have hid := (matchOrder_sameTaker b (withMarketPrice order)).id_eq
      rw [withMarketPrice_id] at hid
      have hstore := Store.getElem?_orders_insertRestingOrder
        (b.matchOrder (withMarketPrice order)).book.store
        (b.matchOrder (withMarketPrice order)).order order.id
      rw [if_pos hid.symm] at hstore
      rw [hquiet.store_eq]
      change (Option.isSome (Store.insertRestingOrder _ _).orders[order.id]?) = true ↔ _
      rw [hstore]
      exact iff_of_true rfl ⟨rejectReason_eq_none_iff.mp hr, hkind, hopen_iff.mp hopen⟩
  | passed _ hrest _ _ _ hquiet =>
      rw [hquiet.store_eq, hgone]
      exact iff_of_false (by simp) fun h => h.not_gone hb hrest

lemma status_matched (hfresh : Fresh order) (hstatus : order.status = .New) :
    (b.matched order).status = statusOf (b.matched order) := by
  refine status_matchOrder b ?_
  rw [statusOf, withMarketPrice_filledQty, if_pos (show order.filledQty = 0 from hfresh), ← hstatus,
    withMarketPrice]
  split_ifs <;> rfl

lemma live_statusOf {o : Order} (hopen : o.isFilled = false) : Live (statusOf o) := by
  rw [statusOf, hopen, if_neg Bool.false_ne_true]
  by_cases hzero : o.filledQty = 0
  · exact .inl (if_pos hzero)
  · exact .inr (if_neg hzero)

lemma not_live_statusOf {o : Order} (hfilled : o.isFilled = true) (hzero : o.filledQty ≠ 0) :
    ¬ Live (statusOf o) := by
  rw [statusOf, if_neg hzero, if_pos hfilled]
  exact of_decide_eq_false rfl

lemma toldMatched_eq_nil_iff {o : Order} (hopen : o.isFilled = false) :
    toldMatched o = [] ↔ ¬ Immediate o ∧ (isFillOrKill o = true ∨ o.filledQty = 0) := by
  have hclosing : closing o = [] ↔ o.filledQty = 0 := by
    rw [closing, ite_eq_right_iff, gt_iff_lt, UInt32.pos_iff_ne_zero]
    exact ⟨fun h => by_contra fun hne => List.cons_ne_nil _ _ (h hne), fun h hne => absurd h hne⟩
  rw [toldMatched, hopen, if_neg Bool.false_ne_true]
  by_cases himmediate : Immediate o
  · rw [if_pos himmediate]
    exact iff_of_false (List.cons_ne_nil _ _) fun h => h.1 himmediate
  rw [if_neg himmediate]
  by_cases hfok : isFillOrKill o = true
  · rw [if_pos hfok]
    exact iff_of_true rfl ⟨himmediate, .inl hfok⟩
  · rw [if_neg hfok, hclosing]
    exact ⟨fun h => ⟨himmediate, .inr h⟩, fun h => h.2.resolve_left hfok⟩

/-- The reports are as `told` has them. -/
lemma lastTellsLive_iff (hon : b.feed.onExecution = true) :
    LastTellsLive b order ↔ ∀ r, (b.told order).getLast? = some r →
      (Live r.status ↔ (b.addOrder order).2.store.orders[order.id]?.isSome = true) := by
  have hreports := reports_addOrder b order
  rw [hon, if_pos rfl] at hreports
  rw [LastTellsLive, filter_reportsSince, ← hreports]
  simp only [List.getLast?_map, Option.map_eq_some_iff]
  constructor
  · rintro h _ ⟨r, hr, rfl⟩
    exact h r hr
  · intro h r hr
    exact h r.content ⟨r, hr, rfl⟩

/-- The refusal of a post-only order is reported of an order that is new. -/
lemma not_lastTellsLive_of_crosses (hb : b.store.Sound) (hon : b.feed.onExecution = true)
    (hstatus : order.status = .New) (hcross : CrossesPostOnly b order) :
    ¬ LastTellsLive b order := by
  have hreason := rejectReason_eq_wouldCross_iff.mpr hcross
  rw [lastTellsLive_iff hon, isSome_addOrder_iff hb hcross.id_new]
  intro h
  have hrests := (h _ (by rw [told, hreason]; rfl)).mp (.inl ?_)
  · exact not_passes_of_rejected hreason hrests.passes
  · rw [← hstatus, withMarketPrice]
    split_ifs <;> rfl

/-- Other refusals are not reported. -/
lemma told_eq_nil (hpass : ¬ Passes b order) (hcross : ¬ CrossesPostOnly b order) :
    b.told order = [] := by
  rw [told]
  cases hr : b.rejectReason order with
  | none => exact absurd (rejectReason_eq_none_iff.mp hr) hpass
  | some reason =>
      cases reason with
      | WouldCross => exact absurd (rejectReason_eq_wouldCross_iff.mp hr) hcross
      | _ => rfl

section Matched

variable (hb : b.store.Sound) (hon : b.feed.onExecution = true) (hfresh : Fresh order)
  (hstatus : order.status = .New) (hpass : Passes b order)

include hb hon hfresh hstatus hpass

/-- An order that is completed is reported as filled. -/
lemma lastTellsLive_of_completed (hle : order.leaves ≤ b.supply order) :
    LastTellsLive b order := by
  have hfilled := (isFilled_matched_iff hb).mpr hle
  rw [lastTellsLive_iff hon, isSome_addOrder_iff hb hpass.id_new, told_of_passes hpass]
  intro r hr
  have hmem := List.mem_of_getLast? hr
  have hzero : (b.matched order).filledQty ≠ 0 := by
    intro hzero
    rw [toldMatched, if_pos hfilled, closing, hzero] at hmem
    exact absurd hmem List.not_mem_nil
  rw [mem_toldMatched hmem]
  change Live (b.matched order).status ↔ _
  rw [status_matched hfresh hstatus]
  exact iff_of_false (not_live_statusOf hfilled hzero) fun h => Nat.not_lt_of_le hle h.short

/-- An order that is not is reported as open, if at all. -/
lemma lastTellsLive_iff_of_short (hshort : b.supply order < order.leaves) :
    LastTellsLive b order ↔ toldMatched (b.matched order) = [] ∨ Restable order := by
  have hrests : Rests b order ↔ Restable order := ⟨fun h => h.kind, fun h => ⟨hpass, h, hshort⟩⟩
  have hlive : ∀ r, (toldMatched (b.matched order)).getLast? = some r → Live r.status := by
    intro r hr
    rw [mem_toldMatched (List.mem_of_getLast? hr)]
    change Live (b.matched order).status
    rw [status_matched hfresh hstatus]
    exact live_statusOf ((matched_isFilled_iff hb).mpr hshort)
  rw [lastTellsLive_iff hon, isSome_addOrder_iff hb hpass.id_new, told_of_passes hpass, hrests]
  constructor
  · intro h
    cases hlast : (toldMatched (b.matched order)).getLast? with
    | none => exact .inl (List.getLast?_eq_none_iff.mp hlast)
    | some r => exact .inr ((h r hlast).mp (hlive r hlast))
  · rintro (hnil | hkind) r hr
    · rw [hnil] at hr
      exact absurd hr.symm (Option.some_ne_none _)
    · exact iff_of_true (hlive r hr) hkind

end Matched

/-- One call. -/
theorem lastTellsLive_iff_leftoverTold (hb : b.store.Sound) (hon : b.feed.onExecution = true)
    (hfresh : Fresh order) (hstatus : order.status = .New) :
    LastTellsLive b order ↔ ¬ CrossesPostOnly b order ∧ LeftoverTold b order := by
  by_cases hcross : CrossesPostOnly b order
  · exact iff_of_false (not_lastTellsLive_of_crosses hb hon hstatus hcross) fun h => h.1 hcross
  rw [and_iff_right hcross]
  by_cases hpass : Passes b order
  swap
  · rw [lastTellsLive_iff hon, told_eq_nil hpass hcross]
    exact iff_of_true (fun _ h => absurd h.symm (Option.some_ne_none _)) fun h => absurd h hpass
  by_cases hle : order.leaves ≤ b.supply order
  · exact iff_of_true (lastTellsLive_of_completed hb hon hfresh hstatus hpass hle)
      fun _ h => absurd h (Nat.not_lt_of_le hle)
  have hshort := Nat.lt_of_not_le hle
  have hsupply : (b.matched order).filledQty = 0 ↔ b.supply order = 0 := by
    rw [← UInt32.toNat_inj, filledQty_matched hb hfresh, tradable, Nat.min_eq_right hshort.le]
    rfl
  rw [lastTellsLive_iff_of_short hb hon hfresh hstatus hpass hshort,
    toldMatched_eq_nil_iff ((matched_isFilled_iff hb).mpr hshort), immediate_matched,
    isFillOrKill_matched, hsupply]
  constructor
  · rintro (⟨himmediate, hfok | hzero⟩ | hkind) _ _
    · exact .inr (.inl ⟨hfok, fun h => himmediate (.inl h), fun h => himmediate (.inr h)⟩)
    · exact .inr (.inr ⟨himmediate, hzero⟩)
    · exact .inl hkind
  · intro h
    rcases h hpass hshort with hkind | hkills | ⟨himmediate, hzero⟩
    · exact .inr hkind
    · exact .inl ⟨hkills.not_immediate, .inl hkills.fok⟩
    · exact .inl ⟨himmediate, .inr hzero⟩

section Reachable

variable (symbol : Symbol) (config : OrderBookConfig) (onTrade onBbo : Bool)
  (clock : Stream' Timestamp) (ops : List Op) (order : Order)

/-- **When an order is told once of what it was filled.** -/
theorem told_once_iff (hfresh : Fresh order) :
    FillsToldOnce (after (new symbol config onTrade true onBbo clock) ops) order ↔
      TakesNothingOrAll (after (new symbol config onTrade true onBbo clock) ops) order :=
  fillsToldOnce_iff (sound_after _ _ _ _ _ _ _) (onExecution_after _ _ _ _ _ _ _) hfresh

/-- An order that is completed is told once. -/
theorem told_once_of_completed :
    FillsToldOnce (after (makeBook {}) [.add (limitOrder 1 .Sell 100 30)])
      (limitOrder 2 .Buy 100 30) :=
  (told_once_iff _ _ _ _ _ [.add (limitOrder 1 .Sell 100 30)] (limitOrder 2 .Buy 100 30)
    (by decide)).mpr fun _ _ => .inl (by decide +kernel)

/-- An immediate-or-cancel order for 100 that gets 30 is told of 30 twice. -/
theorem remainder_told_twice :
    ¬ FillsToldOnce (after (makeBook {}) [.add (limitOrder 1 .Sell 100 30)])
      { limitOrder 2 .Buy 100 100 with tif := .ImmediateOrCancel } := by
  decide +kernel

/-- **When the last report tells whether the order rests.** -/
theorem told_alive_iff (hfresh : Fresh order) (hstatus : order.status = .New) :
    LastTellsLive (after (new symbol config onTrade true onBbo clock) ops) order ↔
      ¬ CrossesPostOnly (after (new symbol config onTrade true onBbo clock) ops) order ∧
        LeftoverTold (after (new symbol config onTrade true onBbo clock) ops) order :=
  lastTellsLive_iff_leftoverTold (sound_after _ _ _ _ _ _ _) (onExecution_after _ _ _ _ _ _ _)
    hfresh hstatus

/-- What is left of an order that rests is reported as open. -/
theorem told_alive_of_rested :
    LastTellsLive (after (makeBook {}) [.add (limitOrder 1 .Sell 100 30)])
      (limitOrder 2 .Buy 100 100) :=
  (told_alive_iff _ _ _ _ _ [.add (limitOrder 1 .Sell 100 30)] (limitOrder 2 .Buy 100 100)
    (by decide) (by decide)).mpr
      ⟨fun h => absurd h.type_eq (by decide), fun _ _ => .inl ⟨.inl rfl, .inl rfl⟩⟩

/-- An immediate-or-cancel order of which 70 are cancelled is last reported as partially filled. -/
theorem dropped_told_alive :
    ¬ LastTellsLive (after (makeBook {}) [.add (limitOrder 1 .Sell 100 30)])
      { limitOrder 2 .Buy 100 100 with tif := .ImmediateOrCancel } := by
  decide +kernel

end Reachable

end OrderBook

end Exchange
