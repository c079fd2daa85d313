import Exchange.OrderBook.Guards
import Exchange.OrderBook.Walk

/-!
# Who is told of a fill

`emit_execution_report` is called by `add_order` only, and only with the order being added: every
report of a call names that order (`Feed.ReportsOnly`).  The orders it trades with hear nothing.

**`makers_informed_iff`** — the makers of each call of a run are told of their fills exactly if no
call has any, that is, if each order that gets past the checks finds nobody in line.
-/

namespace Exchange

open Std (ExtTreeMap)

namespace Feed

/-- From `f` to `f'` there are more events, and the reports among them name the order `id`. -/
def ReportsOnly (id : OrderId) (f f' : Feed) : Prop :=
  ∃ events, f'.events = f.events ++ events ∧
    ∀ r ∈ events.filterMap Event.execution?, r.orderId = id

variable {id : OrderId} {f f' f'' : Feed}

lemma ReportsOnly.refl (id : OrderId) (f : Feed) : ReportsOnly id f f := ⟨[], by simp, by simp⟩

lemma ReportsOnly.trans (h : ReportsOnly id f f') (h' : ReportsOnly id f' f'') :
    ReportsOnly id f f'' := by
  obtain ⟨events, heq, hid⟩ := h
  obtain ⟨events', heq', hid'⟩ := h'
  refine ⟨events ++ events', by rw [heq', heq, List.append_assoc], ?_⟩
  intro r hr
  rw [List.filterMap_append, List.mem_append] at hr
  exact hr.elim (hid r) (hid' r)

lemma Adds.reportsOnly (h : Adds (fun e => ∀ r, e.execution? = some r → r.orderId = id) f f') :
    ReportsOnly id f f' := by
  obtain ⟨events, heq, hall⟩ := h
  refine ⟨events, heq, fun r hr => ?_⟩
  obtain ⟨e, he, her⟩ := List.mem_filterMap.mp hr
  exact hall e he r her

variable (id f) (config : OrderBookConfig) (symbol : Symbol) (buy sell order : Order)
  (price : Price) (qty : Quantity) (aggressor : Side) (s : Store)

lemma reportsOnly_flushTrades : ReportsOnly id f f.flushTrades :=
  (adds_flushTrades f fun _ _ h => by cases h).reportsOnly

lemma reportsOnly_emitTrade :
    ReportsOnly id f (f.emitTrade config symbol buy sell price qty aggressor) :=
  (adds_emitTrade f _ _ _ _ _ _ _ fun _ _ h => by cases h).reportsOnly

lemma reportsOnly_maybeEmitBbo : ReportsOnly id f (f.maybeEmitBbo symbol s) :=
  (adds_maybeEmitBbo f _ _ fun _ h => by cases h).reportsOnly

lemma reportsOnly_emitExecutionReport (hid : order.id = id) :
    ReportsOnly id f (f.emitExecutionReport order qty price) := by
  refine (adds_emitExecutionReport f _ _ _ fun r hr r' h => ?_).reportsOnly
  cases h
  exact hr.trans hid

end Feed

namespace OrderBook

open MatchState

/-! ## Orders rest under their ids -/

/-- `orders_` maps ids to the orders of those ids. -/
def Keyed (s : Store) : Prop :=
  ∀ (id : OrderId) (o : Order), s.orders[id]? = some o → o.id = id

variable {b : OrderBook} {order : Order}

lemma Keyed.matchOrder (h : Keyed b.store) (order : Order) :
    Keyed (b.matchOrder order).book.store := by
  have hinv : MatchInvariant (fun m => Keyed m.book.store) fun _ m => Keyed m.book.store := by
    refine .of_uniform ?_ ?_ (fun _ h => h) ?_ ?_
    · intro m h i o ho
      exact h i o (by simpa [refreshBest] using ho)
    · intro p m level n rest h _ _ i o ho
      exact h i o (by simpa using ho)
    · intro p m level n rest resting h hfill i o ho
      rw [store_fillFront, getElem?_orders_fillStore] at ho
      split_ifs at ho with hi
      · cases ho
        rw [Order.fill_id, hi]
        exact h _ _ hfill.order_eq
      · exact h i o ho
    · intro p m level h _ _ i o ho
      exact h i o (by simpa using ho)
  exact hinv.matchOrder b order h

theorem keyed_calls : CallInvariant (fun _ _ => True) fun b => Keyed b.store where
  quiet h hquiet := by rw [hquiet.store_eq]; exact h
  matched h _ _ := h.matchOrder _
  rested {b order} h _ _ _ _ i o ho := by
    have ho := (Store.getElem?_orders_insertRestingOrder _ _ i).symm.trans ho
    split_ifs at ho with hi
    · cases ho
      exact hi.symm
    · exact h.matchOrder _ i o ho
  cancelled {b id order} h _ i o ho := by
    have ho := (Store.getElem?_orders_cancelOrder b.store id order i).symm.trans ho
    split_ifs at ho
    exact h i o ho
  inPlace {b _ id _ newQty existing level} h _ hin i o ho := by
    have ho : (amend b.store id existing level newQty).orders[i]? = some o := ho
    rw [amend, Store.getElem?_setOrder, Store.orders_setLevel] at ho
    split_ifs at ho with hi
    · cases ho
      rw [hi]
      exact h id existing hin.order_eq
    · exact h i o ho
  moved _ _ := trivial

/-! ## The reports of a call -/

/-- The fills of a call that leads from `b` to `b'`. -/
def fillsSince (b b' : OrderBook) : List Fill :=
  b'.history.executed.drop b.history.executed.length

/-- The execution reports of a call that leads from `b` to `b'`. -/
def reportsSince (b b' : OrderBook) : List ExecutionReport :=
  (b'.feed.events.drop b.feed.events.length).filterMap Event.execution?

/-- Every fill of the call is reported to its maker. -/
def InformsMakers (b : OrderBook) (op : Op) : Prop :=
  ∀ f ∈ fillsSince b (apply b op), ∃ r ∈ reportsSince b (apply b op),
    r.orderId = f.maker.id ∧ f.quantity ≤ r.lastQty

/-- The order that a call adds. -/
def Op.adds : Op → Option OrderId
  | .add order => some order.id
  | .replace _ id _ _ => some id
  | .cancel _ | .flush => none

/-- What a call reports to an order as a maker: reports that name an order the call does not add. -/
def reportedToMaker (id : OrderId) (b : OrderBook) (op : Op) : Nat :=
  if op.adds = some id then 0
  else (((reportsSince b (apply b op)).filter (·.orderId = id)).map (·.lastQty.toNat)).sum

/-- What a call trades with an order as a maker. -/
def tradedWithMaker (id : OrderId) (b : OrderBook) (op : Op) : Nat :=
  (((fillsSince b (apply b op)).filter (·.maker.id = id)).map (·.quantity.toNat)).sum

/-- An order that gets past the checks finds nobody in line, or wants nothing. -/
def TradesNothing (b : OrderBook) (order : Order) : Prop :=
  Passes b order → order.leaves = 0 ∨ b.contenders order = []

lemma fillsSince_append {b b' : OrderBook} {fills : List Fill}
    (h : b'.history.executed = b.history.executed ++ fills) : fillsSince b b' = fills := by
  rw [fillsSince, h, List.drop_left]

lemma fillsSince_eq_nil {b b' : OrderBook} (h : b'.history.executed = b.history.executed) :
    fillsSince b b' = [] :=
  fillsSince_append (by rw [h, List.append_nil])

lemma orderId_of_mem_reportsSince {id : OrderId} {b b' : OrderBook}
    (h : b.feed.ReportsOnly id b'.feed) {r : ExecutionReport} (hr : r ∈ reportsSince b b') :
    r.orderId = id := by
  obtain ⟨events, heq, hid⟩ := h
  rw [reportsSince, heq, List.drop_left] at hr
  exact hid r hr

lemma reportsOnly_matchOrder (b : OrderBook) (id : OrderId) (order : Order) :
    b.feed.ReportsOnly id (b.matchOrder order).book.feed := by
  refine feed_matchOrder (I := b.feed.ReportsOnly id) (fun f _ _ _ _ _ h => h.trans ?_) (.refl id _)
    order
  exact Feed.reportsOnly_emitTrade _ _ _ _ _ _ _ _ _

lemma reportsOnly_finish (b : OrderBook) {id : OrderId} {order : Order} (hid : order.id = id) :
    b.feed.ReportsOnly id (b.finish order).2.feed := by
  refine feed_finish (I := b.feed.ReportsOnly id) (fun f _ _ h => h.trans ?_)
    (fun f h => h.trans ?_) (.refl id _)
  · exact Feed.reportsOnly_emitExecutionReport _ _ _ _ _ hid
  · exact Feed.reportsOnly_flushTrades _ _

/-- **Every report of an add names the order added.** -/
theorem reportsOnly_addOrder (b : OrderBook) (order : Order) :
    b.feed.ReportsOnly order.id (b.addOrder order).2.feed := by
  have hid : (b.matchOrder (withMarketPrice order)).order.id = order.id := by
    rw [(matchOrder_sameTaker b _).id_eq, withMarketPrice_id]
  have hmatch := reportsOnly_matchOrder b order.id (withMarketPrice order)
  have hexit := addOrder_exit b order
  generalize b.addOrder order = added at hexit
  cases hexit with
  | refused => exact .refl _ _
  | wouldCross =>
      exact Feed.reportsOnly_emitExecutionReport _ _ _ _ _ (withMarketPrice_id order)
  | killed => exact hmatch
  | rested =>
      refine hmatch.trans (Feed.ReportsOnly.trans ?_ (reportsOnly_finish _ hid))
      exact Feed.reportsOnly_maybeEmitBbo _ _ _ _
  | dropped =>
      refine hmatch.trans (Feed.ReportsOnly.trans ?_ (reportsOnly_finish _ hid))
      exact Feed.reportsOnly_emitExecutionReport _ _ _ _ _ hid
  | finished => exact hmatch.trans (reportsOnly_finish _ hid)

/-- **Every report of a call names the order it adds.** -/
theorem adds_of_mem_reportsSince (b : OrderBook) (op : Op) {r : ExecutionReport}
    (hr : r ∈ reportsSince b (apply b op)) : op.adds = some r.orderId := by
  -- a call that adds nothing names, vacuously, any order
  have hsilent : (∀ id, b.feed.ReportsOnly id (apply b op).feed) → op.adds = some r.orderId := by
    intro h
    have heq := orderId_of_mem_reportsSince (h (r.orderId + 1)) hr
    exact absurd heq (by grind)
  cases op with
  | add order => rw [orderId_of_mem_reportsSince (reportsOnly_addOrder b order) hr, Op.adds]
  | cancel id =>
      refine hsilent fun i => ?_
      rw [apply]
      cases ho : b.store.orders[id]? with
      | none => rw [cancelOrder_of_none ho]; exact .refl _ _
      | some order => rw [cancelOrder_of_some ho]; exact Feed.reportsOnly_maybeEmitBbo _ _ _ _
  | flush => exact hsilent fun i => Feed.reportsOnly_flushTrades _ _
  | replace uninit id newPrice newQty =>
      cases ho : b.store.orders[id]? with
      | none =>
          refine hsilent fun i => ?_
          rw [apply, replaceOrder_of_none ho]
          exact .refl _ _
      | some existing =>
          rcases apply_replace b uninit id newPrice newQty ho with ⟨level, hin, heq⟩ | ⟨-, heq⟩
          · refine hsilent fun i => ?_
            rw [heq]
            exact Feed.reportsOnly_maybeEmitBbo _ _ _ _
          · rw [heq] at hr
            rw [orderId_of_mem_reportsSince (Feed.ReportsOnly.trans ?_
              (reportsOnly_addOrder _ (replacement existing id newPrice newQty))) hr]
            · rfl
            · rw [cancelOrder_of_some ho]
              exact Feed.reportsOnly_maybeEmitBbo _ _ _ _

/-! ## The fills of a call -/

/-- The fills of an add, and whom they are with: nobody of the id of the order added. -/
lemma fills_addOrder (hsound : b.store.Sound) (hkeyed : Keyed b.store) (order : Order) :
    ∃ fills, (b.addOrder order).2.history.executed = b.history.executed ++ fills ∧
      (fills = [] ↔ TradesNothing b order) ∧ ∀ f ∈ fills, f.maker.id ≠ order.id := by
  by_cases hpass : Passes b order
  · obtain ⟨-, fills, hexecuted, hdrawn⟩ := matchOrder_contenders hsound order
    refine ⟨fills, by rw [executed_addOrder hpass, hexecuted], ?_, fun f hf hid => ?_⟩
    · rw [← List.map_eq_nil_iff (f := taken), hdrawn, draws, Draw.drawn_open_eq_nil_iff]
      exact ⟨fun h _ => h, fun h => h hpass⟩
    · have hmem : taken f ∈ b.draws order := by
        rw [← hdrawn]
        exact List.mem_map_of_mem hf
      have hmaker : f.maker ∈ b.contenders order := Draw.mem_of_mem_drawn hmem
      obtain ⟨key, hkey⟩ := mem_contenders hmaker
      rw [← hkeyed _ _ hkey, hid, hpass.id_new] at hkey
      cases hkey
  · refine ⟨[], ?_, iff_of_true rfl fun h => absurd h hpass, by simp⟩
    rw [List.append_nil]
    cases addOrder_cases b order with
    | rejected _ _ _ hquiet => rw [hquiet.history_eq]
    | killed hr => exact absurd (rejectReason_eq_none_iff.mp hr) hpass
    | rested hr => exact absurd (rejectReason_eq_none_iff.mp hr) hpass
    | passed hr => exact absurd (rejectReason_eq_none_iff.mp hr) hpass

/-- The same for every call. -/
theorem fills_apply (hsound : b.store.Sound) (hkeyed : Keyed b.store) (op : Op) :
    (fillsSince b (apply b op) = [] ↔ Guarded TradesNothing (fun _ _ => True) b op) ∧
      ∀ f ∈ fillsSince b (apply b op), op.adds ≠ some f.maker.id := by
  have hquiet : (apply b op).history.executed = b.history.executed →
      Guarded TradesNothing (fun _ _ => True) b op →
      (fillsSince b (apply b op) = [] ↔ Guarded TradesNothing (fun _ _ => True) b op) ∧
        ∀ f ∈ fillsSince b (apply b op), op.adds ≠ some f.maker.id := by
    intro hexecuted hguarded
    have hnil := fillsSince_eq_nil hexecuted
    exact ⟨iff_of_true hnil hguarded, by simp [hnil]⟩
  cases op with
  | add order =>
      obtain ⟨fills, hfills, hnil, hother⟩ := fills_addOrder hsound hkeyed order
      rw [apply, fillsSince_append hfills]
      exact ⟨hnil, fun f hf heq => hother f hf (Option.some.inj heq).symm⟩
  | cancel id =>
      refine hquiet ?_ trivial
      cases cancelOrder_cases b id with
      | missing _ _ hsame => rw [apply, hsame]
      | cancelled _ _ hquiet => exact congrArg _ hquiet.history_eq
  | flush => exact hquiet rfl trivial
  | replace uninit id newPrice newQty =>
      cases ho : b.store.orders[id]? with
      | none =>
          refine hquiet (by rw [apply, replaceOrder_of_none ho]) fun existing h => ?_
          rw [ho] at h
          cases h
      | some existing =>
          rcases apply_replace b uninit id newPrice newQty ho with
            ⟨level, hin, heq⟩ | ⟨hmoved, heq⟩
          · refine hquiet (by rw [heq]; rfl) fun existing' ho' => ?_
            rw [ho] at ho'
            cases ho'
            rw [if_pos hin.replacesInPlace]
            trivial
          · obtain ⟨fills, hfills, hnil, hother⟩ :=
              fills_addOrder (sound_calls.cancelOrder hsound id) (keyed_calls.cancelOrder hkeyed id)
                (replacement existing id newPrice newQty)
            have hcancel : (b.cancelOrder id).2.history.executed = b.history.executed := by
              rw [cancelOrder_of_some ho]
              rfl
            rw [hcancel] at hfills
            rw [heq, fillsSince_append hfills, hnil]
            refine ⟨?_, fun f hf hid => hother f hf (Option.some.inj hid).symm⟩
            simp only [Guarded, ho, Option.some.injEq, forall_eq', if_neg hmoved]

/-- A call informs its makers exactly if it has none. -/
theorem informsMakers_iff (hsound : b.store.Sound) (hkeyed : Keyed b.store) (op : Op) :
    InformsMakers b op ↔ fillsSince b (apply b op) = [] := by
  constructor
  · intro hinforms
    refine List.eq_nil_iff_forall_not_mem.mpr fun f hf => ?_
    obtain ⟨r, hr, hid, -⟩ := hinforms f hf
    exact (fills_apply hsound hkeyed op).2 f hf (hid ▸ adds_of_mem_reportsSince b op hr)
  · intro hnil f hf
    rw [hnil] at hf
    cases hf

/-- No call reports anything to a maker. -/
lemma reportedToMaker_eq_zero (id : OrderId) (b : OrderBook) (op : Op) :
    reportedToMaker id b op = 0 := by
  rw [reportedToMaker]
  split_ifs with hadds
  · rfl
  · have hnone : (reportsSince b (apply b op)).filter (·.orderId = id) = [] := by
      refine List.filter_eq_nil_iff.mpr fun r hr hid => hadds ?_
      have hid : r.orderId = id := by simpa using hid
      rw [adds_of_mem_reportsSince b op hr, hid]
    rw [hnone]
    rfl

/-- **Makers learn of their fills exactly as long as there are none.**  In every run of calls with
an execution callback, every fill of every call is reported to its maker, and what is reported to
each order as a maker adds up to what was traded with it, if and only if each order that gets past
the checks, added or replaced to another price, finds nobody in line. -/
theorem makers_informed_iff (symbol : Symbol) (config : OrderBookConfig) (onTrade onBbo : Bool)
    (clock : Stream' Timestamp) (ops : List Op) :
    (Run.Admitted apply InformsMakers (new symbol config onTrade true onBbo clock) ops ∧
        ∀ id, Run.total apply (reportedToMaker id) (new symbol config onTrade true onBbo clock) ops
          = Run.total apply (tradedWithMaker id) (new symbol config onTrade true onBbo clock) ops) ↔
      Run.Admitted apply (Guarded TradesNothing fun _ _ => True)
        (new symbol config onTrade true onBbo clock) ops := by
  have hstep : ∀ (b : OrderBook) (op : Op), b.store.Sound ∧ Keyed b.store →
      (apply b op).store.Sound ∧ Keyed (apply b op).store :=
    fun _ _ h => ⟨sound_calls.step h.1 trivial, keyed_calls.step h.2 trivial⟩
  have hstart : (new symbol config onTrade true onBbo clock).store.Sound ∧
      Keyed (new symbol config onTrade true onBbo clock).store :=
    ⟨Store.Sound.empty, fun i o ho => by simp [new] at ho⟩
  have hiff : Run.Admitted apply InformsMakers (new symbol config onTrade true onBbo clock) ops ↔
      Run.Admitted apply (Guarded TradesNothing fun _ _ => True)
        (new symbol config onTrade true onBbo clock) ops :=
    Run.admitted_congr hstep
      (fun b op h => (informsMakers_iff h.1 h.2 op).trans (fills_apply h.1 h.2 op).1) hstart
  refine ⟨fun h => hiff.mp h.1, fun h => ⟨hiff.mpr h, fun id => ?_⟩⟩
  refine h.total_congr hstep (fun b op hb hop => ?_) hstart
  have hnil := (fills_apply hb.1 hb.2 op).1.mpr hop
  rw [reportedToMaker_eq_zero, tradedWithMaker, hnil]
  rfl

/-- A bid takes the only ask, and the one report there is names the bid. -/
theorem maker_not_informed :
    let b := after (makeBook {}) [.add (limitOrder 1 .Sell 100 10)]
    let op := Op.add (limitOrder 2 .Buy 100 10)
    ¬ InformsMakers b op ∧ reportedToMaker 1 b op = 0 ∧ tradedWithMaker 1 b op = 10 := by
  refine ⟨?_, by decide +kernel, by decide +kernel⟩
  rw [InformsMakers]
  decide +kernel

end OrderBook

end Exchange
