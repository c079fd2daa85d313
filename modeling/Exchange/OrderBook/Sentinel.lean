import Exchange.OrderBook.BestPrice
import Exchange.OrderBook.Guards
import Exchange.OrderBook.Walk

/-!
# Prices that mean "no price"

`match_order` and the cached best prices take 0 and `INVALID_PRICE` for the absence of a level.
Nothing keeps a real level from having such a price: the price is checked at its lower end only, and
for limit orders only, while a post-only order rests too and a replace brings in whatever price it
is given.

**`no_sentinel_rests_iff`** — every price in the book is valid throughout a run exactly if each
order whose remainder is put in the book has a valid one.
-/

namespace Exchange.OrderBook

open MatchState

/-- No order rests, and no level stands, at a price that means "no price". -/
structure NoSentinel (b : OrderBook) : Prop where
  orders : ∀ (id : OrderId) (o : Order), b.store.orders[id]? = some o → ValidPrice o.price
  levels : ∀ (side : Side) (p : Price), p ∈ b.store.levels side → ValidPrice p

/-- An order that is put in the book has a valid price. -/
def RestsAtValidPrice (b : OrderBook) (order : Order) : Prop :=
  Rests b order → ValidPrice order.price

variable {b : OrderBook} {order : Order}

lemma NoSentinel.congr {b' : OrderBook} (h : NoSentinel b) (hstore : b'.store = b.store) :
    NoSentinel b' := by
  obtain ⟨horders, hlevels⟩ := h
  exact ⟨by rw [hstore]; exact horders, by rw [hstore]; exact hlevels⟩

lemma NoSentinel.matchOrder (h : NoSentinel b) (order : Order) :
    NoSentinel (b.matchOrder order).book where
  orders := AllOrders.matchOrder (P := fun o => ValidPrice o.price) h.orders
    (fun o q ho _ => by rw [Order.fill_price]; exact ho) order
  levels side p hp := h.levels side p (matchOrder_levels_subset b order side p hp)

lemma NoSentinel.insertRestingOrder (h : NoSentinel b) (hprice : ValidPrice order.price) :
    NoSentinel (b.insertRestingOrder order) where
  orders i o ho := by
    have ho : (b.store.insertRestingOrder order).orders[i]? = some o := ho
    rw [Store.getElem?_orders_insertRestingOrder] at ho
    split_ifs at ho
    · cases ho
      exact hprice
    · exact h.orders i o ho
  levels side p hp := by
    have hp : p ∈ (b.store.insertRestingOrder order).levels side := hp
    simp only [Store.insertRestingOrder, Store.levels_raiseBest, Store.levels_setOrder,
      Store.mem_setLevel] at hp
    rcases hp with ⟨-, rfl⟩ | hp
    · exact hprice
    · exact h.levels side p hp

lemma NoSentinel.cancelOrder (h : NoSentinel b) (id : OrderId) :
    NoSentinel (b.cancelOrder id).2 := by
  cases cancelOrder_cases b id with
  | missing _ _ hsame =>
      rw [hsame]
      exact h
  | @cancelled order _ _ hquiet =>
      refine NoSentinel.congr ⟨fun i o ho => ?_, fun side p hp => ?_⟩ hquiet.store_eq
      · have ho : (b.store.cancelOrder id order).orders[i]? = some o := ho
        rw [Store.getElem?_orders_cancelOrder] at ho
        split_ifs at ho
        exact h.orders i o ho
      · exact h.levels side p (Store.mem_cancelOrder hp)

lemma NoSentinel.amend (h : NoSentinel b) {id : OrderId} {newPrice : Price} {existing : Order}
    {level : PriceLevel} (hin : InPlace b.store id newPrice existing level) (newQty : Quantity) :
    NoSentinel { b with store := amend b.store id existing level newQty } where
  orders i o ho := by
    have ho : (OrderBook.amend b.store id existing level newQty).orders[i]? = some o := ho
    rw [OrderBook.amend, Store.getElem?_setOrder, Store.orders_setLevel] at ho
    split_ifs at ho
    · cases ho
      exact h.orders id existing hin.order_eq
    · exact h.orders i o ho
  levels side p hp := h.levels side p ((Store.mem_levels_amend hin).mp hp)

/-- A remainder rests at the price of its order. -/
lemma Rests.price_eq (h : Rests b order) :
    (b.matchOrder (withMarketPrice order)).order.price = order.price := by
  rw [(matchOrder_sameTaker b _).price_eq, h.kind.withMarketPrice_eq]

lemma NoSentinel.addOrder (h : NoSentinel b) (hb : b.store.Sound)
    (hok : RestsAtValidPrice b order) : NoSentinel (b.addOrder order).2 := by
  cases addOrder_cases b order with
  | rejected _ _ _ hquiet => exact h.congr hquiet.store_eq
  | killed _ _ _ _ hquiet => exact (h.matchOrder _).congr hquiet.store_eq
  | rested hr hkind hopen _ _ hquiet =>
      have hrests : Rests b order :=
        ⟨rejectReason_eq_none_iff.mp hr, hkind, (matchOrder_contenders hb order).1.mp hopen⟩
      refine ((h.matchOrder _).insertRestingOrder ?_).congr hquiet.store_eq
      rw [hrests.price_eq]
      exact hok hrests
  | passed _ _ _ _ _ hquiet => exact (h.matchOrder _).congr hquiet.store_eq

/-- The remainder is there afterwards, at its price. -/
lemma Rests.not_noSentinel (hrests : Rests b order) (hb : b.store.Sound)
    (hprice : ¬ ValidPrice order.price) : ¬ NoSentinel (b.addOrder order).2 := by
  intro h
  have hself : (b.addOrder order).2.store.orders[
      (b.matchOrder (withMarketPrice order)).order.id]?
        = some (b.matchOrder (withMarketPrice order)).order := by
    rw [hrests.addOrder_eq hb, (Quiet.finish _ _).store_eq]
    exact (Store.getElem?_orders_insertRestingOrder _ _ _).trans (if_pos rfl)
  have hvalid := h.orders _ _ hself
  rw [hrests.price_eq] at hvalid
  exact hprice hvalid

theorem noSentinel_guards : Guards (fun _ _ => True) RestsAtValidPrice (fun _ _ => True)
    (fun b => NoSentinel b ∧ b.store.Sound) NoSentinel where
  holds h := h.1
  add h _ hok := ⟨h.1.addOrder h.2 hok, sound_calls.addOrder h.2 trivial⟩
  add_breaks h _ hok := by
    obtain ⟨hrests, hprice⟩ := Classical.not_imp.mp hok
    exact hrests.not_noSentinel h.2 hprice
  cancel id h := ⟨h.1.cancelOrder id, sound_calls.cancelOrder h.2 id⟩
  flush h := ⟨h.1.congr rfl, h.2⟩
  inPlace h _ hin _ :=
    ⟨(h.1.amend hin _).congr (Quiet.maybeEmitBbo _).store_eq, h.2.amend hin _⟩
  inPlace_breaks _ _ _ hok := absurd trivial hok
  moved _ _ := trivial

/-- **Sentinel prices stay out of the book exactly as long as none is put in.**  In every run of
calls, all resting orders and all levels have valid prices after every call if and only if each
order whose remainder is put in the book, by an add or by a replace to another price, has one. -/
theorem no_sentinel_rests_iff (symbol : Symbol) (config : OrderBookConfig)
    (onTrade onExecution onBbo : Bool) (clock : Stream' Timestamp) (ops : List Op) :
    Run.Throughout apply NoSentinel (new symbol config onTrade onExecution onBbo clock) ops ↔
      Run.Admitted apply (Guarded RestsAtValidPrice fun _ _ => True)
        (new symbol config onTrade onExecution onBbo clock) ops := by
  refine noSentinel_guards.throughout_iff (Run.admitted_trivial _ _)
    ⟨⟨allOrders_new, fun side p hp => ?_⟩, Store.Sound.empty⟩
  cases side <;> simp [new, Store.levels] at hp

/-- A post-only bid rests at price 0, and becomes the best bid. -/
theorem sentinel_rests :
    ¬ NoSentinel (after (makeBook {}) [.add { limitOrder 1 .Buy 0 10 with type := .PostOnly }]) ∧
      (after (makeBook {})
        [.add { limitOrder 1 .Buy 0 10 with type := .PostOnly }]).store.bestBid = 0 := by
  refine ⟨fun h => ?_, by decide +kernel⟩
  have horder : (after (makeBook {}) [.add { limitOrder 1 .Buy 0 10 with
      type := .PostOnly }]).store.orders[(1 : OrderId)]?.map (·.price) = some 0 := by
    decide +kernel
  obtain ⟨o, ho, hprice⟩ := Option.map_eq_some_iff.mp horder
  have hvalid := h.orders _ _ ho
  rw [hprice] at hvalid
  exact hvalid.ne_zero rfl

end Exchange.OrderBook
