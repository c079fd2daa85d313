import Exchange.OrderBook.Guards
import Exchange.OrderBook.Walk
import Mathlib.Data.List.Induction

/-!
# Is the last quote announced still right?

`maybe_emit_bbo` announces the best bid and offer when they differ from the last ones announced.  It
is called after an insertion, a cancel and a replace in place, and not after matching: an order that
uses up the best level of the other side moves the best price, and unless something of the order
then rests nobody is told.

* `Current` — the prices of the last `BBOUpdate` delivered are the best prices;
* `quote_stage` — a quote has the best prices of a book that some call of the run passes;
* `takesBest` — an order would use up the best level of the other side, read off the book before it;
* **`quotes_current_iff`** — quotes are current throughout a run exactly if each order that would
  use up the best level leaves a remainder that rests.
-/

namespace Exchange

def Event.bbo? : Event → Option BBOUpdate
  | .bbo u => some u
  | _ => none

namespace Feed

/-- The prices of the last update delivered; those of an empty book if there was none. -/
def lastQuote (f : Feed) : Price × Price :=
  match (f.events.filterMap Event.bbo?).getLast? with
  | none => (invalidPrice, invalidPrice)
  | some u => (u.bidPrice, u.askPrice)

/-- Quotes are listened to, and the last one announced is remembered. -/
structure Quoting (f : Feed) : Prop where
  onBbo : f.onBbo = true
  last_eq : f.lastQuote = (f.lastBboBid, f.lastBboAsk)

/-- What is not a quote leaves the last quote as it is. -/
structure SameQuote (f f' : Feed) : Prop where
  onBbo_eq : f'.onBbo = f.onBbo
  bid_eq : f'.lastBboBid = f.lastBboBid
  ask_eq : f'.lastBboAsk = f.lastBboAsk
  last_eq : f'.lastQuote = f.lastQuote

lemma SameQuote.refl (f : Feed) : SameQuote f f := ⟨rfl, rfl, rfl, rfl⟩

lemma SameQuote.trans {f f' f'' : Feed} (h : SameQuote f f') (h' : SameQuote f' f'') :
    SameQuote f f'' :=
  ⟨h'.onBbo_eq.trans h.onBbo_eq, h'.bid_eq.trans h.bid_eq, h'.ask_eq.trans h.ask_eq,
    h'.last_eq.trans h.last_eq⟩

lemma SameQuote.quoting {f f' : Feed} (h : SameQuote f f') (hf : f.Quoting) : f'.Quoting :=
  ⟨h.onBbo_eq.trans hf.onBbo, by rw [h.last_eq, h.bid_eq, h.ask_eq, hf.last_eq]⟩

/-- Events that are not quotes. -/
lemma lastQuote_append {f f' : Feed} {events : List Event} (h : f'.events = f.events ++ events)
    (hnone : events.filterMap Event.bbo? = []) : f'.lastQuote = f.lastQuote := by
  simp only [lastQuote, h, List.filterMap_append, hnone, List.append_nil]

variable (f : Feed) (config : OrderBookConfig) (symbol : Symbol) (buy sell order : Order)
  (price : Price) (qty : Quantity) (aggressor : Side) (s : Store)

lemma sameQuote_flushTrades : SameQuote f f.flushTrades := by
  rw [flushTrades]
  split_ifs
  · exact .refl f
  · refine ⟨rfl, rfl, rfl, lastQuote_append rfl ?_⟩
    simp [Event.bbo?]

lemma sameQuote_emitTrade :
    SameQuote f (f.emitTrade config symbol buy sell price qty aggressor) := by
  simp only [emitTrade]
  split_ifs
  · exact .refl f
  · refine SameQuote.trans ?_ (sameQuote_flushTrades _)
    exact ⟨rfl, rfl, rfl, rfl⟩
  · exact ⟨rfl, rfl, rfl, rfl⟩
  · exact ⟨rfl, rfl, rfl, lastQuote_append rfl rfl⟩

lemma sameQuote_emitExecutionReport :
    SameQuote f (f.emitExecutionReport order qty price) := by
  simp only [emitExecutionReport]
  split_ifs
  · exact .refl f
  · exact ⟨rfl, rfl, rfl, lastQuote_append rfl rfl⟩

variable {f}

/-- After `maybe_emit_bbo` the best prices are the last ones announced. -/
theorem Quoting.maybeEmitBbo (h : f.Quoting) :
    (f.maybeEmitBbo symbol s).Quoting ∧
      (f.maybeEmitBbo symbol s).lastQuote = (s.bestBid, s.bestAsk) := by
  simp only [Feed.maybeEmitBbo, h.onBbo, Bool.not_true, Bool.false_eq_true, if_false]
  split_ifs with hchanged
  · have hlast : lastQuote { f with
        clock := f.clock.tail
        events := f.events ++ [.bbo
          { symbol := symbol
            bidPrice := s.bestBid
            bidQty := quantityAt s .Buy s.bestBid
            askPrice := s.bestAsk
            askQty := quantityAt s .Sell s.bestAsk
            timestamp := f.clock.head }]
        lastBboBid := s.bestBid
        lastBboAsk := s.bestAsk } = (s.bestBid, s.bestAsk) := by
      simp [lastQuote, Event.bbo?]
    exact ⟨⟨rfl, hlast⟩, hlast⟩
  · simp only [not_or, ne_eq, not_not] at hchanged
    exact ⟨h, by rw [h.last_eq, hchanged.1, hchanged.2]⟩

end Feed

namespace OrderBook

open MatchState

/-! ## Using up the best level -/

/-- The nodes of a level would all be gone after an order that wants `want`: none is left with a
part of its quantity, none is met after the order is filled, and none is of one of its own
orders. -/
def clears (config : OrderBookConfig) (taker : Order) (orders : Orders) (want : Nat) :
    List OrderNode → Bool
  | [] => true
  | n :: nodes =>
      want != 0 &&
        match orders[n.orderId]? with
        | none => clears config taker orders want nodes
        | some maker =>
            !isOwn config taker maker && (offer maker < want || n.quantity.toNat ≤ want) &&
              clears config taker (orders.erase n.orderId) (want - offer maker) nodes

/-- The order would use up the best level of the other side. -/
def takesBest (b : OrderBook) (order : Order) : Bool :=
  let taker := withMarketPrice order
  let bestOpposite := b.store.best order.side.opposite
  match (b.store.levels order.side.opposite)[bestOpposite]? with
  | none => false
  | some level =>
      reaches taker bestOpposite && clears b.config taker b.store.orders order.leaves level.nodes

variable {config : OrderBookConfig} {taker : Order} {orders : Orders} {p : Price}

section Clears

variable {n : OrderNode} {nodes : List OrderNode} {want : Nat}

lemma clears_of_want_eq_zero (h : want = 0) :
    clears config taker orders want (n :: nodes) = false := by
  simp only [clears, h, bne_self_eq_false, Bool.false_and]

lemma clears_of_gone (hwant : want ≠ 0) (gone : orders[n.orderId]? = none) :
    clears config taker orders want (n :: nodes) = clears config taker orders want nodes := by
  simp only [clears, bne_iff_ne.mpr hwant, gone, Bool.true_and]

lemma clears_of_own {maker : Order} (found : orders[n.orderId]? = some maker)
    (hown : isOwn config taker maker = true) :
    clears config taker orders want (n :: nodes) = false := by
  simp only [clears, found, hown, Bool.not_true, Bool.false_and, Bool.and_false]

lemma clears_of_found {maker : Order} (hwant : want ≠ 0) (found : orders[n.orderId]? = some maker)
    (hown : isOwn config taker maker = false) :
    clears config taker orders want (n :: nodes)
      = ((offer maker < want || n.quantity.toNat ≤ want) &&
        clears config taker (orders.erase n.orderId) (want - offer maker) nodes) := by
  simp only [clears, bne_iff_ne.mpr hwant, found, hown, Bool.not_false, Bool.true_and]

end Clears

lemma clears_fill (taker : Order) (q : Quantity) (orders : Orders) (want : Nat)
    (nodes : List OrderNode) :
    clears config (taker.fill q).2 orders want nodes = clears config taker orders want nodes := by
  induction nodes generalizing orders want with
  | nil => rfl
  | cons n nodes ih => simp only [clears, isOwn_fill, ih]

/-- **Where the walk of a level ends**: behind it, if the order clears it, and on it otherwise. -/
theorem walk_level (config : OrderBookConfig) (taker : Order) (orders : Orders)
    (hreach : reaches taker p = true) (nodes : List OrderNode) (behind : List (Price × OrderNode)) :
    if clears config taker orders taker.leaves nodes then
      ∃ taker' orders', (walk config taker orders (nodes.map (p, ·) ++ behind)).queue
        = (walk config taker' orders' behind).queue
    else ∃ n queue, (walk config taker orders (nodes.map (p, ·) ++ behind)).queue
      = (p, n) :: queue := by
  induction nodes generalizing taker orders with
  | nil => exact ⟨taker, orders, rfl⟩
  | cons n nodes ih =>
      rw [List.map_cons, List.cons_append]
      have hcase := walk_cases config taker orders p n (nodes.map (p, ·) ++ behind)
      generalize walk config taker orders ((p, n) :: (nodes.map (p, ·) ++ behind)) = outcome
        at hcase
      have hwant : taker.isFilled = false → taker.leaves ≠ 0 := fun hopen =>
        Nat.pos_iff_ne_zero.mp (Order.leaves_pos hopen)
      cases hcase with
      | completed hfilled =>
          rw [clears_of_want_eq_zero (Order.leaves_eq_zero_iff.mpr hfilled)]
          exact ⟨n, _, rfl⟩
      | outOfReach _ hout =>
          rw [hreach] at hout
          cases hout
      | gone hopen _ gone =>
          rw [clears_of_gone (hwant hopen) gone]
          exact ih taker orders hreach
      | own _ _ found hown =>
          rw [clears_of_own found hown]
          exact ⟨n, _, rfl⟩
      | @last maker hopen _ found hown hdone =>
          -- the order is filled here: the level is used up if this was all of it
          obtain ⟨hq, hleaves⟩ := leaves_fill_fillQuantity hopen maker
          have hzero := Order.leaves_eq_zero_iff.mpr hdone
          have hge : n.quantity ≤ fillQuantity taker maker ↔ n.quantity.toNat ≤ taker.leaves := by
            rw [UInt32.le_iff_toNat_le, hq]
            omega
          have hnone : taker.leaves - offer maker = 0 := by omega
          have hshort : ¬ offer maker < taker.leaves := by omega
          rw [clears_of_found (hwant hopen) found hown, hnone]
          simp only [hshort, decide_false, Bool.false_or, ge_iff_le, hge]
          by_cases hall : n.quantity.toNat ≤ taker.leaves
          · simp only [hall, decide_true, Bool.true_and, if_true]
            cases nodes with
            | nil => exact ⟨(taker.fill (fillQuantity taker maker)).2, orders,
                by rw [walk_of_isFilled hdone]; rfl⟩
            | cons k nodes =>
                rw [clears_of_want_eq_zero rfl]
                exact ⟨k, _, rfl⟩
          · simp only [hall, decide_false, Bool.false_and, Bool.false_eq_true, if_false]
            exact ⟨_, _, rfl⟩
      | @next maker hopen _ found hown hopen' =>
          obtain ⟨-, hleaves⟩ := leaves_fill_fillQuantity hopen maker
          have hpos := Order.leaves_pos hopen'
          have hlt : offer maker < taker.leaves := by omega
          have hmin : taker.leaves - min taker.leaves (offer maker)
              = taker.leaves - offer maker := by omega
          have hrest := ih (taker.fill (fillQuantity taker maker)).2
            (orders.erase n.orderId) (by rw [reaches_fill, hreach])
          rw [clears_fill, hleaves, hmin] at hrest
          rw [clears_of_found (hwant hopen) found hown]
          simpa only [hlt, decide_true, Bool.true_or, Bool.true_and, Outcome.after] using hrest

/-- The walk ends on nodes it began with. -/
lemma mem_walk_queue {queue : List (Price × OrderNode)} {x : Price × OrderNode}
    (hx : x ∈ (walk config taker orders queue).queue) : x.1 ∈ queue.map Prod.fst := by
  induction queue generalizing taker orders with
  | nil => cases hx
  | cons y queue ih =>
      obtain ⟨p, n⟩ := y
      have hstays : ∀ k : OrderNode, x ∈ (p, k) :: queue →
          x.1 ∈ ((p, n) :: queue).map Prod.fst := by
        intro k hk
        rw [List.map_cons, List.mem_cons]
        rcases List.mem_cons.mp hk with rfl | hk
        · exact Or.inl rfl
        · exact Or.inr (List.mem_map_of_mem hk)
      have hcase := walk_cases config taker orders p n queue
      generalize walk config taker orders ((p, n) :: queue) = outcome at hcase hx
      cases hcase with
      | completed => exact hstays n hx
      | outOfReach => exact hstays n hx
      | gone => exact List.mem_cons_of_mem _ (ih hx)
      | own => exact hstays n hx
      | last =>
          dsimp only at hx
          split_ifs at hx
          · exact hstays n (List.mem_cons_of_mem _ hx)
          · exact hstays _ hx
      | next => exact List.mem_cons_of_mem _ (ih hx)

variable {b : OrderBook} {order : Order}

lemma mem_behind {s : Store} {side : Side} {x : Price × OrderNode} (hx : x ∈ s.behind side) :
    x.1 ≠ s.best side := by
  obtain ⟨p, hp, hmem⟩ := List.mem_flatMap.mp hx
  rw [Store.mem_nodesAt hmem]
  simpa using (List.mem_filter.mp hp).2

/-- A walk of what is behind the best level does not end on the best price. -/
lemma walk_behind_ne {s : Store} {side : Side} {x : Price × OrderNode}
    (hx : x ∈ (walk config taker orders (s.behind side)).queue) : x.1 ≠ s.best side := by
  obtain ⟨y, hy, hyx⟩ := List.mem_map.mp (mem_walk_queue hx)
  rw [← hyx]
  exact mem_behind hy

/-- **The best price of the other side moves exactly when its level is used up.** -/
theorem best_matchOrder_iff (hb : b.store.Sound) (order : Order) :
    (b.matchOrder (withMarketPrice order)).book.store.best order.side.opposite
        = b.store.best order.side.opposite ↔ b.takesBest order = false := by
  have hsound := sound_invariant.matchOrder b (withMarketPrice order) hb
  have hqueue := (matchOrder_walk hb (withMarketPrice order)).2.2.1
  rw [withMarketPrice_side] at hqueue
  rw [hsound.best_eq, hqueue, prospect, withMarketPrice_side, takesBest]
  cases hl : (b.store.levels order.side.opposite)[b.store.best order.side.opposite]? with
  | none =>
      have hbest := hb.best_eq order.side.opposite
      rw [hb.queue_eq_nil hl] at hbest ⊢
      exact iff_of_true hbest.symm rfl
  | some level =>
      rw [Store.queue_of_best hl rfl]
      dsimp only
      cases hreach : reaches (withMarketPrice order) (b.store.best order.side.opposite) with
      | false =>
          obtain ⟨n, rest, hnodes⟩ := List.exists_cons_of_ne_nil (hb.noEmpty _ _ _ hl)
          rw [hnodes, List.map_cons, List.cons_append, walk_of_not_reaches hreach]
          exact iff_of_true rfl rfl
      | true =>
          have hlevel := walk_level b.config (withMarketPrice order) b.store.orders
            hreach level.nodes (b.store.behind order.side.opposite)
          rw [leaves_withMarketPrice] at hlevel
          rw [Bool.true_and]
          split_ifs at hlevel with hclears
          · rw [hclears]
            obtain ⟨taker', orders', hrest⟩ := hlevel
            refine iff_of_false (fun hsame => ?_) (by simp)
            rw [hrest] at hsame
            cases hwalk : (walk b.config taker' orders'
                (b.store.behind order.side.opposite)).queue with
            | nil =>
                rw [hwalk] at hsame
                have hinvalid : b.store.best order.side.opposite = invalidPrice := hsame.symm
                simp [reaches, hinvalid] at hreach
            | cons x queue =>
                rw [hwalk] at hsame
                exact walk_behind_ne (by rw [hwalk]; exact List.mem_cons_self) hsame
          · obtain ⟨n, queue, hfront⟩ := hlevel
            rw [hfront]
            exact iff_of_true rfl (by simpa using hclears)

/-- The best price of the order's own side does not move. -/
lemma best_matchOrder_own (b : OrderBook) (order : Order) :
    (b.matchOrder order).book.store.best order.side = b.store.best order.side := by
  have hinv : MatchInvariant
      (fun m => m.order.side = order.side ∧
        m.book.store.best order.side = b.store.best order.side)
      (fun _ m => m.order.side = order.side ∧
        m.book.store.best order.side = b.store.best order.side) := by
    refine .of_uniform ?_ (fun _ _ _ _ _ h _ _ => by simpa using h) (fun _ h => h) ?_ ?_
    · intro m h
      refine ⟨h.1, ?_⟩
      have hne : order.side ≠ m.opposite := by
        rw [opposite, h.1]
        exact (Side.opposite_ne _).symm
      rw [refreshBest, store_setStore, Store.best_updateBest_of_ne hne, h.2]
    · intro p m level n rest resting h _
      exact ⟨by rw [order_fillFront, Order.fill_side, h.1],
        by rw [store_fillFront, best_fillStore, h.2]⟩
    · intro p m level h _ _
      exact ⟨h.1, by rw [store_setStore, Store.best_eraseLevel, h.2]⟩
  exact (hinv.matchOrder b order ⟨rfl, rfl⟩).2

/-! ## What a quote says -/

/-- A quote has the best prices of the book, and what the book says of them. -/
structure QuoteOf (s : Store) (u : BBOUpdate) : Prop where
  bid_eq : u.bidPrice = s.bestBid
  bidQty_eq : u.bidQty = Feed.quantityAt s .Buy s.bestBid
  ask_eq : u.askPrice = s.bestAsk
  askQty_eq : u.askQty = Feed.quantityAt s .Sell s.bestAsk

/-- An event that is a quote is one of this book. -/
def Quotes (s : Store) (e : Event) : Prop := ∀ u, e.bbo? = some u → QuoteOf s u

lemma adds_maybeEmitBbo (b : OrderBook) : b.feed.Adds (Quotes b.store) b.maybeEmitBbo.feed := by
  refine Feed.adds_maybeEmitBbo _ _ _ fun u hu => ?_
  cases hu
  exact ⟨rfl, rfl, rfl, rfl⟩

lemma adds_matchOrder (b : OrderBook) (order : Order) (s : Store) :
    b.feed.Adds (Quotes s) (b.matchOrder order).book.feed := by
  refine feed_matchOrder (I := b.feed.Adds (Quotes s)) (fun f _ _ _ _ _ h => h.trans ?_)
    (.refl _ _) order
  exact Feed.adds_emitTrade _ _ _ _ _ _ _ _ fun _ _ hu => by cases hu

lemma adds_finish (b : OrderBook) (order : Order) (s : Store) :
    b.feed.Adds (Quotes s) (b.finish order).2.feed := by
  refine feed_finish (I := b.feed.Adds (Quotes s)) (fun f _ _ h => h.trans ?_)
    (fun f h => h.trans ?_) (.refl _ _)
  · exact Feed.adds_emitExecutionReport _ _ _ _ fun _ _ _ hu => by cases hu
  · exact Feed.adds_flushTrades _ fun _ _ hu => by cases hu

/-- An add quotes the book it leaves. -/
lemma adds_addOrder (b : OrderBook) (order : Order) :
    b.feed.Adds (Quotes (b.addOrder order).2.store) (b.addOrder order).2.feed := by
  have hreport : ∀ (f : Feed) (s : Store) (o : Order) (filled : Quantity) (avg : Price),
      f.Adds (Quotes s) (f.emitExecutionReport o filled avg) := fun f s o filled avg =>
    Feed.adds_emitExecutionReport _ _ _ _ fun _ _ _ hu => by cases hu
  have hmatch := adds_matchOrder b (withMarketPrice order)
  have hexit := addOrder_exit b order
  generalize b.addOrder order = added at hexit
  cases hexit with
  | refused => exact .refl _ _
  | wouldCross => exact hreport _ _ _ _ _
  | killed => exact hmatch _
  | rested =>
      rw [(Quiet.finish _ _).store_eq]
      refine (hmatch _).trans (Feed.Adds.trans ?_ (adds_finish _ _ _))
      exact adds_maybeEmitBbo { (b.matchOrder (withMarketPrice order)).book with
        store := (b.matchOrder (withMarketPrice order)).book.store.insertRestingOrder
          (b.matchOrder (withMarketPrice order)).order }
  | dropped =>
      refine (hmatch _).trans (Feed.Adds.trans ?_ (adds_finish _ _ _))
      exact hreport _ _ _ _ _
  | finished => exact (hmatch _).trans (adds_finish _ _ _)

lemma adds_cancelOrder (b : OrderBook) (id : OrderId) :
    b.feed.Adds (Quotes (b.cancelOrder id).2.store) (b.cancelOrder id).2.feed := by
  cases ho : b.store.orders[id]? with
  | none =>
      rw [cancelOrder_of_none ho]
      exact .refl _ _
  | some order =>
      rw [cancelOrder_of_some ho]
      exact adds_maybeEmitBbo { b with store := b.store.cancelOrder id order }

/-- The books that a call may quote: the one it leads to, and the one that a replace has when it has
cancelled. -/
inductive Stage (b : OrderBook) : Op → OrderBook → Prop
  | done (op : Op) : Stage b op (apply b op)
  | cancelled (uninit : OrderResult) (id : OrderId) (newPrice : Price) (newQty : Quantity) :
      Stage b (.replace uninit id newPrice newQty) (apply b (.cancel id))

/-- An event that is a quote is one of a book that the call passes. -/
def QuotesStage (b : OrderBook) (op : Op) (e : Event) : Prop :=
  ∀ u, e.bbo? = some u → ∃ b', Stage b op b' ∧ QuoteOf b'.store u

lemma Quotes.done (b : OrderBook) (op : Op) {e : Event} (h : Quotes (apply b op).store e) :
    QuotesStage b op e := fun u hu => ⟨_, .done op, h u hu⟩

lemma adds_replaceOrder (b : OrderBook) (uninit : OrderResult) (id : OrderId) (newPrice : Price)
    (newQty : Quantity) :
    b.feed.Adds (QuotesStage b (.replace uninit id newPrice newQty))
      (b.replaceOrder uninit id newPrice newQty).2.feed := by
  have hdone := fun e => Quotes.done (e := e) b (.replace uninit id newPrice newQty)
  rw [apply] at hdone
  rcases replace_ways b.store id newPrice with
    hmissing | ⟨existing, ho, hmoved⟩ | ⟨existing, level, hin⟩
  · rw [replaceOrder_of_none hmissing]
    exact .refl _ _
  · have hadd := adds_addOrder (b.cancelOrder id).2 (replacement existing id newPrice newQty)
    rw [replaceOrder_of_moved ho hmoved] at hdone ⊢
    refine ((adds_cancelOrder b id).mono fun e he u hu => ?_).trans (hadd.mono hdone)
    exact ⟨_, .cancelled uninit id newPrice newQty, he u hu⟩
  · rw [replaceOrder_of_inPlace hin] at hdone ⊢
    exact (adds_maybeEmitBbo { b with store := amend b.store id existing level newQty }).mono hdone

lemma adds_apply (b : OrderBook) (op : Op) : b.feed.Adds (QuotesStage b op) (apply b op).feed := by
  cases op with
  | add order => exact (adds_addOrder b order).mono fun _ => Quotes.done b (.add order)
  | cancel id => exact (adds_cancelOrder b id).mono fun _ => Quotes.done b (.cancel id)
  | replace uninit id newPrice newQty => exact adds_replaceOrder b uninit id newPrice newQty
  | flush => exact Feed.adds_flushTrades _ fun _ _ hu => by cases hu

/-- **Where the quotes of a run come from.** -/
theorem quote_stage (b : OrderBook) (ops : List Op) {u : BBOUpdate}
    (h : .bbo u ∈ (after b ops).feed.events) :
    .bbo u ∈ b.feed.events ∨ ∃ before op rest b', ops = before ++ op :: rest ∧
      Stage (after b before) op b' ∧ QuoteOf b'.store u := by
  induction ops using List.reverseRecOn with
  | nil => exact .inl h
  | append_singleton ops op ih =>
      obtain ⟨events, heq, hall⟩ := adds_apply (after b ops) op
      have hlast : after b (ops ++ [op]) = apply (after b ops) op := by
        rw [after, Run.run_append]
        rfl
      rw [hlast, heq, List.mem_append] at h
      rcases h with hold | hnew
      · refine (ih hold).imp_right ?_
        rintro ⟨before, op', rest, b', rfl, hstage⟩
        exact ⟨before, op', rest ++ [op], b', by simp, hstage⟩
      · obtain ⟨b', hstage⟩ := hall _ hnew u rfl
        exact .inr ⟨ops, op, [], b', rfl, hstage⟩

/-! ## Is the last one right? -/

/-- The last quote delivered has the best prices. -/
def Current (b : OrderBook) : Prop := b.feed.lastQuote = (b.store.bestBid, b.store.bestAsk)

/-- An order that gets past the checks leaves a remainder that rests, or does not use up the best
level of the other side. -/
def KeepsQuote (b : OrderBook) (order : Order) : Prop :=
  Passes b order → Rests b order ∨ b.takesBest order = false

lemma sameQuote_matchOrder (b : OrderBook) (order : Order) :
    b.feed.SameQuote (b.matchOrder order).book.feed := by
  refine feed_matchOrder (I := b.feed.SameQuote) (fun f _ _ _ _ _ h => h.trans ?_) (.refl _) order
  exact Feed.sameQuote_emitTrade _ _ _ _ _ _ _ _

lemma sameQuote_finish (b : OrderBook) (order : Order) :
    b.feed.SameQuote (b.finish order).2.feed := by
  refine feed_finish (I := b.feed.SameQuote) (fun f _ _ h => h.trans ?_) (fun f h => h.trans ?_)
    (.refl _)
  · exact Feed.sameQuote_emitExecutionReport _ _ _ _
  · exact Feed.sameQuote_flushTrades _

/-- Two books with the same quote and the same best prices. -/
lemma Current.congr_iff {b b' : OrderBook} (hquote : b.feed.SameQuote b'.feed) (side : Side)
    (hown : b'.store.best side = b.store.best side) (h : Current b) :
    Current b' ↔ b'.store.best side.opposite = b.store.best side.opposite := by
  rw [Current, hquote.last_eq, h]
  cases side
  · simp only [Store.best, Side.opposite] at hown ⊢
    rw [hown, Prod.mk.injEq]
    simp [eq_comm]
  · simp only [Store.best, Side.opposite] at hown ⊢
    rw [hown, Prod.mk.injEq]
    simp [eq_comm]

/-- What a run with a quote callback keeps, as long as quotes are current. -/
structure Quoted (b : OrderBook) : Prop where
  sound : b.store.Sound
  quoting : b.feed.Quoting
  current : Current b

lemma quoted_maybeEmitBbo (hsound : b.store.Sound) (hquoting : b.feed.Quoting) :
    Quoted b.maybeEmitBbo :=
  ⟨hsound, (hquoting.maybeEmitBbo b.symbol b.store).1, (hquoting.maybeEmitBbo b.symbol b.store).2⟩

/-- Every call announces what it remembers as announced. -/
lemma quoting_calls (config : OrderBookConfig) : FeedInvariant config Feed.Quoting where
  emitTrade _ _ _ _ _ _ _ h := (Feed.sameQuote_emitTrade _ _ _ _ _ _ _ _).quoting h
  emitExecutionReport _ _ _ _ h := (Feed.sameQuote_emitExecutionReport _ _ _ _).quoting h
  flushTrades _ h := (Feed.sameQuote_flushTrades _).quoting h
  maybeEmitBbo _ symbol s h := (h.maybeEmitBbo symbol s).1

/-- Where nothing is inserted, what matching did to the best price decides. -/
lemma Quoted.current_iff_of_matched {b b' : OrderBook} {order : Order} (h : Quoted b)
    (hstore : b'.store = (b.matchOrder (withMarketPrice order)).book.store)
    (hfeed : (b.matchOrder (withMarketPrice order)).book.feed.SameQuote b'.feed)
    (hpass : Passes b order) (hnot : ¬ Rests b order) : Current b' ↔ KeepsQuote b order := by
  have hquote := (sameQuote_matchOrder b (withMarketPrice order)).trans hfeed
  have hown := best_matchOrder_own b (withMarketPrice order)
  rw [withMarketPrice_side] at hown
  rw [Current.congr_iff hquote order.side (by rw [hstore, hown]) h.current, hstore,
    best_matchOrder_iff h.sound]
  exact ⟨fun hkeeps _ => Or.inr hkeeps, fun hkeeps => (hkeeps hpass).resolve_left hnot⟩

/-- An insertion is announced. -/
lemma Quoted.current_rested (h : Quoted b) (order : Order) :
    Current (((b.matchOrder order).book.insertRestingOrder (b.matchOrder order).order).finish
      (b.matchOrder order).order).2 := by
  have hquoted := quoted_maybeEmitBbo (b := { (b.matchOrder order).book with
      store := (b.matchOrder order).book.store.insertRestingOrder (b.matchOrder order).order })
    ((sound_invariant.matchOrder b _ h.sound).insertRestingOrder _)
    ((sameQuote_matchOrder b order).quoting h.quoting)
  have hfinish := sameQuote_finish ((b.matchOrder order).book.insertRestingOrder
    (b.matchOrder order).order) (b.matchOrder order).order
  rw [Current, (Quiet.finish _ _).store_eq, hfinish.last_eq]
  exact hquoted.current

/-- After an add quotes are current exactly if it keeps the quote. -/
theorem Quoted.addOrder_iff (h : Quoted b) (order : Order) :
    Current (b.addOrder order).2 ↔ KeepsQuote b order := by
  have hrefused : ∀ reason, b.rejectReason order = some reason → KeepsQuote b order :=
    fun _ hr hpass => absurd hpass (not_passes_of_rejected hr)
  have hopen_iff := (matchOrder_contenders h.sound order).1
  have hexit := addOrder_exit b order
  generalize b.addOrder order = added at hexit
  cases hexit with
  | refused reason hr _ => exact iff_of_true h.current (hrefused _ hr)
  | wouldCross hr =>
      have hquote := Feed.sameQuote_emitExecutionReport b.feed (withMarketPrice order) 0 0
      exact iff_of_true (hquote.last_eq.trans h.current) (hrefused _ hr)
  | killed hr hkills _ =>
      exact h.current_iff_of_matched rfl (.refl _) (rejectReason_eq_none_iff.mp hr)
        fun hrests => hrests.kind.not_killsRemainder hkills
  | rested hr hkind hopen =>
      have hrests : Rests b order := ⟨rejectReason_eq_none_iff.mp hr, hkind, hopen_iff.mp hopen⟩
      exact iff_of_true (h.current_rested _) fun _ => Or.inl hrests
  | dropped hr hioc _ =>
      refine h.current_iff_of_matched (Quiet.finish _ _).store_eq ?_
        (rejectReason_eq_none_iff.mp hr) ?_
      · refine Feed.SameQuote.trans ?_ (sameQuote_finish _ _)
        exact Feed.sameQuote_emitExecutionReport _ _ _ _
      · exact fun hrests => hrests.kind.not_immediate hioc
  | finished hr hgone _ =>
      exact h.current_iff_of_matched (Quiet.finish _ _).store_eq (sameQuote_finish _ _)
        (rejectReason_eq_none_iff.mp hr) fun hrests => hrests.not_gone h.sound hgone

theorem quoted_guards : Guards (fun _ _ => True) KeepsQuote (fun _ _ => True) Quoted Current where
  holds h := h.current
  add h _ hok :=
    ⟨sound_calls.addOrder h.sound trivial, (quoting_calls _).addOrder h.quoting _,
      (h.addOrder_iff _).mpr hok⟩
  add_breaks h _ hok hafter := hok ((h.addOrder_iff _).mp hafter)
  cancel {b} id h := by
    cases ho : b.store.orders[id]? with
    | none => rwa [cancelOrder_of_none ho]
    | some order =>
        rw [cancelOrder_of_some ho]
        exact quoted_maybeEmitBbo (h.sound.cancelOrder _ _) h.quoting
  flush h :=
    ⟨h.sound, (Feed.sameQuote_flushTrades _).quoting h.quoting,
      (Feed.sameQuote_flushTrades _).last_eq.trans h.current⟩
  inPlace h _ hin _ := quoted_maybeEmitBbo (h.sound.amend hin _) h.quoting
  inPlace_breaks _ _ _ hok := absurd trivial hok
  moved _ _ := trivial

/-- **Quotes are current exactly as long as no order uses up the best level and leaves nothing.**
In every run of calls with a quote callback, the last quote delivered has the best prices after
every call if and only if each order that gets past the checks, added or replaced to another price,
leaves a remainder that rests or does not use up the best level of the other side. -/
theorem quotes_current_iff (symbol : Symbol) (config : OrderBookConfig) (onTrade onExecution : Bool)
    (clock : Stream' Timestamp) (ops : List Op) :
    Run.Throughout apply Current (new symbol config onTrade onExecution true clock) ops ↔
      Run.Admitted apply (Guarded KeepsQuote fun _ _ => True)
        (new symbol config onTrade onExecution true clock) ops :=
  quoted_guards.throughout_iff (Run.admitted_trivial _ _)
    ⟨Store.Sound.empty, ⟨rfl, rfl⟩, rfl⟩

/-- A bid takes the only ask: the book is empty, and the last quote offers at 100. -/
theorem stale_quote :
    ¬ Current (after (makeBook {}) [.add (limitOrder 1 .Sell 100 10),
      .add (limitOrder 2 .Buy 100 10)]) := by
  rw [Current]
  decide +kernel

end OrderBook

end Exchange
