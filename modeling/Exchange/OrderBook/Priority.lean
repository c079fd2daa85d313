import Exchange.OrderBook.Agreement
import Exchange.OrderBook.BestPrice
import Exchange.OrderBook.Trades

/-!
# Price-time priority over whole runs

Every fill is recorded in the ghost history with the orders that were resting just before it and
with the time each had last entered the book.  `Fill.RespectsPriority` says that no resting order of
the maker's side had a better price, or the same price and an earlier time.

**`priority_respected`** — every fill of every run with valid prices respects priority.  The two
halves come from two invariants: the price half from the cached best prices being exact, the time
half from the queues being in arrival order (`InArrivalOrder`).  An order that is replaced enters
the book again, so it goes to the back in both senses at once.
-/

namespace Exchange

/-- No order resting on the maker's side had a better claim to the fill. -/
def Fill.RespectsPriority (f : Fill) : Prop :=
  f.resting[f.maker.id]? = some f.maker ∧
    ∀ (id : OrderId) (a : Order), f.resting[id]? = some a → a.side = f.maker.side →
      a.hasPricePriorityOver f.maker = false ∧
        (a.price = f.maker.price → ¬ f.entered id < f.entered f.maker.id)

theorem Order.hasPricePriorityOver_eq_false_iff {a o : Order} (h : a.side = o.side) :
    a.hasPricePriorityOver o = false ↔ o.side.rank o.price ≤ o.side.rank a.price := by
  rw [Order.hasPricePriorityOver]
  rw [h]
  cases o.side <;> simp [Side.rank, Int64.le_iff_toInt_le]

namespace OrderBook

open MatchState

/-! ## Queues in arrival order -/

/-- The orders of a queue entered the book in the order they are queued. -/
structure InArrivalOrder (b : OrderBook) : Prop where
  sorted : ∀ (side : Side) (p : Price) (level : PriceLevel),
    (b.store.levels side)[p]? = some level →
    (level.nodes.map (·.orderId)).Pairwise fun i j => b.history.entered i < b.history.entered j
  entered_lt : ∀ (id : OrderId) (o : Order), b.store.orders[id]? = some o →
    b.history.entered id < b.history.insertions

/-- Taking orders out of the book keeps the others in order. -/
lemma InArrivalOrder.of_sublist {b b' : OrderBook} (h : InArrivalOrder b)
    (hentered : b'.history.entered = b.history.entered)
    (hinsertions : b'.history.insertions = b.history.insertions)
    (hlevels : ∀ (side : Side) (p : Price) (level' : PriceLevel),
      (b'.store.levels side)[p]? = some level' →
      ∃ level, (b.store.levels side)[p]? = some level ∧
        (level'.nodes.map (·.orderId)).Sublist (level.nodes.map (·.orderId)))
    (horders : ∀ (id : OrderId) (o' : Order), b'.store.orders[id]? = some o' →
      ∃ o, b.store.orders[id]? = some o) : InArrivalOrder b' where
  sorted side p level' hl' := by
    obtain ⟨level, hl, hsub⟩ := hlevels side p level' hl'
    rw [hentered]
    exact (h.sorted side p level hl).sublist hsub
  entered_lt id o' ho' := by
    obtain ⟨o, ho⟩ := horders id o' ho'
    rw [hentered, hinsertions]
    exact h.entered_lt id o ho

lemma InArrivalOrder.quiet {b b' : OrderBook} (h : InArrivalOrder b) (hquiet : Quiet b b') :
    InArrivalOrder b' :=
  h.of_sublist (by rw [hquiet.history_eq]) (by rw [hquiet.history_eq])
    (fun side p level hl => ⟨level, by rw [← hl, hquiet.store_eq], List.Sublist.refl _⟩)
    fun id o ho => ⟨o, by rw [← ho, hquiet.store_eq]⟩

/-- What is queued entered before the next insertion, and is not an order that is new. -/
lemma InArrivalOrder.entered_lt_of_queued {b : OrderBook} (h : InArrivalOrder b)
    (hagrees : b.store.Agrees) {id : OrderId} (hnew : b.store.orders[id]? = none) {side : Side}
    {p : Price} {level : PriceLevel} (hl : (b.store.levels side)[p]? = some level) {i : OrderId}
    (hi : i ∈ level.nodes.map (·.orderId)) :
    i ≠ id ∧ b.history.entered i < b.history.insertions := by
  obtain ⟨n, hn, rfl⟩ := List.mem_map.mp hi
  obtain ⟨o, ho, -⟩ := hagrees.node ⟨level, hl, hn⟩
  refine ⟨fun hid => ?_, h.entered_lt _ _ ho⟩
  rw [hid, hnew] at ho
  cases ho

/-- The queues there are stay in order when a new order enters. -/
lemma InArrivalOrder.sorted_insertRestingOrder {b : OrderBook} (h : InArrivalOrder b)
    (hagrees : b.store.Agrees) {order : Order} (hnew : b.store.orders[order.id]? = none)
    {side : Side} {p : Price} {level : PriceLevel}
    (hl : (b.store.levels side)[p]? = some level) :
    (level.nodes.map (·.orderId)).Pairwise fun i j =>
      (b.insertRestingOrder order).history.entered i
        < (b.insertRestingOrder order).history.entered j := by
  refine (h.sorted side p level hl).imp_of_mem fun {i j} hi hj hlt => ?_
  show (if i = order.id then _ else b.history.entered i)
    < if j = order.id then _ else b.history.entered j
  rwa [if_neg (h.entered_lt_of_queued hagrees hnew hl hi).1,
    if_neg (h.entered_lt_of_queued hagrees hnew hl hj).1]

/-- A new order goes to the back. -/
theorem InArrivalOrder.insertRestingOrder {b : OrderBook} (h : InArrivalOrder b)
    (hagrees : b.store.Agrees) {order : Order} (hnew : b.store.orders[order.id]? = none) :
    InArrivalOrder (b.insertRestingOrder order) := by
  constructor
  · intro side p level hl
    have hl : ((b.store.insertRestingOrder order).levels side)[p]? = some level := hl
    rw [Store.getElem?_insertRestingOrder] at hl
    split_ifs at hl with hat
    · cases hl
      rw [PriceLevel.nodes_addOrder, List.map_append, List.pairwise_append]
      rcases b.store.targetLevel_mem_or order with htarget | ⟨-, htarget⟩
      · refine ⟨h.sorted_insertRestingOrder hagrees hnew htarget, List.pairwise_singleton _ _,
          fun i hi j hj => ?_⟩
        obtain ⟨hne, hlt⟩ := h.entered_lt_of_queued hagrees hnew htarget hi
        rw [List.map_cons, List.map_nil, List.mem_singleton] at hj
        show (if i = order.id then _ else b.history.entered i)
          < if j = order.id then b.history.insertions else b.history.entered j
        rwa [if_neg hne, if_pos hj]
      · rw [htarget]
        simp
    · exact h.sorted_insertRestingOrder hagrees hnew hl
  · intro id o ho
    have ho : (b.store.insertRestingOrder order).orders[id]? = some o := ho
    rw [Store.getElem?_orders_insertRestingOrder] at ho
    show (if id = order.id then b.history.insertions else b.history.entered id)
      < b.history.insertions + 1
    split_ifs at ho ⊢ with hid
    · omega
    · have := h.entered_lt id o ho
      omega

theorem InArrivalOrder.cancelOrder {b : OrderBook} (h : InArrivalOrder b) (id : OrderId)
    (order : Order) : InArrivalOrder { b with store := b.store.cancelOrder id order } := by
  refine h.of_sublist rfl rfl (fun side p level' hl' => ?_) fun i o' ho' => ?_
  · rw [Store.levels_cancelOrder, Store.getElem?_removeOrderFromLevel] at hl'
    split_ifs at hl' with hat
    · obtain ⟨level, hl, hl'⟩ := Option.bind_eq_some_iff.mp hl'
      split_ifs at hl'
      cases hl'
      rw [hat.1, hat.2]
      exact ⟨level, hl, PriceLevel.nodes_removeOrder_sublist.map _⟩
    · exact ⟨level', hl', List.Sublist.refl _⟩
  · rw [Store.getElem?_orders_cancelOrder] at ho'
    split_ifs at ho'
    exact ⟨o', ho'⟩

/-! ## Matching -/

/-- The queue at work loses its head or keeps its ids. -/
lemma ids_fillFront_sublist {level : PriceLevel} {n : OrderNode} {rest : List OrderNode}
    (hnodes : level.nodes = n :: rest) (q : Quantity) :
    ((level.fillFront q).nodes.map (·.orderId)).Sublist (level.nodes.map (·.orderId)) := by
  rw [PriceLevel.nodes_fillFront hnodes, hnodes]
  split_ifs
  · exact List.sublist_cons_self _ _
  · exact List.Sublist.refl _

theorem arrival_invariant :
    MatchInvariant (fun m => InArrivalOrder m.book) fun _ m => InArrivalOrder m.book := by
  refine .of_uniform ?_ ?_ (fun _ h => h) ?_ ?_
  · intro m h
    refine h.of_sublist rfl rfl (fun side p level hl => ⟨level, ?_, List.Sublist.refl _⟩)
      fun id o ho => ⟨o, ?_⟩
    · simpa [refreshBest] using hl
    · simpa [refreshBest] using ho
  · intro p m level n rest h hfront _
    refine h.of_sublist rfl rfl (fun side k level' hl' => ?_) fun id o ho => ⟨o, by simpa using ho⟩
    rw [store_popGhost, Store.getElem?_setLevel] at hl'
    split_ifs at hl' with hat
    · cases hl'
      refine ⟨level, by rw [hat.1, hat.2]; exact hfront.level_eq, ?_⟩
      rw [PriceLevel.nodes_popFront]
      exact (List.tail_sublist _).map _
    · exact ⟨level', hl', List.Sublist.refl _⟩
  · intro p m level n rest resting h hfill
    refine h.of_sublist rfl rfl (fun side k level' hl' => ?_) fun id o ho => ?_
    · rw [store_fillFront, getElem?_levels_fillStore] at hl'
      split_ifs at hl' with hat
      · cases hl'
        exact ⟨level, by rw [hat.1, hat.2]; exact hfill.level_eq,
          ids_fillFront_sublist hfill.nodes_eq _⟩
      · exact ⟨level', hl', List.Sublist.refl _⟩
    · rw [store_fillFront, getElem?_orders_fillStore] at ho
      split_ifs at ho with hid
      · exact ⟨resting, by rw [hid]; exact hfill.order_eq⟩
      · exact ⟨o, ho⟩
  · intro p m level h hlevel _
    refine h.of_sublist rfl rfl (fun side k level' hl' => ?_) fun id o ho => ⟨o, by simpa using ho⟩
    rw [store_setStore, Store.getElem?_eraseLevel] at hl'
    split_ifs at hl'
    exact ⟨level', hl', List.Sublist.refl _⟩

/-- What a run keeps. -/
structure Prioritised (b : OrderBook) : Prop where
  exact : b.store.Exact
  agrees : b.store.Agrees
  arrival : InArrivalOrder b
  respected : ∀ f ∈ b.history.executed, f.RespectsPriority

/-- The same, while the inner loop works on the level at the cached best price. -/
structure PrioritisedAt (p : Price) (m : MatchState) : Prop where
  exact : ExactExcept p m
  best_eq : m.book.store.best m.opposite = p
  agrees : m.book.store.Agrees
  arrival : InArrivalOrder m.book
  respected : ∀ f ∈ m.book.history.executed, f.RespectsPriority

/-- **The order that is filled has the best claim.** -/
theorem PrioritisedAt.respectsPriority {p : Price} {m : MatchState} (h : PrioritisedAt p m)
    {level : PriceLevel} {n : OrderNode} {rest : List OrderNode} {resting : Order}
    (hfill : AtFill p m level n rest resting) :
    m.book.store.orders[resting.id]? = some resting ∧
      ∀ (id : OrderId) (a : Order), m.book.store.orders[id]? = some a → a.side = resting.side →
        a.hasPricePriorityOver resting = false ∧
          (a.price = resting.price →
            ¬ m.book.history.entered id < m.book.history.entered resting.id) := by
  obtain ⟨hid, hside, hprice, -, -⟩ := h.agrees.front hfill
  refine ⟨by rw [hid]; exact hfill.order_eq, fun id a ha haside => ?_⟩
  obtain ⟨n', ⟨level', hl', hn'⟩, hid'⟩ := h.agrees.queued ha
  constructor
  · -- its price is a key, and no key is better than the cached best price
    rw [Order.hasPricePriorityOver_eq_false_iff haside, hside, hprice, ← h.best_eq]
    refine h.exact.extreme _ _ (KeyList.mem_iff_exists_getElem?.mpr ⟨level', ?_⟩)
    rw [← hside, ← haside, hl']
  · -- it is in the same queue, at the front or behind it
    intro haprice
    rw [haside, haprice, hside, hprice] at hl'
    have hlevel : level' = level := by
      have := hfill.level_eq
      rw [level?, hl'] at this
      exact Option.some.inj this
    have hsorted := h.arrival.sorted _ _ _ hfill.level_eq
    rw [hlevel, hfill.nodes_eq] at hn'
    rw [hfill.nodes_eq, List.map_cons, List.pairwise_cons] at hsorted
    rw [hid, ← hid']
    rcases List.mem_cons.mp hn' with rfl | hbehind
    · exact Nat.lt_irrefl _
    · exact Nat.lt_asymm (hsorted.1 _ (List.mem_map_of_mem hbehind))

theorem priority_invariant :
    MatchInvariant (fun m => Prioritised m.book) PrioritisedAt where
  stale m hm hrun hstale :=
    ⟨exact_invariant.stale m hm.exact hrun hstale, agrees_invariant.stale m hm.agrees hrun hstale,
      arrival_invariant.stale m hm.arrival hrun hstale, hm.respected⟩
  enter m level hm hrun hlevel hne :=
    ⟨exact_invariant.enter m level hm.exact hrun hlevel hne, rfl, hm.agrees, hm.arrival,
      hm.respected⟩
  ghost p m level n rest hm hfront gone :=
    ⟨exact_invariant.ghost p m level n rest hm.exact hfront gone, by simp [hm.best_eq],
      agrees_invariant.ghost p m level n rest hm.agrees hfront gone,
      arrival_invariant.ghost p m level n rest hm.arrival hfront gone, hm.respected⟩
  selfTrade p m level n rest resting hm hfront found enabled near :=
    ⟨exact_invariant.selfTrade p m level n rest resting hm.exact hfront found enabled near,
      hm.best_eq, hm.agrees, hm.arrival, hm.respected⟩
  fill p m level n rest resting hm hfill := by
    refine ⟨exact_invariant.fill p m level n rest resting hm.exact hfill,
      by rw [opposite_fillFront, store_fillFront, best_fillStore, hm.best_eq],
      agrees_invariant.fill p m level n rest resting hm.agrees hfill,
      arrival_invariant.fill p m level n rest resting hm.arrival hfill, fun f hf => ?_⟩
    rcases List.mem_append.mp hf with hf | hf
    · exact hm.respected f hf
    · rw [List.mem_singleton.mp hf]
      exact hm.respectsPriority hfill
  close p m level hm hlevel hnil :=
    ⟨exact_invariant.close p m level hm.exact hlevel hnil,
      agrees_invariant.close p m level hm.agrees hlevel hnil,
      arrival_invariant.close p m level hm.arrival hlevel hnil, hm.respected⟩
  keep p m hm hkeep := ⟨exact_invariant.keep p m hm.exact hkeep, hm.agrees, hm.arrival, hm.respected⟩

/-! ## Runs -/

theorem prioritised_calls :
    CallInvariant (fun b op => ValidPrices b op ∧ MovesPrice b op) Prioritised where
  quiet h hquiet :=
    ⟨exact_calls.quiet h.exact hquiet, agrees_calls.quiet h.agrees hquiet, h.arrival.quiet hquiet,
      by rw [hquiet.history_eq]; exact h.respected⟩
  matched h _ _ := priority_invariant.matchOrder _ _ h
  rested {b order} h hok hpass hkind hopen := by
    have hmatch := priority_invariant.matchOrder b (withMarketPrice order) h
    refine ⟨exact_calls.rested h.exact hok.1 hpass hkind hopen,
      agrees_calls.rested h.agrees trivial hpass hkind hopen,
      hmatch.arrival.insertRestingOrder hmatch.agrees ?_, ?_⟩
    · rw [(matchOrder_sameTaker b _).id_eq, withMarketPrice_id]
      exact matchOrder_orders_none b _ hpass.id_new
    · rw [executed_insertRestingOrder]
      exact hmatch.respected
  cancelled h ho :=
    ⟨exact_calls.cancelled h.exact ho, agrees_calls.cancelled h.agrees ho, h.arrival.cancelOrder _ _,
      h.respected⟩
  inPlace _ hok hin := absurd hin.price_eq (hok.2 _ hin.order_eq)
  moved hok ho := ⟨exact_calls.moved hok.1 ho, trivial⟩

section Runs

variable {symbol : Symbol} {config : OrderBookConfig} {onTrade onExecution onBbo : Bool}
  {clock : Stream' Timestamp} {ops : List Op}

theorem prioritised_after
    (hops : Run.Admitted apply (fun b op => ValidPrices b op ∧ MovesPrice b op)
      (new symbol config onTrade onExecution onBbo clock) ops) :
    Prioritised (after (new symbol config onTrade onExecution onBbo clock) ops) :=
  prioritised_calls.run hops
    ⟨Store.Exact.empty, Store.Agrees.empty,
      ⟨fun side _ _ h => by cases side <;> simp [new, Store.levels] at h,
        fun _ _ h => by simp [new] at h⟩, fun _ h => by cases h⟩

/-- **Price-time priority is never violated** in a run with valid prices and replaces to another
price only, in any configuration; and the trades listened to are the fills this is about. -/
theorem priority_respected
    (hops : Run.Admitted apply (fun b op => ValidPrices b op ∧ MovesPrice b op)
      (new symbol config onTrade onExecution onBbo clock) ops) :
    let b := after (new symbol config onTrade onExecution onBbo clock) ops
    (∀ f ∈ b.history.executed, f.RespectsPriority) ∧
      (onTrade = true →
        b.feed.trades.map Trade.execution = b.history.executed.map Fill.execution) := by
  refine ⟨(prioritised_after hops).respected, fun hlisten => ?_⟩
  rw [hlisten]
  exact (announced_after symbol config onExecution onBbo clock ops).executions_eq

end Runs

/-- An order that is replaced comes back behind one that was queued after it. -/
theorem priority_respected_sample :
    let b := after (makeBook {}) [.add (limitOrder 1 .Sell 100 10), .add (limitOrder 2 .Sell 101 10),
      .replace {} 1 101 10, .add (limitOrder 3 .Buy 101 15)]
    (∀ f ∈ b.history.executed, f.RespectsPriority) ∧
      (true = true →
        b.feed.trades.map Trade.execution = b.history.executed.map Fill.execution) :=
  priority_respected (by decide +kernel)

end OrderBook

end Exchange
