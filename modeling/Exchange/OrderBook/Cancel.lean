import Exchange.OrderBook.Depth
import Exchange.OrderBook.PostOnly

/-!
# What a cancel takes out

`cancel_order` goes through the id index of the level to the node, wherever it stands in the queue,
takes it out, drops the level if that was all it held, and looks up the best price again.

* `Without s s' id o` — `s'` is `s` without the order `o` of `id`;
* `Store.Agrees.cancelOrder_comm` — two cancels in either order leave the same store, every node at
  its address and every entry of every index included;
* `Store.Agrees.cancelOrder_insertRestingOrder` — an order that is put in and cancelled leaves the
  store as it was;
* **`cancel_exact`** — all of this in every book that valid prices and replaces to another price
  lead to.
-/

namespace Exchange

open Std (ExtTreeMap)

/-! ## What is left of a level -/

namespace PriceLevel

/-- What the map holds in place of a level once an order is removed from it. -/
def without (l : PriceLevel) (id : OrderId) : Option PriceLevel :=
  if (l.removeOrder id).empty then none else some (l.removeOrder id)

variable {l : PriceLevel} {n n' : OrderNode} {id : OrderId} {q : Quantity}

lemma without_eq_some (h : (l.removeOrder id).nodes ≠ []) :
    l.without id = some (l.removeOrder id) := by
  rw [without, if_neg fun hempty => h (empty_iff.mp hempty)]

/-- Neither of two orders is alone in the level. -/
lemma Indexed.without_comm (h : l.Indexed) (hn : n ∈ l.nodes) (hn' : n' ∈ l.nodes)
    (hne : n.orderId ≠ n'.orderId) :
    (l.without n.orderId).bind (·.without n'.orderId)
      = (l.without n'.orderId).bind (·.without n.orderId) := by
  have hleft : (l.removeOrder n.orderId).nodes ≠ [] :=
    List.ne_nil_of_mem (h.mem_removeOrder hn' hne.symm)
  have hleft' : (l.removeOrder n'.orderId).nodes ≠ [] :=
    List.ne_nil_of_mem (h.mem_removeOrder hn hne)
  rw [without_eq_some hleft, without_eq_some hleft', Option.bind_some, Option.bind_some, without,
    without, h.removeOrder_comm hn hn' hne]

/-- A level that comes into being with an order goes with it. -/
lemma without_addOrder_new (p : Price) : ((new p).addOrder id q).without id = none := by
  rw [without, (Indexed.new p).removeOrder_addOrder fun n hn => by cases hn]
  rfl

lemma Indexed.without_addOrder (h : l.Indexed) (hid : ∀ n ∈ l.nodes, n.orderId ≠ id)
    (hne : l.nodes ≠ []) : (l.addOrder id q).without id = some l := by
  rw [without_eq_some, h.removeOrder_addOrder hid]
  rwa [h.removeOrder_addOrder hid]

end PriceLevel

/-! ## One cancel -/

/-- `s'` is `s` without the order `o` of `id`: the other orders are as they were, and queue as they
did. -/
structure Without (s s' : Store) (id : OrderId) (o : Order) : Prop where
  orders_eq : ∀ i, s'.orders[i]? = if i = id then none else s.orders[i]?
  queue_eq : ∀ side p, s'.ordersAt side p = (s.ordersAt side p).filter (·.id ≠ id)
  total_eq : Feed.quantityAt s' o.side o.price = Feed.quantityAt s o.side o.price - o.remaining
  others_eq : ∀ side p, ¬ (side = o.side ∧ p = o.price) →
    (s'.levels side)[p]? = (s.levels side)[p]?
  gone_iff : o.price ∉ s'.levels o.side ↔ s.restingAt o.side o.price = [o]
  best_exact : OrderBook.CacheExact s'

namespace Store

variable {s : Store} {id : OrderId} {o : Order}

/-- The level of a resting order, and its node there. -/
lemma Agrees.node_of_order (h : s.Agrees) (ho : s.orders[id]? = some o) :
    ∃ level n, (s.levels o.side)[o.price]? = some level ∧ n ∈ level.nodes ∧ n.orderId = id ∧
      n.quantity = o.remaining := by
  obtain ⟨n, ⟨level, hl, hn⟩, hid⟩ := h.queued ho
  obtain ⟨o', ho', -, -, hquantity⟩ := h.node ⟨level, hl, hn⟩
  rw [hid, ho] at ho'
  cases ho'
  exact ⟨level, n, hl, hn, hid, hquantity⟩

/-- The levels after a cancel. -/
lemma getElem?_cancelOrder (s : Store) (id : OrderId) (o : Order) (side : Side) (p : Price) :
    ((s.cancelOrder id o).levels side)[p]?
      = if side = o.side ∧ p = o.price then (s.levels side)[p]?.bind (·.without id)
        else (s.levels side)[p]? := by
  rw [levels_cancelOrder, getElem?_removeOrderFromLevel]
  split_ifs with hat
  · obtain ⟨rfl, rfl⟩ := hat
    rfl
  · rfl

/-- A level without nodes has nothing left. -/
lemma totalQuantity_of_empty {level : PriceLevel} (h : level.empty = true) :
    level.totalQuantity = 0 := by
  have htotal := level.wf.total_eq
  rw [LevelData.openQuantity, PriceLevel.empty_iff.mp h] at htotal
  exact UInt32.toNat_inj.mp htotal

/-- The queue loses the cancelled order and nothing else. -/
lemma Agrees.ordersAt_cancelOrder (h : s.Agrees) (ho : s.orders[id]? = some o) (side : Side)
    (p : Price) :
    (s.cancelOrder id o).ordersAt side p = (s.ordersAt side p).filter (·.id ≠ id) := by
  by_cases hat : side = o.side ∧ p = o.price
  · obtain ⟨rfl, rfl⟩ := hat
    obtain ⟨level, n, hl, -⟩ := h.node_of_order ho
    have hnodes := (h.indexed hl).nodes_removeOrder id
    have hqueue : (s.cancelOrder id o).ordersAt o.side o.price
        = (level.removeOrder id).nodes.filterMap
          fun n => (s.cancelOrder id o).orders[n.orderId]? := by
      rw [ordersAt, getElem?_cancelOrder, if_pos ⟨rfl, rfl⟩, hl, Option.bind_some,
        PriceLevel.without]
      by_cases hempty : (level.removeOrder id).empty = true
      · rw [if_pos hempty, PriceLevel.empty_iff.mp hempty]
        rfl
      · rw [if_neg hempty]
    rw [hqueue, ordersAt_eq hl, hnodes, List.filter_filterMap, List.filterMap_filter]
    refine List.filterMap_congr fun n hn => ?_
    rw [getElem?_orders_cancelOrder]
    cases hfound : s.orders[n.orderId]? with
    | none => simp
    | some o' =>
        have hid := h.id_eq hfound
        by_cases hne : n.orderId = id
        · simp [hne, hid, Option.filter]
        · simp [hne, hid, Option.filter]
  · have hlevel : ((s.cancelOrder id o).levels side)[p]? = (s.levels side)[p]? := by
      rw [getElem?_cancelOrder, if_neg hat]
    have hother : ∀ o' ∈ s.ordersAt side p, o'.id ≠ id := by
      intro o' ho' heq
      obtain ⟨hfound, hside, hprice⟩ := h.mem_ordersAt ho'
      rw [heq, ho] at hfound
      cases hfound
      exact hat ⟨hside.symm, hprice.symm⟩
    rw [List.filter_eq_self.mpr fun o' ho' => by simpa using hother o' ho']
    refine ordersAt_congr hlevel fun n hn => ?_
    rw [getElem?_orders_cancelOrder, if_neg]
    intro heq
    obtain ⟨o', ho', hside, hprice, -⟩ := h.node hn
    rw [heq, ho] at ho'
    cases ho'
    exact hat ⟨hside.symm, hprice.symm⟩

lemma Agrees.quantityAt_cancelOrder (h : s.Agrees) (ho : s.orders[id]? = some o) :
    Feed.quantityAt (s.cancelOrder id o) o.side o.price
      = Feed.quantityAt s o.side o.price - o.remaining := by
  obtain ⟨level, n, hl, hn, rfl, hquantity⟩ := h.node_of_order ho
  have htotal : (level.removeOrder n.orderId).totalQuantity = level.totalQuantity - n.quantity := by
    rw [(h.indexed hl).toLevelData_removeOrder hn]
  rw [Feed.quantityAt, Feed.quantityAt, getElem?_cancelOrder, if_pos ⟨rfl, rfl⟩, hl, ← hquantity]
  simp only [Option.bind_some, PriceLevel.without]
  rw [← htotal]
  by_cases hempty : (level.removeOrder n.orderId).empty = true
  · rw [if_pos hempty, totalQuantity_of_empty hempty]
  · rw [if_neg hempty]

/-- A level goes with its only order. -/
lemma Agrees.not_mem_cancelOrder_iff (h : s.Agrees) (hs : s.Exact) (ho : s.orders[id]? = some o) :
    o.price ∉ (s.cancelOrder id o).levels o.side ↔ s.restingAt o.side o.price = [o] := by
  have hid := h.id_eq ho
  have hafter := h.cancelOrder ho
  have hgone : o.price ∉ (s.cancelOrder id o).levels o.side
      ↔ (s.cancelOrder id o).ordersAt o.side o.price = [] := by
    constructor
    · intro hnot
      have hnone := ExtTreeMap.getElem?_eq_none hnot
      rw [ordersAt, hnone]
    · intro hnil hmem
      obtain ⟨level, hl⟩ := KeyList.mem_iff_exists_getElem?.mp hmem
      exact hafter.ordersAt_ne_nil hl ((hs.cancelOrder id o).noEmpty _ _ _ hl) hnil
  rw [hgone, h.ordersAt_cancelOrder ho, List.filter_eq_nil_iff]
  constructor
  · intro hall
    refine List.perm_singleton.mp ?_
    rw [List.perm_ext_iff_of_nodup (h.nodup_restingAt _ _) (List.nodup_singleton o)]
    intro o'
    rw [List.mem_singleton]
    constructor
    · intro ho'
      have hqueued := (h.ordersAt_perm _ _).mem_iff.mpr ho'
      have hsame : o'.id = id := by simpa using hall o' hqueued
      have hfound := (h.mem_restingAt.mp ho').1
      rw [hsame, ho] at hfound
      cases hfound
      rfl
    · rintro rfl
      exact h.mem_restingAt.mpr ⟨by rw [hid, ho], rfl, rfl⟩
  · intro hone o' ho'
    have hmem := (h.ordersAt_perm _ _).mem_iff.mp ho'
    rw [hone, List.mem_singleton] at hmem
    simp [hmem, hid]

theorem Agrees.without_cancelOrder (h : s.Agrees) (hs : s.Exact) (ho : s.orders[id]? = some o) :
    Without s (s.cancelOrder id o) id o where
  orders_eq := getElem?_orders_cancelOrder s id o
  queue_eq := h.ordersAt_cancelOrder ho
  total_eq := h.quantityAt_cancelOrder ho
  others_eq side p hat := by rw [getElem?_cancelOrder, if_neg hat]
  gone_iff := h.not_mem_cancelOrder_iff hs ho
  best_exact := OrderBook.Exact.cacheExact (hs.cancelOrder id o)

/-! ## Two calls -/

/-- Orders and levels determine exact caches. -/
lemma Exact.store_eq {s' : Store} (h : s.Exact) (h' : s'.Exact)
    (horders : ∀ i : OrderId, s'.orders[i]? = s.orders[i]?)
    (hlevels : ∀ (side : Side) (p : Price), (s'.levels side)[p]? = (s.levels side)[p]?) :
    s' = s := by
  have hmaps : ∀ side, s'.levels side = s.levels side := fun side =>
    ExtTreeMap.ext_getElem? fun p => hlevels side p
  have hbest : ∀ side, s'.best side = s.best side := by
    intro side
    have hprices : s'.bestFirst side = s.bestFirst side := bestFirst_congr fun p => by rw [hmaps]
    rw [h'.best_eq_head, h.best_eq_head, hprices]
  have hall : s'.orders = s.orders := ExtTreeMap.ext_getElem? horders
  cases s
  cases s'
  cases hall
  cases hmaps .Buy
  cases hmaps .Sell
  cases hbest .Buy
  cases hbest .Sell
  rfl

/-- **Cancels commute.** -/
theorem Agrees.cancelOrder_comm (h : s.Agrees) (hs : s.Exact) {id' : OrderId} {o' : Order}
    (ho : s.orders[id]? = some o) (ho' : s.orders[id']? = some o') (hne : id ≠ id') :
    (s.cancelOrder id o).cancelOrder id' o' = (s.cancelOrder id' o').cancelOrder id o := by
  refine Exact.store_eq ((hs.cancelOrder id' o').cancelOrder id o)
    ((hs.cancelOrder id o).cancelOrder id' o') (fun i => ?_) fun side p => ?_
  · simp only [getElem?_orders_cancelOrder]
    split_ifs <;> rfl
  · simp only [getElem?_cancelOrder]
    split_ifs with hat' hat
    · -- both in one level
      obtain ⟨level, n, hl, hn, rfl, -⟩ := h.node_of_order ho
      obtain ⟨level', n', hl', hn', rfl, -⟩ := h.node_of_order ho'
      rw [← hat.1, ← hat.2] at hl
      rw [← hat'.1, ← hat'.2, hl] at hl'
      cases hl'
      rw [hl]
      exact (h.indexed hl).without_comm hn hn' hne
    all_goals rfl

/-- **An order put in and cancelled was never there.** -/
theorem Agrees.cancelOrder_insertRestingOrder (h : s.Agrees) (hs : s.Exact)
    (hnew : s.orders[o.id]? = none) (hprice : OrderBook.ValidPrice o.price) :
    (s.insertRestingOrder o).cancelOrder o.id o = s := by
  refine Exact.store_eq hs ((hs.insertRestingOrder hprice).cancelOrder o.id o) (fun i => ?_)
    fun side p => ?_
  · rw [getElem?_orders_cancelOrder, getElem?_orders_insertRestingOrder]
    split_ifs with hi
    · rw [hi, hnew]
    · rfl
  · rw [getElem?_cancelOrder, getElem?_insertRestingOrder]
    split_ifs with hat
    · obtain ⟨rfl, rfl⟩ := hat
      rw [Option.bind_some, targetLevel]
      cases hl : (s.levels o.side)[o.price]? with
      | none => exact PriceLevel.without_addOrder_new o.price
      | some level =>
          refine (h.indexed hl).without_addOrder (fun n hn hid => ?_) (hs.noEmpty _ _ _ hl)
          obtain ⟨o', ho', -⟩ := h.node ⟨level, hl, hn⟩
          rw [hid, hnew] at ho'
          cases ho'
    · rfl

end Store

namespace OrderBook

variable {b : OrderBook}

/-- What a cancel is for. -/
structure CancelExact (b : OrderBook) : Prop where
  success_iff : ∀ id, (b.cancelOrder id).1.success = true ↔ id ∈ b.store.orders
  removed : ∀ id o, b.store.orders[id]? = some o →
    Without b.store (b.cancelOrder id).2.store id o
  unchanged : ∀ id, id ∉ b.store.orders → (b.cancelOrder id).2 = b
  comm : ∀ id id', ((b.cancelOrder id).2.cancelOrder id').2.store
    = ((b.cancelOrder id').2.cancelOrder id).2.store
  undoes_add : ∀ order, Fresh order → order.type = .Limit →
    order.tif = .Day ∨ order.tif = .GoodTillCancel → ValidPrice order.price →
    0 < order.quantity → order.id ∉ b.store.orders → postOnlyWouldCross b.store order = false →
    ((b.addOrder order).2.cancelOrder order.id).2.store = b.store

lemma success_cancelOrder_iff (b : OrderBook) (id : OrderId) :
    (b.cancelOrder id).1.success = true ↔ id ∈ b.store.orders := by
  rw [KeyList.mem_iff_exists_getElem?]
  cases ho : b.store.orders[id]? with
  | none => simp [cancelOrder_of_none ho]
  | some o => simp [cancelOrder_of_some ho]

lemma store_cancelOrder {id : OrderId} {o : Order} (ho : b.store.orders[id]? = some o) :
    (b.cancelOrder id).2.store = b.store.cancelOrder id o := by
  rw [cancelOrder_of_some ho]
  rfl

lemma cancelOrder_of_not_mem {id : OrderId} (h : id ∉ b.store.orders) :
    (b.cancelOrder id).2 = b := by
  rw [cancelOrder_of_none (ExtTreeMap.getElem?_eq_none h)]

/-- Only the order itself is missing after a cancel. -/
lemma mem_orders_cancelOrder {id i : OrderId} :
    i ∈ (b.cancelOrder id).2.store.orders ↔ i ∈ b.store.orders ∧ i ≠ id := by
  cases ho : b.store.orders[id]? with
  | none =>
      rw [cancelOrder_of_none ho]
      refine (and_iff_left_of_imp ?_).symm
      rintro hi rfl
      rw [ExtTreeMap.mem_iff_isSome_getElem?, ho] at hi
      cases hi
  | some o =>
      simp only [store_cancelOrder ho, KeyList.mem_iff_exists_getElem?,
        Store.getElem?_orders_cancelOrder]
      by_cases hi : i = id
      · simp [hi]
      · simp [hi]

theorem store_cancelOrder_comm (hagrees : b.store.Agrees) (hexact : b.store.Exact)
    (id id' : OrderId) :
    ((b.cancelOrder id).2.cancelOrder id').2.store
      = ((b.cancelOrder id').2.cancelOrder id).2.store := by
  by_cases hne : id = id'
  · rw [hne]
  cases ho : b.store.orders[id]? with
  | none =>
      have hnot : id ∉ b.store.orders := by
        simp [ExtTreeMap.mem_iff_isSome_getElem?, ho]
      rw [cancelOrder_of_not_mem hnot,
        cancelOrder_of_not_mem fun h => hnot (mem_orders_cancelOrder.mp h).1]
  | some o =>
      cases ho' : b.store.orders[id']? with
      | none =>
          have hnot : id' ∉ b.store.orders := by
            simp [ExtTreeMap.mem_iff_isSome_getElem?, ho']
          rw [cancelOrder_of_not_mem hnot,
            cancelOrder_of_not_mem fun h => hnot (mem_orders_cancelOrder.mp h).1]
      | some o' =>
          have hafter : (b.cancelOrder id).2.store.orders[id']? = some o' := by
            rw [store_cancelOrder ho, Store.getElem?_orders_cancelOrder, if_neg (Ne.symm hne), ho']
          have hafter' : (b.cancelOrder id').2.store.orders[id]? = some o := by
            rw [store_cancelOrder ho', Store.getElem?_orders_cancelOrder, if_neg hne, ho]
          rw [store_cancelOrder hafter, store_cancelOrder hafter', store_cancelOrder ho,
            store_cancelOrder ho', hagrees.cancelOrder_comm hexact ho ho' hne]

theorem store_cancelOrder_addOrder (hagrees : b.store.Agrees) (hexact : b.store.Exact)
    {order : Order} (hfresh : Fresh order) (htype : order.type = .Limit)
    (htif : order.tif = .Day ∨ order.tif = .GoodTillCancel) (hprice : ValidPrice order.price)
    (hquantity : 0 < order.quantity) (hnew : order.id ∉ b.store.orders)
    (hclear : postOnlyWouldCross b.store order = false) :
    ((b.addOrder order).2.cancelOrder order.id).2.store = b.store := by
  have hkind : Restable order := ⟨.inl htype, htif⟩
  have hnone := ExtTreeMap.getElem?_eq_none hnew
  have hpass : Passes b order :=
    passes_of_restable hkind (UInt32.ne_of_lt hquantity).symm hprice hnone fun _ => hclear
  have hreach : reaches order (b.store.best order.side.opposite) = false := by
    rw [← Bool.not_eq_true, reaches_best_iff hexact (by simp [htype]), hclear]
    exact Bool.false_ne_true
  have hstore := store_addOrder_of_not_reaches hexact.toSound hpass hkind hfresh hreach
  have hfound : (b.addOrder order).2.store.orders[order.id]? = some order :=
    (restsWhole_of_not_reaches hexact.toSound hpass hkind hfresh hreach).order_eq
  rw [store_cancelOrder hfound, hstore,
    hagrees.cancelOrder_insertRestingOrder hexact hnone hprice]

theorem cancelExact (hagrees : b.store.Agrees) (hexact : b.store.Exact) : CancelExact b where
  success_iff := success_cancelOrder_iff b
  removed id o ho := by
    rw [store_cancelOrder ho]
    exact hagrees.without_cancelOrder hexact ho
  unchanged _ := cancelOrder_of_not_mem
  comm := store_cancelOrder_comm hagrees hexact
  undoes_add _ := store_cancelOrder_addOrder hagrees hexact

section Runs

variable {symbol : Symbol} {config : OrderBookConfig} {onTrade onExecution onBbo : Bool}
  {clock : Stream' Timestamp} {ops : List Op}

/-- **A cancel removes one order and nothing else, cancels commute and undo an add**, after every
run in which only valid prices can enter the book and replaces name another price. -/
theorem cancel_exact (hops : Run.Admitted apply (fun b op => ValidPrices b op ∧ MovesPrice b op)
      (new symbol config onTrade onExecution onBbo clock) ops) :
    CancelExact (after (new symbol config onTrade onExecution onBbo clock) ops) :=
  cancelExact (agrees_after (hops.mono fun _ _ h => h.2.unfilledInPlace))
    (exact_after (hops.mono fun _ _ h => h.1))

end Runs

/-- Three orders at one price, the first partly filled and the second cancelled, and one alone. -/
theorem cancel_exact_sample :
    CancelExact (after (makeBook {})
      [.add (limitOrder 1 .Sell 100 10), .add (limitOrder 2 .Sell 100 10),
        .add (limitOrder 3 .Sell 100 10), .add (limitOrder 4 .Buy 100 4), .cancel 2,
        .add (limitOrder 5 .Buy 99 6), .replace {} 5 98 8]) :=
  cancel_exact (by decide +kernel)

end OrderBook

end Exchange
