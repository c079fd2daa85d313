import Exchange.OrderBook.Reference

/-!
# Matching walks along the opposite queue

`Drawing` describes matching where orders, nodes and levels agree.  After a replace in place they
need not, and the walk here is what `match_order` does in every book it can be called on: along the
nodes of the opposite side in the order it comes to them (`Store.queue`), past the nodes whose order
is gone, until the order is filled, a price is out of reach or the order at the front is its own.

* `walk` — the walk, by recursion on that list of nodes, without levels, caches or loops;
* `walk_cases` — what it does at a node;
* **`matchOrder_walk`** — `match_order` is the walk, in every sound book;
* `lineUp`, `contenders` — who is in line for an order, whatever the quantities;
* **`walk_draws`** — the fills are drawn from those in line, each having what its order says
  remains.
-/

namespace Exchange

open Std (ExtTreeMap)

namespace Store

/-- The nodes queued at a price, oldest first. -/
def nodesAt (s : Store) (side : Side) (p : Price) : List (Price × OrderNode) :=
  match (s.levels side)[p]? with
  | none => []
  | some level => level.nodes.map (p, ·)

/-- The nodes of a side in the order matching comes to them. -/
def queue (s : Store) (side : Side) : List (Price × OrderNode) :=
  (s.visitedPrices side).flatMap (s.nodesAt side)

/-- The nodes behind the level at the cached best price. -/
def behind (s : Store) (side : Side) : List (Price × OrderNode) :=
  ((s.bestFirst side).filter (· ≠ s.best side)).flatMap (s.nodesAt side)

variable {s s' : Store} {side : Side} {p : Price}

lemma nodesAt_eq {level : PriceLevel} (hl : (s.levels side)[p]? = some level) :
    s.nodesAt side p = level.nodes.map (p, ·) := by
  simp only [nodesAt, hl]

lemma nodesAt_congr (h : (s'.levels side)[p]? = (s.levels side)[p]?) :
    s'.nodesAt side p = s.nodesAt side p := by
  simp only [nodesAt]
  rw [h]

lemma mem_nodesAt {x : Price × OrderNode} (hx : x ∈ s.nodesAt side p) : x.1 = p := by
  rw [nodesAt] at hx
  split at hx
  · cases hx
  · obtain ⟨n, -, rfl⟩ := List.mem_map.mp hx
    rfl

/-- The level at the cached best price comes first. -/
lemma queue_of_best {level : PriceLevel} (hl : (s.levels side)[p]? = some level)
    (hbest : s.best side = p) :
    s.queue side = level.nodes.map (p, ·) ++ s.behind side := by
  subst hbest
  rw [queue, visitedPrices_of_mem (KeyList.mem_iff_exists_getElem?.mpr ⟨level, hl⟩),
    List.flatMap_cons, nodesAt_eq hl, behind]

lemma behind_congr (hbest : s'.best side = s.best side)
    (hkeys : ∀ k, k ∈ s'.levels side ↔ k ∈ s.levels side)
    (hlevels : ∀ k ≠ s.best side, (s'.levels side)[k]? = (s.levels side)[k]?) :
    s'.behind side = s.behind side := by
  rw [behind, behind, hbest, bestFirst_congr hkeys]
  refine List.flatMap_congr fun k hk => nodesAt_congr (hlevels k ?_)
  simpa using (List.mem_filter.mp hk).2

/-- A level that is used up adds nothing to the queue. -/
lemma queue_close {level : PriceLevel} (hl : (s.levels side)[p]? = some level)
    (hnil : level.nodes = []) (hbest : s.best side = p) :
    ((s.eraseLevel side p).updateBest side).queue side = s.queue side := by
  have hprices : ((s.eraseLevel side p).updateBest side).bestFirst side
      = (s.bestFirst side).filter (· ≠ p) := by
    rw [bestFirst_congr (s := s.eraseLevel side p) (by simp), bestFirst_eraseLevel]
  have hhead : ((s.eraseLevel side p).updateBest side).best side
      = (((s.eraseLevel side p).updateBest side).bestFirst side).head?.getD invalidPrice := by
    rw [best_updateBest, hprices, bestFirst_eraseLevel]
  rw [queue_of_best hl hbest, hnil, List.map_nil, List.nil_append, queue,
    visitedPrices_of_head hhead, hprices, behind, hbest]
  refine List.flatMap_congr fun k hk => nodesAt_congr ?_
  have hk : k ≠ p := by simpa using (List.mem_filter.mp hk).2
  rw [levels_updateBest, getElem?_eraseLevel, if_neg fun hat => hk hat.2]

/-- In a sound book the queue begins at the cached best price, or is empty. -/
lemma Sound.best_eq (h : s.Sound) (side : Side) :
    s.best side = ((s.queue side).head?.map Prod.fst).getD invalidPrice := by
  rcases h.bestLive side with hmem | ⟨hinvalid, hnone⟩
  · obtain ⟨level, hl⟩ := KeyList.mem_iff_exists_getElem?.mp hmem
    obtain ⟨n, rest, hnodes⟩ := List.exists_cons_of_ne_nil (h.noEmpty _ _ _ hl)
    rw [queue_of_best hl rfl, hnodes]
    rfl
  · rw [hinvalid, queue, visitedPrices_eq_nil hnone]
    rfl

/-- No level at the cached best price: the side is empty. -/
lemma Sound.queue_eq_nil (h : s.Sound) (hl : (s.levels side)[s.best side]? = none) :
    s.queue side = [] := by
  rcases h.bestLive side with hmem | ⟨-, hnone⟩
  · obtain ⟨level, hl'⟩ := KeyList.mem_iff_exists_getElem?.mp hmem
    rw [hl] at hl'
    cases hl'
  · rw [queue, visitedPrices_eq_nil hnone]
    rfl

end Store

namespace OrderBook

open MatchState

/-! ## The walk -/

/-- The outer loop goes on at this price. -/
def reaches (taker : Order) (p : Price) : Bool :=
  p != invalidPrice && p != 0 && (taker.type == .Market || taker.wouldCross p)

/-- Self-trade prevention takes the maker for one of the taker's own orders. -/
def isOwn (config : OrderBookConfig) (taker maker : Order) : Bool :=
  config.enableSelfTradePrevention && nearIds taker.id maker.id

/-- What a fill takes: `std::min(order.remaining(), resting.remaining())`. -/
def fillQuantity (taker maker : Order) : Quantity := min taker.remaining maker.remaining

/-- What a fill makes of `orders_`. -/
def writeBack (orders : Orders) (id : OrderId) (maker : Order) : Orders :=
  if maker.isFilled then (orders.insert id maker).erase id else orders.insert id maker

structure Outcome where
  taker : Order
  orders : Orders
  queue : List (Price × OrderNode)
  /-- the makers as they were met, and what was taken from them -/
  fills : List (Order × Nat) := []

/-- The same with a fill before it. -/
def Outcome.after (fill : Order × Nat) (w : Outcome) : Outcome :=
  { w with fills := fill :: w.fills }

def walk (config : OrderBookConfig) (taker : Order) (orders : Orders) :
    List (Price × OrderNode) → Outcome
  | [] => { taker, orders, queue := [] }
  | (p, n) :: queue =>
      if taker.isFilled || !reaches taker p then { taker, orders, queue := (p, n) :: queue }
      else
        match orders[n.orderId]? with
        | none => walk config taker orders queue
        | some maker =>
            if isOwn config taker maker then { taker, orders, queue := (p, n) :: queue }
            else
              let q := fillQuantity taker maker
              let taker := (taker.fill q).2
              let orders := writeBack orders n.orderId (maker.fill q).2
              if taker.isFilled && q < n.quantity then
                { taker, orders
                  queue := (p, { n with quantity := n.quantity - q }) :: queue
                  fills := [(maker, q.toNat)] }
              else (walk config taker orders queue).after (maker, q.toNat)

variable {config : OrderBookConfig} {taker maker : Order} {orders : Orders} {p : Price}
  {n : OrderNode} {queue : List (Price × OrderNode)}

lemma walk_of_isFilled (h : taker.isFilled = true) :
    walk config taker orders queue = { taker, orders, queue } := by
  cases queue with
  | nil => rfl
  | cons x queue => simp [walk, h]

lemma walk_of_not_reaches (h : reaches taker p = false) :
    walk config taker orders ((p, n) :: queue) = { taker, orders, queue := (p, n) :: queue } := by
  simp [walk, h]

lemma walk_of_gone (hopen : taker.isFilled = false) (h : reaches taker p = true)
    (gone : orders[n.orderId]? = none) :
    walk config taker orders ((p, n) :: queue) = walk config taker orders queue := by
  simp [walk, hopen, h, gone]

lemma walk_of_isOwn (found : orders[n.orderId]? = some maker)
    (hown : isOwn config taker maker = true) :
    walk config taker orders ((p, n) :: queue) = { taker, orders, queue := (p, n) :: queue } := by
  simp only [walk, found, hown, if_true, ite_self]

lemma reaches_fill (taker : Order) (q : Quantity) (p : Price) :
    reaches (taker.fill q).2 p = reaches taker p := by
  simp only [reaches, Order.wouldCross, Order.fill_type, Order.fill_side, Order.fill_price]

lemma isOwn_fill (config : OrderBookConfig) (taker : Order) (q : Quantity) (maker : Order) :
    isOwn config (taker.fill q).2 maker = isOwn config taker maker := by
  simp only [isOwn, Order.fill_id]

lemma getElem?_writeBack (id i : OrderId) :
    (writeBack orders id maker)[i]?
      = if i = id then (if maker.isFilled then none else some maker) else orders[i]? := by
  rw [writeBack]
  split_ifs <;>
    simp_all [ExtTreeMap.getElem?_erase, ExtTreeMap.getElem?_insert, eq_comm (a := id)]

/-- A fill that leaves the taker open completes the maker. -/
lemma maker_isFilled (hopen : (taker.fill (fillQuantity taker maker)).2.isFilled = false) :
    (maker.fill (fillQuantity taker maker)).2.isFilled = true :=
  (Order.fill_min_completes taker maker).resolve_left (Bool.eq_false_iff.mp hopen)

/-- A fill that leaves the taker open: the walk goes on behind the node. -/
lemma walk_fill_open (hopen : taker.isFilled = false) (h : reaches taker p = true)
    (found : orders[n.orderId]? = some maker) (hown : isOwn config taker maker = false)
    (hopen' : (taker.fill (fillQuantity taker maker)).2.isFilled = false) :
    let q := fillQuantity taker maker
    walk config taker orders ((p, n) :: queue)
      = (walk config (taker.fill q).2 (writeBack orders n.orderId (maker.fill q).2) queue).after
          (maker, q.toNat) := by
  intro q
  simp only [walk, hopen, h, found, hown, Bool.not_true, Bool.or_self, Bool.false_eq_true, if_false,
    hopen', Bool.false_and]
  rfl

/-- A fill that completes the taker: the walk ends, at the node if something is left of that. -/
lemma walk_fill_done (hopen : taker.isFilled = false) (h : reaches taker p = true)
    (found : orders[n.orderId]? = some maker) (hown : isOwn config taker maker = false)
    (hdone : (taker.fill (fillQuantity taker maker)).2.isFilled = true) :
    let q := fillQuantity taker maker
    walk config taker orders ((p, n) :: queue)
      = { taker := (taker.fill q).2
          orders := writeBack orders n.orderId (maker.fill q).2
          queue := if q ≥ n.quantity then queue
            else (p, { n with quantity := n.quantity - q }) :: queue
          fills := [(maker, q.toNat)] } := by
  intro q
  have hstep : walk config taker orders ((p, n) :: queue)
      = if q < n.quantity then
          { taker := (taker.fill q).2
            orders := writeBack orders n.orderId (maker.fill q).2
            queue := (p, { n with quantity := n.quantity - q }) :: queue
            fills := [(maker, q.toNat)] }
        else
          (walk config (taker.fill q).2 (writeBack orders n.orderId (maker.fill q).2)
            queue).after (maker, q.toNat) := by
    simp [walk, hopen, h, found, hown, hdone, q]
  rw [hstep]
  by_cases hq : q ≥ n.quantity
  · rw [if_neg (UInt32.not_lt.mpr hq), if_pos hq, walk_of_isFilled hdone]
    rfl
  · rw [if_pos (UInt32.not_le.mp hq), if_neg hq]

/-- **A fill is a step of the walk**: it goes on from the two orders and the node as the fill leaves
them.  A node that outlives its order is passed over next. -/
theorem walk_fill (hopen : taker.isFilled = false) (h : reaches taker p = true)
    (found : orders[n.orderId]? = some maker) (hown : isOwn config taker maker = false) :
    let q := fillQuantity taker maker
    walk config taker orders ((p, n) :: queue)
      = (walk config (taker.fill q).2 (writeBack orders n.orderId (maker.fill q).2)
          (if q ≥ n.quantity then queue
            else (p, { n with quantity := n.quantity - q }) :: queue)).after (maker, q.toNat) := by
  intro q
  by_cases hdone : (taker.fill q).2.isFilled = true
  · rw [walk_fill_done hopen h found hown hdone, walk_of_isFilled hdone]
    rfl
  · have hopen' : (taker.fill q).2.isFilled = false := by simpa using hdone
    rw [walk_fill_open hopen h found hown hopen']
    split_ifs with hq
    · rfl
    · have hgone : (writeBack orders n.orderId (maker.fill q).2)[n.orderId]? = none := by
        rw [getElem?_writeBack, if_pos rfl, if_pos (maker_isFilled hopen')]
      rw [walk_of_gone (n := { n with quantity := n.quantity - q }) hopen'
        (by rw [reaches_fill, h]) hgone]

/-- What the walk does at a node. -/
inductive WalkCase (config : OrderBookConfig) (taker : Order) (orders : Orders) (p : Price)
    (n : OrderNode) (queue : List (Price × OrderNode)) : Outcome → Prop
  | completed (hfilled : taker.isFilled = true) :
      WalkCase config taker orders p n queue { taker, orders, queue := (p, n) :: queue }
  | outOfReach (hopen : taker.isFilled = false) (hreach : reaches taker p = false) :
      WalkCase config taker orders p n queue { taker, orders, queue := (p, n) :: queue }
  | gone (hopen : taker.isFilled = false) (hreach : reaches taker p = true)
      (gone : orders[n.orderId]? = none) :
      WalkCase config taker orders p n queue (walk config taker orders queue)
  | own {maker : Order} (hopen : taker.isFilled = false) (hreach : reaches taker p = true)
      (found : orders[n.orderId]? = some maker) (hown : isOwn config taker maker = true) :
      WalkCase config taker orders p n queue { taker, orders, queue := (p, n) :: queue }
  /-- the fill completes the taker -/
  | last {maker : Order} (hopen : taker.isFilled = false) (hreach : reaches taker p = true)
      (found : orders[n.orderId]? = some maker) (hown : isOwn config taker maker = false)
      (hdone : (taker.fill (fillQuantity taker maker)).2.isFilled = true) :
      WalkCase config taker orders p n queue
        { taker := (taker.fill (fillQuantity taker maker)).2
          orders := writeBack orders n.orderId (maker.fill (fillQuantity taker maker)).2
          queue := if fillQuantity taker maker ≥ n.quantity then queue
            else (p, { n with quantity := n.quantity - fillQuantity taker maker }) :: queue
          fills := [(maker, (fillQuantity taker maker).toNat)] }
  /-- the fill completes the maker -/
  | next {maker : Order} (hopen : taker.isFilled = false) (hreach : reaches taker p = true)
      (found : orders[n.orderId]? = some maker) (hown : isOwn config taker maker = false)
      (hopen' : (taker.fill (fillQuantity taker maker)).2.isFilled = false) :
      WalkCase config taker orders p n queue
        ((walk config (taker.fill (fillQuantity taker maker)).2 (orders.erase n.orderId)
          queue).after (maker, (fillQuantity taker maker).toNat))

lemma writeBack_of_isFilled (orders : Orders) (id : OrderId) (h : maker.isFilled = true) :
    writeBack orders id maker = orders.erase id := by
  refine ExtTreeMap.ext_getElem? fun i => ?_
  rw [getElem?_writeBack, if_pos h, ExtTreeMap.getElem?_erase]
  simp only [Std.compare_eq_iff_eq, eq_comm (a := id)]

theorem walk_cases (config : OrderBookConfig) (taker : Order) (orders : Orders) (p : Price)
    (n : OrderNode) (queue : List (Price × OrderNode)) :
    WalkCase config taker orders p n queue (walk config taker orders ((p, n) :: queue)) := by
  by_cases hfilled : taker.isFilled = true
  · rw [walk_of_isFilled hfilled]
    exact .completed hfilled
  have hopen : taker.isFilled = false := by simpa using hfilled
  cases hreach : reaches taker p with
  | false =>
      rw [walk_of_not_reaches hreach]
      exact .outOfReach hopen hreach
  | true =>
      cases found : orders[n.orderId]? with
      | none =>
          rw [walk_of_gone hopen hreach found]
          exact .gone hopen hreach found
      | some maker =>
          cases hown : isOwn config taker maker with
          | true =>
              rw [walk_of_isOwn found hown]
              exact .own hopen hreach found hown
          | false =>
              by_cases hdone : (taker.fill (fillQuantity taker maker)).2.isFilled = true
              · rw [walk_fill_done hopen hreach found hown hdone]
                exact .last hopen hreach found hown hdone
              · have hopen' : (taker.fill (fillQuantity taker maker)).2.isFilled = false := by
                  simpa using hdone
                rw [walk_fill_open hopen hreach found hown hopen',
                  writeBack_of_isFilled _ _ (maker_isFilled hopen')]
                exact .next hopen hreach found hown hopen'

/-! ## The loops walk -/

/-- The walk that the loops have still to do. -/
def MatchState.toGo (m : MatchState) : Outcome :=
  walk m.book.config m.order m.book.store.orders (m.book.store.queue m.opposite)

/-- The order at the front of the queue is one of the taker's own. -/
def FrontIsOwn (m : MatchState) : Prop :=
  ∃ p n queue maker, m.book.store.queue m.opposite = (p, n) :: queue ∧
    m.book.store.orders[n.orderId]? = some maker ∧ isOwn m.book.config m.order maker = true

/-- What has been filled so far, followed by what is still to do, is the whole walk. -/
structure Walking (b : OrderBook) (taker : Order) (m : MatchState) : Prop where
  walked : ∃ fills, m.book.history.executed = b.history.executed ++ fills ∧
    MatchState.toGo { book := b, order := taker }
      = { m.toGo with fills := fills.map taken ++ m.toGo.fills }
  stopped : m.stoppedForSelfTrade = true → FrontIsOwn m

/-- The inner loop is at work on the level at the cached best price, which is in reach. -/
structure WalkingAt (b : OrderBook) (taker : Order) (p : Price) (m : MatchState) : Prop
    extends Walking b taker m where
  sound : SoundExcept p m
  best_eq : m.book.store.best m.opposite = p
  reaches : reaches m.order p = true

variable {b : OrderBook}

lemma Walking.start (b : OrderBook) (taker : Order) :
    Walking b taker { book := b, order := taker } where
  walked := ⟨[], by simp, rfl⟩
  stopped h := by cases h

/-- Where the walk that is left is the same, nothing has been filled. -/
lemma Walking.congr {m m' : MatchState} (h : Walking b taker m) (hgo : m'.toGo = m.toGo)
    (hexecuted : m'.book.history.executed = m.book.history.executed)
    (hstopped : m'.stoppedForSelfTrade = true → FrontIsOwn m') : Walking b taker m' where
  walked := by
    rw [hexecuted, hgo]
    exact h.walked
  stopped := hstopped

/-- The queue as the inner loop sees it. -/
lemma queue_front {m : MatchState} {level : PriceLevel} {rest : List OrderNode}
    (hfront : AtFront p m level n rest) (hbest : m.book.store.best m.opposite = p) :
    m.book.store.queue m.opposite
      = (p, n) :: (rest.map (p, ·) ++ m.book.store.behind m.opposite) := by
  rw [Store.queue_of_best hfront.level_eq hbest, hfront.nodes_eq, List.map_cons, List.cons_append]

/-- A round of the inner loop rewrites the level at the front of the queue. -/
lemma queue_rewritten {m : MatchState} {s : Store} {level l : PriceLevel}
    (hl : m.level? p = some level) (hbest : m.book.store.best m.opposite = p)
    (hbest' : s.best m.opposite = p)
    (hlevels : ∀ k, (s.levels m.opposite)[k]?
      = if k = p then some l else (m.book.store.levels m.opposite)[k]?) :
    s.queue m.opposite = l.nodes.map (p, ·) ++ m.book.store.behind m.opposite := by
  rw [Store.queue_of_best (by rw [hlevels, if_pos rfl]) hbest',
    Store.behind_congr (hbest'.trans hbest.symm) (fun k => ?_) fun k hk => ?_]
  · simp only [KeyList.mem_iff_exists_getElem?, hlevels]
    split_ifs with hkp
    · subst hkp
      exact ⟨fun _ => ⟨level, hl⟩, fun _ => ⟨l, rfl⟩⟩
    · exact Iff.rfl
  · rw [hlevels, if_neg (hbest ▸ hk)]

lemma queue_popGhost {m : MatchState} {level : PriceLevel} {rest : List OrderNode}
    (hfront : AtFront p m level n rest) (hbest : m.book.store.best m.opposite = p) :
    (m.popGhost p level).book.store.queue m.opposite
      = rest.map (p, ·) ++ m.book.store.behind m.opposite := by
  rw [queue_rewritten (s := (m.popGhost p level).book.store) (l := level.popFront)
    hfront.level_eq hbest (by simp [hbest]) fun k => by simp [Store.getElem?_setLevel]]
  simp [hfront.nodes_eq]

lemma toGo_popGhost {m : MatchState} {level : PriceLevel} {rest : List OrderNode}
    (hfront : AtFront p m level n rest) (hbest : m.book.store.best m.opposite = p)
    (hreach : reaches m.order p = true) (gone : m.book.store.orders[n.orderId]? = none) :
    (m.popGhost p level).toGo = m.toGo := by
  have horders : (m.popGhost p level).book.store.orders = m.book.store.orders := by simp
  rw [MatchState.toGo, MatchState.toGo, opposite_popGhost, queue_popGhost hfront hbest, horders,
    queue_front hfront hbest, walk_of_gone hfront.notFilled hreach gone]
  rfl

lemma orders_fillStore (m : MatchState) (p : Price) (level : PriceLevel) (id : OrderId)
    (resting : Order) :
    (m.fillStore p level id resting).orders
      = writeBack m.book.store.orders id (resting.fill (m.fillQty resting)).2 := by
  simp only [fillStore, writeBack]
  split_ifs <;> simp [Store.eraseOrder, Store.setOrder]

lemma isOwn_eq_false {m : MatchState} {level : PriceLevel} {rest : List OrderNode}
    (hfill : AtFill p m level n rest maker) : isOwn m.book.config m.order maker = false := by
  have hnear := hfill.notNear
  cases hstp : m.book.config.enableSelfTradePrevention
  · simp [isOwn, hstp]
  · simp [isOwn, hnear hstp]

lemma queue_fillFront {m : MatchState} {level : PriceLevel} {rest : List OrderNode}
    (hfill : AtFill p m level n rest maker) (hbest : m.book.store.best m.opposite = p) :
    (m.fillFront p level n.orderId maker).book.store.queue m.opposite
      = if m.fillQty maker ≥ n.quantity then rest.map (p, ·) ++ m.book.store.behind m.opposite
        else (p, { n with quantity := n.quantity - m.fillQty maker }) ::
          (rest.map (p, ·) ++ m.book.store.behind m.opposite) := by
  rw [queue_rewritten (s := (m.fillFront p level n.orderId maker).book.store)
    (l := level.fillFront (m.fillQty maker)) hfill.level_eq hbest (by simp [hbest])
    fun k => by simp [getElem?_levels_fillStore], PriceLevel.nodes_fillFront hfill.nodes_eq]
  split_ifs <;> simp

lemma toGo_fillFront {m : MatchState} {level : PriceLevel} {rest : List OrderNode}
    (hfill : AtFill p m level n rest maker) (hbest : m.book.store.best m.opposite = p)
    (hreach : reaches m.order p = true) :
    m.toGo = (m.fillFront p level n.orderId maker).toGo.after (maker, (m.fillQty maker).toNat) := by
  rw [MatchState.toGo, queue_front hfill.toAtFront hbest,
    walk_fill hfill.notFilled hreach hfill.order_eq (isOwn_eq_false hfill), MatchState.toGo,
    opposite_fillFront, queue_fillFront hfill hbest, store_fillFront, orders_fillStore]
  rfl

lemma FrontIsOwn.maker_eq {m : MatchState} (h : FrontIsOwn m) {level : PriceLevel}
    {rest : List OrderNode} (hfront : AtFront p m level n rest)
    (hbest : m.book.store.best m.opposite = p) :
    ∃ maker, m.book.store.orders[n.orderId]? = some maker ∧
      isOwn m.book.config m.order maker = true := by
  obtain ⟨p', n', queue, maker, hqueue, found, hown⟩ := h
  rw [queue_front hfront hbest] at hqueue
  cases hqueue
  exact ⟨maker, found, hown⟩

lemma Walking.fillFront {m : MatchState} (h : Walking b taker m) {level : PriceLevel}
    {rest : List OrderNode} (hfill : AtFill p m level n rest maker)
    (hbest : m.book.store.best m.opposite = p) (hreach : OrderBook.reaches m.order p = true) :
    Walking b taker (m.fillFront p level n.orderId maker) := by
  have hgo := toGo_fillFront hfill hbest hreach
  constructor
  · obtain ⟨fills, hexecuted, hwalk⟩ := h.walked
    refine ⟨fills ++ [{
        taker := m.order
        maker := maker
        price := p
        quantity := m.fillQty maker
        resting := m.book.store.orders
        entered := m.book.history.entered }], ?_, ?_⟩
    · rw [← List.append_assoc, ← hexecuted]
      rfl
    · rw [hwalk, hgo]
      simp [Outcome.after, taken]
  · intro hs
    obtain ⟨maker', found, hown⟩ := (h.stopped hs).maker_eq hfill.toAtFront hbest
    rw [hfill.order_eq] at found
    cases found
    rw [isOwn_eq_false hfill] at hown
    cases hown

theorem walking_invariant (b : OrderBook) (taker : Order) :
    MatchInvariant (fun m => Walking b taker m ∧ m.book.store.Sound) (WalkingAt b taker) where
  stale m hm hrun hstale := absurd hstale (hrun.not_stale hm.2)
  enter m level hm hrun hlevel hne := by
    refine ⟨hm.1, sound_invariant.enter m level hm.2 hrun hlevel hne, rfl, ?_⟩
    simpa [OrderBook.reaches, hrun.ne_invalid, hrun.ne_zero] using hrun.crosses
  ghost p m level n rest hm hfront gone := by
    refine ⟨hm.toWalking.congr (toGo_popGhost hfront hm.best_eq hm.reaches gone) rfl fun hs => ?_,
      sound_invariant.ghost p m level n rest hm.sound hfront gone, by simpa using hm.best_eq,
      hm.reaches⟩
    obtain ⟨maker, found, -⟩ := (hm.stopped hs).maker_eq hfront hm.best_eq
    rw [gone] at found
    cases found
  selfTrade p m level n rest resting hm hfront found enabled near := by
    have hown : FrontIsOwn m :=
      ⟨p, n, _, resting, queue_front hfront hm.best_eq, found, by simp [isOwn, enabled, near]⟩
    exact ⟨hm.toWalking.congr rfl rfl fun _ => hown,
      sound_invariant.selfTrade p m level n rest resting hm.sound hfront found enabled near,
      hm.best_eq, hm.reaches⟩
  fill p m level n rest resting hm hfill := by
    refine ⟨hm.toWalking.fillFront hfill hm.best_eq hm.reaches,
      sound_invariant.fill p m level n rest resting hm.sound hfill, by simpa using hm.best_eq, ?_⟩
    rw [order_fillFront, reaches_fill, hm.reaches]
  close p m level hm hlevel hnil := by
    have hqueue := Store.queue_close hlevel hnil hm.best_eq
    have horders : ((m.book.store.eraseLevel m.opposite p).updateBest m.opposite).orders
        = m.book.store.orders := by simp
    refine ⟨hm.toWalking.congr ?_ rfl fun hs => ?_,
      sound_invariant.close p m level hm.sound hlevel hnil⟩
    · simp only [MatchState.toGo, refreshBest, store_setStore, opposite_setStore, hqueue, horders]
      rfl
    · obtain ⟨p', n, queue, maker, hfront, found, hown⟩ := hm.stopped hs
      refine ⟨p', n, queue, maker, ?_, ?_, hown⟩
      · simp only [refreshBest, store_setStore, opposite_setStore, hqueue, hfront]
      · simpa only [refreshBest, store_setStore, opposite_setStore, horders] using found
  keep p m hm hkeep := ⟨hm.toWalking, sound_invariant.keep p m hm.sound hkeep⟩

/-- A loop that has been left with something to fill has come to a price out of reach. -/
lemma not_reaches_of_done {m : MatchState} (hsound : m.book.store.Sound) (hdone : ¬ Running m)
    (hopen : ¬ m.order.isFilled = true) (hgoing : ¬ m.stoppedForSelfTrade = true)
    (hqueue : m.book.store.queue m.opposite = (p, n) :: queue) : reaches m.order p = false := by
  have hbest := hsound.best_eq m.opposite
  rw [hqueue] at hbest
  have hbest : m.book.store.best m.opposite = p := hbest
  refine Bool.eq_false_iff.mpr fun hreach => hdone ?_
  simp only [OrderBook.reaches, Bool.and_eq_true, bne_iff_ne, Bool.or_eq_true, beq_iff_eq]
    at hreach
  exact ⟨by simpa using hopen, by simpa using hgoing, by rw [hbest]; exact hreach.1.1,
    by rw [hbest]; exact hreach.1.2, by rw [hbest]; exact hreach.2⟩

/-- A loop that has been left has nothing left to do. -/
lemma Walking.done {m : MatchState} (h : Walking b taker m) (hsound : m.book.store.Sound)
    (hdone : ¬ Running m) :
    m.toGo = { taker := m.order, orders := m.book.store.orders
               queue := m.book.store.queue m.opposite } := by
  rw [MatchState.toGo]
  by_cases hfilled : m.order.isFilled = true
  · exact walk_of_isFilled hfilled
  by_cases hstopped : m.stoppedForSelfTrade = true
  · obtain ⟨p, n, queue, maker, hqueue, found, hown⟩ := h.stopped hstopped
    rw [hqueue, walk_of_isOwn found hown]
  cases hqueue : m.book.store.queue m.opposite with
  | nil => rfl
  | cons x queue =>
      exact walk_of_not_reaches (not_reaches_of_done hsound hdone hfilled hstopped hqueue)

/-- The walk of an order along the opposite queue of a book. -/
def prospect (b : OrderBook) (taker : Order) : Outcome :=
  walk b.config taker b.store.orders (b.store.queue taker.side.opposite)

/-- **`match_order` is the walk**, in every sound book: the order, the resting orders and the
opposite queue are as the walk leaves them, and the fills are the ones it makes. -/
theorem matchOrder_walk (hb : b.store.Sound) (taker : Order) :
    let m := b.matchOrder taker
    m.order = (b.prospect taker).taker ∧
      m.book.store.orders = (b.prospect taker).orders ∧
      m.book.store.queue taker.side.opposite = (b.prospect taker).queue ∧
      ∃ fills, m.book.history.executed = b.history.executed ++ fills ∧
        fills.map taken = (b.prospect taker).fills := by
  intro m
  obtain ⟨hwalking, hsound⟩ :=
    (walking_invariant b taker).matchOrder b taker ⟨Walking.start b taker, hb⟩
  have hdone := hwalking.done hsound (matchOrder_done hb taker)
  obtain ⟨fills, hexecuted, hwalk⟩ := hwalking.walked
  have hside : m.opposite = taker.side.opposite := by
    rw [MatchState.opposite, (matchOrder_sameTaker b taker).side_eq]
  have hprospect : b.prospect taker = { m.toGo with fills := fills.map taken ++ m.toGo.fills } := hwalk
  rw [hdone] at hprospect
  rw [hprospect, ← hside]
  exact ⟨rfl, rfl, rfl, fills, hexecuted, by simp⟩

/-! ## Who is met -/

/-- The makers in line before the first price out of reach and the first of the taker's own orders:
nodes whose order is gone, or has been met before, are passed over. -/
def lineUp (config : OrderBookConfig) (taker : Order) (orders : Orders) :
    List (Price × OrderNode) → List Order
  | [] => []
  | (p, n) :: queue =>
      if !reaches taker p then []
      else
        match orders[n.orderId]? with
        | none => lineUp config taker orders queue
        | some maker =>
            if isOwn config taker maker then []
            else maker :: lineUp config taker (orders.erase n.orderId) queue

/-- Whoever is in line rests in the book. -/
lemma mem_lineUp (hmaker : maker ∈ lineUp config taker orders queue) :
    ∃ id : OrderId, orders[id]? = some maker := by
  induction queue generalizing orders with
  | nil => cases hmaker
  | cons x queue ih =>
      rw [lineUp] at hmaker
      split at hmaker
      · cases hmaker
      · split at hmaker
        · exact ih hmaker
        · rename_i first found
          split at hmaker
          · cases hmaker
          · rcases List.mem_cons.mp hmaker with rfl | hmaker
            · exact ⟨_, found⟩
            · obtain ⟨id, hid⟩ := ih hmaker
              rw [ExtTreeMap.getElem?_erase] at hid
              split_ifs at hid
              exact ⟨id, hid⟩

/-- What an order says it has left, wrapped subtraction included. -/
def offer (maker : Order) : Nat := maker.remaining.toNat

lemma lineUp_fill (config : OrderBookConfig) (taker : Order) (q : Quantity) (orders : Orders)
    (queue : List (Price × OrderNode)) :
    lineUp config (taker.fill q).2 orders queue = lineUp config taker orders queue := by
  induction queue generalizing orders with
  | nil => rfl
  | cons x queue ih => simp only [lineUp, reaches_fill, isOwn_fill, ih]

/-- What is wanted after a fill. -/
lemma leaves_fill_fillQuantity (hopen : taker.isFilled = false) (maker : Order) :
    (fillQuantity taker maker).toNat = min taker.leaves (offer maker) ∧
      (taker.fill (fillQuantity taker maker)).2.leaves
        = taker.leaves - min taker.leaves (offer maker) := by
  have hle : taker.filledQty ≤ taker.quantity :=
    UInt32.le_of_lt (Order.not_isFilled_iff.mp hopen)
  have hmin : (fillQuantity taker maker).toNat = min taker.leaves (offer maker) := by
    rw [fillQuantity, Order.toNat_min_quantity, Order.toNat_remaining hle, offer]
  have hq : fillQuantity taker maker ≤ taker.remaining := Order.min_quantity_le_left _ _
  exact ⟨hmin, by rw [Order.leaves_fill hle hq, hmin]⟩

/-- **The walk draws from the line**: each maker gives what its order has left or what is still
wanted, and what is wanted in the end is what the line did not have. -/
theorem walk_draws (config : OrderBookConfig) (taker : Order) (orders : Orders)
    (queue : List (Price × OrderNode)) :
    (walk config taker orders queue).fills
        = Draw.drawn (fun _ => false) offer taker.leaves (lineUp config taker orders queue) ∧
      (walk config taker orders queue).taker.leaves
        = taker.leaves - ((lineUp config taker orders queue).map offer).sum := by
  induction queue generalizing taker orders with
  | nil => exact ⟨rfl, rfl⟩
  | cons x queue ih =>
      obtain ⟨p, n⟩ := x
      have hcase := walk_cases config taker orders p n queue
      generalize walk config taker orders ((p, n) :: queue) = outcome at hcase
      have hfound : ∀ maker, reaches taker p = true → orders[n.orderId]? = some maker →
          isOwn config taker maker = false → lineUp config taker orders ((p, n) :: queue)
            = maker :: lineUp config taker (orders.erase n.orderId) queue := by
        intro maker hreach found hown
        simp [lineUp, hreach, found, hown]
      cases hcase with
      | completed hfilled =>
          rw [Order.leaves_eq_zero_iff.mpr hfilled, Draw.drawn_zero, Nat.zero_sub]
          exact ⟨rfl, rfl⟩
      | outOfReach hopen hreach => simp [lineUp, hreach, Draw.drawn]
      | gone hopen hreach gone =>
          have hline : lineUp config taker orders ((p, n) :: queue)
              = lineUp config taker orders queue := by
            simp [lineUp, hreach, gone]
          rw [hline]
          exact ih taker orders
      | own hopen hreach found hown => simp [lineUp, hreach, found, hown, Draw.drawn]
      | @last maker hopen hreach found hown hdone =>
          have hwant : taker.leaves ≠ 0 := Nat.pos_iff_ne_zero.mp (Order.leaves_pos hopen)
          obtain ⟨hq, hleaves⟩ := leaves_fill_fillQuantity hopen maker
          have hzero := Order.leaves_eq_zero_iff.mpr hdone
          dsimp only
          rw [hfound maker hreach found hown, Draw.drawn, if_neg (by simp [hwant]), List.map_cons,
            List.sum_cons, hq, ← hleaves, hzero, Draw.drawn_zero]
          exact ⟨rfl, by omega⟩
      | @next maker hopen hreach found hown hopen' =>
          have hwant : taker.leaves ≠ 0 := Nat.pos_iff_ne_zero.mp (Order.leaves_pos hopen)
          obtain ⟨hq, hleaves⟩ := leaves_fill_fillQuantity hopen maker
          obtain ⟨hfills, hrest⟩ :=
            ih (taker.fill (fillQuantity taker maker)).2 (orders.erase n.orderId)
          rw [lineUp_fill, hleaves] at hfills hrest
          rw [hfound maker hreach found hown, Draw.drawn, if_neg (by simp [hwant]), List.map_cons,
            List.sum_cons, Outcome.after, hq]
          dsimp only
          rw [hfills, hrest]
          exact ⟨rfl, by omega⟩

/-- The makers in line for an order. -/
def contenders (b : OrderBook) (order : Order) : List Order :=
  lineUp b.config (withMarketPrice order) b.store.orders (b.store.queue order.side.opposite)

/-- What the makers in line have left, in all. -/
def supply (b : OrderBook) (order : Order) : Nat := ((b.contenders order).map offer).sum

lemma mem_contenders {order : Order} (hmaker : maker ∈ b.contenders order) :
    ∃ id : OrderId, b.store.orders[id]? = some maker :=
  mem_lineUp hmaker

/-- What is taken from those in line until the order has what it wants. -/
def draws (b : OrderBook) (order : Order) : List (Order × Nat) :=
  Draw.drawn (fun _ => false) offer order.leaves (b.contenders order)

/-- What `match_order` leaves of what is wanted. -/
lemma leaves_matchOrder (hb : b.store.Sound) (order : Order) :
    (b.matchOrder (withMarketPrice order)).order.leaves = order.leaves - b.supply order := by
  obtain ⟨horder, -⟩ := matchOrder_walk hb (withMarketPrice order)
  obtain ⟨-, hleaves⟩ := walk_draws b.config (withMarketPrice order) b.store.orders
    (b.store.queue order.side.opposite)
  rw [prospect, withMarketPrice_side] at horder
  rw [leaves_withMarketPrice] at hleaves
  rw [horder, hleaves]
  rfl

/-- `match_order` draws from the line. -/
theorem matchOrder_contenders (hb : b.store.Sound) (order : Order) :
    let m := b.matchOrder (withMarketPrice order)
    (m.order.isFilled = false ↔ b.supply order < order.leaves) ∧
      ∃ fills, m.book.history.executed = b.history.executed ++ fills ∧
        fills.map taken = b.draws order := by
  intro m
  obtain ⟨-, -, -, fills, hexecuted, hfills⟩ := matchOrder_walk hb (withMarketPrice order)
  obtain ⟨hdrawn, -⟩ := walk_draws b.config (withMarketPrice order) b.store.orders
    (b.store.queue order.side.opposite)
  rw [prospect, withMarketPrice_side] at hfills
  rw [leaves_withMarketPrice] at hdrawn
  refine ⟨?_, fills, hexecuted, by rw [hfills, hdrawn]; rfl⟩
  rw [← Bool.not_eq_true, ← Order.leaves_eq_zero_iff, leaves_matchOrder hb]
  omega

/-! ## What becomes of the remainder -/

/-- The order gets past the checks, and what those in line leave of it is put in the book. -/
structure Rests (b : OrderBook) (order : Order) : Prop where
  passes : Passes b order
  kind : Restable order
  short : b.supply order < order.leaves

/-- The order gets past the checks, and is killed with what those in line leave of it. -/
structure Killed (b : OrderBook) (order : Order) : Prop where
  passes : Passes b order
  kind : KillsRemainder order
  short : b.supply order < order.leaves

variable {order : Order}

/-- An order that matching has completed, or that is of no kind to rest, does not. -/
lemma Rests.not_gone (hb : b.store.Sound) (h : Rests b order) :
    ¬ ((b.matchOrder (withMarketPrice order)).order.isFilled = true ∨ ¬ Restable order) := by
  rintro (hfilled | hkind)
  · rw [(matchOrder_contenders hb order).1.mpr h.short] at hfilled
    cases hfilled
  · exact hkind h.kind

/-- An order that matching has completed is not killed. -/
lemma Killed.not_filled (hb : b.store.Sound) (h : Killed b order) :
    ¬ (b.matchOrder (withMarketPrice order)).order.isFilled = true := by
  rw [(matchOrder_contenders hb order).1.mpr h.short]
  exact Bool.false_ne_true

lemma Rests.addOrder_eq (hb : b.store.Sound) (h : Rests b order) :
    b.addOrder order = ((b.matchOrder (withMarketPrice order)).book.insertRestingOrder
      (b.matchOrder (withMarketPrice order)).order).finish
        (b.matchOrder (withMarketPrice order)).order := by
  have hexit := addOrder_exit b order
  generalize b.addOrder order = added at hexit
  cases hexit with
  | refused _ hr _ => exact absurd h.passes (not_passes_of_rejected hr)
  | wouldCross hr => exact absurd h.passes (not_passes_of_rejected hr)
  | killed _ hkills _ => exact absurd hkills h.kind.not_killsRemainder
  | rested => rfl
  | dropped _ hioc _ => exact absurd hioc h.kind.not_immediate
  | finished _ hgone _ => exact absurd hgone (h.not_gone hb)

lemma Killed.addOrder_eq (hb : b.store.Sound) (h : Killed b order) :
    (b.addOrder order).2 = (b.matchOrder (withMarketPrice order)).book := by
  have hexit := addOrder_exit b order
  generalize b.addOrder order = added at hexit
  cases hexit with
  | refused _ hr _ => exact absurd h.passes (not_passes_of_rejected hr)
  | wouldCross hr => exact absurd h.passes (not_passes_of_rejected hr)
  | killed => rfl
  | rested _ hkind _ => exact absurd h.kind hkind.not_killsRemainder
  | dropped _ hioc _ => exact absurd hioc h.kind.not_immediate
  | finished _ _ hkills => exact absurd (hkills h.kind) (h.not_filled hb)

end OrderBook

end Exchange
