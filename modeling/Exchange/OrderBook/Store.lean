import Exchange.Core.KeyList
import Exchange.PriceLevel.Queue

/-!
# What an order book holds

The members of `OrderBook` that say what rests in the book: `orders_`, the two level maps and the
two cached best prices, with the functions that touch nothing else.

The source picks one of two twin members by side (`(order.side == Side::Buy) ? ask_levels_ :
bid_levels_`); `levels`, `best` and `updateBest` are that choice.  The two `update_best_*` functions
are kept apart, as they read opposite ends of their map.
-/

namespace Exchange

open Std (ExtTreeMap)

abbrev Orders := ExtTreeMap OrderId Order compare
abbrev Levels := ExtTreeMap Price PriceLevel compare

structure Store where
  orders : Orders := ∅
  bidLevels : Levels := ∅
  askLevels : Levels := ∅
  bestBid : Price := invalidPrice
  bestAsk : Price := invalidPrice

namespace Store

def levels (s : Store) : Side → Levels
  | .Buy => s.bidLevels
  | .Sell => s.askLevels

def setLevels (s : Store) : Side → Levels → Store
  | .Buy, m => { s with bidLevels := m }
  | .Sell, m => { s with askLevels := m }

def best (s : Store) : Side → Price
  | .Buy => s.bestBid
  | .Sell => s.bestAsk

/-- `rbegin()->first`, or `INVALID_PRICE`. -/
def updateBestBid (s : Store) : Store :=
  match s.bidLevels.keys.getLast? with
  | none => { s with bestBid := invalidPrice }
  | some p => { s with bestBid := p }

/-- `begin()->first`, or `INVALID_PRICE`. -/
def updateBestAsk (s : Store) : Store :=
  match s.askLevels.keys.head? with
  | none => { s with bestAsk := invalidPrice }
  | some p => { s with bestAsk := p }

def updateBest (s : Store) : Side → Store
  | .Buy => s.updateBestBid
  | .Sell => s.updateBestAsk

/-- Writing through a reference to a level of the map. -/
def setLevel (s : Store) (side : Side) (price : Price) (level : PriceLevel) : Store :=
  s.setLevels side ((s.levels side).insert price level)

def eraseLevel (s : Store) (side : Side) (price : Price) : Store :=
  s.setLevels side ((s.levels side).erase price)

/-- `orders_[order.id] = order`, and writing through a reference to an order. -/
def setOrder (s : Store) (id : OrderId) (order : Order) : Store :=
  { s with orders := s.orders.insert id order }

def eraseOrder (s : Store) (id : OrderId) : Store :=
  { s with orders := s.orders.erase id }

def removeOrderFromLevel (s : Store) (orderId : OrderId) (side : Side) (price : Price) : Store :=
  match (s.levels side)[price]? with
  | none => s
  | some level =>
      let level := level.removeOrder orderId
      if level.empty then s.eraseLevel side price else s.setLevel side price level

/-- The cached best price after a level at `price` has been entered. -/
def raiseBest (s : Store) (side : Side) (price : Price) : Store :=
  match side with
  | .Buy =>
      if s.bestBid = invalidPrice ∨ price > s.bestBid then { s with bestBid := price } else s
  | .Sell => if price < s.bestAsk then { s with bestAsk := price } else s

/-- `insert_resting_order`, up to the notification: `try_emplace` finds or makes the level. -/
def insertRestingOrder (s : Store) (order : Order) : Store :=
  let level := (s.levels order.side)[order.price]?.getD (.new order.price)
  ((s.setLevel order.side order.price (level.addOrder order.id order.remaining)).setOrder
    order.id order).raiseBest order.side order.price

/-- `cancel_order`, from the order found to the refreshed best price.  The side is read after the
order was erased from `orders_`; it is the cancelled order's. -/
def cancelOrder (s : Store) (orderId : OrderId) (order : Order) : Store :=
  ((s.removeOrderFromLevel orderId order.side order.price).eraseOrder orderId).updateBest order.side

/-! ## Reading back what was written -/

section Frame

variable (s : Store) (side side' : Side) (m : Levels) (p k : Price) (l : PriceLevel)
  (id : OrderId) (o : Order)

@[simp] lemma levels_setLevels :
    (s.setLevels side m).levels side' = if side' = side then m else s.levels side' := by
  cases side <;> cases side' <;> rfl

@[simp] lemma orders_setLevels : (s.setLevels side m).orders = s.orders := by
  cases side <;> rfl

@[simp] lemma best_setLevels : (s.setLevels side m).best side' = s.best side' := by
  cases side <;> cases side' <;> rfl

@[simp] lemma orders_setLevel : (s.setLevel side p l).orders = s.orders := by simp [setLevel]

@[simp] lemma best_setLevel : (s.setLevel side p l).best side' = s.best side' := by
  simp [setLevel]

@[simp] lemma orders_eraseLevel : (s.eraseLevel side p).orders = s.orders := by
  simp [eraseLevel]

@[simp] lemma best_eraseLevel : (s.eraseLevel side p).best side' = s.best side' := by
  simp [eraseLevel]

@[simp] lemma levels_setOrder : (s.setOrder id o).levels side = s.levels side := by
  cases side <;> rfl

@[simp] lemma best_setOrder : (s.setOrder id o).best side = s.best side := by cases side <;> rfl

@[simp] lemma levels_eraseOrder : (s.eraseOrder id).levels side = s.levels side := by
  cases side <;> rfl

@[simp] lemma best_eraseOrder : (s.eraseOrder id).best side = s.best side := by
  cases side <;> rfl

@[simp] lemma levels_updateBest : (s.updateBest side).levels side' = s.levels side' := by
  cases side <;> cases side' <;> simp only [updateBest, updateBestBid, updateBestAsk] <;>
    split <;> rfl

@[simp] lemma orders_updateBest : (s.updateBest side).orders = s.orders := by
  cases side <;> simp only [updateBest, updateBestBid, updateBestAsk] <;> split <;> rfl

@[simp] lemma levels_raiseBest : (s.raiseBest side p).levels side' = s.levels side' := by
  cases side <;> cases side' <;> simp only [raiseBest] <;> split <;> rfl

@[simp] lemma orders_raiseBest : (s.raiseBest side p).orders = s.orders := by
  cases side <;> simp only [raiseBest] <;> split <;> rfl

lemma best_updateBest_of_ne {s : Store} {side side' : Side} (h : side' ≠ side) :
    (s.updateBest side).best side' = s.best side' := by
  cases side <;> cases side' <;> first
    | exact absurd rfl h
    | (simp only [updateBest, updateBestBid, updateBestAsk]; split <;> rfl)

lemma best_raiseBest_of_ne {s : Store} {side side' : Side} {p : Price} (h : side' ≠ side) :
    (s.raiseBest side p).best side' = s.best side' := by
  cases side <;> cases side' <;> first
    | exact absurd rfl h
    | (simp only [raiseBest]; split <;> rfl)

lemma getElem?_setLevel :
    ((s.setLevel side p l).levels side')[k]?
      = if side' = side ∧ k = p then some l else (s.levels side')[k]? := by
  by_cases hs : side' = side
  · subst hs
    simp only [setLevel, levels_setLevels, if_true, ExtTreeMap.getElem?_insert,
      Std.compare_eq_iff_eq, true_and, eq_comm (a := p)]
  · simp [setLevel, hs]

lemma getElem?_eraseLevel :
    ((s.eraseLevel side p).levels side')[k]?
      = if side' = side ∧ k = p then none else (s.levels side')[k]? := by
  by_cases hs : side' = side
  · subst hs
    simp only [eraseLevel, levels_setLevels, if_true, ExtTreeMap.getElem?_erase,
      Std.compare_eq_iff_eq, true_and, eq_comm (a := p)]
  · simp [eraseLevel, hs]

lemma getElem?_setOrder (i : OrderId) :
    (s.setOrder id o).orders[i]? = if i = id then some o else s.orders[i]? := by
  simp only [setOrder, ExtTreeMap.getElem?_insert, Std.compare_eq_iff_eq, eq_comm (a := id)]

lemma getElem?_eraseOrder (i : OrderId) :
    (s.eraseOrder id).orders[i]? = if i = id then none else s.orders[i]? := by
  simp only [eraseOrder, ExtTreeMap.getElem?_erase, Std.compare_eq_iff_eq, eq_comm (a := id)]

@[simp] lemma orders_removeOrderFromLevel :
    (s.removeOrderFromLevel id side p).orders = s.orders := by
  rw [removeOrderFromLevel]
  split
  · rfl
  · dsimp only
    split <;> simp

@[simp] lemma best_removeOrderFromLevel :
    (s.removeOrderFromLevel id side p).best side' = s.best side' := by
  rw [removeOrderFromLevel]
  split
  · rfl
  · dsimp only
    split <;> simp

lemma getElem?_removeOrderFromLevel :
    ((s.removeOrderFromLevel id side p).levels side')[k]?
      = if side' = side ∧ k = p then
          (s.levels side)[p]?.bind fun level =>
            if (level.removeOrder id).empty then none else some (level.removeOrder id)
        else (s.levels side')[k]? := by
  rw [removeOrderFromLevel]
  cases hl : (s.levels side)[p]? with
  | none =>
      dsimp only
      split_ifs with h
      · obtain ⟨rfl, rfl⟩ := h
        rw [hl]
        rfl
      · rfl
  | some level =>
      dsimp only [Option.bind_some]
      by_cases hempty : (level.removeOrder id).empty = true
      · rw [if_pos hempty, getElem?_eraseLevel]
        simp only [hempty, if_true]
      · rw [if_neg hempty, getElem?_setLevel]
        simp only [hempty, Bool.false_eq_true, if_false]

@[simp] lemma levels_cancelOrder :
    (s.cancelOrder id o).levels side = (s.removeOrderFromLevel id o.side o.price).levels side := by
  simp [cancelOrder]

lemma getElem?_orders_cancelOrder (i : OrderId) :
    (s.cancelOrder id o).orders[i]? = if i = id then none else s.orders[i]? := by
  simp only [cancelOrder, orders_updateBest, getElem?_eraseOrder, orders_removeOrderFromLevel]

lemma best_cancelOrder_of_ne {s : Store} {id : OrderId} {o : Order} {side' : Side}
    (h : side' ≠ o.side) : (s.cancelOrder id o).best side' = s.best side' := by
  rw [cancelOrder, best_updateBest_of_ne h, best_eraseOrder, best_removeOrderFromLevel]

lemma raiseBest_setOrder :
    (s.setOrder id o).raiseBest side p = (s.raiseBest side p).setOrder id o := by
  cases side <;> simp only [raiseBest, apply_ite (fun t : Store => t.setOrder id o)] <;> rfl

/-- The level a resting order is appended to. -/
def targetLevel : PriceLevel := (s.levels o.side)[o.price]?.getD (.new o.price)

lemma getElem?_insertRestingOrder :
    ((s.insertRestingOrder o).levels side)[k]?
      = if side = o.side ∧ k = o.price then some ((s.targetLevel o).addOrder o.id o.remaining)
        else (s.levels side)[k]? := by
  simp only [insertRestingOrder, levels_raiseBest, levels_setOrder, getElem?_setLevel, targetLevel]

lemma getElem?_orders_insertRestingOrder (i : OrderId) :
    (s.insertRestingOrder o).orders[i]? = if i = o.id then some o else s.orders[i]? := by
  simp only [insertRestingOrder, orders_raiseBest, getElem?_setOrder, orders_setLevel]

lemma best_insertRestingOrder_of_ne {s : Store} {o : Order} {side : Side} (h : side ≠ o.side) :
    (s.insertRestingOrder o).best side = s.best side := by
  rw [insertRestingOrder, best_raiseBest_of_ne h, best_setOrder, best_setLevel]

end Frame

end Store

end Exchange
