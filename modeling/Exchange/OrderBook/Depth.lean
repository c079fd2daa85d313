import Exchange.OrderBook.Refinement
import Mathlib.Data.List.Sort

/-!
# What the book says of its levels

`get_bids` and `get_asks` list the levels of a side, best first; `bid_quantity_at` and
`ask_quantity_at` tell the total of one.  All of them read `total_quantity_`, a running total of 32
bits.

* `restingAt`, `openAt` — the orders of `orders_` that rest on a side at a price, and what they have
  left in all;
* **`toNat_quantityAt`** — where orders and nodes agree, the total is that, modulo `2 ^ 32`.
-/

namespace Exchange

open Std (ExtTreeMap)

namespace Store

/-! ## What rests at a price -/

/-- The orders on a side at a price. -/
def restingAt (s : Store) (side : Side) (p : Price) : List Order :=
  (s.orders.toList.map Prod.snd).filter fun o => o.side = side ∧ o.price = p

/-- What they have left. -/
def openAt (s : Store) (side : Side) (p : Price) : ℕ :=
  ((s.restingAt side p).map (·.remaining.toNat)).sum

/-- What the nodes of a level have left. -/
def queuedAt (s : Store) (side : Side) (p : Price) : ℕ :=
  (s.levels side)[p]?.elim 0 (·.openQuantity)

variable {s : Store} {side : Side} {p : Price}

lemma Agrees.mem_restingAt (h : s.Agrees) {o : Order} :
    o ∈ s.restingAt side p ↔ s.orders[o.id]? = some o ∧ o.side = side ∧ o.price = p := by
  rw [restingAt, List.mem_filter, decide_eq_true_iff]
  refine and_congr_left fun _ => ?_
  constructor
  · intro ho
    obtain ⟨⟨id, o⟩, hmem, rfl⟩ := List.mem_map.mp ho
    have ho := ExtTreeMap.mem_toList_iff_getElem?_eq_some.mp hmem
    rw [h.id_eq ho, ho]
  · intro ho
    exact List.mem_map.mpr ⟨(o.id, o), ExtTreeMap.mem_toList_iff_getElem?_eq_some.mpr ho, rfl⟩

lemma Agrees.mem_ordersAt_iff (h : s.Agrees) {o : Order} :
    o ∈ s.ordersAt side p ↔ s.orders[o.id]? = some o ∧ o.side = side ∧ o.price = p := by
  refine ⟨fun ho => h.mem_ordersAt ho, ?_⟩
  rintro ⟨ho, rfl, rfl⟩
  obtain ⟨n, ⟨level, hl, hn⟩, hid⟩ := h.queued ho
  rw [ordersAt_eq hl]
  exact List.mem_filterMap.mpr ⟨n, hn, by rw [hid, ho]⟩

lemma Agrees.nodup_restingAt (h : s.Agrees) (side : Side) (p : Price) :
    (s.restingAt side p).Nodup := by
  have hkeys : (s.orders.toList.map Prod.fst).Nodup := by
    rw [ExtTreeMap.map_fst_toList_eq_keys]
    exact ExtTreeMap.nodup_keys
  refine List.Nodup.filter _ (List.Nodup.map_on ?_ (List.Nodup.of_map _ hkeys))
  rintro ⟨id, o⟩ hmem ⟨id', o'⟩ hmem' heq
  obtain rfl : o = o' := heq
  rw [← h.id_eq (ExtTreeMap.mem_toList_iff_getElem?_eq_some.mp hmem),
    ← h.id_eq (ExtTreeMap.mem_toList_iff_getElem?_eq_some.mp hmem')]

lemma Agrees.nodup_ordersAt (h : s.Agrees) (side : Side) (p : Price) :
    (s.ordersAt side p).Nodup := by
  cases hl : (s.levels side)[p]? with
  | none =>
      rw [ordersAt, hl]
      exact List.nodup_nil
  | some level =>
      have hids : s.ordersAt side p
          = (level.nodes.map (·.orderId)).filterMap fun id => s.orders[id]? := by
        rw [ordersAt_eq hl, List.filterMap_map]
        rfl
      rw [hids]
      refine (h.indexed hl).ids_nodup.filterMap fun id id' o ho ho' => ?_
      rw [← h.id_eq ho, ← h.id_eq ho']

/-- The queue at a price holds the orders that rest there. -/
theorem Agrees.ordersAt_perm (h : s.Agrees) (side : Side) (p : Price) :
    (s.ordersAt side p).Perm (s.restingAt side p) := by
  rw [List.perm_ext_iff_of_nodup (h.nodup_ordersAt side p) (h.nodup_restingAt side p)]
  intro o
  rw [h.mem_ordersAt_iff, h.mem_restingAt]

lemma Agrees.openAt_eq (h : s.Agrees) (side : Side) (p : Price) :
    s.openAt side p = s.queuedAt side p := by
  have hleaves : (s.ordersAt side p).map (·.remaining.toNat) = (s.ordersAt side p).map Order.leaves :=
    List.map_congr_left fun o ho => Order.toNat_remaining (h.filled_le (h.mem_ordersAt ho).1)
  rw [openAt, ← ((h.ordersAt_perm side p).map _).sum_nat, hleaves, queuedAt]
  cases hl : (s.levels side)[p]? with
  | none => rw [ordersAt, hl]; rfl
  | some level => exact OrderBook.sum_leaves_ordersAt h hl

end Store

/-- **What a level says it has** is what rests there modulo `2 ^ 32`. -/
theorem Feed.toNat_quantityAt {s : Store} (h : s.Agrees) (side : Side) (p : Price) :
    (Feed.quantityAt s side p).toNat = s.openAt side p % 2 ^ 32 := by
  rw [h.openAt_eq, quantityAt, Store.queuedAt]
  cases (s.levels side)[p]? with
  | none => rfl
  | some level => exact level.wf.total_eq

namespace OrderBook

/-! ## Snapshots -/

/-- An entry of `get_bids` or `get_asks`. -/
def levelUpdate (x : Price × PriceLevel) : PriceLevelUpdate where
  price := x.1
  quantity := x.2.totalQuantity
  orderCount := UInt32.ofNat x.2.orderCount

/-- The levels that are not empty, sorted, cut off at `depth`. -/
def snapshot (before : Price → Price → Prop) [DecidableRel before] (levels : Levels) (depth : ℕ) :
    List PriceLevelUpdate :=
  (((levels.toList.filter fun x => !x.2.empty).insertionSort fun x y => before x.1 y.1).take
    depth).map levelUpdate

def getBids (b : OrderBook) (depth : ℕ) : List PriceLevelUpdate :=
  snapshot (· > ·) b.store.bidLevels depth

def getAsks (b : OrderBook) (depth : ℕ) : List PriceLevelUpdate :=
  snapshot (· < ·) b.store.askLevels depth

/-- An entry says what the book says of the level. -/
lemma quantity_of_mem_snapshot {before : Price → Price → Prop} [DecidableRel before] {s : Store}
    {side : Side} {depth : ℕ} {u : PriceLevelUpdate}
    (hu : u ∈ snapshot before (s.levels side) depth) :
    u.quantity = Feed.quantityAt s side u.price := by
  obtain ⟨⟨p, level⟩, hmem, rfl⟩ := List.mem_map.mp hu
  have hmem := (List.mem_insertionSort _).mp (List.mem_of_mem_take hmem)
  have hl := ExtTreeMap.mem_toList_iff_getElem?_eq_some.mp (List.mem_of_mem_filter hmem)
  have hat : (s.levels side)[(levelUpdate (p, level)).price]? = some level := hl
  rw [Feed.quantityAt, hat]
  rfl

end OrderBook

end Exchange
