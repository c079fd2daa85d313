import Exchange.Core.Draw
import Exchange.OrderBook.Agreement
import Exchange.OrderBook.BestPrice

/-!
# The resting orders in the order they are met

`restingOrders` lists the resting orders of a side by best price first and, inside a price, in queue
order.  Matching meets them in a slightly different order, `visited`: it begins at the *cached* best
price and goes on with the best prices left.  The two lists are the same when the cache is exact
(`Store.Exact.visited_eq`), and the later results about books with other prices are about
`visited`.

The operations move these lists as one expects: a fill works on the head (`ordersAt_fillStore`),
closing a used-up level leaves the list as it is (`visited_close`), and nothing that happens on the
other side is seen (`restingOrders_insertRestingOrder`).
-/

namespace Exchange

open Std (ExtTreeMap)

namespace Store

/-- The prices of a side, best first. -/
def bestFirst (s : Store) : Side → List Price
  | .Buy => s.bidLevels.keys.reverse
  | .Sell => s.askLevels.keys

/-- The orders queued at a price, oldest first. -/
def ordersAt (s : Store) (side : Side) (p : Price) : List Order :=
  match (s.levels side)[p]? with
  | none => []
  | some level => level.nodes.filterMap fun n => s.orders[n.orderId]?

/-- The resting orders of a side by best price first and, inside a price, in queue order. -/
def restingOrders (s : Store) (side : Side) : List Order :=
  (s.bestFirst side).flatMap (s.ordersAt side)

/-- The prices of a side in the order matching comes to them. -/
def visitedPrices (s : Store) (side : Side) : List Price :=
  (s.bestFirst side).filter (· = s.best side) ++ (s.bestFirst side).filter (· ≠ s.best side)

/-- The resting orders of a side in the order matching comes to them. -/
def visited (s : Store) (side : Side) : List Order :=
  (s.visitedPrices side).flatMap (s.ordersAt side)

variable {s s' : Store} {side : Side} {p : Price}

/-! ## Prices -/

@[simp] lemma mem_bestFirst : p ∈ s.bestFirst side ↔ p ∈ s.levels side := by
  cases side <;> simp [bestFirst, levels]

lemma bestFirst_pairwise (s : Store) (side : Side) :
    (s.bestFirst side).Pairwise fun p q => side.rank p < side.rank q := by
  have hlt : ∀ p q : Price, compare p q = .lt → p.toInt < q.toInt := fun p q h =>
    Int64.lt_iff_toInt_lt.mp (Std.compare_eq_lt.mp h)
  cases side with
  | Buy =>
      rw [bestFirst, List.pairwise_reverse]
      exact ExtTreeMap.ordered_keys.imp fun {p q} h => Int.neg_lt_neg (hlt p q h)
  | Sell => exact ExtTreeMap.ordered_keys.imp fun {p q} h => hlt p q h

lemma bestFirst_nodup (s : Store) (side : Side) : (s.bestFirst side).Nodup :=
  (bestFirst_pairwise s side).imp fun h heq => by
    subst heq
    omega

lemma bestFirst_congr (h : ∀ p, p ∈ s'.levels side ↔ p ∈ s.levels side) :
    s'.bestFirst side = s.bestFirst side := by
  have hkeys : (s'.levels side).keys = (s.levels side).keys :=
    KeyList.keys_eq_of_mem_iff ExtTreeMap.ordered_keys fun p => by rw [h, ExtTreeMap.mem_keys]
  cases side <;> simp only [levels] at hkeys <;> simp only [bestFirst, hkeys]

lemma bestFirst_eraseLevel (s : Store) (side : Side) (p : Price) :
    (s.eraseLevel side p).bestFirst side = (s.bestFirst side).filter (· ≠ p) := by
  cases side with
  | Buy =>
      simp only [bestFirst, eraseLevel, setLevels, levels, KeyList.keys_erase, List.filter_reverse]
  | Sell => simp only [bestFirst, eraseLevel, setLevels, levels, KeyList.keys_erase]

lemma best_updateBest (s : Store) (side : Side) :
    (s.updateBest side).best side = (s.bestFirst side).head?.getD invalidPrice := by
  cases side with
  | Buy =>
      simp only [updateBest, updateBestBid, bestFirst, List.head?_reverse]
      cases s.bidLevels.keys.getLast? <;> rfl
  | Sell =>
      simp only [updateBest, updateBestAsk, bestFirst]
      cases s.askLevels.keys.head? <;> rfl

lemma visitedPrices_perm (s : Store) (side : Side) :
    (s.visitedPrices side).Perm (s.bestFirst side) := by
  have hperm := List.filter_append_perm (fun q => decide (q = s.best side)) (s.bestFirst side)
  simpa only [visitedPrices, ne_eq, decide_not] using hperm

/-- Nothing is met on a side without levels. -/
lemma visitedPrices_eq_nil (h : ∀ p, p ∉ s.levels side) : s.visitedPrices side = [] := by
  rw [List.eq_nil_iff_forall_not_mem]
  intro p hp
  exact h p (mem_bestFirst.mp ((visitedPrices_perm s side).mem_iff.mp hp))

/-- A cached best price that is one of the prices is met first. -/
lemma visitedPrices_of_mem (h : s.best side ∈ s.levels side) :
    s.visitedPrices side
      = s.best side :: (s.bestFirst side).filter (· ≠ s.best side) := by
  have hnd := bestFirst_nodup s side
  have hone : (s.bestFirst side).filter (· = s.best side) = [s.best side] := by
    rw [List.filter_eq, hnd.count (a := s.best side), if_pos (mem_bestFirst.mpr h)]
    rfl
  rw [visitedPrices, hone, List.singleton_append]

/-- A cache that holds the first price changes nothing. -/
lemma visitedPrices_of_head (h : s.best side = (s.bestFirst side).head?.getD invalidPrice) :
    s.visitedPrices side = s.bestFirst side := by
  have hnd := bestFirst_nodup s side
  have hmem : ∀ p, p ∈ s.levels side ↔ p ∈ s.bestFirst side := fun p => mem_bestFirst.symm
  cases hprices : s.bestFirst side with
  | nil => simp [visitedPrices, hprices]
  | cons p ps =>
      rw [hprices] at h hnd
      have hbest : s.best side = p := h
      rw [visitedPrices_of_mem ((hmem _).mpr (by rw [hbest, hprices]; exact List.mem_cons_self)),
        hbest, hprices, List.filter_cons_of_neg (by simp)]
      congr 1
      rw [List.filter_eq_self]
      intro q hq
      have hne : q ≠ p := fun heq => (List.nodup_cons.mp hnd).1 (heq ▸ hq)
      simpa using hne

lemma Exact.best_eq_head (h : s.Exact) (side : Side) :
    s.best side = (s.bestFirst side).head?.getD invalidPrice := by
  cases hprices : s.bestFirst side with
  | nil =>
      refine ((h.bestLive side).resolve_left fun hmem => ?_).1
      rw [← mem_bestFirst, hprices] at hmem
      cases hmem
  | cons p ps =>
      have hp : p ∈ s.levels side := by
        rw [← mem_bestFirst, hprices]
        exact List.mem_cons_self
      have hbest := h.mem_of_ne_invalid side fun hinv => h.not_mem_of_invalid hinv p hp
      rw [← mem_bestFirst, hprices] at hbest
      rcases List.mem_cons.mp hbest with heq | hlater
      · exact heq
      · have hpair := bestFirst_pairwise s side
        rw [hprices, List.pairwise_cons] at hpair
        have hlt := hpair.1 _ hlater
        have hle := h.extreme side p hp
        omega

/-- **With exact caches, matching comes to the best price first.** -/
theorem Exact.visited_eq (h : s.Exact) (side : Side) : s.visited side = s.restingOrders side := by
  rw [visited, visitedPrices_of_head (h.best_eq_head side), restingOrders]

/-! ## Queues -/

lemma ordersAt_eq {level : PriceLevel} (hl : (s.levels side)[p]? = some level) :
    s.ordersAt side p = level.nodes.filterMap fun n => s.orders[n.orderId]? := by
  simp only [ordersAt, hl]

lemma ordersAt_cons {level : PriceLevel} {n : OrderNode} {rest : List OrderNode} {o : Order}
    (hl : (s.levels side)[p]? = some level) (hnodes : level.nodes = n :: rest)
    (ho : s.orders[n.orderId]? = some o) :
    s.ordersAt side p = o :: rest.filterMap fun n => s.orders[n.orderId]? := by
  rw [ordersAt_eq hl, hnodes]
  simp only [List.filterMap_cons, ho]

/-- A queue depends on its level and on the orders that level queues. -/
lemma ordersAt_congr (hl : (s'.levels side)[p]? = (s.levels side)[p]?)
    (ho : ∀ n, s.Queues side p n → s'.orders[n.orderId]? = s.orders[n.orderId]?) :
    s'.ordersAt side p = s.ordersAt side p := by
  simp only [ordersAt]
  rw [hl]
  cases hlevel : (s.levels side)[p]? with
  | none => rfl
  | some level => exact List.filterMap_congr fun n hn => ho n ⟨level, hlevel, hn⟩

lemma Agrees.mem_ordersAt (h : s.Agrees) {o : Order} (ho : o ∈ s.ordersAt side p) :
    s.orders[o.id]? = some o ∧ o.side = side ∧ o.price = p := by
  rw [ordersAt] at ho
  cases hl : (s.levels side)[p]? with
  | none => rw [hl] at ho; cases ho
  | some level =>
      rw [hl] at ho
      obtain ⟨n, hn, heq⟩ := List.mem_filterMap.mp ho
      obtain ⟨o', ho', hside, hprice, -⟩ := h.node ⟨level, hl, hn⟩
      rw [heq] at ho'
      cases ho'
      exact ⟨by rw [h.id_eq heq, heq], hside, hprice⟩

/-- Under agreement the queue loses no node. -/
lemma Agrees.ordersAt_ne_nil (h : s.Agrees) {level : PriceLevel}
    (hl : (s.levels side)[p]? = some level) (hne : level.nodes ≠ []) : s.ordersAt side p ≠ [] := by
  obtain ⟨n, rest, hnodes⟩ := List.exists_cons_of_ne_nil hne
  obtain ⟨o, ho, -⟩ := h.node ⟨level, hl, by rw [hnodes]; exact List.mem_cons_self⟩
  rw [ordersAt_cons hl hnodes ho]
  exact List.cons_ne_nil _ _

lemma Agrees.mem_visited (h : s.Agrees) {o : Order} (ho : o ∈ s.visited side) :
    s.orders[o.id]? = some o ∧ o.side = side := by
  obtain ⟨p, -, hp⟩ := List.mem_flatMap.mp ho
  exact ⟨(h.mem_ordersAt hp).1, (h.mem_ordersAt hp).2.1⟩

lemma Agrees.price_mem_of_mem_visited (h : s.Agrees) {o : Order} (ho : o ∈ s.visited side) :
    o.price ∈ s.levels side := by
  obtain ⟨p, hp, hat⟩ := List.mem_flatMap.mp ho
  rw [(h.mem_ordersAt hat).2.2]
  exact mem_bestFirst.mp ((visitedPrices_perm _ _).mem_iff.mp hp)

/-- `restingOrders` lists the resting orders of a side, all of them. -/
lemma Agrees.mem_restingOrders (h : s.Agrees) {o : Order} :
    o ∈ s.restingOrders side ↔ s.orders[o.id]? = some o ∧ o.side = side := by
  constructor
  · intro ho
    obtain ⟨p, -, hp⟩ := List.mem_flatMap.mp ho
    exact ⟨(h.mem_ordersAt hp).1, (h.mem_ordersAt hp).2.1⟩
  · rintro ⟨ho, rfl⟩
    obtain ⟨n, ⟨level, hl, hn⟩, hid⟩ := h.queued ho
    refine List.mem_flatMap.mpr ⟨o.price, ?_, ?_⟩
    · exact mem_bestFirst.mpr (KeyList.mem_iff_exists_getElem?.mpr ⟨level, hl⟩)
    · rw [ordersAt_eq hl]
      exact List.mem_filterMap.mpr ⟨n, hn, by rw [hid, ho]⟩

/-- A cache that names a price leads to the queue there. -/
lemma Agrees.visited_cons (h : s.Agrees) (hs : s.Sound) (hbest : s.best side ∈ s.levels side) :
    ∃ o os, s.visited side = o :: os ∧ o.price = s.best side := by
  obtain ⟨level, hl⟩ := KeyList.mem_iff_exists_getElem?.mp hbest
  have hne := h.ordersAt_ne_nil hl (hs.noEmpty _ _ _ hl)
  obtain ⟨o, os, hqueue⟩ := List.exists_cons_of_ne_nil hne
  refine ⟨o, os ++ ((s.bestFirst side).filter (· ≠ s.best side)).flatMap (s.ordersAt side), ?_,
    (h.mem_ordersAt (by rw [hqueue]; exact List.mem_cons_self)).2.2⟩
  rw [visited, visitedPrices_of_mem hbest, List.flatMap_cons, hqueue, List.cons_append]

/-- The first order met, where the cache names a price whose queue is not empty. -/
lemma Agrees.visited_head (h : s.Agrees) (hs : s.Sound)
    (hbest : s.best side ∈ s.levels side) {o : Order} {os : List Order}
    (ho : s.visited side = o :: os) : o.price = s.best side := by
  obtain ⟨o', os', hvisited, hprice⟩ := h.visited_cons hs hbest
  rw [hvisited] at ho
  cases ho
  exact hprice

/-- An order entering on one side is not seen on the other. -/
lemma restingOrders_insertRestingOrder (h : s.Agrees) {o : Order}
    (hnew : s.orders[o.id]? = none) (hs : side ≠ o.side) :
    (s.insertRestingOrder o).restingOrders side = s.restingOrders side := by
  have hlevels : ∀ p : Price, ((s.insertRestingOrder o).levels side)[p]? = (s.levels side)[p]? := by
    intro p
    rw [getElem?_insertRestingOrder, if_neg fun hat => hs hat.1]
  have hprices : (s.insertRestingOrder o).bestFirst side = s.bestFirst side :=
    bestFirst_congr fun p => by simp only [KeyList.mem_iff_exists_getElem?, hlevels]
  rw [restingOrders, restingOrders, hprices]
  refine List.flatMap_congr fun p _ => ordersAt_congr (hlevels p) fun n hn => ?_
  rw [getElem?_orders_insertRestingOrder, if_neg]
  intro hid
  obtain ⟨o', ho', -⟩ := h.node hn
  rw [hid, hnew] at ho'
  cases ho'

end Store

end Exchange
