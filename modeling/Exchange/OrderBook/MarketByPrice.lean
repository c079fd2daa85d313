import Exchange.Core.Ladder
import Exchange.OrderBook.LevelTotals
import Exchange.OrderBook.OpenQuantity
import Exchange.OrderBook.Rejection
import Mathlib.Data.Finsupp.Order

/-!
# The market by price

What a book is for, without orders: on each side a ladder of ranks, smaller for better prices, with
the quantity that rests at each.  An order that comes in takes from the ladder of the other side,
best ranks first, up to the last one it accepts, and what is left of it may be added to its own.

* `PriceEvent`, `MarketByPrice.step` — the events of such a market and what they do to it;
* `events` — what a call means to it;
* `Store.depth` — the market that a store amounts to.

**`market_by_price`** — in every run with self-trade prevention off, valid prices and replaces in
place of unfilled orders, the book is the market its events lead to; its best prices are where the
ladders start, and what the next order trades can be read off them.
-/

namespace Exchange

open Finsupp (single single_zero)
open Ladder

lemma Side.opposite_eq_of_ne {side side' : Side} (h : side ≠ side') : side.opposite = side' := by
  cases side <;> cases side' <;> simp_all [Side.opposite]

/-! ## The abstract market -/

/-- What happens to a market by price. -/
inductive PriceEvent
  /-- an order comes in: `last` is the last rank it trades at, `rests` the one at which what is
  left of it is put -/
  | arrive (side : Side) (last : Option ℤ) (quantity : ℕ) (rests : Option ℤ)
  /-- what an order has at a rank is something else -/
  | change (side : Side) (rank : ℤ) (before after : ℕ)

namespace MarketByPrice

/-- An order that is not tied to a price accepts every rank. -/
def Accepts (last : Option ℤ) (rank : ℤ) : Prop := ∀ k ∈ last, rank ≤ k

instance (last : Option ℤ) (rank : ℤ) : Decidable (Accepts last rank) :=
  inferInstanceAs (Decidable (∀ k ∈ last, rank ≤ k))

/-- What an order trades: all that it wants, or all that it accepts. -/
noncomputable def traded (market : Side → ℤ →₀ ℕ) (side : Side) (last : Option ℤ)
    (quantity : ℕ) : ℕ :=
  min quantity (within (market side.opposite) (Accepts last))

/-- What is put at a rank, if anything. -/
noncomputable def put (rests : Option ℤ) (quantity : ℕ) : ℤ →₀ ℕ :=
  rests.elim 0 fun rank => single rank quantity

noncomputable def step (market : Side → ℤ →₀ ℕ) : PriceEvent → Side → ℤ →₀ ℕ
  | .arrive side last quantity rests, s =>
      if side = s then
        market side + put rests (quantity - traded market side last quantity)
      else consume (market s) (traded market side last quantity)
  | .change side rank before after, s =>
      if side = s then market side - single rank before + single rank after else market s

end MarketByPrice

namespace Store

/-- The market that a store amounts to. -/
noncomputable def depth (s : Store) (side : Side) : ℤ →₀ ℕ :=
  ofList (fun o : Order => side.rank o.price) Order.leaves (s.restingOrders side)

variable {s s' : Store} {side : Side} {p : Price} {id : OrderId} {o : Order}

/-! ## What the resting orders come to -/

lemma Agrees.restingOrders_pairwise (h : s.Agrees) (side : Side) :
    (s.restingOrders side).Pairwise fun o o' => side.rank o.price ≤ side.rank o'.price := by
  rw [restingOrders, List.pairwise_flatMap]
  refine ⟨fun p _ => ?_, (bestFirst_pairwise s side).imp fun {p q} hlt o ho o' ho' => ?_⟩
  · refine List.pairwise_of_forall_mem_list fun o ho o' ho' => ?_
    rw [(h.mem_ordersAt ho).2.2, (h.mem_ordersAt ho').2.2]
  · rw [(h.mem_ordersAt ho).2.2, (h.mem_ordersAt ho').2.2]
    exact hlt.le

lemma Agrees.nodup_restingOrders (h : s.Agrees) (side : Side) : (s.restingOrders side).Nodup := by
  rw [restingOrders, List.nodup_flatMap]
  refine ⟨fun p _ => h.nodup_ordersAt side p,
    (bestFirst_pairwise s side).imp fun {p q} hlt o ho ho' => ?_⟩
  have hprice := (h.mem_ordersAt ho).2.2
  rw [(h.mem_ordersAt ho').2.2] at hprice
  rw [hprice] at hlt
  exact lt_irrefl _ hlt

/-- The orders of a price among those of its side. -/
lemma Agrees.filter_restingOrders_perm (h : s.Agrees) (side : Side) (p : Price) :
    ((s.restingOrders side).filter fun o => side.rank o.price = side.rank p).Perm
      (s.restingAt side p) := by
  rw [List.perm_ext_iff_of_nodup ((h.nodup_restingOrders side).filter _) (h.nodup_restingAt side p)]
  intro o
  rw [List.mem_filter, h.mem_restingOrders, h.mem_restingAt, decide_eq_true_iff, and_assoc]
  have hrank : side.rank o.price = side.rank p ↔ o.price = p := by
    cases side <;> simp [Side.rank, Int64.toInt_inj]
  rw [hrank]

/-- **A rank has what rests at its price.** -/
theorem Agrees.depth_rank (h : s.Agrees) (side : Side) (p : Price) :
    s.depth side (side.rank p) = s.openAt side p := by
  have hleaves : (s.restingAt side p).map (·.remaining.toNat)
      = (s.restingAt side p).map Order.leaves :=
    List.map_congr_left fun o ho => Order.toNat_remaining (h.filled_le (h.mem_restingAt.mp ho).1)
  rw [depth, ofList_apply, openAt, hleaves]
  exact ((h.filter_restingOrders_perm side p).map _).sum_nat

/-- Where there is something, an order rests. -/
lemma Agrees.exists_of_depth_ne_zero (h : s.Agrees) {k : ℤ} (hk : s.depth side k ≠ 0) :
    ∃ o : Order, s.orders[o.id]? = some o ∧ o.side = side ∧ side.rank o.price = k := by
  rw [depth, ofList_apply] at hk
  have hne : (s.restingOrders side).filter (fun o => side.rank o.price = k) ≠ [] := by
    intro hnil
    rw [hnil] at hk
    exact hk rfl
  obtain ⟨o, ho⟩ := List.exists_mem_of_ne_nil _ hne
  obtain ⟨hmem, hrank⟩ := List.mem_filter.mp ho
  obtain ⟨hat, hside⟩ := h.mem_restingOrders.mp hmem
  exact ⟨o, hat, hside, of_decide_eq_true hrank⟩

/-- Stores that have the same at every price have the same depth. -/
lemma Agrees.depth_congr (h : s.Agrees) (h' : s'.Agrees)
    (heq : ∀ p, s'.openAt side p = s.openAt side p) : s'.depth side = s.depth side := by
  ext k
  by_cases hk : ∃ p, side.rank p = k
  · obtain ⟨p, rfl⟩ := hk
    rw [h.depth_rank, h'.depth_rank, heq]
  · have hnone : ∀ {t : Store}, t.Agrees → t.depth side k = 0 := fun {t} ht => by
      by_contra hne
      obtain ⟨o, -, -, hrank⟩ := ht.exists_of_depth_ne_zero hne
      exact hk ⟨_, hrank⟩
    rw [hnone h, hnone h']

/-! ## Changing one order -/

/-- What the order under an id has on a side. -/
noncomputable def share (s : Store) (id : OrderId) (side : Side) : ℤ →₀ ℕ :=
  (s.orders[id]?).elim 0 fun o => if o.side = side then single (o.side.rank o.price) o.leaves else 0

/-- What the other orders have. -/
noncomputable def others (s : Store) (id : OrderId) (side : Side) : ℤ →₀ ℕ :=
  ofList (fun o : Order => side.rank o.price) Order.leaves
    ((s.restingOrders side).filter fun o => o.id ≠ id)

lemma Agrees.depth_eq_share_add (h : s.Agrees) (id : OrderId) (side : Side) :
    s.depth side = s.share id side + s.others id side := by
  have hkeep : (∀ o, s.orders[id]? = some o → o.side ≠ side) →
      (s.restingOrders side).filter (fun o => o.id ≠ id) = s.restingOrders side := by
    intro hno
    rw [List.filter_eq_self]
    intro o ho
    obtain ⟨hat, hside⟩ := h.mem_restingOrders.mp ho
    rw [decide_eq_true_iff]
    rintro rfl
    exact hno o hat hside
  rw [share, others]
  cases ho : s.orders[id]? with
  | none =>
      have hall := hkeep fun o hsome => by
        rw [ho] at hsome
        cases hsome
      rw [hall, Option.elim_none, zero_add, depth]
  | some o =>
      rw [Option.elim_some]
      split_ifs with hside
      · have hid := h.id_eq ho
        have hperm : (s.restingOrders side).Perm
            (o :: (s.restingOrders side).filter fun o => o.id ≠ id) := by
          rw [List.perm_ext_iff_of_nodup (h.nodup_restingOrders side)
            (List.nodup_cons.mpr ⟨fun hmem => ?_, (h.nodup_restingOrders side).filter _⟩)]
          · intro o'
            rw [List.mem_cons, List.mem_filter, decide_eq_true_iff, h.mem_restingOrders]
            constructor
            · rintro ⟨hat, hside'⟩
              by_cases hid' : o'.id = id
              · rw [hid', ho] at hat
                exact Or.inl (Option.some.inj hat).symm
              · exact Or.inr ⟨⟨hat, hside'⟩, hid'⟩
            · rintro (rfl | ⟨hmem, -⟩)
              · exact ⟨by rw [hid, ho], hside⟩
              · exact hmem
          · exact of_decide_eq_true (List.mem_filter.mp hmem).2 hid
        rw [depth, ofList_perm hperm, ofList_cons, hside]
      · have hall := hkeep fun o' hsome => by
          rw [ho] at hsome
          cases hsome
          exact hside
        rw [hall, zero_add, depth]

/-- Stores that have the same other orders. -/
lemma Agrees.others_congr (h : s.Agrees) (h' : s'.Agrees)
    (hsame : ∀ i, i ≠ id → s'.orders[i]? = s.orders[i]?) (side : Side) :
    s'.others id side = s.others id side := by
  refine ofList_perm ?_
  rw [List.perm_ext_iff_of_nodup ((h'.nodup_restingOrders side).filter _)
    ((h.nodup_restingOrders side).filter _)]
  intro o
  rw [List.mem_filter, List.mem_filter, h.mem_restingOrders, h'.mem_restingOrders,
    decide_eq_true_iff]
  refine and_congr_left fun hid => ?_
  rw [hsame _ hid]

end Store

namespace OrderBook

open MatchState MarketByPrice

variable {b : OrderBook} {order o : Order} {id : OrderId}

/-! ## What a call means to the market -/

instance (o : Order) : Decidable (Restable o) :=
  decidable_of_iff
    ((o.type = .Limit ∨ o.type = .PostOnly) ∧ (o.tif = .Day ∨ o.tif = .GoodTillCancel))
    ⟨fun h => ⟨h.1, h.2⟩, fun h => ⟨h.type_ok, h.tif_ok⟩⟩

/-- A market order trades at any rank, others up to that of their price. -/
def lastRank (order : Order) : Option ℤ :=
  if order.type = .Market then none else some (order.side.opposite.rank order.price)

/-- Where what is left of an order is put. -/
def restsAt (order : Order) : Option ℤ :=
  if Restable order then some (order.side.rank order.price) else none

def addEvents (b : OrderBook) (order : Order) : List PriceEvent :=
  if b.rejectReason order = none then
    [.arrive order.side (lastRank order) order.leaves (restsAt order)]
  else []

def cancelEvents (b : OrderBook) (id : OrderId) : List PriceEvent :=
  match b.store.orders[id]? with
  | none => []
  | some o => [.change o.side (o.side.rank o.price) o.leaves 0]

/-- A replace at another price is a cancel and an add. -/
def replaceEvents (b : OrderBook) (id : OrderId) (newPrice : Price) (newQty : Quantity) :
    List PriceEvent :=
  match b.store.orders[id]? with
  | none => []
  | some o =>
      if o.price = newPrice then
        [.change o.side (o.side.rank o.price) o.leaves
          ({ o with quantity := newQty } : Order).leaves]
      else cancelEvents b id ++ addEvents (b.cancelOrder id).2 (replacement o id newPrice newQty)

/-- What a call means to the market. -/
def events (b : OrderBook) : Op → List PriceEvent
  | .add order => addEvents b order
  | .cancel id => cancelEvents b id
  | .replace _ id newPrice newQty => replaceEvents b id newPrice newQty
  | .flush => []

/-! ## Matching -/

lemma accepts_iff {p : Price} : Accepts (lastRank order) (order.side.opposite.rank p) ↔
    crosses (withMarketPrice order) p = true := by
  rw [Accepts, lastRank, crosses, withMarketPrice_type, Bool.or_eq_true, beq_iff_eq]
  split_ifs with htype
  · simp [htype]
  · rw [Order.wouldCross_iff, withMarketPrice_side, withMarketPrice_price htype]
    simp [htype]

/-- What an order trades is told from the ladder of the other side. -/
lemma sum_referenceFills (hagrees : b.store.Agrees) (order : Order) :
    ((referenceFills (withMarketPrice order) (b.store.restingOrders order.side.opposite)).map
        (·.2)).sum
      = traded b.store.depth order.side (lastRank order) order.leaves := by
  have hreach : Draw.reach (fun maker => !crosses (withMarketPrice order) maker.price) Order.leaves
      (b.store.restingOrders order.side.opposite)
        = within (b.store.depth order.side.opposite) (Accepts (lastRank order)) := by
    refine reach_eq_within (hagrees.restingOrders_pairwise _) ?_ fun maker _ => ?_
    · exact fun j k hjk hk last hlast => hjk.trans (hk last hlast)
    · rw [Bool.not_eq_false', accepts_iff]
  rw [referenceFills, Draw.sum_drawn, hreach, leaves_withMarketPrice, traded]

/-- **Matching consumes the ladder of the other side** and leaves the order's own alone. -/
lemma depth_matchOrder (hexact : b.store.Exact) (hagrees : b.store.Agrees)
    (hstp : b.config.enableSelfTradePrevention = false) (order : Order) :
    let m := b.matchOrder (withMarketPrice order)
    let n := traded b.store.depth order.side (lastRank order) order.leaves
    m.book.store.depth order.side.opposite = consume (b.store.depth order.side.opposite) n ∧
      m.book.store.depth order.side = b.store.depth order.side ∧
      m.order.filledQty.toNat = order.filledQty.toNat + n ∧
      m.order.leaves = order.leaves - n := by
  intro m n
  have hagrees' : m.book.store.Agrees := agrees_invariant.matchOrder b _ hagrees
  obtain ⟨-, hfilled, hleft⟩ := matchOrder_reference hexact hagrees hstp (withMarketPrice order)
  have hsum := sum_referenceFills hagrees order
  rw [withMarketPrice_side, hsum, withMarketPrice_filledQty] at hfilled
  rw [withMarketPrice_side] at hleft
  refine ⟨?_, ?_, hfilled, ?_⟩
  · have hconsumed : ofList (fun o : Order => order.side.opposite.rank o.price) Order.leaves
        (unconsumed (withMarketPrice order) (b.store.restingOrders order.side.opposite))
          = consume (b.store.depth order.side.opposite) ((referenceFills (withMarketPrice order)
              (b.store.restingOrders order.side.opposite)).map (·.2)).sum :=
      ofList_left (hagrees.restingOrders_pairwise _)
        (fun maker q => by rw [reduce, Order.fill_price]) fun maker hmaker q hq =>
          leaves_reduce (hagrees.filled_le (hagrees.mem_restingOrders.mp hmaker).1) hq
    rw [Store.depth, hleft, hconsumed, hsum]
  · refine hagrees.depth_congr hagrees' fun p => ?_
    have hown := queuedAt_matchOrder_own b (withMarketPrice order) p
    rw [withMarketPrice_side] at hown
    rw [hagrees.openAt_eq, hagrees'.openAt_eq, hown]
  · have hquantity : m.order.quantity = order.quantity := by
      rw [(matchOrder_sameTaker b _).quantity_eq, withMarketPrice_quantity]
    rw [Order.leaves, hquantity, hfilled, Nat.sub_add_eq, ← Order.leaves]

/-! ## Calls -/

/-- A remainder that rests is put on its own side. -/
lemma depth_insertRestingOrder {s : Store} (h : s.Agrees) (h' : (s.insertRestingOrder o).Agrees)
    (hnew : s.orders[o.id]? = none) (side : Side) :
    (s.insertRestingOrder o).depth side
      = s.depth side + if o.side = side then single (o.side.rank o.price) o.leaves else 0 := by
  have horders := Store.getElem?_orders_insertRestingOrder s o
  rw [h.depth_eq_share_add o.id, h'.depth_eq_share_add o.id,
    h.others_congr h' (fun i hi => by rw [horders, if_neg hi]), Store.share, Store.share, hnew,
    horders, if_pos rfl, Option.elim_none, Option.elim_some, zero_add, add_comm]

/-- An order that is accepted, once what is left of it is where it goes. -/
lemma depth_of_matched (h : Standing b) (hagrees : b.store.Agrees)
    (hr : b.rejectReason order = none) {s : Store}
    (hdepth : ∀ side, s.depth side
      = (b.matchOrder (withMarketPrice order)).book.store.depth side
        + if order.side = side then
            put (restsAt order) (b.matchOrder (withMarketPrice order)).order.leaves
          else 0) :
    s.depth = Run.run MarketByPrice.step b.store.depth (addEvents b order) := by
  obtain ⟨hopposite, hown, -, hleaves⟩ := depth_matchOrder h.toExact hagrees h.stp_off order
  funext side
  rw [addEvents, if_pos hr, Run.run, List.foldl_cons, List.foldl_nil, MarketByPrice.step,
    hdepth side]
  by_cases hside : order.side = side
  · subst hside
    rw [if_pos rfl, if_pos rfl, hown, hleaves]
  · obtain rfl : order.side.opposite = side := Side.opposite_eq_of_ne hside
    rw [if_neg hside, if_neg hside, hopposite, add_zero]

/-- The step lemma for `add_order`. -/
theorem depth_addOrder (h : Standing b) (hagrees : b.store.Agrees) (order : Order) :
    (b.addOrder order).2.store.depth
      = Run.run MarketByPrice.step b.store.depth (addEvents b order) := by
  have hagrees' : (b.addOrder order).2.store.Agrees := agrees_calls.addOrder hagrees trivial
  cases addOrder_cases b order with
  | rejected _ hr _ hquiet =>
      rw [addEvents, hr, if_neg (by simp), hquiet.store_eq]
      rfl
  | killed hr hkills _ _ hquiet =>
      refine depth_of_matched h hagrees hr fun side => ?_
      have hnone : restsAt order = none := if_neg fun hkind => hkind.not_killsRemainder hkills
      rw [hnone, put, Option.elim_none, ite_self, add_zero, hquiet.store_eq]
  | rested hr hkind hopen _ _ hquiet =>
      have htaker := matchOrder_sameTaker b (withMarketPrice order)
      have hnew : (b.matchOrder (withMarketPrice order)).book.store.orders[
          (b.matchOrder (withMarketPrice order)).order.id]? = none := by
        rw [htaker.id_eq, withMarketPrice_id]
        exact matchOrder_orders_none b _ (rejectReason_eq_none_iff.mp hr).id_new
      have hmatched : (b.matchOrder (withMarketPrice order)).book.store.Agrees :=
        agrees_invariant.matchOrder b _ hagrees
      rw [hquiet.store_eq] at hagrees' ⊢
      refine depth_of_matched h hagrees hr fun side => ?_
      rw [restsAt, if_pos hkind, put, Option.elim_some]
      refine (depth_insertRestingOrder hmatched hagrees' hnew side).trans ?_
      rw [htaker.side_eq, htaker.price_eq, hkind.withMarketPrice_eq]
  | passed hr hgone _ _ _ hquiet =>
      have hnothing :
          put (restsAt order) (b.matchOrder (withMarketPrice order)).order.leaves = 0 := by
        rw [restsAt]
        split_ifs with hkind
        · have hfilled := hgone.resolve_right (not_not_intro hkind)
          rw [Order.leaves_eq_zero_iff.mpr hfilled, put, Option.elim_some, single_zero]
        · rfl
      refine depth_of_matched h hagrees hr fun side => ?_
      rw [hnothing, ite_self, add_zero, hquiet.store_eq]

/-- What rests under an id goes and something else comes. -/
lemma depth_change {s s' : Store} (h : s.Agrees) (h' : s'.Agrees)
    (hsame : ∀ i, i ≠ id → s'.orders[i]? = s.orders[i]?) (ho : s.orders[id]? = some o)
    {quantity : ℕ}
    (hshare : ∀ side, s'.share id side
      = if o.side = side then single (o.side.rank o.price) quantity else 0) :
    s'.depth = Run.run MarketByPrice.step s.depth
      [.change o.side (o.side.rank o.price) o.leaves quantity] := by
  funext side
  rw [Run.run, List.foldl_cons, List.foldl_nil, MarketByPrice.step, h'.depth_eq_share_add id,
    h.others_congr h' hsame, hshare]
  by_cases hside : o.side = side
  · subst hside
    rw [if_pos rfl, if_pos rfl, h.depth_eq_share_add id, Store.share, ho, Option.elim_some,
      if_pos rfl, add_tsub_cancel_left, add_comm]
  · rw [if_neg hside, if_neg hside, h.depth_eq_share_add id, Store.share, ho, Option.elim_some,
      if_neg hside]

/-- The step lemma for `cancel_order`. -/
theorem depth_cancelOrder (h : b.store.Agrees) (id : OrderId) :
    (b.cancelOrder id).2.store.depth
      = Run.run MarketByPrice.step b.store.depth (cancelEvents b id) := by
  rw [cancelEvents]
  cases ho : b.store.orders[id]? with
  | none =>
      rw [cancelOrder_of_none ho]
      rfl
  | some o =>
      have horders := Store.getElem?_orders_cancelOrder b.store id o
      rw [cancelOrder_of_some ho, (Quiet.maybeEmitBbo _).store_eq]
      refine depth_change h (h.cancelOrder ho) (fun i hi => ?_) ho fun side => ?_
      · exact (horders i).trans (if_neg hi)
      · rw [Store.share, horders, if_pos rfl, Option.elim_none, single_zero, ite_self]

/-- The step lemma for `replace_order`. -/
theorem depth_replaceOrder (h : Standing b) (hagrees : b.store.Agrees) {uninit : OrderResult}
    {newPrice : Price} {newQty : Quantity}
    (hok : UnfilledInPlace b (.replace uninit id newPrice newQty)) :
    (b.replaceOrder uninit id newPrice newQty).2.store.depth
      = Run.run MarketByPrice.step b.store.depth (replaceEvents b id newPrice newQty) := by
  cases replaceOrder_cases b uninit id newPrice newQty with
  | missing ho _ hsame =>
      rw [hsame, replaceEvents, ho]
      rfl
  | @inPlace existing level hin _ hquiet =>
      have hamended : (amend b.store id existing level newQty).Agrees :=
        agrees_calls.inPlace hagrees hok hin
      have horders : ∀ i, (amend b.store id existing level newQty).orders[i]?
          = if i = id then some { existing with quantity := newQty } else b.store.orders[i]? := by
        intro i
        rw [amend, Store.getElem?_setOrder, Store.orders_setLevel]
      rw [hquiet.store_eq, replaceEvents, hin.order_eq]
      dsimp only
      rw [if_pos hin.price_eq]
      refine depth_change hagrees hamended (fun i hi => ?_) hin.order_eq fun side => ?_
      · rw [horders, if_neg hi]
      · rw [Store.share, horders, if_pos rfl, Option.elim_some]
  | @moved existing ho hmoved _ hbook =>
      have hprice : existing.price ≠ newPrice := by
        intro hprice
        obtain ⟨n, ⟨level, hlevel, -⟩, -⟩ := hagrees.queued ho
        rw [hmoved hprice] at hlevel
        cases hlevel
      rw [hbook, depth_addOrder (standing_calls.cancelOrder h id)
        (agrees_calls.cancelOrder hagrees id), depth_cancelOrder hagrees, replaceEvents, ho]
      dsimp only
      rw [if_neg hprice, Run.run_append]

/-- **A call does to the market what its events do.** -/
theorem depth_apply (h : Standing b) (hagrees : b.store.Agrees) {op : Op}
    (hok : UnfilledInPlace b op) :
    (apply b op).store.depth = Run.run MarketByPrice.step b.store.depth (events b op) := by
  cases op with
  | add order => exact depth_addOrder h hagrees order
  | cancel id => exact depth_cancelOrder hagrees id
  | replace uninit id newPrice newQty => exact depth_replaceOrder h hagrees hok
  | flush => rw [apply, (Quiet.flushTrades b).store_eq]; rfl

/-! ## Runs -/

/-- The best price of a side is where its ladder starts. -/
def StartsAt (ladder : ℤ →₀ ℕ) (side : Side) (best : Price) : Prop :=
  (ladder = 0 ∧ best = invalidPrice) ∨ IsLeast {k | ladder k ≠ 0} (side.rank best)

lemma startsAt_best (hexact : b.store.Exact) (hagrees : b.store.Agrees)
    (hopen : AllOrders b.store fun o => o.isFilled = false) (side : Side) :
    StartsAt (b.store.depth side) side (b.store.best side) := by
  have hlive : ∀ o : Order, b.store.orders[o.id]? = some o → o.side = side →
      o.price ∈ b.store.levels side := by
    rintro o ho rfl
    obtain ⟨n, ⟨level, hlevel, -⟩, -⟩ := hagrees.queued ho
    exact KeyList.mem_iff_exists_getElem?.mpr ⟨level, hlevel⟩
  rcases hexact.bestLive side with hmem | ⟨hinvalid, hnone⟩
  · refine Or.inr ⟨?_, fun k hk => ?_⟩
    · obtain ⟨level, hlevel⟩ := KeyList.mem_iff_exists_getElem?.mp hmem
      obtain ⟨n, hn⟩ := List.exists_mem_of_ne_nil _ (hexact.noEmpty _ _ _ hlevel)
      obtain ⟨o, ho, hside, hprice, -⟩ := hagrees.node ⟨level, hlevel, hn⟩
      have hmem : o.remaining.toNat ∈
          (b.store.restingAt side (b.store.best side)).map (·.remaining.toNat) :=
        List.mem_map_of_mem
          (hagrees.mem_restingAt.mpr ⟨by rw [hagrees.id_eq ho, ho], hside, hprice⟩)
      have hpos := Order.remaining_pos (hopen _ o ho)
      have hle := List.single_le_sum (fun _ _ => Nat.zero_le _) _ hmem
      show b.store.depth side (side.rank (b.store.best side)) ≠ 0
      rw [hagrees.depth_rank, Store.openAt]
      omega
    · obtain ⟨o, ho, hside, rfl⟩ := hagrees.exists_of_depth_ne_zero hk
      exact hexact.extreme side _ (hlive o ho hside)
  · refine Or.inl ⟨?_, hinvalid⟩
    ext k
    by_contra hk
    obtain ⟨o, ho, hside, -⟩ := hagrees.exists_of_depth_ne_zero hk
    exact hnone _ (hlive o ho hside)

lemma depth_new (symbol : Symbol) (config : OrderBookConfig) (onTrade onExecution onBbo : Bool)
    (clock : Stream' Timestamp) :
    (new symbol config onTrade onExecution onBbo clock).store.depth = 0 := by
  funext side
  ext k
  by_contra hk
  obtain ⟨o, ho, -⟩ := Store.Agrees.empty.exists_of_depth_ne_zero hk
  simp at ho

section Runs

variable {symbol : Symbol} {config : OrderBookConfig} {onTrade onExecution onBbo : Bool}
  {clock : Stream' Timestamp} {ops : List Op}

/-- **The book is a market by price.**  In every run with self-trade prevention off, valid prices
and replaces in place of unfilled orders only, what rests at each rank is what the events of the run
make of an empty market, each event being told by the call and the orders it names; what the book
says of a level is that modulo `2 ^ 32`; its best prices are where the ladders start; and a fresh
order that is accepted next trades what the ladder of the other side has up to the last rank it
accepts, or all that it wants. -/
theorem market_by_price (hstp : config.enableSelfTradePrevention = false)
    (hops : Run.Admitted apply (fun b op => ValidPrices b op ∧ RewritesUnfilled b op)
      (new symbol config onTrade onExecution onBbo clock) ops) :
    let start := new symbol config onTrade onExecution onBbo clock
    let b := after start ops
    let market := Run.run MarketByPrice.step 0 (Run.outputs apply events start ops).flatten
    b.store.depth = market ∧
      (∀ side p, (Feed.quantityAt b.store side p).toNat = market side (side.rank p) % 2 ^ 32) ∧
      (∀ side, StartsAt (market side) side (b.store.best side)) ∧
      ∀ order, Fresh order → b.rejectReason order = none →
        (b.addOrder order).1.filledQty.toNat
          = traded market order.side (lastRank order) order.leaves := by
  intro start b market
  have hstanding : Standing b := standing_after hstp (hops.mono fun _ _ h => h.1)
  have hagrees : b.store.Agrees := agrees_after (hops.mono fun _ _ h => h.2.unfilledInPlace)
  have hopen : AllOrders b.store fun o => o.isFilled = false :=
    unfilled_calls.run (hops.mono fun _ _ h => h.2) allOrders_new
  have hdepth : b.store.depth = market := by
    have hrefines := hops.refines (I := fun b => Standing b ∧ b.store.Agrees)
      (fun b => b.store.depth)
      (fun b op h hok => ⟨standing_calls.step h.1 hok.1,
        agrees_calls.step h.2 hok.2.unfilledInPlace⟩)
      (fun b op h hok => depth_apply h.1 h.2 hok.2.unfilledInPlace)
      ⟨⟨Store.Exact.empty, hstp, fun p hp => by simp [new] at hp⟩, Store.Agrees.empty⟩
    rw [depth_new] at hrefines
    exact hrefines
  refine ⟨hdepth, fun side p => ?_, fun side => ?_, fun order hfresh hpass => ?_⟩
  · rw [Feed.toNat_quantityAt hagrees, ← hdepth, hagrees.depth_rank]
  · rw [← hdepth]
    exact startsAt_best hstanding.toExact hagrees hopen side
  · have hpasses := rejectReason_eq_none_iff.mp hpass
    obtain ⟨-, -, hfilled, -⟩ :=
      depth_matchOrder hstanding.toExact hagrees hstanding.stp_off order
    obtain ⟨-, hadded, -⟩ := addOrder_keeps_matching hagrees hpasses
      fun hk => isFilled_of_filledQty (matchOrder_filledQty hstanding.toExact hagrees
        hstanding.stp_off hfresh (hpasses.displayed hk.fok))
    rw [hadded, hfilled, hfresh, ← hdepth, UInt32.toNat_zero, Nat.zero_add]

end Runs

/-- Two asks, one of them replaced in place, a bid that rests, a market order through both asks, and
a cancel. -/
theorem market_by_price_sample :
    let start := makeBook {}
    let b := after start [.add (limitOrder 1 .Sell 100 10), .add (limitOrder 2 .Sell 101 10),
      .replace {} 1 100 7, .add (limitOrder 3 .Buy 99 5),
      .add { limitOrder 4 .Buy 0 9 with type := .Market }, .cancel 3]
    let market := Run.run MarketByPrice.step 0 (Run.outputs apply events start
      [.add (limitOrder 1 .Sell 100 10), .add (limitOrder 2 .Sell 101 10),
        .replace {} 1 100 7, .add (limitOrder 3 .Buy 99 5),
        .add { limitOrder 4 .Buy 0 9 with type := .Market }, .cancel 3]).flatten
    b.store.depth = market ∧
      (∀ side p, (Feed.quantityAt b.store side p).toNat = market side (side.rank p) % 2 ^ 32) ∧
      (∀ side, StartsAt (market side) side (b.store.best side)) ∧
      ∀ order, Fresh order → b.rejectReason order = none →
        (b.addOrder order).1.filledQty.toNat
          = traded market order.side (lastRank order) order.leaves :=
  market_by_price rfl (by decide +kernel)

end OrderBook

end Exchange
