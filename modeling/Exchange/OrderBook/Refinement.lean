import Exchange.OrderBook.Reference

/-!
# Price-time matching refines the reference matcher

The purpose of `match_order`, without levels, nodes, caches or maps: list the resting orders of the
opposite side by best price first and, inside a price, in queue order; take from each what it has or
what is still wanted; stop at the first price the taker does not cross or when it is full
(`referenceFills`, `unconsumed`).

**`matching_refines_reference`** — in every book that a run with valid prices and self-trade
prevention off leads to, an order that `add_order` does not refuse trades exactly as the reference
says, reports the sum, and leaves the rest of the list.  A fill-or-kill order is no exception: what
its check counts (modulo `2 ^ 32`) is never more than what is in reach (`displayed_le_reach`), so it
is not killed after matching.  What that makes of such an order is **`fill_or_kill`**: all of it or
nothing.
-/

namespace Exchange.OrderBook

open MatchState
open Std (ExtTreeMap)

/-! ## The reference -/

/-- A market order crosses every price. -/
def crosses (taker : Order) (p : Price) : Bool := taker.type == .Market || taker.wouldCross p

/-- The makers traded with, in turn, and the quantity taken from each. -/
def referenceFills (taker : Order) (makers : List Order) : List (Order × Nat) :=
  Draw.drawn (fun maker => !crosses taker maker.price) Order.leaves taker.leaves makers

/-- The makers afterwards. -/
def unconsumed (taker : Order) (makers : List Order) : List Order :=
  Draw.left (fun maker => !crosses taker maker.price) Order.leaves reduce taker.leaves makers

/-- The trades: each at the maker's price. -/
def referenceExecutions (taker : Order) (makers : List Order) : List Execution :=
  (referenceFills taker makers).map fun x => executionOf taker x.1 x.1.price (UInt32.ofNat x.2)

/-! ## Without self-trade prevention, in a book of valid prices -/

variable {b : OrderBook}

/-- Then matching stops only at a price it does not cross. -/
lemma stopsAt_eq (hexact : b.store.Exact) (hagrees : b.store.Agrees)
    (hstp : b.config.enableSelfTradePrevention = false) (taker : Order) (side : Side) :
    ∀ maker ∈ b.store.restingOrders side,
      stopsAt b.config taker maker = !crosses taker maker.price := by
  intro maker hmaker
  obtain ⟨p, hp, hqueue⟩ := List.mem_flatMap.mp hmaker
  have hprice := (hagrees.mem_ordersAt hqueue).2.2
  have hvalid := hexact.valid side p (Store.mem_bestFirst.mp hp)
  rw [← hprice] at hvalid
  simp [stopsAt, crosses, hstp, hvalid.ne_invalid, hvalid.ne_zero]

/-! ## The liquidity check of a fill-or-kill order -/

/-- The open quantity of a level is that of the orders it queues. -/
lemma sum_leaves_ordersAt {s : Store} (h : s.Agrees) {side : Side} {p : Price}
    {level : PriceLevel} (hl : (s.levels side)[p]? = some level) :
    ((s.ordersAt side p).map Order.leaves).sum = level.openQuantity := by
  have hnode : ∀ n ∈ level.nodes, ∃ o, s.orders[n.orderId]? = some o ∧
      n.quantity.toNat = o.leaves := by
    intro n hn
    obtain ⟨o, ho, -, -, hq⟩ := h.node ⟨level, hl, hn⟩
    exact ⟨o, ho, by rw [hq, Order.toNat_remaining (h.filled_le ho)]⟩
  rw [Store.ordersAt_eq hl, LevelData.openQuantity]
  generalize level.nodes = nodes at hnode
  induction nodes with
  | nil => rfl
  | cons n ns ih =>
      obtain ⟨o, ho, hq⟩ := hnode n List.mem_cons_self
      simp only [List.filterMap_cons, ho, List.map_cons, List.sum_cons, hq,
        ih fun m hm => hnode m (List.mem_cons_of_mem _ hm)]

/-- What a price offers to a taker. -/
def offered (s : Store) (side : Side) (taker : Order) (p : Price) : Nat :=
  if crosses taker p then ((s.ordersAt side p).map Order.leaves).sum else 0

/-- The check counts modulo `2 ^ 32`, which only ever understates. -/
lemma availableQuantity_le (taker : Order) (levels : List (Price × PriceLevel))
    (available : Quantity) :
    (availableQuantity taker levels available).toNat ≤ available.toNat
      + (levels.map fun x => if crosses taker x.1 then x.2.openQuantity else 0).sum := by
  induction levels generalizing available with
  | nil => simp [availableQuantity]
  | cons x levels ih =>
      obtain ⟨price, level⟩ := x
      have hstep : (if (taker.type = .Market || taker.wouldCross price) then
            available + level.totalQuantity else available).toNat
          ≤ available.toNat + if crosses taker price then level.openQuantity else 0 := by
        have htotal := level.wf.total_eq
        have hmod := Nat.mod_le level.openQuantity (2 ^ 32)
        have hiff : (taker.type = .Market || taker.wouldCross price) = crosses taker price := by
          cases htype : taker.type <;> simp [crosses, htype]
        rw [hiff]
        split_ifs
        · rw [UInt32.toNat_add]
          exact Nat.le_trans (Nat.mod_le _ _) (by omega)
        · omega
      rw [availableQuantity, List.map_cons, List.sum_cons]
      dsimp only
      generalize (if (taker.type = .Market || taker.wouldCross price) then
        available + level.totalQuantity else available) = counted at hstep ⊢
      split
      · omega
      · refine Nat.le_trans (ih counted) ?_
        omega

/-- The levels of the map offer what their prices offer. -/
lemma map_offered {s : Store} (h : s.Agrees) (side : Side) (taker : Order) :
    ((s.levels side).toList.map fun x => if crosses taker x.1 then x.2.openQuantity else 0)
      = (s.levels side).keys.map (offered s side taker) := by
  rw [← ExtTreeMap.map_fst_toList_eq_keys, List.map_map]
  refine List.map_congr_left fun x hx => ?_
  rw [Function.comp, offered,
    sum_leaves_ordersAt h (ExtTreeMap.mem_toList_iff_getElem?_eq_some.mp hx)]

lemma keys_perm_bestFirst (s : Store) (side : Side) :
    ((s.levels side).keys).Perm (s.bestFirst side) := by
  cases side
  · exact (List.reverse_perm _).symm
  · exact List.Perm.refl _

/-- In map order they offer as much as best first. -/
lemma sum_offered {s : Store} (h : s.Agrees) (side : Side) (taker : Order) :
    ((s.levels side).toList.map fun x => if crosses taker x.1 then x.2.openQuantity else 0).sum
      = ((s.bestFirst side).map (offered s side taker)).sum := by
  rw [map_offered h, ((keys_perm_bestFirst s side).map _).sum_nat]

/-- Better prices are crossed too. -/
lemma crosses_of_rank_le {taker : Order} {p q : Price}
    (hrank : taker.side.opposite.rank p ≤ taker.side.opposite.rank q)
    (hq : crosses taker q = true) : crosses taker p = true := by
  simp only [crosses, Bool.or_eq_true, Order.wouldCross_iff] at hq ⊢
  exact hq.imp_right fun h => Int.le_trans hrank h

/-- What crossed prices offer is in reach: no price that is not crossed comes before them. -/
lemma offered_le_reach {s : Store} (h : s.Agrees) (taker : Order) (prices : List Price)
    (hsorted : prices.Pairwise fun p q =>
      taker.side.opposite.rank p < taker.side.opposite.rank q) :
    (prices.map (offered s taker.side.opposite taker)).sum
      ≤ Draw.reach (fun maker => !crosses taker maker.price) Order.leaves
          (prices.flatMap (s.ordersAt taker.side.opposite)) := by
  induction prices with
  | nil => simp
  | cons p prices ih =>
      rw [List.pairwise_cons] at hsorted
      rw [List.map_cons, List.sum_cons, List.flatMap_cons]
      by_cases hp : crosses taker p = true
      · have hopen : ∀ maker ∈ s.ordersAt taker.side.opposite p,
            (!crosses taker maker.price) = false := by
          intro maker hmaker
          rw [(h.mem_ordersAt hmaker).2.2, hp]
          rfl
        rw [Draw.reach_append_of_open hopen, offered, if_pos hp]
        exact Nat.add_le_add_left (ih hsorted.2) _
      · have hnone : ∀ q ∈ p :: prices, offered s taker.side.opposite taker q = 0 := by
          intro q hq
          rw [offered, if_neg]
          intro hcross
          rcases List.mem_cons.mp hq with rfl | hq
          · exact hp hcross
          · exact hp (crosses_of_rank_le (Int.le_of_lt (hsorted.1 q hq)) hcross)
        have hzero : ((p :: prices).map (offered s taker.side.opposite taker)).sum = 0 := by
          rw [List.sum_eq_zero_iff_forall_eq_nat]
          intro x hx
          obtain ⟨q, hq, rfl⟩ := List.mem_map.mp hx
          exact hnone q hq
        rw [List.map_cons, List.sum_cons] at hzero
        omega

/-- **What the fill-or-kill check counts is in reach.** -/
theorem displayed_le_reach {s : Store} (h : s.Agrees) (taker : Order) :
    (availableQuantity taker (s.levels taker.side.opposite).toList 0).toNat
      ≤ Draw.reach (fun maker => !crosses taker maker.price) Order.leaves
          (s.restingOrders taker.side.opposite) := by
  refine Nat.le_trans (availableQuantity_le _ _ _) ?_
  rw [sum_offered h, UInt32.toNat_zero, Nat.zero_add]
  exact offered_le_reach h taker _ (Store.bestFirst_pairwise s _)

/-! ## Matching -/

/-- `match_order` alone. -/
lemma matchOrder_reference (hexact : b.store.Exact) (hagrees : b.store.Agrees)
    (hstp : b.config.enableSelfTradePrevention = false) (taker : Order) :
    let makers := b.store.restingOrders taker.side.opposite
    let m := b.matchOrder taker
    m.book.history.executed.map Fill.execution
        = b.history.executed.map Fill.execution ++ referenceExecutions taker makers ∧
      m.order.filledQty.toNat
        = taker.filledQty.toNat + ((referenceFills taker makers).map (·.2)).sum ∧
      m.book.store.restingOrders taker.side.opposite = unconsumed taker makers := by
  intro makers m
  have hstops := stopsAt_eq hexact hagrees hstp taker taker.side.opposite
  have hexact' : m.book.store.Exact := exact_invariant.matchOrder b taker hexact
  obtain ⟨fills, hexecuted, hdrawn, hfilled, hexecution, hleft⟩ :=
    matchOrder_draws hagrees hexact.toSound taker
  rw [hexact.visited_eq] at hdrawn hleft
  rw [hexact'.visited_eq] at hleft
  rw [drawn, Draw.drawn_congr hstops] at hdrawn
  rw [left, Draw.left_congr hstops] at hleft
  have hfills : fills.map taken = referenceFills taker makers := hdrawn
  refine ⟨?_, ?_, hleft⟩
  · rw [hexecuted, List.map_append, referenceExecutions, ← hfills, List.map_map]
    congr 1
    refine List.map_congr_left fun f hf => ?_
    rw [hexecution f hf]
    simp only [Function.comp, taken, UInt32.ofNat_toNat]
  · rw [hfilled, ← hfills, List.map_map]
    rfl

/-- An order for no more than the fill-or-kill check counts is filled completely. -/
lemma matchOrder_filledQty (hexact : b.store.Exact) (hagrees : b.store.Agrees)
    (hstp : b.config.enableSelfTradePrevention = false) {order : Order} (hfresh : Fresh order)
    (hdisplayed : order.quantity ≤ availableQuantity (withMarketPrice order)
      (b.store.levels order.side.opposite).toList 0) :
    (b.matchOrder (withMarketPrice order)).order.filledQty = order.quantity := by
  have hdisplayed := UInt32.le_iff_toNat_le.mp hdisplayed
  have hreach := displayed_le_reach hagrees (withMarketPrice order)
  have hfilled := (matchOrder_reference hexact hagrees hstp (withMarketPrice order)).2.1
  rw [referenceFills, Draw.sum_drawn, Order.leaves] at hfilled
  rw [← UInt32.toNat_inj, hfilled]
  rw [Fresh] at hfresh
  simp only [withMarketPrice_side, withMarketPrice_quantity, withMarketPrice_filledQty, hfresh]
    at hreach ⊢
  rw [UInt32.toNat_zero]
  omega

lemma isFilled_of_filledQty {order : Order}
    (hfilled : (b.matchOrder (withMarketPrice order)).order.filledQty = order.quantity) :
    (b.matchOrder (withMarketPrice order)).order.isFilled = true := by
  rw [Order.isFilled_iff, (matchOrder_sameTaker b _).quantity_eq, withMarketPrice_quantity, hfilled]
  exact UInt32.le_refl _

/-- What `add_order` does after matching touches neither the fills nor the opposite side, unless it
rejects the order. -/
theorem addOrder_keeps_matching {b : OrderBook} (hagrees : b.store.Agrees) {order : Order}
    (hpasses : Passes b order)
    (hfilled : KillsRemainder order →
      (b.matchOrder (withMarketPrice order)).order.isFilled = true) :
    let m := b.matchOrder (withMarketPrice order)
    (b.addOrder order).2.history.executed = m.book.history.executed ∧
      (b.addOrder order).1.filledQty = m.order.filledQty ∧
      (b.addOrder order).2.store.restingOrders order.side.opposite
        = m.book.store.restingOrders order.side.opposite := by
  intro m
  cases addOrder_cases b order with
  | rejected _ hr => exact absurd hpasses (not_passes_of_rejected hr)
  | killed _ hkills hopen =>
      rw [hfilled hkills] at hopen
      cases hopen
  | rested _ _ _ _ hqty hquiet =>
      have htaker := matchOrder_sameTaker b (withMarketPrice order)
      refine ⟨?_, hqty, ?_⟩
      · rw [hquiet.history_eq, executed_insertRestingOrder]
      · rw [hquiet.store_eq]
        refine Store.restingOrders_insertRestingOrder
          (agrees_invariant.matchOrder b (withMarketPrice order) hagrees) ?_ ?_
        · rw [htaker.id_eq, withMarketPrice_id]
          exact matchOrder_orders_none b _ hpasses.id_new
        · rw [htaker.side_eq, withMarketPrice_side]
          exact Side.opposite_ne _
  | passed _ _ _ _ hqty hquiet => exact ⟨by rw [hquiet.history_eq], hqty, by rw [hquiet.store_eq]⟩

section Runs

variable {symbol : Symbol} {config : OrderBookConfig} {onTrade onExecution onBbo : Bool}
  {clock : Stream' Timestamp} {ops : List Op}

/-- **Matching refines the reference matcher.**  In every book that a run of calls leads to, with
self-trade prevention off, valid prices and replaces to another price only, whatever fresh order
comes in that is not refused before matching: the fills are those of the reference, and so are the
trades where they are listened to; the result reports their sum; and the opposite side holds what
the reference leaves unconsumed. -/
theorem matching_refines_reference (hstp : config.enableSelfTradePrevention = false)
    (hops : Run.Admitted apply (fun b op => ValidPrices b op ∧ MovesPrice b op)
      (new symbol config onTrade onExecution onBbo clock) ops)
    {order : Order} (hfresh : Fresh order)
    (hpass : (after (new symbol config onTrade onExecution onBbo clock) ops).rejectReason order
      = none) :
    let b := after (new symbol config onTrade onExecution onBbo clock) ops
    let taker := withMarketPrice order
    let makers := b.store.restingOrders order.side.opposite
    let added := b.addOrder order
    added.2.history.executed.map Fill.execution
        = b.history.executed.map Fill.execution ++ referenceExecutions taker makers ∧
      (onTrade = true → added.2.feed.trades.map Trade.execution
        = b.feed.trades.map Trade.execution ++ referenceExecutions taker makers) ∧
      added.1.filledQty.toNat = ((referenceFills taker makers).map (·.2)).sum ∧
      added.2.store.restingOrders order.side.opposite = unconsumed taker makers := by
  intro b taker makers added
  have hstanding : Standing b := standing_after hstp (hops.mono fun _ _ h => h.1)
  have hagrees : b.store.Agrees := agrees_after (hops.mono fun _ _ h => h.2.unfilledInPlace)
  have hpasses := rejectReason_eq_none_iff.mp hpass
  obtain ⟨hexecuted, hfilled, hleft⟩ :=
    matchOrder_reference hstanding.toExact hagrees hstanding.stp_off taker
  have hside : taker.side = order.side := withMarketPrice_side order
  have hzero : taker.filledQty.toNat = 0 := by
    rw [withMarketPrice_filledQty, hfresh]
    rfl
  rw [hside] at hexecuted hfilled hleft
  rw [hzero, Nat.zero_add] at hfilled
  obtain ⟨hadded₁, hadded₂, hadded₃⟩ := addOrder_keeps_matching hagrees hpasses
    fun hk => isFilled_of_filledQty (matchOrder_filledQty hstanding.toExact hagrees
      hstanding.stp_off hfresh (hpasses.displayed hk.fok))
  refine ⟨by rw [hadded₁, hexecuted], fun hlisten => ?_, by rw [hadded₂, hfilled],
    by rw [hadded₃, hleft]⟩
  have hannounced : Announced b := by
    simp only [b, hlisten]
    exact announced_after symbol config onExecution onBbo clock ops
  rw [(announced_calls.addOrder hannounced trivial).executions_eq, hannounced.executions_eq, hadded₁,
    hexecuted]

end Runs

/-- A market order for 25 takes the whole of two asks, oldest first, and half of the next level. -/
theorem matching_refines_reference_sample :
    let b := after (makeBook {}) [.add (limitOrder 1 .Sell 100 10), .add (limitOrder 2 .Sell 100 10),
      .add (limitOrder 3 .Sell 101 10)]
    let order := { limitOrder 4 .Buy 0 25 with type := .Market }
    let taker := withMarketPrice order
    let makers := b.store.restingOrders order.side.opposite
    let added := b.addOrder order
    added.2.history.executed.map Fill.execution
        = b.history.executed.map Fill.execution ++ referenceExecutions taker makers ∧
      (true = true → added.2.feed.trades.map Trade.execution
        = b.feed.trades.map Trade.execution ++ referenceExecutions taker makers) ∧
      added.1.filledQty.toNat = ((referenceFills taker makers).map (·.2)).sum ∧
      added.2.store.restingOrders order.side.opposite = unconsumed taker makers :=
  matching_refines_reference rfl (by decide +kernel) rfl (by decide +kernel)

/-! ## Fill-or-kill orders -/

/-- A fill-or-kill order that would match completely trades all of it, or is refused. -/
theorem addOrder_fill_or_kill {b : OrderBook} (hagrees : b.store.Agrees) {order : Order}
    (hfok : isFillOrKill order = true)
    (hfilled : Passes b order →
      (b.matchOrder (withMarketPrice order)).order.filledQty = order.quantity) :
    let added := b.addOrder order
    (added.1.success = true → added.1.filledQty = order.quantity ∧
        added.2.store.orders[order.id]? = none ∧
        ∀ side p n, added.2.store.Queues side p n → n.orderId ≠ order.id) ∧
      (added.1.success = false → added.2.store = b.store ∧
        added.2.feed.trades = b.feed.trades ∧
        added.2.history.executed = b.history.executed) := by
  intro added
  have hagrees' : added.2.store.Agrees := agrees_calls.addOrder hagrees trivial
  have hcase := addOrder_cases b order
  change AddCase b order added.1 added.2 at hcase
  cases hcase with
  | rejected _ _ hfail hquiet =>
      refine ⟨fun hok => ?_, fun _ => ⟨hquiet.store_eq, hquiet.trades_eq, by rw [hquiet.history_eq]⟩⟩
      rw [hfail] at hok
      cases hok
  | killed hr _ hopen =>
      rw [isFilled_of_filledQty (hfilled (rejectReason_eq_none_iff.mp hr))] at hopen
      cases hopen
  | rested _ hkind =>
      rw [hkind.not_isFillOrKill] at hfok
      cases hfok
  | passed hr _ _ hok hqty hquiet =>
      have hpass := rejectReason_eq_none_iff.mp hr
      have hgone : added.2.store.orders[order.id]? = none := by
        rw [hquiet.store_eq]
        exact matchOrder_orders_none b _ hpass.id_new
      refine ⟨fun _ => ⟨by rw [hqty, hfilled hpass], hgone, fun side p n hn hid => ?_⟩,
        fun hfail => ?_⟩
      · obtain ⟨o, ho, -⟩ := hagrees'.node hn
        rw [hid, hgone] at ho
        cases ho
      · rw [hok] at hfail
        cases hfail

section Runs

variable {symbol : Symbol} {config : OrderBookConfig} {onTrade onExecution onBbo : Bool}
  {clock : Stream' Timestamp} {ops : List Op}

/-- **Fill-or-kill is all or nothing** with self-trade prevention off, in every book that valid
prices and replaces to another price lead to: the order trades all of its quantity and nothing of it
rests, or the book is as it was and nothing was traded.  The reason is the last part: what passes
the check is filled. -/
theorem fill_or_kill (hstp : config.enableSelfTradePrevention = false)
    (hops : Run.Admitted apply (fun b op => ValidPrices b op ∧ MovesPrice b op)
      (new symbol config onTrade onExecution onBbo clock) ops)
    {order : Order} (hfresh : Fresh order) (hfok : order.type = .FillOrKill ∨ order.tif = .FillOrKill) :
    let b := after (new symbol config onTrade onExecution onBbo clock) ops
    let added := b.addOrder order
    (added.1.success = true → added.1.filledQty = order.quantity ∧
        added.2.store.orders[order.id]? = none ∧
        ∀ side p n, added.2.store.Queues side p n → n.orderId ≠ order.id) ∧
      (added.1.success = false → added.2.store = b.store ∧
        added.2.feed.trades = b.feed.trades ∧
        added.2.history.executed = b.history.executed) ∧
      (order.quantity ≤ availableQuantity (withMarketPrice order)
          (b.store.levels order.side.opposite).toList 0 →
        (b.matchOrder (withMarketPrice order)).order.filledQty = order.quantity) := by
  intro b added
  have hstanding : Standing b := standing_after hstp (hops.mono fun _ _ h => h.1)
  have hagrees : b.store.Agrees := agrees_after (hops.mono fun _ _ h => h.2.unfilledInPlace)
  have hisFok : isFillOrKill order = true := by
    simpa [isFillOrKill] using hfok.symm
  have hchecked := matchOrder_filledQty hstanding.toExact hagrees hstanding.stp_off hfresh
  obtain ⟨hdone, hrefused⟩ := addOrder_fill_or_kill hagrees hisFok fun hpass =>
    hchecked (hpass.displayed hisFok)
  exact ⟨hdone, hrefused, hchecked⟩

end Runs

/-- A market order that fills or is killed, for the whole of two levels. -/
theorem fill_or_kill_sample :
    let b := after (makeBook {}) [.add (limitOrder 1 .Sell 100 10), .add (limitOrder 2 .Sell 101 10)]
    let order := { limitOrder 3 .Buy 0 20 with type := .Market, tif := .FillOrKill }
    let added := b.addOrder order
    (added.1.success = true → added.1.filledQty = order.quantity ∧
        added.2.store.orders[order.id]? = none ∧
        ∀ side p n, added.2.store.Queues side p n → n.orderId ≠ order.id) ∧
      (added.1.success = false → added.2.store = b.store ∧
        added.2.feed.trades = b.feed.trades ∧
        added.2.history.executed = b.history.executed) ∧
      (order.quantity ≤ availableQuantity (withMarketPrice order)
          (b.store.levels order.side.opposite).toList 0 →
        (b.matchOrder (withMarketPrice order)).order.filledQty = order.quantity) :=
  fill_or_kill rfl (by decide +kernel) rfl (Or.inr rfl)

end Exchange.OrderBook
