import Exchange.OrderBook.Reference

/-!
# Orders rejected after they have traded

`add_order` makes its checks before matching, with one exception: a fill-or-kill order that matching
leaves open is rejected afterwards, and nothing of what it has done is undone.  Its check counts the
quantity *displayed* at prices it crosses; matching draws what is *accessible*, which ends at the
first maker it stops at — one that self-trade prevention takes for the taker's own, or one at a
price that is also a sentinel.

**`rejected_add_unchanged_iff`** — a rejected order leaves the book untouched exactly when it is not
such an order, or nothing at all, or all it wants, is accessible to it.
-/

namespace Exchange.OrderBook

open MatchState

/-- The quantity open at makers before the first one that matching stops at. -/
def accessible (b : OrderBook) (order : Order) : Nat :=
  Draw.reach (stopsAt b.config (withMarketPrice order)) Order.leaves
    (b.store.visited order.side.opposite)

/-- If the order is fill-or-kill and gets as far as matching, nothing or everything it wants is
accessible. -/
def AllOrNothing (b : OrderBook) (order : Order) : Prop :=
  KillsRemainder order → b.rejectReason order = none →
    accessible b order = 0 ∨ order.quantity.toNat ≤ accessible b order

instance (order : Order) : Decidable (KillsRemainder order) :=
  decidable_of_iff (isFillOrKill order = true ∧ order.tif ≠ .ImmediateOrCancel ∧
      order.type ≠ .ImmediateOrCancel)
    ⟨fun h => ⟨h.1, h.2.1, h.2.2⟩, fun h => ⟨h.fok, h.tif_ne, h.type_ne⟩⟩

instance (b : OrderBook) (order : Order) : Decidable (AllOrNothing b order) :=
  inferInstanceAs (Decidable (_ → _ → _))

variable {b : OrderBook}

/-! ## Without a fill, matching changes nothing -/

/-- As long as nothing is executed, the book is as it was. -/
structure Untouched (b : OrderBook) (m : MatchState) : Prop where
  executed_le : b.history.executed.length ≤ m.book.history.executed.length
  unchanged : m.book.history.executed.length = b.history.executed.length →
    m.book.store = b.store ∧ m.book.feed = b.feed

theorem untouched_invariant (hb : b.store.Sound) :
    MatchInvariant (fun m => Untouched b m ∧ m.book.store.Agrees ∧ m.book.store.Sound)
      fun p m => Untouched b m ∧ m.book.store.Agrees ∧ SoundExcept p m where
  stale m hm hrun hstale := absurd hstale (hrun.not_stale hm.2.2)
  enter m level hm hrun hlevel hne :=
    ⟨hm.1, hm.2.1, sound_invariant.enter m level hm.2.2 hrun hlevel hne⟩
  ghost p m level n rest hm hfront gone := absurd gone (hm.2.1.not_ghost hfront)
  selfTrade p m level n rest resting hm hfront found enabled near :=
    ⟨⟨hm.1.executed_le, hm.1.unchanged⟩, hm.2.1,
      sound_invariant.selfTrade p m level n rest resting hm.2.2 hfront found enabled near⟩
  fill p m level n rest resting hm hfill := by
    have hlen : (m.fillFront p level n.orderId resting).book.history.executed.length
        = m.book.history.executed.length + 1 := List.length_append
    have hle := hm.1.executed_le
    refine ⟨⟨by omega, fun h => by omega⟩,
      agrees_invariant.fill p m level n rest resting hm.2.1 hfill,
      sound_invariant.fill p m level n rest resting hm.2.2 hfill⟩
  close p m level hm hlevel hnil := by
    refine ⟨⟨hm.1.executed_le, fun h => ?_⟩, agrees_invariant.close p m level hm.2.1 hlevel hnil,
      sound_invariant.close p m level hm.2.2 hlevel hnil⟩
    -- the level was not empty to begin with, so something has been executed
    obtain ⟨hstore, -⟩ := hm.1.unchanged h
    rw [level?, hstore] at hlevel
    exact absurd hnil (hb.noEmpty _ _ _ hlevel)
  keep p m hm hkeep := ⟨hm.1, hm.2.1, sound_invariant.keep p m hm.2.2 hkeep⟩

/-! ## What a draw leaves of a book -/

/-- Filling a maker takes from what it leaves. -/
lemma leaves_reduce {maker : Order} (hle : maker.filledQty ≤ maker.quantity) {q : Nat}
    (hq : q < maker.leaves) : (reduce maker q).leaves = maker.leaves - q := by
  have hlt : q < 2 ^ 32 := by
    have := maker.quantity.toNat_lt
    rw [Order.leaves] at hq
    omega
  have hnat : (UInt32.ofNat q).toNat = q := by
    rw [UInt32.toNat_ofNat', Nat.mod_eq_of_lt hlt]
  rw [reduce, Order.leaves_fill hle, hnat]
  rw [UInt32.le_iff_toNat_le, hnat, Order.toNat_remaining hle]
  omega

/-- Matching a fresh order, in terms of what it wants and what is accessible to it. -/
lemma matchOrder_fresh (hagrees : b.store.Agrees) (hsound : b.store.Sound) {order : Order}
    (hfresh : Fresh order) :
    let m := b.matchOrder (withMarketPrice order)
    let makers := b.store.visited order.side.opposite
    ∃ fills, m.book.history.executed = b.history.executed ++ fills ∧
      fills.map taken = drawn b.config (withMarketPrice order) order.quantity.toNat makers ∧
      m.order.filledQty.toNat = min order.quantity.toNat (accessible b order) ∧
      m.book.store.visited order.side.opposite
        = left b.config (withMarketPrice order) order.quantity.toNat makers := by
  obtain ⟨fills, hexecuted, hdrawn, hfilled, -, hleft⟩ :=
    matchOrder_draws hagrees hsound (withMarketPrice order)
  have hwant : (withMarketPrice order).leaves = order.quantity.toNat := by
    rw [Fresh] at hfresh
    simp [Order.leaves, hfresh]
  have hzero : (withMarketPrice order).filledQty.toNat = 0 := by
    rw [withMarketPrice_filledQty, hfresh]
    rfl
  rw [hwant, withMarketPrice_side] at hdrawn hleft
  have hsum : (fills.map (·.quantity.toNat)).sum
      = min order.quantity.toNat (accessible b order) := by
    have := congrArg (fun l => (l.map (·.2)).sum) hdrawn
    simp only [drawn, Draw.sum_drawn, List.map_map] at this
    exact this
  exact ⟨fills, hexecuted, hdrawn, by rw [hfilled, hzero, hsum, Nat.zero_add], hleft⟩

/-- A fresh order is completed exactly if enough is accessible. -/
lemma matchOrder_isFilled_iff (hagrees : b.store.Agrees) (hsound : b.store.Sound) {order : Order}
    (hfresh : Fresh order) :
    (b.matchOrder (withMarketPrice order)).order.isFilled = true ↔
      order.quantity.toNat ≤ accessible b order := by
  obtain ⟨-, -, -, hfilled, -⟩ := matchOrder_fresh hagrees hsound hfresh
  rw [Order.isFilled_iff, UInt32.le_iff_toNat_le, (matchOrder_sameTaker b _).quantity_eq,
    withMarketPrice_quantity, hfilled]
  omega

/-- Where nothing is accessible, nothing is drawn, and the book stays as it is. -/
lemma matchOrder_eq_of_inaccessible (hagrees : b.store.Agrees) (hsound : b.store.Sound)
    (hopen : AllOrders b.store fun o => Restable o ∧ o.isFilled = false) {order : Order}
    (hfresh : Fresh order) (hnone : accessible b order = 0) :
    (b.matchOrder (withMarketPrice order)).book.store = b.store ∧
      (b.matchOrder (withMarketPrice order)).book.feed = b.feed := by
  obtain ⟨fills, hexecuted, hdrawn, -, -⟩ := matchOrder_fresh hagrees hsound hfresh
  have hleaves : ∀ maker ∈ b.store.visited order.side.opposite, 0 < maker.leaves :=
    fun maker hmaker => Order.leaves_pos (hopen _ _ (hagrees.mem_visited hmaker).1).2
  have hnil : fills = [] := by
    rw [drawn, (Draw.drawn_eq_nil_iff hleaves).mpr (Or.inr hnone), List.map_eq_nil_iff] at hdrawn
    exact hdrawn
  have huntouched := ((untouched_invariant hsound).matchOrder b (withMarketPrice order)
    ⟨⟨Nat.le_refl _, fun _ => ⟨rfl, rfl⟩⟩, hagrees, hsound⟩).1
  refine huntouched.unchanged ?_
  rw [hexecuted, hnil, List.append_nil]

/-- What was drawn is missing afterwards. -/
lemma matchOrder_ne_of_accessible (hagrees : b.store.Agrees) (hsound : b.store.Sound)
    {order : Order} (hfresh : Fresh order) (hquantity : order.quantity ≠ 0)
    (hsome : accessible b order ≠ 0) :
    (b.matchOrder (withMarketPrice order)).book.store ≠ b.store := by
  intro hstore
  obtain ⟨-, -, -, -, hleft⟩ := matchOrder_fresh hagrees hsound hfresh
  have hpos : order.quantity.toNat ≠ 0 := fun h => hquantity (UInt32.toNat_inj.mp h)
  have hreduce : ∀ maker ∈ b.store.visited order.side.opposite, ∀ q < maker.leaves,
      (reduce maker q).leaves = maker.leaves - q :=
    fun maker hmaker q hq => leaves_reduce (hagrees.filled_le (hagrees.mem_visited hmaker).1) hq
  have htotal := Draw.sum_left (stopsAt b.config (withMarketPrice order)) order.quantity.toNat
    hreduce
  rw [hstore, left] at hleft
  rw [← hleft, Draw.sum_drawn] at htotal
  have : accessible b order = Draw.reach (stopsAt b.config (withMarketPrice order)) Order.leaves
    (b.store.visited order.side.opposite) := rfl
  omega

/-! ## Rejections -/

/-- In any book whose parts agree. -/
theorem addOrder_rejected_iff (hagrees : b.store.Agrees) (hsound : b.store.Sound)
    (hopen : AllOrders b.store fun o => Restable o ∧ o.isFilled = false) {order : Order}
    (hfresh : Fresh order) :
    ((b.addOrder order).1.success = false →
        (b.addOrder order).2.store = b.store ∧
          (b.addOrder order).2.feed.trades = b.feed.trades) ↔
      AllOrNothing b order := by
  cases addOrder_cases b order with
  | rejected reason hr _ hquiet =>
      refine iff_of_true (fun _ => ⟨hquiet.store_eq, hquiet.trades_eq⟩) fun _ hnone => ?_
      rw [hr] at hnone
      cases hnone
  | killed hr hkills hleft hfail hquiet =>
      have hquantity := (rejectReason_eq_none_iff.mp hr).quantity_ne
      have hfilled := matchOrder_isFilled_iff hagrees hsound hfresh
      rw [hleft] at hfilled
      by_cases hzero : accessible b order = 0
      · refine iff_of_true (fun _ => ?_) fun _ _ => Or.inl hzero
        obtain ⟨hstore, hfeed⟩ := matchOrder_eq_of_inaccessible hagrees hsound hopen hfresh hzero
        exact ⟨by rw [hquiet.store_eq, hstore], by rw [hquiet.trades_eq, hfeed]⟩
      · refine iff_of_false (fun h => ?_) fun h => ?_
        · exact matchOrder_ne_of_accessible hagrees hsound hfresh hquantity hzero
            (hquiet.store_eq.symm.trans (h hfail).1)
        · rcases h hkills hr with hnone | hall
          · exact hzero hnone
          · exact Bool.false_ne_true (hfilled.mpr hall)
  | rested _ hkind _ hok =>
      refine iff_of_true (fun hfail => ?_) fun hkills => absurd hkills hkind.not_killsRemainder
      rw [hok] at hfail
      cases hfail
  | passed hr _ hkills hok =>
      have hfilled := matchOrder_isFilled_iff hagrees hsound hfresh
      refine iff_of_true (fun hfail => ?_) fun hk _ => Or.inr (hfilled.mp (hkills hk))
      rw [hok] at hfail
      cases hfail

section Runs

variable {symbol : Symbol} {config : OrderBookConfig} {onTrade onExecution onBbo : Bool}
  {clock : Stream' Timestamp} {ops : List Op}

/-- **A rejected order leaves the book untouched exactly when it is all or nothing**, in every book
that adds and cancels lead to, in every configuration. -/
theorem rejected_add_unchanged_iff
    (hops : Run.Admitted apply NoReplace (new symbol config onTrade onExecution onBbo clock) ops)
    {order : Order} (hfresh : Fresh order) :
    let b := after (new symbol config onTrade onExecution onBbo clock) ops
    let added := b.addOrder order
    (added.1.success = false →
        added.2.store = b.store ∧ added.2.feed.trades = b.feed.trades) ↔
      AllOrNothing b order := by
  have hmoves := hops.mono fun _ _ h => h.movesPrice
  exact addOrder_rejected_iff (agrees_after (hmoves.mono fun _ _ h => h.unfilledInPlace))
    (sound_after _ _ _ _ _ _ _) (open_after hmoves) hfresh

end Runs

/-- A fill-or-kill order for more than is displayed. -/
theorem rejected_add_unchanged_sample :
    let b := after (makeBook {}) [.add (limitOrder 1 .Sell 100 50), .cancel 7]
    let order := { limitOrder 2 .Buy 100 100 with type := .FillOrKill }
    let added := b.addOrder order
    (added.1.success = false →
        added.2.store = b.store ∧ added.2.feed.trades = b.feed.trades) ↔
      AllOrNothing b order :=
  rejected_add_unchanged_iff (by decide +kernel) rfl

/-- A fill-or-kill bid for all 20 that is displayed.  Half of it is 1 of the bidder's own ids away,
where self-trade prevention stops: the bid is rejected, having bought the other half. -/
theorem rejected_add_trades :
    let b := after (makeBook { enableSelfTradePrevention := true })
      [.add (limitOrder 1000 .Sell 100 10), .add (limitOrder 2 .Sell 101 10)]
    let added := b.addOrder { limitOrder 1 .Buy 101 20 with type := .FillOrKill }
    added.1.success = false ∧ added.2.store ≠ b.store ∧
      b.feed.trades.length = 0 ∧ added.2.feed.trades.length = 1 := by
  have hbefore : (after (makeBook { enableSelfTradePrevention := true })
      [.add (limitOrder 1000 .Sell 100 10),
        .add (limitOrder 2 .Sell 101 10)]).store.orders.contains 1000 = true := by decide +kernel
  have hafter : ((after (makeBook { enableSelfTradePrevention := true })
      [.add (limitOrder 1000 .Sell 100 10), .add (limitOrder 2 .Sell 101 10)]).addOrder
        { limitOrder 1 .Buy 101 20 with type := .FillOrKill }).2.store.orders.contains 1000
          = false := by decide +kernel
  refine ⟨by decide +kernel, fun heq => ?_, by decide +kernel, by decide +kernel⟩
  rw [heq, hbefore] at hafter
  cases hafter

end Exchange.OrderBook
