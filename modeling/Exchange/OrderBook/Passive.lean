import Exchange.OrderBook.Depth
import Exchange.OrderBook.PostOnly

/-!
# Orders that meet nobody

A limit order that reaches no order of the other side goes into the book as it is.  `addOrder_rests`
says what such a call leaves, `cancelOrder_rests` and `replaceOrder_inPlace` what the two calls that
never trade leave: `orders_` with one entry changed, and no fill.
-/

namespace Exchange.OrderBook

open MatchState

variable {b : OrderBook} {order o : Order} {id : OrderId}

/-- The best price is that of an order, so that an order that crosses none does not reach it. -/
lemma not_reaches_best (hb : b.store.Agrees) (hsound : b.store.Sound) (htype : order.type ≠ .Market)
    (hclear : ∀ (id : OrderId) (o : Order), b.store.orders[id]? = some o →
      o.side = order.side.opposite → order.wouldCross o.price = false) :
    reaches order (b.store.best order.side.opposite) = false := by
  rcases hsound.bestLive order.side.opposite with hmem | ⟨hinvalid, -⟩
  · obtain ⟨level, hlevel⟩ := Option.isSome_iff_exists.mp
      (Std.ExtTreeMap.isSome_getElem?_iff_mem.mpr hmem)
    obtain ⟨n, hn⟩ := List.exists_mem_of_ne_nil _ (hsound.noEmpty _ _ _ hlevel)
    obtain ⟨o, ho, hside, hprice, -⟩ := hb.node ⟨level, hlevel, hn⟩
    have hcross := hclear _ _ ho hside
    rw [hprice] at hcross
    simp [reaches, htype, hcross]
  · simp [reaches, hinvalid]

/-- A good-till-cancelled limit order that crosses no resting order rests in full. -/
theorem addOrder_rests (hb : b.store.Agrees) (hsound : b.store.Sound) (htype : order.type = .Limit)
    (htif : order.tif = .GoodTillCancel) (hfresh : order.filledQty = 0)
    (hquantity : order.quantity ≠ 0) (hprice : 0 < order.price)
    (hnew : b.store.orders[order.id]? = none)
    (hclear : ∀ (id : OrderId) (o : Order), b.store.orders[id]? = some o →
      o.side = order.side.opposite → order.wouldCross o.price = false) :
    (b.addOrder order).1.success = true ∧
      Quiet (b.insertRestingOrder order) (b.addOrder order).2 := by
  have hne : order.type ≠ .Market := by
    rw [htype]
    exact OrderType.noConfusion
  have hrestable : Restable order := ⟨Or.inl htype, Or.inr htif⟩
  have hpasses : Passes b order := by
    refine ⟨hquantity, fun _ => hprice, hnew, fun hpost => ?_, fun hfok => ?_⟩
    · rw [htype] at hpost
      cases hpost
    · rw [hrestable.not_isFillOrKill] at hfok
      cases hfok
  have hmatch : b.matchOrder (withMarketPrice order) = { book := b, order := order } := by
    rw [hrestable.withMarketPrice_eq]
    exact matchOrder_of_not_reaches (not_reaches_best hb hsound hne hclear)
  have hopen : order.isFilled = false := by
    rw [Order.not_isFilled_iff, hfresh]
    exact UInt32.pos_iff_ne_zero.mpr hquantity
  cases addOrder_cases b order with
  | rejected reason hr => exact absurd hpasses (not_passes_of_rejected hr)
  | killed _ hkills => exact absurd hkills hrestable.not_killsRemainder
  | rested _ _ _ hok _ hquiet =>
      rw [hmatch] at hquiet
      exact ⟨hok, hquiet⟩
  | passed _ hgone =>
      rw [hmatch] at hgone
      rcases hgone with hfilled | hnot
      · rw [hopen] at hfilled
        cases hfilled
      · exact absurd hrestable hnot

/-- A cancel of an order that rests takes it out. -/
theorem cancelOrder_rests (ho : b.store.orders[id]? = some o) :
    (b.cancelOrder id).1.success = true ∧
      Quiet { b with store := b.store.cancelOrder id o } (b.cancelOrder id).2 := by
  rw [cancelOrder_of_some ho]
  exact ⟨rfl, Quiet.maybeEmitBbo _⟩

/-- A replace at the price of the order rewrites it. -/
theorem replaceOrder_inPlace (hb : b.store.Agrees) (ho : b.store.orders[id]? = some o)
    (uninit : OrderResult) (newQty : Quantity) :
    (b.replaceOrder uninit id o.price newQty).1.success = true ∧
      ∃ level, InPlace b.store id o.price o level ∧
        Quiet { b with store := amend b.store id o level newQty }
          (b.replaceOrder uninit id o.price newQty).2 := by
  obtain ⟨n, ⟨level, hlevel, -⟩, -⟩ := hb.queued ho
  have hin : InPlace b.store id o.price o level := ⟨ho, rfl, hlevel⟩
  rw [replaceOrder_of_inPlace hin]
  exact ⟨rfl, level, hin, Quiet.maybeEmitBbo _⟩

/-- Where one order alone rests, the level has what it has left. -/
theorem quantityAt_of_unique (hb : b.store.Agrees) (ho : b.store.orders[o.id]? = some o)
    (hunique : ∀ o' : Order, b.store.orders[o'.id]? = some o' → o'.side = o.side →
      o'.price = o.price → o' = o) :
    Feed.quantityAt b.store o.side o.price = o.remaining := by
  have hperm : (b.store.restingAt o.side o.price).Perm [o] := by
    rw [List.perm_ext_iff_of_nodup (hb.nodup_restingAt _ _) (List.nodup_singleton o)]
    intro o'
    rw [hb.mem_restingAt, List.mem_singleton]
    constructor
    · rintro ⟨ho', hside, hprice⟩
      exact hunique o' ho' hside hprice
    · rintro rfl
      exact ⟨ho, rfl, rfl⟩
  have hsum := (hperm.map (·.remaining.toNat)).sum_nat
  rw [← UInt32.toNat_inj, Feed.toNat_quantityAt hb, Store.openAt, hsum, List.map_singleton,
    List.sum_singleton, Nat.mod_eq_of_lt o.remaining.toNat_lt]

end Exchange.OrderBook
