import Exchange.OrderBook.Guards
import Exchange.OrderBook.Walk

/-!
# Open quantities

`Order::remaining` subtracts without a check.  It never wraps, and no order that has nothing left is
traded with, as long as `replace_order` leaves the quantities alone: matching fills an order up to
its quantity and takes it out, and what rests is open.  The same-price branch of `replace_order`
writes the new quantity without looking at what has been filled, or at whether it is 0.

* **`no_overfill_iff`** — no order is over-filled, and none is traded with that has nothing left,
  exactly as long as no replace in place goes below what has been filled and no order meets one that
  such a replace has left with nothing;
* **`nothing_empty`** — no trade, order or level is empty as long as replaces in place meet unfilled
  orders and give them a quantity.
-/

namespace Exchange.OrderBook

open MatchState

variable {b : OrderBook} {order : Order}

/-! ## Over-filled orders -/

/-- No order is over-filled, and no trade is executed against an order that has nothing left. -/
structure NoOverfill (b : OrderBook) : Prop where
  orders : ∀ (id : OrderId) (o : Order), b.store.orders[id]? = some o → o.filledQty ≤ o.quantity
  makers : ∀ f ∈ b.history.executed, f.maker.isFilled = false

/-- Where no order is over-filled, no `remaining()` wraps. -/
theorem NoOverfill.toNat_remaining (h : NoOverfill b) {id : OrderId} {o : Order}
    (ho : b.store.orders[id]? = some o) :
    o.remaining.toNat = o.quantity.toNat - o.filledQty.toNat :=
  Order.toNat_remaining (h.orders id o ho)

/-- An order that gets past the checks takes only from makers that have something left. -/
def MeetsOpenMakers (b : OrderBook) (order : Order) : Prop :=
  Passes b order → ∀ x ∈ b.draws order, x.1.isFilled = false

/-- A replace in place does not go below what has been filled. -/
def CoversFilled (existing : Order) (newQty : Quantity) : Prop := existing.filledQty ≤ newQty

lemma NoOverfill.quiet {b' : OrderBook} (h : NoOverfill b) (hquiet : Quiet b b') :
    NoOverfill b' where
  orders id o ho := h.orders id o (by rwa [hquiet.store_eq] at ho)
  makers f hf := h.makers f (by rwa [hquiet.history_eq] at hf)

/-- Matching fills no order beyond its quantity. -/
lemma filled_le_matchOrder
    (h : ∀ (id : OrderId) (o : Order), b.store.orders[id]? = some o → o.filledQty ≤ o.quantity)
    (order : Order) (id : OrderId) (o : Order)
    (ho : (b.matchOrder order).book.store.orders[id]? = some o) : o.filledQty ≤ o.quantity :=
  AllOrders.matchOrder (P := fun o => o.filledQty ≤ o.quantity) h
    (fun _ _ _ hopen => UInt32.le_of_lt (Order.not_isFilled_iff.mp hopen)) order id o ho

/-- The makers of a call are those it draws from. -/
lemma makers_matchOrder_iff (hb : b.store.Sound)
    (h : ∀ f ∈ b.history.executed, f.maker.isFilled = false) (order : Order) :
    (∀ f ∈ (b.matchOrder (withMarketPrice order)).book.history.executed, f.maker.isFilled = false) ↔
      ∀ x ∈ b.draws order, x.1.isFilled = false := by
  obtain ⟨-, fills, hexecuted, hdrawn⟩ := matchOrder_contenders hb order
  rw [hexecuted, ← hdrawn]
  simp only [List.mem_append, List.mem_map]
  constructor
  · rintro hall x ⟨f, hf, rfl⟩
    exact hall f (Or.inr hf)
  · rintro hall f (hf | hf)
    · exact h f hf
    · exact hall _ ⟨f, hf, rfl⟩

lemma NoOverfill.addOrder (h : NoOverfill b) (hb : b.store.Sound)
    (hok : MeetsOpenMakers b order) : NoOverfill (b.addOrder order).2 := by
  have hmatched : Passes b order →
      NoOverfill (b.matchOrder (withMarketPrice order)).book := fun hpass =>
    ⟨filled_le_matchOrder h.orders _, (makers_matchOrder_iff hb h.makers order).mpr (hok hpass)⟩
  cases addOrder_cases b order with
  | rejected _ _ _ hquiet => exact h.quiet hquiet
  | killed hr _ _ _ hquiet => exact (hmatched (rejectReason_eq_none_iff.mp hr)).quiet hquiet
  | rested hr _ hopen _ _ hquiet =>
      have hm := hmatched (rejectReason_eq_none_iff.mp hr)
      refine NoOverfill.quiet ⟨fun i o ho => ?_, ?_⟩ hquiet
      · have ho := (Store.getElem?_orders_insertRestingOrder _ _ i).symm.trans ho
        split_ifs at ho
        · cases ho
          exact UInt32.le_of_lt (Order.not_isFilled_iff.mp hopen)
        · exact hm.orders i o ho
      · rw [executed_insertRestingOrder]
        exact hm.makers
  | passed hr _ _ _ _ hquiet => exact (hmatched (rejectReason_eq_none_iff.mp hr)).quiet hquiet

lemma NoOverfill.cancelOrder (h : NoOverfill b) (id : OrderId) :
    NoOverfill (b.cancelOrder id).2 := by
  cases cancelOrder_cases b id with
  | missing _ _ hsame =>
      rw [hsame]
      exact h
  | @cancelled order _ _ hquiet =>
      refine NoOverfill.quiet (b := { b with store := b.store.cancelOrder id order })
        ⟨fun i o ho => ?_, h.makers⟩ hquiet
      have ho : (b.store.cancelOrder id order).orders[i]? = some o := ho
      rw [Store.getElem?_orders_cancelOrder] at ho
      split_ifs at ho
      exact h.orders i o ho

theorem noOverfill_guards : Guards (fun _ _ => True) MeetsOpenMakers CoversFilled
    (fun b => NoOverfill b ∧ b.store.Sound) NoOverfill where
  holds h := h.1
  add h _ hok := ⟨h.1.addOrder h.2 hok, sound_calls.addOrder h.2 trivial⟩
  add_breaks {b order} h _ hok hafter := by
    obtain ⟨hpass, hmakers⟩ := Classical.not_imp.mp hok
    refine hmakers ((makers_matchOrder_iff h.2 h.1.makers order).mp ?_)
    rw [← executed_addOrder hpass]
    exact hafter.makers
  cancel id h := ⟨h.1.cancelOrder id, sound_calls.cancelOrder h.2 id⟩
  flush h := ⟨h.1.quiet (Quiet.flushTrades _), h.2⟩
  inPlace {b _ id _ newQty existing level} h _ hin hok := by
    refine ⟨NoOverfill.quiet (b := { b with store := amend b.store id existing level newQty })
      ⟨fun i o ho => ?_, h.1.makers⟩ (Quiet.maybeEmitBbo _), h.2.amend hin _⟩
    have ho : (amend b.store id existing level newQty).orders[i]? = some o := ho
    rw [amend, Store.getElem?_setOrder, Store.orders_setLevel] at ho
    split_ifs at ho
    · cases ho
      exact hok
    · exact h.1.orders i o ho
  inPlace_breaks _ _ hin hok hafter := hok (hafter.orders _ _ (Store.amend_self _ _ _ _ _).2)
  moved _ _ := trivial

/-- **No order is over-filled exactly as long as no replace in place over-fills one.**  In every run
of calls, no order in the book has more filled than its quantity and no trade is executed against an
order that has nothing left, if and only if each replace at an order's current price gives it no
less than has been filled, and each order takes only from makers that have something left. -/
theorem no_overfill_iff (symbol : Symbol) (config : OrderBookConfig)
    (onTrade onExecution onBbo : Bool) (clock : Stream' Timestamp) (ops : List Op) :
    Run.Throughout apply NoOverfill (new symbol config onTrade onExecution onBbo clock) ops ↔
      Run.Admitted apply (Guarded MeetsOpenMakers CoversFilled)
        (new symbol config onTrade onExecution onBbo clock) ops :=
  noOverfill_guards.throughout_iff (Run.admitted_trivial _ _)
    ⟨⟨allOrders_new, fun f hf => by cases hf⟩, Store.Sound.empty⟩

/-- A sell of 10 of which 6 are filled is replaced in place by one of 5. -/
theorem overfilled_in_place :
    ¬ NoOverfill (after (makeBook {}) [.add (limitOrder 1 .Sell 100 10),
      .add (limitOrder 2 .Buy 100 6), .replace {} 1 100 5]) := by
  intro h
  have horder : (after (makeBook {}) [.add (limitOrder 1 .Sell 100 10),
      .add (limitOrder 2 .Buy 100 6), .replace {} 1 100 5]).store.orders[(1 : OrderId)]?.map
        (fun o => (o.filledQty, o.quantity)) = some (6, 5) := by decide +kernel
  obtain ⟨o, ho, hpair⟩ := Option.map_eq_some_iff.mp horder
  obtain ⟨hfilled, hquantity⟩ := Prod.mk.inj hpair
  have hle := h.orders _ _ ho
  rw [hfilled, hquantity] at hle
  exact absurd hle (by decide)

/-! ## Empty trades and empty quotes -/

/-- Every trade, every resting order and every level has something in it. -/
structure NothingEmpty (b : OrderBook) : Prop where
  fills : ∀ f ∈ b.history.executed, 0 < f.quantity
  trades : ∀ t ∈ b.feed.trades, 0 < t.quantity
  orders : ∀ (id : OrderId) (o : Order), b.store.orders[id]? = some o → 0 < o.remaining
  levels : ∀ (side : Side) (p : Price) (level : PriceLevel), (b.store.levels side)[p]? = some level →
    ∃ n ∈ level.nodes, ∃ o, b.store.orders[n.orderId]? = some o ∧ 0 < o.remaining

/-- A replace in place meets an order of which nothing is filled, and gives it a quantity. -/
def RewritesUnfilled (b : OrderBook) : Op → Prop
  | .replace _ id newPrice newQty =>
      ∀ o, b.store.orders[id]? = some o → o.price = newPrice → o.filledQty = 0 ∧ newQty ≠ 0
  | _ => True

instance (b : OrderBook) : (op : Op) → Decidable (RewritesUnfilled b op)
  | .replace _ id newPrice newQty => inferInstanceAs (Decidable
      (∀ o, b.store.orders[id]? = some o → o.price = newPrice → o.filledQty = 0 ∧ newQty ≠ 0))
  | .add _ | .cancel _ | .flush => isTrue trivial

lemma RewritesUnfilled.unfilledInPlace {op : Op} (h : RewritesUnfilled b op) :
    UnfilledInPlace b op := by
  cases op with
  | replace => exact fun o ho hprice => (h o ho hprice).1
  | _ => trivial

/-- Whatever rests is open. -/
theorem unfilled_calls :
    CallInvariant RewritesUnfilled fun b => AllOrders b.store fun o => o.isFilled = false := by
  refine allOrders_calls (fun _ _ _ hopen => hopen) (fun _ _ hopen => hopen) ?_ fun _ _ => trivial
  intro b _ id newPrice newQty o hop ho hprice _
  obtain ⟨hzero, hne⟩ := hop o ho hprice
  rw [Order.not_isFilled_iff]
  show o.filledQty < newQty
  rw [hzero, UInt32.lt_iff_toNat_lt, UInt32.toNat_zero, Nat.pos_iff_ne_zero]
  exact fun h => hne (UInt32.toNat_inj.mp h)

/-- Every trade so far had a quantity, and whatever rests can give one. -/
structure Filling (b : OrderBook) : Prop where
  sound : b.store.Sound
  unfilled : AllOrders b.store fun o => o.isFilled = false
  fills : ∀ f ∈ b.history.executed, 0 < f.quantity

lemma offer_pos {maker : Order} (hopen : maker.isFilled = false) : 0 < offer maker :=
  Order.remaining_pos hopen

/-- A call trades nothing empty with makers that have something left. -/
lemma Filling.fills_matchOrder (h : Filling b) (order : Order) :
    ∀ f ∈ (b.matchOrder (withMarketPrice order)).book.history.executed, 0 < f.quantity := by
  obtain ⟨-, fills, hexecuted, hdrawn⟩ := matchOrder_contenders h.sound order
  intro f hf
  rw [hexecuted] at hf
  rcases List.mem_append.mp hf with hf | hf
  · exact h.fills f hf
  · have hmem : taken f ∈ b.draws order := by
      rw [← hdrawn]
      exact List.mem_map_of_mem hf
    rw [UInt32.lt_iff_toNat_lt]
    refine Draw.drawn_pos (fun maker hmaker => ?_) hmem
    obtain ⟨id, hid⟩ := mem_contenders hmaker
    exact offer_pos (h.unfilled id maker hid)

theorem filling_calls : CallInvariant RewritesUnfilled Filling where
  quiet h hquiet :=
    ⟨sound_calls.quiet h.sound hquiet, unfilled_calls.quiet h.unfilled hquiet,
      by rw [hquiet.history_eq]; exact h.fills⟩
  matched h hop hpass :=
    ⟨sound_calls.matched h.sound trivial hpass, unfilled_calls.matched h.unfilled hop hpass,
      h.fills_matchOrder _⟩
  rested h hop hpass hkind hopen :=
    ⟨sound_calls.rested h.sound trivial hpass hkind hopen,
      unfilled_calls.rested h.unfilled hop hpass hkind hopen,
      by rw [executed_insertRestingOrder]; exact h.fills_matchOrder _⟩
  cancelled h ho :=
    ⟨sound_calls.cancelled h.sound ho, unfilled_calls.cancelled h.unfilled ho, h.fills⟩
  inPlace h hop hin :=
    ⟨h.sound.amend hin _, unfilled_calls.inPlace h.unfilled hop hin, h.fills⟩
  moved := unfilled_calls.moved

lemma Filling.nothingEmpty (h : Filling b) (hagrees : b.store.Agrees) (hbacked : Backed b) :
    NothingEmpty b where
  fills := h.fills
  trades t ht := by
    obtain ⟨f, hf, heq⟩ := hbacked t ht
    have hquantity : t.quantity = f.quantity := by
      have := congrArg Execution.quantity heq
      rwa [Fill.execution, executionOf_quantity] at this
    rw [hquantity]
    exact h.fills f hf
  orders id o ho := UInt32.lt_iff_toNat_lt.mpr (Order.remaining_pos (h.unfilled id o ho))
  levels side p level hl := by
    obtain ⟨n, rest, hnodes⟩ := List.exists_cons_of_ne_nil (h.sound.noEmpty side p level hl)
    have hn : n ∈ level.nodes := by
      rw [hnodes]
      exact List.mem_cons_self
    obtain ⟨o, ho, -⟩ := hagrees.node ⟨level, hl, hn⟩
    exact ⟨n, hn, o, ho, UInt32.lt_iff_toNat_lt.mpr (Order.remaining_pos (h.unfilled _ o ho))⟩

section Runs

variable {symbol : Symbol} {config : OrderBookConfig} {onTrade onExecution onBbo : Bool}
  {clock : Stream' Timestamp} {ops : List Op}

/-- **No trade, order or level is empty**, after any call of a run in which each replace at an
order's current price meets an order of which nothing is filled, and gives it a quantity other than
0. -/
theorem nothing_empty (hops : Run.Admitted apply RewritesUnfilled
      (new symbol config onTrade onExecution onBbo clock) ops) :
    NothingEmpty (after (new symbol config onTrade onExecution onBbo clock) ops) := by
  have hfilling : Filling (after (new symbol config onTrade onExecution onBbo clock) ops) :=
    filling_calls.run hops ⟨Store.Sound.empty, allOrders_new, fun f hf => by cases hf⟩
  exact hfilling.nothingEmpty (agrees_after (hops.mono fun _ _ h => h.unfilledInPlace))
    (backed_after _ _ _ _ _ _ _)

end Runs

/-- An unfilled order is replaced in place and then filled in part. -/
theorem nothing_empty_sample :
    NothingEmpty (after (makeBook {}) [.add (limitOrder 1 .Sell 100 10), .replace {} 1 100 7,
      .add (limitOrder 2 .Buy 100 4), .replace {} 1 101 5]) :=
  nothing_empty (by decide +kernel)

/-- A sell of 10 is replaced in place by one of 0, which a bid then trades with. -/
theorem empty_in_place :
    ¬ NothingEmpty (after (makeBook {}) [.add (limitOrder 1 .Sell 100 10), .replace {} 1 100 0]) ∧
      ¬ NothingEmpty (after (makeBook {}) [.add (limitOrder 1 .Sell 100 10), .replace {} 1 100 0,
        .add (limitOrder 2 .Buy 100 4)]) := by
  constructor
  · intro h
    have horder : (after (makeBook {}) [.add (limitOrder 1 .Sell 100 10),
        .replace {} 1 100 0]).store.orders[(1 : OrderId)]?.map (·.remaining) = some 0 := by
      decide +kernel
    obtain ⟨o, ho, hremaining⟩ := Option.map_eq_some_iff.mp horder
    have hpos := h.orders _ _ ho
    rw [hremaining] at hpos
    exact absurd hpos (by decide)
  · intro h
    have htrade : (after (makeBook {}) [.add (limitOrder 1 .Sell 100 10), .replace {} 1 100 0,
        .add (limitOrder 2 .Buy 100 4)]).history.executed.map (·.quantity) = [0] := by
      decide +kernel
    obtain ⟨f, hf, hquantity⟩ := List.mem_map.mp (htrade ▸ List.mem_cons_self)
    have hpos := h.fills f hf
    rw [hquantity] at hpos
    exact absurd hpos (by decide)

end Exchange.OrderBook
