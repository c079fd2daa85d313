import Exchange.OrderBook.Depth
import Exchange.OrderBook.Quotes

/-!
# Level totals, as numbers

`total_quantity_` has 32 bits, and nothing bounds what rests at a price: `max_orders_per_level` is
read by nothing.  Of all calls only an add that rests something makes a total grow, and it wraps just
if what it puts at a price makes `2 ^ 32` with what rests there.

**`totals_exact_iff`** — in a run of adds and cancels, what the book and its quotes and snapshots say
of its levels is exact throughout if and only if no add does that.
-/

namespace Exchange

namespace OrderBook

open MatchState

variable {b : OrderBook} {order : Order} {side : Side} {p : Price}

/-! ## What calls do to a price -/

/-- Matching leaves the orders of the taker's own side alone. -/
lemma queuedAt_matchOrder_own (b : OrderBook) (order : Order) (p : Price) :
    (b.matchOrder order).book.store.queuedAt order.side p = b.store.queuedAt order.side p := by
  have hinv : MatchInvariant
      (fun m => m.order.side = order.side ∧ ∀ p : Price,
        (m.book.store.levels order.side)[p]? = (b.store.levels order.side)[p]?)
      fun _ m => m.order.side = order.side ∧ ∀ p : Price,
        (m.book.store.levels order.side)[p]? = (b.store.levels order.side)[p]? := by
    have hne : ∀ m : MatchState, m.order.side = order.side → order.side ≠ m.opposite := by
      intro m hside
      rw [opposite, hside]
      exact (Side.opposite_ne _).symm
    refine .of_uniform ?_ ?_ (fun _ h => h) ?_ ?_
    · rintro m ⟨hside, hlevels⟩
      exact ⟨hside, fun p => by simp [refreshBest, hlevels]⟩
    · rintro p m level n rest ⟨hside, hlevels⟩ _ _
      refine ⟨hside, fun k => ?_⟩
      rw [store_popGhost, Store.getElem?_setLevel, if_neg fun h => hne m hside h.1, hlevels]
    · rintro p m level n rest resting ⟨hside, hlevels⟩ _
      refine ⟨by rw [order_fillFront, Order.fill_side, hside], fun k => ?_⟩
      rw [store_fillFront, getElem?_levels_fillStore, if_neg fun h => hne m hside h.1, hlevels]
    · rintro p m level ⟨hside, hlevels⟩ _ _
      refine ⟨hside, fun k => ?_⟩
      rw [store_setStore, Store.getElem?_eraseLevel, if_neg fun h => hne m hside h.1, hlevels]
  rw [Store.queuedAt, (hinv.matchOrder b order ⟨rfl, fun _ => rfl⟩).2, Store.queuedAt]

/-- Matching only takes away. -/
lemma queuedAt_matchOrder_le (b : OrderBook) (order : Order) (side : Side) (p : Price) :
    (b.matchOrder order).book.store.queuedAt side p ≤ b.store.queuedAt side p := by
  have hinv : MatchInvariant
      (fun m => ∀ side p, m.book.store.queuedAt side p ≤ b.store.queuedAt side p)
      fun _ m => ∀ side p, m.book.store.queuedAt side p ≤ b.store.queuedAt side p := by
    refine .of_uniform ?_ ?_ (fun _ h => h) ?_ ?_
    · intro m h side p
      simpa [Store.queuedAt, refreshBest] using h side p
    · intro p m level n rest h hfront _ side k
      refine Nat.le_trans ?_ (h side k)
      rw [Store.queuedAt, Store.queuedAt, store_popGhost, Store.getElem?_setLevel]
      split_ifs with hat
      · obtain ⟨rfl, rfl⟩ := hat
        rw [show (m.book.store.levels m.opposite)[k]? = some level from hfront.level_eq]
        exact PriceLevel.openQuantity_popFront_le
      · exact Nat.le_refl _
    · intro p m level n rest resting h hfill side k
      refine Nat.le_trans ?_ (h side k)
      rw [Store.queuedAt, Store.queuedAt, store_fillFront, getElem?_levels_fillStore]
      split_ifs with hat
      · obtain ⟨rfl, rfl⟩ := hat
        rw [show (m.book.store.levels m.opposite)[k]? = some level from hfill.level_eq]
        exact PriceLevel.openQuantity_fillFront_le hfill.nodes_eq
      · exact Nat.le_refl _
    · intro p m level h _ _ side k
      refine Nat.le_trans ?_ (h side k)
      rw [Store.queuedAt, Store.queuedAt, store_setStore, Store.getElem?_eraseLevel]
      split_ifs
      · exact Nat.zero_le _
      · exact Nat.le_refl _
  exact hinv.matchOrder b order (fun _ _ => Nat.le_refl _) side p

end OrderBook

namespace Store

variable {s : Store} {o : Order}

/-- An insertion adds what the order has left. -/
lemma queuedAt_insertRestingOrder (s : Store) (o : Order) (side : Side) (p : Price) :
    (s.insertRestingOrder o).queuedAt side p
      = s.queuedAt side p + if side = o.side ∧ p = o.price then o.remaining.toNat else 0 := by
  rw [queuedAt, getElem?_insertRestingOrder, queuedAt]
  split_ifs with hat
  · obtain ⟨rfl, rfl⟩ := hat
    rw [Option.elim_some, PriceLevel.openQuantity_addOrder, targetLevel]
    cases (s.levels o.side)[o.price]? <;> rfl
  · rfl

lemma queuedAt_cancelOrder_le (s : Store) (id : OrderId) (o : Order) (side : Side) (p : Price) :
    (s.cancelOrder id o).queuedAt side p ≤ s.queuedAt side p := by
  rw [queuedAt, levels_cancelOrder, getElem?_removeOrderFromLevel, queuedAt]
  split_ifs with hat
  · obtain ⟨rfl, rfl⟩ := hat
    cases (s.levels o.side)[o.price]? with
    | none => exact Nat.le_refl _
    | some level =>
        rw [Option.bind_some]
        split_ifs
        · exact Nat.zero_le _
        · exact PriceLevel.openQuantity_removeOrder_le
  · exact Nat.le_refl _

end Store

namespace OrderBook

open MatchState

variable {b : OrderBook} {order : Order}

/-! ## Exactness -/

/-- What the book says of its levels is what rests there. -/
structure TotalsExact (b : OrderBook) : Prop where
  quantity_at : ∀ side p, (Feed.quantityAt b.store side p).toNat = b.store.openAt side p
  bids : ∀ depth, ∀ u ∈ b.getBids depth, u.quantity.toNat = b.store.openAt .Buy u.price
  asks : ∀ depth, ∀ u ∈ b.getAsks depth, u.quantity.toNat = b.store.openAt .Sell u.price

/-- A quote says what rests in the book at its prices. -/
def QuoteExact (s : Store) (u : BBOUpdate) : Prop :=
  u.bidQty.toNat = s.openAt .Buy u.bidPrice ∧ u.askQty.toNat = s.openAt .Sell u.askPrice

/-- The quotes delivered by a call that leads from `b` to `b'`. -/
def quotesSince (b b' : OrderBook) : List BBOUpdate :=
  (b'.feed.events.drop b.feed.events.length).filterMap Event.bbo?

/-- The quotes of a call say what rests in the book that it leads to. -/
def QuotesExact (b : OrderBook) (op : Op) : Prop :=
  ∀ u ∈ quotesSince b (apply b op), QuoteExact (apply b op).store u

/-- What an order puts at its price, if it rests, makes less than `2 ^ 32` with what rests there. -/
def FitsLevel (b : OrderBook) (order : Order) : Prop :=
  Rests b order →
    b.store.openAt order.side order.price + (order.leaves - b.supply order) < 2 ^ 32

/-- Every total of the book is below `2 ^ 32`. -/
def Small (s : Store) : Prop := ∀ side p, s.openAt side p < 2 ^ 32

lemma totalsExact_iff (h : b.store.Agrees) : TotalsExact b ↔ Small b.store := by
  constructor
  · intro hexact side p
    rw [← hexact.quantity_at side p]
    exact UInt32.toNat_lt _
  · intro hsmall
    have hat : ∀ side p, (Feed.quantityAt b.store side p).toNat = b.store.openAt side p := by
      intro side p
      rw [Feed.toNat_quantityAt h, Nat.mod_eq_of_lt (hsmall side p)]
    refine ⟨hat, fun depth u hu => ?_, fun depth u hu => ?_⟩
    · have hquantity : u.quantity = Feed.quantityAt b.store .Buy u.price :=
        quantity_of_mem_snapshot hu
      rw [hquantity, hat]
    · have hquantity : u.quantity = Feed.quantityAt b.store .Sell u.price :=
        quantity_of_mem_snapshot hu
      rw [hquantity, hat]

/-- An order that rests puts what is left of it at its price. -/
lemma queuedAt_of_rests (hb : b.store.Sound) (hrests : Rests b order) (side : Side) (p : Price) :
    (b.addOrder order).2.store.queuedAt side p
      = (b.matchOrder order).book.store.queuedAt side p
        + if side = order.side ∧ p = order.price then order.leaves - b.supply order else 0 := by
  have hprice := hrests.kind.withMarketPrice_eq
  have hopen := (matchOrder_contenders hb order).1.mpr hrests.short
  have hleaves := leaves_matchOrder hb order
  have heq := hrests.addOrder_eq hb
  rw [hprice] at hopen hleaves heq
  have htaker := matchOrder_sameTaker b order
  have hremaining : (b.matchOrder order).order.remaining.toNat = order.leaves - b.supply order := by
    rw [Order.toNat_remaining (UInt32.le_of_lt (Order.not_isFilled_iff.mp hopen)), ← hleaves]
  rw [heq, (Quiet.finish _ _).store_eq]
  change (Store.insertRestingOrder _ _).queuedAt side p = _
  rw [Store.queuedAt_insertRestingOrder, htaker.side_eq, htaker.price_eq, hremaining]

/-- Where nothing is put, nothing is added. -/
lemma queuedAt_addOrder_le (hb : b.store.Sound) (hrests : ¬ Rests b order) (side : Side)
    (p : Price) : (b.addOrder order).2.store.queuedAt side p ≤ b.store.queuedAt side p := by
  have hmatched := queuedAt_matchOrder_le b (withMarketPrice order) side p
  cases addOrder_cases b order with
  | rejected _ _ _ hquiet => rw [hquiet.store_eq]
  | killed _ _ _ _ hquiet => rwa [hquiet.store_eq]
  | rested hr hkind hopen =>
      exact absurd ⟨rejectReason_eq_none_iff.mp hr, hkind,
        (matchOrder_contenders hb order).1.mp hopen⟩ hrests
  | passed _ _ _ _ _ hquiet => rwa [hquiet.store_eq]

/-- What a run of adds and cancels keeps, as long as no total wraps. -/
structure Counting (b : OrderBook) : Prop where
  sound : b.store.Sound
  agrees : b.store.Agrees
  small : Small b.store

lemma Counting.addOrder (h : Counting b) (hfits : FitsLevel b order) :
    Counting (b.addOrder order).2 := by
  have hagrees : (b.addOrder order).2.store.Agrees := agrees_calls.addOrder h.agrees trivial
  refine ⟨sound_calls.addOrder h.sound trivial, hagrees, fun side p => ?_⟩
  have hsmall := h.small side p
  rw [h.agrees.openAt_eq] at hsmall
  rw [hagrees.openAt_eq]
  by_cases hrests : Rests b order
  · have hmatched := queuedAt_matchOrder_le b order side p
    rw [queuedAt_of_rests h.sound hrests]
    split_ifs with hat
    · obtain ⟨rfl, rfl⟩ := hat
      have hroom := hfits hrests
      rw [h.agrees.openAt_eq] at hroom
      omega
    · omega
  · exact Nat.lt_of_le_of_lt (queuedAt_addOrder_le h.sound hrests side p) hsmall

lemma Counting.addOrder_breaks (h : Counting b) (hfits : ¬ FitsLevel b order) :
    ¬ TotalsExact (b.addOrder order).2 := by
  have hagrees : (b.addOrder order).2.store.Agrees := agrees_calls.addOrder h.agrees trivial
  rw [FitsLevel, Classical.not_imp] at hfits
  obtain ⟨hrests, hover⟩ := hfits
  rw [totalsExact_iff hagrees]
  intro hsmall
  have hat := hsmall order.side order.price
  rw [hagrees.openAt_eq, queuedAt_of_rests h.sound hrests, queuedAt_matchOrder_own,
    if_pos ⟨rfl, rfl⟩] at hat
  rw [h.agrees.openAt_eq] at hover
  exact hover hat

lemma Counting.cancelOrder (h : Counting b) (id : OrderId) : Counting (b.cancelOrder id).2 := by
  cases ho : b.store.orders[id]? with
  | none => rwa [cancelOrder_of_none ho]
  | some order =>
      have hagrees := h.agrees.cancelOrder ho
      rw [cancelOrder_of_some ho]
      refine ⟨h.sound.cancelOrder id order, hagrees, fun side p => ?_⟩
      change (b.store.cancelOrder id order).openAt side p < 2 ^ 32
      rw [hagrees.openAt_eq]
      refine Nat.lt_of_le_of_lt (Store.queuedAt_cancelOrder_le b.store id order side p) ?_
      rw [← h.agrees.openAt_eq]
      exact h.small side p

theorem counting_guards :
    Guards NoReplace FitsLevel (fun _ _ => True) Counting TotalsExact where
  holds h := (totalsExact_iff h.agrees).mpr h.small
  add h _ hfits := h.addOrder hfits
  add_breaks h _ hfits := h.addOrder_breaks hfits
  cancel id h := h.cancelOrder id
  flush h := ⟨h.sound, h.agrees, h.small⟩
  inPlace _ hno := absurd hno not_false
  inPlace_breaks _ hno := absurd hno not_false
  moved hno := absurd hno not_false

/-! ## Quotes -/

/-- An event that is a quote has the totals of the best levels of a store. -/
def QuotesStore (s : Store) (e : Event) : Prop :=
  ∀ u, e.bbo? = some u →
    u.bidQty = Feed.quantityAt s .Buy u.bidPrice ∧ u.askQty = Feed.quantityAt s .Sell u.askPrice

lemma QuoteOf.quotesStore {s : Store} {e : Event} (h : ∀ u, e.bbo? = some u → QuoteOf s u) :
    QuotesStore s e := by
  intro u hu
  obtain ⟨hbid, hbidQty, hask, haskQty⟩ := h u hu
  exact ⟨by rw [hbidQty, hbid], by rw [haskQty, hask]⟩

/-- A call quotes the book that it leads to. -/
lemma adds_quotesStore {op : Op} (hop : NoReplace b op) :
    b.feed.Adds (QuotesStore (apply b op).store) (apply b op).feed := by
  refine (adds_apply b op).mono fun e he => QuoteOf.quotesStore fun u hu => ?_
  obtain ⟨b', hstage, hquote⟩ := he u hu
  cases hstage with
  | done => exact hquote
  | cancelled => exact absurd hop not_false

/-- Where the totals are exact, so are the quotes. -/
lemma TotalsExact.quotesExact {op : Op} (hop : NoReplace b op) (h : TotalsExact (apply b op)) :
    QuotesExact b op := by
  obtain ⟨events, heq, hall⟩ := adds_quotesStore hop
  intro u hu
  rw [quotesSince, heq, List.drop_left] at hu
  obtain ⟨e, he, heu⟩ := List.mem_filterMap.mp hu
  obtain ⟨hbid, hask⟩ := hall e he u heu
  exact ⟨by rw [hbid, h.quantity_at], by rw [hask, h.quantity_at]⟩

section Runs

variable {symbol : Symbol} {config : OrderBookConfig} {onTrade onExecution onBbo : Bool}
  {clock : Stream' Timestamp} {ops : List Op}

/-- **Totals are exact exactly as long as they fit.**  In every run of adds and cancels, all that
the book says of its levels, in answers, quotes and snapshots, is exact if and only if what each
order puts at its price makes less than `2 ^ 32` with what rests there. -/
theorem totals_exact_iff (hops : Run.Admitted apply NoReplace
      (new symbol config onTrade onExecution onBbo clock) ops) :
    (Run.Throughout apply TotalsExact (new symbol config onTrade onExecution onBbo clock) ops ∧
        Run.Admitted apply QuotesExact (new symbol config onTrade onExecution onBbo clock) ops) ↔
      Run.Admitted apply (Guarded FitsLevel fun _ _ => True)
        (new symbol config onTrade onExecution onBbo clock) ops := by
  have hstart : Counting (new symbol config onTrade onExecution onBbo clock) :=
    ⟨.empty, .empty, fun _ _ => Nat.two_pow_pos 32⟩
  rw [counting_guards.throughout_iff hops hstart]
  refine and_iff_left_of_imp fun hfits => ?_
  have hstep : ∀ (b : OrderBook) (op : Op), Counting b →
      NoReplace b op ∧ Guarded FitsLevel (fun _ _ => True) b op → Counting (apply b op) :=
    fun b op h hop => counting_guards.step h hop.1 hop.2
  refine (Run.admitted_and.mpr ⟨hops, hfits⟩).imp hstep (fun b op h hop => ?_) hstart
  have hnext := hstep b op h hop
  exact TotalsExact.quotesExact hop.1 ((totalsExact_iff hnext.agrees).mpr hnext.small)

end Runs

/-- Two asks at one price and one at another. -/
theorem totals_exact_of_small :
    Run.Throughout apply TotalsExact (makeBook {}) [.add (limitOrder 1 .Sell 100 4294967285),
        .add (limitOrder 2 .Sell 100 10), .add (limitOrder 3 .Sell 101 10)] ∧
      Run.Admitted apply QuotesExact (makeBook {}) [.add (limitOrder 1 .Sell 100 4294967285),
        .add (limitOrder 2 .Sell 100 10), .add (limitOrder 3 .Sell 101 10)] :=
  (totals_exact_iff (by decide +kernel)).mpr
    ⟨fun _ => by decide +kernel, fun _ => by decide +kernel, fun _ => by decide +kernel, trivial⟩

/-- Where `2 ^ 32` rests at a price, the book says that nothing does. -/
theorem total_wraps :
    ¬ TotalsExact (after (makeBook {}) [.add (limitOrder 1 .Sell 100 4294967295),
      .add (limitOrder 2 .Sell 100 1)]) := by
  intro h
  exact absurd (h.quantity_at .Sell 100) (by decide +kernel)

end OrderBook

end Exchange
