import Exchange.OrderBook.Guards
import Exchange.OrderBook.Walk

/-!
# Self-trade prevention and a crossed book

`never_crossed` is about books with self-trade prevention off.  With it on there is one more way out
of `match_order`: the order meets one that it takes for its own.  What comes after does not tell it
from the others, and puts what is left of the order in the book, across from the order it crosses.

**`uncrossed_iff`** — the book never stands crossed exactly if no order is put in the book across
from one of its own that it crosses.
-/

namespace Exchange.OrderBook

open MatchState

/-- Where there are orders on both sides, the best bid is below the best ask. -/
def BestUncrossed (b : OrderBook) : Prop :=
  b.store.bidLevels ≠ ∅ → b.store.askLevels ≠ ∅ → b.store.bestBid < b.store.bestAsk

/-- An order that is put in the book has none of its own across from it that it crosses. -/
def ClearOfOwn (b : OrderBook) (order : Order) : Prop :=
  Rests b order → ∀ maker ∈ b.store.restingOrders order.side.opposite,
    order.wouldCross maker.price = true → isOwn b.config order maker = false

variable {b : OrderBook} {order : Order}

lemma bestUncrossed_iff (h : b.store.Exact) : BestUncrossed b ↔ Uncrossed b.store := by
  have hcache := Exact.cacheExact h
  constructor
  · intro hbest p hp q hq
    have hbids : b.store.bidLevels ≠ ∅ := fun hnil => by simp [hnil] at hp
    have hasks : b.store.askLevels ≠ ∅ := fun hnil => by simp [hnil] at hq
    have hle := Int64.lt_of_le_of_lt ((hcache.bid_greatest hbids).2 p hp) (hbest hbids hasks)
    exact Int64.lt_of_lt_of_le hle ((hcache.ask_least hasks).2 q hq)
  · intro h hbids hasks
    exact h _ (hcache.bid_greatest hbids).1 _ (hcache.ask_least hasks).1

/-! ## What an open order leaves of the queue -/

/-- An order that comes out of matching open has used up all there is before the first stop. -/
lemma visited_of_open (hagrees : b.store.Agrees) (hsound : b.store.Sound) {taker : Order}
    (hopen : (b.matchOrder taker).order.isFilled = false) :
    (b.matchOrder taker).book.store.visited taker.side.opposite
      = (b.store.visited taker.side.opposite).dropWhile
          fun maker => !stopsAt b.config taker maker := by
  obtain ⟨fills, -, hdrawn, hfilled, -, hleft⟩ := matchOrder_draws hagrees hsound taker
  have hsum : (fills.map (·.quantity.toNat)).sum
      = min taker.leaves (Draw.reach (stopsAt b.config taker) Order.leaves
          (b.store.visited taker.side.opposite)) := by
    have hsum := congrArg (fun l => (l.map (·.2)).sum) hdrawn
    simp only [drawn, Draw.sum_drawn, List.map_map] at hsum
    exact hsum
  rw [hleft, left, Draw.left_of_reach_lt]
  have hlt := UInt32.lt_iff_toNat_lt.mp (Order.not_isFilled_iff.mp hopen)
  rw [(matchOrder_sameTaker b taker).quantity_eq, hfilled, hsum] at hlt
  rw [Order.leaves] at hlt ⊢
  omega

/-- Of the makers an order crosses, those it stops at are its own. -/
lemma stopsAt_iff_isOwn {maker : Order} (hprice : ValidPrice maker.price)
    (hcross : order.wouldCross maker.price = true) :
    stopsAt b.config order maker = isOwn b.config order maker := by
  simp [stopsAt, isOwn, hprice.ne_invalid, hprice.ne_zero, hcross]

/-- The makers met all have valid prices. -/
lemma validPrice_of_mem_visited (hexact : b.store.Exact) (hagrees : b.store.Agrees) {side : Side}
    {maker : Order} (hmaker : maker ∈ b.store.visited side) : ValidPrice maker.price :=
  hexact.valid side _ (hagrees.price_mem_of_mem_visited hmaker)

/-- **An order that is clear of its own crosses nothing when it is put in the book.** -/
theorem not_crossing_of_clear (hexact : b.store.Exact) (hagrees : b.store.Agrees)
    (hopen : (b.matchOrder order).order.isFilled = false)
    (hclear : ∀ maker ∈ b.store.restingOrders order.side.opposite,
      order.wouldCross maker.price = true → isOwn b.config order maker = false) (p : Price)
    (hp : p ∈ (b.matchOrder order).book.store.levels order.side.opposite) :
    order.wouldCross p = false := by
  have hexact' := exact_invariant.matchOrder b order hexact
  have hagrees' := agrees_invariant.matchOrder b order hagrees
  have hvisited := visited_of_open hagrees hexact.toSound hopen
  have hbest : (b.matchOrder order).book.store.best order.side.opposite
      ∈ (b.matchOrder order).book.store.levels order.side.opposite :=
    hexact'.mem_of_ne_invalid _ fun hinv => hexact'.not_mem_of_invalid hinv p hp
  obtain ⟨maker, makers, hhead, hprice⟩ := hagrees'.visited_cons hexact'.toSound hbest
  rw [hvisited] at hhead
  -- the first maker that is left is one that matching stopped at
  have hstop : stopsAt b.config order maker = true := by
    have hne : (b.store.visited order.side.opposite).dropWhile
        (fun maker => !stopsAt b.config order maker) ≠ [] := by simp [hhead]
    have hhead' := List.head_dropWhile_not (fun maker => !stopsAt b.config order maker) hne
    simpa [hhead] using hhead'
  have hmem : maker ∈ b.store.visited order.side.opposite :=
    (List.dropWhile_suffix _).subset (by rw [hhead]; exact List.mem_cons_self)
  rw [← Bool.not_eq_true]
  intro hcross
  have hcross' : order.wouldCross maker.price = true := by
    rw [hprice, Order.wouldCross_iff]
    rw [Order.wouldCross_iff] at hcross
    exact Int.le_trans (hexact'.extreme _ _ hp) hcross
  rw [stopsAt_iff_isOwn (validPrice_of_mem_visited hexact hagrees hmem) hcross',
    hclear maker (by rwa [← hexact.visited_eq]) hcross'] at hstop
  cases hstop

/-- **An order put in the book across from its own crosses it.** -/
theorem crossing_of_own (hexact : b.store.Exact) (hagrees : b.store.Agrees)
    (hopen : (b.matchOrder order).order.isFilled = false) {maker : Order}
    (hmaker : maker ∈ b.store.restingOrders order.side.opposite)
    (hcross : order.wouldCross maker.price = true) (hown : isOwn b.config order maker = true) :
    maker.price ∈ (b.matchOrder order).book.store.levels order.side.opposite := by
  rw [← hexact.visited_eq] at hmaker
  have hstop : stopsAt b.config order maker = true := by
    rw [stopsAt_iff_isOwn (validPrice_of_mem_visited hexact hagrees hmaker) hcross, hown]
  have hleft := Draw.mem_dropWhile_of_stop hmaker hstop
  rw [← visited_of_open hagrees hexact.toSound hopen] at hleft
  exact (agrees_invariant.matchOrder b order hagrees).price_mem_of_mem_visited hleft

/-! ## Calls -/

/-- Neither a replace nor an order at a price that means "no price". -/
def AddsAtValidPrices (b : OrderBook) (op : Op) : Prop := ValidPrices b op ∧ NoReplace b op

instance (b : OrderBook) (op : Op) : Decidable (AddsAtValidPrices b op) :=
  inferInstanceAs (Decidable (_ ∧ _))

/-- What adds and cancels keep, whether the book is crossed or not. -/
structure Coherent (b : OrderBook) : Prop where
  exact : b.store.Exact
  agrees : b.store.Agrees

lemma Coherent.addOrder (h : Coherent b) (hpre : AddsAtValidPrices b (.add order)) :
    Coherent (b.addOrder order).2 :=
  ⟨exact_calls.addOrder h.exact hpre.1, agrees_calls.addOrder h.agrees trivial⟩

lemma Uncrossed.addOrder (h : Uncrossed b.store) (hcoherent : Coherent b) (hok : ClearOfOwn b order) :
    Uncrossed (b.addOrder order).2.store := by
  have hmatched : Uncrossed (b.matchOrder (withMarketPrice order)).book.store :=
    h.of_subset (matchOrder_levels_subset b _)
  cases addOrder_cases b order with
  | rejected _ _ _ hquiet => rw [hquiet.store_eq]; exact h
  | killed _ _ _ _ hquiet => rw [hquiet.store_eq]; exact hmatched
  | passed _ _ _ _ _ hquiet => rw [hquiet.store_eq]; exact hmatched
  | rested hr hkind hopen _ _ hquiet =>
      have hrests : Rests b order := ⟨rejectReason_eq_none_iff.mp hr, hkind,
        (matchOrder_contenders hcoherent.exact.toSound order).1.mp hopen⟩
      rw [hquiet.store_eq]
      refine Uncrossed.insertRestingOrder hmatched fun p hp => ?_
      rw [hkind.withMarketPrice_eq] at hopen hp ⊢
      have htaker := matchOrder_sameTaker b order
      rw [htaker.side_eq] at hp
      have hclear := not_crossing_of_clear hcoherent.exact hcoherent.agrees hopen (hok hrests) p hp
      rwa [Order.wouldCross, htaker.side_eq, htaker.price_eq, ← Order.wouldCross]

/-- Two levels at prices that cross. -/
lemma not_uncrossed_of_wouldCross {s : Store} {p : Price}
    (hself : order.price ∈ s.levels order.side) (hp : p ∈ s.levels order.side.opposite)
    (hcross : order.wouldCross p = true) : ¬ Uncrossed s := by
  intro h
  rw [Order.wouldCross] at hcross
  cases hside : order.side with
  | Buy =>
      rw [hside] at hself hp hcross
      have hlt := h _ hself _ hp
      have hle : p ≤ order.price := by simpa using hcross
      exact Int64.not_lt.mpr hle hlt
  | Sell =>
      rw [hside] at hself hp hcross
      have hlt := h _ hp _ hself
      have hle : order.price ≤ p := by simpa using hcross
      exact Int64.not_lt.mpr hle hlt

lemma not_uncrossed_addOrder (hcoherent : Coherent b) (hok : ¬ ClearOfOwn b order) :
    ¬ Uncrossed (b.addOrder order).2.store := by
  simp only [ClearOfOwn, not_forall, Bool.not_eq_false] at hok
  obtain ⟨hrests, maker, hmaker, hcross, hown⟩ := hok
  have hopen := (matchOrder_contenders hcoherent.exact.toSound order).1.mpr hrests.short
  rw [hrests.addOrder_eq hcoherent.exact.toSound, (Quiet.finish _ _).store_eq,
    hrests.kind.withMarketPrice_eq]
  rw [hrests.kind.withMarketPrice_eq] at hopen
  have hstill := crossing_of_own hcoherent.exact hcoherent.agrees hopen hmaker hcross hown
  have htaker := matchOrder_sameTaker b order
  have hmem : ∀ (side : Side) (k : Price),
      k ∈ ((b.matchOrder order).book.insertRestingOrder
        (b.matchOrder order).order).store.levels side ↔
      (side = order.side ∧ k = order.price) ∨
        k ∈ (b.matchOrder order).book.store.levels side := by
    intro side k
    rw [← htaker.side_eq, ← htaker.price_eq]
    show k ∈ ((b.matchOrder order).book.store.insertRestingOrder
      (b.matchOrder order).order).levels side ↔ _
    rw [Store.insertRestingOrder, Store.levels_raiseBest, Store.levels_setOrder,
      Store.mem_setLevel]
  exact not_uncrossed_of_wouldCross ((hmem _ _).mpr (Or.inl ⟨rfl, rfl⟩))
    ((hmem _ _).mpr (Or.inr hstill)) hcross

theorem uncrossed_guards : Guards AddsAtValidPrices ClearOfOwn (fun _ _ => True)
    (fun b => Uncrossed b.store ∧ Coherent b) BestUncrossed where
  holds h := (bestUncrossed_iff h.2.exact).mpr h.1
  add h hpre hok := ⟨h.1.addOrder h.2 hok, h.2.addOrder hpre⟩
  add_breaks h hpre hok := by
    rw [bestUncrossed_iff (h.2.addOrder hpre).exact]
    exact not_uncrossed_addOrder h.2 hok
  cancel {b} id h := by
    refine ⟨?_, exact_calls.cancelOrder h.2.exact id, agrees_calls.cancelOrder h.2.agrees id⟩
    cases cancelOrder_cases b id with
    | missing _ _ hsame => rw [hsame]; exact h.1
    | cancelled _ _ hquiet =>
        rw [hquiet.store_eq]
        exact h.1.of_subset fun _ _ hp => Store.mem_cancelOrder hp
  flush h := ⟨h.1, h.2.exact, h.2.agrees⟩
  inPlace _ hpre _ _ := hpre.2.elim
  inPlace_breaks _ hpre _ _ := hpre.2.elim
  moved hpre _ := hpre.2.elim

/-- **The book stays uncrossed exactly as long as no order is put in the book across from its own.**
In every run of adds and cancels with valid prices, the best bid is below the best ask after every
call if and only if no order has its remainder put in the book while one of its own, as self-trade
prevention sees it, rests at a price it crosses. -/
theorem uncrossed_iff (symbol : Symbol) (config : OrderBookConfig)
    (onTrade onExecution onBbo : Bool) (clock : Stream' Timestamp) {ops : List Op}
    (hops : Run.Admitted apply AddsAtValidPrices
      (new symbol config onTrade onExecution onBbo clock) ops) :
    Run.Throughout apply BestUncrossed (new symbol config onTrade onExecution onBbo clock) ops ↔
      Run.Admitted apply (Guarded ClearOfOwn fun _ _ => True)
        (new symbol config onTrade onExecution onBbo clock) ops :=
  uncrossed_guards.throughout_iff hops
    ⟨fun p hp => by simp [new] at hp, Store.Exact.empty, Store.Agrees.empty⟩

/-- A bid that stops at an ask of its own. -/
theorem uncrossed_sample :
    Run.Throughout apply BestUncrossed (makeBook { enableSelfTradePrevention := true })
        [.add (limitOrder 1 .Sell 100 10), .add (limitOrder 2 .Buy 100 10)] ↔
      Run.Admitted apply (Guarded ClearOfOwn fun _ _ => True)
        (makeBook { enableSelfTradePrevention := true })
        [.add (limitOrder 1 .Sell 100 10), .add (limitOrder 2 .Buy 100 10)] :=
  uncrossed_iff _ _ _ _ _ _ (by decide +kernel)

/-- It rests at the price of that ask. -/
theorem own_orders_cross :
    let b := after (makeBook { enableSelfTradePrevention := true })
      [.add (limitOrder 1 .Sell 100 10), .add (limitOrder 2 .Buy 100 10)]
    ¬ BestUncrossed b ∧ b.store.bestBid = 100 ∧ b.store.bestAsk = 100 := by
  intro b
  have hbid : b.store.bestBid = 100 := by decide +kernel
  have hask : b.store.bestAsk = 100 := by decide +kernel
  refine ⟨fun h => ?_, hbid, hask⟩
  have hbids : b.store.bidLevels.contains 100 = true := by decide +kernel
  have hasks : b.store.askLevels.contains 100 = true := by decide +kernel
  have hlt := h (fun hnil => by simp [hnil] at hbids) (fun hnil => by simp [hnil] at hasks)
  rw [hbid, hask] at hlt
  exact Int64.lt_irrefl hlt

end Exchange.OrderBook
