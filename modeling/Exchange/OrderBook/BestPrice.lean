import Exchange.OrderBook.Sound

/-!
# Exact best prices, and a book that never stands crossed

As long as no order at a price that means "no price" enters the book, the cached best prices are
exact: the greatest bid and the least ask (`Store.Exact`, `best_prices_exact`).  The two sides are
treated alike through `Side.rank`, which is smaller for better prices.

With exact caches the outer loop of `match_order` stops only when there is nothing left to cross, so
what is left of an order may rest on its own side without crossing the other
(`not_crossing_of_open`).  With self-trade prevention off that makes `Uncrossed` an invariant of
every run (`never_crossed`).
-/

namespace Exchange

open Std (ExtTreeMap)

/-! ## Ranks -/

/-- Better prices have smaller ranks. -/
def Side.rank : Side → Price → Int
  | .Buy, p => -p.toInt
  | .Sell, p => p.toInt

/-- An order crosses the opposite prices up to its own rank. -/
theorem Order.wouldCross_iff {o : Order} {p : Price} :
    o.wouldCross p = true ↔ o.side.opposite.rank p ≤ o.side.opposite.rank o.price := by
  rw [Order.wouldCross]
  cases o.side <;> simp [Side.opposite, Side.rank, Int64.le_iff_toInt_le]

namespace OrderBook

lemma ValidPrice.ne_invalid {p : Price} (h : ValidPrice p) : p ≠ invalidPrice := by
  rintro rfl
  exact Int64.lt_irrefl h.2

lemma ValidPrice.ne_zero {p : Price} (h : ValidPrice p) : p ≠ 0 := by
  rintro rfl
  exact Int64.lt_irrefl h.1

end OrderBook

open OrderBook MatchState

namespace Store

/-! ## Exact caches -/

/-- Only valid prices have levels, and no level is better than the cached best price. -/
structure Exact (s : Store) : Prop extends Sound s where
  valid : ∀ (side : Side) (p : Price), p ∈ s.levels side → ValidPrice p
  extreme : ∀ (side : Side) (p : Price), p ∈ s.levels side →
    side.rank (s.best side) ≤ side.rank p

variable {s s' : Store}

lemma Exact.empty : ({} : Store).Exact where
  toSound := Sound.empty
  valid side p h := by cases side <;> simp [levels] at h
  extreme side p h := by cases side <;> simp [levels] at h

lemma Exact.mem_of_ne_invalid (h : s.Exact) (side : Side) (hne : s.best side ≠ invalidPrice) :
    s.best side ∈ s.levels side :=
  (h.bestLive side).resolve_right fun hnone => hne hnone.1

lemma Exact.not_mem_of_invalid (h : s.Exact) {side : Side} (hinv : s.best side = invalidPrice)
    (p : Price) : p ∉ s.levels side := by
  rcases h.bestLive side with hmem | hnone
  · rw [hinv] at hmem
    exact absurd rfl (h.valid side _ hmem).ne_invalid
  · exact hnone.2 p

lemma rank_updateBest {side : Side} {p : Price} (hp : p ∈ s.levels side) :
    side.rank ((s.updateBest side).best side) ≤ side.rank p := by
  cases side with
  | Buy =>
      simp only [levels] at hp
      simp only [updateBest, updateBestBid, best]
      cases h : s.bidLevels.keys.getLast? with
      | none => exact absurd hp (KeyList.keys_eq_nil_iff.mp (List.getLast?_eq_none_iff.mp h) p)
      | some k =>
          have hmax := (KeyList.getLast?_keys_eq_some.mp h).2 p hp
          show Side.Buy.rank k ≤ Side.Buy.rank p
          by_cases hpk : p = k
          · exact hpk ▸ Int.le_refl _
          · have hlt := Int64.lt_iff_toInt_lt.mp (Std.compare_eq_lt.mp (hmax hpk))
            simp only [Side.rank]
            omega
  | Sell =>
      simp only [levels] at hp
      simp only [updateBest, updateBestAsk, best]
      cases h : s.askLevels.keys.head? with
      | none => exact absurd hp (KeyList.keys_eq_nil_iff.mp (List.head?_eq_none_iff.mp h) p)
      | some k =>
          have hmin := (KeyList.head?_keys_eq_some.mp h).2 p hp
          show Side.Sell.rank k ≤ Side.Sell.rank p
          by_cases hpk : p = k
          · exact hpk ▸ Int.le_refl _
          · have hlt := Int64.lt_iff_toInt_lt.mp (Std.compare_eq_lt.mp (hmin hpk))
            simp only [Side.rank]
            omega

/-- After an insertion the cache is at least as good as the price inserted, and as before. -/
lemma rank_raiseBest (s : Store) (side : Side) (p : Price) :
    side.rank ((s.raiseBest side p).best side) ≤ side.rank p ∧
      (s.best side ≠ invalidPrice →
        side.rank ((s.raiseBest side p).best side) ≤ side.rank (s.best side)) := by
  cases side with
  | Buy =>
      simp only [raiseBest, best, Side.rank]
      split_ifs with hraise
      · refine ⟨Int.le_refl _, fun hne => ?_⟩
        have hlt := Int64.lt_iff_toInt_lt.mp (hraise.resolve_left hne)
        dsimp only
        omega
      · simp only [not_or, Int64.not_lt, gt_iff_lt] at hraise
        have hle := Int64.le_iff_toInt_le.mp hraise.2
        exact ⟨by omega, fun _ => Int.le_refl _⟩
  | Sell =>
      simp only [raiseBest, best, Side.rank]
      split_ifs with hraise
      · have hlt := Int64.lt_iff_toInt_lt.mp hraise
        refine ⟨Int.le_refl _, fun _ => ?_⟩
        dsimp only
        omega
      · simp only [Int64.not_lt] at hraise
        have hle := Int64.le_iff_toInt_le.mp hraise
        exact ⟨by omega, fun _ => Int.le_refl _⟩

theorem Exact.insertRestingOrder (h : s.Exact) {o : Order} (hp : ValidPrice o.price) :
    (s.insertRestingOrder o).Exact where
  toSound := h.toSound.insertRestingOrder o
  valid side p hmem := by
    simp only [Store.insertRestingOrder, levels_raiseBest, levels_setOrder, mem_setLevel] at hmem
    rcases hmem with ⟨-, rfl⟩ | hmem
    · exact hp
    · exact h.valid side p hmem
  extreme side p hmem := by
    simp only [Store.insertRestingOrder, levels_raiseBest, levels_setOrder, mem_setLevel] at hmem
    by_cases hs : side = o.side
    · subst hs
      obtain ⟨hnew, hold⟩ := rank_raiseBest ((s.setLevel o.side o.price
        ((s.targetLevel o).addOrder o.id o.remaining)).setOrder o.id o) o.side o.price
      simp only [best_setOrder, best_setLevel] at hold
      rcases hmem with ⟨-, rfl⟩ | hmem
      · exact hnew
      · have hne : s.best o.side ≠ invalidPrice := fun hinv => h.not_mem_of_invalid hinv p hmem
        exact Int.le_trans (hold hne) (h.extreme _ p hmem)
    · rw [best_insertRestingOrder_of_ne hs]
      exact h.extreme side p (hmem.resolve_left fun hat => hs hat.1)

lemma mem_cancelOrder {id : OrderId} {o : Order} {side : Side} {p : Price}
    (hmem : p ∈ (s.cancelOrder id o).levels side) : p ∈ s.levels side := by
  obtain ⟨level, hl⟩ := KeyList.mem_iff_exists_getElem?.mp hmem
  rw [levels_cancelOrder, getElem?_removeOrderFromLevel] at hl
  refine KeyList.mem_iff_exists_getElem?.mpr ?_
  split_ifs at hl with hat
  · obtain ⟨level', hl', -⟩ := Option.bind_eq_some_iff.mp hl
    exact ⟨level', by rw [hat.1, hat.2, hl']⟩
  · exact ⟨level, hl⟩

theorem Exact.cancelOrder (h : s.Exact) (id : OrderId) (o : Order) : (s.cancelOrder id o).Exact where
  toSound := h.toSound.cancelOrder id o
  valid side p hmem := h.valid side p (mem_cancelOrder hmem)
  extreme side p hmem := by
    by_cases hs : side = o.side
    · subst hs
      refine rank_updateBest ?_
      simpa only [levels_cancelOrder, levels_eraseOrder] using hmem
    · rw [best_cancelOrder_of_ne hs]
      exact h.extreme side p (mem_cancelOrder hmem)

theorem Exact.amend (h : s.Exact) {id : OrderId} {newPrice : Price} {existing : Order}
    {level : PriceLevel} (hin : InPlace s id newPrice existing level) (newQty : Quantity) :
    (amend s id existing level newQty).Exact := by
  refine ⟨h.toSound.amend hin newQty, fun side p hmem => ?_, fun side p hmem => ?_⟩
  · exact h.valid side p ((mem_levels_amend hin).mp hmem)
  · have := h.extreme side p ((mem_levels_amend hin).mp hmem)
    simpa [OrderBook.amend] using this

end Store

namespace OrderBook

/-! ## Matching keeps it -/

/-- `Exact` while the inner loop works on the level at `p`. -/
structure ExactExcept (p : Price) (m : MatchState) : Prop extends SoundExcept p m where
  valid : ∀ (side : Side) (k : Price), k ∈ m.book.store.levels side → ValidPrice k
  extreme : ∀ (side : Side) (k : Price), k ∈ m.book.store.levels side →
    side.rank (m.book.store.best side) ≤ side.rank k

theorem exact_invariant : MatchInvariant (fun m => m.book.store.Exact) ExactExcept where
  stale m hm hrun hstale := absurd hstale (hrun.not_stale hm.toSound)
  enter m level hm hrun hlevel hne :=
    ⟨sound_invariant.enter m level hm.toSound hrun hlevel hne, hm.valid, hm.extreme⟩
  ghost p m level n rest hm hfront gone := by
    refine ⟨sound_invariant.ghost p m level n rest hm.toSoundExcept hfront gone,
      fun side k hmem => hm.valid side k ((mem_levels_popGhost hfront).mp hmem),
      fun side k hmem => ?_⟩
    simpa using hm.extreme side k ((mem_levels_popGhost hfront).mp hmem)
  selfTrade p m level n rest resting hm _ _ _ _ :=
    ⟨⟨hm.mem, hm.noEmpty, hm.bestLive⟩, hm.valid, hm.extreme⟩
  fill p m level n rest resting hm hfill := by
    refine ⟨sound_invariant.fill p m level n rest resting hm.toSoundExcept hfill,
      fun side k hmem => hm.valid side k ((mem_levels_fillStore hfill.toAtFront).mp hmem),
      fun side k hmem => ?_⟩
    simpa using hm.extreme side k ((mem_levels_fillStore hfill.toAtFront).mp hmem)
  close p m level hm hlevel hnil := by
    have hkeys : ∀ side k, k ∈ (m.setStore
        (m.book.store.eraseLevel m.opposite p)).refreshBest.book.store.levels side →
        k ∈ m.book.store.levels side := by
      intro side k hmem
      rw [refreshBest, store_setStore, Store.levels_updateBest, store_setStore] at hmem
      exact Store.mem_of_mem_eraseLevel hmem
    refine ⟨sound_invariant.close p m level hm.toSoundExcept hlevel hnil,
      fun side k hmem => hm.valid side k (hkeys side k hmem), fun side k hmem => ?_⟩
    by_cases hs : side = m.opposite
    · subst hs
      refine Store.rank_updateBest ?_
      simpa [refreshBest] using hmem
    · rw [refreshBest, store_setStore, opposite_setStore, Store.best_updateBest_of_ne hs,
        store_setStore, Store.best_eraseLevel]
      exact hm.extreme side k (hkeys side k hmem)
  keep p m hm hkeep :=
    ⟨sound_invariant.keep p m hm.toSoundExcept hkeep, hm.valid, hm.extreme⟩

/-! ## Calls keep it -/

theorem exact_calls : CallInvariant ValidPrices fun b => b.store.Exact where
  quiet h hquiet := by rw [hquiet.store_eq]; exact h
  matched h _ _ := exact_invariant.matchOrder _ _ h
  rested {b order} h hprice _ hkind _ := by
    have hne : order.type ≠ .Market := by
      rcases hkind.type_ok with ht | ht <;> simp [ht]
    refine (exact_invariant.matchOrder b (withMarketPrice order) h).insertRestingOrder ?_
    rw [(matchOrder_sameTaker b _).price_eq, withMarketPrice_price hne]
    exact hprice hne
  cancelled h _ := h.cancelOrder _ _
  inPlace h _ hin := h.amend hin _
  moved hprice _ := fun _ => hprice

section Runs

variable {symbol : Symbol} {config : OrderBookConfig} {onTrade onExecution onBbo : Bool}
  {clock : Stream' Timestamp} {ops : List Op}

theorem exact_after
    (hops : Run.Admitted apply ValidPrices (new symbol config onTrade onExecution onBbo clock) ops) :
    (after (new symbol config onTrade onExecution onBbo clock) ops).store.Exact :=
  exact_calls.run hops Store.Exact.empty

/-- The cached best prices are the extreme keys, or `INVALID_PRICE` where there is none. -/
structure CacheExact (s : Store) : Prop where
  noEmpty : ∀ (side : Side) (p : Price) (level : PriceLevel),
    (s.levels side)[p]? = some level → level.empty = false
  bid_greatest : s.bidLevels ≠ ∅ → s.bestBid ∈ s.bidLevels ∧ ∀ p ∈ s.bidLevels, p ≤ s.bestBid
  bid_none : s.bestBid = invalidPrice ↔ s.bidLevels = ∅
  ask_least : s.askLevels ≠ ∅ → s.bestAsk ∈ s.askLevels ∧ ∀ p ∈ s.askLevels, s.bestAsk ≤ p
  ask_none : s.bestAsk = invalidPrice ↔ s.askLevels = ∅

theorem best_eq_invalid_iff {s : Store} (h : s.Exact) (side : Side) :
    s.best side = invalidPrice ↔ s.levels side = ∅ := by
  rw [ExtTreeMap.eq_empty_iff_forall_not_mem]
  constructor
  · exact h.not_mem_of_invalid
  · intro hnone
    exact ((h.bestLive side).resolve_left (hnone _)).1

lemma Exact.cacheExact {s : Store} (h : s.Exact) : CacheExact s where
  noEmpty side p level hl := PriceLevel.empty_eq_false_iff.mpr (h.noEmpty side p level hl)
  bid_greatest hne := by
    refine ⟨h.mem_of_ne_invalid .Buy fun hinv =>
      hne ((best_eq_invalid_iff h .Buy).mp hinv), fun p hp => ?_⟩
    have := h.extreme .Buy p hp
    simp only [Side.rank, Store.best] at this
    exact Int64.le_iff_toInt_le.mpr (by omega)
  bid_none := best_eq_invalid_iff h .Buy
  ask_least hne := by
    refine ⟨h.mem_of_ne_invalid .Sell fun hinv =>
      hne ((best_eq_invalid_iff h .Sell).mp hinv), fun p hp => ?_⟩
    exact Int64.le_iff_toInt_le.mpr (h.extreme .Sell p hp)
  ask_none := best_eq_invalid_iff h .Sell

/-- **The cached best prices are exact** after every call of a run in which only valid prices can
enter the book, in every configuration. -/
theorem best_prices_exact
    (hops : Run.Admitted apply ValidPrices (new symbol config onTrade onExecution onBbo clock) ops) :
    CacheExact (after (new symbol config onTrade onExecution onBbo clock) ops).store :=
  Exact.cacheExact (exact_after hops)

end Runs

/-- A market order sweeps one level and a half, the rest moves away, and self-trade prevention
stops an order. -/
theorem best_prices_exact_sample :
    CacheExact (after (makeBook { enableSelfTradePrevention := true })
      [.add (limitOrder 1 .Sell 100 10), .add (limitOrder 200 .Sell 101 10),
        .add { limitOrder 400 .Buy 0 15 with type := .Market }, .replace {} 200 105 7,
        .add (limitOrder 210 .Buy 106 5)]).store :=
  best_prices_exact (by decide +kernel)

/-! ## The book never stands crossed -/

/-- Every bid is below every ask. -/
def Uncrossed (s : Store) : Prop := ∀ p ∈ s.bidLevels, ∀ q ∈ s.askLevels, p < q

lemma Uncrossed.of_subset {s s' : Store} (h : Uncrossed s)
    (hsub : ∀ side p, p ∈ s'.levels side → p ∈ s.levels side) : Uncrossed s' :=
  fun p hp q hq => h p (hsub .Buy p hp) q (hsub .Sell q hq)

/-- Matching only ever removes levels. -/
lemma matchOrder_levels_subset (b : OrderBook) (order : Order) (side : Side) (p : Price)
    (hp : p ∈ (b.matchOrder order).book.store.levels side) : p ∈ b.store.levels side := by
  have hinv : MatchInvariant
      (fun m => ∀ side p, p ∈ m.book.store.levels side → p ∈ b.store.levels side)
      (fun _ m => ∀ side p, p ∈ m.book.store.levels side → p ∈ b.store.levels side) := by
    refine .of_uniform ?_ ?_ ?_ ?_ ?_
    · intro m hm side p hp
      exact hm side p (by simpa [refreshBest] using hp)
    · intro p m level n rest hm hfront _ side k hk
      exact hm side k ((mem_levels_popGhost hfront).mp hk)
    · exact fun m hm => hm
    · intro p m level n rest resting hm hfill side k hk
      exact hm side k ((mem_levels_fillStore hfill.toAtFront).mp hk)
    · intro p m level hm _ _ side k hk
      exact hm side k (Store.mem_of_mem_eraseLevel hk)
  exact hinv.matchOrder b order (fun _ _ h => h) side p hp

/-- With self-trade prevention off, nothing stops the loop for it. -/
lemma matchOrder_notStopped {b : OrderBook} (hstp : b.config.enableSelfTradePrevention = false)
    (order : Order) : (b.matchOrder order).stoppedForSelfTrade = false := by
  have hinv : MatchInvariant
      (fun m => m.book.config.enableSelfTradePrevention = false ∧ m.stoppedForSelfTrade = false)
      (fun _ m => m.book.config.enableSelfTradePrevention = false ∧
        m.stoppedForSelfTrade = false) := {
    stale _ hm _ _ := hm
    enter _ _ hm _ _ _ := hm
    ghost _ _ _ _ _ hm _ _ := hm
    selfTrade _ _ _ _ _ _ hm _ _ hon _ := by rw [hm.1] at hon; cases hon
    fill _ _ _ _ _ _ hm _ := hm
    close _ _ _ hm _ _ := hm
    keep _ _ hm _ := hm }
  exact (hinv.matchOrder b order ⟨hstp, rfl⟩).2

/-- **An order that comes out of matching open crosses nothing.**  The loop was not left because
the order was full, and no sentinel price was met before the levels were used up. -/
theorem not_crossing_of_open {b : OrderBook} (h : b.store.Exact)
    (hstp : b.config.enableSelfTradePrevention = false) {order : Order}
    (hopen : (b.matchOrder order).order.isFilled = false) (p : Price)
    (hp : p ∈ (b.matchOrder order).book.store.levels (b.matchOrder order).opposite) :
    (b.matchOrder order).order.wouldCross p = false := by
  have hexact := exact_invariant.matchOrder b order h
  have hdone := matchOrder_done h.toSound order
  have hnotStopped := matchOrder_notStopped hstp order
  generalize b.matchOrder order = m at *
  have hne : m.book.store.best m.opposite ≠ invalidPrice :=
    fun hinv => hexact.not_mem_of_invalid hinv p hp
  have hzero := (hexact.valid _ _ (hexact.mem_of_ne_invalid _ hne)).ne_zero
  rw [← Bool.not_eq_true]
  intro hcross
  refine hdone ⟨hopen, hnotStopped, hne, hzero, Or.inr ?_⟩
  have hextreme := hexact.extreme _ _ hp
  rw [Order.wouldCross_iff] at hcross ⊢
  exact Int.le_trans hextreme hcross

/-- A remainder that crosses nothing may rest. -/
theorem Uncrossed.insertRestingOrder {s : Store} (h : Uncrossed s) {order : Order}
    (hclear : ∀ p ∈ s.levels order.side.opposite, order.wouldCross p = false) :
    Uncrossed (s.insertRestingOrder order) := by
  intro p hp q hq
  have hmem : ∀ (side : Side) (k : Price), k ∈ (s.insertRestingOrder order).levels side →
      (side = order.side ∧ k = order.price) ∨ k ∈ s.levels side := by
    intro side k hk
    simpa only [Store.insertRestingOrder, Store.levels_raiseBest, Store.levels_setOrder,
      Store.mem_setLevel] using hk
  rcases hmem .Buy p hp with ⟨hside, rfl⟩ | hp
  · rcases hmem .Sell q hq with ⟨hside', -⟩ | hq
    · rw [← hside] at hside'
      cases hside'
    · have := hclear q (by rw [← hside]; exact hq)
      rw [Order.wouldCross, ← hside] at this
      simpa using this
  · rcases hmem .Sell q hq with ⟨hside, rfl⟩ | hq
    · have := hclear p (by rw [← hside]; exact hp)
      rw [Order.wouldCross, ← hside] at this
      simpa using this
    · exact h p hp q hq

/-- What a run with self-trade prevention off keeps. -/
structure Standing (b : OrderBook) : Prop extends b.store.Exact where
  stp_off : b.config.enableSelfTradePrevention = false
  uncrossed : Uncrossed b.store

theorem standing_calls : CallInvariant ValidPrices Standing where
  quiet h hquiet :=
    ⟨exact_calls.quiet h.toExact hquiet, by rw [hquiet.config_eq]; exact h.stp_off,
      by rw [hquiet.store_eq]; exact h.uncrossed⟩
  matched {b order} h hprice hpass :=
    ⟨exact_calls.matched h.toExact hprice hpass,
      by rw [(matchOrder_sameTaker b (withMarketPrice order)).config_eq]; exact h.stp_off,
      h.uncrossed.of_subset (matchOrder_levels_subset b (withMarketPrice order))⟩
  rested {b order} h hprice hpass hkind hopen := by
    have hmatch := h.uncrossed.of_subset (matchOrder_levels_subset b (withMarketPrice order))
    refine ⟨exact_calls.rested h.toExact hprice hpass hkind hopen, ?_, ?_⟩
    · show (b.matchOrder (withMarketPrice order)).book.config.enableSelfTradePrevention = false
      rw [(matchOrder_sameTaker b _).config_eq]
      exact h.stp_off
    · exact hmatch.insertRestingOrder (not_crossing_of_open h.toExact h.stp_off hopen)
  cancelled h ho :=
    ⟨exact_calls.cancelled h.toExact ho, h.stp_off,
      h.uncrossed.of_subset fun _ _ hp => Store.mem_cancelOrder hp⟩
  inPlace h hprice hin :=
    ⟨exact_calls.inPlace h.toExact hprice hin, h.stp_off,
      h.uncrossed.of_subset fun _ _ hp => (Store.mem_levels_amend hin).mp hp⟩
  moved := exact_calls.moved

section Runs

variable {symbol : Symbol} {config : OrderBookConfig} {onTrade onExecution onBbo : Bool}
  {clock : Stream' Timestamp} {ops : List Op}

theorem standing_after (hstp : config.enableSelfTradePrevention = false)
    (hops : Run.Admitted apply ValidPrices (new symbol config onTrade onExecution onBbo clock) ops) :
    Standing (after (new symbol config onTrade onExecution onBbo clock) ops) :=
  standing_calls.run hops ⟨Store.Exact.empty, hstp, fun p hp => by simp [new] at hp⟩

/-- **The book never stands crossed**, after any call of a run with self-trade prevention off in
which only valid prices can enter the book. -/
theorem never_crossed (hstp : config.enableSelfTradePrevention = false)
    (hops : Run.Admitted apply ValidPrices (new symbol config onTrade onExecution onBbo clock) ops) :
    let s := (after (new symbol config onTrade onExecution onBbo clock) ops).store
    Uncrossed s ∧ (s.bidLevels ≠ ∅ → s.askLevels ≠ ∅ → s.bestBid < s.bestAsk) := by
  have h := standing_after hstp hops
  have hcache := Exact.cacheExact h.toExact
  exact ⟨h.uncrossed, fun hbids hasks =>
    h.uncrossed _ (hcache.bid_greatest hbids).1 _ (hcache.ask_least hasks).1⟩

end Runs

/-- A bid that takes the best ask rests below the next one. -/
theorem never_crossed_sample :
    let s := (after (makeBook {}) [.add (limitOrder 1 .Sell 100 10),
      .add (limitOrder 2 .Sell 103 10), .add (limitOrder 3 .Buy 102 15)]).store
    Uncrossed s ∧ (s.bidLevels ≠ ∅ → s.askLevels ≠ ∅ → s.bestBid < s.bestAsk) :=
  never_crossed rfl (by decide +kernel)

end OrderBook

end Exchange
