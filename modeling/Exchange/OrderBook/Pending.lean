import Exchange.OrderBook.Guards
import Exchange.OrderBook.Walk

/-!
# Trades left in the batch

With `batch_callbacks` trades wait in `pending_trades_` until there are `trade_batch_size` of them,
or until the last line of `add_order`.  One way out of `add_order` comes before that line: the one
of a fill-or-kill order that matching has left open.  Its check has counted what is displayed, so it
has come there because self-trade prevention or a sentinel price stopped it, possibly after trades.

**`nothing_pending_iff`** — nothing is left in the batch throughout a run exactly if each order
killed after matching has traded with a multiple of the batch size.
-/

namespace Exchange

namespace Feed

variable {f : Feed} (config : OrderBookConfig) (symbol : Symbol) (buy sell order : Order)
  (price : Price) (qty : Quantity) (aggressor : Side) (s : Store)

@[simp] lemma pending_maybeEmitBbo :
    (f.maybeEmitBbo symbol s).pendingTrades = f.pendingTrades := by
  simp only [maybeEmitBbo]
  split_ifs <;> rfl

@[simp] lemma pending_emitExecutionReport :
    (f.emitExecutionReport order qty price).pendingTrades = f.pendingTrades := by
  simp only [emitExecutionReport]
  split_ifs <;> rfl

lemma pending_flushTrades (h : f.onTrade = true) : f.flushTrades.pendingTrades = [] := by
  rw [flushTrades]
  split_ifs with hempty
  · simpa [h] using hempty
  · rfl

lemma pending_emitTrade_of_not_batch (hbatch : config.batchCallbacks = false) :
    (f.emitTrade config symbol buy sell price qty aggressor).pendingTrades = f.pendingTrades := by
  simp only [emitTrade, hbatch, Bool.false_eq_true, if_false]
  split_ifs <;> rfl

/-- The batch is counted modulo its size; sizes 0 and 1 both mean that nothing waits. -/
lemma length_pending_emitTrade (h : f.onTrade = true) (hbatch : config.batchCallbacks = true)
    {k : Nat} (hk : f.pendingTrades.length = k % max config.tradeBatchSize 1) :
    (f.emitTrade config symbol buy sell price qty aggressor).pendingTrades.length
      = (k + 1) % max config.tradeBatchSize 1 := by
  have hpos : 0 < max config.tradeBatchSize 1 := by omega
  have hlt : k % max config.tradeBatchSize 1 < max config.tradeBatchSize 1 := Nat.mod_lt k hpos
  have hmod := Nat.mod_add_mod k (max config.tradeBatchSize 1) 1
  simp only [emitTrade, h, hbatch, Bool.not_true, Bool.false_eq_true, if_false, if_true,
    List.length_append, List.length_singleton, hk]
  split_ifs with hfull
  · rw [pending_flushTrades (by rfl), List.length_nil]
    have heq : k % max config.tradeBatchSize 1 + 1 = max config.tradeBatchSize 1 := by omega
    rw [← hmod, heq, Nat.mod_self]
  · rw [List.length_append, List.length_singleton, hk, ← hmod]
    exact (Nat.mod_eq_of_lt (by omega)).symm

end Feed

namespace OrderBook

open MatchState

/-- Nothing waits in the batch. -/
def NothingPending (b : OrderBook) : Prop := b.feed.pendingTrades = []

/-- An order killed after matching has traded with a multiple of the batch size. -/
def KillsWholeBatches (b : OrderBook) (order : Order) : Prop :=
  b.config.batchCallbacks = true → Killed b order →
    (b.contenders order).length % max b.config.tradeBatchSize 1 = 0

/-- What waits in the batch after some fills. -/
structure Batching (b : OrderBook) (m : MatchState) : Prop where
  config_eq : m.book.config = b.config
  onTrade : m.book.feed.onTrade = true
  waiting : ∃ fills, m.book.history.executed = b.history.executed ++ fills ∧
    m.book.feed.pendingTrades.length
      = if b.config.batchCallbacks then fills.length % max b.config.tradeBatchSize 1 else 0

variable {b : OrderBook} {order : Order}

lemma Batching.fillFront {m : MatchState} (h : Batching b m) (p : Price) (level : PriceLevel)
    (id : OrderId) (resting : Order) : Batching b (m.fillFront p level id resting) := by
  obtain ⟨fills, hexecuted, hlength⟩ := h.waiting
  refine ⟨h.config_eq, ?_, fills ++ [{
      taker := m.order
      maker := resting
      price := p
      quantity := m.fillQty resting
      resting := m.book.store.orders
      entered := m.book.history.entered }], ?_, ?_⟩
  · exact feed_fillFront (P := fun f => f.onTrade = true) m p level id resting fun _ _ _ _ _ =>
      (Feed.onTrade_emitTrade _ _ _ _ _ _ _ _).trans h.onTrade
  · rw [← List.append_assoc, ← hexecuted]
    rfl
  · rw [List.length_append, List.length_singleton]
    refine feed_fillFront (P := fun f => f.pendingTrades.length = if b.config.batchCallbacks then
      (fills.length + 1) % max b.config.tradeBatchSize 1 else 0) m p level id resting
      fun _ _ _ _ _ => ?_
    rw [h.config_eq]
    cases hbatch : b.config.batchCallbacks with
    | true =>
        rw [hbatch, if_pos rfl] at hlength
        rw [if_pos rfl]
        exact Feed.length_pending_emitTrade _ _ _ _ _ _ _ h.onTrade hbatch hlength
    | false =>
        rw [hbatch, if_neg Bool.false_ne_true] at hlength
        rw [if_neg Bool.false_ne_true, Feed.pending_emitTrade_of_not_batch _ _ _ _ _ _ _ hbatch]
        exact hlength

/-- What a run with a trade callback keeps, as long as nothing waits. -/
structure Delivered (b : OrderBook) : Prop where
  sound : b.store.Sound
  onTrade : b.feed.onTrade = true
  nothingPending : NothingPending b

/-- The batch after matching. -/
lemma Delivered.matchOrder (h : Delivered b) (order : Order) :
    Batching b (b.matchOrder order) := by
  have hinv : MatchInvariant (Batching b) fun _ => Batching b :=
    .of_uniform (fun _ h => ⟨h.1, h.2, h.3⟩) (fun _ _ _ _ _ h _ _ => ⟨h.1, h.2, h.3⟩)
      (fun _ h => ⟨h.1, h.2, h.3⟩) (fun p _ level _ _ _ h _ => h.fillFront p level _ _)
      fun _ _ _ h _ _ => ⟨h.1, h.2, h.3⟩
  refine hinv.matchOrder b order ⟨rfl, h.onTrade, [], by simp, ?_⟩
  rw [show b.feed.pendingTrades = [] from h.nothingPending]
  simp

/-- No call takes the trade callback away. -/
lemma onTrade_calls (config : OrderBookConfig) : FeedInvariant config fun f => f.onTrade = true where
  emitTrade _ _ _ _ _ _ _ h := (Feed.onTrade_emitTrade _ _ _ _ _ _ _ _).trans h
  emitExecutionReport _ _ _ _ h := (Feed.onTrade_emitExecutionReport _ _ _ _).trans h
  flushTrades _ h := (Feed.onTrade_flushTrades _).trans h
  maybeEmitBbo _ _ _ h := (Feed.onTrade_maybeEmitBbo _ _ _).trans h

/-- The last lines of `add_order` empty the batch. -/
lemma nothingPending_finish (honTrade : b.feed.onTrade = true)
    (hpending : b.config.batchCallbacks = false → b.feed.pendingTrades = []) (order : Order) :
    NothingPending (b.finish order).2 := by
  rw [NothingPending, finish]
  dsimp only
  split_ifs with hfilled hbatch hbatch
  · exact Feed.pending_flushTrades (by simpa [emitExecutionReport] using honTrade)
  · simpa [emitExecutionReport] using hpending (by simpa [emitExecutionReport] using hbatch)
  · exact Feed.pending_flushTrades honTrade
  · exact hpending (by simpa using hbatch)

/-- What waits where an order is killed: it has traded with every maker in line. -/
lemma Delivered.nothingPending_killed (h : Delivered b) (hkilled : Killed b order) :
    NothingPending (b.matchOrder (withMarketPrice order)).book ↔ KillsWholeBatches b order := by
  obtain ⟨-, fills, hexecuted, hdrawn⟩ := matchOrder_contenders h.sound order
  obtain ⟨fills', hexecuted', hlength⟩ := (h.matchOrder (withMarketPrice order)).waiting
  obtain rfl : fills' = fills := List.append_cancel_left (hexecuted'.symm.trans hexecuted)
  have hcount : fills'.length = (b.contenders order).length := by
    have := congrArg List.length hdrawn
    rwa [List.length_map, draws, Draw.length_drawn hkilled.short] at this
  rw [NothingPending, ← List.length_eq_zero_iff, hlength, hcount]
  cases hbatch : b.config.batchCallbacks with
  | false => exact iff_of_true rfl fun hon => by rw [hbatch] at hon; cases hon
  | true =>
      rw [if_pos rfl]
      exact ⟨fun hwhole _ _ => hwhole, fun hwhole => hwhole hbatch hkilled⟩

/-- Where trades are not batched, none waits after matching. -/
lemma Delivered.pending_unbatched (h : Delivered b) (order : Order)
    (hbatch : (b.matchOrder order).book.config.batchCallbacks = false) :
    (b.matchOrder order).book.feed.pendingTrades = [] := by
  have hm := h.matchOrder order
  obtain ⟨fills, -, hlength⟩ := hm.waiting
  rw [hm.config_eq] at hbatch
  rw [hbatch, if_neg Bool.false_ne_true] at hlength
  exact List.eq_nil_of_length_eq_zero hlength

/-- After an add nothing waits exactly if it kills whole batches only. -/
theorem Delivered.addOrder_iff (h : Delivered b) (order : Order) :
    NothingPending (b.addOrder order).2 ↔ KillsWholeBatches b order := by
  have honTrade := (h.matchOrder (withMarketPrice order)).onTrade
  have hopen_iff := (matchOrder_contenders h.sound order).1
  have hnone := h.pending_unbatched (withMarketPrice order)
  have hrefused : ¬ Passes b order → KillsWholeBatches b order :=
    fun hnot _ hkilled => absurd hkilled.passes hnot
  have hspared : ¬ KillsRemainder order → KillsWholeBatches b order :=
    fun hnot _ hkilled => absurd hkilled.kind hnot
  have hexit := addOrder_exit b order
  generalize b.addOrder order = added at hexit
  cases hexit with
  | refused reason hr _ =>
      exact iff_of_true h.nothingPending (hrefused (not_passes_of_rejected hr))
  | wouldCross hr =>
      refine iff_of_true ?_ (hrefused (not_passes_of_rejected hr))
      simpa [NothingPending, emitExecutionReport] using h.nothingPending
  | killed hr hkills hopen =>
      exact h.nothingPending_killed ⟨rejectReason_eq_none_iff.mp hr, hkills, hopen_iff.mp hopen⟩
  | rested hr hkind hopen =>
      refine iff_of_true (nothingPending_finish ?_ (fun hbatch => ?_) _)
        (hspared hkind.not_killsRemainder)
      · simpa [insertRestingOrder, maybeEmitBbo] using honTrade
      · simpa [insertRestingOrder, maybeEmitBbo] using hnone hbatch
  | dropped hr hioc _ =>
      refine iff_of_true (nothingPending_finish ?_ (fun hbatch => ?_) _)
        (hspared fun hkills => hkills.not_immediate hioc)
      · simpa [emitExecutionReport] using honTrade
      · simpa [emitExecutionReport] using hnone hbatch
  | finished hr _ hkills =>
      exact iff_of_true (nothingPending_finish honTrade hnone _) fun _ hkilled =>
        absurd (hkills hkilled.kind) (hkilled.not_filled h.sound)

theorem delivered_guards :
    Guards (fun _ _ => True) KillsWholeBatches (fun _ _ => True) Delivered NothingPending where
  holds h := h.nothingPending
  add h _ hok :=
    ⟨sound_calls.addOrder h.sound trivial, (onTrade_calls _).addOrder h.onTrade _,
      (h.addOrder_iff _).mpr hok⟩
  add_breaks h _ hok hafter := hok ((h.addOrder_iff _).mp hafter)
  cancel {b} id h := by
    cases ho : b.store.orders[id]? with
    | none => rwa [cancelOrder_of_none ho]
    | some order =>
        rw [cancelOrder_of_some ho]
        refine ⟨h.sound.cancelOrder _ _, ?_, ?_⟩
        · simpa [maybeEmitBbo] using h.onTrade
        · simpa [NothingPending, maybeEmitBbo] using h.nothingPending
  flush h := ⟨h.sound, (Feed.onTrade_flushTrades _).trans h.onTrade,
    Feed.pending_flushTrades h.onTrade⟩
  inPlace h _ hin _ := by
    refine ⟨h.sound.amend hin _, ?_, ?_⟩
    · simpa [maybeEmitBbo] using h.onTrade
    · simpa [NothingPending, maybeEmitBbo] using h.nothingPending
  inPlace_breaks _ _ _ hok := absurd trivial hok
  moved _ _ := trivial

/-- **Nothing is left in the batch exactly as long as orders are killed between batches.**  In every
run of calls with a trade callback, every trade executed so far has been delivered after every call
if and only if, where trades are batched, each fill-or-kill order that gets past the checks and
finds less in line than it wants finds a number of makers there that is a multiple of the batch
size. -/
theorem nothing_pending_iff (symbol : Symbol) (config : OrderBookConfig) (onExecution onBbo : Bool)
    (clock : Stream' Timestamp) (ops : List Op) :
    Run.Throughout apply NothingPending (new symbol config true onExecution onBbo clock) ops ↔
      Run.Admitted apply (Guarded KillsWholeBatches fun _ _ => True)
        (new symbol config true onExecution onBbo clock) ops :=
  delivered_guards.throughout_iff (Run.admitted_trivial _ _) ⟨Store.Sound.empty, rfl, rfl⟩

/-- A fill-or-kill bid for all that is displayed buys half of it before it meets one of the bidder's
own asks: it is killed, and its trade waits in the batch. -/
theorem trade_left_pending :
    ¬ NothingPending (after (makeBook { enableSelfTradePrevention := true })
      [.add (limitOrder 1000 .Sell 100 10), .add (limitOrder 2 .Sell 101 10),
        .add { limitOrder 1 .Buy 101 20 with type := .FillOrKill }]) := by
  rw [NothingPending]
  decide +kernel

end OrderBook

end Exchange
