import Exchange.Agents.Simulation
import Exchange.Engine.TradeCount
import Exchange.OrderBook.Pending
import Exchange.OrderBook.Quotes
import Mathlib.Algebra.BigOperators.Group.Finset.Piecewise

/-!
# The totals of the simulation

`main.cpp` counts the trades that its callback is told of and adds up their quantities.  Of what it
prints at the end, the trades and the volume are these, and the orders come from the statistics of
the engine.

* **`totals_agree`** — no trade is left in a batch when a tick is over; the volume printed is the
  one of the statistics, and the orders printed are as many as the agents have drawn ids.  The
  trades printed are at least those of the statistics, where an order counts once.
-/

namespace Exchange

/-- What the trade callback of `main` counts. -/
structure Totals where
  tradeCount : UInt64 := 0
  totalVolume : UInt64 := 0

def Totals.onTrade (totals : Totals) (trade : Trade) : Totals where
  tradeCount := totals.tradeCount + 1
  totalVolume := totals.totalVolume + trade.quantity.toUInt64

lemma toNat_totals (totals : Totals) (trades : List Trade) :
    (trades.foldl Totals.onTrade totals).tradeCount.toNat
        = (totals.tradeCount.toNat + trades.length) % 2 ^ 64 ∧
      (trades.foldl Totals.onTrade totals).totalVolume.toNat
        = (totals.totalVolume.toNat + OrderBook.volume trades) % 2 ^ 64 := by
  induction trades generalizing totals with
  | nil =>
      exact ⟨(Nat.mod_eq_of_lt totals.tradeCount.toNat_lt).symm,
        (Nat.mod_eq_of_lt totals.totalVolume.toNat_lt).symm⟩
  | cons t trades ih =>
      obtain ⟨hcount, hvolume⟩ := ih (totals.onTrade t)
      have hsum : OrderBook.volume (t :: trades)
          = t.quantity.toNat + OrderBook.volume trades := rfl
      rw [List.foldl_cons, hcount, hvolume, hsum, List.length_cons]
      simp only [Totals.onTrade, UInt64.toNat_add, UInt64.toNat_one, UInt32.toNat_toUInt64]
      omega

/-! ## What an order adds -/

namespace OrderBook

variable {b : OrderBook} {order : Order}

/-- Where nothing waits before and after a call, what it announces is what it trades. -/
lemma delivered_new {b' : OrderBook} (h : b.feed.pendingTrades = [])
    (h' : b'.feed.pendingTrades = []) {new : List Event}
    (hnew : b'.feed.events = b.feed.events ++ new) :
    (b'.feed.events.drop b.feed.events.length).filterMap Event.trade? = newTrades b b' := by
  rw [newTrades, Feed.trades, Feed.trades, h, h', hnew, List.append_nil, List.append_nil,
    List.filterMap_append, List.drop_left, List.drop_left]

/-- An order that is not killed and had nothing filled: the result has what it traded. -/
lemma counted_addOrder (hb : b.store.Sound) (hannounced : Announced b)
    (hfresh : order.filledQty = 0) (hspared : ¬ KillsRemainder order) :
    (if (b.addOrder order).1.success = true ∧ (b.addOrder order).1.filledQty > 0 then
        (b.addOrder order).1.filledQty.toNat else 0) = volume (newTrades b (b.addOrder order).2) ∧
      (if (b.addOrder order).1.success = true ∧ (b.addOrder order).1.filledQty > 0 then 1 else 0)
        ≤ (newTrades b (b.addOrder order).2).length := by
  obtain ⟨hsuccess, hfilled⟩ := addOrder_result hb order
  by_cases hpass : Passes b order
  · have hok := hsuccess.mpr ⟨hpass, fun hkilled => hspared hkilled.kind⟩
    have hvolume := volume_addOrder hb hannounced hpass
    have hqty := hfilled hok
    rw [hfresh, UInt32.toNat_zero, Nat.zero_add, ← hvolume] at hqty
    simp only [hok, true_and]
    split_ifs with hpos
    · refine ⟨hqty, List.length_pos_iff.mpr fun hnil => ?_⟩
      rw [hnil] at hqty
      rw [gt_iff_lt, UInt32.lt_iff_toNat_lt, hqty] at hpos
      exact absurd hpos (Nat.lt_irrefl 0)
    · refine ⟨?_, Nat.zero_le _⟩
      rw [gt_iff_lt, UInt32.lt_iff_toNat_lt, UInt32.toNat_zero] at hpos
      omega
  · have hfail : ¬ (b.addOrder order).1.success = true := fun h => hpass (hsuccess.mp h).1
    rw [newTrades_of_not_passes hpass, if_neg fun h => hfail h.1, if_neg fun h => hfail h.1]
    exact ⟨rfl, Nat.zero_le _⟩

end OrderBook

namespace Simulation

open MatchingEngine OrderBook

/-! ## What the engine has counted -/

/-- The trades that the callback has been told of. -/
def delivered (w : World) : List Trade := w.engine.history.events.filterMap Event.trade?

def totals (w : World) : Totals := (delivered w).foldl Totals.onTrade {}

/-- The orders that the agents have made. -/
def ordersMade (w : World) : Nat := ∑ i ∈ Finset.range w.agents.length, w.drawn i

/-- What every call of an agent keeps. -/
structure Settled (w : World) : Prop where
  books : w.engine.AllBooks Delivered
  delivered_eq : delivered w = w.engine.history.trades
  volume_eq : w.engine.stats.totalVolume.toNat = w.engine.tradedVolume % 2 ^ 64
  executed_le : w.engine.stats.tradesExecuted.toNat ≤ w.engine.history.trades.length
  matched_eq : w.engine.stats.ordersMatched = w.engine.stats.tradesExecuted
  received_eq : w.engine.stats.ordersReceived.toNat = ordersMade w % 2 ^ 64

variable {w : World} {i : Nat} {r : Request} {b : OrderBook} {o : Order}

/-- No agent asks for all or nothing. -/
lemma not_killsRemainder (h : Usual (.order o)) : ¬ KillsRemainder o := by
  intro hkills
  have hfok := hkills.fok
  rcases h.2 with htype | ⟨htype, -⟩
  · simp [isFillOrKill, htype, h.1.tif_eq] at hfok
  · simp [isFillOrKill, htype, h.1.tif_eq] at hfok

lemma delivered_apply (h : Delivered b) (hr : Usual r) : Delivered (b.apply r.op) := by
  cases r with
  | order o =>
      exact delivered_guards.add h trivial fun _ hkilled =>
        absurd hkilled.kind (not_killsRemainder hr)
  | cancel symbol id => exact delivered_guards.cancel id h
  | replace symbol id newPrice newQty => exact hr.elim

/-- What a request announces is what it trades. -/
lemma delivered_call (h : Settled w) (hr : Usual r) :
    delivered (World.call i w r) = (World.call i w r).engine.history.trades := by
  rw [delivered, engine_call, history_handle]
  cases hb : w.engine.book? r.symbol with
  | none => exact h.delivered_eq
  | some b =>
      have hbefore := h.books _ b hb
      obtain ⟨new, hnew, -⟩ := adds_apply b r.op
      have hthese := delivered_new hbefore.nothingPending
        (delivered_apply hbefore hr).nothingPending hnew
      simp only [Option.elim_some, EngineHistory.record, List.filterMap_append]
      rw [hthese, ← delivered, h.delivered_eq]
      rfl

lemma ordersMade_call (hi : i < w.agents.length) (o : Order) :
    ordersMade (World.call i w (.order o)) = ordersMade w + 1 := by
  have hone : ∀ j, (if j = i then w.drawn j + 1 else w.drawn j)
      = w.drawn j + if j = i then 1 else 0 := by
    intro j
    split_ifs <;> rfl
  rw [ordersMade, agents_call]
  simp only [World.call, hone]
  rw [Finset.sum_add_distrib, Finset.sum_ite_eq', if_pos (Finset.mem_range.mpr hi), ordersMade]

/-- What the statistics make of an order. -/
lemma counted_order (hw : Unmoved w) (h : Settled w) (hr : Usual (.order o)) :
    let w' := World.call i w (.order o)
    w'.engine.stats.totalVolume.toNat = w'.engine.tradedVolume % 2 ^ 64 ∧
      w'.engine.stats.tradesExecuted.toNat ≤ w'.engine.history.trades.length ∧
      w'.engine.stats.ordersMatched = w'.engine.stats.tradesExecuted ∧
      w'.engine.stats.ordersReceived = w.engine.stats.ordersReceived + 1 := by
  intro w'
  have hengine : w'.engine = (w.engine.handle {} (.order o)).2 := engine_call w i _
  rw [hengine, tradedVolume_handle, Tally.length_trades_handle, stats_handle]
  cases hb : w.engine.book? (Request.order o).symbol with
  | none => exact ⟨h.volume_eq, h.executed_le, h.matched_eq, rfl⟩
  | some b =>
      obtain ⟨hvolume, hcount⟩ := counted_addOrder (h.books _ b hb).sound
        (hw.books _ b hb).announced hr.1.unfilled (not_killsRemainder hr)
      have hexecuted := h.executed_le
      simp only [Option.elim_some]
      show _ = (_ + volume (newTrades b (b.addOrder o).2)) % 2 ^ 64 ∧
        _ ≤ _ + (newTrades b (b.addOrder o).2).length ∧ _
      by_cases hfills : (b.addOrder o).1.success = true ∧ (b.addOrder o).1.filledQty > 0
      · rw [if_pos hfills] at hvolume hcount
        have hanswer : ((w.engine.stats.receive (.order o)).settle (.order o)
            ((Request.order o).answer {} b)) = _ := EngineStats.settle_order hfills
        rw [hanswer]
        refine ⟨?_, ?_, congrArg (· + 1) h.matched_eq, rfl⟩
        · simp only [Request.answer, EngineStats.receive, UInt64.toNat_add, UInt32.toNat_toUInt64,
            h.volume_eq]
          omega
        · simp only [EngineStats.receive, UInt64.toNat_add, UInt64.toNat_one]
          omega
      · rw [if_neg hfills] at hvolume hcount
        have hanswer : ((w.engine.stats.receive (.order o)).settle (.order o)
            ((Request.order o).answer {} b)) = _ := EngineStats.settle_order_of_not hfills
        rw [hanswer, ← hvolume]
        exact ⟨h.volume_eq, hexecuted.trans (Nat.le_add_right _ _), h.matched_eq, rfl⟩

/-- A cancel is counted elsewhere. -/
lemma counted_cancel (w : World) (i : Nat) (symbol : Symbol) (id : OrderId) :
    let w' := World.call i w (.cancel symbol id)
    w'.engine.history.trades = w.engine.history.trades ∧
      w'.engine.stats.totalVolume = w.engine.stats.totalVolume ∧
      w'.engine.stats.tradesExecuted = w.engine.stats.tradesExecuted ∧
      w'.engine.stats.ordersMatched = w.engine.stats.ordersMatched ∧
      w'.engine.stats.ordersReceived = w.engine.stats.ordersReceived := by
  intro w'
  have hengine : w'.engine = (w.engine.handle {} (.cancel symbol id)).2 := engine_call w i _
  rw [hengine, history_handle, stats_handle]
  cases hb : w.engine.book? (Request.cancel symbol id).symbol with
  | none => exact ⟨rfl, rfl, rfl, rfl, rfl⟩
  | some b =>
      have hnone : newTrades b (b.apply (Request.cancel symbol id).op) = [] :=
        newTrades_cancelOrder b id
      simp only [Option.elim_some]
      refine ⟨?_, ?_⟩
      · rw [EngineHistory.record, ← newTrades, hnone, List.append_nil]
      · by_cases hok : ((Request.cancel symbol id).answer {} b).success = true
        · rw [EngineStats.settle_cancel hok]
          exact ⟨rfl, rfl, rfl, rfl⟩
        · rw [EngineStats.settle_cancel_of_not hok]
          exact ⟨rfl, rfl, rfl, rfl⟩

/-- The step lemma. -/
lemma settled_keeps : Keeps fun w => Settled w where
  agents agents hlength h :=
    ⟨h.books, h.delivered_eq, h.volume_eq, h.executed_le, h.matched_eq,
      h.received_eq.trans (by rw [ordersMade, ordersMade, hlength])⟩
  call {w i r} hw hi hr h := by
    have hbooks : (World.call i w r).engine.AllBooks Delivered := by
      rw [engine_call]
      exact h.books.handle (fun b hb => delivered_apply hb hr) {}
    have hdelivered := delivered_call (i := i) h hr
    cases r with
    | order o =>
        obtain ⟨hvolume, hexecuted, hmatched, hreceived⟩ := counted_order (i := i) hw h hr
        refine ⟨hbooks, hdelivered, hvolume, hexecuted, hmatched, ?_⟩
        rw [hreceived, ordersMade_call hi, UInt64.toNat_add, UInt64.toNat_one, h.received_eq]
        omega
    | cancel symbol id =>
        obtain ⟨htrades, hvolume, hexecuted, hmatched, hreceived⟩ := counted_cancel w i symbol id
        refine ⟨hbooks, hdelivered, ?_, ?_, ?_, ?_⟩
        · rw [hvolume, tradedVolume, htrades]
          exact h.volume_eq
        · rw [hexecuted, htrades]
          exact h.executed_le
        · rw [hmatched, hexecuted]
          exact h.matched_eq
        · rw [hreceived]
          exact h.received_eq
    | replace symbol id newPrice newQty => exact hr.elim

lemma settled_setUp (config : SimulationConfig) (skew : Int64 → Price)
    (side : Option (Price × Price) → Option Side) (clocks : Nat → Stream' Timestamp) :
    Settled (setUp config skew side clocks) where
  books symbol b hb := by
    obtain ⟨clock, rfl⟩ := book?_setUp hb
    exact ⟨Store.Sound.empty, rfl, rfl⟩
  delivered_eq := by
    rw [delivered, setUp, MatchingEngine.start, MatchingEngine.foldl_addSymbol_eq]
    rfl
  volume_eq := by
    rw [tradedVolume, setUp, MatchingEngine.start, MatchingEngine.foldl_addSymbol_eq]
    rfl
  executed_le := by
    rw [setUp, MatchingEngine.start, MatchingEngine.foldl_addSymbol_eq]
    exact Nat.zero_le _
  matched_eq := by
    rw [setUp, MatchingEngine.start, MatchingEngine.foldl_addSymbol_eq]
    rfl
  received_eq := by
    have hnone : ordersMade (setUp config skew side clocks) = 0 := Finset.sum_const_zero
    rw [hnone, setUp, MatchingEngine.start, MatchingEngine.foldl_addSymbol_eq]
    rfl

/-- **The totals agree.**  When the simulation is over, the callback has been told of every trade,
and what is printed agrees: the volume is the one of the statistics, the trades are as many as there
were and no fewer than the orders that traded, and the orders are the ids that the agents have
drawn; all of them modulo 2^64. -/
theorem totals_agree (config : SimulationConfig) (skew : Int64 → Price) (hskew : skew 0 = 0)
    (side : Option (Price × Price) → Option Side) (clocks : Nat → Stream' Timestamp)
    (draws : Nat → Nat → Draws) (hdraws : ∀ t i, InRange (draws t i)) :
    let w := simulate config skew side clocks draws
    delivered w = w.engine.history.trades ∧
      (totals w).totalVolume = w.engine.stats.totalVolume ∧
      (totals w).tradeCount.toNat = (delivered w).length % 2 ^ 64 ∧
      w.engine.stats.tradesExecuted.toNat ≤ (delivered w).length ∧
      w.engine.stats.ordersMatched = w.engine.stats.tradesExecuted ∧
      w.engine.stats.ordersReceived.toNat = ordersMade w % 2 ^ 64 := by
  intro w
  have hstart : Unmoved (setUp config skew side clocks) ∧ Settled (setUp config skew side clocks) :=
    ⟨unmoved_setUp config hskew side clocks, settled_setUp config skew side clocks⟩
  obtain ⟨-, hend⟩ : Unmoved w ∧ Settled w := settled_keeps.run hdraws hstart config.numTicks
  obtain ⟨hcount, hvolume⟩ := toNat_totals {} (delivered w)
  refine ⟨hend.delivered_eq, ?_, ?_, ?_, hend.matched_eq, hend.received_eq⟩
  · rw [← UInt64.toNat_inj, hend.volume_eq, totals, hvolume, hend.delivered_eq, UInt64.toNat_zero,
      Nat.zero_add, tradedVolume]
  · rw [totals, hcount, UInt64.toNat_zero, Nat.zero_add]
  · rw [hend.delivered_eq]
    exact hend.executed_le

/-- Two symbols with ten agents each, for three ticks. -/
theorem totals_agree_sample :
    let w := simulate { numSymbols := 2, numAgents := 10, numTicks := 3 }
      (fun position => position * 1000) (fun _ => none) (fun _ _ => 0)
      fun _ _ => { acts := true, size := 50, deviation := 9, isMarket := true }
    delivered w = w.engine.history.trades ∧
      (totals w).totalVolume = w.engine.stats.totalVolume ∧
      (totals w).tradeCount.toNat = (delivered w).length % 2 ^ 64 ∧
      w.engine.stats.tradesExecuted.toNat ≤ (delivered w).length ∧
      w.engine.stats.ordersMatched = w.engine.stats.tradesExecuted ∧
      w.engine.stats.ordersReceived.toNat = ordersMade w % 2 ^ 64 :=
  totals_agree { numSymbols := 2, numAgents := 10, numTicks := 3 } (fun position => position * 1000)
    (by decide) _ _ _ fun _ _ => ⟨(by decide : (10 : Quantity) ≤ 50),
      (by decide : (50 : Quantity) ≤ 100), by decide, by decide⟩

end Simulation

end Exchange
