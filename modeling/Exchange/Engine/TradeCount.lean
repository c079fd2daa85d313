import Exchange.Engine.Results
import Exchange.Engine.Volume

/-!
# The trades the engine counts

`submit_order` adds one to `trades_executed` for an order that succeeds with something filled:
`stats_.trades_executed += (result.filled_qty > 0 ? 1 : 0)`.  An order makes one trade with each
maker that it draws on.

**`trades_executed_iff`** — the counter agrees with the trades since the last `reset_stats`
throughout a run exactly if no order draws on two makers, an order that is killed draws on none, and
one that was given with something filled draws on one.
-/

namespace Exchange

open OrderBook MatchState

namespace OrderBook

variable {b b' : OrderBook} {order : Order}

/-! ## How many trades a call makes -/

/-- Where trades are announced, there is one for each new fill. -/
lemma length_newTrades (h : Announced b) (h' : Announced b') :
    (newTrades b b').length = (fillsSince b b').length := by
  have hbefore := congrArg List.length h.executions_eq
  have hafter := congrArg List.length h'.executions_eq
  rw [List.length_map, List.length_map] at hbefore hafter
  rw [newTrades, fillsSince, List.length_drop, List.length_drop, hbefore, hafter]

/-- An order makes a trade with each maker it draws on. -/
lemma length_newTrades_addOrder (hb : b.store.Sound) (hannounced : Announced b)
    (hpass : Passes b order) :
    (newTrades b (b.addOrder order).2).length = (b.draws order).length := by
  obtain ⟨-, fills, hexecuted, hdraws⟩ := matchOrder_contenders hb order
  rw [length_newTrades hannounced (announced_calls.addOrder hannounced trivial), fillsSince,
    executed_addOrder hpass, hexecuted, List.drop_left, ← hdraws, List.length_map]

/-- Where whatever rests is open, an order that draws on somebody trades something. -/
lemma tradable_pos_iff (hopen : AllOrders b.store fun o => o.isFilled = false) :
    0 < b.tradable order ↔ b.draws order ≠ [] := by
  rw [draws, ne_eq, Draw.drawn_open_eq_nil_iff, tradable, Nat.lt_min, supply, not_or]
  refine and_congr Nat.pos_iff_ne_zero ?_
  cases hline : b.contenders order with
  | nil => simp
  | cons maker rest =>
      have hmem : maker ∈ b.contenders order := by
        rw [hline]
        exact List.mem_cons_self
      obtain ⟨id, hid⟩ := mem_contenders hmem
      rw [List.map_cons, List.sum_cons]
      exact iff_of_true (Nat.add_pos_left (Order.remaining_pos (hopen id maker hid)) _)
        (List.cons_ne_nil maker rest)

/-- What is counted for the order, none or one, is what it trades. -/
def CountsTrade (b : OrderBook) (order : Order) : Prop :=
  Passes b order →
    (Killed b order → b.draws order = []) ∧
    (¬ Killed b order → (b.draws order).length ≤ 1 ∧
      (order.filledQty ≠ 0 → (b.draws order).length = 1))

/-- What holds of the books of a run without replaces. -/
structure Countable (b : OrderBook) : Prop where
  sound : b.store.Sound
  announced : Announced b
  opens : AllOrders b.store fun o => Restable o ∧ o.isFilled = false

lemma Countable.apply (h : Countable b) {op : Op} (hop : NoReplace b op) :
    Countable (b.apply op) where
  sound := sound_calls.step h.sound trivial
  announced := announced_calls.step h.announced trivial
  opens := open_calls.step h.opens hop.movesPrice

/-- The engine's condition for counting an order, in terms of the book before the call. -/
lemma filled_pos_iff (hb : b.store.Sound) (hok : (b.addOrder order).1.success = true) :
    (b.addOrder order).1.filledQty > 0 ↔ order.filledQty ≠ 0 ∨ 0 < b.tradable order := by
  have hzero : order.filledQty = 0 ↔ order.filledQty.toNat = 0 := by
    rw [← UInt32.toNat_inj]
    rfl
  have hsum := (addOrder_result hb order).2 hok
  rw [gt_iff_lt, UInt32.lt_iff_toNat_lt, hsum, UInt32.toNat_zero, ne_eq, hzero]
  omega

/-- The number of trades of an order is what is counted for it. -/
lemma length_newTrades_eq_iff (h : Countable b) (order : Order) :
    (newTrades b (b.addOrder order).2).length
        = (if (b.addOrder order).1.success = true ∧ (b.addOrder order).1.filledQty > 0 then 1
          else 0) ↔
      CountsTrade b order := by
  obtain ⟨hsuccess, -⟩ := addOrder_result h.sound order
  by_cases hpass : Passes b order
  · rw [length_newTrades_addOrder h.sound h.announced hpass]
    by_cases hkilled : Killed b order
    · have hfail : ¬ (b.addOrder order).1.success = true := fun hok => (hsuccess.mp hok).2 hkilled
      rw [if_neg fun hok => hfail hok.1, List.length_eq_zero_iff]
      exact ⟨fun hnil _ => ⟨fun _ => hnil, fun hnot => absurd hkilled hnot⟩,
        fun hcounts => (hcounts hpass).1 hkilled⟩
    · have hok := hsuccess.mpr ⟨hpass, hkilled⟩
      have hfilled := filled_pos_iff h.sound hok
      rw [tradable_pos_iff fun id o ho => (h.opens id o ho).2] at hfilled
      have hcounts : CountsTrade b order ↔ (b.draws order).length ≤ 1 ∧
          (order.filledQty ≠ 0 → (b.draws order).length = 1) :=
        ⟨fun hcounts => (hcounts hpass).2 hkilled,
          fun hone _ => ⟨fun hyes => absurd hyes hkilled, fun _ => hone⟩⟩
      rw [hcounts]
      simp only [hok, true_and, hfilled]
      by_cases hpreset : order.filledQty = 0
      · cases hdraws : b.draws order with
        | nil => simp [hpreset]
        | cons maker rest => simp [hpreset]
      · simp only [hpreset, ne_eq, not_false_eq_true, true_or, if_true, true_implies]
        omega
  · have hfail : ¬ (b.addOrder order).1.success = true := fun hok => hpass (hsuccess.mp hok).1
    rw [if_neg fun hok => hfail hok.1, newTrades_of_not_passes hpass]
    exact iff_of_true rfl fun hyes => absurd hyes hpass

end OrderBook

namespace MatchingEngine

/-! ## Runs -/

/-- An engine, and how many trades there had been when the statistics were last reset. -/
structure Tally where
  engine : MatchingEngine
  before : Nat

inductive TallyOp
  | submit (uninit : OrderResult) (order : Order)
  | cancel (uninit : OrderResult) (symbol : Symbol) (orderId : OrderId)
  | resetStats

namespace Tally

def step (t : Tally) : TallyOp → Tally
  | .submit uninit order => { t with engine := (t.engine.submitOrder uninit order).2 }
  | .cancel uninit symbol orderId =>
      { t with engine := (t.engine.cancelOrder uninit symbol orderId).2 }
  | .resetStats =>
      { engine := t.engine.resetStats, before := t.engine.history.trades.length }

/-- The trades of all books since then. -/
def tradesSince (t : Tally) : Nat := t.engine.history.trades.length - t.before

def Agrees (t : Tally) : Prop := t.engine.stats.tradesExecuted.toNat = t.tradesSince

instance (t : Tally) : Decidable t.Agrees :=
  inferInstanceAs (Decidable (t.engine.stats.tradesExecuted.toNat = t.tradesSince))

/-- A submitted order counts as it trades, and leaves the counter within its type. -/
def Counts (t : Tally) : TallyOp → Prop
  | .submit _ order => ∀ b, t.engine.book? order.symbol = some b →
      CountsTrade b order ∧
        (Passes b order → t.engine.stats.tradesExecuted.toNat + (b.draws order).length < 2 ^ 64)
  | .cancel _ _ _ | .resetStats => True

/-- What every call keeps. -/
structure Valid (t : Tally) : Prop where
  books : t.engine.AllBooks Countable
  before_le : t.before ≤ t.engine.history.trades.length

variable {t : Tally}

lemma length_trades_handle (e : MatchingEngine) (uninit : OrderResult) (r : Request) :
    (e.handle uninit r).2.history.trades.length = e.history.trades.length +
      ((e.book? r.symbol).elim [] fun b => newTrades b (b.apply r.op)).length := by
  rw [history_handle]
  cases e.book? r.symbol with
  | none => rfl
  | some b => exact List.length_append

lemma Valid.handle (h : t.Valid) (uninit : OrderResult) {r : Request}
    (hr : ∀ b : OrderBook, b.NoReplace r.op) :
    ({ t with engine := (t.engine.handle uninit r).2 } : Tally).Valid := by
  refine ⟨h.books.handle (fun b hb => hb.apply (hr b)) uninit, ?_⟩
  rw [length_trades_handle]
  exact Nat.le_add_right_of_le h.before_le

lemma Valid.step (h : t.Valid) (op : TallyOp) : (t.step op).Valid := by
  cases op with
  | submit uninit order => exact Valid.handle (r := .order order) h uninit fun _ => trivial
  | cancel uninit symbol id => exact Valid.handle (r := .cancel symbol id) h uninit fun _ => trivial
  | resetStats => exact ⟨h.books.congr fun _ => rfl, Nat.le_refl _⟩

lemma tradesExecuted_settle (s : EngineStats) (order : Order) (result : OrderResult) :
    ((s.receive (.order order)).settle (.order order) result).tradesExecuted
      = s.tradesExecuted + if result.success = true ∧ result.filledQty > 0 then 1 else 0 := by
  split_ifs with h
  · rw [EngineStats.settle_order h]
    rfl
  · rw [EngineStats.settle_order_of_not h, UInt64.add_zero]
    rfl

lemma tradesExecuted_settle_cancel (s : EngineStats) (symbol : Symbol) (id : OrderId)
    (result : OrderResult) :
    ((s.receive (.cancel symbol id)).settle (.cancel symbol id) result).tradesExecuted
      = s.tradesExecuted := by
  by_cases h : result.success = true
  · rw [EngineStats.settle_cancel h]
    rfl
  · rw [EngineStats.settle_cancel_of_not h]
    rfl

/-- A counter of 64 bits that takes one step or none. -/
lemma toNat_add_step {total : UInt64} {counted : Prop} [Decidable counted] {k : Nat} :
    (total + if counted then 1 else 0).toNat = total.toNat + k ↔
      k = (if counted then 1 else 0) ∧ total.toNat + k < 2 ^ 64 := by
  have hlt := total.toNat_lt
  split_ifs
  · rw [UInt64.toNat_add, UInt64.toNat_one]
    omega
  · rw [UInt64.add_zero]
    omega

/-- The engine counts an order right, the limits of the counter included. -/
lemma toNat_tradesExecuted_iff {b : OrderBook} (hb : Countable b) (total : UInt64) (order : Order) :
    (total + if (b.addOrder order).1.success = true ∧ (b.addOrder order).1.filledQty > 0 then 1
        else 0).toNat = total.toNat + (newTrades b (b.addOrder order).2).length ↔
      CountsTrade b order ∧ (Passes b order → total.toNat + (b.draws order).length < 2 ^ 64) := by
  rw [toNat_add_step, length_newTrades_eq_iff hb]
  refine and_congr_right fun _ => ?_
  by_cases hpass : Passes b order
  · rw [length_newTrades_addOrder hb.sound hb.announced hpass]
    exact ⟨fun h _ => h, fun h => h hpass⟩
  · rw [newTrades_of_not_passes hpass]
    exact iff_of_true total.toNat_lt fun h => absurd h hpass

/-- A request settled as `stats'` that makes `k` trades keeps the agreement if the counter says
so. -/
lemma Agrees.of_trades {e : MatchingEngine} {k : Nat} (h : t.Agrees)
    (hle : t.before ≤ t.engine.history.trades.length)
    (htrades : e.history.trades.length = t.engine.history.trades.length + k) :
    Agrees { t with engine := e } ↔
      e.stats.tradesExecuted.toNat = t.engine.stats.tradesExecuted.toNat + k := by
  rw [Agrees, tradesSince] at h ⊢
  rw [h, htrades, Nat.sub_add_comm hle]

/-- The step lemma. -/
theorem agrees_step_iff (h : t.Valid) (hagrees : t.Agrees) (op : TallyOp) :
    (t.step op).Agrees ↔ t.Counts op := by
  cases op with
  | submit uninit order =>
      have hstats := stats_handle t.engine uninit (.order order)
      have htrades := length_trades_handle t.engine uninit (.order order)
      refine (hagrees.of_trades h.before_le htrades).trans ?_
      show (t.engine.handle uninit (.order order)).2.stats.tradesExecuted.toNat = _ ↔ _
      rw [hstats, Counts, Request.symbol]
      cases hb : t.engine.book? order.symbol with
      | none => exact iff_of_true rfl fun b h => by cases h
      | some b =>
          simp only [Option.elim_some, Option.some.injEq, forall_eq']
          rw [tradesExecuted_settle]
          exact toNat_tradesExecuted_iff (h.books _ _ hb) _ order
  | cancel uninit symbol id =>
      have hstats := stats_handle t.engine uninit (.cancel symbol id)
      have htrades := length_trades_handle t.engine uninit (.cancel symbol id)
      refine (hagrees.of_trades h.before_le htrades).trans (iff_of_true ?_ trivial)
      show (t.engine.handle uninit (.cancel symbol id)).2.stats.tradesExecuted.toNat = _
      rw [hstats, Request.symbol]
      cases hb : t.engine.book? symbol with
      | none => rfl
      | some b =>
          have hnone : newTrades b (b.apply (Request.cancel symbol id).op) = [] :=
            newTrades_cancelOrder b id
          simp only [Option.elim_some, hnone]
          rw [tradesExecuted_settle_cancel]
          rfl
  | resetStats =>
      refine iff_of_true ?_ trivial
      show (0 : UInt64).toNat = t.engine.history.trades.length - t.engine.history.trades.length
      rw [Nat.sub_self]
      rfl

/-- A new engine. -/
def start (config : OrderBookConfig) (onExecution : Bool) (clocks : Nat → Stream' Timestamp)
    (symbols : List Symbol) : Tally where
  engine := MatchingEngine.start config true onExecution clocks symbols
  before := 0

lemma trades_start (config : OrderBookConfig) (onExecution : Bool)
    (clocks : Nat → Stream' Timestamp) (symbols : List Symbol) :
    (start config onExecution clocks symbols).engine.history.trades = [] := by
  rw [start, MatchingEngine.start, foldl_addSymbol_eq]

lemma valid_start (config : OrderBookConfig) (onExecution : Bool)
    (clocks : Nat → Stream' Timestamp) (symbols : List Symbol) :
    (start config onExecution clocks symbols).Valid where
  books symbol b hb := by
    obtain ⟨clock, hbook⟩ := book?_start config true onExecution clocks symbols symbol
    rw [show (start config onExecution clocks symbols).engine.book? symbol = _ from hbook] at hb
    split_ifs at hb
    cases hb
    exact ⟨sound_after symbol config true onExecution false clock [],
      announced_after symbol config onExecution false clock [],
      allOrders_new⟩
  before_le := Nat.zero_le _

lemma agrees_start (config : OrderBookConfig) (onExecution : Bool)
    (clocks : Nat → Stream' Timestamp) (symbols : List Symbol) :
    (start config onExecution clocks symbols).Agrees := by
  rw [Agrees, tradesSince, trades_start, start, MatchingEngine.start, foldl_addSymbol_eq]
  rfl

end Tally

/-- **The trades counted are the trades executed** throughout a run of submits, cancels and resets
exactly if each submitted order that passes the checks draws on one maker or none: on none if it is
killed, on one if it was given with something filled; and the counter stays within its type. -/
theorem trades_executed_iff (config : OrderBookConfig) (onExecution : Bool)
    (clocks : Nat → Stream' Timestamp) (symbols : List Symbol) (ops : List TallyOp) :
    Run.Throughout Tally.step Tally.Agrees (Tally.start config onExecution clocks symbols) ops ↔
      Run.Admitted Tally.step Tally.Counts (Tally.start config onExecution clocks symbols) ops :=
  Run.throughout_iff_admitted (I := fun t => Tally.Valid t ∧ Tally.Agrees t) (fun _ h => h.2)
    (fun _ op h hok => ⟨h.1.step op, (Tally.agrees_step_iff h.1 h.2 op).mpr hok⟩)
    (fun _ op h hnot hagrees => hnot ((Tally.agrees_step_iff h.1 h.2 op).mp hagrees))
    ⟨Tally.valid_start config onExecution clocks symbols,
      Tally.agrees_start config onExecution clocks symbols⟩

/-- Two sell orders at one price, and a buy order for both. -/
def sweepingBuy : List TallyOp :=
  [.submit {} { id := 1, price := 100, quantity := 10, side := .Sell, symbol := .ofChars [65] },
    .submit {} { id := 2, price := 100, quantity := 10, side := .Sell, symbol := .ofChars [65] },
    .submit {} { id := 3, price := 100, quantity := 20, side := .Buy, symbol := .ofChars [65] }]

/-- The engine has counted one trade, and there have been two. -/
theorem sweep_counted_once :
    let t := Run.run Tally.step (Tally.start {} true (fun _ _ => 0) [.ofChars [65]]) sweepingBuy
    t.engine.stats.tradesExecuted = 1 ∧ t.tradesSince = 2 ∧ ¬ t.Agrees := by
  decide +kernel

end MatchingEngine

end Exchange
