import Exchange.Engine.Requests
import Exchange.OrderBook.Guards
import Exchange.OrderBook.Taker
import Exchange.OrderBook.Trades

/-!
# The volume the engine counts

`submit_order` adds the filled quantity in the result of `add_order` to `total_volume`, and nothing
else does.  So trades are missed that are made in the re-add of a replace, or by a fill-or-kill
order that is then rejected; and what a caller says is already filled of a new order is counted as
if it had been traded.

**`volume_iff`** — the counter agrees with the trades throughout a run exactly if each call counts
what it trades.
-/

namespace Exchange

namespace OrderBook

open MatchState

/-! ## What a call trades -/

def volume (trades : List Trade) : Nat := (trades.map (·.quantity.toNat)).sum

/-- The trades of a call, delivered or pending. -/
def newTrades (b b' : OrderBook) : List Trade := b'.feed.trades.drop b.feed.trades.length

variable {b b' : OrderBook} {order : Order}

lemma newTrades_quiet (h : Quiet b b') : newTrades b b' = [] := by
  rw [newTrades, h.trades_eq, List.drop_length]

/-- Where trades are announced, the new ones are the new fills. -/
lemma volume_newTrades (h : Announced b) (h' : Announced b') {fills : List Fill}
    (hexecuted : b'.history.executed = b.history.executed ++ fills) :
    volume (newTrades b b') = (fills.map (·.quantity.toNat)).sum := by
  have hlength : b.feed.trades.length = b.history.executed.length := by
    have := congrArg List.length h.executions_eq
    rwa [List.length_map, List.length_map] at this
  have hnew : (newTrades b b').map Trade.execution = fills.map Fill.execution := by
    rw [newTrades, List.map_drop, h'.executions_eq, hexecuted, List.map_append, hlength,
      List.drop_left' (by rw [List.length_map])]
  have htrades : (newTrades b b').map (·.quantity.toNat)
      = ((newTrades b b').map Trade.execution).map (·.quantity.toNat) := by
    rw [List.map_map]
    rfl
  rw [volume, htrades, hnew, List.map_map]
  congr 1
  exact List.map_congr_left fun f _ => congrArg UInt32.toNat (executionOf_quantity _ _ _ _)

lemma volume_addOrder (hb : b.store.Sound) (hannounced : Announced b) (hpass : Passes b order) :
    volume (newTrades b (b.addOrder order).2) = b.tradable order := by
  obtain ⟨-, fills, hexecuted, -⟩ := matchOrder_contenders hb order
  rw [volume_newTrades hannounced (announced_calls.addOrder hannounced trivial)
    (by rw [executed_addOrder hpass, hexecuted]), sum_fills hb hexecuted]

lemma newTrades_of_not_passes (h : ¬ Passes b order) : newTrades b (b.addOrder order).2 = [] := by
  cases addOrder_cases b order with
  | rejected _ _ _ hquiet => exact newTrades_quiet hquiet
  | killed hr => exact absurd (rejectReason_eq_none_iff.mp hr) h
  | rested hr => exact absurd (rejectReason_eq_none_iff.mp hr) h
  | passed hr => exact absurd (rejectReason_eq_none_iff.mp hr) h

/-- An order that is not killed was not filled before; one that is killed has traded nothing. -/
def CountsAdd (b : OrderBook) (total : UInt64) (order : Order) : Prop :=
  Passes b order →
    (Killed b order → b.supply order = 0) ∧
    (¬ Killed b order → order.filledQty = 0 ∧ total.toNat + b.tradable order < 2 ^ 64)

/-- A counter that takes no notice of a quantity of 0 is the counter that adds it. -/
lemma toNat_add_quantity (total : UInt64) (q : Quantity) :
    (if q > 0 then total + q.toUInt64 else total).toNat = (total.toNat + q.toNat) % 2 ^ 64 := by
  split_ifs with hpos
  · rw [UInt64.toNat_add, UInt32.toNat_toUInt64]
  · have hzero : q.toNat = 0 := by
      have := UInt32.lt_iff_toNat_lt.not.mp hpos
      simpa using this
    rw [hzero, Nat.add_zero, Nat.mod_eq_of_lt total.toNat_lt]

/-- What the engine adds to the volume for an order is what it trades. -/
lemma counts_addOrder_iff (hb : b.store.Sound) (hannounced : Announced b) (total : UInt64)
    (order : Order) :
    (if (b.addOrder order).1.success = true ∧ (b.addOrder order).1.filledQty > 0 then
        total + (b.addOrder order).1.filledQty.toUInt64 else total).toNat
      = total.toNat + volume (newTrades b (b.addOrder order).2) ↔ CountsAdd b total order := by
  obtain ⟨hsuccess, hfilled⟩ := addOrder_result hb order
  by_cases hpass : Passes b order
  · rw [volume_addOrder hb hannounced hpass]
    by_cases hkilled : Killed b order
    · have hfail : ¬ (b.addOrder order).1.success = true := fun h => (hsuccess.mp h).2 hkilled
      have hall : b.tradable order = b.supply order := Nat.min_eq_right (Nat.le_of_lt hkilled.short)
      rw [if_neg fun h => hfail h.1, hall]
      constructor
      · intro h _
        exact ⟨fun _ => by omega, fun hnot => absurd hkilled hnot⟩
      · intro h
        rw [(h hpass).1 hkilled, Nat.add_zero]
    · have hok := hsuccess.mpr ⟨hpass, hkilled⟩
      have hadded := toNat_add_quantity total (b.addOrder order).1.filledQty
      have hlt := (b.addOrder order).1.filledQty.toNat_lt
      rw [hfilled hok] at hadded hlt
      simp only [hok, true_and]
      rw [hadded]
      have hzero : order.filledQty = 0 ↔ order.filledQty.toNat = 0 := by
        rw [← UInt32.toNat_inj]
        rfl
      have htotal := total.toNat_lt
      constructor
      · intro h _
        refine ⟨fun hyes => absurd hyes hkilled, fun _ => ?_⟩
        rw [hzero]
        omega
      · intro h
        obtain ⟨hfresh, hroom⟩ := (h hpass).2 hkilled
        rw [hzero] at hfresh
        rw [hfresh, Nat.zero_add, Nat.mod_eq_of_lt hroom]
  · have hfail : ¬ (b.addOrder order).1.success = true := fun h => hpass (hsuccess.mp h).1
    rw [if_neg fun h => hfail h.1, newTrades_of_not_passes hpass]
    exact iff_of_true rfl fun h => absurd h hpass

lemma newTrades_cancelOrder (b : OrderBook) (id : OrderId) :
    newTrades b (b.cancelOrder id).2 = [] := by
  cases cancelOrder_cases b id with
  | missing _ _ hsame =>
      rw [hsame]
      exact newTrades_quiet (Quiet.refl b)
  | cancelled _ _ hquiet => rw [newTrades, hquiet.trades_eq, List.drop_length]

/-- A replacement that passes the checks meets nobody. -/
def TradesNoQuantity (b : OrderBook) (order : Order) : Prop := Passes b order → b.tradable order = 0

/-- A replace trades nothing exactly if it is done in place or what it adds trades nothing. -/
lemma volume_replace_iff (hb : b.store.Sound) (hannounced : Announced b) (uninit : OrderResult)
    (id : OrderId) (newPrice : Price) (newQty : Quantity) :
    volume (newTrades b (apply b (.replace uninit id newPrice newQty))) = 0 ↔
      ∀ existing, b.store.orders[id]? = some existing →
        ReplacesInPlace b.store existing newPrice ∨
          TradesNoQuantity (b.cancelOrder id).2 (replacement existing id newPrice newQty) := by
  cases ho : b.store.orders[id]? with
  | none =>
      rw [apply, replaceOrder_of_none ho]
      exact iff_of_true (by rw [newTrades_quiet (Quiet.refl b)]; rfl) fun _ h => by cases h
  | some existing =>
      have hmoved : volume (newTrades b
          ((b.cancelOrder id).2.addOrder (replacement existing id newPrice newQty)).2) = 0 ↔
            TradesNoQuantity (b.cancelOrder id).2 (replacement existing id newPrice newQty) := by
        have htrades : (b.cancelOrder id).2.feed.trades = b.feed.trades := by
          rw [cancelOrder_of_some ho]
          exact (Quiet.maybeEmitBbo _).trades_eq
        rw [newTrades, ← htrades, ← newTrades]
        by_cases hpass : Passes (b.cancelOrder id).2 (replacement existing id newPrice newQty)
        · rw [volume_addOrder (sound_calls.cancelOrder hb id)
            (announced_calls.cancelOrder hannounced id) hpass]
          exact ⟨fun h _ => h, fun h => h hpass⟩
        · rw [newTrades_of_not_passes hpass]
          exact iff_of_true rfl fun h => absurd h hpass
      rcases apply_replace b uninit id newPrice newQty ho with ⟨level, hin, heq⟩ | ⟨hnot, heq⟩
      · rw [heq, newTrades, (Quiet.maybeEmitBbo _).trades_eq, List.drop_length]
        refine iff_of_true rfl fun existing' h => Or.inl ?_
        cases h
        exact hin.replacesInPlace
      · rw [heq, hmoved]
        constructor
        · rintro h existing' h'
          cases h'
          exact Or.inr h
        · exact fun h => (h existing rfl).resolve_left hnot

end OrderBook

/-! ## Runs -/

namespace MatchingEngine

open OrderBook

/-- The volume of all trades so far, delivered or pending. -/
def tradedVolume (e : MatchingEngine) : Nat := volume e.history.trades

def VolumeAgrees (e : MatchingEngine) : Prop := e.stats.totalVolume.toNat = e.tradedVolume

instance (e : MatchingEngine) : Decidable e.VolumeAgrees :=
  inferInstanceAs (Decidable (e.stats.totalVolume.toNat = e.tradedVolume))

/-- The engine counts for the request what the request trades. -/
def CountsTrades (e : MatchingEngine) (r : Request) : Prop :=
  ∀ b, e.book? r.symbol = some b →
    match r with
    | .order order => CountsAdd b e.stats.totalVolume order
    | .cancel _ _ => True
    | .replace _ id newPrice newQty => ∀ existing, b.store.orders[id]? = some existing →
        ReplacesInPlace b.store existing newPrice ∨
          TradesNoQuantity (b.cancelOrder id).2 (replacement existing id newPrice newQty)

def CountsOp (e : MatchingEngine) (q : RequestOp) : Prop :=
  ∀ r, e.made q = some r → e.CountsTrades r

/-- Every book is sound and announces its trades. -/
structure Announcing (e : MatchingEngine) : Prop where
  sound : ∀ symbol b, e.book? symbol = some b → b.store.Sound
  announced : ∀ symbol b, e.book? symbol = some b → Announced b

variable {e : MatchingEngine}

lemma Announcing.handle (h : e.Announcing) (uninit : OrderResult) (r : Request) :
    (e.handle uninit r).2.Announcing := by
  constructor
  · exact AllBooks.handle h.sound (fun b hb => sound_calls.step hb trivial) uninit
  · exact AllBooks.handle h.announced (fun b hb => announced_calls.step hb trivial) uninit

lemma tradedVolume_handle (e : MatchingEngine) (uninit : OrderResult) (r : Request) :
    (e.handle uninit r).2.tradedVolume = e.tradedVolume + (e.book? r.symbol).elim 0 fun b =>
      volume (newTrades b (b.apply r.op)) := by
  rw [tradedVolume, history_handle]
  cases e.book? r.symbol with
  | none => rfl
  | some b => simp [EngineHistory.record, volume, newTrades, tradedVolume]

lemma totalVolume_settle (s : EngineStats) (order : Order) (result : OrderResult) :
    ((s.receive (.order order)).settle (.order order) result).totalVolume
      = if result.success = true ∧ result.filledQty > 0 then
          s.totalVolume + result.filledQty.toUInt64 else s.totalVolume := by
  split_ifs with h
  · rw [EngineStats.settle_order h]
    rfl
  · rw [EngineStats.settle_order_of_not h]
    rfl

lemma totalVolume_settle_cancel (s : EngineStats) (symbol : Symbol) (id : OrderId)
    (result : OrderResult) :
    ((s.receive (.cancel symbol id)).settle (.cancel symbol id) result).totalVolume
      = s.totalVolume := by
  by_cases h : result.success = true
  · rw [EngineStats.settle_cancel h]
    rfl
  · rw [EngineStats.settle_cancel_of_not h]
    rfl

/-- **One request.** -/
theorem volumeAgrees_handle_iff (h : e.Announcing) (hagrees : e.VolumeAgrees)
    (uninit : OrderResult) (r : Request) :
    (e.handle uninit r).2.VolumeAgrees ↔ e.CountsTrades r := by
  rw [VolumeAgrees, tradedVolume_handle, stats_handle, CountsTrades, ← hagrees]
  cases hb : e.book? r.symbol with
  | none =>
      refine iff_of_true ?_ fun b h => by cases h
      cases r <;> rfl
  | some b =>
      have hsound := h.sound _ _ hb
      have hannounced := h.announced _ _ hb
      simp only [Option.elim_some, Option.some.injEq, forall_eq']
      cases r with
      | order order =>
          rw [totalVolume_settle]
          exact counts_addOrder_iff hsound hannounced e.stats.totalVolume order
      | cancel symbol id =>
          rw [totalVolume_settle_cancel]
          refine iff_of_true ?_ trivial
          show _ = _ + volume (newTrades b (b.cancelOrder id).2)
          rw [newTrades_cancelOrder]
          rfl
      | replace symbol id newPrice newQty =>
          refine Iff.trans ?_ (volume_replace_iff hsound hannounced {} id newPrice newQty)
          exact eq_comm.trans Nat.add_eq_left

/-- A request counts the same where books and counter are the same. -/
lemma countsTrades_congr {e' : MatchingEngine} (hbooks : e'.book? r.symbol = e.book? r.symbol)
    (htotal : e'.stats.totalVolume = e.stats.totalVolume) :
    e'.CountsTrades r ↔ e.CountsTrades r := by
  rw [CountsTrades, CountsTrades, hbooks, htotal]

lemma Announcing.atRequest (h : e.Announcing) (q : RequestOp) : (e.atRequest q).Announcing := by
  have hbooks := (atRequest_eq e q).1
  exact ⟨fun symbol b hb => h.sound symbol b (by rwa [← hbooks]),
    fun symbol b hb => h.announced symbol b (by rwa [← hbooks])⟩

lemma VolumeAgrees.atRequest (h : e.VolumeAgrees) (q : RequestOp) :
    (e.atRequest q).VolumeAgrees := by
  obtain ⟨-, hhistory, htotal⟩ := atRequest_eq e q
  rwa [VolumeAgrees, htotal, tradedVolume, hhistory]

lemma Announcing.step (h : e.Announcing) (q : RequestOp) : (e.requestStep q).Announcing := by
  rcases requestStep_eq e q with ⟨r, uninit, -, hstep⟩ | ⟨-, hstep⟩
  · rw [hstep]
    exact (h.atRequest q).handle uninit r
  · rw [hstep]
    exact h.atRequest q

/-- The step lemma. -/
lemma volumeAgrees_step_iff (h : e.Announcing) (hagrees : e.VolumeAgrees) (q : RequestOp) :
    (e.requestStep q).VolumeAgrees ↔ e.CountsOp q := by
  rcases requestStep_eq e q with ⟨r, uninit, hmade, hstep⟩ | ⟨hmade, hstep⟩
  · obtain ⟨hbooks, -, htotal⟩ := atRequest_eq e q
    rw [hstep, volumeAgrees_handle_iff (h.atRequest q) (hagrees.atRequest q),
      countsTrades_congr (hbooks _) htotal, CountsOp, hmade]
    simp
  · rw [hstep, CountsOp, hmade]
    exact iff_of_true (hagrees.atRequest q) fun r h => by cases h

/-! ## A new engine -/

lemma announcing_start (config : OrderBookConfig) (onExecution : Bool)
    (clocks : Nat → Stream' Timestamp) (symbols : List Symbol) :
    (start config true onExecution clocks symbols).Announcing := by
  constructor
  all_goals
    intro symbol b hb
    obtain ⟨clock, hbook⟩ := book?_start config true onExecution clocks symbols symbol
    rw [hbook] at hb
    split_ifs at hb
    cases hb
  · exact sound_after symbol config true onExecution false clock []
  · exact announced_after symbol config onExecution false clock []

lemma volumeAgrees_start (config : OrderBookConfig) (onExecution : Bool)
    (clocks : Nat → Stream' Timestamp) (symbols : List Symbol) :
    (start config true onExecution clocks symbols).VolumeAgrees := by
  rw [VolumeAgrees, tradedVolume, start, foldl_addSymbol_eq]
  rfl

/-- **The volume counted is the volume traded** throughout a run exactly if every request that is
made counts what it trades: an order is killed without having met anybody, or was given with nothing
filled and leaves the counter within its type; a replace does not trade. -/
theorem volume_iff (config : OrderBookConfig) (onExecution : Bool)
    (clocks : Nat → Stream' Timestamp) (symbols : List Symbol) (qs : List RequestOp) :
    Run.Throughout requestStep VolumeAgrees (start config true onExecution clocks symbols) qs ↔
      Run.Admitted requestStep CountsOp (start config true onExecution clocks symbols) qs :=
  Run.throughout_iff_admitted (I := fun e => Announcing e ∧ VolumeAgrees e) (fun _ h => h.2)
    (fun _ q h hok => ⟨h.1.step q, (volumeAgrees_step_iff h.1 h.2 q).mpr hok⟩)
    (fun _ q h hnot hagrees => hnot ((volumeAgrees_step_iff h.1 h.2 q).mp hagrees))
    ⟨announcing_start config onExecution clocks symbols,
      volumeAgrees_start config onExecution clocks symbols⟩

/-- A buy order moves up to the price of a sell order. -/
def tradingReplace : List RequestOp :=
  [.direct {} (.order
      { id := 1, price := 101, quantity := 5, side := .Sell, symbol := .ofChars [65] }),
    .direct {} (.order
      { id := 2, price := 100, quantity := 5, side := .Buy, symbol := .ofChars [65] }),
    .direct {} (.replace (.ofChars [65]) 2 101 5)]

/-- The engine has counted nothing, and 5 have been traded. -/
theorem replace_not_counted :
    let e := Run.run requestStep (start {} true true (fun _ _ => 0) [.ofChars [65]]) tradingReplace
    e.stats.totalVolume = 0 ∧ e.tradedVolume = 5 ∧ ¬ e.VolumeAgrees := by
  decide +kernel

end MatchingEngine

end Exchange
