import Exchange.Engine.Requests
import Exchange.OrderBook.Guards
import Exchange.OrderBook.Reports
import Exchange.OrderBook.Taker

/-!
# What a result tells its caller

`cancel_order` of a book begins with `OrderResult result{}` and `order_id`, and `add_order` fills in
what it returns.  `replace_order` and the engine begin with `OrderResult result;`, whose members are
indeterminate until they are assigned, and assign one or two of them.

* `Explains` — a refusal names the call and its cause, a success has no reason and the quantity
  traded;
* `explains_answer_iff` — which calls of a book are explained, whatever the indeterminate members
  hold;
* **`explained_iff`** — which requests are, in every book and every engine that can be reached.
-/

namespace Exchange

open Std (ExtTreeMap)

namespace OrderBook

/-- Why `add_order` refuses an order. -/
def Cause (b : OrderBook) (order : Order) : RejectReason → Prop
  | .InvalidQuantity => order.quantity = 0 ∨ isFillOrKill order = true ∧
      (availableQuantity (withMarketPrice order) (b.store.levels order.side.opposite).toList 0
        < order.quantity ∨ b.supply order < order.leaves)
  | .InvalidPrice => order.type = .Limit ∧ order.price ≤ 0
  | .DuplicateOrderId => order.id ∈ b.store.orders
  | .WouldCross => order.type = .PostOnly ∧ b.config.enablePostOnlyRejection = true ∧
      postOnlyWouldCross b.store order = true
  | _ => False

/-- The quantity traded between `b` and `b'`. -/
def tradedBetween (b b' : OrderBook) : Nat := ((fillsSince b b').map (·.quantity.toNat)).sum

end OrderBook

namespace Request

open OrderBook

/-- The id the request names. -/
def id : Request → OrderId
  | .order o => o.id
  | .cancel _ id | .replace _ id _ _ => id

/-- It is a cancel or a replace of an order that is not there. -/
def Misses (b : OrderBook) : Request → Prop
  | .order _ => False
  | .cancel _ id | .replace _ id _ _ => b.store.orders[id]? = none

/-- Why a book refuses it.  A replace that is not done in place is refused as the order it adds. -/
def Cause (b : OrderBook) : Request → RejectReason → Prop
  | .order o, reason => OrderBook.Cause b o reason
  | .cancel _ id, reason => reason = .OrderNotFound ∧ b.store.orders[id]? = none
  | .replace _ id newPrice newQty, reason =>
      match b.store.orders[id]? with
      | none => reason = .OrderNotFound
      | some existing =>
          OrderBook.Cause (b.cancelOrder id).2 (replacement existing id newPrice newQty) reason

/-- Each member of the result is assigned, and what is told as filled was traded now: a replace
finds its order and is not done in place, and a successful order was not filled before. -/
def Explained (b : OrderBook) : Request → Prop
  | .order o => Passes b o → ¬ Killed b o → o.filledQty = 0
  | .cancel _ _ => True
  | .replace _ id newPrice _ => ∃ existing, b.store.orders[id]? = some existing ∧
      ¬ ReplacesInPlace b.store existing newPrice

end Request

open OrderBook MatchState

/-! ## Explanations -/

/-- A refusal of a request, given the book of its symbol. -/
structure Refusal (book : Option OrderBook) (r : Request) (result : OrderResult) : Prop where
  orderId_eq : result.orderId = r.id
  unknown_iff : result.rejectReason = .UnknownSymbol ↔ book = none
  not_found_iff : result.rejectReason = .OrderNotFound ↔ ∃ b, book = some b ∧ r.Misses b
  cause : ∀ b, book = some b → r.Cause b result.rejectReason

structure Explains (book : Option OrderBook) (r : Request) (traded : Nat) (result : OrderResult) :
    Prop where
  refused : result.success = false → Refusal book r result
  done : result.success = true → result.rejectReason = .None ∧ result.filledQty.toNat = traded

variable {b b' : OrderBook} {order : Order} {r : Request}

lemma OrderBook.Cause.ne_unknown {reason : RejectReason} (h : Cause b order reason) :
    reason ≠ .UnknownSymbol := by
  rintro rfl
  exact h

lemma OrderBook.Cause.ne_notFound {reason : RejectReason} (h : Cause b order reason) :
    reason ≠ .OrderNotFound := by
  rintro rfl
  exact h

/-- The checks name what they have checked. -/
lemma cause_of_rejectReason {reason : RejectReason} (h : b.rejectReason order = some reason) :
    Cause b order reason := by
  rw [rejectReason] at h
  simp only [withMarketPrice_id, withMarketPrice_type, withMarketPrice_quantity,
    withMarketPrice_side, isFillOrKill_withMarketPrice] at h
  split_ifs at h with h1 h2 h3 h4 h5
  · cases h
    exact Or.inl h1
  · cases h
    exact h2
  · cases h
    exact ExtTreeMap.contains_iff_mem.mp h3
  · cases h
    obtain ⟨htype, henabled, hcross⟩ := h4
    rw [withMarketPrice, if_neg (by simp [htype])] at hcross
    exact ⟨htype, henabled, hcross⟩
  · cases h
    exact Or.inr ⟨h5.1, Or.inl h5.2⟩

/-! ## `add_order` -/

/-- A refused order is told why. -/
theorem addOrder_refused (hb : b.store.Sound) (hfail : (b.addOrder order).1.success = false) :
    (b.addOrder order).1.orderId = order.id ∧ Cause b order (b.addOrder order).1.rejectReason := by
  have hexit := addOrder_exit b order
  generalize b.addOrder order = added at hexit hfail
  cases hexit with
  | refused reason hr _ => exact ⟨rfl, cause_of_rejectReason hr⟩
  | wouldCross hr => exact ⟨rfl, cause_of_rejectReason hr⟩
  | killed hr hkills hopen =>
      refine ⟨?_, Or.inr ⟨hkills.fok, Or.inr ((matchOrder_contenders hb order).1.mp hopen)⟩⟩
      rw [(matchOrder_sameTaker b (withMarketPrice order)).id_eq, withMarketPrice_id]
  | rested => cases hfail
  | dropped => cases hfail
  | finished => cases hfail

lemma rejectReason_of_success (h : (b.addOrder order).1.success = true) :
    (b.addOrder order).1.rejectReason = .None := by
  have hexit := addOrder_exit b order
  generalize b.addOrder order = added at hexit h
  cases hexit with
  | refused => cases h
  | wouldCross => cases h
  | killed => cases h
  | rested => rfl
  | dropped => rfl
  | finished => rfl

lemma tradedBetween_addOrder (hb : b.store.Sound) (hpass : Passes b order) :
    tradedBetween b (b.addOrder order).2 = b.tradable order := by
  obtain ⟨-, fills, hexecuted, -⟩ := matchOrder_contenders hb order
  rw [tradedBetween, fillsSince, executed_addOrder hpass, hexecuted, List.drop_left,
    sum_fills hb hexecuted]

/-- What a successful order is told as filled is what it traded, if nothing was filled before. -/
theorem addOrder_filled_iff (hb : b.store.Sound) :
    ((b.addOrder order).1.success = true →
        (b.addOrder order).1.filledQty.toNat = tradedBetween b (b.addOrder order).2) ↔
      (Passes b order → ¬ Killed b order → order.filledQty = 0) := by
  obtain ⟨hsuccess, hfilled⟩ := addOrder_result hb order
  have hzero : order.filledQty = 0 ↔ order.filledQty.toNat = 0 := by
    rw [← UInt32.toNat_inj]
    rfl
  constructor
  · intro h hpass hkilled
    have hok := hsuccess.mpr ⟨hpass, hkilled⟩
    have hsum := hfilled hok
    rw [h hok, tradedBetween_addOrder hb hpass] at hsum
    rw [hzero]
    omega
  · intro h hok
    obtain ⟨hpass, hkilled⟩ := hsuccess.mp hok
    rw [hfilled hok, tradedBetween_addOrder hb hpass, hzero.mp (h hpass hkilled), Nat.zero_add]

/-! ## The answers of a book -/

lemma refusal_of_cause {result : OrderResult} (hid : result.orderId = r.id) (hfound : ¬ r.Misses b)
    (hcause : r.Cause b result.rejectReason) (hunknown : result.rejectReason ≠ .UnknownSymbol)
    (hnot : result.rejectReason ≠ .OrderNotFound) : Refusal (some b) r result where
  orderId_eq := hid
  unknown_iff := iff_of_false hunknown (Option.some_ne_none b)
  not_found_iff := by
    refine iff_of_false hnot ?_
    rintro ⟨b', hb', hmisses⟩
    cases hb'
    exact hfound hmisses
  cause b' hb' := by
    cases hb'
    exact hcause

lemma refusal_of_misses {result : OrderResult} (hid : result.orderId = r.id) (hmisses : r.Misses b)
    (hcause : r.Cause b .OrderNotFound) (hreason : result.rejectReason = .OrderNotFound) :
    Refusal (some b) r result where
  orderId_eq := hid
  unknown_iff := iff_of_false (by rw [hreason]; simp) (Option.some_ne_none b)
  not_found_iff := iff_of_true hreason ⟨b, rfl, hmisses⟩
  cause b' hb' := by
    cases hb'
    rw [hreason]
    exact hcause

/-- A book's answer, for whatever its indeterminate members hold. -/
def AnswerExplained (b : OrderBook) (r : Request) : Prop :=
  ∀ uninit, Explains (some b) r (tradedBetween b (b.apply r.op)) (r.answer uninit b)

lemma answerExplained_order_iff (hb : b.store.Sound) (o : Order) :
    AnswerExplained b (.order o) ↔ (Request.order o).Explained b := by
  refine Iff.trans ?_ (addOrder_filled_iff hb)
  constructor
  · intro h hok
    exact ((h {}).done hok).2
  · intro h uninit
    refine ⟨fun hfail => ?_, fun hok => ⟨rejectReason_of_success hok, h hok⟩⟩
    obtain ⟨hid, hcause⟩ := addOrder_refused hb hfail
    exact refusal_of_cause hid not_false hcause hcause.ne_unknown hcause.ne_notFound

lemma tradedBetween_of_executed (h : b'.history.executed = b.history.executed) :
    tradedBetween b b' = 0 := by
  rw [tradedBetween, fillsSince, h, List.drop_length]
  rfl

lemma history_cancelOrder (b : OrderBook) (id : OrderId) :
    (b.cancelOrder id).2.history = b.history := by
  cases cancelOrder_cases b id with
  | missing _ _ hsame => rw [hsame]
  | cancelled _ _ hquiet => exact hquiet.history_eq

/-- A cancel assigns everything. -/
lemma answerExplained_cancel (b : OrderBook) (symbol : Symbol) (id : OrderId) :
    AnswerExplained b (.cancel symbol id) := by
  intro uninit
  show Explains (some b) _ (tradedBetween b (b.cancelOrder id).2) (b.cancelOrder id).1
  rw [tradedBetween_of_executed (by rw [history_cancelOrder])]
  cases ho : b.store.orders[id]? with
  | none =>
      rw [cancelOrder_of_none ho]
      refine ⟨fun _ => refusal_of_misses rfl ho ⟨rfl, ho⟩ rfl, fun hok => ?_⟩
      cases hok
  | some o =>
      rw [cancelOrder_of_some ho]
      refine ⟨fun hfail => ?_, fun _ => ⟨rfl, rfl⟩⟩
      cases hfail

section Replace

variable {symbol : Symbol} {id : OrderId} {newPrice : Price} {newQty : Quantity}

/-- Of a replace of an order that is not there nothing but `success` is assigned. -/
lemma not_answerExplained_missing (ho : b.store.orders[id]? = none) :
    ¬ AnswerExplained b (.replace symbol id newPrice newQty) := by
  intro h
  have hanswer : (Request.replace symbol id newPrice newQty).answer {} b
      = { success := false } := by
    show (b.replaceOrder _ _ _ _).1 = _
    rw [replaceOrder_of_none ho]
  have hexplains := h {}
  rw [hanswer] at hexplains
  have hreason := (hexplains.refused rfl).not_found_iff.mpr ⟨b, rfl, ho⟩
  cases hreason

/-- Nor is it of a replace in place. -/
lemma not_answerExplained_inPlace {existing : Order} {level : PriceLevel}
    (hin : InPlace b.store id newPrice existing level) :
    ¬ AnswerExplained b (.replace symbol id newPrice newQty) := by
  intro h
  have hanswer : (Request.replace symbol id newPrice newQty).answer
      { rejectReason := .UnknownSymbol } b
        = { success := true, rejectReason := .UnknownSymbol } := by
    show (b.replaceOrder _ _ _ _).1 = _
    rw [replaceOrder_of_inPlace hin]
  have hexplains := h { rejectReason := .UnknownSymbol }
  rw [hanswer] at hexplains
  cases (hexplains.done rfl).1

/-- Any other replace returns what `add_order` has made of a fresh order. -/
lemma answerExplained_moved (hb : b.store.Sound) {existing : Order}
    (ho : b.store.orders[id]? = some existing)
    (hnot : ¬ ReplacesInPlace b.store existing newPrice) :
    AnswerExplained b (.replace symbol id newPrice newQty) := by
  intro uninit
  have hsound : (b.cancelOrder id).2.store.Sound := sound_calls.cancelOrder hb id
  have heq : ∀ uninit, b.replaceOrder uninit id newPrice newQty
      = (b.cancelOrder id).2.addOrder (replacement existing id newPrice newQty) :=
    fun uninit =>
      replaceOrder_of_moved ho (level_eq_none_of_not_replacesInPlace hnot) uninit newQty
  show Explains (some b) _ (tradedBetween b (b.replaceOrder {} id newPrice newQty).2)
    (b.replaceOrder uninit id newPrice newQty).1
  rw [heq, heq]
  refine ⟨fun hfail => ?_, fun hok => ⟨rejectReason_of_success hok, ?_⟩⟩
  · obtain ⟨hid, hcause⟩ := addOrder_refused hsound hfail
    refine refusal_of_cause hid ?_ ?_ hcause.ne_unknown hcause.ne_notFound
    · show ¬ b.store.orders[id]? = none
      rw [ho]
      exact Option.some_ne_none existing
    · simp only [Request.Cause, ho]
      exact hcause
  · rw [(addOrder_filled_iff hsound).mpr (fun _ _ => rfl) hok, tradedBetween, tradedBetween,
      fillsSince, fillsSince, history_cancelOrder]

lemma answerExplained_replace_iff (hb : b.store.Sound) :
    AnswerExplained b (.replace symbol id newPrice newQty)
      ↔ (Request.replace symbol id newPrice newQty).Explained b := by
  constructor
  · intro h
    cases ho : b.store.orders[id]? with
    | none => exact absurd h (not_answerExplained_missing ho)
    | some existing =>
        refine ⟨existing, ho, fun hat => ?_⟩
        obtain ⟨level, hin⟩ := hat.inPlace ho
        exact not_answerExplained_inPlace hin h
  · rintro ⟨existing, ho, hnot⟩
    exact answerExplained_moved hb ho hnot

end Replace

theorem answerExplained_iff (hb : b.store.Sound) (r : Request) :
    AnswerExplained b r ↔ r.Explained b := by
  cases r with
  | order o => exact answerExplained_order_iff hb o
  | cancel symbol id => exact iff_of_true (answerExplained_cancel b symbol id) trivial
  | replace symbol id newPrice newQty => exact answerExplained_replace_iff hb

namespace MatchingEngine

/-! ## The answers of the engine -/

variable {e : MatchingEngine}

/-- The quantity a request trades: that of the calls of the book of its symbol. -/
def traded (e : MatchingEngine) (uninit : OrderResult) (r : Request) : Nat :=
  match e.book? r.symbol, (e.handle uninit r).2.book? r.symbol with
  | some b, some b' => tradedBetween b b'
  | _, _ => 0

/-- The engine's answer, for whatever its indeterminate members hold. -/
def HandleExplained (e : MatchingEngine) (r : Request) : Prop :=
  ∀ uninit, Explains (e.book? r.symbol) r (e.traded uninit r) (e.handle uninit r).1

theorem handleExplained_iff (hsound : e.AllBooks fun b => b.store.Sound) (r : Request) :
    e.HandleExplained r ↔ ∃ b, e.book? r.symbol = some b ∧ r.Explained b := by
  cases hb : e.book? r.symbol with
  | none =>
      refine iff_of_false (fun h => ?_) fun h => ?_
      · -- the id is indeterminate
        have hid : ∀ i, i = r.id := fun i => by
          have hanswer := fst_handle e { orderId := i } r
          rw [hb] at hanswer
          have hexplains := h { orderId := i }
          rw [hanswer] at hexplains
          exact (hexplains.refused rfl).orderId_eq
        have hzero := (hid 0).trans (hid 1).symm
        cases hzero
      · obtain ⟨b, hb', -⟩ := h
        cases hb'
  | some b =>
      have hanswer : ∀ uninit, (e.handle uninit r).1 = r.answer uninit b := by
        intro uninit
        rw [fst_handle, hb]
        rfl
      have htraded : ∀ uninit, e.traded uninit r = tradedBetween b (b.apply r.op) := by
        intro uninit
        simp only [traded, hb, book?_handle, if_true, Option.map_some]
      have hhandle : e.HandleExplained r ↔ AnswerExplained b r := by
        rw [HandleExplained, AnswerExplained, hb]
        simp only [hanswer, htraded]
      rw [hhandle, answerExplained_iff (hsound _ _ hb)]
      simp only [Option.some.injEq, exists_eq_left']

end MatchingEngine

/-! ## What can be reached -/

lemma sound_books : MatchingEngine.BookInvariant fun b => b.store.Sound where
  new symbol config onTrade onExecution clock :=
    sound_after symbol config onTrade onExecution false clock []
  apply _ h := sound_calls.step h trivial
  setTradeCallback _ h := h
  setExecutionCallback _ h := h

/-- **A result explains itself exactly if each of its members was assigned**, and an order that
succeeds was given with nothing filled: in every book that calls of any kind lead to, and in every
engine, where there has to be a book for the symbol besides. -/
theorem explained_iff (config : OrderBookConfig) (onTrade onExecution : Bool) :
    (∀ (symbol : Symbol) (onBbo : Bool) (clock : Stream' Timestamp) (ops : List OrderBook.Op)
        (r : Request),
      let b := OrderBook.after (new symbol config onTrade onExecution onBbo clock) ops
      AnswerExplained b r ↔ r.Explained b) ∧
    ∀ (clocks : Nat → Stream' Timestamp) (symbols : List Symbol) (ops : List MatchingEngine.Op)
        (r : Request),
      let e := Run.run MatchingEngine.apply
        (MatchingEngine.start config onTrade onExecution clocks symbols) ops
      e.HandleExplained r ↔ ∃ b, e.book? r.symbol = some b ∧ r.Explained b := by
  refine ⟨fun symbol onBbo clock ops r => ?_, fun clocks symbols ops r => ?_⟩
  · exact answerExplained_iff (sound_after symbol config onTrade onExecution onBbo clock ops) r
  · exact MatchingEngine.handleExplained_iff
      (MatchingEngine.allBooks_run sound_books config onTrade onExecution clocks symbols ops) r

/-- A replace of an order that is not there, in an empty book: where the members hold zeroes, the
result has no reason and the id 0. -/
theorem missing_replace_unexplained :
    let b := OrderBook.after (makeBook {}) []
    let r : Request := .replace (.ofChars [65]) 7 100 10
    ¬ AnswerExplained b r ∧
      r.answer {} b = { success := false, rejectReason := .None, orderId := 0 } := by
  have hnone : (OrderBook.after (makeBook {}) []).store.orders[(7 : OrderId)]? = none := by
    decide +kernel
  exact ⟨not_answerExplained_missing hnone, by decide +kernel⟩

end Exchange
