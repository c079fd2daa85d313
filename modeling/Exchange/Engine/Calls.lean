import Exchange.Engine.Model

/-!
# What a call of the engine can do

A request reaches the book of its symbol, if there is one, and nothing else: `handle_of_none` and
`handle_of_some` say what it leaves of the engine, and `book?_handle`, `stats_handle`,
`history_handle` what it leaves of each part.  Later results use these and the equations for the
other calls, and never look into the registry.

A message in the queue stands for a request: `enqueue_eq` and `processOne_eq` are the two functions
in these terms, and `request_message` says that the message of a request stands for it, whatever was
indeterminate in it.
-/

namespace Exchange

open OrderBook (after)

namespace Request

/-- The symbol whose book is looked up. -/
def symbol : Request → Symbol
  | .order o => o.symbol
  | .cancel s _ => s
  | .replace s _ _ _ => s

/-- The call of that book; what is indeterminate in its result is the caller's business. -/
def op : Request → OrderBook.Op
  | .order o => .add o
  | .cancel _ orderId => .cancel orderId
  | .replace _ orderId newPrice newQty => .replace {} orderId newPrice newQty

/-- What that call returns. -/
def answer (uninit : OrderResult) (b : OrderBook) : Request → OrderResult
  | .order o => (b.addOrder o).1
  | .cancel _ orderId => (b.cancelOrder orderId).1
  | .replace _ orderId newPrice newQty => (b.replaceOrder uninit orderId newPrice newQty).1

/-- The message for a request. -/
def message (uninit : InboundMessage) : Request → InboundMessage
  | .order o => { uninit with type := .NewOrder, order := o }
  | .cancel symbol orderId => { uninit with type := .CancelOrder, orderId, symbol }
  | .replace symbol orderId newPrice newQty =>
      { uninit with type := .ReplaceOrder, orderId, symbol, newPrice, newQty }

end Request

/-- The request a message stands for. -/
def InboundMessage.request (msg : InboundMessage) : Request :=
  match msg.type with
  | .NewOrder => .order msg.order
  | .CancelOrder => .cancel msg.symbol msg.orderId
  | .ReplaceOrder => .replace msg.symbol msg.orderId msg.newPrice msg.newQty

/-- **No request is misread.** -/
@[simp] theorem request_message (uninit : InboundMessage) (r : Request) :
    (r.message uninit).request = r := by
  cases r <;> rfl

namespace EngineStats

/-- The first line of `submit_order`. -/
def receive (s : EngineStats) : Request → EngineStats
  | .order _ => { s with ordersReceived := s.ordersReceived + 1 }
  | .cancel _ _ | .replace _ _ _ _ => s

/-- What the engine counts when the book has answered. -/
def settle (s : EngineStats) (r : Request) (result : OrderResult) : EngineStats :=
  match r with
  | .order _ =>
      if result.success ∧ result.filledQty > 0 then
        { s with
          ordersMatched := s.ordersMatched + 1
          tradesExecuted := s.tradesExecuted + 1
          totalVolume := s.totalVolume + result.filledQty.toUInt64 }
      else s
  | .cancel _ _ =>
      if result.success then { s with ordersCancelled := s.ordersCancelled + 1 } else s
  | .replace _ _ _ _ => s

variable {s : EngineStats} {o : Order} {result : OrderResult}

lemma settle_order (h : result.success = true ∧ result.filledQty > 0) :
    s.settle (.order o) result = { s with
      ordersMatched := s.ordersMatched + 1
      tradesExecuted := s.tradesExecuted + 1
      totalVolume := s.totalVolume + result.filledQty.toUInt64 } := if_pos h

lemma settle_order_of_not (h : ¬ (result.success = true ∧ result.filledQty > 0)) :
    s.settle (.order o) result = s := if_neg h

lemma settle_cancel {symbol : Symbol} {id : OrderId} (h : result.success = true) :
    s.settle (.cancel symbol id) result = { s with ordersCancelled := s.ordersCancelled + 1 } :=
  if_pos h

lemma settle_cancel_of_not {symbol : Symbol} {id : OrderId} (h : ¬ result.success = true) :
    s.settle (.cancel symbol id) result = s := if_neg h

end EngineStats

/-- What is indeterminate in the result of a replace does not reach the book. -/
lemma OrderBook.snd_replaceOrder (b : OrderBook) (uninit : OrderResult) (id : OrderId)
    (newPrice : Price) (newQty : Quantity) :
    (b.replaceOrder uninit id newPrice newQty).2 = (b.replaceOrder {} id newPrice newQty).2 := by
  rcases replace_ways b.store id newPrice with
    hmissing | ⟨existing, ho, hmoved⟩ | ⟨existing, level, hin⟩
  · rw [replaceOrder_of_none hmissing, replaceOrder_of_none hmissing]
  · rw [replaceOrder_of_moved ho hmoved, replaceOrder_of_moved ho hmoved]
  · rw [replaceOrder_of_inPlace hin, replaceOrder_of_inPlace hin]

namespace MatchingEngine

variable {e : MatchingEngine} {r : Request}

/-! ## Requests -/

theorem handle_of_none (h : e.getBook r.symbol = none) (uninit : OrderResult) :
    e.handle uninit r = (unknownSymbol uninit, { e with stats := e.stats.receive r }) := by
  cases r with
  | order order =>
      have h' : ({ e with stats.ordersReceived := e.stats.ordersReceived + 1 } :
        MatchingEngine).getBook order.symbol = none := h
      simp only [handle, submitOrder, h']
      rfl
  | cancel symbol id =>
      have h' : e.getBook symbol = none := h
      simp only [handle, cancelOrder, h']
      rfl
  | replace symbol id newPrice newQty =>
      have h' : e.getBook symbol = none := h
      simp only [handle, replaceOrder, h']
      rfl

theorem handle_of_some {a : Nat} {b : OrderBook} (h : e.getBook r.symbol = some (a, b))
    (uninit : OrderResult) :
    e.handle uninit r = (r.answer uninit b,
      { e.update a b (b.apply r.op) with
        stats := (e.stats.receive r).settle r (r.answer uninit b) }) := by
  cases r with
  | order order =>
      have h' : ({ e with stats.ordersReceived := e.stats.ordersReceived + 1 } :
        MatchingEngine).getBook order.symbol = some (a, b) := h
      by_cases hcount : (b.addOrder order).1.success = true ∧ (b.addOrder order).1.filledQty > 0
      · rw [Request.answer, EngineStats.settle_order hcount]
        simp only [handle, submitOrder, h', if_pos hcount, if_pos hcount.2]
        rfl
      · rw [Request.answer, EngineStats.settle_order_of_not hcount]
        simp only [handle, submitOrder, h', if_neg hcount]
        rfl
  | cancel symbol id =>
      have h' : e.getBook symbol = some (a, b) := h
      by_cases hok : (b.cancelOrder id).1.success = true
      · rw [Request.answer, EngineStats.settle_cancel hok]
        simp only [handle, cancelOrder, h', if_pos hok]
        rfl
      · rw [Request.answer, EngineStats.settle_cancel_of_not hok]
        simp only [handle, cancelOrder, h', if_neg hok]
        rfl
  | replace symbol id newPrice newQty =>
      have h' : e.getBook symbol = some (a, b) := h
      simp only [handle, replaceOrder, h', OrderBook.snd_replaceOrder b uninit]
      rfl

lemma exists_getBook {b : OrderBook} {symbol : Symbol} (h : e.book? symbol = some b) :
    ∃ a, e.getBook symbol = some (a, b) := Registry.get?_eq_some_iff.mp h

lemma getBook_eq_none {symbol : Symbol} (h : e.book? symbol = none) : e.getBook symbol = none :=
  Registry.get?_eq_none_iff.mp h

/-- **A request concerns the book of its symbol.** -/
theorem book?_handle (e : MatchingEngine) (uninit : OrderResult) (r : Request) (symbol : Symbol) :
    (e.handle uninit r).2.book? symbol
      = if symbol = r.symbol then (e.book? symbol).map (·.apply r.op) else e.book? symbol := by
  cases hb : e.book? r.symbol with
  | none =>
      rw [handle_of_none (getBook_eq_none hb)]
      split_ifs with hs
      · rw [hs, hb]
        exact hb
      · rfl
  | some b =>
      obtain ⟨a, ha⟩ := exists_getBook hb
      rw [handle_of_some ha]
      refine (Registry.get?_modify ha (fun _ => b.apply r.op) symbol).trans ?_
      split_ifs with hs
      · rw [hs, hb]
        rfl
      · rfl

/-- What the caller gets. -/
theorem fst_handle (e : MatchingEngine) (uninit : OrderResult) (r : Request) :
    (e.handle uninit r).1
      = (e.book? r.symbol).elim (unknownSymbol uninit) fun b => r.answer uninit b := by
  cases hb : e.book? r.symbol with
  | none =>
      rw [handle_of_none (getBook_eq_none hb)]
      rfl
  | some b =>
      obtain ⟨a, ha⟩ := exists_getBook hb
      rw [handle_of_some ha]
      rfl

/-- What the engine counts. -/
theorem stats_handle (e : MatchingEngine) (uninit : OrderResult) (r : Request) :
    (e.handle uninit r).2.stats = (e.book? r.symbol).elim (e.stats.receive r) fun b =>
      (e.stats.receive r).settle r (r.answer uninit b) := by
  cases hb : e.book? r.symbol with
  | none =>
      rw [handle_of_none (getBook_eq_none hb)]
      rfl
  | some b =>
      obtain ⟨a, ha⟩ := exists_getBook hb
      rw [handle_of_some ha]
      rfl

/-- What is announced. -/
theorem history_handle (e : MatchingEngine) (uninit : OrderResult) (r : Request) :
    (e.handle uninit r).2.history
      = (e.book? r.symbol).elim e.history fun b => e.history.record b (b.apply r.op) := by
  cases hb : e.book? r.symbol with
  | none =>
      rw [handle_of_none (getBook_eq_none hb)]
      rfl
  | some b =>
      obtain ⟨a, ha⟩ := exists_getBook hb
      rw [handle_of_some ha]
      rfl

theorem inboundQueue_handle (e : MatchingEngine) (uninit : OrderResult) (r : Request) :
    (e.handle uninit r).2.inboundQueue = e.inboundQueue := by
  cases hb : e.book? r.symbol with
  | none => rw [handle_of_none (getBook_eq_none hb)]
  | some b =>
      obtain ⟨a, ha⟩ := exists_getBook hb
      rw [handle_of_some ha]
      rfl

/-! ## Symbols and callbacks -/

theorem book?_addSymbol (e : MatchingEngine) (symbol symbol' : Symbol) :
    (e.addSymbol symbol).book? symbol' = if symbol' = symbol then
      some (.new symbol e.bookConfig e.tradeCallback e.executionCallback false
        (e.clocks e.books.fresh))
    else e.book? symbol' := Registry.get?_add _ _ _ _

/-- Adding symbols touches nothing but the books. -/
lemma foldl_addSymbol_eq (e : MatchingEngine) (symbols : List Symbol) :
    symbols.foldl addSymbol e = { e with books := (symbols.foldl addSymbol e).books } := by
  induction symbols generalizing e with
  | nil => rfl
  | cons symbol symbols ih =>
      rw [List.foldl_cons, ih (e.addSymbol symbol)]
      rfl

lemma book?_foldl_addSymbol (e : MatchingEngine) (symbols : List Symbol) (symbol : Symbol) :
    ∃ clock, (symbols.foldl addSymbol e).book? symbol = if symbol ∈ symbols then
      some (.new symbol e.bookConfig e.tradeCallback e.executionCallback false clock)
    else e.book? symbol := by
  induction symbols generalizing e with
  | nil => exact ⟨fun _ => 0, by simp⟩
  | cons added symbols ih =>
      obtain ⟨clock, hclock⟩ := ih (e.addSymbol added)
      rw [List.foldl_cons, hclock, book?_addSymbol]
      by_cases hlater : symbol ∈ symbols
      · exact ⟨clock, by rw [if_pos hlater, if_pos (List.mem_cons_of_mem _ hlater)]; rfl⟩
      · by_cases hhere : symbol = added
        · subst hhere
          exact ⟨_, by rw [if_neg hlater, if_pos rfl, if_pos List.mem_cons_self]⟩
        · exact ⟨clock, by
            rw [if_neg hlater, if_neg hhere, if_neg (by simp [hhere, hlater])]⟩

/-- **A new engine has a new book for each of its symbols.** -/
theorem book?_start (config : OrderBookConfig) (onTrade onExecution : Bool)
    (clocks : Nat → Stream' Timestamp) (symbols : List Symbol) (symbol : Symbol) :
    ∃ clock, (start config onTrade onExecution clocks symbols).book? symbol
      = if symbol ∈ symbols then some (.new symbol config onTrade onExecution false clock)
        else none := book?_foldl_addSymbol _ symbols symbol

theorem book?_setTradeCallback (e : MatchingEngine) (registered : Bool) (symbol : Symbol) :
    (e.setTradeCallback registered).book? symbol
      = (e.book? symbol).map fun b => b.setTradeCallback registered := Registry.get?_forEach _ _ _

theorem book?_setExecutionCallback (e : MatchingEngine) (registered : Bool) (symbol : Symbol) :
    (e.setExecutionCallback registered).book? symbol
      = (e.book? symbol).map fun b => b.setExecutionCallback registered :=
  Registry.get?_forEach _ _ _

/-! ## The queue -/

theorem enqueue_eq (e : MatchingEngine) (uninit : InboundMessage) (r : Request) :
    e.enqueue uninit r = e.push (r.message uninit) := by
  cases r <;> rfl

theorem processOne_eq (e : MatchingEngine) :
    e.processOne
      = match e.inboundQueue.tryPop inboundCapacity with
        | (none, queue) => (false, { e with inboundQueue := queue })
        | (some msg, queue) =>
            (true, (({ e with
              inboundQueue := queue
              stats.messagesProcessed := e.stats.messagesProcessed + 1 } :
                MatchingEngine).handle {} msg.request).2) := by
  rw [processOne]
  cases hpop : e.inboundQueue.tryPop inboundCapacity with
  | mk popped queue =>
      cases popped with
      | none => rfl
      | some msg =>
          simp only [InboundMessage.request]
          cases msg.type <;> rfl

/-! ## Every book -/

/-- Every book satisfies `I`. -/
def AllBooks (I : OrderBook → Prop) (e : MatchingEngine) : Prop :=
  ∀ symbol b, e.book? symbol = some b → I b

/-- What new books have, and calls and the registration of callbacks keep. -/
structure BookInvariant (I : OrderBook → Prop) : Prop where
  new : ∀ symbol config onTrade onExecution clock,
    I (.new symbol config onTrade onExecution false clock)
  apply : ∀ {b : OrderBook} (op : OrderBook.Op), I b → I (b.apply op)
  setTradeCallback : ∀ {b : OrderBook} (registered : Bool), I b → I (b.setTradeCallback registered)
  setExecutionCallback : ∀ {b : OrderBook} (registered : Bool),
    I b → I (b.setExecutionCallback registered)

variable {I : OrderBook → Prop}

lemma AllBooks.congr {e' : MatchingEngine} (h : e.AllBooks I)
    (hbooks : ∀ symbol, e'.book? symbol = e.book? symbol) : e'.AllBooks I :=
  fun symbol b hb => h symbol b (by rw [← hbooks, hb])

lemma AllBooks.map {e' : MatchingEngine} {f : OrderBook → OrderBook} (h : e.AllBooks I)
    (hbooks : ∀ symbol, e'.book? symbol = (e.book? symbol).map f) (hf : ∀ b, I b → I (f b)) :
    e'.AllBooks I := by
  intro symbol b hb
  rw [hbooks] at hb
  obtain ⟨b', hb', rfl⟩ := Option.map_eq_some_iff.mp hb
  exact hf b' (h symbol b' hb')

lemma AllBooks.handle (h : e.AllBooks I) (hstep : ∀ b, I b → I (b.apply r.op))
    (uninit : OrderResult) : (e.handle uninit r).2.AllBooks I := by
  intro symbol b hb
  rw [book?_handle] at hb
  split_ifs at hb
  · obtain ⟨b', hb', rfl⟩ := Option.map_eq_some_iff.mp hb
    exact hstep b' (h symbol b' hb')
  · exact h symbol b hb

lemma AllBooks.processOne (h : e.AllBooks I) (hstep : ∀ b op, I b → I (OrderBook.apply b op)) :
    e.processOne.2.AllBooks I := by
  rw [processOne_eq]
  cases e.inboundQueue.tryPop inboundCapacity with
  | mk popped queue =>
      cases popped with
      | none => exact h
      | some msg =>
          have hpopped : ({ e with
              inboundQueue := queue
              stats.messagesProcessed := e.stats.messagesProcessed + 1 } :
                MatchingEngine).AllBooks I := h
          exact hpopped.handle (fun b => hstep b _) {}

lemma AllBooks.processQueue (h : e.AllBooks I) (hstep : ∀ b op, I b → I (OrderBook.apply b op)) :
    e.processQueue.2.AllBooks I := by
  refine Loop.run_invariant (I := fun s : Nat × MatchingEngine => s.2.AllBooks I) ?_ ?_ _ h
  all_goals
    intro s s' hs hround
    have hnext := hs.processOne hstep
    rw [processStep] at hround
    generalize s.2.processOne = popped at hround hnext
    obtain ⟨_ | _, e'⟩ := popped
    all_goals
      cases hround
      try exact hnext

/-- By way of the general equation, and pair by pair: reduction would run the loop. -/
lemma apply_processQueue (e : MatchingEngine) : e.apply .processQueue = e.processQueue.2 := by
  refine (MatchingEngine.apply.eq_def e .processQueue).trans ?_
  cases e.processQueue with
  | mk n e' => rfl

theorem AllBooks.apply (h : e.AllBooks I) (hI : BookInvariant I) (op : Op) :
    (e.apply op).AllBooks I := by
  have hstep : ∀ b op, I b → I (OrderBook.apply b op) := fun _ op hb => hI.apply op hb
  cases op with
  | addSymbol symbol =>
      intro symbol' b hb
      have hb : (e.addSymbol symbol).book? symbol' = some b := hb
      rw [book?_addSymbol] at hb
      split_ifs at hb
      · cases hb
        exact hI.new _ _ _ _ _
      · exact h symbol' b hb
  | setTradeCallback registered =>
      exact h.map (book?_setTradeCallback e registered) fun _ => hI.setTradeCallback registered
  | setExecutionCallback registered =>
      exact h.map (book?_setExecutionCallback e registered) fun _ =>
        hI.setExecutionCallback registered
  | resetStats => exact h.congr fun _ => rfl
  | direct uninit r => exact h.handle (fun b => hstep b _) uninit
  | enqueue uninit r =>
      refine h.congr fun _ => ?_
      show (e.enqueue uninit r).2.book? _ = _
      rw [enqueue_eq]
      rfl
  | processOne => exact h.processOne hstep
  | processQueue =>
      rw [apply_processQueue]
      exact h.processQueue hstep

lemma allBooks_start (hI : BookInvariant I) (config : OrderBookConfig) (onTrade onExecution : Bool)
    (clocks : Nat → Stream' Timestamp) (symbols : List Symbol) :
    (start config onTrade onExecution clocks symbols).AllBooks I := by
  intro symbol b hb
  obtain ⟨clock, hbook⟩ := book?_start config onTrade onExecution clocks symbols symbol
  rw [hbook] at hb
  split_ifs at hb
  cases hb
  exact hI.new _ _ _ _ _

/-- **What holds of books in runs of their own holds of the books of an engine.** -/
theorem allBooks_run (hI : BookInvariant I) (config : OrderBookConfig) (onTrade onExecution : Bool)
    (clocks : Nat → Stream' Timestamp) (symbols : List Symbol) (ops : List Op) :
    (Run.run apply (start config onTrade onExecution clocks symbols) ops).AllBooks I :=
  Run.Admitted.invariant (I := fun e => AllBooks I e) (fun _ op h _ => h.apply hI op)
    (Run.admitted_trivial _ ops) (allBooks_start hI config onTrade onExecution clocks symbols)

end MatchingEngine

end Exchange
