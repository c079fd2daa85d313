import Exchange.Engine.Requests
import Exchange.OrderBook.Resting

/-!
# How long an order is in the engine

Whatever is done to an engine, other than replaces, an order that rests in the book of a symbol
stays there until trades complete it or it is cancelled, unless its book is replaced by a new one:
`add_symbol` does not look whether the symbol is known.  As symbols are cut to seven characters,
this can be a symbol of another name.

**`never_loses_iff`** — no order is lost exactly if no symbol is added whose book holds one.
-/

namespace Exchange

/-- The request is a replace. -/
def Request.IsReplace : Request → Prop
  | .replace _ _ _ _ => True
  | .order _ | .cancel _ _ => False

lemma Request.noReplace_op {r : Request} (h : ¬ r.IsReplace) (b : OrderBook) :
    OrderBook.NoReplace b r.op := by
  cases r with
  | replace => exact absurd trivial h
  | _ => trivial

namespace MatchingEngine

open OrderBook

/-- What is done to an engine, replaces apart. -/
inductive EngineOp
  | addSymbol (symbol : Symbol)
  | setTradeCallback (registered : Bool)
  | setExecutionCallback (registered : Bool)
  | request (q : RequestOp) (noReplace : q.Asks fun r => ¬ r.IsReplace)

def engineStep (e : MatchingEngine) : EngineOp → MatchingEngine
  | .addSymbol symbol => e.addSymbol symbol
  | .setTradeCallback registered => e.setTradeCallback registered
  | .setExecutionCallback registered => e.setExecutionCallback registered
  | .request q _ => e.requestStep q

/-- An order, under its id, in the book of a symbol. -/
structure Placed where
  symbol : Symbol
  id : OrderId
  order : Order

/-- `get_book` leads to a book in which the order rests, as it was or with more filled of it. -/
def Rests (x : Placed) (e : MatchingEngine) : Prop :=
  ∃ b, e.book? x.symbol = some b ∧ b.RestsAs x.id x.order

/-- The call makes a request that completes the order by trades, or cancels it successfully. -/
def Ends (x : Placed) (e : MatchingEngine) : EngineOp → Prop
  | .request q _ => ∃ r b, e.made q = some r ∧ r.symbol = x.symbol ∧ e.book? x.symbol = some b ∧
      OrderBook.Ended b r.op x.id
  | .addSymbol _ | .setTradeCallback _ | .setExecutionCallback _ => False

/-- No symbol is added whose book holds an order. -/
def KeepsBooks (e : MatchingEngine) : EngineOp → Prop
  | .addSymbol symbol => ∀ b, e.book? symbol = some b →
      ∀ (id : OrderId), b.store.orders[id]? = none
  | .setTradeCallback _ | .setExecutionCallback _ | .request _ _ => True

/-- The books agree with themselves, and no replace waits in the queue. -/
structure Tidy (e : MatchingEngine) : Prop where
  agrees : ∀ symbol b, e.book? symbol = some b → b.store.Agrees
  noReplace : e.WaitingAll fun r => ¬ r.IsReplace

variable {e : MatchingEngine} {x : Placed}

/-! ## One request -/

lemma Tidy.request (h : e.Tidy) {q : RequestOp} (hq : q.Asks fun r => ¬ r.IsReplace) :
    (e.requestStep q).Tidy := by
  refine ⟨fun symbol b hb => ?_, h.noReplace.step hq⟩
  have hbooks := (atRequest_eq e q).1
  rcases requestStep_eq e q with ⟨r, uninit, hmade, hstep⟩ | ⟨-, hstep⟩
  · rw [hstep, book?_handle, hbooks] at hb
    split_ifs at hb
    · obtain ⟨b', hb', rfl⟩ := Option.map_eq_some_iff.mp hb
      have hr := (h.noReplace.atRequest hq).1 r hmade
      exact agrees_calls.step (h.agrees _ _ hb')
        (Request.noReplace_op hr b').movesPrice.unfilledInPlace
    · exact h.agrees _ _ hb
  · rw [hstep, hbooks] at hb
    exact h.agrees _ _ hb

/-- A request loses no order. -/
lemma Rests.request (hrests : Rests x e) (h : e.Tidy) {q : RequestOp}
    (hq : q.Asks fun r => ¬ r.IsReplace) :
    Rests x (e.requestStep q) ∨ Ends x e (.request q hq) := by
  obtain ⟨b, hb, hbook⟩ := hrests
  have hbooks := (atRequest_eq e q).1
  rcases requestStep_eq e q with ⟨r, uninit, hmade, hstep⟩ | ⟨-, hstep⟩
  · by_cases hsymbol : x.symbol = r.symbol
    · have hr := (h.noReplace.atRequest hq).1 r hmade
      refine (hbook.apply (h.agrees _ _ hb) (Request.noReplace_op hr b)).imp (fun hnext => ?_)
        fun hended => ⟨r, b, hmade, hsymbol.symm, hb, hended⟩
      refine ⟨b.apply r.op, ?_, hnext⟩
      rw [hstep, book?_handle, if_pos hsymbol, hbooks, hb]
      rfl
    · refine Or.inl ⟨b, ?_, hbook⟩
      rw [hstep, book?_handle, if_neg hsymbol, hbooks, hb]
  · refine Or.inl ⟨b, ?_, hbook⟩
    rw [hstep, hbooks, hb]

/-! ## Symbols and callbacks -/

lemma Tidy.addSymbol (h : e.Tidy) (symbol : Symbol) : (e.addSymbol symbol).Tidy := by
  refine ⟨fun symbol' b hb => ?_, h.noReplace.congr rfl⟩
  rw [book?_addSymbol] at hb
  split_ifs at hb
  · cases hb
    exact Store.Agrees.empty
  · exact h.agrees _ _ hb

lemma Rests.addSymbol (hrests : Rests x e) {symbol : Symbol}
    (hkeeps : e.KeepsBooks (.addSymbol symbol)) : Rests x (e.addSymbol symbol) := by
  obtain ⟨b, hb, o', ho', hlater⟩ := hrests
  refine ⟨b, ?_, o', ho', hlater⟩
  rw [book?_addSymbol, if_neg ?_, hb]
  intro hsymbol
  rw [hkeeps b (hsymbol ▸ hb)] at ho'
  cases ho'

section Callbacks

variable {e' : MatchingEngine} {f : OrderBook → OrderBook}
  (hbooks : ∀ symbol, e'.book? symbol = (e.book? symbol).map f)
  (hf : ∀ b, (f b).store = b.store)

include hbooks hf

lemma Tidy.map (h : e.Tidy) (hqueue : e'.inboundQueue = e.inboundQueue) : e'.Tidy := by
  refine ⟨fun symbol b hb => ?_, h.noReplace.congr hqueue⟩
  rw [hbooks] at hb
  obtain ⟨b', hb', rfl⟩ := Option.map_eq_some_iff.mp hb
  rw [hf]
  exact h.agrees _ _ hb'

lemma Rests.map (hrests : Rests x e) : Rests x e' := by
  obtain ⟨b, hb, o', ho', hlater⟩ := hrests
  exact ⟨f b, by rw [hbooks, hb]; rfl, o', by rw [hf, ho'], hlater⟩

end Callbacks

/-! ## Runs -/

/-- The step lemmas. -/
lemma Tidy.step (h : e.Tidy) (op : EngineOp) : (e.engineStep op).Tidy := by
  cases op with
  | addSymbol symbol => exact h.addSymbol symbol
  | setTradeCallback registered =>
      exact h.map (book?_setTradeCallback e registered) (fun _ => rfl) rfl
  | setExecutionCallback registered =>
      exact h.map (book?_setExecutionCallback e registered) (fun _ => rfl) rfl
  | request q hq => exact h.request hq

lemma Rests.step (hrests : Rests x e) (h : e.Tidy) {op : EngineOp} (hop : e.KeepsBooks op) :
    Rests x (e.engineStep op) ∨ Ends x e op := by
  cases op with
  | addSymbol symbol => exact Or.inl (hrests.addSymbol hop)
  | setTradeCallback registered =>
      exact Or.inl (hrests.map (book?_setTradeCallback e registered) fun _ => rfl)
  | setExecutionCallback registered =>
      exact Or.inl (hrests.map (book?_setExecutionCallback e registered) fun _ => rfl)
  | request q hq => exact hrests.request h hq

/-- What a second `add_symbol` loses. -/
lemma exists_lost {op : EngineOp} (hop : ¬ e.KeepsBooks op) :
    ∃ x, Rests x e ∧ ¬ Rests x (e.engineStep op) ∧ ¬ Ends x e op := by
  cases op with
  | addSymbol symbol =>
      rw [KeepsBooks] at hop
      push Not at hop
      obtain ⟨b, hb, id, ho⟩ := hop
      obtain ⟨o, ho⟩ := Option.ne_none_iff_exists'.mp ho
      refine ⟨⟨symbol, id, o⟩, ⟨b, hb, o, ho, Order.Later.refl o⟩, ?_, not_false⟩
      rintro ⟨b', hb', o', ho', -⟩
      rw [engineStep, book?_addSymbol, if_pos rfl] at hb'
      cases hb'
      simp [OrderBook.new] at ho'
  | setTradeCallback | setExecutionCallback | request => exact absurd trivial hop

lemma tidy_start (config : OrderBookConfig) (onTrade onExecution : Bool)
    (clocks : Nat → Stream' Timestamp) (symbols : List Symbol) :
    (start config onTrade onExecution clocks symbols).Tidy := by
  refine ⟨fun symbol b hb => ?_, waitingAll_start config onTrade onExecution clocks symbols⟩
  obtain ⟨clock, hbook⟩ := book?_start config onTrade onExecution clocks symbols symbol
  rw [hbook] at hb
  split_ifs at hb
  cases hb
  exact Store.Agrees.empty

/-- **The engine loses no order** in a run without replaces, if and only if no symbol is added whose
book holds an order: otherwise an order that rests at one point is at every later one in the book
that `get_book` returns, with no more than its filled quantity changed, unless one of the calls in
between has traded the last of it or has cancelled it. -/
theorem never_loses_iff (config : OrderBookConfig) (onTrade onExecution : Bool)
    (clocks : Nat → Stream' Timestamp) (symbols : List Symbol) (ops : List EngineOp) :
    Run.Lasts engineStep Rests Ends (start config onTrade onExecution clocks symbols) ops ↔
      Run.Admitted engineStep KeepsBooks (start config onTrade onExecution clocks symbols) ops :=
  Run.lasts_iff_admitted (I := Tidy) (fun _ op h _ => h.step op)
    (fun _ _ _ h hop hrests => hrests.step h hop) (fun _ _ _ hop => exists_lost hop)
    (tidy_start config onTrade onExecution clocks symbols)

/-- `SYM1000` and `SYM10000`, as they are stored. -/
def collidingSymbols : Symbol × Symbol :=
  (.ofChars [83, 89, 77, 49, 48, 48, 48], .ofChars [83, 89, 77, 49, 48, 48, 48, 48])

/-- A bid, and then the other symbol is added. -/
def collidingAdd : List EngineOp :=
  [.addSymbol collidingSymbols.1,
    .request (.direct {} (.order
      { id := 1, price := 100, quantity := 10, side := .Buy, symbol := collidingSymbols.1 })) id,
    .addSymbol collidingSymbols.2]

/-- The bid is gone. -/
theorem colliding_symbol_loses :
    ¬ Run.Lasts engineStep Rests Ends (start {} true true (fun _ _ => 0) []) collidingAdd := by
  intro h
  have hbefore : (((Run.run engineStep (start {} true true (fun _ _ => 0) [])
      (collidingAdd.take 2)).book? collidingSymbols.1).bind
        (·.store.orders[(1 : OrderId)]?)).isSome = true := by decide +kernel
  have hafter : ((Run.run engineStep (start {} true true (fun _ _ => 0) [])
      collidingAdd).book? collidingSymbols.1).bind (·.store.orders[(1 : OrderId)]?) = none := by
    decide +kernel
  obtain ⟨o, ho⟩ := Option.isSome_iff_exists.mp hbefore
  obtain ⟨b, hb, ho⟩ := Option.bind_eq_some_iff.mp ho
  rcases h (collidingAdd.take 2) (collidingAdd.drop 2) [] rfl ⟨collidingSymbols.1, 1, o⟩
    ⟨b, hb, o, ho, Order.Later.refl o⟩ with ⟨b', hb', o', ho', -⟩ | ⟨done, a, todo, hsplit, hended⟩
  · have hnone := Option.bind_eq_none_iff.mp hafter b' hb'
    rw [ho'] at hnone
    cases hnone
  · cases done with
    | nil =>
        cases hsplit
        exact hended
    | cons _ done => simp [collidingAdd] at hsplit

end MatchingEngine

end Exchange
