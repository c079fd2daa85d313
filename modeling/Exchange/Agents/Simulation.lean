import Exchange.Agents.Identity
import Exchange.OrderBook.FairTrades

/-!
# The simulation

`main.cpp`: some agents for each symbol, which are all asked for their orders at every tick.  Nobody
calls `on_fill`, `on_trade` or `on_bbo`, so that no agent ever learns anything: market makers quote
around their default price with an empty inventory, momentum agents wait for prices, and noise
traders place their orders around the price they were created with.

* **`prices_stay`** — so whatever is drawn, nothing rests and nothing is traded more than 150 ticks
  away from that price, and what each agent will ask for next can be told from its kind.
-/

namespace Exchange

/-- `Config`; `verbose` decides about printing only. -/
structure SimulationConfig where
  numSymbols : Nat := 10
  numAgents : Nat := 100
  numTicks : Nat := 100000

namespace Simulation

open World (call)

/-! ## Setting up -/

/-- A number in decimal, filled up with zeros. -/
def padded (width n : Nat) : List UInt8 :=
  let digits := (Nat.toDigits 10 n).map fun c => c.toNat.toUInt8
  List.replicate (width - digits.length) 48 ++ digits

/-- `snprintf(name, sizeof(name), "SYM%04d", static_cast<int>(i))`. -/
def symbolName (i : Nat) : Symbol :=
  .ofChars ([83, 89, 77] ++ match (Int32.ofNat i).toInt with
    | .ofNat n => padded 4 n
    | .negSucc n => 45 :: padded 3 (n + 1))

example : symbolName 42 = .ofChars [83, 89, 77, 48, 48, 52, 50] := by decide

def symbols (config : SimulationConfig) : List Symbol :=
  (List.range config.numSymbols).map symbolName

/-- The agents of a symbol: market makers, momentum agents and noise traders.  `skew` and `side`
stand for what their configurations compute in floating point. -/
def agentsOf (config : SimulationConfig) (skew : Int64 → Price)
    (side : Option (Price × Price) → Option Side) (symbol : Symbol) : List AgentConfig :=
  List.replicate (config.numAgents / 5) (.marketMaker { symbol, skew }) ++
    List.replicate (config.numAgents / 5) (.momentum { symbol, side }) ++
      List.replicate (config.numAgents * 3 % 2 ^ 64 / 5) (.noise { symbol })

/-- The engine with its symbols, and then its trade callback. -/
def setUp (config : SimulationConfig) (skew : Int64 → Price)
    (side : Option (Price × Price) → Option Side) (clocks : Nat → Stream' Timestamp) : World where
  engine := (MatchingEngine.start {} false false clocks (symbols config)).setTradeCallback true
  agents := ((symbols config).flatMap (agentsOf config skew side)).map AgentConfig.create

/-! ## Ticks -/

/-- One round of the loop: all agents in turn, then the queue.  `draws i` is what agent `i`
draws. -/
def tick (draws : Nat → Draws) (w : World) : World :=
  let w := (List.range w.agents.length).foldl (fun w i => w.step (.tick i (draws i))) w
  { w with engine := w.engine.processQueue.2 }

def run (draws : Nat → Nat → Draws) (w : World) (numTicks : Nat) : World :=
  (List.range numTicks).foldl (fun w t => tick (draws t) w) w

/-- The simulation after `t` ticks and the turns of the first `k` agents in the next one;
`simulate` is the case of all ticks and no more turns. -/
def moment (draws : Nat → Nat → Draws) (w : World) (t k : Nat) : World :=
  (List.range k).foldl (fun w i => w.step (.tick i (draws t i))) (run draws w t)

/-- The simulation, when its last tick is over. -/
def simulate (config : SimulationConfig) (skew : Int64 → Price)
    (side : Option (Price × Price) → Option Side) (clocks : Nat → Stream' Timestamp)
    (draws : Nat → Nat → Draws) : World :=
  run draws (setUp config skew side clocks) config.numTicks

/-! ## What agents ask for -/

/-- What the two distributions of a noise trader give. -/
structure InRange (draws : Draws) : Prop where
  size_ge : 10 ≤ draws.size
  size_le : draws.size ≤ 100
  deviation_ge : -100 ≤ draws.deviation.toInt
  deviation_le : draws.deviation.toInt ≤ 100

/-- Within 150 ticks of the default price. -/
def Near (p : Price) : Prop := 999850 ≤ p.toInt ∧ p.toInt ≤ 1000150

/-- An agent that has been told nothing yet. -/
def Untold : AnyAgent → Prop
  | .marketMaker m => m.position = 0 ∧ m.lastMid = 0 ∧ m.config.skew 0 = 0 ∧
      m.config.halfSpread = 10 ∧ m.config.baseSize = 100 ∧ m.config.maxPosition = 1000
  | .momentum m => m.priceHistory = [] ∧ m.config.lookbackTicks = 100
  | .noise n => n.lastMid = 100 * priceScale ∧ n.config.maxDeviation = 100

/-- A day order of which nothing is filled. -/
structure Plain (o : Order) : Prop where
  unfilled : o.filledQty = 0
  tif_eq : o.tif = .Day

/-- The cancels of the last quotes of a market maker. -/
def withdrawals (m : MarketMaker) : List Request :=
  ([m.bidOrderId, m.askOrderId].filter (· > 0)).map (.cancel m.config.symbol)

/-- The two quotes of a market maker with the default price and no inventory. -/
def quotes (m : MarketMaker) : List Order :=
  [{ id := m.counter
     symbol := m.config.symbol
     side := .Buy
     price := 999990
     quantity := 100 },
    { id := m.counter + 1
      symbol := m.config.symbol
      side := .Sell
      price := 1000010
      quantity := 100 }]

/-- The price of a noise trader's limit order. -/
def deviated (draws : Draws) : Price :=
  match draws.side with
  | .Buy => 999950 + draws.deviation
  | .Sell => 1000050 + draws.deviation

/-- The order of a noise trader. -/
def noise (n : NoiseTrader) (draws : Draws) : Order where
  id := n.counter
  symbol := n.config.symbol
  side := draws.side
  price := if draws.isMarket then 0 else deviated draws
  quantity := draws.size
  type := if draws.isMarket then .Market else .Limit

/-- What such an agent asks for. -/
def asked (draws : Draws) : AnyAgent → List Request
  | .marketMaker m =>
      if draws.acts then withdrawals m ++ (quotes m).map .order else []
  | .momentum _ => []
  | .noise n => if draws.acts then [.order (noise n draws)] else []

variable {a : AnyAgent} {r : Request} {draws : Draws} {b : OrderBook}

lemma asked_marketMaker {m : MarketMaker} (h : Untold (.marketMaker m)) :
    (m.onTick draws).1 = asked draws (.marketMaker m) ∧
      Untold (.marketMaker (m.onTick draws).2) := by
  obtain ⟨hposition, hmid, hskew, hspread, hsize, hlimit⟩ := h
  rw [MarketMaker.onTick, asked]
  split_ifs with hacts
  · have hbid : (0 : Int64) < (1000 : Quantity).toUInt64.toInt64 := by decide
    have hask : (0 : Int64) > -(1000 : Quantity).toUInt64.toInt64 := by decide
    simp only [MarketMaker.updateQuotes, MarketMaker.computeFairValue, MarketMaker.quote, hmid,
      hposition, hskew, hspread, hsize, hlimit, if_true, if_pos hbid, if_pos hask]
    refine ⟨?_, rfl, rfl, hskew, hspread, hsize, hlimit⟩
    rw [withdrawals, List.append_assoc]
    congr 1
    by_cases hbidId : m.bidOrderId > 0 <;> by_cases haskId : m.askOrderId > 0 <;>
      simp only [List.filter, hbidId, haskId, decide_true, decide_false, if_true, if_false] <;> rfl
  · exact ⟨rfl, hposition, hmid, hskew, hspread, hsize, hlimit⟩

/-- A noise trader does not get to the least price. -/
lemma toInt_deviated (hdraws : InRange draws) : (deviated draws).toInt
    = (match draws.side with | .Buy => 999950 | .Sell => 1000050) + draws.deviation.toInt := by
  obtain ⟨-, -, hlow, hhigh⟩ := hdraws
  have hbuy : (999950 : Price).toInt = 999950 := by decide
  have hsell : (1000050 : Price).toInt = 1000050 := by decide
  rw [deviated]
  cases draws.side with
  | Buy => rw [Int64.toInt_add, hbuy, Int.bmod_eq_of_le (by omega) (by omega)]
  | Sell => rw [Int64.toInt_add, hsell, Int.bmod_eq_of_le (by omega) (by omega)]

lemma near_deviated (hdraws : InRange draws) : Near (deviated draws) := by
  have hprice := toInt_deviated hdraws
  obtain ⟨-, -, hlow, hhigh⟩ := hdraws
  rw [Near, hprice]
  cases draws.side with
  | Buy => dsimp only; omega
  | Sell => dsimp only; omega

lemma asked_noise {n : NoiseTrader} (h : Untold (.noise n)) (hdraws : InRange draws) :
    (n.onTick draws).1 = asked draws (.noise n) ∧ Untold (.noise (n.onTick draws).2) := by
  have hpos : ¬ deviated draws ≤ 0 := by
    rw [Int64.le_iff_toInt_le, Int64.toInt_zero]
    have hlow := (near_deviated hdraws).1
    omega
  have hprice : n.limitPrice draws = deviated draws := by
    rw [NoiseTrader.limitPrice, h.1, h.2]
    rw [deviated] at hpos ⊢
    cases hside : draws.side with
    | Buy =>
        rw [hside] at hpos
        exact if_neg hpos
    | Sell =>
        rw [hside] at hpos
        exact if_neg hpos
  rw [NoiseTrader.onTick, asked, hprice]
  cases draws.acts with
  | true => exact ⟨rfl, h⟩
  | false => exact ⟨rfl, h⟩

lemma onTick_momentum {m : MomentumAgent} (h : Untold (.momentum m)) :
    m.onTick draws = ([], m) := by
  obtain ⟨hhistory, hlookback⟩ := h
  rw [MomentumAgent.onTick, hhistory, hlookback, if_pos (by decide)]

/-- The step lemma of an agent. -/
theorem asked_onTick (h : Untold a) (hdraws : InRange draws) :
    (a.onTick draws).1 = asked draws a ∧ Untold (a.onTick draws).2 := by
  cases a with
  | marketMaker m => exact asked_marketMaker h
  | momentum m =>
      rw [AnyAgent.onTick, onTick_momentum h]
      exact ⟨rfl, h⟩
  | noise n => exact asked_noise h hdraws

/-! ## What becomes of it -/

/-- Nothing rests and nothing is traded away from the default price. -/
structure Calm (b : OrderBook) : Prop where
  priced : OrderBook.Priced Near b
  announced : OrderBook.Announced b

lemma Calm.near (h : Calm b) {t : Trade} (ht : t ∈ b.feed.trades) : Near t.price := by
  have hexecution : t.execution ∈ b.feed.trades.map Trade.execution := List.mem_map_of_mem ht
  rw [h.announced.executions_eq] at hexecution
  exact h.priced.traded _ hexecution

/-- No replace, and no order that could rest elsewhere. -/
def Usual : Request → Prop
  | .order o => Plain o ∧ (o.type = .Market ∨ o.type = .Limit ∧ Near o.price)
  | .cancel _ _ => True
  | .replace _ _ _ _ => False

lemma usual_of_mem_asked (hdraws : InRange draws) (hr : r ∈ asked draws a) : Usual r := by
  cases a with
  | marketMaker m =>
      rw [asked] at hr
      split_ifs at hr
      · rcases List.mem_append.mp hr with hcancel | hquote
        · obtain ⟨id, -, rfl⟩ := List.mem_map.mp hcancel
          trivial
        · obtain ⟨o, ho, rfl⟩ := List.mem_map.mp hquote
          rw [quotes, List.mem_pair] at ho
          have hbid : Near 999990 := ⟨by decide, by decide⟩
          have hask : Near 1000010 := ⟨by decide, by decide⟩
          obtain rfl | rfl := ho
          · exact ⟨⟨rfl, rfl⟩, .inr ⟨rfl, hbid⟩⟩
          · exact ⟨⟨rfl, rfl⟩, .inr ⟨rfl, hask⟩⟩
      · cases hr
  | momentum m => cases hr
  | noise n =>
      rw [asked] at hr
      split_ifs at hr
      · rw [List.mem_singleton.mp hr]
        refine ⟨⟨rfl, rfl⟩, ?_⟩
        rw [noise]
        cases draws.isMarket with
        | true => exact .inl rfl
        | false => exact .inr ⟨rfl, near_deviated hdraws⟩
      · cases hr

/-- The price of an order that may rest. -/
lemma near_of_restable {o : Order} (h : Usual (.order o)) (hkind : OrderBook.Restable o) :
    Near o.price := by
  refine (h.2.resolve_left fun hmarket => ?_).2
  rcases hkind.type_ok with htype | htype <;> rw [hmarket] at htype <;> cases htype

lemma Calm.apply (h : Calm b) (hr : Usual r) : Calm (b.apply r.op) := by
  have hok : OrderBook.GivesPrices Near b r.op := by
    cases r with
    | order o => exact ⟨trivial, near_of_restable hr⟩
    | cancel symbol id => exact ⟨trivial, trivial⟩
    | replace symbol id newPrice newQty => exact hr.elim
  exact ⟨(OrderBook.priced_calls Near).step h.priced hok,
    OrderBook.announced_calls.step h.announced trivial⟩

/-- What every tick keeps. -/
structure Unmoved (w : World) : Prop where
  untold : ∀ a ∈ w.agents, Untold a
  books : w.engine.AllBooks Calm
  queue : w.engine.inboundQueue = .empty
  trades : ∀ t ∈ w.engine.history.trades, Near t.price

variable {w : World} {i : Nat}

lemma engine_call (w : World) (i : Nat) (r : Request) :
    (call i w r).engine = (w.engine.handle {} r).2 := by
  cases r <;> rfl

lemma agents_call (w : World) (i : Nat) (r : Request) : (call i w r).agents = w.agents := by
  cases r <;> rfl

/-- The trades that a request adds are some of those of its book. -/
lemma mem_trades_handle {e : MatchingEngine} {uninit : OrderResult} {t : Trade}
    (ht : t ∈ (e.handle uninit r).2.history.trades) : t ∈ e.history.trades ∨
      ∃ b, e.book? r.symbol = some b ∧ t ∈ (b.apply r.op).feed.trades := by
  rw [MatchingEngine.history_handle] at ht
  cases hb : e.book? r.symbol with
  | none =>
      rw [hb] at ht
      exact .inl ht
  | some b =>
      rw [hb] at ht
      rcases List.mem_append.mp ht with hold | hnew
      · exact .inl hold
      · exact .inr ⟨b, rfl, List.mem_of_mem_drop hnew⟩

lemma Unmoved.call (h : Unmoved w) (hr : Usual r) : Unmoved (World.call i w r) where
  untold := by
    rw [agents_call]
    exact h.untold
  books := by
    rw [engine_call]
    exact h.books.handle (fun b hb => hb.apply hr) {}
  queue := by rw [engine_call, MatchingEngine.inboundQueue_handle, h.queue]
  trades t ht := by
    rw [engine_call] at ht
    rcases mem_trades_handle ht with hold | ⟨b, hb, hnew⟩
    · exact h.trades t hold
    · exact ((h.books _ b hb).apply hr).near hnew

/-- What every call of an agent keeps, and what does not read the agents. -/
structure Keeps (I : World → Prop) : Prop where
  call {w : World} {i : Nat} {r : Request} : Unmoved w → i < w.agents.length → Usual r → I w →
    I (World.call i w r)
  agents {w : World} (agents : List AnyAgent) : agents.length = w.agents.length → I w →
    I { w with agents }

variable {I : World → Prop}

lemma Keeps.calls (hI : Keeps I) (hi : i < w.agents.length) {rs : List Request}
    (hrs : ∀ r ∈ rs, Usual r) (h : Unmoved w ∧ I w) :
    Unmoved (rs.foldl (World.call i) w) ∧ I (rs.foldl (World.call i) w) := by
  induction rs generalizing w with
  | nil => exact h
  | cons r rs ih =>
      rw [List.forall_mem_cons] at hrs
      exact ih (by rwa [agents_call]) hrs.2 ⟨h.1.call hrs.1, hI.call h.1 hi hrs.1 h.2⟩

lemma agents_calls (w : World) (i : Nat) (rs : List Request) :
    (rs.foldl (World.call i) w).agents = w.agents := by
  induction rs generalizing w with
  | nil => rfl
  | cons r rs ih => exact (ih _).trans (agents_call w i r)

/-- An agent's turn. -/
lemma Keeps.step (hI : Keeps I) (hdraws : InRange draws) (h : Unmoved w ∧ I w) :
    Unmoved (w.step (.tick i draws)) ∧ I (w.step (.tick i draws)) := by
  rw [World.step]
  cases ha : w.agents[i]? with
  | none => exact h
  | some a =>
      obtain ⟨hrequests, hnext⟩ := asked_onTick (h.1.untold a (List.mem_of_getElem? ha)) hdraws
      have husual : ∀ r ∈ (a.onTick draws).1, Usual r := by
        rw [hrequests]
        exact fun r hr => usual_of_mem_asked hdraws hr
      obtain ⟨hcalls, hkept⟩ := hI.calls (List.getElem?_eq_some_iff.mp ha).1 husual h
      refine ⟨⟨fun a' ha' => ?_, hcalls.books, hcalls.queue, hcalls.trades⟩, ?_⟩
      · rcases List.mem_or_eq_of_mem_set ha' with hold | rfl
        · exact h.1.untold a' hold
        · exact hnext
      · exact hI.agents _ (by rw [List.length_set, agents_calls]) hkept

/-- There is nothing in the queue to process. -/
lemma processQueue_empty {e : MatchingEngine} (h : e.inboundQueue = .empty) :
    e.processQueue = (0, e) := by
  have hpop : e.inboundQueue.tryPop inboundCapacity = (none, e.inboundQueue) := by
    rw [h]
    rfl
  have hone : e.processOne = (false, e) := by
    rw [MatchingEngine.processOne_eq, hpop]
  refine Loop.run_succ_done ?_
  rw [MatchingEngine.processStep, hone]

lemma Unmoved.processQueue (h : Unmoved w) : w.engine.processQueue = (0, w.engine) :=
  processQueue_empty h.queue

/-- Some agents' turns. -/
lemma Keeps.turns {draws : Nat → Draws} (hI : Keeps I) (hdraws : ∀ i, InRange (draws i))
    (is : List Nat) (h : Unmoved w ∧ I w) :
    Unmoved (is.foldl (fun w i => w.step (.tick i (draws i))) w) ∧
      I (is.foldl (fun w i => w.step (.tick i (draws i))) w) := by
  induction is generalizing w with
  | nil => exact h
  | cons i is ih => exact ih (hI.step (hdraws i) h)

/-- The step lemma. -/
theorem Keeps.tick {draws : Nat → Draws} (hI : Keeps I) (hdraws : ∀ i, InRange (draws i))
    (h : Unmoved w ∧ I w) : Unmoved (tick draws w) ∧ I (tick draws w) := by
  have hend := hI.turns hdraws (List.range w.agents.length) h
  rw [Simulation.tick]
  rw [hend.1.processQueue]
  exact hend

theorem Keeps.run {draws : Nat → Nat → Draws} (hI : Keeps I) (hdraws : ∀ t i, InRange (draws t i))
    (h : Unmoved w ∧ I w) (numTicks : Nat) :
    Unmoved (Simulation.run draws w numTicks) ∧ I (Simulation.run draws w numTicks) := by
  induction numTicks with
  | zero => exact h
  | succ n ih =>
      rw [Simulation.run, List.range_succ, List.foldl_append]
      exact hI.tick (hdraws n) ih

/-! ## From the start -/

lemma untold_setUp (config : SimulationConfig) {skew : Int64 → Price} (hskew : skew 0 = 0)
    (side : Option (Price × Price) → Option Side) (clocks : Nat → Stream' Timestamp) :
    ∀ a ∈ (setUp config skew side clocks).agents, Untold a := by
  intro a ha
  obtain ⟨c, hc, rfl⟩ := List.mem_map.mp ha
  obtain ⟨symbol, -, hc⟩ := List.mem_flatMap.mp hc
  rw [agentsOf, List.mem_append, List.mem_append] at hc
  obtain (hc | hc) | hc := hc
  · rw [List.eq_of_mem_replicate hc]
    exact ⟨rfl, rfl, hskew, rfl, rfl, rfl⟩
  · rw [List.eq_of_mem_replicate hc]
    exact ⟨rfl, rfl⟩
  · rw [List.eq_of_mem_replicate hc]
    exact ⟨rfl, rfl⟩

/-- The books of the simulation are new ones that announce their trades. -/
lemma book?_setUp {config : SimulationConfig} {skew : Int64 → Price}
    {side : Option (Price × Price) → Option Side} {clocks : Nat → Stream' Timestamp}
    {symbol : Symbol} (hb : (setUp config skew side clocks).engine.book? symbol = some b) :
    ∃ clock, b = .new symbol {} true false false clock := by
  obtain ⟨clock, hbook⟩ :=
    MatchingEngine.book?_start {} false false clocks (symbols config) symbol
  have hb := (MatchingEngine.book?_setTradeCallback _ true symbol).symm.trans hb
  rw [hbook] at hb
  split_ifs at hb
  · cases hb
    exact ⟨clock, rfl⟩
  · cases hb

lemma unmoved_setUp (config : SimulationConfig) {skew : Int64 → Price} (hskew : skew 0 = 0)
    (side : Option (Price × Price) → Option Side) (clocks : Nat → Stream' Timestamp) :
    Unmoved (setUp config skew side clocks) where
  untold := untold_setUp config hskew side clocks
  books symbol b hb := by
    obtain ⟨clock, rfl⟩ := book?_setUp hb
    exact ⟨OrderBook.priced_new Near symbol {} true false false clock,
      OrderBook.announced_after symbol {} false false clock []⟩
  queue := by
    rw [setUp, MatchingEngine.start, MatchingEngine.foldl_addSymbol_eq]
    rfl
  trades t ht := by
    rw [setUp, MatchingEngine.start, MatchingEngine.foldl_addSymbol_eq] at ht
    cases ht

/-- **Prices stay where they were.**  However many symbols and agents there are, however long the
simulation has been running, whoever has had his turn and whatever has been drawn: no order rests
and no trade was made more than 150 ticks away from the default price.  What an agent asks for is
what it would have asked for at the start: a market maker that acts cancels its quotes and makes new
ones at 999990 and 1000010, a momentum agent does nothing, a noise trader that acts makes a market
order, or a limit order at 999950 or 1000050 plus the deviation.  The queue is never used. -/
theorem prices_stay (config : SimulationConfig) (skew : Int64 → Price) (hskew : skew 0 = 0)
    (side : Option (Price × Price) → Option Side) (clocks : Nat → Stream' Timestamp)
    (draws : Nat → Nat → Draws) (hdraws : ∀ t i, InRange (draws t i)) (t k : Nat) :
    let w := moment draws (setUp config skew side clocks) t k
    (∀ symbol b, w.engine.book? symbol = some b →
        ∀ (id : OrderId) (o : Order), b.store.orders[id]? = some o → Near o.price) ∧
      (∀ t ∈ w.engine.history.trades, Near t.price) ∧
      (∀ a ∈ w.agents, ∀ d, InRange d → (a.onTick d).1 = asked d a) ∧
      w.engine.inboundQueue = .empty := by
  intro w
  have hkeeps : Keeps fun _ => True := ⟨fun _ _ _ _ => trivial, fun _ _ _ => trivial⟩
  have hticks := hkeeps.run hdraws ⟨unmoved_setUp config hskew side clocks, trivial⟩ t
  have hend : Unmoved w := (hkeeps.turns (hdraws t) (List.range k) hticks).1
  exact ⟨fun symbol b hb id o ho => (hend.books symbol b hb).priced.resting id o ho, hend.trades,
    fun a ha d hd => (asked_onTick (hend.untold a ha) hd).1, hend.queue⟩

/-- Two symbols with ten agents each, after two ticks and thirteen turns. -/
theorem prices_stay_sample :
    let w := moment (fun t i => { acts := true, size := 50, deviation := if t = 1 then -70 else 9,
                                  isMarket := i == 7 })
      (setUp { numSymbols := 2, numAgents := 10 } (fun position => position * 1000) (fun _ => none)
        fun _ _ => 0) 2 13
    (∀ symbol b, w.engine.book? symbol = some b →
        ∀ (id : OrderId) (o : Order), b.store.orders[id]? = some o → Near o.price) ∧
      (∀ t ∈ w.engine.history.trades, Near t.price) ∧
      (∀ a ∈ w.agents, ∀ d, InRange d → (a.onTick d).1 = asked d a) ∧
      w.engine.inboundQueue = .empty :=
  prices_stay { numSymbols := 2, numAgents := 10 } (fun position => position * 1000)
    (by decide) _ _ _ (fun t _ => by
      constructor
      · exact (by decide : (10 : Quantity) ≤ 50)
      · exact (by decide : (50 : Quantity) ≤ 100)
      · dsimp only
        split_ifs <;> decide
      · dsimp only
        split_ifs <;> decide) 2 13

end Simulation

end Exchange
