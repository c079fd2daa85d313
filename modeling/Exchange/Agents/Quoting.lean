import Exchange.Agents.Identity

/-!
# A market maker's quotes

A market maker remembers the ids of its last two quotes and cancels both before it quotes again.
What it remembers may be long gone, or never have rested at all; but whatever rests of its own is
what it remembers (`Quoting`).

**`one_quote_per_side`** — so at most one buy order and one sell order of a market maker rest,
whatever it draws and whatever others do.
-/

namespace Exchange

namespace OrderBook

open MatchState

variable {b b' : OrderBook} {id : OrderId} {side : Side}

/-! ## Sides -/

/-- The side of the order that rests under an id. -/
def sideOf (b : OrderBook) (id : OrderId) : Option Side := (b.store.orders[id]?).map (·.side)

lemma sideOf_of_eq (h : b'.store.orders[id]? = b.store.orders[id]?) :
    b'.sideOf id = b.sideOf id := by
  rw [sideOf, sideOf, h]

lemma sideOf_quiet (h : Quiet b b') (id : OrderId) : b'.sideOf id = b.sideOf id :=
  sideOf_of_eq (by rw [h.store_eq])

/-- Matching leaves the orders that it leaves on their side. -/
lemma sideOf_matchOrder (b : OrderBook) (order : Order)
    (h : (b.matchOrder order).book.sideOf id = some side) : b.sideOf id = some side := by
  have hinv : MatchInvariant (fun m => m.book.sideOf id = some side → b.sideOf id = some side)
      fun _ m => m.book.sideOf id = some side → b.sideOf id = some side := by
    refine .of_uniform ?_ ?_ (fun _ h => h) ?_ ?_
    · intro m hm
      simpa [sideOf, refreshBest] using hm
    · intro p m level n rest hm _ _
      simpa [sideOf] using hm
    · intro p m level n rest resting hm hfill hside
      rw [sideOf, store_fillFront, getElem?_orders_fillStore] at hside
      by_cases hid : id = n.orderId
      · subst hid
        rw [if_pos rfl] at hside
        split_ifs at hside
        · cases hside
        · refine hm ?_
          rw [sideOf, hfill.order_eq]
          simpa using hside
      · rw [if_neg hid] at hside
        exact hm hside
    · intro p m level hm _ _
      simpa [sideOf] using hm
  exact hinv.matchOrder b order (fun h => h) h

/-- An order that rests after an add is the one added, or an older one; then the add has failed if
it was under the same id. -/
lemma sideOf_addOrder {order : Order} (h : (b.addOrder order).2.sideOf id = some side) :
    b.sideOf id = some side ∧ (id = order.id → (b.addOrder order).1.success = false) ∨
      id = order.id ∧ side = order.side ∧ (b.addOrder order).1.success = true := by
  have hnew : b.rejectReason order = none → b.sideOf id = some side → id ≠ order.id := by
    rintro hr hside rfl
    rw [sideOf, (rejectReason_eq_none_iff.mp hr).id_new] at hside
    cases hside
  have hcases := addOrder_cases b order
  revert h hcases
  generalize b.addOrder order = res
  intro h hcases
  cases hcases with
  | rejected _ _ hfail hquiet =>
      rw [sideOf_quiet hquiet] at h
      exact .inl ⟨h, fun _ => hfail⟩
  | killed _ _ _ hfail hquiet =>
      rw [sideOf_quiet hquiet] at h
      exact .inl ⟨sideOf_matchOrder b _ h, fun _ => hfail⟩
  | rested hr _ _ hok _ hquiet =>
      have htaker := matchOrder_sameTaker b (withMarketPrice order)
      have hrests : ((b.matchOrder (withMarketPrice order)).book.insertRestingOrder
          (b.matchOrder (withMarketPrice order)).order).store.orders[id]? = _ :=
        Store.getElem?_orders_insertRestingOrder _ _ id
      rw [sideOf_quiet hquiet, sideOf, hrests] at h
      split_ifs at h with hid
      · rw [htaker.id_eq, withMarketPrice_id] at hid
        rw [Option.map_some, htaker.side_eq, withMarketPrice_side, Option.some.injEq] at h
        exact .inr ⟨hid, h.symm, hok⟩
      · have hold := sideOf_matchOrder b _ h
        exact .inl ⟨hold, fun hid => absurd hid (hnew hr hold)⟩
  | passed hr _ _ _ _ hquiet =>
      rw [sideOf_quiet hquiet] at h
      have hold := sideOf_matchOrder b _ h
      exact .inl ⟨hold, fun hid => absurd hid (hnew hr hold)⟩

/-- A cancel leaves no order under its id. -/
lemma sideOf_cancelOrder {id' : OrderId} (h : (b.cancelOrder id').2.sideOf id = some side) :
    id ≠ id' ∧ b.sideOf id = some side := by
  cases ho : b.store.orders[id']? with
  | none =>
      rw [cancelOrder_of_none ho] at h
      refine ⟨?_, h⟩
      rintro rfl
      rw [sideOf, ho] at h
      cases h
  | some order =>
      have hrests : (b.store.cancelOrder id' order).orders[id]? = _ :=
        Store.getElem?_orders_cancelOrder b.store id' order id
      rw [cancelOrder_of_some ho, sideOf_quiet (Quiet.maybeEmitBbo _), sideOf, hrests] at h
      split_ifs at h with hid
      · cases h
      · exact ⟨hid, h⟩

/-- A replace puts an order in the place of another one of the same side. -/
lemma sideOf_replaceOrder {uninit : OrderResult} {id' : OrderId} {newPrice : Price}
    {newQty : Quantity} (h : (b.replaceOrder uninit id' newPrice newQty).2.sideOf id = some side) :
    b.sideOf id = some side := by
  cases replaceOrder_cases b uninit id' newPrice newQty with
  | missing _ _ hsame => rwa [hsame] at h
  | inPlace hin _ hquiet =>
      rw [sideOf_quiet hquiet, sideOf, amend, Store.getElem?_setOrder] at h
      split_ifs at h with hid
      · rw [sideOf, hid, hin.order_eq]
        exact h
      · rw [Store.orders_setLevel] at h
        exact h
  | @moved existing ho _ _ hbook =>
      rw [hbook] at h
      rcases sideOf_addOrder h with ⟨hold, -⟩ | ⟨hid, hside, -⟩
      · exact (sideOf_cancelOrder hold).2
      · have hid : id = id' := hid
        rw [sideOf, hid, ho]
        exact congrArg some hside.symm

end OrderBook

namespace World

variable {w : World} {i j : Nat} {symbol : Symbol} {side : Side} {id x : OrderId}

/-! ## Calls -/

/-- The side of the order that rests under an id in the book of the symbol. -/
def sideAt (w : World) (symbol : Symbol) (id : OrderId) : Option Side :=
  (w.engine.book? symbol).bind fun b => b.sideOf id

/-- The order that rests under the id is on that side, and agent `i` has submitted it. -/
structure Quotes (w : World) (i : Nat) (symbol : Symbol) (side : Side) (id : OrderId) : Prop where
  rests : w.sideAt symbol id = some side
  mine : w.owner symbol id = some i

lemma sideAt_call (w : World) (j : Nat) (r : Request) (symbol : Symbol) (id : OrderId) :
    (w.call j r).sideAt symbol id
      = if symbol = r.symbol then (w.engine.book? symbol).bind fun b => (b.apply r.op).sideOf id
        else w.sideAt symbol id := by
  rw [sideAt, book?_call]
  split_ifs
  · rw [Option.bind_map]
    rfl
  · rfl

lemma Quotes.of_order {o : Order} (h : (w.call j (.order o)).Quotes i symbol side id) :
    w.Quotes i symbol side id ∨ i = j ∧ id = o.id ∧ side = o.side := by
  obtain ⟨hside, howner⟩ := h
  have howner : (if symbol = o.symbol ∧ id = o.id ∧ (w.engine.handle {} (.order o)).1.success
      then some j else w.owner symbol id) = some i := howner
  rw [sideAt_call] at hside
  by_cases hsymbol : symbol = (Request.order o).symbol
  · rw [if_pos hsymbol] at hside
    obtain ⟨b, hb, hside⟩ := Option.bind_eq_some_iff.mp hside
    have hresult : (w.engine.handle {} (.order o)).1 = (b.addOrder o).1 := by
      rw [MatchingEngine.fst_handle, ← hsymbol, hb]
      rfl
    rw [hresult] at howner
    rcases OrderBook.sideOf_addOrder hside with ⟨hold, hfail⟩ | ⟨hid, hside', hok⟩
    · have hnot : ¬ (symbol = o.symbol ∧ id = o.id ∧ (b.addOrder o).1.success = true) := by
        rintro ⟨-, hid, hok⟩
        rw [hfail hid] at hok
        cases hok
      rw [if_neg hnot] at howner
      refine .inl ⟨?_, howner⟩
      rw [sideAt, hb]
      exact hold
    · rw [if_pos ⟨hsymbol, hid, hok⟩, Option.some.injEq] at howner
      exact .inr ⟨howner.symm, hid, hside'⟩
  · rw [if_neg hsymbol] at hside
    rw [if_neg fun h => hsymbol h.1] at howner
    exact .inl ⟨hside, howner⟩

lemma Quotes.of_cancel (h : (w.call j (.cancel symbol x)).Quotes i symbol side id) :
    id ≠ x ∧ w.Quotes i symbol side id := by
  obtain ⟨hside, howner⟩ := h
  rw [sideAt_call, if_pos (show symbol = (Request.cancel symbol x).symbol from rfl)] at hside
  obtain ⟨b, hb, hside⟩ := Option.bind_eq_some_iff.mp hside
  obtain ⟨hne, hold⟩ := OrderBook.sideOf_cancelOrder hside
  refine ⟨hne, ⟨?_, howner⟩⟩
  rw [sideAt, hb]
  exact hold

/-- What others ask for brings no order of agent `i` into the book. -/
lemma Quotes.of_other {r : Request} (hne : i ≠ j) (h : (w.call j r).Quotes i symbol side id) :
    w.Quotes i symbol side id := by
  cases r with
  | order o => exact h.of_order.resolve_right fun hown => hne hown.1
  | cancel symbol' x =>
      by_cases hsymbol : symbol = symbol'
      · subst hsymbol
        exact h.of_cancel.2
      · obtain ⟨hside, howner⟩ := h
        rw [sideAt_call, if_neg (show ¬ symbol = (Request.cancel symbol' x).symbol from hsymbol)]
          at hside
        exact ⟨hside, howner⟩
  | replace symbol' x newPrice newQty =>
      obtain ⟨hside, howner⟩ := h
      refine ⟨?_, howner⟩
      rw [sideAt_call] at hside
      split_ifs at hside
      · obtain ⟨b, hb, hside⟩ := Option.bind_eq_some_iff.mp hside
        rw [sideAt, hb]
        exact OrderBook.sideOf_replaceOrder hside
      · exact hside

/-! ## The market maker -/

/-- The remembered id of a side. -/
def quoteId (m : MarketMaker) : Side → OrderId
  | .Buy => m.bidOrderId
  | .Sell => m.askOrderId

/-- The cancel of a remembered id. -/
lemma Quotes.of_cancelQuote
    (h : ((if x > 0 then [.cancel symbol x] else []).foldl (call j) w).Quotes i symbol side id) :
    (id = x → id = 0) ∧ w.Quotes i symbol side id := by
  split_ifs at h with hx
  · obtain ⟨hne, hold⟩ := Quotes.of_cancel (j := j) h
    exact ⟨fun hid => absurd hid hne, hold⟩
  · refine ⟨?_, h⟩
    rintro rfl
    rw [← UInt64.toNat_inj]
    exact Nat.eq_zero_of_not_pos fun hpos => hx (UInt64.lt_iff_toNat_lt.mpr hpos)

lemma drawn_calls (w : World) (j : Nat) (rs : List Request) (i : Nat) :
    w.drawn i ≤ (rs.foldl (call j) w).drawn i := by
  induction rs generalizing w with
  | nil => exact Nat.le_refl _
  | cons r rs ih => exact Nat.le_trans (drawn_call w j r i) (ih (w.call j r))

/-- An agent's orders have ids that it has drawn. -/
def OwnDrawn (w : World) (i : Nat) (symbol : Symbol) : Prop :=
  ∀ id, w.owner symbol id = some i → ∃ k < w.drawn i, id = UInt64.ofNat (k + 1)

lemma OwnDrawn.ne_zero (h : w.OwnDrawn i symbol) (hdrawn : w.drawn i < 2 ^ 64)
    (howner : w.owner symbol id = some i) : id ≠ 0 := by
  obtain ⟨k, hk, rfl⟩ := h id howner
  intro hzero
  have hzero := congrArg UInt64.toNat hzero
  rw [UInt64.toNat_ofNat', Nat.mod_eq_of_lt (by omega)] at hzero
  exact absurd hzero (Nat.succ_ne_zero k)

lemma OwnDrawn.call (h : w.OwnDrawn i symbol) {r : Request}
    (hid : i = j → ∀ o, r = .order o → o.id = UInt64.ofNat (w.drawn i + 1)) :
    (w.call j r).OwnDrawn i symbol := by
  intro id howner
  have hold : w.owner symbol id = some i →
      ∃ k < (w.call j r).drawn i, id = UInt64.ofNat (k + 1) := by
    intro howner
    obtain ⟨k, hk, hkid⟩ := h id howner
    exact ⟨k, Nat.lt_of_lt_of_le hk (drawn_call w j r i), hkid⟩
  cases r with
  | order o =>
      have howner : (if symbol = o.symbol ∧ id = o.id ∧ (w.engine.handle {} (.order o)).1.success
          then some j else w.owner symbol id) = some i := howner
      split_ifs at howner with hnew
      · obtain rfl : j = i := Option.some.inj howner
        refine ⟨w.drawn j, ?_, hnew.2.1.trans (hid rfl o rfl)⟩
        simp [World.call]
      · exact hold howner
  | cancel | replace => exact hold howner

lemma OwnDrawn.calls {rs : List Request} {n n' : Nat} (hrs : Numbered n rs n')
    (h : w.OwnDrawn i symbol) (hdrawn : w.drawn i = n) :
    (rs.foldl (World.call i) w).OwnDrawn i symbol ∧ (rs.foldl (World.call i) w).drawn i = n' := by
  induction rs generalizing w n with
  | nil => exact ⟨h, hdrawn.trans hrs⟩
  | cons r rs ih =>
      obtain ⟨-, hid, hnext⟩ := hrs.cons hdrawn
      exact ih hnext (h.call fun _ => hid) rfl

/-- **After an update, what rests of the maker's own is what it remembers.** -/
theorem quotes_updateQuotes (m : MarketMaker)
    (hquotes : ∀ side id, w.Quotes i m.config.symbol side id → id = quoteId m side)
    (hne : ∀ id, w.owner m.config.symbol id = some i → id ≠ 0)
    (h : (m.updateQuotes.1.foldl (call i) w).Quotes i m.config.symbol side id) :
    id = quoteId m.updateQuotes.2 side := by
  -- both remembered quotes are cancelled, so that nothing is left of the maker's own
  have hgone : ∀ side id, ¬ ((if m.askOrderId > 0 then [.cancel m.config.symbol m.askOrderId]
      else []).foldl (call i) ((if m.bidOrderId > 0 then [.cancel m.config.symbol m.bidOrderId]
        else []).foldl (call i) w)).Quotes i m.config.symbol side id := by
    intro side id hleft
    obtain ⟨hask, hleft⟩ := hleft.of_cancelQuote
    obtain ⟨hbid, hleft⟩ := hleft.of_cancelQuote
    have hid := hquotes side id hleft
    cases side with
    | Buy => exact hne id hleft.mine (hbid hid)
    | Sell => exact hne id hleft.mine (hask hid)
  revert h
  simp only [MarketMaker.updateQuotes]
  generalize m.config.skew m.position = skew
  by_cases hbid : m.position < m.config.maxPosition.toUInt64.toInt64
  · by_cases hask : m.position > -m.config.maxPosition.toUInt64.toInt64
    · simp only [if_pos hbid, if_pos hask, List.foldl_append, List.foldl_cons, List.foldl_nil]
      intro h
      rcases h.of_order with h | ⟨-, rfl, rfl⟩
      · rcases h.of_order with h | ⟨-, rfl, rfl⟩
        · exact absurd h (hgone side id)
        · rfl
      · rfl
    · simp only [if_pos hbid, if_neg hask, List.foldl_append, List.foldl_cons, List.foldl_nil]
      intro h
      rcases h.of_order with h | ⟨-, rfl, rfl⟩
      · exact absurd h (hgone side id)
      · rfl
  · by_cases hask : m.position > -m.config.maxPosition.toUInt64.toInt64
    · simp only [if_neg hbid, if_pos hask, List.foldl_append, List.foldl_cons, List.foldl_nil]
      intro h
      rcases h.of_order with h | ⟨-, rfl, rfl⟩
      · exact absurd h (hgone side id)
      · rfl
    · simp only [if_neg hbid, if_neg hask, List.foldl_append, List.foldl_nil]
      exact fun h => absurd h (hgone side id)

/-! ## Runs -/

/-- What happens to a market maker and its engine. -/
inductive QuotingOp
  | tick (draws : Draws)
  | fill (report : ExecutionReport)
  | bbo (update : BBOUpdate)
  /-- somebody else asks for something -/
  | other (r : Request)

/-- The market maker is agent 0, everybody else agent 1. -/
def quotingStep (w : World) : QuotingOp → World
  | .tick draws => w.step (.tick 0 draws)
  | .fill report => w.step (.fill 0 report)
  | .bbo update => w.step (.bbo 0 update)
  | .other r => w.call 1 r

/-- At most one order on each side is the maker's. -/
def OneQuote (w : World) (symbol : Symbol) : Prop :=
  ∀ side id id', w.Quotes 0 symbol side id → w.Quotes 0 symbol side id' → id = id'

/-- What holds of a maker in a run. -/
structure Quoting (symbol : Symbol) (w : World) (m : MarketMaker) : Prop where
  agents_eq : w.agents = [.marketMaker m]
  symbol_eq : m.config.symbol = symbol
  drew : Drew m.toAgent (w.drawn 0)
  ownDrawn : w.OwnDrawn 0 symbol
  quotes : w.drawn 0 < 2 ^ 64 → ∀ side id, w.Quotes 0 symbol side id → id = quoteId m side

variable {m : MarketMaker}

lemma config_updateQuotes (m : MarketMaker) : m.updateQuotes.2.config = m.config := by
  simp only [MarketMaker.updateQuotes]
  split_ifs <;> rfl

/-- The step lemma. -/
lemma Quoting.step (h : Quoting symbol w m) (op : QuotingOp) :
    ∃ m', Quoting symbol (w.quotingStep op) m' := by
  obtain ⟨hagents, rfl, hdrew, hown, hquotes⟩ := h
  cases op with
  | fill report =>
      refine ⟨m.onFill report, ?_, rfl, hdrew, hown, fun hlt side id hrests => ?_⟩
      · show w.agents.modify 0 (·.onFill report) = _
        rw [hagents]
        rfl
      · rw [hquotes hlt side id ⟨hrests.rests, hrests.mine⟩]
        cases side <;> rfl
  | bbo update =>
      refine ⟨m.onBbo update, ?_, rfl, hdrew, hown, fun hlt side id hrests => ?_⟩
      · show w.agents.modify 0 (·.onBbo update) = _
        rw [hagents]
        rfl
      · rw [hquotes hlt side id ⟨hrests.rests, hrests.mine⟩]
        cases side <;> rfl
  | other r =>
      have hdrawn : (w.call 1 r).drawn 0 = w.drawn 0 := drawn_calls_of_ne Nat.zero_ne_one w [r]
      have hne : 0 ≠ 1 := Nat.zero_ne_one
      refine ⟨m, ?_, rfl, ?_, hown.call fun h => absurd h hne, fun hlt side id hrests => ?_⟩
      · rw [← hagents]
        cases r <;> rfl
      · show Drew m.toAgent ((w.call 1 r).drawn 0)
        rw [hdrawn]
        exact hdrew
      · rw [quotingStep, hdrawn] at hlt
        exact hquotes hlt side id (Quotes.of_other hne hrests)
  | tick draws =>
      have hagent : w.agents[0]? = some (.marketMaker m) := by rw [hagents]; rfl
      have hstep : w.quotingStep (.tick draws)
          = { (m.onTick draws).1.foldl (call 0) w with
              agents := [.marketMaker (m.onTick draws).2] } := by
        rw [quotingStep, World.step, hagent, hagents]
        rfl
      rw [hstep, MarketMaker.onTick]
      split_ifs with hacts
      · obtain ⟨n', hnumbered, hdrew'⟩ := updateQuotes_numbered m hdrew
        obtain ⟨hown', hdrawn⟩ := hown.calls hnumbered rfl
        refine ⟨m.updateQuotes.2, rfl, by rw [config_updateQuotes], ?_, hown',
          fun hlt side id hrests => ?_⟩
        · show Drew _ ((m.updateQuotes.1.foldl (call 0) w).drawn 0)
          rw [hdrawn]
          exact hdrew'
        · have hlt : (m.updateQuotes.1.foldl (call 0) w).drawn 0 < 2 ^ 64 := hlt
          have hle := drawn_calls w 0 m.updateQuotes.1 0
          exact quotes_updateQuotes m (hquotes (by omega))
            (fun id howner => hown.ne_zero (by omega) howner) ⟨hrests.rests, hrests.mine⟩
      · exact ⟨m, rfl, rfl, hdrew, hown, fun hlt side id hrests =>
          hquotes hlt side id ⟨hrests.rests, hrests.mine⟩⟩

/-- **One quote a side.**  A market maker that has drawn less than `2 ^ 64` ids has at most one
order on each side in the book of its symbol. -/
theorem one_quote_per_side (config : OrderBookConfig) (onTrade onExecution : Bool)
    (clocks : Nat → Stream' Timestamp) (symbols : List Symbol) (maker : MarketMakerConfig)
    (ops : List QuotingOp)
    (hdrawn : (Run.run quotingStep (start config onTrade onExecution clocks symbols
      [.marketMaker maker]) ops).drawn 0 < 2 ^ 64) :
    OneQuote (Run.run quotingStep
      (start config onTrade onExecution clocks symbols [.marketMaker maker]) ops) maker.symbol := by
  have hstart : Quoting maker.symbol
      (start config onTrade onExecution clocks symbols [.marketMaker maker]) { config := maker } :=
    { agents_eq := rfl
      symbol_eq := rfl
      drew := rfl
      ownDrawn := fun _ howner => absurd howner (Option.some_ne_none 0).symm
      quotes := fun _ _ _ hrests => absurd hrests.mine (Option.some_ne_none 0).symm }
  obtain ⟨m, hend⟩ := (Run.admitted_trivial _ ops).invariant
    (I := fun w => ∃ m, Quoting maker.symbol w m)
    (fun w op hw _ => hw.elim fun m hm => hm.step op) ⟨_, hstart⟩
  intro side id id' h h'
  rw [hend.quotes hdrawn side id h, hend.quotes hdrawn side id' h']

/-- The maker's bid is filled, and it quotes again. -/
theorem one_quote_after_fill :
    OneQuote (Run.run quotingStep
      (start {} true true (fun _ _ => 0) [.ofChars [65]]
        [.marketMaker { symbol := .ofChars [65], skew := fun _ => 0 }])
      [.tick { acts := true },
        .other (.order
          { id := 500, symbol := .ofChars [65], side := .Sell, price := 1, quantity := 40 }),
        .tick { acts := true }]) (.ofChars [65]) :=
  one_quote_per_side {} true true (fun _ _ => 0) [.ofChars [65]]
    { symbol := .ofChars [65], skew := fun _ => 0 } _ (by decide +kernel)

end World

end Exchange
