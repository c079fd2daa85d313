import Exchange.Agents.Quoting

/-!
# A market maker that withdraws

`MarketMaker::cancel_all`, which nothing calls, between the calls that are made.

**`withdraws`** — with it too at most one quote of the maker rests on a side, and from `cancel_all`
to its next tick none does, whatever others do.
-/

namespace Exchange

namespace World

variable {w : World} {m : MarketMaker} {symbol : Symbol} {side : Side} {id : OrderId} {i : Nat}

/-- What happens to a market maker that somebody may tell to withdraw. -/
inductive MakerOp
  | quoting (op : QuotingOp)
  | cancelAll

def makerStep (w : World) : MakerOp → World
  | .quoting op => w.quotingStep op
  | .cancelAll =>
      match w.agents[0]? with
      | some (AnyAgent.marketMaker m) =>
          let (requests, m) := m.cancelAll
          { requests.foldl (call 0) w with agents := w.agents.set 0 (.marketMaker m) }
      | _ => w

/-- Not a tick of the maker. -/
def MakerOp.Passive : MakerOp → Prop
  | .quoting (.tick _) => False
  | .quoting (.fill _) | .quoting (.bbo _) | .quoting (.other _) | .cancelAll => True

/-! ## Cancelling both quotes -/

/-- Both remembered quotes are cancelled. -/
lemma fst_cancelAll (m : MarketMaker) : m.cancelAll.1
    = (if m.bidOrderId > 0 then [.cancel m.config.symbol m.bidOrderId] else []) ++
      if m.askOrderId > 0 then [.cancel m.config.symbol m.askOrderId] else [] := by
  by_cases hbid : m.bidOrderId > 0 <;> by_cases hask : m.askOrderId > 0 <;>
    simp [MarketMaker.cancelAll, hbid, hask]

lemma config_cancelAll (m : MarketMaker) : m.cancelAll.2.config = m.config := by
  by_cases hbid : m.bidOrderId > 0 <;> by_cases hask : m.askOrderId > 0 <;>
    simp [MarketMaker.cancelAll, hbid, hask]

lemma toAgent_cancelAll (m : MarketMaker) : m.cancelAll.2.toAgent = m.toAgent := by
  by_cases hbid : m.bidOrderId > 0 <;> by_cases hask : m.askOrderId > 0 <;>
    simp [MarketMaker.cancelAll, hbid, hask]

/-- Cancels draw no id and submit nothing. -/
lemma drawn_cancelAll (w : World) (m : MarketMaker) :
    (m.cancelAll.1.foldl (call 0) w).drawn = w.drawn ∧
      (m.cancelAll.1.foldl (call 0) w).owner = w.owner := by
  rw [fst_cancelAll]
  split_ifs <;> exact ⟨rfl, rfl⟩

/-- **Nothing of the maker's own is left.** -/
theorem none_left (hquotes : ∀ side id, w.Quotes i m.config.symbol side id → id = quoteId m side)
    (hne : ∀ id, w.owner m.config.symbol id = some i → id ≠ 0) :
    ¬ (m.cancelAll.1.foldl (call i) w).Quotes i m.config.symbol side id := by
  intro hleft
  rw [fst_cancelAll, List.foldl_append] at hleft
  obtain ⟨hask, hleft⟩ := hleft.of_cancelQuote
  obtain ⟨hbid, hleft⟩ := hleft.of_cancelQuote
  have hid := hquotes side id hleft
  cases side with
  | Buy => exact hne id hleft.mine (hbid hid)
  | Sell => exact hne id hleft.mine (hask hid)

/-! ## Runs -/

/-- None of the maker's own orders rests. -/
def Withdrawn (w : World) (symbol : Symbol) : Prop := ∀ side id, ¬ w.Quotes 0 symbol side id

/-- The step lemma. -/
lemma Quoting.cancelAll (h : Quoting symbol w m) :
    ∃ m', Quoting symbol (w.makerStep .cancelAll) m' ∧
      (w.drawn 0 < 2 ^ 64 → Withdrawn (w.makerStep .cancelAll) symbol) := by
  obtain ⟨hagents, rfl, hdrew, hown, hquotes⟩ := h
  have hagent : w.agents[0]? = some (.marketMaker m) := by rw [hagents]; rfl
  have hstep : w.makerStep .cancelAll = { m.cancelAll.1.foldl (call 0) w with
      agents := [.marketMaker m.cancelAll.2] } := by
    rw [makerStep, hagent, hagents]
    rfl
  obtain ⟨hdrawn, howner⟩ := drawn_cancelAll w m
  have hleft : w.drawn 0 < 2 ^ 64 → Withdrawn (w.makerStep .cancelAll) m.config.symbol := by
    intro hlt side id hrests
    rw [hstep] at hrests
    exact none_left (hquotes hlt) (fun id howner => hown.ne_zero hlt howner)
      ⟨hrests.rests, hrests.mine⟩
  refine ⟨m.cancelAll.2, ⟨?_, ?_, ?_, ?_, fun hlt side id hrests => ?_⟩, hleft⟩
  · rw [hstep]
  · rw [config_cancelAll]
  · rw [hstep, toAgent_cancelAll]
    show Drew m.toAgent ((m.cancelAll.1.foldl (call 0) w).drawn 0)
    rw [hdrawn]
    exact hdrew
  · rw [hstep]
    intro id hid
    have hid : (m.cancelAll.1.foldl (call 0) w).owner m.config.symbol id = some 0 := hid
    rw [howner] at hid
    show ∃ k < (m.cancelAll.1.foldl (call 0) w).drawn 0, _
    rw [hdrawn]
    exact hown id hid
  · have hlt : w.drawn 0 < 2 ^ 64 := by
      rw [hstep] at hlt
      rwa [← hdrawn]
    exact absurd hrests (hleft hlt side id)

lemma Quoting.makerStep (h : Quoting symbol w m) (op : MakerOp) :
    ∃ m', Quoting symbol (w.makerStep op) m' := by
  cases op with
  | quoting op => exact h.step op
  | cancelAll =>
      obtain ⟨m', h', -⟩ := h.cancelAll
      exact ⟨m', h'⟩

/-- Where the maker does not tick, none of its orders comes back. -/
lemma Quoting.withdrawn (h : Quoting symbol w m) (hlt : w.drawn 0 < 2 ^ 64)
    (hw : Withdrawn w symbol) {op : MakerOp} (hop : op.Passive) :
    Withdrawn (w.makerStep op) symbol := by
  cases op with
  | quoting op =>
      intro side id hrests
      cases op with
      | tick draws => exact hop
      | fill report => exact hw side id ⟨hrests.rests, hrests.mine⟩
      | bbo update => exact hw side id ⟨hrests.rests, hrests.mine⟩
      | other r => exact hw side id (Quotes.of_other Nat.zero_ne_one hrests)
  | cancelAll =>
      obtain ⟨-, -, hnone⟩ := h.cancelAll
      exact hnone hlt

/-- Ids are not given back. -/
lemma drawn_makerStep (w : World) (op : MakerOp) : w.drawn 0 ≤ (w.makerStep op).drawn 0 := by
  cases op with
  | quoting op =>
      cases op with
      | tick draws =>
          rw [makerStep, quotingStep, World.step]
          split
          · exact Nat.le_refl _
          · exact drawn_calls w 0 _ 0
      | fill | bbo => exact Nat.le_refl _
      | other r => exact drawn_call w 1 r 0
  | cancelAll =>
      rw [makerStep]
      split
      · exact drawn_calls w 0 _ 0
      · exact Nat.le_refl _

lemma drawn_makerRun (w : World) (ops : List MakerOp) :
    w.drawn 0 ≤ (Run.run makerStep w ops).drawn 0 := by
  induction ops generalizing w with
  | nil => exact Nat.le_refl _
  | cons op ops ih => exact Nat.le_trans (drawn_makerStep w op) (ih _)

lemma Quoting.makerRun (h : Quoting symbol w m) (ops : List MakerOp) :
    ∃ m', Quoting symbol (Run.run World.makerStep w ops) m' :=
  (Run.admitted_trivial _ ops).invariant (I := fun w => ∃ m, Quoting symbol w m)
    (fun _ op hw _ => hw.elim fun _ hm => hm.makerStep op) ⟨m, h⟩

lemma Quoting.withdrawn_run (h : Quoting symbol w m) (hw : Withdrawn w symbol) {ops : List MakerOp}
    (hops : ∀ op ∈ ops, op.Passive) (hlt : (Run.run World.makerStep w ops).drawn 0 < 2 ^ 64) :
    Withdrawn (Run.run World.makerStep w ops) symbol := by
  induction ops generalizing w m with
  | nil => exact hw
  | cons op ops ih =>
      rw [List.forall_mem_cons] at hops
      have hle := drawn_makerRun (w.makerStep op) ops
      have hstep := drawn_makerStep w op
      have hlt' : (Run.run World.makerStep (w.makerStep op) ops).drawn 0 < 2 ^ 64 := hlt
      obtain ⟨m', h'⟩ := h.makerStep op
      exact ih h' (h.withdrawn (by omega) hw hops.1) hops.2 hlt

/-- **A market maker that withdraws has no quotes.**  In every run of ticks, fills, quotes of the
market, requests of others and `cancel_all`s, a maker that has drawn less than `2 ^ 64` ids has at
most one order on each side in the book of its symbol; and if it has not ticked since the last
`cancel_all`, it has none. -/
theorem withdraws (config : OrderBookConfig) (onTrade onExecution : Bool)
    (clocks : Nat → Stream' Timestamp) (symbols : List Symbol) (maker : MarketMakerConfig)
    (ops : List MakerOp)
    (hdrawn : (Run.run makerStep (start config onTrade onExecution clocks symbols
      [.marketMaker maker]) ops).drawn 0 < 2 ^ 64) :
    let w := Run.run makerStep
      (start config onTrade onExecution clocks symbols [.marketMaker maker]) ops
    OneQuote w maker.symbol ∧
      ∀ before after, ops = before ++ .cancelAll :: after → (∀ op ∈ after, op.Passive) →
        Withdrawn w maker.symbol := by
  intro w
  have hstart : Quoting maker.symbol
      (start config onTrade onExecution clocks symbols [.marketMaker maker]) { config := maker } :=
    { agents_eq := rfl
      symbol_eq := rfl
      drew := rfl
      ownDrawn := fun _ howner => absurd howner (Option.some_ne_none 0).symm
      quotes := fun _ _ _ hrests => absurd hrests.mine (Option.some_ne_none 0).symm }
  constructor
  · obtain ⟨m, hend⟩ := hstart.makerRun ops
    intro side id id' h h'
    rw [hend.quotes hdrawn side id h, hend.quotes hdrawn side id' h']
  · rintro before after rfl hafter
    obtain ⟨m, hbefore⟩ := hstart.makerRun before
    obtain ⟨m', hcancelled, hnone⟩ := hbefore.cancelAll
    have hw : w = Run.run makerStep ((Run.run makerStep (start config onTrade onExecution clocks
        symbols [.marketMaker maker]) before).makerStep .cancelAll) after := Run.run_append _ _ _
    have hle := drawn_makerRun ((Run.run makerStep (start config onTrade onExecution clocks
        symbols [.marketMaker maker]) before).makerStep .cancelAll) after
    have hstep := drawn_makerStep (Run.run makerStep (start config onTrade onExecution clocks
        symbols [.marketMaker maker]) before) .cancelAll
    rw [← hw] at hle
    have hlt : w.drawn 0 < 2 ^ 64 := hdrawn
    rw [hw]
    exact hcancelled.withdrawn_run (hnone (by omega)) hafter (hw ▸ hlt)

/-- The maker quotes, withdraws, and somebody trades before it hears of that. -/
theorem withdraws_sample :
    Withdrawn (Run.run makerStep
      (start {} true true (fun _ _ => 0) [.ofChars [65]]
        [.marketMaker { symbol := .ofChars [65], skew := fun _ => 0 }])
      [.quoting (.tick { acts := true }), .cancelAll,
        .quoting (.other (.order
          { id := 500, symbol := .ofChars [65], side := .Sell, price := 1, quantity := 40 }))])
      (.ofChars [65]) :=
  (withdraws {} true true (fun _ _ => 0) [.ofChars [65]]
    { symbol := .ofChars [65], skew := fun _ => 0 } _ (by decide +kernel)).2
      [.quoting (.tick { acts := true })]
      [.quoting (.other (.order
          { id := 500, symbol := .ofChars [65], side := .Sell, price := 1, quantity := 40 }))]
      rfl (List.forall_mem_singleton.mpr trivial)

end World

end Exchange
