import Exchange.Agents.Model
import Exchange.Engine.Calls
import Exchange.OrderBook.Ids

/-!
# Whose order an id means

Every agent numbers its orders from 1, and the book knows orders by their number only.  `World` is
an engine with its agents, and, as ghost state, which agent sent the order that was last accepted
under an id.

* `onTick_numbered` — the ids an agent draws are consecutive;
* **`no_interference_iff`** — no order is refused as a duplicate and no market maker cancels another
  agent's order, exactly as long as no agent uses an id under which an order of another one rests.
-/

namespace Exchange

open Run (Admitted)

/-- `owner` and `drawn` are ghost state: who sent the order last accepted under an id, and how many
ids each agent has drawn. -/
structure World where
  engine : MatchingEngine
  agents : List AnyAgent
  owner : Symbol → OrderId → Option Nat := fun _ _ => none
  drawn : Nat → Nat := fun _ => 0

namespace World

/-! ## Steps -/

/-- Agent `i` makes a request. -/
def call (i : Nat) (w : World) (r : Request) : World :=
  let (result, engine) := w.engine.handle {} r
  match r with
  | .order order =>
      { w with
        engine := engine
        drawn := fun j => if j = i then w.drawn j + 1 else w.drawn j
        owner := fun symbol id =>
          if symbol = order.symbol ∧ id = order.id ∧ result.success then some i
          else w.owner symbol id }
  | .cancel _ _ | .replace _ _ _ _ => { w with engine := engine }

inductive AgentOp
  | tick (i : Nat) (draws : Draws)
  | fill (i : Nat) (report : ExecutionReport)
  | bbo (i : Nat) (bbo : BBOUpdate)

def step (w : World) : AgentOp → World
  | .tick i draws =>
      match w.agents[i]? with
      | none => w
      | some a =>
          let (requests, a) := a.onTick draws
          { requests.foldl (call i) w with agents := w.agents.set i a }
  | .fill i report =>
      { w with agents := w.agents.modify i (·.onFill report) }
  | .bbo i bbo =>
      { w with agents := w.agents.modify i (·.onBbo bbo) }

/-- A new engine with new agents. -/
def start (config : OrderBookConfig) (onTrade onExecution : Bool)
    (clocks : Nat → Stream' Timestamp) (symbols : List Symbol) (agents : List AgentConfig) :
    World where
  engine := .start config onTrade onExecution clocks symbols
  agents := agents.map AgentConfig.create

/-! ## What a call does -/

/-- An order rests under the id in the book of the symbol. -/
def Resting (w : World) (symbol : Symbol) (id : OrderId) : Prop :=
  ∃ b, w.engine.book? symbol = some b ∧ b.store.orders[id]? ≠ none

/-- An order of another agent rests under the id. -/
def Foreign (w : World) (i : Nat) (symbol : Symbol) (id : OrderId) : Prop :=
  w.Resting symbol id ∧ w.owner symbol id ≠ some i

/-- The order is not refused as a duplicate; what is cancelled is the agent's own. -/
def Undisturbed (i : Nat) (w : World) (r : Request) : Prop :=
  match r with
  | .order _ => ¬ ((w.engine.handle {} r).1.success = false ∧
      (w.engine.handle {} r).1.rejectReason = .DuplicateOrderId)
  | .cancel symbol id => (w.engine.handle {} r).1.success = true → w.owner symbol id = some i
  | .replace _ _ _ _ => True

instance (i : Nat) (w : World) : (r : Request) → Decidable (w.Undisturbed i r)
  | .order order => inferInstanceAs (Decidable (¬ (
      (w.engine.handle {} (.order order)).1.success = false ∧
        (w.engine.handle {} (.order order)).1.rejectReason = .DuplicateOrderId)))
  | .cancel symbol id => inferInstanceAs (Decidable (
      (w.engine.handle {} (.cancel symbol id)).1.success = true → w.owner symbol id = some i))
  | .replace _ _ _ _ => isTrue trivial

/-- An agent does not use an id under which an order of another one rests, nor its own ids a second
time. -/
def UsesOwnIds (i : Nat) (w : World) (r : Request) : Prop :=
  match r with
  | .order order => order.quantity ≠ 0 → ¬ (order.type = .Limit ∧ order.price ≤ 0) →
      ¬ w.Foreign i order.symbol order.id ∧
        (2 ^ 64 ≤ w.drawn i → ¬ w.Resting order.symbol order.id)
  | .cancel symbol id => ¬ w.Foreign i symbol id
  | .replace _ _ _ _ => True

/-- Whatever rests was sent by an agent that has drawn its id. -/
def Owned (w : World) : Prop :=
  ∀ symbol id, w.Resting symbol id →
    ∃ j, w.owner symbol id = some j ∧ ∃ k < w.drawn j, id = UInt64.ofNat (k + 1)

variable {w : World} {i : Nat} {r : Request}

/-- The first `2 ^ 64` ids drawn from a counter differ. -/
lemma ofNat_succ_ne {k n : Nat} (hk : k < n) (hn : n < 2 ^ 64) :
    UInt64.ofNat (k + 1) ≠ UInt64.ofNat (n + 1) := by
  intro h
  have h := congrArg UInt64.toNat h
  rw [UInt64.toNat_ofNat', UInt64.toNat_ofNat'] at h
  omega

lemma resting_iff {symbol : Symbol} {id : OrderId} {b : OrderBook}
    (hb : w.engine.book? symbol = some b) :
    w.Resting symbol id ↔ b.store.orders[id]? ≠ none := by
  rw [Resting, hb]
  simp

lemma not_resting {symbol : Symbol} {id : OrderId} (hb : w.engine.book? symbol = none) :
    ¬ w.Resting symbol id := by
  rw [Resting, hb]
  simp

/-- **One request.**  It can only be disturbed by another agent's order. -/
theorem undisturbed_iff (h : w.Owned)
    (hid : ∀ order, r = .order order → order.id = UInt64.ofNat (w.drawn i + 1)) :
    w.Undisturbed i r ↔ w.UsesOwnIds i r := by
  cases r with
  | order order =>
      rw [Undisturbed, UsesOwnIds, MatchingEngine.fst_handle]
      cases hb : w.engine.book? (Request.order order).symbol with
      | none =>
          refine iff_of_true ?_ fun _ _ => ⟨fun h => not_resting hb h.1, fun _ => not_resting hb⟩
          simp [MatchingEngine.unknownSymbol]
      | some b =>
          have hresting : w.Resting order.symbol order.id ↔ _ := resting_iff hb
          refine (not_congr OrderBook.addOrder_duplicate_iff).trans ?_
          rw [Foreign, ← hresting]
          constructor
          · intro hnot hquantity hprice
            have hfree : ¬ w.Resting order.symbol order.id := fun h => hnot ⟨hquantity, hprice, h⟩
            exact ⟨fun h => hfree h.1, fun _ => hfree⟩
          · rintro hown ⟨hquantity, hprice, hrests⟩
            obtain ⟨hforeign, hwrapped⟩ := hown hquantity hprice
            -- it is an order of the same agent, which has not drawn this id before
            obtain ⟨j, howner, k, hk, hkid⟩ := h _ _ hrests
            obtain rfl : j = i := by
              by_contra hne
              exact hforeign ⟨hrests, by rw [howner]; exact fun h => hne (Option.some.inj h)⟩
            have hlt : w.drawn j < 2 ^ 64 := Nat.lt_of_not_le fun hle => hwrapped hle hrests
            exact ofNat_succ_ne hk hlt (hkid.symm.trans (hid order rfl))
  | cancel symbol id =>
      rw [Undisturbed, UsesOwnIds, MatchingEngine.fst_handle]
      cases hb : w.engine.book? (Request.cancel symbol id).symbol with
      | none =>
          refine iff_of_true ?_ fun h => not_resting hb h.1
          simp [MatchingEngine.unknownSymbol]
      | some b =>
          have hresting : w.Resting symbol id ↔ _ := resting_iff hb
          have hsuccess : ((Request.cancel symbol id).answer {} b).success = true ↔
              w.Resting symbol id := OrderBook.cancelOrder_success_iff.trans hresting.symm
          rw [Option.elim_some, hsuccess, Foreign, not_and_not_right]
  | replace => exact Iff.rfl

lemma book?_call (w : World) (i : Nat) (r : Request) (symbol : Symbol) :
    (w.call i r).engine.book? symbol
      = if symbol = r.symbol then (w.engine.book? symbol).map (·.apply r.op)
        else w.engine.book? symbol := by
  rw [← MatchingEngine.book?_handle w.engine {} r]
  cases r <;> rfl

/-- A call that does not accept an order under the id brings none into the book. -/
lemma not_resting_call {symbol : Symbol} {id : OrderId} (h : ¬ w.Resting symbol id)
    (hr : ∀ symbol' id' price qty, r ≠ .replace symbol' id' price qty)
    (hnew : ∀ order, r = .order order → symbol = order.symbol → id = order.id →
      (w.engine.handle {} r).1.success = false) :
    ¬ (w.call i r).Resting symbol id := by
  rintro ⟨b', hb', hrests⟩
  rw [book?_call] at hb'
  split_ifs at hb' with hsymbol
  · obtain ⟨b, hb, rfl⟩ := Option.map_eq_some_iff.mp hb'
    have hnone : b.store.orders[id]? = none := by
      by_contra hne
      exact h ⟨b, hb, hne⟩
    refine hrests ?_
    cases r with
    | order order =>
        refine OrderBook.addOrder_orders_none hnone fun hid => ?_
        have hfail := hnew order rfl hsymbol hid
        rw [MatchingEngine.fst_handle, ← hsymbol, hb] at hfail
        exact hfail
    | cancel symbol' id' => exact OrderBook.cancelOrder_orders_none hnone
    | replace => exact absurd rfl (hr _ _ _ _)
  · exact h ⟨b', hb', hrests⟩

/-- What a request leaves of the ghost state. -/
lemma drawn_call (w : World) (i : Nat) (r : Request) (j : Nat) :
    w.drawn j ≤ (w.call i r).drawn j := by
  cases r with
  | order order =>
      simp only [call]
      split_ifs <;> omega
  | cancel | replace => exact Nat.le_refl _

/-- What was resting already keeps its owner. -/
lemma Owned.old (h : w.Owned) {symbol : Symbol} {id : OrderId} (hrests : w.Resting symbol id)
    (howner : (w.call i r).owner symbol id = w.owner symbol id) :
    ∃ j, (w.call i r).owner symbol id = some j ∧
      ∃ k < (w.call i r).drawn j, id = UInt64.ofNat (k + 1) := by
  obtain ⟨j, hj, k, hk, hid⟩ := h symbol id hrests
  exact ⟨j, howner.trans hj, k, Nat.lt_of_lt_of_le hk (drawn_call w i r j), hid⟩

theorem Owned.call (h : w.Owned)
    (hr : ∀ symbol id price qty, r ≠ .replace symbol id price qty)
    (hid : ∀ order, r = .order order → order.id = UInt64.ofNat (w.drawn i + 1)) :
    (w.call i r).Owned := by
  intro symbol id hrests
  cases r with
  | order order =>
      have howner : (w.call i (.order order)).owner symbol id
          = if symbol = order.symbol ∧ id = order.id ∧
              (w.engine.handle {} (.order order)).1.success then some i
            else w.owner symbol id := rfl
      by_cases hnew : symbol = order.symbol ∧ id = order.id ∧
          (w.engine.handle {} (.order order)).1.success = true
      · refine ⟨i, by rw [howner, if_pos hnew], w.drawn i, ?_, hnew.2.1.trans (hid order rfl)⟩
        simp [World.call]
      · refine h.old (Classical.byContradiction fun hfree => ?_) (by rw [howner, if_neg hnew])
        refine not_resting_call hfree hr (fun order' horder hsymbol hid => ?_) hrests
        cases horder
        exact Bool.eq_false_iff.mpr fun hok => hnew ⟨hsymbol, hid, hok⟩
  | cancel symbol' id' =>
      refine h.old (Classical.byContradiction fun hfree => ?_) rfl
      exact not_resting_call hfree hr (fun order' horder => by cases horder) hrests
  | replace => exact absurd rfl (hr _ _ _ _)

/-! ## The calls of one tick -/

/-- The requests contain no replace, and their orders carry the ids from `n + 1` to `n'`. -/
def Numbered : Nat → List Request → Nat → Prop
  | n, [], n' => n = n'
  | n, .order order :: rs, n' => order.id = UInt64.ofNat (n + 1) ∧ Numbered (n + 1) rs n'
  | n, .cancel _ _ :: rs, n' => Numbered n rs n'
  | _, .replace _ _ _ _ :: _, _ => False

lemma Numbered.append {n n' n'' : Nat} {rs rs' : List Request} (h : Numbered n rs n')
    (h' : Numbered n' rs' n'') : Numbered n (rs ++ rs') n'' := by
  induction rs generalizing n with
  | nil =>
      cases h
      exact h'
  | cons r rs ih =>
      cases r with
      | order order => exact ⟨h.1, ih h.2⟩
      | cancel symbol id => exact ih (n := n) h
      | replace => exact h.elim

lemma drawn_call_cancel (i : Nat) (w : World) (symbol : Symbol) (id : OrderId) :
    (w.call i (.cancel symbol id)).drawn = w.drawn := by
  simp only [call]

/-- What the first request of a tick draws. -/
lemma Numbered.cons {n n' : Nat} {rs : List Request} (h : Numbered n (r :: rs) n')
    (hdrawn : w.drawn i = n) :
    (∀ symbol id price qty, r ≠ .replace symbol id price qty) ∧
      (∀ order, r = .order order → order.id = UInt64.ofNat (w.drawn i + 1)) ∧
        Numbered ((w.call i r).drawn i) rs n' := by
  subst hdrawn
  cases r with
  | order order =>
      refine ⟨fun _ _ _ _ => Request.noConfusion, fun order' horder => ?_, ?_⟩
      · cases horder
        exact h.1
      · have hnext : (w.call i (.order order)).drawn i = w.drawn i + 1 := by simp [World.call]
        rw [hnext]
        exact h.2
  | cancel symbol id =>
      refine ⟨fun _ _ _ _ => Request.noConfusion, fun _ => Request.noConfusion, ?_⟩
      rw [drawn_call_cancel]
      exact h
  | replace => exact h.elim

/-- The calls of a tick, in turn. -/
theorem calls_spec {rs : List Request} {n n' : Nat} (hrs : Numbered n rs n') (h : w.Owned)
    (hdrawn : w.drawn i = n) :
    (Admitted (call i) (Undisturbed i) w rs ↔ Admitted (call i) (UsesOwnIds i) w rs) ∧
      (rs.foldl (call i) w).Owned ∧ (rs.foldl (call i) w).drawn i = n' := by
  induction rs generalizing w n with
  | nil => exact ⟨Iff.rfl, h, hdrawn.trans hrs⟩
  | cons r rs ih =>
      obtain ⟨hr, hid, hnext⟩ := hrs.cons hdrawn
      obtain ⟨hiff, hend⟩ := ih hnext (h.call hr hid) rfl
      rw [Admitted, Admitted, undisturbed_iff h hid, hiff]
      exact ⟨Iff.rfl, hend⟩

lemma drawn_calls_of_ne {j : Nat} (hj : j ≠ i) (w : World) (rs : List Request) :
    (rs.foldl (call i) w).drawn j = w.drawn j := by
  induction rs generalizing w with
  | nil => rfl
  | cons r rs ih =>
      rw [List.foldl_cons, ih]
      cases r with
      | order order => exact if_neg hj
      | cancel | replace => rfl

/-! ### What an agent asks for -/

/-- The agent has drawn the first `n` ids. -/
def Drew (a : Agent) (n : Nat) : Prop := a.counter = UInt64.ofNat (n + 1)

lemma Drew.next {a : Agent} {n : Nat} (h : Drew a n) : Drew a.nextOrderId.2 (n + 1) := by
  rw [Drew] at h
  show a.counter + 1 = _
  rw [h, UInt64.ofNat_add (n + 1) 1]
  rfl

lemma numbered_nil (n : Nat) : Numbered n [] n := rfl

lemma numbered_quote {m : MarketMaker} {n : Nat} (h : Drew m.toAgent n) (side : Side)
    (price : Price) : Numbered n [.order (m.quote side price)] (n + 1) := ⟨h, rfl⟩

lemma numbered_cancel (n : Nat) (p : Prop) [Decidable p] (symbol : Symbol) (id : OrderId) :
    Numbered n (if p then [.cancel symbol id] else []) n := by
  split_ifs <;> rfl

/-- Some cancels, and an order for each side with room. -/
lemma updateQuotes_numbered (m : MarketMaker) {n : Nat} (h : Drew m.toAgent n) :
    ∃ n', Numbered n m.updateQuotes.1 n' ∧ Drew m.updateQuotes.2.toAgent n' := by
  have hcancels := (numbered_cancel n (m.bidOrderId > 0) m.config.symbol m.bidOrderId).append
    (numbered_cancel n (m.askOrderId > 0) m.config.symbol m.askOrderId)
  simp only [MarketMaker.updateQuotes]
  by_cases hbid : m.position < m.config.maxPosition.toUInt64.toInt64
  · by_cases hask : m.position > -m.config.maxPosition.toUInt64.toInt64
    · simp only [if_pos hbid, if_pos hask]
      exact ⟨n + 2, (hcancels.append (numbered_quote h _ _)).append (numbered_quote h.next _ _),
        h.next.next⟩
    · simp only [if_pos hbid, if_neg hask]
      exact ⟨n + 1, (hcancels.append (numbered_quote h _ _)).append (numbered_nil _), h.next⟩
  · by_cases hask : m.position > -m.config.maxPosition.toUInt64.toInt64
    · simp only [if_neg hbid, if_pos hask]
      exact ⟨n + 1, (hcancels.append (numbered_nil n)).append (numbered_quote h _ _), h.next⟩
    · simp only [if_neg hbid, if_neg hask]
      exact ⟨n, (hcancels.append (numbered_nil n)).append (numbered_nil n), h⟩

/-- **The ids an agent draws are consecutive.** -/
theorem onTick_numbered (a : AnyAgent) (draws : Draws) {n : Nat} (h : Drew a.base n) :
    ∃ n', Numbered n (a.onTick draws).1 n' ∧ Drew (a.onTick draws).2.base n' := by
  cases a with
  | marketMaker m =>
      simp only [AnyAgent.onTick, MarketMaker.onTick]
      split_ifs
      · exact updateQuotes_numbered m h
      · exact ⟨n, rfl, h⟩
  | momentum m =>
      simp only [AnyAgent.onTick, MomentumAgent.onTick]
      split_ifs
      · exact ⟨n, rfl, h⟩
      · exact ⟨n, rfl, h⟩
      · cases m.config.side m.computeSignal with
        | none => exact ⟨n, rfl, h⟩
        | some side => exact ⟨n + 1, ⟨h, rfl⟩, Drew.next h⟩
  | noise t =>
      simp only [AnyAgent.onTick, NoiseTrader.onTick]
      split_ifs
      all_goals first
        | exact ⟨n, rfl, h⟩
        | exact ⟨n + 1, ⟨h, rfl⟩, Drew.next h⟩

/-! ## Runs -/

/-- Every request that is made satisfies `P`. -/
def Calls (P : Nat → World → Request → Prop) (w : World) : AgentOp → Prop
  | .tick i draws =>
      match w.agents[i]? with
      | none => True
      | some a => Admitted (call i) (P i) w (a.onTick draws).1
  | .fill _ _ | .bbo _ _ => True

instance Calls.decidable {P : Nat → World → Request → Prop} [∀ i w r, Decidable (P i w r)]
    (w : World) : (op : AgentOp) → Decidable (Calls P w op)
  | .tick i draws =>
      match h : w.agents[i]? with
      | none => isTrue (by rw [Calls, h]; trivial)
      | some a =>
          decidable_of_iff (Admitted (call i) (P i) w (a.onTick draws).1) (by rw [Calls, h])
  | .fill _ _ | .bbo _ _ => isTrue trivial

/-- Orders have owners, and counters count. -/
structure Counted (w : World) : Prop where
  owned : w.Owned
  drew : ∀ (i : Nat) (a : AnyAgent), w.agents[i]? = some a → Drew a.base (w.drawn i)

lemma Counted.modify (h : w.Counted) (i : Nat) {f : AnyAgent → AnyAgent}
    (hf : ∀ a, (f a).base = a.base) : Counted { w with agents := w.agents.modify i f } where
  owned := h.owned
  drew j a ha := by
    have ha : (w.agents.modify i f)[j]? = some a := ha
    rw [List.getElem?_modify] at ha
    obtain ⟨a', ha', rfl⟩ := Option.map_eq_some_iff.mp ha
    split_ifs
    · rw [hf]
      exact h.drew j a' ha'
    · exact h.drew j a' ha'

/-- The step lemma: counters count, and a tick is undisturbed exactly if the agent uses its own
ids. -/
theorem Counted.step (h : w.Counted) (op : AgentOp) :
    (w.step op).Counted ∧ (Calls Undisturbed w op ↔ Calls UsesOwnIds w op) := by
  cases op with
  | tick i draws =>
      rw [World.step, Calls, Calls]
      cases ha : w.agents[i]? with
      | none => exact ⟨h, Iff.rfl⟩
      | some a =>
          obtain ⟨n', hnumbered, hdrew⟩ := onTick_numbered a draws (h.drew i a ha)
          obtain ⟨hiff, howned, hdrawn⟩ := calls_spec hnumbered h.owned rfl
          refine ⟨⟨howned, fun j a' ha' => ?_⟩, hiff⟩
          have ha' : (w.agents.set i (a.onTick draws).2)[j]? = some a' := ha'
          show Drew a'.base (((a.onTick draws).1.foldl (call i) w).drawn j)
          rw [List.getElem?_set] at ha'
          split_ifs at ha' with hij hlt
          · cases ha'
            rw [← hij, hdrawn]
            exact hdrew
          · rw [drawn_calls_of_ne (Ne.symm hij)]
            exact h.drew j a' ha'
  | fill i report =>
      exact ⟨h.modify i fun a => by cases a <;> rfl, Iff.rfl⟩
  | bbo i update =>
      refine ⟨h.modify i fun a => ?_, Iff.rfl⟩
      cases a with
      | marketMaker m => rfl
      | momentum m => rfl
      | noise n =>
          simp only [AnyAgent.onBbo, NoiseTrader.onBbo]
          split_ifs <;> rfl

lemma counted_start (config : OrderBookConfig) (onTrade onExecution : Bool)
    (clocks : Nat → Stream' Timestamp) (symbols : List Symbol) (agents : List AgentConfig) :
    (start config onTrade onExecution clocks symbols agents).Counted where
  owned symbol id hrests := by
    obtain ⟨b, hb, hrests⟩ := hrests
    obtain ⟨clock, hbook⟩ :=
      MatchingEngine.book?_start config onTrade onExecution clocks symbols symbol
    have hb : (MatchingEngine.start config onTrade onExecution clocks symbols).book? symbol
        = some b := hb
    rw [hbook] at hb
    split_ifs at hb
    cases hb
    exact absurd (by simp [OrderBook.new]) hrests
  drew i a ha := by
    have ha : (agents.map AgentConfig.create)[i]? = some a := ha
    rw [List.getElem?_map] at ha
    obtain ⟨c, -, rfl⟩ := Option.map_eq_some_iff.mp ha
    cases c <;> rfl

/-- **Agents interfere through ids exactly if they use each other's.**  In every run of agents on
one engine, no order is refused as a duplicate and every cancel that succeeds removes an order of
the agent that sent it, if and only if each order that is not refused for its quantity or price has
an id under which no order of another agent rests, nor, once the agent has drawn `2 ^ 64` ids, any
order, and no cancel names an order of another agent. -/
theorem no_interference_iff (config : OrderBookConfig) (onTrade onExecution : Bool)
    (clocks : Nat → Stream' Timestamp) (symbols : List Symbol) (agents : List AgentConfig)
    (ops : List AgentOp) :
    Admitted step (Calls Undisturbed)
        (start config onTrade onExecution clocks symbols agents) ops ↔
      Admitted step (Calls UsesOwnIds)
        (start config onTrade onExecution clocks symbols agents) ops :=
  Run.admitted_congr (I := Counted) (fun _ op h => (h.step op).1) (fun _ op h => (h.step op).2)
    (counted_start config onTrade onExecution clocks symbols agents)

/-- Two market makers for one symbol. -/
def twoMakers : List AgentConfig :=
  [.marketMaker { symbol := .ofChars [65], skew := fun _ => 0 },
    .marketMaker { symbol := .ofChars [65], skew := fun _ => 0 }]

/-- Both quotes of the second one are refused, and at its next tick it cancels those of the
first. -/
theorem two_makers_interfere :
    ¬ Admitted step (Calls Undisturbed)
      (start {} true true (fun _ _ => 0) [.ofChars [65]] twoMakers)
      [.tick 0 { acts := true }, .tick 1 { acts := true }] ∧
    let w := Run.run step (start {} true true (fun _ _ => 0) [.ofChars [65]] twoMakers)
      [.tick 0 { acts := true }, .tick 1 { acts := true }]
    (w.engine.cancelOrder {} (.ofChars [65]) 1).1.success = true ∧
      w.owner (.ofChars [65]) 1 = some 0 := by
  decide +kernel

end World

end Exchange
