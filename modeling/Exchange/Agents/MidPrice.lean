import Exchange.Agents.Model
import Exchange.OrderBook.AveragePrice
import Exchange.OrderBook.Quotes

/-!
# Mid prices

`mid_price` adds the best prices of the book and halves the sum, and so do the market maker and the
momentum agent with the prices of a quote.  `mid_price` looks whether one of them is
`INVALID_PRICE`; the agents do not, though a quote has it for a side without orders.  Nobody looks
whether the sum fits.

* `toInt_mid_iff` — the mid is right just if the sum fits;
* **`midPrice_iff`** — where `mid_price` is right;
* **`mids_iff`** — and where the agents are: for quotes of a book that has orders on both sides, at
  best prices that are not `INVALID_PRICE` and have a sum that fits.
-/

namespace Exchange

open OrderBook (FitsInt64)

/-! ## Halving a sum -/

/-- The mid of two numbers. -/
def exactMid (a b : Price) : ℤ := (a.toInt + b.toInt).tdiv 2

lemma tdiv_two (x : ℤ) : x.tdiv 2 = if 0 ≤ x then x / 2 else -(-x / 2) := by
  split_ifs with hx
  · exact Int.tdiv_eq_ediv_of_nonneg hx
  · rw [← Int.tdiv_eq_ediv_of_nonneg (by omega), Int.neg_tdiv, Int.neg_neg]

lemma le_exactMid {a b : Price} (h : a ≤ b) : a.toInt ≤ exactMid a b ∧ exactMid a b ≤ b.toInt := by
  have h := Int64.le_iff_toInt_le.mp h
  rw [exactMid, tdiv_two]
  split_ifs <;> omega

/-- **When the mid is right.** -/
theorem toInt_mid_iff (a b : Price) :
    ((a + b) / 2).toInt = exactMid a b ↔ FitsInt64 (a.toInt + b.toInt) := by
  have ha := a.le_toInt
  have ha' := a.toInt_lt
  have hb := b.le_toInt
  have hb' := b.toInt_lt
  rw [Int64.toInt_div_of_ne_right _ _ (by decide), exactMid, Int64.toInt_add, FitsInt64]
  generalize hsum : a.toInt + b.toInt = sum
  show (sum.bmod (2 ^ 64)).tdiv 2 = sum.tdiv 2 ↔ _
  constructor
  · intro heq
    by_contra hout
    -- a sum that does not fit wraps around once, and its half is wrong by `2 ^ 63`
    have hwrap : sum.bmod (2 ^ 64) = sum + 2 ^ 64 ∧ sum < -2 ^ 63 ∨
        sum.bmod (2 ^ 64) = sum - 2 ^ 64 ∧ 2 ^ 63 ≤ sum := by
      rcases Int.lt_or_le sum (-2 ^ 63) with hlow | hlow
      · refine .inl ⟨?_, hlow⟩
        rw [← Int.add_bmod_right]
        exact Int.bmod_eq_of_le (by omega) (by omega)
      · refine .inr ⟨?_, by omega⟩
        rw [← Int.sub_bmod_right]
        exact Int.bmod_eq_of_le (by omega) (by omega)
    rw [tdiv_two, tdiv_two] at heq
    split_ifs at heq <;> omega
  · rintro ⟨hlow, hhigh⟩
    rw [Int.bmod_eq_of_le hlow hhigh]

/-- There are orders on the side. -/
def Store.Occupied (s : Store) (side : Side) : Prop := ∃ p, p ∈ s.levels side

/-- The sum of the best prices fits. -/
def Store.SumFits (s : Store) : Prop := FitsInt64 (s.bestBid.toInt + s.bestAsk.toInt)

lemma Store.Sound.occupied {s : Store} (h : s.Sound) (side : Side)
    (hne : s.best side ≠ invalidPrice) : s.Occupied side := by
  rcases h.bestLive side with hmem | hnone
  · exact ⟨_, hmem⟩
  · exact absurd hnone.1 hne

/-! ## The book -/

namespace OrderBook

/-- `mid_price`. -/
def midPrice (b : OrderBook) : Price :=
  if b.store.bestAsk = invalidPrice ∨ b.store.bestBid = invalidPrice then 0
  else (b.store.bestBid + b.store.bestAsk) / 2

/-- The mid is computed without overflow, and lies between the best prices of a book that has orders
on both sides and is not crossed. -/
structure MidExact (b : OrderBook) : Prop where
  exact : b.store.bestBid ≠ invalidPrice → b.store.bestAsk ≠ invalidPrice →
    b.midPrice.toInt = exactMid b.store.bestBid b.store.bestAsk
  between : b.store.Occupied .Buy → b.store.Occupied .Sell → b.store.bestBid ≤ b.store.bestAsk →
    b.store.bestBid ≤ b.midPrice ∧ b.midPrice ≤ b.store.bestAsk

/-- If there are orders on both sides, then the sum of the best prices fits; or one of them is
`INVALID_PRICE`, and the bid is greater than the ask or not positive. -/
def MidSafe (s : Store) : Prop :=
  s.Occupied .Buy → s.Occupied .Sell →
    if s.bestBid = invalidPrice ∨ s.bestAsk = invalidPrice then
      s.bestBid ≤ s.bestAsk → s.bestBid ≤ 0
    else s.SumFits

lemma midPrice_of_valid {b : OrderBook} (hbid : b.store.bestBid ≠ invalidPrice)
    (hask : b.store.bestAsk ≠ invalidPrice) :
    b.midPrice = (b.store.bestBid + b.store.bestAsk) / 2 :=
  if_neg (not_or.mpr ⟨hask, hbid⟩)

lemma midPrice_of_invalid {b : OrderBook}
    (h : b.store.bestBid = invalidPrice ∨ b.store.bestAsk = invalidPrice) : b.midPrice = 0 :=
  if_pos h.symm

/-- **When `mid_price` is right.** -/
theorem midPrice_iff {b : OrderBook} (hb : b.store.Sound) : MidExact b ↔ MidSafe b.store := by
  by_cases hinvalid : b.store.bestBid = invalidPrice ∨ b.store.bestAsk = invalidPrice
  · have hzero := midPrice_of_invalid hinvalid
    have hask : b.store.bestBid ≤ b.store.bestAsk → 0 ≤ b.store.bestAsk := by
      intro hle
      rcases hinvalid with hbid | hask
      · rw [hbid] at hle
        exact Int64.le_trans (by decide) hle
      · rw [hask]
        decide
    constructor
    · intro hexact hbids hasks
      rw [if_pos hinvalid]
      intro hle
      have hbetween := hexact.between hbids hasks hle
      rw [hzero] at hbetween
      exact hbetween.1
    · intro hsafe
      refine ⟨fun hbid hask => absurd hinvalid (not_or.mpr ⟨hbid, hask⟩), fun hbids hasks hle => ?_⟩
      have hsafe := hsafe hbids hasks
      rw [if_pos hinvalid] at hsafe
      rw [hzero]
      exact ⟨hsafe hle, hask hle⟩
  · obtain ⟨hbid, hask⟩ := not_or.mp hinvalid
    have hmid := midPrice_of_valid hbid hask
    have hiff := toInt_mid_iff b.store.bestBid b.store.bestAsk
    rw [← hmid] at hiff
    constructor
    · intro hexact _ _
      rw [if_neg hinvalid]
      exact hiff.mp (hexact.exact hbid hask)
    · intro hsafe
      have hsafe := hsafe (hb.occupied .Buy hbid) (hb.occupied .Sell hask)
      rw [if_neg hinvalid] at hsafe
      have hexact := hiff.mpr hsafe
      refine ⟨fun _ _ => hexact, fun _ _ hle => ?_⟩
      have hbounds := le_exactMid hle
      rw [← hexact] at hbounds
      exact ⟨Int64.le_iff_toInt_le.mpr hbounds.1, Int64.le_iff_toInt_le.mpr hbounds.2⟩

end OrderBook

/-! ## The agents -/

/-- Both agents take the mid of two prices, and compute it without overflow. -/
structure MidTaken (u : BBOUpdate) : Prop where
  bid_ne : u.bidPrice ≠ invalidPrice
  ask_ne : u.askPrice ≠ invalidPrice
  marketMaker : ∀ m : MarketMaker, (m.onBbo u).lastMid.toInt = exactMid u.bidPrice u.askPrice
  momentum : ∀ m : MomentumAgent, m.config.lookbackTicks ≠ 0 →
    (m.onBbo u).priceHistory.getLast?.map (·.toInt) = some (exactMid u.bidPrice u.askPrice)

/-- There are orders on both sides, and the best prices have a mid. -/
structure TwoSided (s : Store) : Prop where
  bids : s.Occupied .Buy
  asks : s.Occupied .Sell
  bid_ne : s.bestBid ≠ invalidPrice
  ask_ne : s.bestAsk ≠ invalidPrice
  fits : s.SumFits

/-- What a momentum agent remembers last. -/
lemma getLast?_onBbo (m : MomentumAgent) (hlookback : m.config.lookbackTicks ≠ 0) (u : BBOUpdate) :
    (m.onBbo u).priceHistory.getLast? = some ((u.bidPrice + u.askPrice) / 2) := by
  rw [MomentumAgent.onBbo]
  dsimp only
  split_ifs with hlong
  · have hne : m.priceHistory ≠ [] := by
      intro hnil
      rw [hnil] at hlong
      exact hlookback (Nat.lt_one_iff.mp hlong)
    rw [List.tail_append_of_ne_nil hne, List.getLast?_concat]
  · exact List.getLast?_concat

lemma midTaken_iff (u : BBOUpdate) : MidTaken u ↔ u.bidPrice ≠ invalidPrice ∧
    u.askPrice ≠ invalidPrice ∧ FitsInt64 (u.bidPrice.toInt + u.askPrice.toInt) := by
  have hiff := toInt_mid_iff u.bidPrice u.askPrice
  constructor
  · rintro ⟨hbid, hask, hmaker, -⟩
    refine ⟨hbid, hask, hiff.mp ?_⟩
    exact hmaker { config := { symbol := .ofChars [], skew := fun _ => 0 } }
  · rintro ⟨hbid, hask, hfits⟩
    refine ⟨hbid, hask, fun _ => hiff.mpr hfits, fun m hlookback => ?_⟩
    rw [getLast?_onBbo m hlookback, Option.map_some, hiff.mpr hfits]

/-- A quote of a book. -/
lemma midTaken_of_quote {s : Store} (hs : s.Sound) {u : BBOUpdate} (hu : OrderBook.QuoteOf s u) :
    MidTaken u ↔ TwoSided s := by
  rw [midTaken_iff, hu.bid_eq, hu.ask_eq]
  constructor
  · rintro ⟨hbid, hask, hfits⟩
    exact ⟨hs.occupied .Buy hbid, hs.occupied .Sell hask, hbid, hask, hfits⟩
  · rintro ⟨-, -, hbid, hask, hfits⟩
    exact ⟨hbid, hask, hfits⟩

namespace OrderBook

/-- **When mids are right.** -/
theorem mids_iff (symbol : Symbol) (config : OrderBookConfig) (onTrade onExecution onBbo : Bool)
    (clock : Stream' Timestamp) (ops : List Op) :
    (MidExact (after (new symbol config onTrade onExecution onBbo clock) ops) ↔
      MidSafe (after (new symbol config onTrade onExecution onBbo clock) ops).store) ∧
    ∀ u, .bbo u ∈ (after (new symbol config onTrade onExecution onBbo clock) ops).feed.events →
      ∃ before op rest b', ops = before ++ op :: rest ∧
        Stage (after (new symbol config onTrade onExecution onBbo clock) before) op b' ∧
        QuoteOf b'.store u ∧ (MidTaken u ↔ TwoSided b'.store) := by
  refine ⟨midPrice_iff (sound_after _ _ _ _ _ _ _), fun u hu => ?_⟩
  rcases quote_stage _ _ hu with hold | ⟨before, op, rest, b', hops, hstage, hquote⟩
  · exact absurd hold List.not_mem_nil
  · refine ⟨before, op, rest, b', hops, hstage, hquote, midTaken_of_quote ?_ hquote⟩
    have hbefore := sound_after symbol config onTrade onExecution onBbo clock before
    cases hstage with
    | done => exact sound_calls.step hbefore trivial
    | cancelled uninit id => exact sound_calls.cancelOrder hbefore id

/-- The quote after an ask at 100, the first order. -/
def askOnly : BBOUpdate where
  symbol := (makeBook {}).symbol
  bidPrice := invalidPrice
  bidQty := 0
  askPrice := 100
  askQty := 10
  timestamp := 0

/-- Without a bid, `INVALID_PRICE` is added to the ask, and the sum wraps around; and so it does in
`mid_price` where the best prices are five and six times `10 ^ 18`. -/
theorem mids_overflow :
    (.bbo askOnly ∈ (after (makeBook {}) [.add (limitOrder 1 .Sell 100 10)]).feed.events ∧
      (∀ m : MarketMaker, (m.onBbo askOnly).lastMid = -4611686018427387854) ∧
      ¬ MidTaken askOnly) ∧
    ¬ MidExact (after (makeBook {}) [.add (limitOrder 1 .Sell 6000000000000000000 10),
      .add (limitOrder 2 .Buy 5000000000000000000 10)]) := by
  have hmaker : ∀ m : MarketMaker, (m.onBbo askOnly).lastMid = -4611686018427387854 := by
    intro m
    show (askOnly.bidPrice + askOnly.askPrice) / 2 = _
    decide +kernel
  refine ⟨⟨by decide +kernel, hmaker, fun h => h.bid_ne rfl⟩, fun h => ?_⟩
  exact absurd (h.exact (by decide +kernel) (by decide +kernel)) (by decide +kernel)

end OrderBook

end Exchange
