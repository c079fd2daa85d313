import Exchange.Agents.Model
import Exchange.Core.Run
import Mathlib.Algebra.BigOperators.Group.List.Basic

/-!
# The position limit of a market maker

A market maker quotes a side as long as its position is short of the limit there, by however little,
and always `base_size`: what is left of the limit may be less.

`QuotedMaker` is a market maker with its live quotes and the fills it has not been told of.  What a
side may still bring, `exposure`, is what its quotes leave and what is unreported of it.

* `Bounded.step` — no step takes position and exposure beyond the limit if a tick that quotes
  has room for the size it quotes;
* **`position_within_limit`** — so where every such tick has, the position stays within the limit;
* **`exceeded_of_not_hasRoom`** — where one has not, the fills of its quotes break the limit.
-/

namespace Exchange

open Run (Admitted Throughout)

/-- An order of the maker's that may still be filled. -/
structure LiveQuote where
  id : OrderId
  side : Side
  leaves : Quantity
deriving DecidableEq, Repr

/-- A market maker, its live quotes, and the fills that it has not been told of. -/
structure QuotedMaker where
  maker : MarketMaker
  quotes : List LiveQuote := []
  unreported : List ExecutionReport := []

/-- What happens to a market maker. -/
inductive MakerOp
  | tick (draws : Draws)
  /-- a live quote is filled -/
  | fill (i : Nat) (report : ExecutionReport)
  /-- `on_fill` -/
  | report (i : Nat)
  | bbo (update : BBOUpdate)
  /-- a quote has been refused, or is cancelled by somebody else -/
  | lost (i : Nat)

/-- How far the position has gone in the direction of a side. -/
def MarketMaker.towards (m : MarketMaker) : Side → ℤ
  | .Buy => m.position.toInt
  | .Sell => -m.position.toInt

/-- The position is short of the limit there, so that the side is quoted. -/
def MarketMaker.Quoted (m : MarketMaker) (side : Side) : Prop :=
  m.towards side < m.config.maxPosition.toNat

instance (m : MarketMaker) (side : Side) : Decidable (m.Quoted side) :=
  inferInstanceAs (Decidable (_ < _))

namespace QuotedMaker

/-- What a request does to the live quotes. -/
def serve (quotes : List LiveQuote) : Request → List LiveQuote
  | .order o => quotes ++ [⟨o.id, o.side, o.quantity⟩]
  | .cancel _ id => quotes.filter fun x => x.id ≠ id
  | .replace _ _ _ _ => quotes

def fillQuote (report : ExecutionReport) (x : LiveQuote) : LiveQuote :=
  { x with leaves := x.leaves - report.lastQty }

variable (s : QuotedMaker)

def step : MakerOp → QuotedMaker
  | .tick draws =>
      { s with
        maker := (s.maker.onTick draws).2
        quotes := (s.maker.onTick draws).1.foldl serve s.quotes }
  | .fill i report =>
      { s with
        quotes := s.quotes.modify i (fillQuote report)
        unreported := s.unreported ++ [report] }
  | .report i =>
      { s with
        maker := s.unreported[i]?.elim s.maker s.maker.onFill
        unreported := s.unreported.eraseIdx i }
  | .bbo update => { s with maker := s.maker.onBbo update }
  | .lost i => { s with quotes := s.quotes.eraseIdx i }

/-- A quote is filled by no more than it leaves, and every fill is reported before the next tick. -/
def Possible : MakerOp → Prop
  | .tick _ => s.unreported = []
  | .fill i report =>
      ∃ x ∈ s.quotes[i]?, report.side = x.side ∧ report.lastQty.toNat ≤ x.leaves.toNat
  | .report _ | .bbo _ | .lost _ => True

instance : (op : MakerOp) → Decidable (s.Possible op)
  | .tick _ => inferInstanceAs (Decidable (_ = _))
  | .fill _ _ => inferInstanceAs (Decidable (∃ _ ∈ _, _ ∧ _))
  | .report _ | .bbo _ | .lost _ => isTrue trivial

def start (config : MarketMakerConfig) : QuotedMaker where
  maker := { config }

/-- The limit is kept. -/
def WithinLimit : Prop := s.maker.position.toInt.natAbs ≤ s.maker.config.maxPosition.toNat

instance : Decidable s.WithinLimit := inferInstanceAs (Decidable (_ ≤ _))

/-- What quotes leave on a side. -/
def leftOn (side : Side) (quotes : List LiveQuote) : Nat :=
  (quotes.map fun x => if x.side = side then x.leaves.toNat else 0).sum

/-- What reports tell of a side. -/
def toldOn (side : Side) (reports : List ExecutionReport) : Nat :=
  (reports.map fun r => if r.side = side then r.lastQty.toNat else 0).sum

/-- What a side may still bring. -/
def exposure (side : Side) : Nat := leftOn side s.quotes + toldOn side s.unreported

/-- Nothing but the id 0 keeps a quote from being cancelled: 0 stands for no quote. -/
def uncancelled : List LiveQuote := s.quotes.filter fun x => x.id = 0

/-- There is room for the size that is quoted on a side. -/
def RoomOn (side : Side) : Prop :=
  s.maker.Quoted side →
    s.maker.towards side + (leftOn side s.uncancelled + s.maker.config.baseSize.toNat : ℕ)
      ≤ s.maker.config.maxPosition.toNat

instance (side : Side) : Decidable (s.RoomOn side) := inferInstanceAs (Decidable (_ → _))

/-- A tick that quotes has room for what it quotes. -/
def HasRoom : MakerOp → Prop
  | .tick draws => draws.acts = true → s.RoomOn .Buy ∧ s.RoomOn .Sell
  | .fill _ _ | .report _ | .bbo _ | .lost _ => True

instance : (op : MakerOp) → Decidable (s.HasRoom op)
  | .tick _ => inferInstanceAs (Decidable (_ → _))
  | .fill _ _ | .report _ | .bbo _ | .lost _ => isTrue trivial

/-- Position and exposure together are within the limit. -/
structure Bounded : Prop where
  remembered : ∀ x ∈ s.quotes, x.id = 0 ∨ x.id = s.maker.bidOrderId ∨ x.id = s.maker.askOrderId
  bounded : ∀ side, s.maker.towards side + s.exposure side ≤ s.maker.config.maxPosition.toNat

variable {s} {quotes quotes' : List LiveQuote} {report : ExecutionReport}
  {m m' : MarketMaker}

/-! ## Sums -/

lemma leftOn_append (side : Side) (quotes quotes' : List LiveQuote) :
    leftOn side (quotes ++ quotes') = leftOn side quotes + leftOn side quotes' := by
  rw [leftOn, List.map_append, List.sum_append]
  rfl

lemma leftOn_le_of_sublist (side : Side) (h : quotes.Sublist quotes') :
    leftOn side quotes ≤ leftOn side quotes' :=
  (h.map _).sum_le_sum fun _ _ => Nat.zero_le _

lemma mem_fill {i : Nat} {x : LiveQuote} (h : x ∈ quotes.modify i (fillQuote report)) :
    ∃ y ∈ quotes, x.id = y.id := by
  obtain ⟨j, hj⟩ := List.mem_iff_getElem?.mp h
  rw [List.getElem?_modify] at hj
  obtain ⟨y, hy, rfl⟩ := Option.map_eq_some_iff.mp hj
  refine ⟨y, List.mem_of_getElem? hy, ?_⟩
  split_ifs <;> rfl

/-- A fill takes what it says from its quote. -/
lemma leftOn_fill (side : Side) {i : Nat} {x : LiveQuote} (hx : quotes[i]? = some x)
    (hside : report.side = x.side) (hle : report.lastQty.toNat ≤ x.leaves.toNat) :
    leftOn side (quotes.modify i (fillQuote report)) + toldOn side [report]
      = leftOn side quotes := by
  induction quotes generalizing i with
  | nil => cases hx
  | cons y quotes ih =>
      cases i with
      | zero =>
          obtain rfl : y = x := Option.some.inj hx
          have hsub : (y.leaves - report.lastQty).toNat = y.leaves.toNat - report.lastQty.toNat :=
            UInt32.toNat_sub_of_le _ _ (UInt32.le_iff_toNat_le.mpr hle)
          simp only [leftOn, toldOn, List.modify_zero_cons, List.map_cons, List.map_nil,
            List.sum_cons, List.sum_nil, fillQuote, hside, hsub]
          split_ifs <;> omega
      | succ i =>
          have hrest := ih hx
          simp only [leftOn, List.modify_succ_cons, List.map_cons, List.sum_cons] at hrest ⊢
          omega

lemma toldOn_append (side : Side) (reports reports' : List ExecutionReport) :
    toldOn side (reports ++ reports') = toldOn side reports + toldOn side reports' := by
  rw [toldOn, List.map_append, List.sum_append]
  rfl

lemma toldOn_eraseIdx (side : Side) {reports : List ExecutionReport} {i : Nat}
    (h : reports[i]? = some report) :
    toldOn side [report] + toldOn side (reports.eraseIdx i) = toldOn side reports := by
  obtain ⟨hi, rfl⟩ := List.getElem?_eq_some_iff.mp h
  have hperm := List.getElem_cons_eraseIdx_perm hi
  rw [← toldOn_append]
  exact (hperm.map _).sum_eq

/-! ## Fills -/

/-- What a report does to the position. -/
lemma position_onFill (h : m.position.toInt.natAbs < 2 ^ 62) (report : ExecutionReport) :
    (m.onFill report).position.toInt
      = m.position.toInt + toldOn .Buy [report] - toldOn .Sell [report] := by
  have hlt := report.lastQty.toNat_lt
  have hqty := toInt_quantity report.lastQty
  rw [MarketMaker.onFill]
  simp only [toldOn, List.map_cons, List.map_nil, List.sum_cons, List.sum_nil]
  cases report.side with
  | Buy =>
      simp only [Int64.toInt_add, hqty, if_true, reduceCtorEq, if_false]
      rw [Int.bmod_eq_of_le] <;> omega
  | Sell =>
      simp only [Int64.toInt_sub, hqty, if_true, reduceCtorEq, if_false]
      rw [Int.bmod_eq_of_le] <;> omega

/-- A report of a fill. -/
def fillOf (x : LiveQuote) (quantity : Quantity) : ExecutionReport where
  orderId := x.id
  execId := 1
  symbol := .ofChars []
  side := x.side
  status := .Filled
  price := 1
  orderQty := x.leaves
  filledQty := quantity
  leavesQty := 0
  avgPrice := 1
  timestamp := 0
  lastPrice := 1
  lastQty := quantity

/-! ## A tick -/

/-- The cancel of a remembered id. -/
lemma foldl_serve_cancel (symbol : Symbol) (id : OrderId) (quotes : List LiveQuote) :
    (if id > 0 then [.cancel symbol id] else []).foldl serve quotes
      = quotes.filter fun x => x.id = 0 ∨ x.id ≠ id := by
  split_ifs with hid
  · refine List.filter_congr fun x _ => decide_eq_decide.mpr (or_iff_right_of_imp ?_).symm
    rintro hzero rfl
    rw [hzero] at hid
    exact absurd hid (by decide)
  · have hzero : id = 0 := UInt64.le_zero_iff.mp (UInt64.not_lt.mp hid)
    rw [hzero]
    exact (List.filter_eq_self.mpr fun x _ => decide_eq_true (Classical.em _)).symm

/-- The quotes that are left when both remembered ids are cancelled. -/
lemma filter_filter_remembered {bid ask : OrderId}
    (h : ∀ x ∈ quotes, x.id = 0 ∨ x.id = bid ∨ x.id = ask) :
    (quotes.filter fun x => x.id = 0 ∨ x.id ≠ bid).filter (fun x => x.id = 0 ∨ x.id ≠ ask)
      = quotes.filter fun x => x.id = 0 := by
  rw [List.filter_filter]
  refine List.filter_congr fun x hx => ?_
  have hx := h x hx
  rw [← Bool.decide_and, decide_eq_decide]
  tauto

lemma quoted_buy_iff :
    m.position < m.config.maxPosition.toUInt64.toInt64 ↔ m.Quoted .Buy := by
  rw [Int64.lt_iff_toInt_lt, toInt_quantity]
  rfl

lemma quoted_sell_iff :
    m.position > -m.config.maxPosition.toUInt64.toInt64 ↔ m.Quoted .Sell := by
  have hlt := m.config.maxPosition.toNat_lt
  have hneg : (-m.config.maxPosition.toUInt64.toInt64).toInt = -m.config.maxPosition.toNat := by
    rw [Int64.toInt_neg, toInt_quantity]
    exact Int.bmod_eq_of_le (by omega) (by omega)
  rw [gt_iff_lt, Int64.lt_iff_toInt_lt, hneg, neg_lt]
  rfl

/-- The quote of a side, if there is one. -/
def submitted (m : MarketMaker) (side : Side) (id : OrderId) : List LiveQuote :=
  if m.Quoted side then [⟨id, side, m.config.baseSize⟩] else []

/-- What a tick that quotes does. -/
structure Requoted (m m' : MarketMaker) (quotes quotes' : List LiveQuote) : Prop where
  position_eq : m'.position = m.position
  config_eq : m'.config = m.config
  quotes_eq : quotes' = quotes.filter (fun x => x.id = 0) ++
    submitted m .Buy m'.bidOrderId ++ submitted m .Sell m'.askOrderId

lemma requoted (m : MarketMaker)
    (h : ∀ x ∈ quotes, x.id = 0 ∨ x.id = m.bidOrderId ∨ x.id = m.askOrderId) :
    Requoted m m.updateQuotes.2 quotes (m.updateQuotes.1.foldl serve quotes) := by
  simp only [MarketMaker.updateQuotes]
  generalize m.config.skew m.position = skew
  by_cases hbid : m.Quoted .Buy
  · have hbid' := quoted_buy_iff.mpr hbid
    by_cases hask : m.Quoted .Sell
    · have hask' := quoted_sell_iff.mpr hask
      simp only [if_pos hbid', if_pos hask', List.foldl_append, foldl_serve_cancel,
        filter_filter_remembered h]
      refine ⟨rfl, rfl, ?_⟩
      rw [submitted, submitted, if_pos hbid, if_pos hask]
      rfl
    · have hask' := mt quoted_sell_iff.mp hask
      simp only [if_pos hbid', if_neg hask', List.foldl_append, foldl_serve_cancel,
        filter_filter_remembered h]
      refine ⟨rfl, rfl, ?_⟩
      rw [submitted, submitted, if_pos hbid, if_neg hask, List.append_nil]
      rfl
  · have hbid' := mt quoted_buy_iff.mp hbid
    by_cases hask : m.Quoted .Sell
    · have hask' := quoted_sell_iff.mpr hask
      simp only [if_neg hbid', if_pos hask', List.foldl_append, foldl_serve_cancel,
        filter_filter_remembered h]
      refine ⟨rfl, rfl, ?_⟩
      rw [submitted, submitted, if_neg hbid, if_pos hask, List.append_nil]
      rfl
    · have hask' := mt quoted_sell_iff.mp hask
      simp only [if_neg hbid', if_neg hask', List.foldl_append, foldl_serve_cancel,
        filter_filter_remembered h]
      refine ⟨rfl, rfl, ?_⟩
      rw [submitted, submitted, if_neg hbid, if_neg hask, List.append_nil, List.append_nil]
      rfl

lemma leftOn_submitted (m : MarketMaker) (side side' : Side) (id : OrderId) :
    leftOn side (submitted m side' id)
      = if side' = side ∧ m.Quoted side then m.config.baseSize.toNat else 0 := by
  rw [submitted]
  by_cases hside : side' = side
  · subst hside
    split_ifs <;> simp_all [leftOn]
  · split_ifs <;> simp_all [leftOn]

lemma Requoted.towards_eq (h : Requoted m m' quotes quotes') (side : Side) :
    m'.towards side = m.towards side := by
  cases side <;> simp only [MarketMaker.towards, h.position_eq]

lemma Requoted.leftOn_eq (h : Requoted m m' quotes quotes') (side : Side) :
    leftOn side quotes' = leftOn side (quotes.filter fun x => x.id = 0) +
      if m.Quoted side then m.config.baseSize.toNat else 0 := by
  rw [h.quotes_eq, leftOn_append, leftOn_append, leftOn_submitted, leftOn_submitted, Nat.add_assoc]
  cases side <;> simp

lemma Requoted.remembered (h : Requoted m m' quotes quotes') :
    ∀ x ∈ quotes', x.id = 0 ∨ x.id = m'.bidOrderId ∨ x.id = m'.askOrderId := by
  intro x hx
  rw [h.quotes_eq, List.mem_append, List.mem_append, submitted, submitted] at hx
  rcases hx with (hold | hbid) | hask
  · exact .inl (of_decide_eq_true (List.mem_filter.mp hold).2)
  · split_ifs at hbid
    · rw [List.mem_singleton.mp hbid]
      exact .inr (.inl rfl)
    · cases hbid
  · split_ifs at hask
    · rw [List.mem_singleton.mp hask]
      exact .inr (.inr rfl)
    · cases hask

/-! ## Runs -/

lemma Bounded.withinLimit (h : Bounded s) : WithinLimit s := by
  have hbuy := h.bounded .Buy
  have hsell := h.bounded .Sell
  simp only [MarketMaker.towards] at hbuy hsell
  rw [WithinLimit]
  omega

/-- What a report does to the way that is left. -/
lemma towards_onFill (h : WithinLimit s) (report : ExecutionReport) (side : Side) :
    (s.maker.onFill report).towards side ≤ s.maker.towards side + toldOn side [report] := by
  have hlt := s.maker.config.maxPosition.toNat_lt
  rw [WithinLimit] at h
  have hposition := position_onFill (m := s.maker) (by omega) report
  cases side with
  | Buy =>
      simp only [MarketMaker.towards]
      omega
  | Sell =>
      simp only [MarketMaker.towards]
      omega

lemma step_tick {draws : Draws} (hacts : draws.acts = true) :
    s.step (.tick draws) = { s with
      maker := s.maker.updateQuotes.2
      quotes := s.maker.updateQuotes.1.foldl serve s.quotes } := by
  rw [step, MarketMaker.onTick, hacts]
  rfl

lemma step_tick_idle {draws : Draws} (hacts : draws.acts = false) :
    s.step (.tick draws) = s := by
  rw [step, MarketMaker.onTick, hacts]
  rfl

/-- A tick that quotes, where there is room. -/
lemma Bounded.requoted (h : Bounded s) (hunreported : s.unreported = [])
    (hroom : ∀ side, s.RoomOn side) :
    Bounded { s with
      maker := s.maker.updateQuotes.2
      quotes := s.maker.updateQuotes.1.foldl serve s.quotes } := by
  have hrequoted := QuotedMaker.requoted s.maker h.remembered
  refine ⟨hrequoted.remembered, fun side => ?_⟩
  have hold := h.bounded side
  have hroom := hroom side
  have hleft := hrequoted.leftOn_eq side
  have hkept : leftOn side s.uncancelled ≤ leftOn side s.quotes :=
    leftOn_le_of_sublist side List.filter_sublist
  show s.maker.updateQuotes.2.towards side + ((leftOn side _ + toldOn side s.unreported : ℕ) : ℤ)
    ≤ s.maker.updateQuotes.2.config.maxPosition.toNat
  rw [hrequoted.towards_eq, hrequoted.config_eq, hleft, hunreported]
  rw [exposure, hunreported] at hold
  rw [RoomOn, uncancelled] at hroom
  rw [uncancelled] at hkept
  split_ifs with hquoted
  · have hroom := hroom hquoted
    simp only [toldOn, List.map_nil, List.sum_nil]
    omega
  · omega

/-- A fill moves what a quote leaves to what is unreported. -/
lemma Bounded.filled (h : Bounded s) {i : Nat} {x : LiveQuote} (hx : s.quotes[i]? = some x)
    (hside : report.side = x.side) (hle : report.lastQty.toNat ≤ x.leaves.toNat) :
    Bounded (s.step (.fill i report)) := by
  refine ⟨fun y hy => ?_, fun side => ?_⟩
  · obtain ⟨z, hz, hid⟩ := mem_fill hy
    rw [hid]
    exact h.remembered z hz
  · have hold := h.bounded side
    have hfill := leftOn_fill side hx hside hle
    show s.maker.towards side +
      ((leftOn side (s.quotes.modify i _) + toldOn side (s.unreported ++ [report]) : ℕ) : ℤ)
        ≤ s.maker.config.maxPosition.toNat
    rw [exposure] at hold
    rw [toldOn_append]
    omega

/-- A report moves what is unreported to the position. -/
lemma Bounded.reported (h : Bounded s) (i : Nat) : Bounded (s.step (.report i)) := by
  cases hreport : s.unreported[i]? with
  | none =>
      have hsame : s.step (.report i) = s := by
        rw [QuotedMaker.step, hreport, List.eraseIdx_of_length_le
          (List.getElem?_eq_none_iff.mp hreport)]
        rfl
      rwa [hsame]
  | some report =>
      have hstep : s.step (.report i) = { s with
          maker := s.maker.onFill report
          unreported := s.unreported.eraseIdx i } := by
        rw [QuotedMaker.step, hreport]
        rfl
      rw [hstep]
      refine ⟨h.remembered, fun side => ?_⟩
      have hold := h.bounded side
      have htold := toldOn_eraseIdx side hreport
      have htowards := towards_onFill h.withinLimit report side
      show (s.maker.onFill report).towards side +
        ((leftOn side s.quotes + toldOn side (s.unreported.eraseIdx i) : ℕ) : ℤ) ≤ _
      rw [exposure] at hold
      exact Int.le_trans (by omega) hold

lemma Bounded.lost (h : Bounded s) (i : Nat) : Bounded (s.step (.lost i)) := by
  refine ⟨fun x hx => h.remembered x ((List.eraseIdx_sublist _ i).subset hx), fun side => ?_⟩
  have hold := h.bounded side
  have hleft := leftOn_le_of_sublist side (List.eraseIdx_sublist s.quotes i)
  show s.maker.towards side +
    ((leftOn side (s.quotes.eraseIdx i) + toldOn side s.unreported : ℕ) : ℤ)
      ≤ s.maker.config.maxPosition.toNat
  rw [exposure] at hold
  omega

/-- The step lemma. -/
lemma Bounded.step (h : Bounded s) {op : MakerOp} (hpossible : Possible s op)
    (hroom : HasRoom s op) : Bounded (s.step op) := by
  cases op with
  | tick draws =>
      cases hacts : draws.acts with
      | false => rwa [step_tick_idle hacts]
      | true =>
          rw [step_tick hacts]
          refine h.requoted hpossible fun side => ?_
          cases side with
          | Buy => exact (hroom hacts).1
          | Sell => exact (hroom hacts).2
  | fill i report =>
      obtain ⟨x, hx, hside, hle⟩ := hpossible
      exact h.filled hx hside hle
  | report i => exact h.reported i
  | bbo update =>
      refine ⟨h.remembered, fun side => ?_⟩
      have hold := h.bounded side
      cases side <;> exact hold
  | lost i => exact h.lost i

lemma bounded_start (config : MarketMakerConfig) : Bounded (start config) where
  remembered := fun _ hx => absurd hx List.not_mem_nil
  bounded := by
    intro side
    cases side <;> exact Int.natCast_nonneg _

/-- **When the limit is kept.** -/
theorem position_within_limit (config : MarketMakerConfig) (ops : List MakerOp)
    (hpossible : Admitted step Possible (start config) ops)
    (hroom : Admitted step HasRoom (start config) ops) :
    Throughout step WithinLimit (start config) ops :=
  (Run.admitted_and.mpr ⟨hpossible, hroom⟩).throughout (fun _ h => h.withinLimit)
    (fun _ _ h hop => h.step hop.1 hop.2) (bounded_start config)

/-- A tick, and so much of the bid is filled. -/
def tickAndFill (quantity : Quantity) : List MakerOp :=
  [.tick { acts := true }, .fill 0 (fillOf ⟨0, .Buy, 100⟩ quantity), .report 0]

/-- A bid that is filled in part. -/
theorem limit_kept_after_part :
    Throughout step WithinLimit (start { symbol := .ofChars [65], skew := fun _ => 0 })
      (tickAndFill 40 ++ tickAndFill 100) :=
  position_within_limit _ _ (by decide +kernel) (by decide +kernel)

/-- Bids of 100 under a limit of 1000: one is half filled, and ten are filled. -/
def boughtOut : List MakerOp :=
  (List.replicate 9 (tickAndFill 100)).flatten ++ tickAndFill 50 ++ tickAndFill 100

/-- The position goes from 950 to 1050. -/
theorem limit_broken_at_950 :
    let config : MarketMakerConfig := { symbol := .ofChars [65], skew := fun _ => 0 }
    Admitted step Possible (start config) boughtOut ∧
      (Run.run step (start config) boughtOut).maker.position = 1050 ∧
      ¬ WithinLimit (Run.run step (start config) boughtOut) := by
  decide +kernel

/-! ## Where there is no room -/

/-- The first quote is filled, and is gone. -/
def fillFirst (x : LiveQuote) : List MakerOp := [.fill 0 (fillOf x x.leaves), .report 0, .lost 0]

lemma run_fillFirst {x : LiveQuote} (hquotes : s.quotes = x :: quotes)
    (hunreported : s.unreported = []) :
    Admitted step Possible s (fillFirst x) ∧
      Run.run step s (fillFirst x) =
        { s with maker := s.maker.onFill (fillOf x x.leaves), quotes := quotes } := by
  obtain ⟨maker, _, _⟩ := s
  cases hquotes
  cases hunreported
  exact ⟨⟨⟨x, rfl, rfl, Nat.le_refl _⟩, trivial, trivial, trivial⟩, rfl⟩

lemma towards_onFill_self (x : LiveQuote) (h : m.position.toInt.natAbs < 2 ^ 62) :
    (m.onFill (fillOf x x.leaves)).towards x.side = m.towards x.side + x.leaves.toNat := by
  have hposition := position_onFill h (fillOf x x.leaves)
  obtain ⟨id, side, leaves⟩ := x
  cases side with
  | Buy =>
      have hposition : _ = m.position.toInt + ((leaves.toNat + 0 : ℕ) : ℤ) - 0 := hposition
      simp only [MarketMaker.towards, hposition]
      omega
  | Sell =>
      have hposition : _ = m.position.toInt + 0 - ((leaves.toNat + 0 : ℕ) : ℤ) := hposition
      simp only [MarketMaker.towards, hposition]
      omega

/-- All the quotes of a side are filled. -/
lemma exists_run_filled (side : Side) (hunreported : s.unreported = [])
    (hsmall : s.maker.position.toInt.natAbs + leftOn side s.quotes < 2 ^ 62) :
    ∃ ops, Admitted step Possible s ops ∧
      (Run.run step s ops).maker.towards side = s.maker.towards side + leftOn side s.quotes ∧
      (Run.run step s ops).maker.config = s.maker.config := by
  obtain ⟨quotes, hquotes⟩ : ∃ quotes, s.quotes = quotes := ⟨_, rfl⟩
  induction quotes generalizing s with
  | nil =>
      refine ⟨[], trivial, ?_, rfl⟩
      rw [hquotes]
      exact (Int.add_zero _).symm
  | cons x quotes ih =>
      have hsum : leftOn side s.quotes
          = (if x.side = side then x.leaves.toNat else 0) + leftOn side quotes := by
        rw [hquotes]
        rfl
      by_cases hside : x.side = side
      · subst hside
        obtain ⟨hadmitted, hrun⟩ := run_fillFirst hquotes hunreported
        have hself := towards_onFill_self (m := s.maker) x (by omega)
        have hgrown : (s.maker.onFill (fillOf x x.leaves)).position.toInt.natAbs
            ≤ s.maker.position.toInt.natAbs + x.leaves.toNat := by
          cases hx : x.side <;> rw [hx] at hself <;> simp only [MarketMaker.towards] at hself <;>
            omega
        rw [if_pos rfl] at hsum
        obtain ⟨ops, hops, htowards, hconfig⟩ := ih
          (s := { s with maker := s.maker.onFill (fillOf x x.leaves), quotes := quotes })
          hunreported (by simp only; omega) rfl
        refine ⟨fillFirst x ++ ops, Run.admitted_append.mpr ⟨hadmitted, by rwa [hrun]⟩, ?_, ?_⟩
        · rw [Run.run_append, hrun, htowards, hself, hsum]
          push_cast
          omega
        · rw [Run.run_append, hrun, hconfig]
          rfl
      · rw [if_neg hside, Nat.zero_add] at hsum
        have hlost : s.step (.lost 0) = { s with quotes := quotes } := by
          rw [step, hquotes]
          rfl
        obtain ⟨ops, hops, htowards, hconfig⟩ := ih (s := { s with quotes := quotes }) hunreported
          (by simp only; omega) rfl
        refine ⟨.lost 0 :: ops, ⟨trivial, by rwa [hlost]⟩, ?_, ?_⟩
        · rw [Run.run, List.foldl_cons, hlost, hsum]
          exact htowards
        · rw [Run.run, List.foldl_cons, hlost]
          exact hconfig

/-- **Where there is no room**, the limit can be broken before the next tick. -/
theorem exceeded_of_not_hasRoom (h : Bounded s) {draws : Draws}
    (hpossible : Possible s (.tick draws)) (hroom : ¬ HasRoom s (.tick draws)) :
    ∃ ops, Admitted step Possible (s.step (.tick draws)) ops ∧
      ¬ WithinLimit (Run.run step (s.step (.tick draws)) ops) := by
  have hfull : ∃ side, ¬ s.RoomOn side := by
    by_contra hnone
    rw [not_exists_not] at hnone
    exact hroom fun _ => ⟨hnone .Buy, hnone .Sell⟩
  have hacts : draws.acts = true := by
    by_contra hidle
    exact hroom fun hacts => absurd hacts hidle
  obtain ⟨side, hfull⟩ := hfull
  obtain ⟨hquoted, hexceeds⟩ := Classical.not_imp.mp hfull
  have hrequoted := requoted s.maker h.remembered
  have hleft := hrequoted.leftOn_eq side
  rw [if_pos hquoted] at hleft
  have hkept : leftOn side s.uncancelled ≤ leftOn side s.quotes :=
    leftOn_le_of_sublist side List.filter_sublist
  have hwithin := h.withinLimit
  have hbounded := h.bounded side
  have hbase := s.maker.config.baseSize.toNat_lt
  have hlimit := s.maker.config.maxPosition.toNat_lt
  rw [WithinLimit] at hwithin
  rw [exposure] at hbounded
  rw [uncancelled] at hexceeds hkept
  have hnear : -(s.maker.config.maxPosition.toNat : ℤ) ≤ s.maker.towards side := by
    cases side <;> simp only [MarketMaker.towards] <;> omega
  obtain ⟨ops, hops, htowards, hconfig⟩ := exists_run_filled
    (s := { s with
      maker := s.maker.updateQuotes.2
      quotes := s.maker.updateQuotes.1.foldl serve s.quotes }) side hpossible (by
        simp only [hrequoted.position_eq, hleft]
        omega)
  rw [step_tick hacts]
  refine ⟨ops, hops, fun hkeeps => ?_⟩
  simp only [hrequoted.towards_eq, hleft] at htowards
  rw [WithinLimit, hconfig] at hkeeps
  simp only [hrequoted.config_eq] at hkeeps
  cases side <;> simp only [MarketMaker.towards] at htowards hexceeds <;> omega

end QuotedMaker

end Exchange
