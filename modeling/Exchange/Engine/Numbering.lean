import Exchange.Engine.Calls
import Exchange.OrderBook.BatchedTrades
import Exchange.OrderBook.Pending
import Exchange.OrderBook.Quotes
import Mathlib.Data.List.Chain

/-!
# What subscribers can number by

Trades and execution reports of a book share one counter, and a quote is sent when it differs from
the one before.  Callbacks may be registered and taken away at any time.

* **`numbered_once`** — the numbers of the trades and those of the reports both ascend, and together
  they are the numbers from 1 on, each once, although a batch sends its trades after reports with
  higher numbers;
* **`quotes_change`** — no two quotes in a row have the same prices.
-/

namespace Exchange

namespace Feed

variable {f f' : Feed} {config : OrderBookConfig} {n : Nat}

/-! ## Numbers -/

/-- The numbers from 1 to `n`, in 64 bits. -/
def numbers (n : Nat) : List SequenceNum := (List.range n).map fun k => .ofNat (k + 1)

lemma numbers_succ (n : Nat) : numbers (n + 1) = numbers n ++ [.ofNat (n + 1)] := by
  rw [numbers, List.range_succ, List.map_append]
  rfl

/-- `n` numbers have been drawn, and nothing waits in a book that does not batch. -/
structure CountedTo (config : OrderBookConfig) (f : Feed) (n : Nat) : Prop where
  next_eq : f.nextSeqNum = .ofNat (n + 1)
  trades_ascend : (f.trades.map (·.seqNum)).Sublist (numbers n)
  reports_ascend : (f.reports.map (·.execId)).Sublist (numbers n)
  once : (f.trades.map (·.seqNum) ++ f.reports.map (·.execId)).Perm (numbers n)
  pending : config.batchCallbacks = false → f.pendingTrades = []

/-- A trade draws the next number. -/
lemma CountedTo.trade (h : CountedTo config f n) {t : Trade} (ht : t.seqNum = f.nextSeqNum)
    (hnext : f'.nextSeqNum = f.nextSeqNum + 1) (htrades : f'.trades = f.trades ++ [t])
    (hreports : f'.reports = f.reports)
    (hpending : config.batchCallbacks = false → f'.pendingTrades = []) :
    CountedTo config f' (n + 1) where
  next_eq := by rw [hnext, h.next_eq, ofNat_succ (n + 1)]
  trades_ascend := by
    rw [htrades, List.map_append, List.map_singleton, ht, h.next_eq, numbers_succ]
    exact h.trades_ascend.append (.refl _)
  reports_ascend := by
    rw [hreports, numbers_succ]
    exact h.reports_ascend.trans (List.sublist_append_left _ _)
  once := by
    rw [htrades, hreports, List.map_append, List.map_singleton, ht, h.next_eq, numbers_succ,
      List.append_assoc]
    exact (List.perm_append_comm.append_left _).trans
      ((List.append_assoc _ _ _).symm ▸ h.once.append_right _)
  pending := hpending

/-- So does a report. -/
lemma CountedTo.report (h : CountedTo config f n) {r : ExecutionReport}
    (hr : r.execId = f.nextSeqNum) (hnext : f'.nextSeqNum = f.nextSeqNum + 1)
    (htrades : f'.trades = f.trades) (hreports : f'.reports = f.reports ++ [r])
    (hpending : f'.pendingTrades = f.pendingTrades) : CountedTo config f' (n + 1) where
  next_eq := by rw [hnext, h.next_eq, ofNat_succ (n + 1)]
  trades_ascend := by
    rw [htrades, numbers_succ]
    exact h.trades_ascend.trans (List.sublist_append_left _ _)
  reports_ascend := by
    rw [hreports, List.map_append, List.map_singleton, hr, h.next_eq, numbers_succ]
    exact h.reports_ascend.append (.refl _)
  once := by
    rw [htrades, hreports, List.map_append, List.map_singleton, hr, h.next_eq, numbers_succ,
      ← List.append_assoc]
    exact h.once.append_right _
  pending hbatch := hpending.trans (h.pending hbatch)

/-- What draws no number. -/
lemma CountedTo.same (h : CountedTo config f n) (hnext : f'.nextSeqNum = f.nextSeqNum)
    (htrades : f'.trades = f.trades) (hreports : f'.reports = f.reports)
    (hpending : config.batchCallbacks = false → f'.pendingTrades = []) : CountedTo config f' n where
  next_eq := hnext.trans h.next_eq
  trades_ascend := htrades ▸ h.trades_ascend
  reports_ascend := hreports ▸ h.reports_ascend
  once := by
    rw [htrades, hreports]
    exact h.once
  pending := hpending

/-- The step lemma. -/
lemma counted_calls (config : OrderBookConfig) :
    OrderBook.FeedInvariant config fun f => ∃ n, CountedTo config f n where
  emitTrade f symbol buy sell price qty aggressor := by
    rintro ⟨n, h⟩
    by_cases honTrade : f.onTrade = true
    · have hlive : f.Live config := ⟨honTrade, h.pending⟩
      obtain ⟨-, -, hnext, -, -, hreports⟩ :=
        emitTrade_fields config symbol buy sell price qty aggressor honTrade
      exact ⟨n + 1, h.trade rfl hnext (hlive.trades_emitTrade symbol buy sell price qty aggressor)
        hreports (hlive.emitTrade symbol buy sell price qty aggressor).pending⟩
    · refine ⟨n, ?_⟩
      rw [emitTrade, if_pos (by simpa using honTrade)]
      exact h
  emitExecutionReport f order filled avg := by
    rintro ⟨n, h⟩
    have htrades := trades_emitExecutionReport f order avg filled
    have hpending := pending_emitExecutionReport (f := f) order avg filled
    simp only [Feed.emitExecutionReport] at htrades hpending ⊢
    split_ifs at htrades hpending ⊢
    · exact ⟨n, h⟩
    · exact ⟨n + 1, h.report rfl rfl htrades List.filterMap_append hpending⟩
  flushTrades f := by
    rintro ⟨n, h⟩
    refine ⟨n, h.same nextSeqNum_flushTrades (trades_flushTrades f) ?_ fun hbatch => ?_⟩
    · rw [Feed.flushTrades]
      split_ifs
      · rfl
      · simp [reports, Event.execution?]
    · rw [Feed.flushTrades]
      split_ifs
      · exact h.pending hbatch
      · rfl
  maybeEmitBbo f symbol s := by
    rintro ⟨n, h⟩
    refine ⟨n, h.same ?_ (trades_maybeEmitBbo f symbol s) ?_ fun hbatch => ?_⟩
    · rw [Feed.maybeEmitBbo]
      split_ifs <;> rfl
    · rw [Feed.maybeEmitBbo]
      split_ifs <;> simp [reports, Event.execution?]
    · rw [pending_maybeEmitBbo]
      exact h.pending hbatch

/-! ## Quotes -/

/-- The prices of the quotes sent, after those of a book that is empty. -/
def quotes (f : Feed) : List (Price × Price) :=
  (invalidPrice, invalidPrice) :: (f.events.filterMap Event.bbo?).map fun u =>
    (u.bidPrice, u.askPrice)

/-- No two in a row are the same, and the last one is remembered. -/
structure Changing (f : Feed) : Prop where
  changes : f.quotes.IsChain (· ≠ ·)
  last_eq : f.quotes.getLast? = some (f.lastBboBid, f.lastBboAsk)

lemma Changing.same (h : f.Changing) (hquotes : f'.quotes = f.quotes)
    (hbid : f'.lastBboBid = f.lastBboBid) (hask : f'.lastBboAsk = f.lastBboAsk) : f'.Changing where
  changes := hquotes ▸ h.changes
  last_eq := by rw [hquotes, hbid, hask, h.last_eq]

/-- Events that are not quotes. -/
lemma quotes_append {events : List Event} (h : f'.events = f.events ++ events)
    (hnone : events.filterMap Event.bbo? = []) : f'.quotes = f.quotes := by
  simp only [quotes, h, List.filterMap_append, hnone, List.append_nil]

lemma Changing.flushTrades (h : f.Changing) : f.flushTrades.Changing := by
  rw [Feed.flushTrades]
  split_ifs
  · exact h
  · exact h.same (quotes_append rfl (by simp [Event.bbo?])) rfl rfl

/-- The step lemma. -/
lemma changing_calls (config : OrderBookConfig) : OrderBook.FeedInvariant config Changing where
  emitTrade f symbol buy sell price qty aggressor h := by
    simp only [Feed.emitTrade]
    split_ifs
    · exact h
    · exact Changing.flushTrades (h.same rfl rfl rfl)
    · exact h.same rfl rfl rfl
    · exact h.same (quotes_append rfl rfl) rfl rfl
  emitExecutionReport f order filled avg h := by
    rw [Feed.emitExecutionReport]
    split_ifs
    · exact h
    · exact h.same (quotes_append rfl rfl) rfl rfl
  flushTrades f h := h.flushTrades
  maybeEmitBbo f symbol s h := by
    rw [Feed.maybeEmitBbo]
    split_ifs with hoff hdiffers
    · exact h
    · generalize hf' : ({ f with clock := _, events := _, lastBboBid := _, lastBboAsk := _ } : Feed)
        = f'
      have hquotes : f'.quotes = f.quotes ++ [(s.bestBid, s.bestAsk)] := by
        rw [← hf', quotes, List.filterMap_append, List.map_append]
        rfl
      refine ⟨?_, ?_⟩
      · rw [hquotes, List.isChain_append]
        refine ⟨h.changes, List.IsChain.singleton _, fun last hlast new hnew => ?_⟩
        rw [h.last_eq] at hlast
        cases hlast
        cases hnew
        rintro heq
        obtain ⟨hbid, hask⟩ := Prod.mk.inj heq
        exact hdiffers.elim (fun hne => hne hbid.symm) fun hne => hne hask.symm
      · rw [hquotes, List.getLast?_concat, ← hf']
    · exact h

end Feed

/-! ## Runs -/

namespace OrderBook

/-- What holds of the feed of a book, whatever is called. -/
lemma feed_apply {b : OrderBook} {I : Feed → Prop} (h : FeedInvariant b.config I) (hb : I b.feed)
    (op : Op) : I (b.apply op).feed ∧ (b.apply op).config = b.config :=
  ⟨h.step hb op, (FeedInvariant.config_calls b.config).step rfl trivial⟩

lemma counted_books : MatchingEngine.BookInvariant fun b => ∃ n, b.feed.CountedTo b.config n where
  new symbol config onTrade onExecution clock :=
    ⟨0, rfl, .slnil, .slnil, .nil, fun _ => rfl⟩
  apply {b} op h := by
    obtain ⟨⟨n, h⟩, hconfig⟩ := feed_apply (Feed.counted_calls b.config) h op
    exact ⟨n, hconfig ▸ h⟩
  setTradeCallback registered := by
    rintro ⟨n, h⟩
    exact ⟨n, h.1, h.2, h.3, h.4, h.5⟩
  setExecutionCallback registered := by
    rintro ⟨n, h⟩
    exact ⟨n, h.1, h.2, h.3, h.4, h.5⟩

/-- **Each number once.**  In every run of an engine, with callbacks registered and taken away at
any time and requests made directly or through the queue: the trades of a book, delivered or
pending, have ascending numbers, its execution reports have ascending numbers, and all of them
together have the numbers from 1 up to the one before the next, each once; in 64 bits. -/
theorem numbered_once (config : OrderBookConfig) (onTrade onExecution : Bool)
    (clocks : Nat → Stream' Timestamp) (symbols : List Symbol) (ops : List MatchingEngine.Op) :
    let e := Run.run MatchingEngine.apply (.start config onTrade onExecution clocks symbols) ops
    ∀ symbol b, e.book? symbol = some b → ∃ n,
      b.feed.nextSeqNum = .ofNat (n + 1) ∧
      (b.feed.trades.map (·.seqNum)).Sublist (Feed.numbers n) ∧
      (b.feed.reports.map (·.execId)).Sublist (Feed.numbers n) ∧
      (b.feed.trades.map (·.seqNum) ++ b.feed.reports.map (·.execId)).Perm (Feed.numbers n) := by
  intro e symbol b hb
  obtain ⟨n, h⟩ := MatchingEngine.allBooks_run counted_books config onTrade onExecution clocks
    symbols ops symbol b hb
  exact ⟨n, h.next_eq, h.trades_ascend, h.reports_ascend, h.once⟩

/-- Two trades, made while nobody listens to reports. -/
theorem numbered_once_sample :
    ∃ b, (Run.run MatchingEngine.apply
        (.start {} true true (fun _ _ => 0) [.ofChars [84, 69, 83, 84]])
        [.direct {} (.order (limitOrder 1 .Sell 100 10)),
          .direct {} (.order (limitOrder 2 .Sell 101 10)), .setExecutionCallback false,
          .direct {} (.order (limitOrder 3 .Buy 101 15))]).book? (.ofChars [84, 69, 83, 84])
            = some b ∧
      ∃ n, b.feed.nextSeqNum = .ofNat (n + 1) ∧
        (b.feed.trades.map (·.seqNum)).Sublist (Feed.numbers n) ∧
        (b.feed.reports.map (·.execId)).Sublist (Feed.numbers n) ∧
        (b.feed.trades.map (·.seqNum) ++ b.feed.reports.map (·.execId)).Perm (Feed.numbers n) := by
  have hsome : ((Run.run MatchingEngine.apply
      (.start {} true true (fun _ _ => 0) [.ofChars [84, 69, 83, 84]])
      [.direct {} (.order (limitOrder 1 .Sell 100 10)),
        .direct {} (.order (limitOrder 2 .Sell 101 10)), .setExecutionCallback false,
        .direct {} (.order (limitOrder 3 .Buy 101 15))]).book?
          (.ofChars [84, 69, 83, 84])).isSome = true := by
    decide +kernel
  obtain ⟨b, hb⟩ := Option.isSome_iff_exists.mp hsome
  exact ⟨b, hb, numbered_once {} true true (fun _ _ => 0) [.ofChars [84, 69, 83, 84]] _ _ b hb⟩

/-- **No quote twice in a row.**  In every run of calls of a book, with any callbacks: a quote that
is sent has other prices than the one sent before it, and the first has other prices than an empty
book. -/
theorem quotes_change (symbol : Symbol) (config : OrderBookConfig)
    (onTrade onExecution onBbo : Bool) (clock : Stream' Timestamp) (ops : List Op) :
    (after (new symbol config onTrade onExecution onBbo clock) ops).feed.quotes.IsChain
      (· ≠ ·) := by
  have hstart : (new symbol config onTrade onExecution onBbo clock).feed.Changing :=
    ⟨List.IsChain.singleton _, rfl⟩
  exact ((Feed.changing_calls config).run hstart ops).changes

end OrderBook

end Exchange
