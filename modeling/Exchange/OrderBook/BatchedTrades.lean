import Exchange.OrderBook.Lockstep
import Exchange.OrderBook.Trades
import Mathlib.Data.List.Perm.Subperm

/-!
# Batching does not change the trade stream

A book that batches its trades delivers them later, and that is all: with the trades still pending
added at the end, its stream is that of a book that does not (`Feed.SameStream`).  Both draw the
numbers of their trades from the counter they share with execution reports, in the same order
(**`same_trade_stream`**).

The counter has 64 bits.  Trade numbers increase strictly until it wraps (`Feed.Numbered`), and
`seq_num_wraps` is a run in which it has.
-/

namespace Exchange

open OrderBook

namespace Feed

/-- The execution reports delivered so far. -/
def reports (f : Feed) : List ExecutionReport := f.events.filterMap Event.execution?

/-- Sequence numbers drawn so far: by trades and by execution reports. -/
def numbersDrawn (f : Feed) : Nat := f.trades.length + f.reports.length

/-! ## The same stream -/

/-- Two feeds that tell the same, at other times. -/
structure SameStream (f f' : Feed) : Prop where
  onTrade_eq : f'.onTrade = f.onTrade
  onExecution_eq : f'.onExecution = f.onExecution
  onBbo_eq : f'.onBbo = f.onBbo
  nextSeqNum_eq : f'.nextSeqNum = f.nextSeqNum
  lastBboBid_eq : f'.lastBboBid = f.lastBboBid
  lastBboAsk_eq : f'.lastBboAsk = f.lastBboAsk
  trades_eq : f'.trades.map Trade.untimed = f.trades.map Trade.untimed

namespace SameStream

variable {f f' f'' : Feed}

lemma symm (h : SameStream f f') : SameStream f' f :=
  ⟨h.1.symm, h.2.symm, h.3.symm, h.4.symm, h.5.symm, h.6.symm, h.7.symm⟩

lemma trans (h : SameStream f f') (h' : SameStream f' f'') : SameStream f f'' :=
  ⟨h'.1.trans h.1, h'.2.trans h.2, h'.3.trans h.3, h'.4.trans h.4, h'.5.trans h.5, h'.6.trans h.6,
    h'.7.trans h.7⟩

/-- Flushing tells nothing new. -/
lemma flushTrades (f : Feed) : SameStream f f.flushTrades := by
  have htrades : f.flushTrades.trades.map Trade.untimed = f.trades.map Trade.untimed := by
    rw [trades_flushTrades]
  rw [Feed.flushTrades] at htrades ⊢
  split_ifs at htrades ⊢
  · exact ⟨rfl, rfl, rfl, rfl, rfl, rfl, rfl⟩
  · exact ⟨rfl, rfl, rfl, rfl, rfl, rfl, htrades⟩

lemma flush_congr (h : SameStream f f') : SameStream f.flushTrades f'.flushTrades :=
  (flushTrades f).symm.trans (h.trans (flushTrades f'))

lemma flush_ite (f : Feed) (c : Bool) : SameStream f (if c then f.flushTrades else f) := by
  split_ifs
  · exact flushTrades f
  · exact ⟨rfl, rfl, rfl, rfl, rfl, rfl, rfl⟩

end SameStream

section Emit

variable {f f' : Feed} (config : OrderBookConfig) {config' : OrderBookConfig} (symbol : Symbol)
  (buy sell order : Order) (price : Price) (qty : Quantity) (aggressor : Side) (s : Store)

lemma nextSeqNum_flushTrades : f.flushTrades.nextSeqNum = f.nextSeqNum :=
  (SameStream.flushTrades f).nextSeqNum_eq

/-- What a trade changes besides the stream. -/
lemma emitTrade_fields (honTrade : f.onTrade = true) :
    let f' := f.emitTrade config symbol buy sell price qty aggressor
    f'.onExecution = f.onExecution ∧ f'.onBbo = f.onBbo ∧ f'.nextSeqNum = f.nextSeqNum + 1 ∧
      f'.lastBboBid = f.lastBboBid ∧ f'.lastBboAsk = f.lastBboAsk ∧ f'.reports = f.reports := by
  simp only [emitTrade, Feed.flushTrades, honTrade]
  split_ifs <;> simp_all [reports, Event.execution?]

lemma SameStream.emitTrade (h : SameStream f f') (hf : f.Live config) (hf' : f'.Live config') :
    SameStream (f.emitTrade config symbol buy sell price qty aggressor)
      (f'.emitTrade config' symbol buy sell price qty aggressor) := by
  obtain ⟨h1, h2, h3, h4, h5, -⟩ :=
    emitTrade_fields config symbol buy sell price qty aggressor hf.onTrade
  obtain ⟨h1', h2', h3', h4', h5', -⟩ :=
    emitTrade_fields config' symbol buy sell price qty aggressor hf'.onTrade
  refine ⟨by simp [h.onTrade_eq], by rw [h1, h1', h.onExecution_eq], by rw [h2, h2', h.onBbo_eq],
    by rw [h3, h3', h.nextSeqNum_eq], by rw [h4, h4', h.lastBboBid_eq],
    by rw [h5, h5', h.lastBboAsk_eq], ?_⟩
  rw [hf.trades_emitTrade, hf'.trades_emitTrade, List.map_append, List.map_append, h.trades_eq]
  simp [nextTrade, Trade.untimed, h.nextSeqNum_eq]

lemma SameStream.maybeEmitBbo (h : SameStream f f') :
    SameStream (f.maybeEmitBbo symbol s) (f'.maybeEmitBbo symbol s) := by
  have htrades : (f'.maybeEmitBbo symbol s).trades.map Trade.untimed
      = (f.maybeEmitBbo symbol s).trades.map Trade.untimed := by
    rw [trades_maybeEmitBbo, trades_maybeEmitBbo, h.trades_eq]
  simp only [Feed.maybeEmitBbo, h.onBbo_eq, h.lastBboBid_eq, h.lastBboAsk_eq] at htrades ⊢
  split_ifs at htrades ⊢
  · exact h
  · exact ⟨h.onTrade_eq, h.onExecution_eq, rfl, h.nextSeqNum_eq, rfl, rfl, htrades⟩
  · exact h

lemma SameStream.emitExecutionReport (h : SameStream f f') :
    SameStream (f.emitExecutionReport order qty price)
      (f'.emitExecutionReport order qty price) := by
  have htrades : (f'.emitExecutionReport order qty price).trades.map Trade.untimed
      = (f.emitExecutionReport order qty price).trades.map Trade.untimed := by
    rw [trades_emitExecutionReport, trades_emitExecutionReport, h.trades_eq]
  simp only [Feed.emitExecutionReport, h.onExecution_eq] at htrades ⊢
  split_ifs at htrades ⊢
  · exact h
  · exact ⟨h.onTrade_eq, rfl, h.onBbo_eq, by simp only [h.nextSeqNum_eq], h.lastBboBid_eq,
      h.lastBboAsk_eq, htrades⟩

end Emit

lemma Live.flushBatch {f : Feed} {config : OrderBookConfig} (h : f.Live config) :
    (if config.batchCallbacks then f.flushTrades else f).Live config := by
  split_ifs
  · exact h.flushTrades
  · exact h

end Feed

namespace OrderBook

/-- Batched or not, the stream is the same. -/
theorem sameStream_simulation {config config' : OrderBookConfig} (h : SameRules config config') :
    FeedSimulation config config'
      fun f f' => f.SameStream f' ∧ f.Live config ∧ f'.Live config' where
  toSameRules := h
  emitTrade _ _ _ _ _ _ _ _ hf :=
    ⟨hf.1.emitTrade _ _ _ _ _ _ _ hf.2.1 hf.2.2, hf.2.1.emitTrade _ _ _ _ _ _,
      hf.2.2.emitTrade _ _ _ _ _ _⟩
  emitExecutionReport _ _ _ _ _ hf :=
    ⟨hf.1.emitExecutionReport _ _ _, hf.2.1.emitExecutionReport _ _ _,
      hf.2.2.emitExecutionReport _ _ _⟩
  maybeEmitBbo _ _ _ _ hf :=
    ⟨hf.1.maybeEmitBbo _ _, hf.2.1.maybeEmitBbo _ _, hf.2.2.maybeEmitBbo _ _⟩
  flushTrades _ _ hf := ⟨hf.1.flush_congr, hf.2.1.flushTrades, hf.2.2.flushTrades⟩
  flushBatch f f' hf :=
    ⟨(Feed.SameStream.flush_ite f _).symm.trans (hf.1.trans (.flush_ite f' _)),
      hf.2.1.flushBatch, hf.2.2.flushBatch⟩

end OrderBook

/-! ## Numbers -/

namespace Feed

/-- Each trade has the next number of the counter; until that wraps, the numbers increase. -/
structure Numbered (f : Feed) : Prop where
  nextSeqNum_eq : f.nextSeqNum = UInt64.ofNat (f.numbersDrawn + 1)
  increasing : f.numbersDrawn < 2 ^ 64 → f.trades.Pairwise fun t u => t.seqNum < u.seqNum
  drawn : f.numbersDrawn < 2 ^ 64 → ∀ t ∈ f.trades, t.seqNum.toNat ≤ f.numbersDrawn

variable {f f' : Feed} {config : OrderBookConfig}

/-- Where nothing is numbered, the numbers stay as they are. -/
lemma Numbered.congr (h : f.Numbered) (hnext : f'.nextSeqNum = f.nextSeqNum)
    (htrades : f'.trades = f.trades) (hreports : f'.reports = f.reports) : f'.Numbered := by
  have hdrawn : f'.numbersDrawn = f.numbersDrawn := by
    rw [numbersDrawn, numbersDrawn, htrades, hreports]
  refine ⟨by rw [hnext, hdrawn, h.nextSeqNum_eq], ?_, ?_⟩
  · rw [hdrawn, htrades]
    exact h.increasing
  · rw [hdrawn, htrades]
    exact h.drawn

lemma ofNat_succ (n : Nat) : UInt64.ofNat (n + 1) = UInt64.ofNat n + 1 := by
  rw [UInt64.ofNat_add]
  rfl

/-- A trade draws a number. -/
lemma Numbered.emitTrade (h : f.Numbered) (hf : f.Live config) (symbol : Symbol)
    (buy sell : Order) (price : Price) (qty : Quantity) (aggressor : Side) :
    (f.emitTrade config symbol buy sell price qty aggressor).Numbered := by
  obtain ⟨-, -, hnext, -, -, hreports⟩ :=
    emitTrade_fields config symbol buy sell price qty aggressor hf.onTrade
  have htrades := hf.trades_emitTrade symbol buy sell price qty aggressor
  have hdrawn : (f.emitTrade config symbol buy sell price qty aggressor).numbersDrawn
      = f.numbersDrawn + 1 := by
    rw [numbersDrawn, numbersDrawn, htrades, hreports, List.length_append, List.length_singleton]
    omega
  have hnew : f.numbersDrawn + 1 < 2 ^ 64 →
      (f.nextTrade symbol buy sell price qty aggressor).seqNum.toNat = f.numbersDrawn + 1 := by
    intro hlt
    show f.nextSeqNum.toNat = _
    rw [h.nextSeqNum_eq, UInt64.toNat_ofNat', Nat.mod_eq_of_lt hlt]
  refine ⟨by rw [hnext, hdrawn, h.nextSeqNum_eq, ofNat_succ (f.numbersDrawn + 1)], ?_, ?_⟩
  · intro hlt
    rw [hdrawn] at hlt
    rw [htrades, List.pairwise_append]
    refine ⟨h.increasing (by omega), List.pairwise_singleton _ _, fun t ht u hu => ?_⟩
    rw [List.mem_singleton.mp hu, UInt64.lt_iff_toNat_lt, hnew hlt]
    have hle := h.drawn (by omega) t ht
    omega
  · intro hlt t ht
    rw [hdrawn] at hlt ⊢
    rw [htrades] at ht
    rcases List.mem_append.mp ht with ht | ht
    · have hle := h.drawn (by omega) t ht
      omega
    · rw [List.mem_singleton.mp ht, hnew hlt]

/-- So does a report. -/
lemma Numbered.emitExecutionReport (h : f.Numbered) (order : Order) (filled : Quantity)
    (avg : Price) : (f.emitExecutionReport order filled avg).Numbered := by
  have htrades := trades_emitExecutionReport f order avg filled
  simp only [Feed.emitExecutionReport] at htrades ⊢
  split_ifs at htrades ⊢
  · exact h
  · generalize hf' : ({ f with nextSeqNum := _, clock := _, events := _ } : Feed) = f' at htrades ⊢
    have hdrawn : f'.numbersDrawn = f.numbersDrawn + 1 := by
      rw [numbersDrawn, numbersDrawn, htrades, ← hf']
      simp [reports, Event.execution?]
      omega
    refine ⟨?_, fun hlt => ?_, fun hlt t ht => ?_⟩
    · rw [hdrawn, ofNat_succ (f.numbersDrawn + 1), ← h.nextSeqNum_eq, ← hf']
    · rw [htrades]
      exact h.increasing (by omega)
    · rw [htrades] at ht
      have hle := h.drawn (by omega) t ht
      omega

theorem numbered_invariant (config : OrderBookConfig) :
    FeedInvariant config fun f => f.Live config ∧ f.Numbered where
  emitTrade _ _ _ _ _ _ _ h :=
    ⟨h.1.emitTrade _ _ _ _ _ _, h.2.emitTrade h.1 _ _ _ _ _ _⟩
  emitExecutionReport _ _ _ _ h :=
    ⟨h.1.emitExecutionReport _ _ _, h.2.emitExecutionReport _ _ _⟩
  flushTrades f h := by
    refine ⟨h.1.flushTrades, h.2.congr nextSeqNum_flushTrades (trades_flushTrades f) ?_⟩
    rw [Feed.flushTrades]
    split_ifs
    · rfl
    · simp [reports, Event.execution?]
  maybeEmitBbo f symbol s h := by
    refine ⟨h.1.maybeEmitBbo _ _, h.2.congr ?_ (trades_maybeEmitBbo f symbol s) ?_⟩
    · rw [Feed.maybeEmitBbo]
      split_ifs <;> rfl
    · rw [Feed.maybeEmitBbo]
      split_ifs <;> simp [reports, Event.execution?]

end Feed

namespace OrderBook

/-- **Batching does not change the trade stream.**  Two books with a trade callback that differ only
in whether and by how many they batch their trades, and in the times they read, fed the same calls:
the calls return the same, the contents and the next sequence number are the same, and the trades
the first has delivered, followed by those it still holds, are those the second has delivered.  As
long as fewer than `2 ^ 64` sequence numbers have been drawn, those of the trades increase
strictly. -/
theorem same_trade_stream (symbol : Symbol) (config : OrderBookConfig) (batch : Bool)
    (size size' : Nat) (onExecution onBbo : Bool) (clock clock' : Stream' Timestamp)
    (ops : List Op) :
    let b := new symbol { config with batchCallbacks := batch, tradeBatchSize := size }
      true onExecution onBbo clock
    let b' := new symbol { config with batchCallbacks := false, tradeBatchSize := size' }
      true onExecution onBbo clock'
    Run.outputs apply result b' ops = Run.outputs apply result b ops ∧
      (after b' ops).store = (after b ops).store ∧
      (after b' ops).feed.nextSeqNum = (after b ops).feed.nextSeqNum ∧
      (after b' ops).feed.delivered.map Trade.untimed
        = ((after b ops).feed.delivered ++ (after b ops).feed.pendingTrades).map Trade.untimed ∧
      ((after b ops).feed.numbersDrawn < 2 ^ 64 →
        ((after b ops).feed.delivered ++ (after b ops).feed.pendingTrades).Pairwise
          fun t u => t.seqNum < u.seqNum) := by
  intro b b'
  have hlive : b.feed.Live b.config := ⟨rfl, fun _ => rfl⟩
  have hlive' : b'.feed.Live b'.config := ⟨rfl, fun _ => rfl⟩
  have hsame : b.feed.SameStream b'.feed := ⟨rfl, rfl, rfl, rfl, rfl, rfl, rfl⟩
  have hstart : Alike b.config b'.config
      (fun f f' => f.SameStream f' ∧ f.Live b.config ∧ f'.Live b'.config) b b' :=
    ⟨rfl, rfl, rfl, rfl, hsame, hlive, hlive'⟩
  have hrules : SameRules b.config b'.config := ⟨rfl, rfl⟩
  obtain ⟨halike, hresults⟩ := (sameStream_simulation hrules).run hstart ops
  obtain ⟨hstream, -, hlive'⟩ := halike.feed
  have hnumbered := (Feed.numbered_invariant b.config).run (b := b)
    ⟨hlive, rfl, fun _ => List.Pairwise.nil, fun _ t ht => by cases ht⟩ ops
  refine ⟨hresults, halike.store_eq, hstream.nextSeqNum_eq, ?_, hnumbered.2.increasing⟩
  have hpending : (after b' ops).feed.pendingTrades = [] := hlive'.pending rfl
  have htrades := hstream.trades_eq
  rw [Feed.trades, hpending, List.append_nil] at htrades
  exact htrades

/-! ## The counter wraps -/

/-- A book that delivers each trade at once. -/
def unbatched : OrderBook := makeBook { batchCallbacks := false }

/-- An ask, and a bid that takes it. -/
def askAndBid : List Op := [.add (limitOrder 1 .Sell 100 10), .add (limitOrder 2 .Buy 100 10)]

/-- The feeds of two books that do not batch, one of which has told of `k` trades more. -/
def MoreTrades (k : Nat) (f f' : Feed) : Prop :=
  f.Live unbatched.config ∧ f'.Live unbatched.config ∧ f.trades.length = f'.trades.length + k

/-- They stay `k` trades apart. -/
theorem moreTrades_simulation (k : Nat) :
    FeedSimulation unbatched.config unbatched.config (MoreTrades k) where
  selfTrade_eq := rfl
  postOnly_eq := rfl
  emitTrade _ _ _ _ _ _ _ _ h := by
    refine ⟨h.1.emitTrade _ _ _ _ _ _, h.2.1.emitTrade _ _ _ _ _ _, ?_⟩
    rw [h.1.trades_emitTrade, h.2.1.trades_emitTrade, List.length_append, List.length_append, h.2.2]
    simp only [List.length_singleton]
    omega
  emitExecutionReport _ _ _ _ _ h :=
    ⟨h.1.emitExecutionReport _ _ _, h.2.1.emitExecutionReport _ _ _, by simpa using h.2.2⟩
  maybeEmitBbo _ _ _ _ h :=
    ⟨h.1.maybeEmitBbo _ _, h.2.1.maybeEmitBbo _ _, by simpa using h.2.2⟩
  flushTrades _ _ h := ⟨h.1.flushTrades, h.2.1.flushTrades, by simpa using h.2.2⟩
  flushBatch _ _ h := h

/-- The ask and the bid leave an empty book, and one trade. -/
lemma after_askAndBid :
    (after unbatched askAndBid).store = {} ∧ (after unbatched askAndBid).feed.trades.length = 1 := by
  have horders : (after unbatched askAndBid).store.orders = ∅ :=
    Std.ExtTreeMap.isEmpty_iff.mp (by decide +kernel)
  have hbids : (after unbatched askAndBid).store.bidLevels = ∅ :=
    Std.ExtTreeMap.isEmpty_iff.mp (by decide +kernel)
  have hasks : (after unbatched askAndBid).store.askLevels = ∅ :=
    Std.ExtTreeMap.isEmpty_iff.mp (by decide +kernel)
  have hbid : (after unbatched askAndBid).store.bestBid = invalidPrice := by decide +kernel
  have hask : (after unbatched askAndBid).store.bestAsk = invalidPrice := by decide +kernel
  refine ⟨?_, by decide +kernel⟩
  generalize (after unbatched askAndBid).store = s at horders hbids hasks hbid hask
  cases s
  simp only at horders hbids hasks hbid hask
  rw [horders, hbids, hasks, hbid, hask]

/-- As often as one likes. -/
lemma trades_askAndBids (n : Nat) {b : OrderBook} {k : Nat}
    (h : Alike unbatched.config unbatched.config (MoreTrades k) b unbatched) :
    (after b (List.replicate n askAndBid).flatten).feed.trades.length = n + k := by
  have hnone : unbatched.feed.trades.length = 0 := rfl
  induction n generalizing b k with
  | zero =>
      have hlength := h.feed.2.2
      rw [hnone] at hlength
      exact hlength
  | succ n ih =>
      obtain ⟨hnext, -⟩ := (moreTrades_simulation k).run h askAndBid
      obtain ⟨hempty, hone⟩ := after_askAndBid
      have hagain : Alike unbatched.config unbatched.config (MoreTrades (k + 1))
          (after b askAndBid) unbatched := by
        refine ⟨hnext.config_eq, rfl, ?_, ?_, hnext.feed.1, ⟨rfl, fun _ => rfl⟩, ?_⟩
        · rw [← hnext.symbol_eq]
          decide +kernel
        · rw [← hnext.store_eq, hempty]
          rfl
        · rw [hnext.feed.2.2, hone, hnone]
          omega
      rw [List.replicate_succ, List.flatten_cons, after, Run.run_append, ih hagain]
      omega

/-- Numbers that increase strictly are at most `2 ^ 64` in number. -/
lemma length_le_of_increasing {trades : List Trade}
    (h : trades.Pairwise fun t u => t.seqNum < u.seqNum) : trades.length ≤ 2 ^ 64 := by
  have hnodup : (trades.map (·.seqNum.toNat)).Nodup := by
    rw [List.Nodup, List.pairwise_map]
    exact h.imp fun hlt => Nat.ne_of_lt (UInt64.lt_iff_toNat_lt.mp hlt)
  have hsub : trades.map (·.seqNum.toNat) ⊆ List.range (2 ^ 64) := by
    intro n hn
    obtain ⟨t, -, rfl⟩ := List.mem_map.mp hn
    exact List.mem_range.mpr t.seqNum.toNat_lt
  have hle := (List.subperm_of_subset hnodup hsub).length_le
  rwa [List.length_map, List.length_range] at hle

/-- After `2 ^ 64 + 1` trades the numbers delivered do not increase strictly. -/
theorem seq_num_wraps :
    ¬ (after unbatched (List.replicate (2 ^ 64 + 1) askAndBid).flatten).feed.delivered.Pairwise
      fun t u => t.seqNum < u.seqNum := by
  intro h
  have hstart : Alike unbatched.config unbatched.config (MoreTrades 0) unbatched unbatched :=
    ⟨rfl, rfl, rfl, rfl, ⟨rfl, fun _ => rfl⟩, ⟨rfl, fun _ => rfl⟩, rfl⟩
  have hlength := trades_askAndBids (2 ^ 64 + 1) hstart
  have hend := ((moreTrades_simulation 0).run hstart
    (List.replicate (2 ^ 64 + 1) askAndBid).flatten).1
  rw [Feed.trades, hend.feed.1.pending rfl, List.append_nil] at hlength
  have hle := length_le_of_increasing h
  rw [Feed.delivered, hlength] at hle
  omega

end OrderBook

end Exchange
