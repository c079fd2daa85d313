import Exchange.Core.Sharding
import Exchange.Engine.Untimed
import Mathlib.Algebra.BigOperators.Group.Finset.Piecewise
import Mathlib.Data.UInt

/-!
# One engine or one for each shard

The symbols are divided among several engines, and each request goes to the engine that has its
symbol.  Requests on different symbols meet nowhere but in the statistics, and those only add up.

**`sharded_eq_single`** — a single engine with all symbols gives the same answers and has,
timestamps aside, the same books, and its counters are the sums of theirs.
-/

namespace Exchange.MatchingEngine

open scoped BigOperators
open OrderBook (SameButTimes)
open Sharding

universe u

/-- A request, with what is indeterminate in its result. -/
abbrev Call := OrderResult × Request

def callStep (e : MatchingEngine) (c : Call) : MatchingEngine := (e.handle c.1 c.2).2

def callResult (e : MatchingEngine) (c : Call) : OrderResult := (e.handle c.1 c.2).1

/-- The counters that requests move. -/
def requestCounters : List (EngineStats → UInt64) :=
  [EngineStats.ordersReceived, EngineStats.ordersMatched, EngineStats.ordersCancelled,
    EngineStats.tradesExecuted, EngineStats.totalVolume]

/-- What the engine counts for a request, given the answer of the book if there is one. -/
def counted (s : EngineStats) (r : Request) (answer : Option OrderResult) : EngineStats :=
  answer.elim (s.receive r) fun result => (s.receive r).settle r result

lemma stats_callStep (e : MatchingEngine) (c : Call) :
    (e.callStep c).stats
      = counted e.stats c.2 ((e.book? c.2.symbol).map fun b => c.2.answer c.1 b) := by
  rw [callStep, stats_handle, counted]
  cases e.book? c.2.symbol <;> rfl

/-- A request adds to the counters. -/
lemma exists_added (r : Request) (answer : Option OrderResult) :
    ∃ added : EngineStats, ∀ s : EngineStats, counted s r answer = { s with
      ordersReceived := s.ordersReceived + added.ordersReceived
      ordersMatched := s.ordersMatched + added.ordersMatched
      ordersCancelled := s.ordersCancelled + added.ordersCancelled
      tradesExecuted := s.tradesExecuted + added.tradesExecuted
      totalVolume := s.totalVolume + added.totalVolume } := by
  cases r with
  | order o =>
      cases answer with
      | none => exact ⟨{ ordersReceived := 1 }, fun s => by simp [counted, EngineStats.receive]⟩
      | some result =>
          by_cases h : result.success = true ∧ result.filledQty > 0
          · refine ⟨{ ordersReceived := 1, ordersMatched := 1, tradesExecuted := 1
                      totalVolume := result.filledQty.toUInt64 }, fun s => ?_⟩
            rw [counted, Option.elim_some, EngineStats.settle_order h]
            simp [EngineStats.receive]
          · refine ⟨{ ordersReceived := 1 }, fun s => ?_⟩
            rw [counted, Option.elim_some, EngineStats.settle_order_of_not h]
            simp [EngineStats.receive]
  | cancel symbol id =>
      cases answer with
      | none => exact ⟨{}, fun s => by simp [counted, EngineStats.receive]⟩
      | some result =>
          by_cases h : result.success = true
          · refine ⟨{ ordersCancelled := 1 }, fun s => ?_⟩
            rw [counted, Option.elim_some, EngineStats.settle_cancel h]
            simp [EngineStats.receive]
          · refine ⟨{}, fun s => ?_⟩
            rw [counted, Option.elim_some, EngineStats.settle_cancel_of_not h]
            simp [EngineStats.receive]
  | replace symbol id newPrice newQty =>
      refine ⟨{}, fun s => ?_⟩
      cases answer <;> simp [counted, EngineStats.receive, EngineStats.settle]

lemma exists_count {counter : EngineStats → UInt64} (hcounter : counter ∈ requestCounters)
    (r : Request) (answer : Option OrderResult) :
    ∃ d, ∀ s : EngineStats, counter (counted s r answer) = counter s + d := by
  obtain ⟨added, hadded⟩ := exists_added r answer
  refine ⟨counter added, fun s => ?_⟩
  simp only [requestCounters, List.mem_cons, List.not_mem_nil, or_false] at hcounter
  rw [hadded]
  rcases hcounter with rfl | rfl | rfl | rfl | rfl <;> rfl

variable {ι : Type u} [Fintype ι] [DecidableEq ι]

/-- A single engine and a family of them. -/
structure Shards (shard : Symbol → ι) (e : MatchingEngine) (p : ι → MatchingEngine) : Prop where
  books : ∀ symbol, Option.Rel SameButTimes (e.book? symbol) ((p (shard symbol)).book? symbol)
  stats : ∀ counter ∈ requestCounters, counter e.stats = ∑ i, counter (p i).stats

/-- The shard a request goes to. -/
def route (shard : Symbol → ι) (c : Call) : ι := shard c.2.symbol

variable {shard : Symbol → ι} {e : MatchingEngine} {p : ι → MatchingEngine}

omit [Fintype ι] in
lemma book?_routed (p : ι → MatchingEngine) (c : Call) (symbol : Symbol) :
    (routed (route shard) callStep p c (shard symbol)).book? symbol
      = if symbol = c.2.symbol then ((p (shard symbol)).book? symbol).map (·.apply c.2.op)
        else (p (shard symbol)).book? symbol := by
  by_cases hroute : shard symbol = shard c.2.symbol
  · rw [routed, hroute, route, Function.update_self, callStep, book?_handle]
  · rw [routed, Function.update_of_ne (by exact hroute), if_neg]
    rintro rfl
    exact hroute rfl

/-- The step lemma. -/
theorem Shards.step (h : Shards shard e p) (c : Call) :
    Shards shard (e.callStep c) (routed (route shard) callStep p c) ∧
      callResult (p (route shard c)) c = e.callResult c := by
  have hat := h.books c.2.symbol
  refine ⟨⟨fun symbol => ?_, fun counter hcounter => ?_⟩, ?_⟩
  · have hrel := h.books symbol
    rw [callStep, book?_handle, book?_routed]
    split_ifs
    · revert hrel
      generalize e.book? symbol = b
      generalize (p (shard symbol)).book? symbol = b'
      rintro (⟨hbooks⟩ | _)
      · exact .some (hbooks.step _)
      · exact .none
    · exact hrel
  · obtain ⟨d, hd⟩ := exists_count hcounter c.2
      ((e.book? c.2.symbol).map fun b => c.2.answer c.1 b)
    have hanswer : ((p (shard c.2.symbol)).book? c.2.symbol).map (fun b => c.2.answer c.1 b)
        = (e.book? c.2.symbol).map fun b => c.2.answer c.1 b := by
      revert hat
      generalize e.book? c.2.symbol = b
      generalize (p (shard c.2.symbol)).book? c.2.symbol = b'
      rintro (⟨hbooks⟩ | _)
      · exact congrArg some (answer_eq hbooks c.1 c.2)
      · rfl
    have hshard : counter ((p (shard c.2.symbol)).callStep c).stats
        = counter (p (shard c.2.symbol)).stats + d := by
      rw [stats_callStep, hanswer, hd]
    have hupdate : (fun i => counter (routed (route shard) callStep p c i).stats)
        = Function.update (fun i => counter (p i).stats) (shard c.2.symbol)
          (counter (p (shard c.2.symbol)).stats + d) := by
      funext i
      by_cases hi : i = shard c.2.symbol
      · rw [hi, Function.update_self, routed, route, Function.update_self, hshard]
      · rw [Function.update_of_ne hi, routed, Function.update_of_ne (by exact hi)]
    rw [stats_callStep, hd, h.stats counter hcounter, hupdate,
      Finset.sum_update_of_mem (Finset.mem_univ _), add_right_comm]
    congr 1
    exact Finset.sum_eq_add_sum_sdiff_singleton_of_mem (Finset.mem_univ _) _
  · rw [callResult, callResult, fst_handle, fst_handle]
    revert hat
    rw [route]
    generalize e.book? c.2.symbol = b
    generalize (p (shard c.2.symbol)).book? c.2.symbol = b'
    rintro (⟨hbooks⟩ | _)
    · exact answer_eq hbooks c.1 c.2
    · rfl

/-- A single engine and one for each shard, all new. -/
lemma shards_start (config : OrderBookConfig) (onTrade onExecution : Bool)
    (clocks : Nat → Stream' Timestamp) (clocks' : ι → Nat → Stream' Timestamp)
    (symbols : List Symbol) (shard : Symbol → ι) :
    Shards shard (start config onTrade onExecution clocks symbols) fun i =>
      start config onTrade onExecution (clocks' i) (symbols.filter fun s => shard s = i) where
  books symbol := by
    obtain ⟨clock, hbook⟩ := book?_start config onTrade onExecution clocks symbols symbol
    obtain ⟨clock', hbook'⟩ := book?_start config onTrade onExecution (clocks' (shard symbol))
      (symbols.filter fun s => shard s = shard symbol) symbol
    rw [hbook, hbook']
    simp only [List.mem_filter, decide_true, and_true]
    split_ifs
    · exact .some (.new symbol config onTrade onExecution false clock clock')
    · exact .none
  stats counter hcounter := by
    have hzero : counter {} = 0 := by
      simp only [requestCounters, List.mem_cons, List.not_mem_nil, or_false] at hcounter
      rcases hcounter with rfl | rfl | rfl | rfl | rfl <;> rfl
    have hstart : ∀ (clocks : Nat → Stream' Timestamp) (symbols : List Symbol),
        counter (start config onTrade onExecution clocks symbols).stats = 0 := by
      intro clocks symbols
      rw [start, foldl_addSymbol_eq]
      exact hzero
    simp only [hstart, Finset.sum_const_zero]

/-- **Books can be sharded by symbol.**  On each shard the same answers are given to its requests,
in order, as by the single engine; each symbol has the same book, callbacks and sequence numbers
included and timestamps aside; and the counters of the single engine are the sums of the others. -/
theorem sharded_eq_single (config : OrderBookConfig) (onTrade onExecution : Bool)
    (clocks : Nat → Stream' Timestamp) (clocks' : ι → Nat → Stream' Timestamp)
    (symbols : List Symbol) (shard : Symbol → ι) (calls : List Call) :
    let e₀ := start config onTrade onExecution clocks symbols
    let p₀ := fun i =>
      start config onTrade onExecution (clocks' i) (symbols.filter fun s => shard s = i)
    let e := Run.run callStep e₀ calls
    let p := fun i => Run.run callStep (p₀ i) (inputs (route shard) i calls)
    (∀ i, Run.outputs callStep callResult (p₀ i) (inputs (route shard) i calls)
        = replies (route shard) i calls (Run.outputs callStep callResult e₀ calls)) ∧
      (∀ symbol, Option.Rel SameButTimes (e.book? symbol) ((p (shard symbol)).book? symbol)) ∧
      ∀ counter ∈ requestCounters, counter e.stats = ∑ i, counter (p i).stats := by
  intro e₀ p₀ e p
  have hrun : Shards shard (Run.run callStep e₀ calls)
        (Run.run (routed (route shard) callStep) p₀ (calls.map id)) ∧
      Run.outputs (routed (route shard) callStep) (fun p c => callResult (p (route shard c)) c) p₀
        (calls.map id) = Run.outputs callStep callResult e₀ calls :=
    (Run.admitted_trivial e₀ calls).simulates (fun _ _ c h _ => h.step c)
      (shards_start config onTrade onExecution clocks clocks' symbols shard)
  rw [List.map_id] at hrun
  obtain ⟨hend, hresults⟩ := hrun
  have hparts : Run.run (routed (route shard) callStep) p₀ calls = p :=
    funext fun i => run_routed (route shard) callStep p₀ calls i
  refine ⟨fun i => ?_, ?_, ?_⟩
  · rw [← hresults, outputs_routed]
  · rw [hparts] at hend
    exact hend.books
  · rw [hparts] at hend
    exact hend.stats

end Exchange.MatchingEngine
