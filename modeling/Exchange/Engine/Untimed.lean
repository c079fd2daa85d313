import Exchange.Engine.Calls
import Exchange.OrderBook.Untimed

/-!
# Engines that differ in their times

Two engines are the same apart from times if their books are, and if they have counted and announced
the same.  What waits in their queues is left out, and so is the number of messages processed: this
is about what requests do, whichever way they come.

**`SameEngine.handle`** — the same request is answered alike and keeps two engines the same.
-/

namespace Exchange

/-- The counters other than `messages_processed`. -/
def EngineStats.ofRequests (s : EngineStats) : EngineStats := { s with messagesProcessed := 0 }

namespace MatchingEngine

/-- Two engines that are the same apart from times, queues and the messages processed. -/
structure SameEngine (e e' : MatchingEngine) : Prop where
  books : ∀ symbol, Option.Rel OrderBook.SameButTimes (e.book? symbol) (e'.book? symbol)
  stats_eq : e'.stats.ofRequests = e.stats.ofRequests
  events_eq : e'.history.events.map Event.untimed = e.history.events.map Event.untimed
  trades_eq : e'.history.trades.map Trade.untimed = e.history.trades.map Trade.untimed

/-! ## Direct requests -/

lemma ofRequests_receive (s : EngineStats) (r : Request) :
    (s.receive r).ofRequests = s.ofRequests.receive r := by
  cases r <;> rfl

lemma ofRequests_settle (s : EngineStats) (r : Request) (result : OrderResult) :
    (s.settle r result).ofRequests = s.ofRequests.settle r result := by
  cases r with
  | order o =>
      by_cases h : result.success = true ∧ result.filledQty > 0
      · rw [EngineStats.settle_order h, EngineStats.settle_order h]
        rfl
      · rw [EngineStats.settle_order_of_not h, EngineStats.settle_order_of_not h]
  | cancel symbol id =>
      by_cases h : result.success = true
      · rw [EngineStats.settle_cancel h, EngineStats.settle_cancel h]
        rfl
      · rw [EngineStats.settle_cancel_of_not h, EngineStats.settle_cancel_of_not h]
  | replace => rfl

/-- Books that are the same apart from times answer alike. -/
lemma answer_eq {b b' : OrderBook} (h : OrderBook.SameButTimes b b') (uninit : OrderResult)
    (r : Request) : r.answer uninit b' = r.answer uninit b := by
  cases r with
  | order o => exact Option.some.inj (h.result_eq (.add o))
  | cancel symbol id => exact Option.some.inj (h.result_eq (.cancel id))
  | replace symbol id newPrice newQty =>
      exact Option.some.inj (h.result_eq (.replace uninit id newPrice newQty))

namespace SameEngine

variable {e e' : MatchingEngine}

/-- **The same request keeps two engines the same.** -/
theorem handle (h : SameEngine e e') (uninit : OrderResult) (r : Request) :
    SameEngine (e.handle uninit r).2 (e'.handle uninit r).2 ∧
      (e'.handle uninit r).1 = (e.handle uninit r).1 := by
  have hat := h.books r.symbol
  refine ⟨⟨fun symbol => ?_, ?_, ?_, ?_⟩, ?_⟩
  · have hrel := h.books symbol
    rw [book?_handle, book?_handle]
    split_ifs
    · revert hrel
      generalize e.book? symbol = b
      generalize e'.book? symbol = b'
      rintro (⟨hbooks⟩ | _)
      · exact .some (hbooks.step _)
      · exact .none
    · exact hrel
  all_goals
    revert hat
  · rw [stats_handle, stats_handle]
    generalize e.book? r.symbol = b
    generalize e'.book? r.symbol = b'
    rintro (⟨hbooks⟩ | _)
    · simp only [Option.elim_some, ofRequests_settle, ofRequests_receive, h.stats_eq,
        answer_eq hbooks]
    · simp only [Option.elim_none, ofRequests_receive, h.stats_eq]
  · rw [history_handle, history_handle]
    generalize e.book? r.symbol = b
    generalize e'.book? r.symbol = b'
    rintro (⟨hbooks⟩ | _)
    · have hlength := congrArg List.length hbooks.events_eq
      rw [List.length_map, List.length_map] at hlength
      simp only [Option.elim_some, EngineHistory.record, List.map_append, List.map_drop,
        h.events_eq, (hbooks.step r.op).events_eq, hlength]
    · exact h.events_eq
  · rw [history_handle, history_handle]
    generalize e.book? r.symbol = b
    generalize e'.book? r.symbol = b'
    rintro (⟨hbooks⟩ | _)
    · have hlength := congrArg List.length hbooks.trades_eq
      rw [List.length_map, List.length_map] at hlength
      simp only [Option.elim_some, EngineHistory.record, List.map_append, List.map_drop,
        h.trades_eq, (hbooks.step r.op).trades_eq, hlength]
    · exact h.trades_eq
  · rw [fst_handle, fst_handle]
    generalize e.book? r.symbol = b
    generalize e'.book? r.symbol = b'
    rintro (⟨hbooks⟩ | _)
    · exact answer_eq hbooks uninit r
    · rfl

end SameEngine

end MatchingEngine

end Exchange
