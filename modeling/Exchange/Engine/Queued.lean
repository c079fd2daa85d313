import Exchange.Engine.Requests
import Exchange.Engine.Untimed

/-!
# Through the queue or directly

A caller can make a request directly or put it into the queue, for the other end to process later.
`Follows` relates an engine that is fed through its queue to one that is called directly: they are
the same, timestamps aside, when the second has been given what the first has processed, and the
queue holds the rest in order.

* `processQueue_exits` — the loop of `process_queue` ends;
* **`queued_eq_direct`** — when the queue has been drained, the engine is as if the requests it has
  accepted had been made directly;
* `processed_wraps` — after `2 ^ 64` messages `messages_processed` is 0.
-/

namespace Exchange.MatchingEngine

open Loop

/-- The requests, made directly one after the other. -/
def submitAll (e : MatchingEngine) (rs : List Request) : MatchingEngine :=
  Run.run (fun e r => (e.handle {} r).2) e rs

/-- An engine fed through its queue and an engine called directly. -/
structure Follows (e e' : MatchingEngine) (waiting : List Request) (processed : Nat) : Prop where
  same : SameEngine e e'
  waiting : e.Waiting waiting
  processed_eq : e.stats.messagesProcessed = UInt64.ofNat processed

variable {e e' : MatchingEngine} {waiting : List Request} {n : Nat}

/-! ## One call -/

/-- Putting a message in, or failing to, is not seen from outside the queue. -/
lemma Follows.enqueue (h : Follows e e' waiting n) (uninit : InboundMessage) (r : Request) :
    Follows (e.enqueue uninit r).2 e'
      (waiting ++ if (e.enqueue uninit r).1 = true then [r] else []) n := by
  have hsame : SameEngine (e.enqueue uninit r).2 e' := by
    rw [enqueue_eq]
    exact ⟨h.same.books, h.same.stats_eq, h.same.events_eq, h.same.trades_eq⟩
  have hprocessed : (e.enqueue uninit r).2.stats.messagesProcessed = UInt64.ofNat n := by
    rw [enqueue_eq]
    exact h.processed_eq
  rcases h.waiting.enqueue uninit r with ⟨hok, -, hwaiting⟩ | ⟨hfail, -, hwaiting⟩
  · rw [if_pos hok]
    exact ⟨hsame, hwaiting, hprocessed⟩
  · rw [if_neg (by rw [hfail]; exact Bool.false_ne_true), List.append_nil]
    exact ⟨hsame, hwaiting, hprocessed⟩

lemma messagesProcessed_handle (e : MatchingEngine) (uninit : OrderResult) (r : Request) :
    (e.handle uninit r).2.stats.messagesProcessed = e.stats.messagesProcessed := by
  have hreceive : ∀ s : EngineStats, (s.receive r).messagesProcessed = s.messagesProcessed := by
    intro s
    cases r <;> rfl
  have hsettle : ∀ (s : EngineStats) (result : OrderResult),
      (s.settle r result).messagesProcessed = s.messagesProcessed := by
    intro s result
    cases r <;> simp only [EngineStats.settle] <;> split_ifs <;> rfl
  rw [stats_handle]
  cases e.book? r.symbol with
  | none => exact hreceive _
  | some b => exact (hsettle _ _).trans (hreceive _)

/-- The oldest message is the next request. -/
lemma Follows.processOne_cons {r : Request} (h : Follows e e' (r :: waiting) n) :
    e.processOne.1 = true ∧
      Follows e.processOne.2 (e'.handle {} r).2 waiting (n + 1) := by
  obtain ⟨msgs, hholds, hmsgs⟩ := h.waiting
  obtain ⟨msg, msgs, rfl, hmsg, htail⟩ := List.map_eq_cons_iff.mp hmsgs
  obtain ⟨hpop, hrest⟩ := hholds.tryPop_spec
  rw [processOne_eq]
  cases htry : e.inboundQueue.tryPop inboundCapacity with
  | mk popped queue =>
      rw [htry] at hpop hrest
      obtain rfl : popped = some msg := hpop
      refine ⟨rfl, ?_⟩
      simp only [hmsg]
      -- what is popped is counted before it is handled
      have hcounted : SameEngine { e with
          inboundQueue := queue
          stats.messagesProcessed := e.stats.messagesProcessed + 1 } e' :=
        ⟨h.same.books, h.same.stats_eq, h.same.events_eq, h.same.trades_eq⟩
      refine ⟨(hcounted.handle {} r).1, ⟨msgs, ?_, htail⟩, ?_⟩
      · rw [inboundQueue_handle]
        exact hrest
      · rw [messagesProcessed_handle]
        simp only [h.processed_eq]
        rw [UInt64.ofNat_add]
        rfl

lemma Follows.processOne_nil (h : Follows e e' [] n) :
    e.processOne.1 = false ∧ Follows e.processOne.2 e' [] n := by
  obtain ⟨msgs, hholds, hmsgs⟩ := h.waiting
  obtain rfl := List.map_eq_nil_iff.mp hmsgs
  obtain ⟨hpop, hrest⟩ := hholds.tryPop_spec
  rw [processOne_eq]
  cases htry : e.inboundQueue.tryPop inboundCapacity with
  | mk popped queue =>
      rw [htry] at hpop hrest
      obtain rfl : popped = none := hpop
      exact ⟨rfl, ⟨h.same.books, h.same.stats_eq, h.same.events_eq, h.same.trades_eq⟩,
        ⟨[], hrest, rfl⟩, h.processed_eq⟩

/-! ## Draining -/

/-- The loop goes round once for each message that waits. -/
lemma Follows.drain (h : Follows e e' waiting n) {k fuel : Nat} (hfuel : waiting.length < fuel) :
    Exits processStep (k, e) (run processStep fuel (k, e)) ∧
      (run processStep fuel (k, e)).1 = k + waiting.length ∧
      Follows (run processStep fuel (k, e)).2 (e'.submitAll waiting) [] (n + waiting.length) := by
  induction waiting generalizing e e' k n fuel with
  | nil =>
      obtain ⟨fuel, rfl⟩ := Nat.exists_eq_succ_of_ne_zero (Nat.ne_of_gt hfuel)
      obtain ⟨hfst, hnext⟩ := h.processOne_nil
      have hstep : processStep (k, e) = .done (k, e.processOne.2) := by
        simp only [processStep]
        rw [← Prod.mk.eta (p := e.processOne), hfst]
      rw [run_succ_done hstep]
      exact ⟨.done hstep, rfl, hnext⟩
  | cons r waiting ih =>
      obtain ⟨fuel, rfl⟩ := Nat.exists_eq_succ_of_ne_zero (Nat.ne_of_gt (Nat.lt_of_le_of_lt
        (Nat.zero_le _) hfuel))
      rw [List.length_cons] at hfuel
      obtain ⟨hfst, hnext⟩ := h.processOne_cons
      have hstep : processStep (k, e) = .yield (k + 1, e.processOne.2) := by
        simp only [processStep]
        rw [← Prod.mk.eta (p := e.processOne), hfst]
      obtain ⟨hexits, hcount, hend⟩ := ih hnext (Nat.lt_of_succ_lt_succ hfuel) (k := k + 1)
      rw [run_succ_yield hstep, List.length_cons]
      refine ⟨.yield hstep hexits, by omega, ?_⟩
      rwa [Nat.add_right_comm, Nat.add_assoc] at hend

lemma Follows.processQueue (h : Follows e e' waiting n) :
    Exits processStep (0, e) e.processQueue ∧ e.processQueue.1 = waiting.length ∧
      Follows e.processQueue.2 (e'.submitAll waiting) [] (n + waiting.length) := by
  have hfuel : waiting.length < e.processFuel := by
    obtain ⟨msgs, ⟨k, htracks⟩, rfl⟩ := h.waiting
    rw [processFuel, htracks.toNat_sizeApprox, List.length_map]
    exact Nat.lt_succ_self _
  have hdrain := h.drain hfuel (k := 0)
  rwa [Nat.zero_add] at hdrain

/-! ## Runs -/

/-- What is done to an engine fed through its queue. -/
inductive QueueOp
  | enqueue (uninit : InboundMessage) (request : Request)
  | processOne
  | processQueue

def QueueOp.op : QueueOp → Op
  | .enqueue uninit request => .enqueue uninit request
  | .processOne => .processOne
  | .processQueue => .processQueue

def queueStep (e : MatchingEngine) (q : QueueOp) : MatchingEngine := e.apply q.op

/-- The request put into the queue, if it was accepted. -/
def accepted (e : MatchingEngine) : QueueOp → List Request
  | .enqueue uninit r => if (e.enqueue uninit r).1 = true then [r] else []
  | .processOne | .processQueue => []

/-- The number of messages taken out of the queue. -/
def processed (e : MatchingEngine) : QueueOp → Nat
  | .processOne => if e.processOne.1 = true then 1 else 0
  | .processQueue => e.processQueue.1
  | .enqueue _ _ => 0

/-- The requests accepted in a run. -/
def allAccepted (e : MatchingEngine) (ops : List QueueOp) : List Request :=
  (Run.outputs queueStep accepted e ops).flatten

/-- The number of messages processed in a run. -/
def allProcessed (e : MatchingEngine) (ops : List QueueOp) : Nat :=
  Run.total queueStep processed e ops

lemma processed_processOne (e : MatchingEngine) :
    processed e .processOne = if e.processOne.1 = true then 1 else 0 := rfl

-- The result has a name in these two, so that nothing tries to evaluate the loop.
lemma queueStep_processQueue (e : MatchingEngine) :
    e.queueStep .processQueue = e.processQueue.2 := by
  cases hresult : e.processQueue with
  | mk n drained =>
      refine (apply.eq_def e .processQueue).trans ?_
      rw [hresult]

lemma processed_processQueue (e : MatchingEngine) :
    processed e .processQueue = e.processQueue.1 := by
  cases hresult : e.processQueue with
  | mk n drained =>
      refine (processed.eq_def e .processQueue).trans ?_
      rw [hresult]

/-- The step lemma: the oldest requests go from the queue to the engine. -/
lemma Follows.step (h : Follows e e' waiting n) (q : QueueOp) :
    ∃ taken left, waiting ++ accepted e q = taken ++ left ∧ taken.length = processed e q ∧
      Follows (e.queueStep q) (e'.submitAll taken) left (n + taken.length) := by
  cases q with
  | enqueue uninit r => exact ⟨[], _, rfl, rfl, h.enqueue uninit r⟩
  | processOne =>
      cases waiting with
      | nil =>
          obtain ⟨hfst, hnext⟩ := h.processOne_nil
          exact ⟨[], [], rfl, by rw [processed_processOne, hfst]; rfl, hnext⟩
      | cons r waiting =>
          obtain ⟨hfst, hnext⟩ := h.processOne_cons
          exact ⟨[r], waiting, by simp [accepted], by rw [processed_processOne, hfst]; rfl, hnext⟩
  | processQueue =>
      obtain ⟨-, hcount, hnext⟩ := h.processQueue
      rw [queueStep_processQueue, accepted, processed_processQueue]
      exact ⟨waiting, [], rfl, hcount.symm, hnext⟩

/-- The run lemma. -/
lemma Follows.run (h : Follows e e' waiting n) (ops : List QueueOp) :
    ∃ taken left, waiting ++ allAccepted e ops = taken ++ left ∧
      taken.length = allProcessed e ops ∧
      Follows (Run.run queueStep e ops) (e'.submitAll taken) left (n + taken.length) := by
  induction ops generalizing e e' waiting n with
  | nil => exact ⟨[], waiting, by simp [allAccepted, Run.outputs], rfl, h⟩
  | cons q ops ih =>
      obtain ⟨first, left, hsplit, hfirst, hnext⟩ := h.step q
      obtain ⟨later, left', hsplit', hlater, hend⟩ := ih hnext
      refine ⟨first ++ later, left', ?_, ?_, ?_⟩
      · rw [allAccepted, Run.outputs, List.flatten_cons, ← List.append_assoc, hsplit,
          List.append_assoc, List.append_assoc, ← hsplit']
        rfl
      · rw [List.length_append, hfirst, hlater]
        rfl
      · rw [List.length_append, ← Nat.add_assoc, submitAll, Run.run_append]
        exact hend

/-! ## A new engine -/

lemma follows_start (config : OrderBookConfig) (onTrade onExecution : Bool)
    (clocks clocks' : Nat → Stream' Timestamp) (symbols : List Symbol) :
    Follows (start config onTrade onExecution clocks symbols)
      (start config onTrade onExecution clocks' symbols) [] 0 := by
  have hrest := foldl_addSymbol_eq
    { bookConfig := config, tradeCallback := onTrade, executionCallback := onExecution, clocks }
    symbols
  have hrest' := foldl_addSymbol_eq
    { bookConfig := config, tradeCallback := onTrade, executionCallback := onExecution
      clocks := clocks' } symbols
  refine ⟨⟨fun symbol => ?_, ?_, ?_, ?_⟩, ⟨[], ?_, rfl⟩, ?_⟩
  · obtain ⟨clock, hbook⟩ := book?_start config onTrade onExecution clocks symbols symbol
    obtain ⟨clock', hbook'⟩ := book?_start config onTrade onExecution clocks' symbols symbol
    rw [hbook, hbook']
    split_ifs
    · exact .some (.new symbol config onTrade onExecution false clock clock')
    · exact .none
  · rw [start, start, hrest, hrest']
  · rw [start, start, hrest, hrest']
  · rw [start, start, hrest, hrest']
  · rw [start, hrest]
    exact SPSCQueue.Holds.empty
  · rw [start, hrest]
    rfl

/-- When the queue has been drained, everything accepted has gone through. -/
lemma Follows.drained (h : Follows e e' [] 0) (ops : List QueueOp) :
    SameEngine (Run.run queueStep e ops).processQueue.2 (e'.submitAll (e.allAccepted ops)) ∧
      (Run.run queueStep e ops).processQueue.2.stats.messagesProcessed
        = UInt64.ofNat (e.allAccepted ops).length := by
  obtain ⟨taken, left, hsplit, -, hfollows⟩ := h.run ops
  rw [List.nil_append] at hsplit
  obtain ⟨-, -, hdrained⟩ := hfollows.processQueue
  refine ⟨?_, ?_⟩
  · rw [hsplit, submitAll, Run.run_append]
    exact hdrained.same
  · rw [hsplit, List.length_append, hdrained.processed_eq, Nat.zero_add]

/-- **Queued and direct requests agree.**  Whatever is put into the queue and taken out of it in
between, once the queue has been drained the engine has the books, the announcements and the
statistics, times aside, of an engine on which the requests that were accepted have been made
directly in that order; it has counted them, modulo `2 ^ 64`; and at any time a request is refused
exactly if 65535 accepted ones have not been processed. -/
theorem queued_eq_direct (config : OrderBookConfig) (onTrade onExecution : Bool)
    (clocks clocks' : Nat → Stream' Timestamp) (symbols : List Symbol) (ops : List QueueOp) :
    let e₀ := start config onTrade onExecution clocks symbols
    let e := Run.run queueStep e₀ ops
    SameEngine e.processQueue.2
        ((start config onTrade onExecution clocks' symbols).submitAll (e₀.allAccepted ops)) ∧
      e.processQueue.2.stats.messagesProcessed = UInt64.ofNat (e₀.allAccepted ops).length ∧
      Exits processStep (0, e) e.processQueue ∧
      ∀ uninit r, (e.enqueue uninit r).1 = false ↔
        (e₀.allAccepted ops).length = e₀.allProcessed ops + 65535 := by
  intro e₀ e
  have hstart := follows_start config onTrade onExecution clocks clocks' symbols
  obtain ⟨hsame, hcount⟩ := hstart.drained ops
  obtain ⟨taken, left, hsplit, htaken, hfollows⟩ := hstart.run ops
  refine ⟨hsame, hcount, hfollows.processQueue.1, fun uninit r => ?_⟩
  have hall : (e₀.allAccepted ops).length = taken.length + left.length := by
    rw [← List.length_append, ← hsplit, List.nil_append]
  rw [hall, ← htaken, Nat.add_left_cancel_iff]
  rcases hfollows.waiting.enqueue uninit r with ⟨hok, hlt, -⟩ | ⟨hfail, hfull, -⟩
  · exact iff_of_false (by rw [hok]; exact Bool.true_eq_false.mp) (by omega)
  · exact iff_of_true hfail hfull

/-- A message put in and processed. -/
def putAndTake : List QueueOp :=
  [.enqueue default (.cancel (.ofChars []) 0), .processOne]

/-- A queue that is always empty again accepts everything. -/
lemma Follows.putAndTakes (h : Follows e e' [] n) (k : Nat) :
    (e.allAccepted (List.replicate k putAndTake).flatten).length = k := by
  induction k generalizing e e' n with
  | zero => rfl
  | succ k ih =>
      have hput := h.enqueue default (.cancel (.ofChars []) 0)
      have hok : (e.enqueue default (.cancel (.ofChars []) 0)).1 = true := by
        rcases h.waiting.enqueue default (.cancel (.ofChars []) 0) with ⟨hok, -⟩ | ⟨-, hfull, -⟩
        · exact hok
        · exact absurd hfull (by decide)
      rw [if_pos hok, List.nil_append] at hput
      have hrest := ih hput.processOne_cons.2
      rw [allAccepted] at hrest
      simp only [List.replicate_succ, List.flatten_cons, putAndTake, List.cons_append,
        List.nil_append, allAccepted, Run.outputs, accepted, if_pos hok, List.length_cons,
        Nat.add_right_cancel_iff]
      exact hrest

/-- After `2 ^ 64` messages none has been counted. -/
theorem processed_wraps :
    let e₀ := start {} false false (fun _ _ => 0) []
    let e := Run.run queueStep e₀ (List.replicate (2 ^ 64) putAndTake).flatten
    e.processQueue.2.stats.messagesProcessed.toNat
      ≠ (e₀.allAccepted (List.replicate (2 ^ 64) putAndTake).flatten).length := by
  intro e₀ e
  have hstart := follows_start {} false false (fun _ _ => 0) (fun _ _ => 0) []
  rw [(hstart.drained _).2, hstart.putAndTakes, UInt64.toNat_ofNat', Nat.mod_self]
  exact Nat.ne_of_lt (Nat.two_pow_pos 64)

end Exchange.MatchingEngine
