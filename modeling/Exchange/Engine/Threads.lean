import Exchange.Core.Handover
import Exchange.Engine.Queued
import Exchange.SpscQueue.Concurrent

/-!
# The engine on a thread of its own

One thread puts requests into the queue, another one is in `run`, `process_one` or `process_queue`,
and `stop` comes from anywhere.  Between any two accesses of one thread to the queue or to
`running_` the others may make any number of their own.  What is done with a message that has been
taken out is one step, since no other thread reads or writes the books.

* **`handed_over`** — at any moment the engine is as if the requests handled so far had been made
  directly, and these, the one in hand and those that wait are the accepted ones in their order.
-/

namespace Exchange

open Atomic Spsc
open MatchingEngine (SameEngine messagesProcessed_handle inboundQueue_handle)

/-- Who has called `process_one`. -/
inductive Caller
  | run
  | processOne
  | processQueue
deriving DecidableEq, Repr

/-- Where the engine's thread is. -/
inductive LoopPc
  | outside
  /-- `while (running_)` -/
  | check
  /-- in `try_pop` -/
  | polling (caller : Caller)
  /-- `try_pop` has returned a message -/
  | handling (caller : Caller) (msg : InboundMessage)

/-- The state of all threads; `runner` is the flag of `EngineRunner`.  What has been seen of the
queue's calls and returns, and what has been handled, is ghost state. -/
structure Threads where
  engine : MatchingEngine
  producer : ProducerPc InboundMessage := .idle
  consumer : ConsumerPc InboundMessage := .idle
  loop : LoopPc := .outside
  running : Bool := false
  runner : Bool := false
  ledger : Ledger InboundMessage := {}
  handled : List Request := []

/-- The part of `process_one` that follows a successful `try_pop`. -/
def MatchingEngine.dispatch (e : MatchingEngine) (msg : InboundMessage) : MatchingEngine :=
  let e := { e with stats.messagesProcessed := e.stats.messagesProcessed + 1 }
  match msg.type with
  | .NewOrder => (e.submitOrder {} msg.order).2
  | .CancelOrder => (e.cancelOrder {} msg.symbol msg.orderId).2
  | .ReplaceOrder => (e.replaceOrder {} msg.symbol msg.orderId msg.newPrice msg.newQty).2

namespace Threads

/-- The queue, with the threads that use it. -/
def machine (s : Threads) : Machine InboundMessage where
  queue := s.engine.inboundQueue
  producer := s.producer
  consumer := s.consumer

/-- An action on the queue. -/
def access (s : Threads) (act : Spsc.Action InboundMessage) : Threads :=
  let m := s.machine.step inboundCapacity act
  { s with
    engine := { s.engine with inboundQueue := m.queue }
    producer := m.producer
    consumer := m.consumer
    ledger := (s.machine.event act).foldl (Ledger.observe .producer .consumer) s.ledger }

/-- `process_one` begins. -/
def poll (s : Threads) (caller : Caller) : Threads :=
  { s.access .pop with loop := .polling caller }

/-- A call made on the engine's thread. -/
def enter (s : Threads) : Caller → Threads
  | .run => { s with running := true, loop := .check }
  | .processOne => s.poll .processOne
  | .processQueue => s.poll .processQueue

/-- `process_one` has returned to its caller. -/
def back (s : Threads) (processed : Bool) : Caller → Threads
  | .run => { s with loop := .check }
  | .processOne => { s with loop := .outside }
  | .processQueue => if processed = true then s.poll .processQueue else { s with loop := .outside }

/-- The next step of the engine's thread. -/
def engineStep (s : Threads) : Threads :=
  match s.loop with
  | .outside => s
  | .check => if s.running = true then s.poll .run else { s with loop := .outside }
  | .polling caller =>
      match s.consumer with
      | .returning none => (s.access .consumer).back false caller
      | .returning (some msg) => { s.access .consumer with loop := .handling caller msg }
      | _ => s.access .consumer
  | .handling caller msg =>
      { s with
        engine := s.engine.dispatch msg
        handled := s.handled ++ [msg.request] }.back true caller

/-- What can happen next.  The thread that enqueues calls when it is idle, the engine's thread when
it is outside. -/
inductive Act
  | enqueue (uninit : InboundMessage) (request : Request)
  | producer
  | call (caller : Caller)
  | engine
  | stop
  | runnerStart
  | runnerStop

def step (s : Threads) : Act → Threads
  | .enqueue uninit request => s.access (.push (request.message uninit))
  | .producer => s.access .producer
  | .call caller =>
      match s.loop with
      | .outside => s.enter caller
      | _ => s
  | .engine => s.engineStep
  | .stop => { s with running := false }
  | .runnerStart => { s with runner := true }
  | .runnerStop => { s with runner := false, running := false }

/-- The requests for which `enqueue_*` has returned true. -/
def accepted (s : Threads) : List Request := s.ledger.accepted.map InboundMessage.request

/-- The request for which it is about to return true. -/
def entering (s : Threads) : List Request :=
  match s.producer with
  | .returning true => s.ledger.offered.toList.map InboundMessage.request
  | _ => []

/-- The request that has been taken out and not been handled yet. -/
def inHand (s : Threads) : List Request :=
  match s.loop, s.consumer with
  | .handling _ msg, _ => [msg.request]
  | _, .returning (some msg) => [msg.request]
  | _, _ => []

/-- The requests in the slots of the queue, oldest first. -/
def queued (s : Threads) : List Request :=
  (held inboundCapacity s.engine.inboundQueue).map fun i => (s.engine.inboundQueue.slots i).request

end Threads

variable {e e₀ : MatchingEngine} {s : Threads}

/-! ## One step -/

lemma MatchingEngine.dispatch_eq (e : MatchingEngine) (msg : InboundMessage) :
    e.dispatch msg
      = (({ e with stats.messagesProcessed := e.stats.messagesProcessed + 1 } :
          MatchingEngine).handle {} msg.request).2 := by
  rw [dispatch, InboundMessage.request]
  cases msg.type <;> rfl

lemma MatchingEngine.SameEngine.queue {e' : MatchingEngine} (h : SameEngine e e')
    (queue : SPSCQueue InboundMessage) : SameEngine { e with inboundQueue := queue } e' :=
  ⟨h.books, h.stats_eq, h.events_eq, h.trades_eq⟩

lemma MatchingEngine.SameEngine.dispatch {e' : MatchingEngine} (h : SameEngine e e')
    (msg : InboundMessage) : SameEngine (e.dispatch msg) (e'.handle {} msg.request).2 := by
  have hcounted : SameEngine
      { e with stats.messagesProcessed := e.stats.messagesProcessed + 1 } e' :=
    ⟨h.books, h.stats_eq, h.events_eq, h.trades_eq⟩
  rw [dispatch_eq]
  exact (hcounted.handle {} msg.request).1

lemma MatchingEngine.messagesProcessed_dispatch (e : MatchingEngine) (msg : InboundMessage) :
    (e.dispatch msg).stats.messagesProcessed = e.stats.messagesProcessed + 1 := by
  rw [dispatch_eq, messagesProcessed_handle]

lemma MatchingEngine.inboundQueue_dispatch (e : MatchingEngine) (msg : InboundMessage) :
    (e.dispatch msg).inboundQueue = e.inboundQueue := by
  rw [dispatch_eq, inboundQueue_handle]

namespace Threads

/-- The queue and what has been seen of it, against the atomic queue. -/
structure Linked (m : Machine InboundMessage) (l : Ledger InboundMessage)
    (a : Atomic.State Client (List InboundMessage) (QueueOp InboundMessage)
      (QueueRes InboundMessage)) : Prop where
  tracked : ∃ k, Matches inboundCapacity m a k
  balanced : Balanced .producer .consumer l a

/-- The loop, the thread's place in the queue and what it has taken out. -/
inductive Sync (handled : List Request) :
    LoopPc → ConsumerPc InboundMessage → List Request → Prop
  | outside : Sync handled .outside .idle handled
  | check : Sync handled .check .idle handled
  | polling (caller : Caller) (pc : ConsumerPc InboundMessage) (hpc : pc ≠ .idle) :
      Sync handled (.polling caller) pc handled
  | handling (caller : Caller) (msg : InboundMessage) :
      Sync handled (.handling caller msg) .idle (handled ++ [msg.request])

/-- What the threads have done to the engine, given the one they started with. -/
structure Done (e₀ : MatchingEngine) (s : Threads) : Prop where
  linked : ∃ a, Linked s.machine s.ledger a
  same : SameEngine s.engine (e₀.submitAll s.handled)
  processed : s.engine.stats.messagesProcessed = UInt64.ofNat s.handled.length

structure Consistent (e₀ : MatchingEngine) (s : Threads) : Prop extends Done e₀ s where
  sync : Sync s.handled s.loop s.consumer (s.ledger.taken.map InboundMessage.request)

lemma proper_event (m : Machine InboundMessage) (act : Spsc.Action InboundMessage) :
    ∀ e ∈ m.event act, Proper Client.producer Client.consumer e := by
  intro e he
  cases act <;> simp only [Machine.event] at he <;> split at he <;>
    simp only [List.mem_singleton, List.not_mem_nil] at he <;> subst he
  · exact .push _
  · exact .pop
  · exact .ret _ _
  · exact .ret _ _

lemma Done.access (h : Done e₀ s) (act : Spsc.Action InboundMessage) : Done e₀ (s.access act) := by
  obtain ⟨a, hmatches, hbalanced⟩ := h.linked
  obtain ⟨a', htrace, hnext⟩ := simulation inboundCapacity s.machine a act hmatches
  exact ⟨⟨a', hnext, htrace.balanced (by decide) (proper_event _ _) hbalanced⟩, h.same.queue _,
    h.processed⟩

/-! ### The thread that enqueues -/

lemma consumer_access_push (s : Threads) (msg : InboundMessage) :
    (s.access (.push msg)).consumer = s.consumer ∧
      (s.access (.push msg)).ledger.taken = s.ledger.taken := by
  simp only [access, Machine.step, Machine.event]
  split <;> exact ⟨rfl, rfl⟩

lemma consumer_access_producer (s : Threads) :
    (s.access .producer).consumer = s.consumer ∧
      (s.access .producer).ledger.taken = s.ledger.taken := by
  simp only [access, Machine.step, Machine.producerStep, Machine.event]
  cases s.machine.producer with
  | idle | write | storeHead | returning => exact ⟨rfl, rfl⟩
  | loadHead | refresh =>
      simp only
      split_ifs <;> exact ⟨rfl, rfl⟩

lemma Consistent.producing (h : Consistent e₀ s) {act : Spsc.Action InboundMessage}
    (hact : (s.access act).consumer = s.consumer ∧
      (s.access act).ledger.taken = s.ledger.taken) : Consistent e₀ (s.access act) := by
  refine ⟨h.toDone.access act, ?_⟩
  rw [hact.1, hact.2]
  exact h.sync

/-! ### The engine's thread -/

lemma Done.poll (h : Done e₀ s) (hidle : s.consumer = .idle)
    (htaken : s.ledger.taken.map InboundMessage.request = s.handled) (caller : Caller) :
    Consistent e₀ (s.poll caller) := by
  have hconsumer : (s.access .pop).consumer = .loadTail := by
    simp [Threads.access, Machine.step, machine, hidle]
  have hledger : (s.access .pop).ledger = s.ledger := by
    simp [Threads.access, Machine.event, machine, hidle, Ledger.observe]
  have hnext := h.access .pop
  refine ⟨⟨hnext.linked, hnext.same, hnext.processed⟩, ?_⟩
  have hsync : Sync s.handled (.polling caller) .loadTail s.handled :=
    .polling caller .loadTail fun h => by cases h
  simp only [Threads.poll, hconsumer, hledger, htaken]
  exact hsync

lemma Done.back (h : Done e₀ s) (hidle : s.consumer = .idle)
    (htaken : s.ledger.taken.map InboundMessage.request = s.handled) (processed : Bool)
    (caller : Caller) : Consistent e₀ (s.back processed caller) := by
  have hleave : Consistent e₀ { s with loop := .outside } := by
    refine ⟨⟨h.linked, h.same, h.processed⟩, ?_⟩
    simp only [hidle, htaken]
    exact .outside
  cases caller with
  | run =>
      refine ⟨⟨h.linked, h.same, h.processed⟩, ?_⟩
      simp only [Threads.back, hidle, htaken]
      exact .check
  | processOne => exact hleave
  | processQueue =>
      rw [Threads.back]
      split
      · exact h.poll hidle htaken .processQueue
      · exact hleave

/-- A step of the consumer that is in `try_pop`. -/
lemma consumer_access_consumer (s : Threads) (hbusy : s.consumer ≠ .idle) :
    (∃ popped, s.consumer = .returning popped ∧ (s.access .consumer).consumer = .idle ∧
        (s.access .consumer).ledger.taken = s.ledger.taken ++ popped.toList) ∨
      (∀ popped, s.consumer ≠ .returning popped) ∧ (s.access .consumer).consumer ≠ .idle ∧
        (s.access .consumer).ledger.taken = s.ledger.taken := by
  cases hconsumer : s.consumer with
  | idle => exact absurd hconsumer hbusy
  | loadTail | refresh tail =>
      refine Or.inr ⟨by simp, ?_, ?_⟩
      · simp only [access, machine, Machine.step, Machine.consumerStep, hconsumer]
        split_ifs <;> simp
      · simp [access, machine, Machine.event, hconsumer]
  | read tail | storeTail item tail =>
      refine Or.inr ⟨by simp, ?_, ?_⟩
      · simp [access, machine, Machine.step, Machine.consumerStep, hconsumer]
      · simp [access, machine, Machine.event, hconsumer]
  | returning popped =>
      refine Or.inl ⟨popped, rfl, ?_, ?_⟩
      · simp [access, machine, Machine.step, Machine.consumerStep, hconsumer]
      · simp [access, machine, Machine.event, hconsumer, Ledger.observe]

lemma engineStep_check (hloop : s.loop = .check) :
    s.engineStep = if s.running = true then s.poll .run else { s with loop := .outside } := by
  rw [Threads.engineStep, hloop]

lemma engineStep_handling {caller : Caller} {msg : InboundMessage}
    (hloop : s.loop = .handling caller msg) :
    s.engineStep = { s with
      engine := s.engine.dispatch msg
      handled := s.handled ++ [msg.request] }.back true caller := by
  rw [Threads.engineStep, hloop]

lemma engineStep_empty {caller : Caller} (hloop : s.loop = .polling caller)
    (hpc : s.consumer = .returning none) :
    s.engineStep = (s.access .consumer).back false caller := by
  rw [Threads.engineStep, hloop]
  simp only [hpc]

lemma engineStep_popped {caller : Caller} {msg : InboundMessage} (hloop : s.loop = .polling caller)
    (hpc : s.consumer = .returning (some msg)) :
    s.engineStep = { s.access .consumer with loop := .handling caller msg } := by
  rw [Threads.engineStep, hloop]
  simp only [hpc]

lemma engineStep_busy {caller : Caller} (hloop : s.loop = .polling caller)
    (hpc : ∀ popped, s.consumer ≠ .returning popped) : s.engineStep = s.access .consumer := by
  rw [Threads.engineStep, hloop]
  cases hconsumer : s.consumer with
  | returning popped => exact absurd hconsumer (hpc popped)
  | idle | loadTail | refresh | read | storeTail => rfl

lemma Consistent.engineStep (h : Consistent e₀ s) : Consistent e₀ s.engineStep := by
  have hsync := h.sync
  generalize hloop : s.loop = loop at hsync
  generalize hconsumer : s.consumer = consumer at hsync
  generalize htaken : s.ledger.taken.map InboundMessage.request = taken at hsync
  cases hsync with
  | outside =>
      rw [Threads.engineStep, hloop]
      exact h
  | check =>
      rw [engineStep_check hloop]
      split_ifs
      · exact h.poll hconsumer htaken .run
      · refine ⟨⟨h.linked, h.same, h.processed⟩, ?_⟩
        simp only [hconsumer, htaken]
        exact .outside
  | polling caller _ hbusy =>
      have hnext := h.toDone.access .consumer
      rcases consumer_access_consumer s (hconsumer ▸ hbusy) with ⟨popped, hpc, hidle, hpopped⟩ |
        ⟨hpc, hbusy', hpopped⟩
      · cases popped with
        | none =>
            rw [engineStep_empty hloop hpc]
            refine hnext.back hidle ?_ false caller
            rw [hpopped, Option.toList_none, List.append_nil, htaken]
            rfl
        | some msg =>
            rw [engineStep_popped hloop hpc]
            refine ⟨⟨hnext.linked, hnext.same, hnext.processed⟩, ?_⟩
            simp only [hidle, hpopped, List.map_append, htaken]
            exact .handling caller msg
      · rw [engineStep_busy hloop hpc]
        refine ⟨hnext, ?_⟩
        have hsync : Sync s.handled (.polling caller) (s.access .consumer).consumer s.handled :=
          .polling caller _ hbusy'
        rw [hpopped, htaken]
        exact hloop ▸ hsync
  | handling caller msg =>
      have hdone : Done e₀ { s with
          engine := s.engine.dispatch msg
          handled := s.handled ++ [msg.request] } := by
        refine ⟨?_, ?_, ?_⟩
        · obtain ⟨a, hlinked⟩ := h.linked
          refine ⟨a, ?_, hlinked.balanced⟩
          rw [machine, MatchingEngine.inboundQueue_dispatch]
          exact hlinked.tracked
        · simp only [MatchingEngine.submitAll, Run.run, List.foldl_append]
          exact h.same.dispatch msg
        · simp only [MatchingEngine.messagesProcessed_dispatch, h.processed, List.length_append]
          rw [UInt64.ofNat_add]
          rfl
      rw [engineStep_handling hloop]
      exact hdone.back hconsumer htaken true caller

/-- The step lemma. -/
lemma Consistent.step (h : Consistent e₀ s) (act : Act) : Consistent e₀ (s.step act) := by
  cases act with
  | enqueue uninit request => exact h.producing (consumer_access_push s _)
  | producer => exact h.producing (consumer_access_producer s)
  | call caller =>
      have hsync := h.sync
      simp only [Threads.step]
      cases hloop : s.loop with
      | outside =>
          rw [hloop] at hsync
          generalize hconsumer : s.consumer = consumer at hsync
          generalize htaken : s.ledger.taken.map InboundMessage.request = taken at hsync
          cases hsync
          cases caller with
          | run =>
              refine ⟨⟨h.linked, h.same, h.processed⟩, ?_⟩
              simp only [enter, hconsumer, htaken]
              exact .check
          | processOne => exact h.poll hconsumer htaken .processOne
          | processQueue => exact h.poll hconsumer htaken .processQueue
      | check | polling | handling => exact h
  | engine => exact h.engineStep
  | stop | runnerStart | runnerStop => exact ⟨⟨h.linked, h.same, h.processed⟩, h.sync⟩

/-! ## Runs -/

/-- The run lemma. -/
lemma Consistent.run (h : Consistent e₀ s) (acts : List Act) :
    Consistent e₀ (Run.run Threads.step s acts) :=
  (Run.admitted_trivial s acts).invariant (fun _ act h _ => h.step act) h

lemma consistent_start (config : OrderBookConfig) (onTrade onExecution : Bool)
    (clocks clocks' : Nat → Stream' Timestamp) (symbols : List Symbol) :
    Consistent (.start config onTrade onExecution clocks' symbols)
      { engine := .start config onTrade onExecution clocks symbols } := by
  have hfollows := MatchingEngine.follows_start config onTrade onExecution clocks clocks' symbols
  have hqueue : (MatchingEngine.start config onTrade onExecution clocks symbols).inboundQueue
      = .empty := by
    rw [MatchingEngine.start, MatchingEngine.foldl_addSymbol_eq]
  refine ⟨⟨⟨quiescent [], ⟨{}, ?_⟩, .quiescent⟩, hfollows.same, hfollows.processed_eq⟩, .outside⟩
  rw [machine, hqueue]
  exact matches_start inboundCapacity

/-- What the program counters say about the producer's phase. -/
lemma Linked.entering {m : Machine InboundMessage} {l : Ledger InboundMessage}
    {a : Atomic.State Client (List InboundMessage) (QueueOp InboundMessage)
      (QueueRes InboundMessage)} (h : Linked m l a) :
    Atomic.entering l.offered (a.phase .producer)
      = match m.producer with
        | .returning true => l.offered.toList
        | _ => [] := by
  obtain ⟨k, hmatches⟩ := h.tracked
  have hproducing := hmatches.producing
  generalize m.producer = pc at hproducing
  generalize a.phase .producer = phase at hproducing
  cases hproducing with
  | returning ok => cases ok <;> rfl
  | idle | loadHead | refresh | write | storeHead => rfl

/-- And about the consumer's. -/
lemma Linked.leaving {m : Machine InboundMessage} {l : Ledger InboundMessage}
    {a : Atomic.State Client (List InboundMessage) (QueueOp InboundMessage)
      (QueueRes InboundMessage)} (h : Linked m l a) :
    Atomic.leaving (a.phase .consumer)
      = match m.consumer with
        | .returning popped => popped.toList
        | _ => [] := by
  obtain ⟨k, hmatches⟩ := h.tracked
  have hconsuming := hmatches.consuming
  generalize m.consumer = pc at hconsuming
  generalize a.phase .consumer = phase at hconsuming
  cases hconsuming <;> rfl

/-- The requests in the slots between the two indices are those of the atomic queue. -/
lemma Linked.queued {a : Atomic.State Client (List InboundMessage) (QueueOp InboundMessage)
    (QueueRes InboundMessage)} (h : Linked s.machine s.ledger a) :
    s.queued = a.value.map InboundMessage.request := by
  obtain ⟨k, hmatches⟩ := h.tracked
  have htracks := hmatches.tracks
  rw [Threads.queued]
  simp only [machine] at htracks
  rw [held_eq htracks, List.map_map]
  refine List.ext_getElem (by simp) fun i hi hi' => ?_
  rw [List.length_map] at hi'
  simp [htracks.slot i hi']

lemma Consistent.total (h : Consistent e₀ s) :
    s.accepted ++ s.entering = s.handled ++ s.inHand ++ s.queued := by
  obtain ⟨a, hlinked⟩ := h.linked
  have htotal := congrArg (List.map InboundMessage.request) hlinked.balanced.total
  rw [List.map_append, List.map_append, List.map_append, ← hlinked.queued, hlinked.entering,
    hlinked.leaving] at htotal
  have hentering : (match s.machine.producer with
      | .returning true => s.ledger.offered.toList
      | _ => []).map InboundMessage.request = s.entering := by
    rw [Threads.entering]
    change ((match s.producer with
      | .returning true => s.ledger.offered.toList
      | _ => []).map InboundMessage.request) = _
    split <;> rfl
  have hhand : s.ledger.taken.map InboundMessage.request
      ++ (match s.machine.consumer with
        | .returning popped => popped.toList
        | _ => []).map InboundMessage.request = s.handled ++ s.inHand := by
    have hsync := h.sync
    rw [inHand, machine]
    generalize s.loop = loop at hsync
    generalize s.consumer = consumer at hsync
    generalize s.ledger.taken.map InboundMessage.request = taken at hsync
    cases hsync with
    | outside | check => rfl
    | polling caller _ hbusy =>
        cases consumer with
        | returning popped => cases popped <;> rfl
        | idle | loadTail | refresh | read | storeTail => rfl
    | handling caller msg => exact List.append_nil _
  rw [hentering, hhand] at htotal
  exact htotal

/-- **Every accepted request is handled once, in its turn.**  However the threads are interleaved,
at any moment the engine has the books, the announcements and the statistics, times aside, of one on
which the requests handled so far have been made directly, and has counted them, modulo `2 ^ 64`.
The requests that `enqueue_*` has accepted, with the one whose call is about to return true, are
those that have been handled, the one in hand, and those in the slots of the queue, in this
order. -/
theorem handed_over (config : OrderBookConfig) (onTrade onExecution : Bool)
    (clocks clocks' : Nat → Stream' Timestamp) (symbols : List Symbol) (acts : List Act) :
    let s := Run.run Threads.step
      { engine := .start config onTrade onExecution clocks symbols } acts
    s.accepted ++ s.entering = s.handled ++ s.inHand ++ s.queued ∧
      SameEngine s.engine
        ((MatchingEngine.start config onTrade onExecution clocks' symbols).submitAll s.handled) ∧
      s.engine.stats.messagesProcessed = UInt64.ofNat s.handled.length := by
  intro s
  have hs := (consistent_start config onTrade onExecution clocks clocks' symbols).run acts
  exact ⟨hs.total, hs.same, hs.processed⟩

end Threads

end Exchange
