import Exchange.Engine.Calls

/-!
# Requests, made directly or through the queue

`RequestOp` is what is done to an engine in a run of requests: one is made directly, one is put into
the queue, or one is taken out of it and made.  Each of these calls makes one request or none
(`requestStep_eq`), and leaves everything else to the queue and the counters (`atRequest_eq`).

`Waiting` says which requests are in the queue.
-/

namespace Exchange.MatchingEngine

/-- What is done to an engine in a run of requests, direct or queued. -/
inductive RequestOp
  | direct (uninit : OrderResult) (request : Request)
  | enqueue (uninit : InboundMessage) (request : Request)
  | processOne

def RequestOp.op : RequestOp → Op
  | .direct uninit request => .direct uninit request
  | .enqueue uninit request => .enqueue uninit request
  | .processOne => .processOne

/-- The request that a call is given satisfies `P`. -/
def RequestOp.Asks (P : Request → Prop) : RequestOp → Prop
  | .direct _ r | .enqueue _ r => P r
  | .processOne => True

def requestStep (e : MatchingEngine) (q : RequestOp) : MatchingEngine := e.apply q.op

/-- The request that a call makes, if it makes one: its own, or the one at the front of the
queue. -/
def made (e : MatchingEngine) : RequestOp → Option Request
  | .direct _ r => some r
  | .enqueue _ _ => none
  | .processOne => (e.inboundQueue.tryPop inboundCapacity).1.map InboundMessage.request

variable {e : MatchingEngine} {waiting : List Request}

/-- The engine a call finds when it comes to its request. -/
def atRequest (e : MatchingEngine) : RequestOp → MatchingEngine
  | .direct _ _ => e
  | .enqueue uninit r => (e.enqueue uninit r).2
  | .processOne =>
      match e.inboundQueue.tryPop inboundCapacity with
      | (none, queue) => { e with inboundQueue := queue }
      | (some _, queue) =>
          { e with
            inboundQueue := queue
            stats.messagesProcessed := e.stats.messagesProcessed + 1 }

/-- A call makes its request, or none. -/
lemma requestStep_eq (e : MatchingEngine) (q : RequestOp) :
    (∃ r uninit, e.made q = some r ∧ e.requestStep q = ((e.atRequest q).handle uninit r).2) ∨
      e.made q = none ∧ e.requestStep q = e.atRequest q := by
  cases q with
  | direct uninit r => exact Or.inl ⟨r, uninit, rfl, rfl⟩
  | enqueue uninit r => exact Or.inr ⟨rfl, rfl⟩
  | processOne =>
      have hstep : e.requestStep .processOne = e.processOne.2 := rfl
      rw [hstep, processOne_eq, made, atRequest]
      cases htry : e.inboundQueue.tryPop inboundCapacity with
      | mk popped queue =>
          cases popped with
          | none => exact Or.inr ⟨rfl, rfl⟩
          | some msg => exact Or.inl ⟨msg.request, {}, rfl, rfl⟩

lemma atRequest_eq (e : MatchingEngine) (q : RequestOp) :
    (∀ symbol, (e.atRequest q).book? symbol = e.book? symbol) ∧
      (e.atRequest q).history = e.history ∧
        (e.atRequest q).stats.totalVolume = e.stats.totalVolume := by
  cases q with
  | direct uninit r => exact ⟨fun _ => rfl, rfl, rfl⟩
  | enqueue uninit r =>
      rw [atRequest, enqueue_eq]
      exact ⟨fun _ => rfl, rfl, rfl⟩
  | processOne =>
      rw [atRequest]
      cases e.inboundQueue.tryPop inboundCapacity with
      | mk popped queue => cases popped <;> exact ⟨fun _ => rfl, rfl, rfl⟩

/-! ## The queue -/

/-- The requests that wait in the queue. -/
def Waiting (e : MatchingEngine) (rs : List Request) : Prop :=
  ∃ msgs, e.inboundQueue.Holds inboundCapacity msgs ∧ msgs.map InboundMessage.request = rs

lemma Waiting.length_le (h : e.Waiting waiting) : waiting.length ≤ 65535 := by
  obtain ⟨msgs, hholds, rfl⟩ := h
  have hlt : msgs.length < 65536 := hholds.length_lt
  rw [List.length_map]
  omega

/-- A request is refused exactly if 65535 wait. -/
lemma Waiting.enqueue (h : e.Waiting waiting) (uninit : InboundMessage) (r : Request) :
    ((e.enqueue uninit r).1 = true ∧ waiting.length < 65535 ∧
        (e.enqueue uninit r).2.Waiting (waiting ++ [r])) ∨
      ((e.enqueue uninit r).1 = false ∧ waiting.length = 65535 ∧
        (e.enqueue uninit r).2.Waiting waiting) := by
  have hle := h.length_le
  obtain ⟨msgs, hholds, rfl⟩ := h
  have hpush := hholds.tryPush_spec (r.message uninit)
  rw [enqueue_eq]
  split_ifs at hpush with hfree
  · have hfree : msgs.length + 1 < 65536 := hfree
    refine Or.inl ⟨hpush.1, ?_, msgs ++ [r.message uninit], hpush.2, by simp⟩
    rw [List.length_map]
    omega
  · have hfull : ¬ msgs.length + 1 < 65536 := hfree
    refine Or.inr ⟨hpush.1, ?_, msgs, hpush.2, rfl⟩
    rw [List.length_map] at hle ⊢
    omega

/-- What waits in the queue satisfies `P`. -/
def WaitingAll (P : Request → Prop) (e : MatchingEngine) : Prop :=
  ∃ waiting, e.Waiting waiting ∧ ∀ r ∈ waiting, P r

variable {P : Request → Prop}

lemma WaitingAll.congr {e' : MatchingEngine} (h : e.WaitingAll P)
    (hqueue : e'.inboundQueue = e.inboundQueue) : e'.WaitingAll P := by
  obtain ⟨waiting, ⟨msgs, hholds, hmsgs⟩, hall⟩ := h
  exact ⟨waiting, ⟨msgs, hqueue ▸ hholds, hmsgs⟩, hall⟩

/-- Where only such requests are put in, only such requests are made. -/
lemma WaitingAll.atRequest (h : e.WaitingAll P) {q : RequestOp} (hq : q.Asks P) :
    (∀ r, e.made q = some r → P r) ∧ (e.atRequest q).WaitingAll P := by
  cases q with
  | direct uninit r =>
      refine ⟨fun r' hmade => ?_, h⟩
      cases hmade
      exact hq
  | enqueue uninit r =>
      obtain ⟨waiting, hwaiting, hall⟩ := h
      refine ⟨fun r' hmade => (by cases hmade), ?_⟩
      rcases hwaiting.enqueue uninit r with ⟨-, -, hnext⟩ | ⟨-, -, hnext⟩
      · refine ⟨_, hnext, fun r' hr' => ?_⟩
        rcases List.mem_append.mp hr' with hr' | hr'
        · exact hall r' hr'
        · obtain rfl := List.mem_singleton.mp hr'
          exact hq
      · exact ⟨waiting, hnext, hall⟩
  | processOne =>
      obtain ⟨waiting, ⟨msgs, hholds, rfl⟩, hall⟩ := h
      obtain ⟨hpop, hrest⟩ := hholds.tryPop_spec
      rw [made, MatchingEngine.atRequest]
      cases htry : e.inboundQueue.tryPop inboundCapacity with
      | mk popped queue =>
          rw [htry] at hpop hrest
          cases msgs with
          | nil =>
              obtain rfl : popped = none := hpop
              exact ⟨fun r hr => (by cases hr), [], ⟨[], hrest, rfl⟩, by simp⟩
          | cons msg msgs =>
              obtain rfl : popped = some msg := hpop
              refine ⟨fun r hr => ?_, _, ⟨msgs, hrest, rfl⟩, fun r hr => ?_⟩
              · cases hr
                exact hall _ List.mem_cons_self
              · exact hall r (List.mem_cons_of_mem _ hr)

lemma WaitingAll.step (h : e.WaitingAll P) {q : RequestOp} (hq : q.Asks P) :
    (e.requestStep q).WaitingAll P := by
  have hnext := (h.atRequest hq).2
  rcases requestStep_eq e q with ⟨r, uninit, -, hstep⟩ | ⟨-, hstep⟩
  · rw [hstep]
    exact hnext.congr (inboundQueue_handle _ _ _)
  · rwa [hstep]

lemma waitingAll_start (config : OrderBookConfig) (onTrade onExecution : Bool)
    (clocks : Nat → Stream' Timestamp) (symbols : List Symbol) :
    (start config onTrade onExecution clocks symbols).WaitingAll P := by
  refine ⟨[], ⟨[], ?_, rfl⟩, by simp⟩
  rw [start, foldl_addSymbol_eq]
  exact SPSCQueue.Holds.empty

end Exchange.MatchingEngine
