import Exchange.Engine.Threads

/-!
# The loop of the engine's thread

* **`stop_prompt`** — only a `stop` ends `run`; after it at most one more message is handled, and
  seven steps of the engine's thread end it;
* **`drains`** — if nothing more comes, `run` handles everything that has been accepted.

`rank` bounds the steps that are left until the thread is out of `run`, or back at `while`.
-/

namespace Exchange.Threads

open Atomic Spsc

variable {e₀ : MatchingEngine} {s : Threads}

/-- `stop` is called. -/
def Act.Stops : Act → Prop
  | .stop | .runnerStop => True
  | .enqueue _ _ | .producer | .call _ | .engine | .runnerStart => False

/-- A function is called on the engine's thread. -/
def Act.Calls : Act → Prop
  | .call _ => True
  | .enqueue _ _ | .producer | .engine | .stop | .runnerStart | .runnerStop => False

def Act.isEngine : Act → Bool
  | .engine => true
  | .enqueue _ _ | .producer | .call _ | .stop | .runnerStart | .runnerStop => false

/-- The engine's thread is in `run`. -/
def InRun (s : Threads) : Prop :=
  s.loop = .check ∨ s.loop = .polling .run ∨ ∃ msg, s.loop = .handling .run msg

/-- The number of steps that the engine's thread needs to leave `run`, at most. -/
def rank (s : Threads) : Nat :=
  match s.loop, s.consumer with
  | .outside, _ => 0
  | .check, _ => 1
  | .handling _ _, _ => 2
  | .polling _, .idle | .polling _, .returning _ => 3
  | .polling _, .storeTail _ _ => 4
  | .polling _, .read _ => 5
  | .polling _, .refresh _ => 6
  | .polling _, .loadTail => 7

/-- The number of messages that `run` can still handle after a stop. -/
def spare (s : Threads) : Nat :=
  match s.loop with
  | .polling _ | .handling _ _ => 1
  | .outside | .check => 0

/-- The other thread does not touch what the engine's thread does. -/
lemma frame_step {act : Act} (hcall : ¬ act.Calls) (hengine : act.isEngine = false) (s : Threads) :
    (s.step act).loop = s.loop ∧ (s.step act).consumer = s.consumer ∧
      (s.step act).handled = s.handled ∧
      (¬ act.Stops → (s.step act).running = s.running) ∧
      (s.running = false → (s.step act).running = false) := by
  cases act with
  | enqueue uninit request =>
      exact ⟨rfl, (consumer_access_push s _).1, rfl, fun _ => rfl, id⟩
  | producer => exact ⟨rfl, (consumer_access_producer s).1, rfl, fun _ => rfl, id⟩
  | call => exact absurd trivial hcall
  | engine => cases hengine
  | stop | runnerStop => exact ⟨rfl, rfl, rfl, fun hstop => absurd trivial hstop, fun _ => rfl⟩
  | runnerStart => exact ⟨rfl, rfl, rfl, fun _ => rfl, id⟩

/-- A step of the consumer inside `try_pop` brings it closer to its end. -/
lemma rank_access_consumer {caller : Caller} (hloop : s.loop = .polling caller)
    (hbusy : s.consumer ≠ .idle) (hpc : ∀ popped, s.consumer ≠ .returning popped) :
    (s.access .consumer).rank < s.rank := by
  have hloop' : (s.access .consumer).loop = .polling caller := hloop
  rw [rank, rank, hloop, hloop']
  cases hconsumer : s.consumer with
  | idle => exact absurd hconsumer hbusy
  | returning popped => exact absurd hconsumer (hpc popped)
  | loadTail | refresh tail =>
      simp only [access, machine, Machine.step, Machine.consumerStep, hconsumer]
      split_ifs <;> simp
  | read tail | storeTail item tail =>
      simp [access, machine, Machine.step, Machine.consumerStep, hconsumer]

/-- The engine's thread does not touch what the other thread does. -/
lemma producer_access_consumer (s : Threads) :
    (s.access .consumer).producer = s.producer ∧
      (s.access .consumer).ledger.accepted = s.ledger.accepted := by
  cases hconsumer : s.consumer with
  | idle | read tail | storeTail item tail | returning popped =>
      simp [access, machine, Machine.step, Machine.consumerStep, Machine.event, hconsumer,
        Ledger.observe]
  | loadTail | refresh tail =>
      simp only [access, machine, Machine.step, Machine.consumerStep, Machine.event, hconsumer]
      split_ifs <;> exact ⟨rfl, rfl⟩

lemma producer_access_pop (s : Threads) :
    (s.access .pop).producer = s.producer ∧
      (s.access .pop).ledger.accepted = s.ledger.accepted := by
  simp only [access, machine, Machine.step, Machine.event]
  cases s.consumer <;> exact ⟨rfl, rfl⟩

/-- What a step of the engine's thread does while it is in `run`. -/
structure RunStep (s t : Threads) : Prop where
  running : t.running = s.running
  producer : t.producer = s.producer
  accepted : t.ledger.accepted = s.ledger.accepted
  stays : s.running = true → t.InRun
  ends : s.running = false → t.loop = .outside ∨ t.InRun
  rank : s.loop = .check ∧ s.running = true ∨ t.rank < s.rank
  handled : ∃ later, t.handled = s.handled ++ later ∧
    (s.running = false → later.length + t.spare ≤ s.spare)

lemma Consistent.runStep (h : Consistent e₀ s) (hrun : s.InRun) : RunStep s s.engineStep := by
  have hsync := h.sync
  generalize hconsumer : s.consumer = consumer at hsync
  generalize s.ledger.taken.map InboundMessage.request = taken at hsync
  rcases hrun with hloop | hloop | ⟨msg, hloop⟩
  · obtain ⟨hproducer, haccepted⟩ := producer_access_pop s
    rw [engineStep_check hloop]
    split_ifs with hrunning
    · exact ⟨rfl, hproducer, haccepted, fun _ => Or.inr (Or.inl rfl),
        fun _ => Or.inr (Or.inr (Or.inl rfl)), Or.inl ⟨hloop, hrunning⟩,
        [], (List.append_nil _).symm, fun hstop => by rw [hrunning] at hstop; cases hstop⟩
    · refine ⟨rfl, rfl, rfl, fun hon => absurd hon hrunning, fun _ => Or.inl rfl, Or.inr ?_,
        [], (List.append_nil _).symm, fun _ => ?_⟩
      · simp [Threads.rank, hloop]
      · simp [spare]
  · obtain ⟨hproducer, haccepted⟩ := producer_access_consumer s
    rw [hloop] at hsync
    cases hsync with
    | polling _ _ hbusy =>
        rcases consumer_access_consumer s (hconsumer ▸ hbusy) with ⟨popped, hpc, -, -⟩ | ⟨hpc, -, -⟩
        · cases popped with
          | none =>
              rw [engineStep_empty hloop hpc]
              refine ⟨rfl, hproducer, haccepted, fun _ => Or.inl rfl, fun _ => Or.inr (Or.inl rfl),
                Or.inr ?_, [], (List.append_nil _).symm, fun _ => ?_⟩
              · simp [Threads.rank, back, hloop, hpc]
              · simp [spare, back, hloop]
          | some msg =>
              rw [engineStep_popped hloop hpc]
              refine ⟨rfl, hproducer, haccepted, fun _ => Or.inr (Or.inr ⟨msg, rfl⟩),
                fun _ => Or.inr (Or.inr (Or.inr ⟨msg, rfl⟩)), Or.inr ?_, [],
                (List.append_nil _).symm, fun _ => ?_⟩
              · simp [Threads.rank, hloop, hpc]
              · simp [spare, hloop]
        · rw [engineStep_busy hloop hpc]
          have hspare : (s.access .consumer).spare = s.spare := rfl
          refine ⟨rfl, hproducer, haccepted, fun _ => Or.inr (Or.inl hloop),
            fun _ => Or.inr (Or.inr (Or.inl hloop)), Or.inr ?_, [], (List.append_nil _).symm,
            fun _ => ?_⟩
          · exact rank_access_consumer hloop (hconsumer ▸ hbusy) hpc
          · rw [hspare]
            simp
  · rw [engineStep_handling hloop]
    refine ⟨rfl, rfl, rfl, fun _ => Or.inl rfl, fun _ => Or.inr (Or.inl rfl), Or.inr ?_,
      [msg.request], rfl, fun _ => ?_⟩
    · simp [Threads.rank, back, hloop]
    · simp [spare, back, hloop]

lemma InRun.congr {t : Threads} (h : s.InRun) (hloop : t.loop = s.loop) : t.InRun := by
  rw [InRun, hloop]
  exact h

/-- A call on a thread that is in `run` is not made. -/
lemma InRun.step_call (h : s.InRun) (caller : Caller) : s.step (.call caller) = s := by
  rcases h with hloop | hloop | ⟨msg, hloop⟩ <;> simp only [Threads.step, hloop]

/-- Nothing but a stop ends `run`. -/
lemma Consistent.keepsRunning (h : Consistent e₀ s) (hrun : s.InRun) (hon : s.running = true)
    {acts : List Act} (hacts : ∀ act ∈ acts, ¬ act.Stops) :
    (Run.run Threads.step s acts).InRun ∧ (Run.run Threads.step s acts).running = true := by
  induction acts generalizing s with
  | nil => exact ⟨hrun, hon⟩
  | cons act acts ih =>
      have hrest := fun act' hact' => hacts act' (List.mem_cons_of_mem act hact')
      have hframe : act.isEngine = false → ¬ act.Calls →
          (s.step act).InRun ∧ (s.step act).running = true := by
        intro hengine hcall
        obtain ⟨hloop, -, -, hrunning, -⟩ := frame_step hcall hengine s
        exact ⟨hrun.congr hloop, (hrunning (hacts _ List.mem_cons_self)).trans hon⟩
      have hnext : (s.step act).InRun ∧ (s.step act).running = true := by
        cases act with
        | call caller =>
            rw [hrun.step_call caller]
            exact ⟨hrun, hon⟩
        | engine =>
            have hstep := h.runStep hrun
            exact ⟨hstep.stays hon, hstep.running.trans hon⟩
        | enqueue | producer | stop | runnerStart | runnerStop => exact hframe rfl id
      exact ih (h.step act) hnext.1 hnext.2 hrest

def engineSteps (acts : List Act) : Nat := acts.countP Act.isEngine

/-- The thread is on its way out, or has left. -/
structure Ending (s t : Threads) (steps : Nat) : Prop where
  running : t.running = false
  loop : t.loop = .outside ∨ t.InRun
  rank : t.rank ≤ s.rank - steps
  handled : ∃ later, t.handled = s.handled ++ later ∧ later.length + t.spare ≤ s.spare

lemma Consistent.endingStep (h : Consistent e₀ s) (hloop : s.loop = .outside ∨ s.InRun)
    (hoff : s.running = false) {act : Act} (hact : ¬ act.Calls) :
    Ending s (s.step act) (engineSteps [act]) := by
  have hframe : act.isEngine = false → Ending s (s.step act) (engineSteps [act]) := by
    intro hengine
    obtain ⟨hloop', hconsumer, hhandled, -, hrunning⟩ := frame_step hact hengine s
    refine ⟨hrunning hoff, ?_, ?_, [], ?_, ?_⟩
    · exact hloop.imp hloop'.trans fun hrun => hrun.congr hloop'
    · simp [Threads.rank, hloop', hconsumer, engineSteps, hengine]
    · rw [hhandled, List.append_nil]
    · simp [spare, hloop']
  cases act with
  | engine =>
      rcases hloop with hloop | hrun
      · have hstay : s.step .engine = s := by
          rw [Threads.step, Threads.engineStep, hloop]
        rw [hstay]
        refine ⟨hoff, Or.inl hloop, ?_, [], (List.append_nil _).symm, by simp⟩
        simp [Threads.rank, hloop]
      · have hstep := h.runStep hrun
        obtain ⟨later, hlater, hspare⟩ := hstep.handled
        refine ⟨hstep.running.trans hoff, hstep.ends hoff, ?_, later, hlater, hspare hoff⟩
        rcases hstep.rank with ⟨-, hon⟩ | hlt
        · rw [hoff] at hon
          cases hon
        · exact Nat.le_sub_one_of_lt hlt
  | enqueue | producer | call | stop | runnerStart | runnerStop => exact hframe rfl

lemma Consistent.ending (h : Consistent e₀ s) (hloop : s.loop = .outside ∨ s.InRun)
    (hoff : s.running = false) {acts : List Act} (hacts : ∀ act ∈ acts, ¬ act.Calls) :
    Ending s (Run.run Threads.step s acts) (engineSteps acts) := by
  induction acts generalizing s with
  | nil => exact ⟨hoff, hloop, Nat.le_refl _, [], (List.append_nil _).symm, by simp [Run.run]⟩
  | cons act acts ih =>
      have hfirst := h.endingStep hloop hoff (hacts act List.mem_cons_self)
      have hrest := ih (h.step act) hfirst.loop hfirst.running
        fun act' hact' => hacts act' (List.mem_cons_of_mem act hact')
      have hsteps : engineSteps (act :: acts) = engineSteps [act] + engineSteps acts := by
        rw [engineSteps, ← List.singleton_append, List.countP_append]
        rfl
      obtain ⟨first, hfirst', hspare⟩ := hfirst.handled
      obtain ⟨later, hlater, hspare'⟩ := hrest.handled
      have hrank := hfirst.rank
      have hrank' := hrest.rank
      change Ending s (Run.run Threads.step (s.step act) acts) _
      refine ⟨hrest.running, hrest.loop, ?_, first ++ later, ?_, ?_⟩
      · rw [hsteps]
        omega
      · rw [← List.append_assoc, ← hfirst']
        exact hlater
      · rw [List.length_append]
        omega

lemma rank_le (s : Threads) : s.rank ≤ 7 := by
  rw [rank]
  split <;> omega

/-- **`run` ends after a stop, and only then.**  While the engine's thread is in `run` and
`running_` is set, it stays there whatever the other threads do, except that one calls `stop`; a
stop that came before `run` was entered has no effect.  After a stop it handles at most one more
message, and is out of `run` once it has made seven steps, with nothing in its hands. -/
theorem stop_prompt (config : OrderBookConfig) (onTrade onExecution : Bool)
    (clocks : Nat → Stream' Timestamp) (symbols : List Symbol) (acts acts' : List Act) :
    let s := Run.run Threads.step
      { engine := .start config onTrade onExecution clocks symbols } acts
    let t := Run.run Threads.step s acts'
    s.InRun →
      (s.running = true → (∀ act ∈ acts', ¬ act.Stops) → t.InRun) ∧
        (s.running = false → (∀ act ∈ acts', ¬ act.Calls) →
          (∃ later, t.handled = s.handled ++ later ∧ later.length ≤ 1) ∧
            (7 ≤ engineSteps acts' → t.loop = .outside ∧ t.inHand = [])) := by
  intro s t hrun
  have hs : Consistent _ s :=
    (consistent_start config onTrade onExecution clocks clocks symbols).run acts
  refine ⟨fun hon hacts => (hs.keepsRunning hrun hon hacts).1, fun hoff hacts => ?_⟩
  have hending := hs.ending (Or.inr hrun) hoff hacts
  obtain ⟨later, hlater, hspare⟩ := hending.handled
  refine ⟨⟨later, hlater, ?_⟩, fun hsteps => ?_⟩
  · have hle : s.spare ≤ 1 := by
      rw [spare]
      split <;> omega
    omega
  · have hrank : t.rank = 0 := by
      have hle := hending.rank
      have hseven := s.rank_le
      change t.rank ≤ _ at hle
      omega
    have hloop : t.loop = .outside := by
      rcases hending.loop with hloop | hloop | hloop | ⟨msg, hloop⟩
      · exact hloop
      all_goals
        change t.loop = _ at hloop
      · simp [rank, hloop] at hrank
      · rw [rank, hloop] at hrank
        split at hrank <;> simp at *
      · simp [rank, hloop] at hrank
    have hsync := (hs.run acts').sync
    change Sync t.handled t.loop t.consumer _ at hsync
    rw [inHand, hloop]
    rw [hloop] at hsync
    generalize t.consumer = consumer at hsync
    generalize t.ledger.taken.map InboundMessage.request = taken at hsync
    cases hsync
    exact ⟨rfl, rfl⟩

/-- Two messages wait when `run` is called, and it is stopped with the first of them in its
hands. -/
theorem stop_prompt_start :
    let s := Run.run Threads.step { engine := .start {} false false (fun _ _ => 0) [] }
      (.enqueue default (.cancel (.ofChars []) 1) :: List.replicate 4 .producer
        ++ .enqueue default (.cancel (.ofChars []) 2) :: List.replicate 4 .producer
        ++ [.stop, .call .run] ++ List.replicate 6 .engine)
    let t := Run.run Threads.step (s.step .stop) (List.replicate 7 .engine)
    s.accepted = [.cancel (.ofChars []) 1, .cancel (.ofChars []) 2] ∧
      s.inHand = [.cancel (.ofChars []) 1] ∧
      (Run.run Threads.step s (List.replicate 20 .engine)).InRun ∧
        (∃ later, t.handled = s.handled ++ later ∧ later.length ≤ 1) ∧
          t.loop = .outside ∧ t.inHand = [] := by
  intro s t
  have hnone : ∀ n, ∀ act ∈ List.replicate n Act.engine, ¬ act.Stops ∧ ¬ act.Calls := by
    intro n act hact
    obtain rfl := List.eq_of_mem_replicate hact
    exact ⟨id, id⟩
  have hrun : s.InRun := Or.inr (Or.inr ⟨_, rfl⟩)
  have hruns := stop_prompt {} false false (fun _ _ => 0) [] _ (List.replicate 20 .engine) hrun
  have hstops := stop_prompt {} false false (fun _ _ => 0) []
    (.enqueue default (.cancel (.ofChars []) 1) :: List.replicate 4 .producer
      ++ .enqueue default (.cancel (.ofChars []) 2) :: List.replicate 4 .producer
      ++ [.stop, .call .run] ++ List.replicate 6 .engine ++ [.stop])
    (List.replicate 7 .engine) (Or.inr (Or.inr ⟨_, rfl⟩))
  obtain ⟨hlater, hend⟩ := hstops.2 rfl fun act hact => (hnone 7 act hact).2
  exact ⟨rfl, rfl, hruns.1 rfl fun act hact => (hnone 20 act hact).1, hlater, hend (by decide)⟩

/-! ## Draining -/

/-- A thread that is not interrupted runs `try_pop` as a whole. -/
lemma exists_run_eq_tryPop (hidle : s.consumer = .idle) (caller : Caller) :
    ∃ n ≤ 4, Run.run Threads.step (s.poll caller) (List.replicate n .engine)
      = { s with
          engine := { s.engine with
            inboundQueue := (s.engine.inboundQueue.tryPop inboundCapacity).2 }
          consumer := .returning (s.engine.inboundQueue.tryPop inboundCapacity).1
          loop := .polling caller } := by
  obtain ⟨engine, producer, consumer, loop, running, runner, ledger, handled⟩ := s
  simp only at hidle
  subst hidle
  by_cases hlook : engine.inboundQueue.tail = engine.inboundQueue.cachedHead
  · by_cases hempty : engine.inboundQueue.tail = engine.inboundQueue.head
    · refine ⟨2, by omega, ?_⟩
      simp [Run.run, List.replicate, Threads.step, Threads.engineStep, poll, access, machine,
        Machine.step, Machine.consumerStep, Machine.event, Ledger.observe, SPSCQueue.tryPop, hlook,
        hempty ▸ hlook]
    · refine ⟨4, by omega, ?_⟩
      have hne : engine.inboundQueue.cachedHead ≠ engine.inboundQueue.head := hlook ▸ hempty
      simp [Run.run, List.replicate, Threads.step, Threads.engineStep, poll, access, machine,
        Machine.step, Machine.consumerStep, Machine.event, Ledger.observe, SPSCQueue.tryPop, hlook,
        hne]
  · refine ⟨3, by omega, ?_⟩
    simp [Run.run, List.replicate, Threads.step, Threads.engineStep, poll, access, machine,
      Machine.step, Machine.consumerStep, Machine.event, Ledger.observe, SPSCQueue.tryPop, hlook]

/-- A thread that is not interrupted runs `process_one` as a whole. -/
lemma exists_run_eq_processOne (hidle : s.consumer = .idle) (caller : Caller) :
    ∃ n ≤ 6, ∃ t : Threads, Run.run Threads.step (s.poll caller) (List.replicate n .engine)
        = t.back s.engine.processOne.1 caller ∧ t.engine = s.engine.processOne.2 ∧
          t.handled.length = s.handled.length + s.engine.processOne.1.toNat := by
  obtain ⟨n, hn, hrun⟩ := exists_run_eq_tryPop hidle caller
  rw [MatchingEngine.processOne_eq]
  cases htry : s.engine.inboundQueue.tryPop inboundCapacity with
  | mk popped queue =>
      rw [htry] at hrun
      have hsucc : ∀ k, Run.run Threads.step (s.poll caller) (List.replicate (n + k) .engine)
          = Run.run Threads.step { s with
              engine := { s.engine with inboundQueue := queue }
              consumer := .returning popped
              loop := .polling caller } (List.replicate k .engine) := by
        intro k
        rw [List.replicate_add, Run.run_append, hrun]
      cases popped with
      | none =>
          refine ⟨n + 1, by omega, _, hsucc 1, ?_, rfl⟩
          simp [access, machine, Machine.step, Machine.consumerStep]
      | some msg =>
          exact ⟨n + 2, by omega, _, hsucc 2, MatchingEngine.dispatch_eq _ msg, List.length_append⟩

/-- What the engine's thread leaves alone while it is in `run`. -/
structure Alone (s t : Threads) : Prop where
  inRun : t.InRun
  running : t.running = true
  producer : t.producer = .idle
  accepted : t.accepted = s.accepted
  handled : ∃ later, t.handled = s.handled ++ later

lemma Consistent.alone (h : Consistent e₀ s) (hs : Alone s s) (n : Nat) :
    Alone s (Run.run Threads.step s (List.replicate n .engine)) := by
  induction n generalizing s with
  | zero => exact hs
  | succ n ih =>
      have hstep := h.runStep hs.inRun
      obtain ⟨first, hfirst, -⟩ := hstep.handled
      have hnext : Alone s.engineStep s.engineStep :=
        ⟨hstep.stays hs.running, hstep.running.trans hs.running, hstep.producer.trans hs.producer,
          rfl, [], (List.append_nil _).symm⟩
      have hrest := ih h.engineStep hnext
      obtain ⟨later, hlater⟩ := hrest.handled
      refine ⟨hrest.inRun, hrest.running, hrest.producer, hrest.accepted.trans ?_,
        first ++ later, ?_⟩
      · rw [accepted, hstep.accepted]
        rfl
      · rw [← List.append_assoc, ← hfirst]
        exact hlater

/-- Where the other thread is idle, what has been accepted is handled, in hand or in the queue. -/
lemma Consistent.total_idle (h : Consistent e₀ s) (hidle : s.producer = .idle) :
    s.accepted = s.handled ++ s.inHand ++ s.queued := by
  have htotal := h.total
  rwa [entering, hidle, List.append_nil] at htotal

/-- The thread comes back to the head of the loop. -/
lemma Consistent.exists_check (h : Consistent e₀ s) (hs : Alone s s) :
    ∃ n, n + 1 ≤ s.rank ∧
      (Run.run Threads.step s (List.replicate n .engine)).loop = .check := by
  generalize hrank : s.rank = rank
  induction rank using Nat.strong_induction_on generalizing s with
  | _ rank ih =>
      by_cases hloop : s.loop = .check
      · refine ⟨0, ?_, hloop⟩
        rw [← hrank, Threads.rank, hloop]
      · have hstep := h.runStep hs.inRun
        have hlt : s.engineStep.rank < s.rank := by
          rcases hstep.rank with ⟨hcheck, -⟩ | hlt
          · exact absurd hcheck hloop
          · exact hlt
        have hnext : Alone s.engineStep s.engineStep :=
          ⟨hstep.stays hs.running, hstep.running.trans hs.running,
            hstep.producer.trans hs.producer, rfl, [], (List.append_nil _).symm⟩
        obtain ⟨n, hn, hend⟩ := ih _ (hrank ▸ hlt) h.engineStep hnext rfl
        exact ⟨n + 1, by omega, hend⟩

lemma Consistent.inHand_check (h : Consistent e₀ s) (hloop : s.loop = .check) : s.inHand = [] := by
  have hsync := h.sync
  rw [hloop] at hsync
  rw [inHand, hloop]
  generalize s.consumer = consumer at hsync
  generalize s.ledger.taken.map InboundMessage.request = taken at hsync
  cases hsync
  rfl

/-- One round of the loop handles the oldest request. -/
lemma Consistent.exists_round (h : Consistent e₀ s) (hon : s.running = true)
    (hloop : s.loop = .check) (hne : s.queued ≠ []) :
    ∃ n ≤ 7, (Run.run Threads.step s (List.replicate n .engine)).loop = .check ∧
      (Run.run Threads.step s (List.replicate n .engine)).handled.length
        = s.handled.length + 1 := by
  have hidle : s.consumer = .idle := by
    have hsync := h.sync
    rw [hloop] at hsync
    generalize s.consumer = consumer at hsync
    generalize s.ledger.taken.map InboundMessage.request = taken at hsync
    cases hsync
    rfl
  have hprocessed : s.engine.processOne.1 = true := by
    obtain ⟨a, hlinked⟩ := h.linked
    obtain ⟨k, hmatches⟩ := hlinked.tracked
    rw [hlinked.queued, Ne, List.map_eq_nil_iff] at hne
    obtain ⟨msg, msgs, hvalue⟩ := List.exists_cons_of_ne_nil hne
    have hholds : s.engine.inboundQueue.Holds inboundCapacity (msg :: msgs) :=
      ⟨k, hvalue ▸ hmatches.tracks⟩
    have hpop := hholds.tryPop_spec.1
    rw [MatchingEngine.processOne_eq]
    cases htry : s.engine.inboundQueue.tryPop inboundCapacity with
    | mk popped queue =>
        rw [htry] at hpop
        obtain rfl : popped = some msg := hpop
        rfl
  obtain ⟨n, hn, t, hrun, -, hhandled⟩ := exists_run_eq_processOne hidle .run
  have hfirst : Run.run Threads.step s (List.replicate (n + 1) .engine)
      = t.back s.engine.processOne.1 .run := by
    rw [← hrun, List.replicate_succ, Run.run, List.foldl_cons]
    have hstep : s.step .engine = s.poll .run := by
      rw [Threads.step, engineStep_check hloop, if_pos hon]
    rw [hstep]
    rfl
  refine ⟨n + 1, by omega, ?_, ?_⟩
  · rw [hfirst]
    rfl
  · rw [hfirst]
    rw [hprocessed] at hhandled
    exact hhandled

/-- The requests that wait are handled, one after the other. -/
lemma Consistent.exists_drained (h : Consistent e₀ s) (hs : Alone s s) (hloop : s.loop = .check) :
    ∃ n ≤ 7 * s.queued.length,
      (Run.run Threads.step s (List.replicate n .engine)).handled = s.accepted := by
  generalize hk : s.queued.length = k
  induction k generalizing s with
  | zero =>
      have htotal := h.total_idle hs.producer
      rw [h.inHand_check hloop, List.length_eq_zero_iff.mp hk, List.append_nil,
        List.append_nil] at htotal
      exact ⟨0, Nat.le_refl 0, htotal.symm⟩
  | succ k ih =>
      obtain ⟨n, hn, hcheck, hhandled⟩ := h.exists_round hs.running hloop
        (List.ne_nil_of_length_eq_add_one hk)
      have halone := h.alone hs n
      have hnext := h.run (List.replicate n .engine)
      have hlength := congrArg List.length (h.total_idle hs.producer)
      have hlength' := congrArg List.length (hnext.total_idle halone.producer)
      rw [h.inHand_check hloop, List.length_append, List.append_nil] at hlength
      rw [hnext.inHand_check hcheck, List.length_append, List.append_nil, halone.accepted]
        at hlength'
      obtain ⟨n', hn', hend⟩ := ih hnext
        ⟨halone.inRun, halone.running, halone.producer, rfl, [], (List.append_nil _).symm⟩ hcheck
        (by omega)
      refine ⟨n + n', by omega, ?_⟩
      rw [List.replicate_add, Run.run_append, hend, halone.accepted]

/-- Once everything has been handled, nothing more is. -/
lemma Consistent.handled_eq (h : Consistent e₀ s) (hs : Alone s s) (hall : s.handled = s.accepted)
    (n : Nat) : (Run.run Threads.step s (List.replicate n .engine)).handled = s.accepted := by
  have halone := h.alone hs n
  have htotal := (h.run (List.replicate n .engine)).total_idle halone.producer
  obtain ⟨later, hlater⟩ := halone.handled
  have hlength := congrArg List.length htotal
  rw [halone.accepted, hlater, hall] at hlength
  simp only [List.length_append] at hlength
  rw [hlater, List.length_eq_zero_iff.mp (by omega : later.length = 0), List.append_nil, hall]

/-- **`run` handles everything that has been accepted.**  If the other thread is between two calls
and makes no further one, and nobody calls `stop`, then from any moment of `run` on the engine's
thread needs six steps, and seven for each request in its hand or in the queue, to have handled all
requests that have ever been accepted. -/
theorem drains (config : OrderBookConfig) (onTrade onExecution : Bool)
    (clocks : Nat → Stream' Timestamp) (symbols : List Symbol) (acts : List Act) (n : Nat) :
    let s := Run.run Threads.step
      { engine := .start config onTrade onExecution clocks symbols } acts
    s.InRun → s.running = true → s.producer = .idle →
      6 + 7 * (s.inHand ++ s.queued).length ≤ n →
        (Run.run Threads.step s (List.replicate n .engine)).handled = s.accepted := by
  intro s hrun hon hidle hn
  have hs : Consistent _ s :=
    (consistent_start config onTrade onExecution clocks clocks symbols).run acts
  have halone : Alone s s := ⟨hrun, hon, hidle, rfl, [], (List.append_nil _).symm⟩
  -- first to the head of the loop, from there through the queue
  obtain ⟨n₁, hn₁, hcheck⟩ := hs.exists_check halone
  have hrank := s.rank_le
  have hfirst := hs.run (List.replicate n₁ .engine)
  have halone₁ := hs.alone halone n₁
  have hqueued : (Run.run Threads.step s (List.replicate n₁ .engine)).queued.length
      ≤ (s.inHand ++ s.queued).length := by
    have hlength := congrArg List.length (hs.total_idle hidle)
    have hlength₁ := congrArg List.length (hfirst.total_idle halone₁.producer)
    obtain ⟨later, hlater⟩ := halone₁.handled
    rw [halone₁.accepted, hfirst.inHand_check hcheck, hlater] at hlength₁
    simp only [List.length_append, List.length_nil] at hlength hlength₁ ⊢
    omega
  have hself : ∀ t, Alone s t → Alone t t := fun t ht =>
    ⟨ht.inRun, ht.running, ht.producer, rfl, [], (List.append_nil _).symm⟩
  obtain ⟨n₂, hn₂, hend⟩ := hfirst.exists_drained (hself _ halone₁) hcheck
  have halone₂ := hs.alone halone (n₁ + n₂)
  have hall : (Run.run Threads.step s (List.replicate (n₁ + n₂) .engine)).handled
      = s.accepted := by
    rw [List.replicate_add, Run.run_append, hend, halone₁.accepted]
  have hsplit : n = (n₁ + n₂) + (n - (n₁ + n₂)) := by omega
  rw [hsplit, List.replicate_add, Run.run_append,
    (hs.run _).handled_eq (hself _ halone₂) (hall.trans halone₂.accepted.symm), halone₂.accepted]

/-- One request goes through a loop that has found the queue empty before. -/
theorem drains_cancel :
    let s := Run.run Threads.step { engine := .start {} false false (fun _ _ => 0) [] }
      ([.call .run, .engine, .engine, .enqueue default (.cancel (.ofChars []) 0)]
        ++ List.replicate 4 .producer)
    (Run.run Threads.step s (List.replicate 13 .engine)).handled = [.cancel (.ofChars []) 0] :=
  (drains {} false false (fun _ _ => 0) [] _ 13 (Or.inr (Or.inl rfl)) rfl rfl (by decide)).trans rfl

end Exchange.Threads
