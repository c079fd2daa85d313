import Exchange.SpscQueue.Model

/-!
# One producer, one consumer

`try_push` and `try_pop` run step by step: one thread keeps calling `try_push`, the other keeps
calling `try_pop`, and between any two accesses of one to `head_`, `tail_` or a slot the other may
make any number of its own.  Accesses take effect in the order in which they are made.  The copies
`cached_tail_` and `cached_head_` belong to one thread each, so that comparing them is no step of
its own.

**`linearizable`** — whatever the two threads observe, they could have observed of a list of at most
`Capacity - 1` items that answers a whole call at one instant.

The operations take effect where the index is stored, and those that fail where the copy is
refreshed.
-/

namespace Exchange.Spsc

open Atomic

universe u

variable {T : Type u}

inductive Client
  | producer
  | consumer
deriving DecidableEq, Repr

/-- Where the producer is in `try_push`. -/
inductive ProducerPc (T : Type u)
  | idle
  | loadHead (item : T)
  /-- `cached_tail_ = tail_.load(..)`, and the second comparison -/
  | refresh (item : T) (head nextHead : UInt64)
  /-- `slots_[head] = item` -/
  | write (item : T) (head nextHead : UInt64)
  | storeHead (nextHead : UInt64)
  | returning (ok : Bool)

/-- Where the consumer is in `try_pop`. -/
inductive ConsumerPc (T : Type u)
  | idle
  | loadTail
  /-- `cached_head_ = head_.load(..)`, and the second comparison -/
  | refresh (tail : UInt64)
  /-- `T item = slots_[tail]` -/
  | read (tail : UInt64)
  | storeTail (item : T) (tail : UInt64)
  | returning (item : Option T)

structure Machine (T : Type u) where
  queue : SPSCQueue T
  producer : ProducerPc T := .idle
  consumer : ConsumerPc T := .idle

/-- A thread that is idle calls; one that is not takes its next step. -/
inductive Action (T : Type u)
  | push (item : T)
  | pop
  | producer
  | consumer

namespace Machine

def producerStep (c : Capacity) (s : Machine T) : Machine T :=
  match s.producer with
  | .idle => s
  | .loadHead item =>
      let head := s.queue.head
      let nextHead := c.next head
      if nextHead = s.queue.cachedTail then { s with producer := .refresh item head nextHead }
      else { s with producer := .write item head nextHead }
  | .refresh item head nextHead =>
      let queue := { s.queue with cachedTail := s.queue.tail }
      if nextHead = queue.cachedTail then { s with queue, producer := .returning false }
      else { s with queue, producer := .write item head nextHead }
  | .write item head nextHead =>
      { s with queue := s.queue.writeSlot head item, producer := .storeHead nextHead }
  | .storeHead nextHead =>
      { s with queue := { s.queue with head := nextHead }, producer := .returning true }
  | .returning _ => { s with producer := .idle }

def consumerStep (c : Capacity) (s : Machine T) : Machine T :=
  match s.consumer with
  | .idle => s
  | .loadTail =>
      let tail := s.queue.tail
      if tail = s.queue.cachedHead then { s with consumer := .refresh tail }
      else { s with consumer := .read tail }
  | .refresh tail =>
      let queue := { s.queue with cachedHead := s.queue.head }
      if tail = queue.cachedHead then { s with queue, consumer := .returning none }
      else { s with queue, consumer := .read tail }
  | .read tail => { s with consumer := .storeTail (s.queue.slots tail) tail }
  | .storeTail item tail =>
      { s with queue := { s.queue with tail := c.next tail }, consumer := .returning (some item) }
  | .returning _ => { s with consumer := .idle }

def step (c : Capacity) (s : Machine T) : Action T → Machine T
  | .push item =>
      match s.producer with
      | .idle => { s with producer := .loadHead item }
      | _ => s
  | .pop =>
      match s.consumer with
      | .idle => { s with consumer := .loadTail }
      | _ => s
  | .producer => s.producerStep c
  | .consumer => s.consumerStep c

/-- The calls and the returns. -/
def event (s : Machine T) : Action T → List (Event Client (QueueOp T) (QueueRes T))
  | .push item =>
      match s.producer with
      | .idle => [.call .producer (.push item)]
      | _ => []
  | .pop =>
      match s.consumer with
      | .idle => [.call .consumer .pop]
      | _ => []
  | .producer =>
      match s.producer with
      | .returning ok => [.ret .producer (.pushed ok)]
      | _ => []
  | .consumer =>
      match s.consumer with
      | .returning item => [.ret .consumer (.popped item)]
      | _ => []

def start [Inhabited T] : Machine T where
  queue := .empty

end Machine

/-- A thread that is not interrupted runs `try_push` as a whole. -/
theorem exists_run_eq_tryPush (c : Capacity) (q : SPSCQueue T) (consumer : ConsumerPc T)
    (item : T) :
    ∃ n, Run.run (Machine.step c) { queue := q, consumer }
        (.push item :: List.replicate n .producer)
      = { queue := (q.tryPush c item).2
          producer := .returning (q.tryPush c item).1
          consumer } := by
  by_cases hlook : c.next q.head = q.cachedTail
  · by_cases hfull : c.next q.head = q.tail
    · refine ⟨2, ?_⟩
      simp [Run.run, Machine.step, Machine.producerStep, SPSCQueue.tryPush, hlook, hfull ▸ hlook]
    · refine ⟨4, ?_⟩
      have hne : q.cachedTail ≠ q.tail := hlook ▸ hfull
      simp [Run.run, List.replicate, Machine.step, Machine.producerStep, SPSCQueue.tryPush, hlook,
        hne, SPSCQueue.writeSlot]
  · refine ⟨3, ?_⟩
    simp [Run.run, List.replicate, Machine.step, Machine.producerStep, SPSCQueue.tryPush, hlook]

/-- A thread that is not interrupted runs `try_pop` as a whole. -/
theorem exists_run_eq_tryPop (c : Capacity) (q : SPSCQueue T) (producer : ProducerPc T) :
    ∃ n, Run.run (Machine.step c) { queue := q, producer } (.pop :: List.replicate n .consumer)
      = { queue := (q.tryPop c).2, producer, consumer := .returning (q.tryPop c).1 } := by
  by_cases hlook : q.tail = q.cachedHead
  · by_cases hempty : q.tail = q.head
    · refine ⟨2, ?_⟩
      simp [Run.run, List.replicate, Machine.step, Machine.consumerStep, SPSCQueue.tryPop, hlook,
        hempty ▸ hlook]
    · refine ⟨4, ?_⟩
      have hne : q.cachedHead ≠ q.head := hlook ▸ hempty
      simp [Run.run, List.replicate, Machine.step, Machine.consumerStep, SPSCQueue.tryPop, hlook,
        hne]
  · refine ⟨3, ?_⟩
    simp [Run.run, List.replicate, Machine.step, Machine.consumerStep, SPSCQueue.tryPop, hlook]

/-! ## What the program counters say -/

/-- The producer and its phase, given the counters it moves and the slots. -/
inductive Producing (c : Capacity) (pushed seenPopped : Nat) (slots : UInt64 → T) :
    ProducerPc T → Phase (QueueOp T) (QueueRes T) → Prop
  | idle : Producing c pushed seenPopped slots .idle .idle
  | loadHead (item : T) :
      Producing c pushed seenPopped slots (.loadHead item) (.called (.push item))
  | refresh (item : T) :
      Producing c pushed seenPopped slots (.refresh item (c.wrap pushed) (c.wrap (pushed + 1)))
        (.called (.push item))
  | write (item : T) (hfree : pushed + 1 < seenPopped + c.size) :
      Producing c pushed seenPopped slots (.write item (c.wrap pushed) (c.wrap (pushed + 1)))
        (.called (.push item))
  | storeHead (hfree : pushed + 1 < seenPopped + c.size) :
      Producing c pushed seenPopped slots (.storeHead (c.wrap (pushed + 1)))
        (.called (.push (slots (c.wrap pushed))))
  | returning (ok : Bool) : Producing c pushed seenPopped slots (.returning ok) (.done (.pushed ok))

/-- The consumer and its phase, given the counters it moves and the item it is to take. -/
inductive Consuming (c : Capacity) (popped seenPushed : Nat) (oldest : Option T) :
    ConsumerPc T → Phase (QueueOp T) (QueueRes T) → Prop
  | idle : Consuming c popped seenPushed oldest .idle .idle
  | loadTail : Consuming c popped seenPushed oldest .loadTail (.called .pop)
  | refresh : Consuming c popped seenPushed oldest (.refresh (c.wrap popped)) (.called .pop)
  | read (hseen : popped < seenPushed) :
      Consuming c popped seenPushed oldest (.read (c.wrap popped)) (.called .pop)
  | storeTail {item : T} (hseen : popped < seenPushed) (holdest : oldest = some item) :
      Consuming c popped seenPushed oldest (.storeTail item (c.wrap popped)) (.called .pop)
  | returning (item : Option T) :
      Consuming c popped seenPushed oldest (.returning item) (.done (.popped item))

/-- The machine and the atomic queue, for some counters. -/
structure Matches (c : Capacity) (s : Machine T)
    (a : Atomic.State Client (List T) (QueueOp T) (QueueRes T)) (k : Counters) : Prop where
  tracks : Tracks c s.queue k a.value
  producing : Producing c k.pushed k.seenPopped s.queue.slots s.producer (a.phase .producer)
  consuming : Consuming c k.popped k.seenPushed a.value.head? s.consumer (a.phase .consumer)

/-- A push leaves the oldest item in its place. -/
lemma Consuming.append {c : Capacity} {popped seenPushed : Nat} {items : List T} {pc : ConsumerPc T}
    {phase : Phase (QueueOp T) (QueueRes T)}
    (h : Consuming c popped seenPushed items.head? pc phase)
    (item : T) : Consuming c popped seenPushed (items ++ [item]).head? pc phase := by
  cases h with
  | idle => exact .idle
  | loadTail => exact .loadTail
  | refresh => exact .refresh
  | read hseen => exact .read hseen
  | storeTail hseen holdest => exact .storeTail hseen (by rw [List.head?_append, holdest]; rfl)
  | returning item => exact .returning item

namespace Matches

variable {c : Capacity} {s : Machine T} {a : Atomic.State Client (List T) (QueueOp T) (QueueRes T)}
  {k : Counters}

lemma push (h : Matches c s a k) (item : T) :
    ∃ a' k', Trace (boundedFifo (c.size - 1)) a (s.event (.push item)) a' ∧
      Matches c (s.step c (.push item)) a' k' := by
  obtain ⟨queue, producer, consumer⟩ := s
  have hp := h.producing
  simp only at hp
  generalize hphase : a.phase .producer = phase at hp
  simp only [Machine.event, Machine.step]
  cases hp with
  | idle =>
      exact ⟨_, k, .call hphase (.nil _), h.tracks, .loadHead item, h.consuming⟩
  | loadHead | refresh | write | storeHead | returning => exact ⟨a, k, .nil a, h⟩

lemma pop (h : Matches c s a k) :
    ∃ a' k', Trace (boundedFifo (c.size - 1)) a (s.event .pop) a' ∧
      Matches c (s.step c .pop) a' k' := by
  obtain ⟨queue, producer, consumer⟩ := s
  have hp := h.consuming
  simp only at hp
  generalize hphase : a.phase .consumer = phase at hp
  simp only [Machine.event, Machine.step]
  cases hp with
  | idle =>
      exact ⟨_, k, .call hphase (.nil _), h.tracks, h.producing, .loadTail⟩
  | loadTail | refresh | read | storeTail | returning => exact ⟨a, k, .nil a, h⟩

/-- The operation of the producer takes effect where it stores `head_`, or finds the queue full. -/
lemma producerStep (h : Matches c s a k) :
    ∃ a' k', Trace (boundedFifo (c.size - 1)) a (s.event .producer) a' ∧
      Matches c (s.step c .producer) a' k' := by
  obtain ⟨queue, producer, consumer⟩ := s
  have htracks := h.tracks
  have hlen := htracks.length
  have hlt := htracks.pushed_lt
  have hseen := htracks.seenPopped_le
  have hp := h.producing
  simp only at hp htracks
  generalize hphase : a.phase .producer = phase at hp
  simp only [Machine.event, Machine.step, Machine.producerStep]
  cases hp with
  | idle => exact ⟨a, k, .nil a, h⟩
  | loadHead item =>
      have hlooks := htracks.next_head_eq_iff
      rw [htracks.head, c.next_wrap] at hlooks ⊢
      by_cases hlook : c.wrap (k.pushed + 1) = queue.cachedTail
      · simp only [if_pos hlook]
        exact ⟨a, k, .nil a, htracks, hphase ▸ .refresh item, h.consuming⟩
      · simp only [if_neg hlook]
        rw [hlooks] at hlook
        exact ⟨a, k, .nil a, htracks, hphase ▸ .write item (by omega), h.consuming⟩
  | refresh item =>
      have hrefresh := htracks.refreshTail
      have hfull := hrefresh.next_head_eq_iff
      simp only at hfull
      rw [htracks.head, c.next_wrap] at hfull
      by_cases hlook : c.wrap (k.pushed + 1) = queue.tail
      · simp only [if_pos hlook]
        -- the queue is full at this instant, so that the push fails here
        rw [hfull] at hlook
        exact ⟨_, _, .single hphase (boundedFifo_full item (by omega)), hrefresh, .returning false,
          h.consuming⟩
      · simp only [if_neg hlook]
        rw [hfull] at hlook
        exact ⟨a, _, .nil a, hrefresh, hphase ▸ .write item (by simp only; omega), h.consuming⟩
  | write item hfree =>
      refine ⟨a, k, .nil a, htracks.writeSlot item, ?_, h.consuming⟩
      have hslot : Producing c k.pushed k.seenPopped (queue.writeSlot (c.wrap k.pushed) item).slots
          (.storeHead (c.wrap (k.pushed + 1)))
          (.called (.push ((queue.writeSlot (c.wrap k.pushed) item).slots (c.wrap k.pushed)))) :=
        .storeHead hfree
      simp only [SPSCQueue.writeSlot, if_true] at hslot
      exact hphase ▸ hslot
  | storeHead hfree =>
      exact ⟨_, _, .single hphase (boundedFifo_push _ (by omega)), htracks.storeHead hfree rfl,
        .returning true, h.consuming.append _⟩
  | returning ok => exact ⟨_, k, .ret hphase (.nil _), htracks, .idle, h.consuming⟩

/-- The operation of the consumer takes effect where it stores `tail_`, or finds the queue empty. -/
lemma consumerStep (h : Matches c s a k) :
    ∃ a' k', Trace (boundedFifo (c.size - 1)) a (s.event .consumer) a' ∧
      Matches c (s.step c .consumer) a' k' := by
  obtain ⟨queue, producer, consumer⟩ := s
  have htracks := h.tracks
  have hlen := htracks.length
  have hle := htracks.popped_le
  have hle' := htracks.seenPushed_le
  have hp := h.consuming
  simp only at hp htracks
  generalize hphase : a.phase .consumer = phase at hp
  simp only [Machine.event, Machine.step, Machine.consumerStep]
  cases hp with
  | idle => exact ⟨a, k, .nil a, h⟩
  | loadTail =>
      have hlooks := htracks.tail_eq_iff
      rw [htracks.tail] at hlooks ⊢
      by_cases hlook : c.wrap k.popped = queue.cachedHead
      · simp only [if_pos hlook]
        exact ⟨a, k, .nil a, htracks, h.producing, hphase ▸ .refresh⟩
      · simp only [if_neg hlook]
        rw [hlooks] at hlook
        exact ⟨a, k, .nil a, htracks, h.producing, hphase ▸ .read (by omega)⟩
  | refresh =>
      have hrefresh := htracks.refreshHead
      have hempty := hrefresh.tail_eq_iff
      simp only at hempty
      rw [htracks.tail] at hempty
      by_cases hlook : c.wrap k.popped = queue.head
      · simp only [if_pos hlook]
        -- the queue is empty at this instant, so that the pop finds nothing here
        rw [hempty] at hlook
        have hnil : a.value = [] := List.length_eq_zero_iff.mp (by omega)
        have heffect : boundedFifo (c.size - 1) a.value .pop = (a.value, .popped none) := by
          rw [hnil, boundedFifo]
        exact ⟨_, _, .single hphase heffect, hrefresh, h.producing, .returning none⟩
      · simp only [if_neg hlook]
        rw [hempty] at hlook
        exact ⟨a, _, .nil a, hrefresh, h.producing, hphase ▸ .read (by simp only; omega)⟩
  | read hseen =>
      obtain ⟨item, items, hitems⟩ := List.exists_cons_of_ne_nil (htracks.ne_nil hseen)
      have hslot := Tracks.slot_tail (hitems ▸ htracks)
      refine ⟨a, k, .nil a, htracks, h.producing, ?_⟩
      rw [hphase]
      exact .storeTail hseen (by rw [hitems, hslot]; rfl)
  | @storeTail item hseen holdest =>
      obtain ⟨items, hitems⟩ := List.head?_eq_some_iff.mp holdest
      have heffect : boundedFifo (c.size - 1) a.value .pop = (items, .popped (some item)) := by
        rw [hitems, boundedFifo]
      simp only [c.next_wrap]
      exact ⟨_, _, .single hphase heffect, Tracks.storeTail (hitems ▸ htracks) hseen, h.producing,
        .returning (some item)⟩
  | returning item => exact ⟨_, k, .ret hphase (.nil _), htracks, h.producing, .idle⟩

end Matches

/-! ## Linearizability -/

lemma simulation (c : Capacity) :
    Simulation (boundedFifo (c.size - 1)) (Machine.step c) (Machine.event (T := T))
      (fun s a => ∃ k, Matches c s a k) := by
  rintro s a act ⟨k, h⟩
  cases act with
  | push item => simpa only [exists_and_left] using h.push item
  | pop => simpa only [exists_and_left] using h.pop
  | producer => simpa only [exists_and_left] using h.producerStep
  | consumer => simpa only [exists_and_left] using h.consumerStep

lemma matches_start [Inhabited T] (c : Capacity) :
    Matches c (Machine.start (T := T)) (quiescent []) {} := ⟨.empty, .idle, .idle⟩

/-- The slots that hold an item, by the two indices. -/
def held (c : Capacity) (q : SPSCQueue T) : List UInt64 :=
  (List.range (q.sizeApprox c).toNat).map fun i => (q.tail + UInt64.ofNat i) &&& (c.value - 1)

lemma held_eq {c : Capacity} {q : SPSCQueue T} {k : Counters} {items : List T}
    (h : Tracks c q k items) :
    held c q = (List.range items.length).map fun i => c.wrap (k.popped + i) := by
  have hlen := h.length
  have hlt := h.pushed_lt
  have hseen := h.seenPopped_le
  rw [held, h.toNat_sizeApprox, h.tail]
  refine List.map_congr_left fun i hi => c.wrap_add _ ?_
  rw [List.mem_range] at hi
  omega

/-- The producer never writes a slot that holds an item, and the consumer never reads another. -/
def Machine.Safe (c : Capacity) (s : Machine T) : Prop :=
  (∀ item head nextHead, s.producer = .write item head nextHead → head ∉ held c s.queue) ∧
    ∀ tail, s.consumer = .read tail → tail ∈ held c s.queue

lemma Matches.safe {c : Capacity} {s : Machine T} {k : Counters}
    {a : Atomic.State Client (List T) (QueueOp T) (QueueRes T)} (h : Matches c s a k) :
    s.Safe c := by
  rw [Machine.Safe, held_eq h.tracks]
  constructor
  · intro item head nextHead hpc hmem
    have hp := h.producing
    rw [hpc] at hp
    obtain ⟨i, hi, heq⟩ := List.mem_map.mp hmem
    generalize a.phase .producer = phase at hp
    cases hp
    exact h.tracks.head_ne (List.mem_range.mp hi) heq
  · intro tail hpc
    have hp := h.consuming
    rw [hpc] at hp
    generalize a.phase .consumer = phase at hp
    cases hp with
    | read hseen =>
        have hpos := List.length_pos_iff.mpr (h.tracks.ne_nil hseen)
        exact List.mem_map.mpr ⟨0, List.mem_range.mpr hpos, rfl⟩

/-- **The queue is linearizable.** -/
theorem linearizable [Inhabited T] (c : Capacity) (acts : List (Action T)) :
    ∃ a, Trace (boundedFifo (c.size - 1)) (quiescent [])
        (history (Machine.step c) Machine.event Machine.start acts) a ∧
      ((Run.run (Machine.step c) Machine.start acts).queue.sizeApprox c).toNat = a.value.length ∧
      (Run.run (Machine.step c) Machine.start acts).Safe c := by
  obtain ⟨a, htrace, k, h⟩ := (simulation c).run ⟨{}, matches_start c⟩ acts
  exact ⟨a, htrace, h.tracks.toNat_sizeApprox, h.safe⟩

end Exchange.Spsc
