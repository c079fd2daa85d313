import Exchange.Core.Atomic

/-!
# One end puts in, the other takes out

Clients of an atomic bounded queue of which one, `p`, only pushes and one, `c`, only pops.  The
`Ledger` is what an observer of their calls and returns writes down: the item that is being offered,
those whose push has returned true, and those that a pop has returned.

**`Trace.balanced`** — at any moment what has been accepted, and possibly the item whose push is
about to return, is what has been taken, what the pop in progress holds, and what is in the queue,
in this order.
-/

namespace Exchange.Atomic

universe u v

variable {κ : Type u} {T : Type v}

structure Ledger (T : Type v) where
  offered : Option T := none
  accepted : List T := []
  taken : List T := []

/-- What the phase of the producer adds to what has been accepted. -/
def entering (offered : Option T) : Phase (QueueOp T) (QueueRes T) → List T
  | .done (.pushed true) => offered.toList
  | _ => []

/-- What the phase of the consumer adds to what has been taken. -/
def leaving : Phase (QueueOp T) (QueueRes T) → List T
  | .done (.popped item) => item.toList
  | _ => []

theorem entering_called (offered : Option T) (op : QueueOp T) :
    entering offered (.called op) = [] := rfl

theorem entering_refused (offered : Option T) :
    entering offered (.done (.pushed false)) = [] := rfl

inductive Pushing : Option T → Phase (QueueOp T) (QueueRes T) → Prop
  | idle : Pushing none .idle
  | called (item : T) : Pushing (some item) (.called (.push item))
  | done (item : T) (ok : Bool) : Pushing (some item) (.done (.pushed ok))

inductive Popping : Phase (QueueOp T) (QueueRes T) → Prop
  | idle : Popping .idle
  | called : Popping (.called .pop)
  | done (item : Option T) : Popping (.done (.popped item))

section Balance

variable [DecidableEq κ] (p c : κ)

def Ledger.observe (l : Ledger T) : Event κ (QueueOp T) (QueueRes T) → Ledger T
  | .call k (.push item) => if k = p then { l with offered := some item } else l
  | .call _ .pop => l
  | .ret k (.pushed ok) =>
      if k = p then
        { l with
          offered := none
          accepted := l.accepted ++ if ok = true then l.offered.toList else [] }
      else l
  | .ret k (.popped item) => if k = c then { l with taken := l.taken ++ item.toList } else l

/-- The producer is the one that pushes, the consumer the one that pops. -/
inductive Proper : Event κ (QueueOp T) (QueueRes T) → Prop
  | push (item : T) : Proper (.call p (.push item))
  | pop : Proper (.call c .pop)
  | ret (k : κ) (res : QueueRes T) : Proper (.ret k res)

structure Balanced (l : Ledger T) (s : State κ (List T) (QueueOp T) (QueueRes T)) : Prop where
  producer : Pushing l.offered (s.phase p)
  consumer : Popping (s.phase c)
  others : ∀ k, k ≠ p → k ≠ c → s.phase k = .idle
  total : l.accepted ++ entering l.offered (s.phase p) = l.taken ++ leaving (s.phase c) ++ s.value

variable {p c} {l : Ledger T} {s t : State κ (List T) (QueueOp T) (QueueRes T)}
  {es : List (Event κ (QueueOp T) (QueueRes T))} {bound : Nat}

omit [DecidableEq κ] in
theorem Balanced.quiescent : Balanced p c ({} : Ledger T) (quiescent []) :=
  ⟨.idle, .idle, fun _ _ _ => rfl, rfl⟩

theorem State.phase_setPhase_self (s : State κ (List T) (QueueOp T) (QueueRes T)) (k : κ)
    (phase : Phase (QueueOp T) (QueueRes T)) : (s.setPhase k phase).phase k = phase :=
  if_pos rfl

theorem State.phase_setPhase_of_ne (s : State κ (List T) (QueueOp T) (QueueRes T)) (k : κ)
    (phase : Phase (QueueOp T) (QueueRes T)) :
    ∀ k', k' ≠ k → (s.setPhase k phase).phase k' = s.phase k' :=
  fun _ h => if_neg h

theorem State.value_setPhase (s : State κ (List T) (QueueOp T) (QueueRes T)) (k : κ)
    (phase : Phase (QueueOp T) (QueueRes T)) : (s.setPhase k phase).value = s.value := rfl

variable (hpc : p ≠ c)

include hpc

omit [DecidableEq κ] in
/-- Only the producer has moved. -/
theorem Balanced.producerMoves (h : Balanced p c l s) (l' : Ledger T)
    (hframe : ∀ k, k ≠ p → t.phase k = s.phase k) (hproducer : Pushing l'.offered (t.phase p))
    (htotal : l'.accepted ++ entering l'.offered (t.phase p)
      = l'.taken ++ leaving (s.phase c) ++ t.value) : Balanced p c l' t := by
  have hconsumer := hframe c hpc.symm
  refine ⟨hproducer, ?_, fun k hp hc => ?_, ?_⟩
  · rw [hconsumer]
    exact h.consumer
  · rw [hframe k hp]
    exact h.others k hp hc
  · rw [hconsumer]
    exact htotal

omit [DecidableEq κ] in
/-- Only the consumer has moved. -/
theorem Balanced.consumerMoves (h : Balanced p c l s) (l' : Ledger T)
    (hframe : ∀ k, k ≠ c → t.phase k = s.phase k) (hoffered : l'.offered = l.offered)
    (hconsumer : Popping (t.phase c))
    (htotal : l'.accepted ++ entering l.offered (s.phase p)
      = l'.taken ++ leaving (t.phase c) ++ t.value) : Balanced p c l' t := by
  have hproducer := hframe p hpc
  refine ⟨?_, hconsumer, fun k hp hc => ?_, ?_⟩
  · rw [hproducer, hoffered]
    exact h.producer
  · rw [hframe k hc]
    exact h.others k hp hc
  · rw [hproducer, hoffered]
    exact htotal

omit [DecidableEq κ] hpc in
/-- Only the two ends ever call. -/
theorem Balanced.client (h : Balanced p c l s) {k : κ} (hk : s.phase k ≠ .idle) :
    k = p ∨ k = c := by
  by_cases hp : k = p
  · exact Or.inl hp
  · by_cases hc : k = c
    · exact Or.inr hc
    · exact absurd (h.others k hp hc) hk

theorem Balanced.call (h : Balanced p c l s) {k : κ} {op : QueueOp T} (hk : s.phase k = .idle)
    (hproper : Proper p c (.call k op)) :
    Balanced p c (l.observe p c (.call k op)) (s.setPhase k (.called op)) := by
  have htotal := h.total
  cases hproper with
  | push item =>
      rw [hk] at htotal
      simp only [Ledger.observe, if_true]
      refine h.producerMoves hpc _ (s.phase_setPhase_of_ne p _) ?_ ?_
      · rw [State.phase_setPhase_self]
        exact .called item
      · rw [State.phase_setPhase_self]
        exact htotal
  | pop =>
      rw [hk] at htotal
      refine h.consumerMoves hpc _ (s.phase_setPhase_of_ne c _) rfl ?_ ?_
      · rw [State.phase_setPhase_self]
        exact .called
      · rw [State.phase_setPhase_self]
        exact htotal

theorem Balanced.push (h : Balanced p c l s) {op : QueueOp T} (hk : s.phase p = .called op) :
    Balanced p c l (s.effect (boundedFifo bound) p op) := by
  have htotal := h.total
  have hproducer := h.producer
  rw [hk] at hproducer htotal
  generalize hoffered : l.offered = offered at hproducer htotal
  cases hproducer with
  | called item =>
      rw [entering_called, List.append_nil] at htotal
      by_cases hfree : s.value.length < bound
      · rw [State.effect, boundedFifo_push item hfree]
        refine h.producerMoves hpc l (s.phase_setPhase_of_ne p _) ?_ ?_
        · rw [State.phase_setPhase_self, hoffered]
          exact .done item true
        · rw [State.phase_setPhase_self, hoffered, htotal, List.append_assoc]
          rfl
      · rw [State.effect, boundedFifo_full item (Nat.not_lt.mp hfree)]
        refine h.producerMoves hpc l (s.phase_setPhase_of_ne p _) ?_ ?_
        · rw [State.phase_setPhase_self, hoffered]
          exact .done item false
        · rw [State.phase_setPhase_self, entering_refused, List.append_nil]
          exact htotal

theorem Balanced.pop (h : Balanced p c l s) {op : QueueOp T} (hk : s.phase c = .called op) :
    Balanced p c l (s.effect (boundedFifo bound) c op) := by
  have htotal := h.total
  have hconsumer := h.consumer
  rw [hk] at hconsumer htotal
  cases hconsumer with
  | called =>
      rw [State.effect]
      generalize hvalue : s.value = value at htotal
      cases value with
      | nil =>
          refine h.consumerMoves hpc l (s.phase_setPhase_of_ne c _) rfl ?_ ?_
          · rw [State.phase_setPhase_self]
            exact .done none
          · rw [State.phase_setPhase_self]
            exact htotal
      | cons item items =>
          refine h.consumerMoves hpc l (s.phase_setPhase_of_ne c _) rfl ?_ ?_
          · rw [State.phase_setPhase_self]
            exact .done (some item)
          · rw [State.phase_setPhase_self, htotal]
            simp [leaving, boundedFifo]

theorem Balanced.ret (h : Balanced p c l s) {k : κ} {res : QueueRes T}
    (hk : s.phase k = .done res) :
    Balanced p c (l.observe p c (.ret k res)) (s.setPhase k .idle) := by
  have htotal := h.total
  rcases h.client (by rw [hk]; nofun) with rfl | rfl
  · have hproducer := h.producer
    rw [hk] at hproducer htotal
    generalize hoffered : l.offered = offered at hproducer htotal
    cases hproducer with
    | done item ok =>
        simp only [Ledger.observe, if_true]
        refine h.producerMoves hpc _ (s.phase_setPhase_of_ne k _) ?_ ?_
        · rw [State.phase_setPhase_self]
          exact .idle
        · rw [State.phase_setPhase_self, State.value_setPhase, ← htotal]
          cases ok <;> simp [hoffered, entering]
  · have hconsumer := h.consumer
    rw [hk] at hconsumer htotal
    cases hconsumer with
    | done item =>
        simp only [Ledger.observe, if_true]
        refine h.consumerMoves hpc _ (s.phase_setPhase_of_ne k _) rfl ?_ ?_
        · rw [State.phase_setPhase_self]
          exact .idle
        · rw [State.phase_setPhase_self, State.value_setPhase, htotal]
          simp [leaving]

/-- **Nothing is lost, nothing comes twice, nothing overtakes.** -/
theorem Trace.balanced (h : Trace (boundedFifo bound) s es t) (hes : ∀ e ∈ es, Proper p c e)
    (hs : Balanced p c l s) : Balanced p c (es.foldl (Ledger.observe p c) l) t := by
  induction h generalizing l with
  | nil => exact hs
  | call hphase _ ih =>
      exact ih (fun e he => hes e (List.mem_cons_of_mem _ he))
        (hs.call hpc hphase (hes _ List.mem_cons_self))
  | effect hphase _ ih =>
      rcases hs.client (by rw [hphase]; nofun) with rfl | rfl
      · exact ih hes (hs.push hpc hphase)
      · exact ih hes (hs.pop hpc hphase)
  | ret hphase _ ih =>
      exact ih (fun e he => hes e (List.mem_cons_of_mem _ he)) (hs.ret hpc hphase)

end Balance

end Exchange.Atomic
