import Exchange.Core.Run

/-!
# Atomic objects

Linearizability, by the canonical automaton.  A sequential object answers one operation at a time.
Its atomic version has clients: a client calls, at some later moment the operation takes effect, all
at once, and after that the client gets the answer.  `Trace obj` says what the clients can observe
of it, that is their calls and returns in the order in which they happen.

A concurrent implementation is linearizable if whatever its clients observe can be observed of the
atomic object: every call has then taken effect at one instant between the call and its return.

* **`Simulation.run`** — it is enough to relate the states of the two, and to say for each step of
  the implementation what the atomic object does meanwhile.
* `boundedFifo` — the sequential queue that holds at most so many items.
-/

namespace Exchange.Atomic

universe u v w x y z

variable {κ : Type u} {σ : Type v} {ι : Type w} {ρ : Type x}

/-- What a client is doing. -/
inductive Phase (ι : Type w) (ρ : Type x)
  | idle
  /-- its operation has not taken effect yet -/
  | called (op : ι)
  | done (res : ρ)

/-- The value of the object and the phases of its clients. -/
structure State (κ : Type u) (σ : Type v) (ι : Type w) (ρ : Type x) where
  value : σ
  phase : κ → Phase ι ρ

/-- What can be observed. -/
inductive Event (κ : Type u) (ι : Type w) (ρ : Type x)
  | call (client : κ) (op : ι)
  | ret (client : κ) (res : ρ)
deriving DecidableEq, Repr

/-- Nobody is in a call. -/
def quiescent (value : σ) : State κ σ ι ρ := ⟨value, fun _ => .idle⟩

section Trace

variable [DecidableEq κ]

def State.setPhase (s : State κ σ ι ρ) (c : κ) (p : Phase ι ρ) : State κ σ ι ρ :=
  { s with phase := fun c' => if c' = c then p else s.phase c' }

/-- The operation of `c` takes effect. -/
def State.effect (obj : σ → ι → σ × ρ) (s : State κ σ ι ρ) (c : κ) (op : ι) : State κ σ ι ρ :=
  { s.setPhase c (.done (obj s.value op).2) with value := (obj s.value op).1 }

/-- The atomic object can go from `s` to `t` while the clients observe the events. -/
inductive Trace (obj : σ → ι → σ × ρ) :
    State κ σ ι ρ → List (Event κ ι ρ) → State κ σ ι ρ → Prop
  | nil (s : State κ σ ι ρ) : Trace obj s [] s
  | call {s t : State κ σ ι ρ} {c : κ} {op : ι} {es : List (Event κ ι ρ)}
      (h : s.phase c = .idle) (rest : Trace obj (s.setPhase c (.called op)) es t) :
      Trace obj s (.call c op :: es) t
  | effect {s t : State κ σ ι ρ} {c : κ} {op : ι} {es : List (Event κ ι ρ)}
      (h : s.phase c = .called op) (rest : Trace obj (s.effect obj c op) es t) : Trace obj s es t
  | ret {s t : State κ σ ι ρ} {c : κ} {res : ρ} {es : List (Event κ ι ρ)}
      (h : s.phase c = .done res) (rest : Trace obj (s.setPhase c .idle) es t) :
      Trace obj s (.ret c res :: es) t

variable {obj : σ → ι → σ × ρ} {s t r : State κ σ ι ρ} {es es' : List (Event κ ι ρ)}

theorem Trace.append (h : Trace obj s es t) (h' : Trace obj t es' r) :
    Trace obj s (es ++ es') r := by
  induction h with
  | nil => exact h'
  | call hphase _ ih => exact .call hphase (ih h')
  | effect hphase _ ih => exact .effect hphase (ih h')
  | ret hphase _ ih => exact .ret hphase (ih h')

/-- An operation whose answer is known. -/
theorem Trace.single {c : κ} {op : ι} {value : σ} {res : ρ} (h : s.phase c = .called op)
    (hobj : obj s.value op = (value, res)) :
    Trace obj s [] { s.setPhase c (.done res) with value } := by
  have htrace := Trace.effect h (.nil (s.effect obj c op))
  rwa [State.effect, hobj] at htrace

end Trace

/-! ## Implementations -/

section Simulation

variable {τ : Type y} {α : Type z}

/-- What the clients observe of a run. -/
def history (step : τ → α → τ) (event : τ → α → List (Event κ ι ρ)) (s : τ) (acts : List α) :
    List (Event κ ι ρ) :=
  (Run.outputs step event s acts).flatten

/-- Each step of the implementation is matched by the atomic object. -/
def Simulation [DecidableEq κ] (obj : σ → ι → σ × ρ) (step : τ → α → τ)
    (event : τ → α → List (Event κ ι ρ)) (R : τ → State κ σ ι ρ → Prop) : Prop :=
  ∀ s a act, R s a → ∃ a', Trace obj a (event s act) a' ∧ R (step s act) a'

variable [DecidableEq κ] {obj : σ → ι → σ × ρ} {step : τ → α → τ}
  {event : τ → α → List (Event κ ι ρ)} {R : τ → State κ σ ι ρ → Prop}

/-- **The simulation rule.** -/
theorem Simulation.run (h : Simulation obj step event R) {s : τ} {a : State κ σ ι ρ} (hs : R s a)
    (acts : List α) :
    ∃ a', Trace obj a (history step event s acts) a' ∧ R (Run.run step s acts) a' := by
  induction acts generalizing s a with
  | nil => exact ⟨a, .nil a, hs⟩
  | cons act acts ih =>
      obtain ⟨a', hstep, hs'⟩ := h s a act hs
      obtain ⟨a'', hrest, hend⟩ := ih hs'
      exact ⟨a'', hstep.append hrest, hend⟩

end Simulation

/-! ## Bounded queues -/

inductive QueueOp (T : Type u)
  | push (item : T)
  | pop
deriving DecidableEq, Repr

inductive QueueRes (T : Type u)
  | pushed (ok : Bool)
  | popped (item : Option T)
deriving DecidableEq, Repr

/-- First in, first out, with at most `bound` items: a push fails exactly if the queue is full, and
a pop finds nothing exactly if it is empty. -/
def boundedFifo {T : Type u} (bound : Nat) : List T → QueueOp T → List T × QueueRes T
  | items, .push item =>
      if items.length < bound then (items ++ [item], .pushed true) else (items, .pushed false)
  | [], .pop => ([], .popped none)
  | item :: items, .pop => (items, .popped (some item))

theorem boundedFifo_push {T : Type u} {bound : Nat} {items : List T} (item : T)
    (h : items.length < bound) :
    boundedFifo bound items (.push item) = (items ++ [item], .pushed true) := by
  rw [boundedFifo, if_pos h]

theorem boundedFifo_full {T : Type u} {bound : Nat} {items : List T} (item : T)
    (h : bound ≤ items.length) :
    boundedFifo bound items (.push item) = (items, .pushed false) := by
  rw [boundedFifo, if_neg (by omega)]

end Exchange.Atomic
