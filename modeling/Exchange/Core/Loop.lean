/-!
# Loops with early exit

A C-style `while` loop whose body may `break` or `continue` is a step function into `ForInStep`:
`.done t` leaves the loop with state `t`, `.yield s` goes round again from `s`.  Nothing here
names a program; the loops of a development instantiate `step`.

* `Exits step s t` — the loop, started in `s`, leaves in `t` after finitely many rounds.  This is
  the meaning of the loop: it is an inductive relation, so there is no derivation for a loop that
  runs forever.
* `run step n s` — the executable loop, cut off after `n` rounds.
* **`exits_run`** — the measure rule: where every round keeps an invariant and lowers a measure,
  the cut-off run *is* the loop.
* `run_invariant`, `Exits.last` — the induction rules every property of a loop is proved with: what
  holds wherever it leaves, and what its last round establishes.
* `run_inStep` — two loops whose rounds stay in step end in related states.
-/

namespace Exchange.Loop

universe u v

variable {σ : Type u} {τ : Type v}

/-- The loop started in `s` leaves in state `t`. -/
inductive Exits (step : σ → ForInStep σ) : σ → σ → Prop
  | done {s t : σ} (h : step s = .done t) : Exits step s t
  | yield {s s' t : σ} (h : step s = .yield s') (rest : Exits step s' t) : Exits step s t

/-- The executable loop, cut off after `n` rounds. -/
def run (step : σ → ForInStep σ) : Nat → σ → σ
  | 0, s => s
  | n + 1, s =>
      match step s with
      | .done t => t
      | .yield s' => run step n s'

variable {step : σ → ForInStep σ}

theorem run_succ_done {n : Nat} {s t : σ} (h : step s = .done t) : run step (n + 1) s = t := by
  simp only [run, h]

theorem run_succ_yield {n : Nat} {s s' : σ} (h : step s = .yield s') :
    run step (n + 1) s = run step n s' := by
  simp only [run, h]

/-! ## Invariants -/

/-- What holds on entry and is kept by every round holds in the state the cut-off run ends in,
whatever the cut-off. -/
theorem run_invariant {I : σ → Prop} (hyield : ∀ s s', I s → step s = .yield s' → I s')
    (hdone : ∀ s t, I s → step s = .done t → I t) (n : Nat) {s : σ} (hs : I s) :
    I (run step n s) := by
  induction n generalizing s with
  | zero => exact hs
  | succ n ih =>
      cases h : step s with
      | done t => rw [run_succ_done h]; exact hdone s t hs h
      | yield s' => rw [run_succ_yield h]; exact ih (hyield s s' hs h)

/-- **The last round.**  A loop that leaves does so by the `.done` of a state its invariant holds
in; `Q` is what the exits establish. -/
theorem Exits.last {I Q : σ → Prop} (hyield : ∀ s s', I s → step s = .yield s' → I s')
    (hdone : ∀ s t, I s → step s = .done t → Q t) {s t : σ} (h : Exits step s t) (hs : I s) :
    Q t := by
  induction h with
  | done hstep => exact hdone _ _ hs hstep
  | yield hstep _ ih => exact ih (hyield _ _ hs hstep)

/-! ## Two loops in step -/

/-- Two rounds that leave, or go round again, together. -/
inductive InStep (R : σ → τ → Prop) : ForInStep σ → ForInStep τ → Prop
  | done {s : σ} {t : τ} (h : R s t) : InStep R (.done s) (.done t)
  | yield {s : σ} {t : τ} (h : R s t) : InStep R (.yield s) (.yield t)

theorem run_inStep {R : σ → τ → Prop} {step' : τ → ForInStep τ}
    (hstep : ∀ s t, R s t → InStep R (step s) (step' t)) (n : Nat) {s : σ} {t : τ} (h : R s t) :
    R (run step n s) (run step' n t) := by
  induction n generalizing s t with
  | zero => exact h
  | succ n ih =>
      have hround := hstep s t h
      rw [run, run]
      generalize step s = round at hround
      generalize step' t = round' at hround
      cases hround with
      | done h' => exact h'
      | yield h' => exact ih h'

/-! ## Termination -/

/-- **The measure rule.**  Where every round keeps `I` and lowers `μ`, the loop leaves, and the run
cut off after more than `μ s` rounds is where it leaves. -/
theorem exits_run {I : σ → Prop} {μ : σ → Nat}
    (hyield : ∀ s s', I s → step s = .yield s' → I s' ∧ μ s' < μ s) {n : Nat} {s : σ}
    (hs : I s) (hn : μ s < n) : Exits step s (run step n s) := by
  induction n generalizing s with
  | zero => omega
  | succ n ih =>
      cases h : step s with
      | done t => rw [run_succ_done h]; exact .done h
      | yield s' =>
          obtain ⟨hs', hlt⟩ := hyield s s' hs h
          rw [run_succ_yield h]
          exact .yield h (ih hs' (by omega))

end Exchange.Loop
