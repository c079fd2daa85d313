/-!
# Runs of a state machine

A machine is a total `step : σ → α → σ`; a run feeds it a list of inputs.  `Admitted ok` says that
every input of a run is `ok` in the state it is fed to, and `Throughout P` that `P` holds in every
state the run passes, both ends included.

* **`Admitted.invariant`**, **`Admitted.throughout`** — one step lemma gives the run lemma.
* **`Admitted.throughout_iff`** — where the admitted inputs keep an invariant that implies `P` and
  every other input breaks `P` at once, a run keeps `P` throughout exactly if all its inputs are
  admitted.
* **`Admitted.simulates`** — where steps keep two machines related and say the same, so do runs.
* **`Admitted.refines`** — where each step is what a second machine does with what it says, so are
  runs.
* **`lasts_iff_admitted`** — where admitted inputs keep what holds of each thing, or say what has
  ended it, and every other input loses something, a run loses nothing exactly if all its inputs are
  admitted.
-/

namespace Exchange.Run

universe u v w x y z

variable {σ : Type u} {α : Type v} {τ : Type w} {β : Type x} {γ : Type y} {ι : Type z}

/-- The state a run ends in. -/
def run (step : σ → α → σ) (s : σ) (as : List α) : σ := as.foldl step s

/-- Every input is `ok` in the state it is fed to. -/
def Admitted (step : σ → α → σ) (ok : σ → α → Prop) : σ → List α → Prop
  | _, [] => True
  | s, a :: as => ok s a ∧ Admitted step ok (step s a) as

/-- `P` holds in every state the run passes. -/
def Throughout (step : σ → α → σ) (P : σ → Prop) : σ → List α → Prop
  | s, [] => P s
  | s, a :: as => P s ∧ Throughout step P (step s a) as

/-- What the steps of a run count, added up. -/
def total (step : σ → α → σ) (count : σ → α → Nat) : σ → List α → Nat
  | _, [] => 0
  | s, a :: as => count s a + total step count (step s a) as

/-- What the steps of a run say, in turn. -/
def outputs (step : σ → α → σ) (out : σ → α → γ) : σ → List α → List γ
  | _, [] => []
  | s, a :: as => out s a :: outputs step out (step s a) as

variable {step : σ → α → σ} {ok ok' : σ → α → Prop} {I P : σ → Prop}

/-- A run of decidable conditions can be checked by running it. -/
instance Admitted.decidable [∀ s a, Decidable (ok s a)] :
    (s : σ) → (as : List α) → Decidable (Admitted step ok s as)
  | _, [] => isTrue trivial
  | s, a :: as =>
      haveI := Admitted.decidable (step s a) as
      inferInstanceAs (Decidable (ok s a ∧ Admitted step ok (step s a) as))

theorem run_append (s : σ) (as as' : List α) :
    run step s (as ++ as') = run step (run step s as) as' := List.foldl_append

theorem admitted_append {s : σ} {as as' : List α} :
    Admitted step ok s (as ++ as') ↔
      Admitted step ok s as ∧ Admitted step ok (run step s as) as' := by
  induction as generalizing s with
  | nil => exact ⟨fun h => ⟨trivial, h⟩, fun h => h.2⟩
  | cons a as ih =>
      rw [List.cons_append, Admitted, Admitted, ih, and_assoc]
      rfl

/-- Wherever the inputs are split, the next one is `ok`. -/
theorem admitted_iff_forall_split {s : σ} {as : List α} :
    Admitted step ok s as ↔
      ∀ before a after, as = before ++ a :: after → ok (run step s before) a := by
  constructor
  · rintro h before a after rfl
    exact (admitted_append.mp h).2.1
  · intro h
    induction as generalizing s with
    | nil => trivial
    | cons a as ih =>
        refine ⟨h [] a as rfl, ih fun before a' after hsplit => ?_⟩
        exact h (a :: before) a' after (by rw [hsplit]; rfl)

/-- Conditions on the inputs alone are checked one by one. -/
theorem admitted_of_forall {ok : α → Prop} (s : σ) {as : List α} (h : ∀ a ∈ as, ok a) :
    Admitted step (fun _ => ok) s as := by
  induction as generalizing s with
  | nil => trivial
  | cons a as ih =>
      exact ⟨h a List.mem_cons_self, ih _ fun a' ha => h a' (List.mem_cons_of_mem a ha)⟩

theorem admitted_trivial (s : σ) (as : List α) : Admitted step (fun _ _ => True) s as :=
  admitted_of_forall s fun _ _ => trivial

theorem Admitted.mono (h : ∀ s a, ok s a → ok' s a) {s : σ} {as : List α}
    (hrun : Admitted step ok s as) : Admitted step ok' s as := by
  induction as generalizing s with
  | nil => trivial
  | cons a as ih => exact ⟨h s a hrun.1, ih hrun.2⟩

theorem admitted_and {s : σ} {as : List α} :
    Admitted step (fun s a => ok s a ∧ ok' s a) s as ↔
      Admitted step ok s as ∧ Admitted step ok' s as := by
  induction as generalizing s with
  | nil => exact ⟨fun h => ⟨h, h⟩, fun h => h.1⟩
  | cons a as ih => rw [Admitted, Admitted, Admitted, ih, and_and_and_comm]

/-- **The run lemma.**  What holds at the start and is kept by every admitted step holds at the
end. -/
theorem Admitted.invariant (hstep : ∀ s a, I s → ok s a → I (step s a)) {s : σ} {as : List α}
    (hrun : Admitted step ok s as) (hs : I s) : I (run step s as) := by
  induction as generalizing s with
  | nil => exact hs
  | cons a as ih => exact ih hrun.2 (hstep s a hs hrun.1)

/-- What the invariant implies holds all the time. -/
theorem Admitted.throughout (hP : ∀ s, I s → P s) (hstep : ∀ s a, I s → ok s a → I (step s a))
    {s : σ} {as : List α} (hrun : Admitted step ok s as) (hs : I s) : Throughout step P s as := by
  induction as generalizing s with
  | nil => exact hP s hs
  | cons a as ih => exact ⟨hP s hs, ih hrun.2 (hstep s a hs hrun.1)⟩

/-- What admitted inputs satisfy as long as an invariant holds. -/
theorem Admitted.imp (hstep : ∀ s a, I s → ok s a → I (step s a))
    (himp : ∀ s a, I s → ok s a → ok' s a) {s : σ} {as : List α}
    (hrun : Admitted step ok s as) (hs : I s) : Admitted step ok' s as := by
  induction as generalizing s with
  | nil => trivial
  | cons a as ih => exact ⟨himp s a hs hrun.1, ih hrun.2 (hstep s a hs hrun.1)⟩

/-- Conditions that agree wherever an invariant holds admit the same runs. -/
theorem admitted_congr (hstep : ∀ s a, I s → I (step s a))
    (hiff : ∀ s a, I s → (ok s a ↔ ok' s a)) {s : σ} {as : List α} (hs : I s) :
    Admitted step ok s as ↔ Admitted step ok' s as := by
  induction as generalizing s with
  | nil => exact Iff.rfl
  | cons a as ih => rw [Admitted, Admitted, hiff s a hs, ih (hstep s a hs)]

/-- Counts that agree on every admitted step have the same total. -/
theorem Admitted.total_congr {count count' : σ → α → Nat} (hstep : ∀ s a, I s → I (step s a))
    (hcount : ∀ s a, I s → ok s a → count s a = count' s a) {s : σ} {as : List α}
    (hrun : Admitted step ok s as) (hs : I s) : total step count s as = total step count' s as := by
  induction as generalizing s with
  | nil => rfl
  | cons a as ih => rw [total, total, hcount s a hs hrun.1, ih hrun.2 (hstep s a hs)]

/-- **The simulation rule.**  A second machine is fed the translated inputs. -/
theorem Admitted.simulates {step' : τ → β → τ} {translate : α → β} {out : σ → α → γ}
    {out' : τ → β → γ} {R : σ → τ → Prop}
    (hstep : ∀ s t a, R s t → ok s a →
      R (step s a) (step' t (translate a)) ∧ out' t (translate a) = out s a) {s : σ} {t : τ}
    {as : List α} (hrun : Admitted step ok s as) (h : R s t) :
    R (run step s as) (run step' t (as.map translate)) ∧
      outputs step' out' t (as.map translate) = outputs step out s as := by
  induction as generalizing s t with
  | nil => exact ⟨h, rfl⟩
  | cons a as ih =>
      obtain ⟨hnext, hout⟩ := hstep s t a h hrun.1
      obtain ⟨hend, houts⟩ := ih hrun.2 hnext
      refine ⟨hend, ?_⟩
      rw [List.map_cons, outputs, outputs, hout, houts]

/-- **The refinement rule.**  A second machine is fed what the steps of the first say, and stays
where the first looks to be. -/
theorem Admitted.refines {step' : τ → β → τ} {out : σ → α → List β} (view : σ → τ)
    (hstep : ∀ s a, I s → ok s a → I (step s a))
    (hview : ∀ s a, I s → ok s a → view (step s a) = run step' (view s) (out s a)) {s : σ}
    {as : List α} (hrun : Admitted step ok s as) (hs : I s) :
    view (run step s as) = run step' (view s) (outputs step out s as).flatten := by
  induction as generalizing s with
  | nil => rfl
  | cons a as ih =>
      rw [outputs, List.flatten_cons, run_append, ← hview s a hs hrun.1]
      exact ih hrun.2 (hstep s a hs hrun.1)

/-- **Two machines side by side**, each fed inputs that are admitted in its own state. -/
theorem Admitted.lockstep {step' : τ → α → τ} {ok' : τ → α → Prop} {out : σ → α → γ}
    {out' : τ → α → γ} {R : σ → τ → Prop}
    (hstep : ∀ s t a, R s t → ok s a → ok' t a → R (step s a) (step' t a) ∧ out s a = out' t a)
    {s : σ} {t : τ} {as : List α} (hrun : Admitted step ok s as) (hrun' : Admitted step' ok' t as)
    (h : R s t) :
    R (run step s as) (run step' t as) ∧ outputs step out s as = outputs step' out' t as := by
  induction as generalizing s t with
  | nil => exact ⟨h, rfl⟩
  | cons a as ih =>
      obtain ⟨hnext, hout⟩ := hstep s t a h hrun.1 hrun'.1
      obtain ⟨hend, houts⟩ := ih hrun.2 hrun'.2 hnext
      refine ⟨hend, ?_⟩
      rw [outputs, outputs, hout, houts]

/-- **The first violation**, in runs whose inputs all satisfy `pre`.  A run keeps `P` throughout if
and only if all its inputs are admitted. -/
theorem Admitted.throughout_iff {pre : σ → α → Prop} (hP : ∀ s, I s → P s)
    (hstep : ∀ s a, I s → pre s a → ok s a → I (step s a))
    (hbreak : ∀ s a, I s → pre s a → ¬ ok s a → ¬ P (step s a)) {s : σ} {as : List α}
    (hrun : Admitted step pre s as) (hs : I s) :
    Throughout step P s as ↔ Admitted step ok s as := by
  induction as generalizing s with
  | nil => exact ⟨fun _ => trivial, fun _ => hP s hs⟩
  | cons a as ih =>
      by_cases hok : ok s a
      · rw [Throughout, Admitted, ih hrun.2 (hstep s a hs hrun.1 hok)]
        exact ⟨fun h => ⟨hok, h.2⟩, fun h => ⟨hP s hs, h.2⟩⟩
      · refine ⟨fun h => absurd ?_ (hbreak s a hs hrun.1 hok), fun h => absurd h.1 hok⟩
        cases as with
        | nil => exact h.2
        | cons a' as => exact h.2.1

/-- The same for all runs. -/
theorem throughout_iff_admitted (hP : ∀ s, I s → P s)
    (hstep : ∀ s a, I s → ok s a → I (step s a))
    (hbreak : ∀ s a, I s → ¬ ok s a → ¬ P (step s a)) {s : σ} {as : List α} (hs : I s) :
    Throughout step P s as ↔ Admitted step ok s as :=
  (admitted_trivial s as).throughout_iff hP (fun s a hs _ => hstep s a hs)
    (fun s a hs _ => hbreak s a hs) hs

/-- What is lost for good once it is lost is there throughout if it is there at the end. -/
theorem throughout_iff_end (hback : ∀ s a, P (step s a) → P s) {s : σ} {as : List α} :
    Throughout step P s as ↔ P (run step s as) := by
  induction as generalizing s with
  | nil => exact Iff.rfl
  | cons a as ih =>
      have hstart : P (run step (step s a) as) → P s := by
        intro hend
        have hthroughout := ih.mpr hend
        cases as with
        | nil => exact hback s a hthroughout
        | cons a' as => exact hback s a hthroughout.1
      rw [Throughout, ih]
      exact ⟨fun h => h.2, fun hend => ⟨hstart hend, hend⟩⟩

/-! ## What lasts until it ends -/

/-- Some input of the run ends `x`. -/
def EndedIn (step : σ → α → σ) (E : ι → σ → α → Prop) (x : ι) (s : σ) (as : List α) : Prop :=
  ∃ done a todo, as = done ++ a :: todo ∧ E x (run step s done) a

/-- What holds of `x` at one point of the run holds at every later one, unless `x` has ended in
between. -/
def Lasts (step : σ → α → σ) (R : ι → σ → Prop) (E : ι → σ → α → Prop) (s : σ) (as : List α) :
    Prop :=
  ∀ before between after, as = before ++ (between ++ after) → ∀ x, R x (run step s before) →
    R x (run step s (before ++ between)) ∨ EndedIn step E x (run step s before) between

variable {R : ι → σ → Prop} {E : ι → σ → α → Prop}

/-- The run lemma. -/
theorem Admitted.lasts (hstep : ∀ s a, I s → ok s a → I (step s a))
    (hkeep : ∀ x s a, I s → ok s a → R x s → R x (step s a) ∨ E x s a) {s : σ} {as : List α}
    (hrun : Admitted step ok s as) (hs : I s) {x : ι} (hx : R x s) :
    R x (run step s as) ∨ EndedIn step E x s as := by
  induction as generalizing s with
  | nil => exact Or.inl hx
  | cons a as ih =>
      rcases hkeep x s a hs hrun.1 hx with hx' | hended
      · refine (ih hrun.2 (hstep s a hs hrun.1) hx').imp_right ?_
        rintro ⟨done, a', todo, rfl, hended⟩
        exact ⟨a :: done, a', todo, rfl, hended⟩
      · exact Or.inr ⟨[], a, as, rfl, hended⟩

/-- **Nothing is lost**, if and only if all inputs are admitted. -/
theorem lasts_iff_admitted (hstep : ∀ s a, I s → ok s a → I (step s a))
    (hkeep : ∀ x s a, I s → ok s a → R x s → R x (step s a) ∨ E x s a)
    (hlose : ∀ s a, I s → ¬ ok s a → ∃ x, R x s ∧ ¬ R x (step s a) ∧ ¬ E x s a) {s : σ}
    {as : List α} (hs : I s) : Lasts step R E s as ↔ Admitted step ok s as := by
  constructor
  · intro h
    induction as generalizing s with
    | nil => trivial
    | cons a as ih =>
        have hok : ok s a := Classical.byContradiction fun hnot => by
          obtain ⟨x, hx, hgone, hopen⟩ := hlose s a hs hnot
          rcases h [] [a] as rfl x hx with hx' | ⟨done, a', todo, hsplit, hended⟩
          · exact hgone hx'
          · cases done with
            | nil =>
                cases hsplit
                exact hopen hended
            | cons _ done => simp at hsplit
        refine ⟨hok, ih (hstep s a hs hok) fun before between after hsplit x hx => ?_⟩
        exact h (a :: before) between after (by rw [hsplit]; rfl) x hx
  · rintro hrun before between after rfl x hx
    obtain ⟨hbefore, hrest⟩ := admitted_append.mp hrun
    rw [run_append]
    exact (admitted_append.mp hrest).1.lasts hstep hkeep (hbefore.invariant hstep hs) hx

end Exchange.Run
