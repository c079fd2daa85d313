import Exchange.Core.Run
import Mathlib.Logic.Function.Basic
import Mathlib.Data.List.Basic

/-!
# Families of machines

`routed route step` runs a family of machines, one for each shard: every input goes to the machine
of its shard, the others stay as they are.

* **`run_routed`** — each machine has run on the inputs of its shard;
* **`outputs_routed`** — and has said, on those, what the family has said.
-/

namespace Exchange.Sharding

universe u v w x

variable {ι : Type u} [DecidableEq ι] {σ : Type v} {α : Type w} {γ : Type x}

/-- One step of the family. -/
def routed (route : α → ι) (step : σ → α → σ) (p : ι → σ) (a : α) : ι → σ :=
  Function.update p (route a) (step (p (route a)) a)

/-- The inputs of a shard. -/
def inputs (route : α → ι) (i : ι) (as : List α) : List α := as.filter fun a => route a = i

/-- What was said to the inputs of a shard. -/
def replies (route : α → ι) (i : ι) (as : List α) (cs : List γ) : List γ :=
  ((as.zip cs).filter fun x => route x.1 = i).map Prod.snd

variable (route : α → ι) (step : σ → α → σ) (out : σ → α → γ) (p : ι → σ)

theorem run_routed (as : List α) (i : ι) :
    Run.run (routed route step) p as i = Run.run step (p i) (inputs route i as) := by
  induction as generalizing p with
  | nil => rfl
  | cons a as ih =>
      refine (ih (routed route step p a)).trans ?_
      by_cases hi : route a = i
      · subst hi
        rw [inputs, inputs, List.filter_cons_of_pos (by simp), routed, Function.update_self]
        rfl
      · rw [inputs, inputs, List.filter_cons_of_neg (by simpa using hi), routed,
          Function.update_of_ne (Ne.symm hi)]

theorem outputs_routed (as : List α) (i : ι) :
    replies route i as (Run.outputs (routed route step) (fun p a => out (p (route a)) a) p as)
      = Run.outputs step out (p i) (inputs route i as) := by
  induction as generalizing p with
  | nil => rfl
  | cons a as ih =>
      have hrest := ih (routed route step p a)
      by_cases hi : route a = i
      · subst hi
        rw [replies, Run.outputs, List.zip_cons_cons, List.filter_cons_of_pos (by simp),
          List.map_cons, inputs, List.filter_cons_of_pos (by simp), Run.outputs]
        rw [replies, routed, Function.update_self] at hrest
        exact congrArg _ hrest
      · rw [replies, Run.outputs, List.zip_cons_cons, List.filter_cons_of_neg (by simpa using hi),
          inputs, List.filter_cons_of_neg (by simpa using hi)]
        rw [replies, routed, Function.update_of_ne (Ne.symm hi)] at hrest
        exact hrest

end Exchange.Sharding
