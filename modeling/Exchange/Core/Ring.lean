import Mathlib.Data.List.Chain
import Mathlib.Data.List.Nodup

/-!
# Doubly-linked rings

Places that are linked both ways, `next` and `prev`, and come back to where they started.  The place
a ring is held by, `x`, is one of its places; where a list has a head and a tail instead, `x` stands
for what holds them, and the head and the tail are its two links.

* `Ring next prev x xs` — from `x` along `next` come `xs` and then `x` again, and the same backwards
  along `prev`;
* **`Ring.walk`**, **`Ring.walk_back`** — what somebody meets who follows the links;
* **`Ring.append`**, **`Ring.unlink`** — two assignments to each of `next` and `prev` put a place in
  at the end, and one to each takes a place out.
-/

namespace Exchange

open Function (update)

universe u

variable {A : Type u}

/-- `b` is next after `a`, and `a` is before `b`. -/
def Linked (next prev : A → A) (a b : A) : Prop := next a = b ∧ prev b = a

/-- `x` and `xs` are linked in a ring. -/
structure Ring (next prev : A → A) (x : A) (xs : List A) : Prop where
  linked : (x :: xs ++ [x]).IsChain (Linked next prev)
  nodup : (x :: xs).Nodup

/-- Along `next` from `a`, the places met before `x` are `xs`. -/
inductive Walk (next : A → A) (x : A) : A → List A → Prop
  | arrived : Walk next x x []
  | step {a : A} {xs : List A} (hne : a ≠ x) (rest : Walk next x (next a) xs) :
      Walk next x a (a :: xs)

variable {next prev : A → A} {a b c d x y : A} {l xs ys : List A}

/-- There is one way to walk. -/
lemma Walk.unique (h : Walk next x a xs) (h' : Walk next x a ys) : xs = ys := by
  induction h generalizing ys with
  | arrived =>
      cases h' with
      | arrived => rfl
      | step hne _ => exact absurd rfl hne
  | step hne _ ih =>
      cases h' with
      | arrived => exact absurd rfl hne
      | step _ rest' => rw [ih rest']

lemma walk_of_linked (h : (a :: l ++ [x]).IsChain (Linked next prev)) (hx : x ∉ l) :
    Walk next x (next a) l := by
  induction l generalizing a with
  | nil =>
      obtain ⟨hnext, -⟩ := (List.isChain_cons_cons.mp h).1
      rw [hnext]
      exact .arrived
  | cons b l ih =>
      obtain ⟨⟨hnext, -⟩, hrest⟩ := List.isChain_cons_cons.mp h
      rw [List.mem_cons, not_or] at hx
      rw [hnext]
      exact .step (Ne.symm hx.1) (ih hrest hx.2)

namespace Ring

lemma not_mem (h : Ring next prev x xs) : x ∉ xs := (List.nodup_cons.mp h.nodup).1

/-- A ring turned round. -/
theorem reverse (h : Ring next prev x xs) : Ring prev next x xs.reverse where
  linked := by
    have hround : x :: xs.reverse ++ [x] = (x :: xs ++ [x]).reverse := by simp
    rw [hround, List.isChain_reverse]
    exact h.linked.imp fun _ _ hab => ⟨hab.2, hab.1⟩
  nodup := by
    rw [List.nodup_cons, List.mem_reverse, List.nodup_reverse]
    exact List.nodup_cons.mp h.nodup

/-- **From the first place to the last.** -/
theorem walk (h : Ring next prev x xs) : Walk next x (next x) xs :=
  walk_of_linked h.linked h.not_mem

/-- **And back.** -/
theorem walk_back (h : Ring next prev x xs) : Walk prev x (prev x) xs.reverse := h.reverse.walk

lemma empty (hnext : next x = x) (hprev : prev x = x) : Ring next prev x [] where
  linked := List.isChain_pair.mpr ⟨hnext, hprev⟩
  nodup := List.nodup_singleton x

/-- A ring that comes back at once. -/
lemma next_anchor_nil (h : Ring next prev x []) : next x = x := (List.isChain_pair.mp h.linked).1

/-- `x` and the first place. -/
lemma linked_first (h : Ring next prev x (y :: ys)) : Linked next prev x y :=
  (List.isChain_cons_cons.mp h.linked).1

/-- The last place is before `x`. -/
lemma exists_row (h : Ring next prev x xs) :
    ∃ before, x :: xs = before ++ [prev x] ∧ (x :: xs).IsChain (Linked next prev) := by
  obtain ⟨before, a, hbefore⟩ := (List.eq_nil_or_concat' (x :: xs)).resolve_left nofun
  have hlinked := h.linked
  rw [hbefore, List.append_assoc, List.singleton_append, List.isChain_append_cons_cons] at hlinked
  obtain ⟨hrow, ⟨-, rfl⟩, -⟩ := hlinked
  exact ⟨before, hbefore, hbefore ▸ hrow⟩

lemma prev_anchor_mem (h : Ring next prev x xs) : prev x ∈ x :: xs := by
  obtain ⟨before, hbefore, -⟩ := h.exists_row
  rw [hbefore]
  exact List.mem_append_right before List.mem_cons_self

/-- The rows on both sides of a place, and how it is linked to them. -/
lemma exists_rows (h : Ring next prev x (xs ++ y :: ys)) :
    ∃ before after, x :: xs = before ++ [prev y] ∧ ys ++ [x] = next y :: after ∧
      (before ++ [prev y]).IsChain (Linked next prev) ∧
      (next y :: after).IsChain (Linked next prev) := by
  obtain ⟨before, a, hbefore⟩ := (List.eq_nil_or_concat' (x :: xs)).resolve_left nofun
  obtain ⟨b, after, hafter⟩ := List.exists_cons_of_ne_nil (List.concat_ne_nil x ys)
  have hrow : x :: (xs ++ y :: ys) ++ [x] = (before ++ [a]) ++ y :: (b :: after) := by
    rw [← hbefore, ← hafter]
    simp
  have hlinked := h.linked
  rw [hrow, List.append_assoc, List.singleton_append, List.isChain_append_cons_cons,
    List.isChain_cons_cons] at hlinked
  obtain ⟨hleft, ⟨-, rfl⟩, ⟨rfl, -⟩, hright⟩ := hlinked
  exact ⟨before, after, hbefore, hafter, hleft, hright⟩

lemma prev_mem (h : Ring next prev x (xs ++ y :: ys)) : prev y ∈ x :: xs := by
  obtain ⟨before, -, hbefore, -⟩ := h.exists_rows
  rw [hbefore]
  exact List.mem_append_right before List.mem_cons_self

lemma next_mem (h : Ring next prev x (xs ++ y :: ys)) : next y ∈ x :: ys := by
  obtain ⟨-, after, -, hafter, -⟩ := h.exists_rows
  have hmem : next y ∈ ys ++ [x] := by
    rw [hafter]
    exact List.mem_cons_self
  exact List.mem_cons.mpr ((List.mem_append.mp hmem).symm.imp_left List.mem_singleton.mp)

/-- Only the links of its places make a ring. -/
theorem congr {next' prev' : A → A} (h : Ring next prev x xs)
    (hnext : ∀ a ∈ x :: xs, next' a = next a) (hprev : ∀ a ∈ x :: xs, prev' a = prev a) :
    Ring next' prev' x xs where
  linked := by
    refine h.linked.imp_of_mem_imp fun a b ha hb hab => ?_
    have hplace : ∀ c ∈ x :: xs ++ [x], c ∈ x :: xs := by
      intro c hc
      rcases List.mem_append.mp hc with hc | hc
      · exact hc
      · rw [List.mem_singleton.mp hc]
        exact List.mem_cons_self
    exact ⟨(hnext a (hplace a ha)).trans hab.1, (hprev b (hplace b hb)).trans hab.2⟩
  nodup := h.nodup

end Ring

/-! ## Assignments -/

section Assignments

variable [DecidableEq A]

/-- Assignments to links that are not among those of a row. -/
lemma isChain_update (h : l.IsChain (Linked next prev)) (ha : a ∉ l.dropLast) (hb : b ∉ l.tail) :
    l.IsChain (Linked (update next a c) (update prev b d)) := by
  induction l with
  | nil => exact .nil
  | cons x l ih =>
      cases l with
      | nil => exact .singleton x
      | cons y l =>
          obtain ⟨⟨hnext, hprev⟩, hrest⟩ := List.isChain_cons_cons.mp h
          rw [List.dropLast_cons_cons, List.mem_cons, not_or] at ha
          rw [List.tail_cons, List.mem_cons, not_or] at hb
          refine .cons_cons ⟨?_, ?_⟩ (ih hrest ha.2 hb.2)
          · rw [Function.update_of_ne (Ne.symm ha.1), hnext]
          · rw [Function.update_of_ne (Ne.symm hb.1), hprev]

/-- Two rows that end and begin at `x` are linked into one. -/
lemma isChain_link {before after : List A} (hbefore : x :: xs = before ++ [a])
    (hafter : ys ++ [x] = b :: after) (hnodup : (x :: (xs ++ ys)).Nodup)
    (hleft : (x :: xs).IsChain (Linked next prev))
    (hright : (ys ++ [x]).IsChain (Linked next prev)) :
    (x :: (xs ++ ys) ++ [x]).IsChain (Linked (update next a b) (update prev b a)) := by
  rw [List.nodup_cons, List.mem_append, not_or, List.nodup_append] at hnodup
  obtain ⟨⟨hxs, hys⟩, hnodup, hnodup', hdisjoint⟩ := hnodup
  have hrow : x :: (xs ++ ys) ++ [x] = before ++ a :: b :: after := by
    rw [← List.cons_append, List.append_assoc, hbefore, hafter]
    simp
  have ha : a ∉ before ∧ a ∉ ys := by
    have hleft : (before ++ [a]).Nodup := hbefore ▸ List.nodup_cons.mpr ⟨hxs, hnodup⟩
    have hmem : a ∈ x :: xs := by simp [hbefore]
    refine ⟨fun hin => (List.nodup_append.mp hleft).2.2 a hin a List.mem_cons_self rfl,
      fun hin => ?_⟩
    rcases List.mem_cons.mp hmem with rfl | hmem
    · exact hys hin
    · exact hdisjoint a hmem a hin rfl
  have hb : b ∉ after ∧ b ∉ xs := by
    have hright : (b :: after).Nodup := by
      rw [← hafter, List.nodup_append]
      refine ⟨hnodup', List.nodup_singleton x, ?_⟩
      rintro c hc _ hcx rfl
      exact hys (List.mem_singleton.mp hcx ▸ hc)
    have hmem : b ∈ ys ++ [x] := by simp [hafter]
    refine ⟨(List.nodup_cons.mp hright).1, fun hin => ?_⟩
    rcases List.mem_append.mp hmem with hmem | hmem
    · exact hdisjoint b hin b hmem rfl
    · rw [List.mem_singleton.mp hmem] at hin
      exact hxs hin
  rw [hrow, List.isChain_append_cons_cons]
  refine ⟨?_, ⟨Function.update_self .., Function.update_self ..⟩, ?_⟩
  · rw [← hbefore]
    refine isChain_update hleft ?_ hb.2
    rw [hbefore, List.dropLast_concat]
    exact ha.1
  · rw [← hafter]
    refine isChain_update hright ?_ ?_
    · rw [List.dropLast_concat]
      exact ha.2
    · rw [hafter]
      exact hb.1

namespace Ring

/-- **A place is taken out.** -/
theorem unlink (h : Ring next prev x (xs ++ y :: ys)) :
    Ring (update next (prev y) (next y)) (update prev (next y) (prev y)) x (xs ++ ys) := by
  obtain ⟨before, after, hbefore, hafter, hleft, hright⟩ := h.exists_rows
  have hnodup : (x :: (xs ++ ys)).Nodup :=
    h.nodup.sublist (((List.sublist_cons_self y ys).append_left xs).cons_cons x)
  rw [← hbefore] at hleft
  rw [← hafter] at hright
  exact ⟨isChain_link hbefore hafter hnodup hleft hright, hnodup⟩

/-- **A place is put in at the end.** -/
theorem append (h : Ring next prev x xs) (hy : y ∉ x :: xs) :
    Ring (update (update next y x) (prev x) y) (update (update prev x y) y (prev x)) x
      (xs ++ [y]) := by
  obtain ⟨before, hbefore, hrow⟩ := h.exists_row
  have hnodup : (x :: (xs ++ [y])).Nodup := by
    rw [← List.cons_append, List.nodup_append]
    refine ⟨h.nodup, List.nodup_singleton y, ?_⟩
    rintro c hc _ hcy rfl
    exact hy (List.mem_singleton.mp hcy ▸ hc)
  refine ⟨isChain_link hbefore rfl hnodup ?_ ?_, hnodup⟩
  · exact isChain_update hrow (fun hin => hy ((List.dropLast_sublist _).subset hin)) h.not_mem
  · exact List.isChain_pair.mpr ⟨Function.update_self .., Function.update_self ..⟩

end Ring

end Assignments

end Exchange
