import Exchange.Core.Draw
import Mathlib.Algebra.BigOperators.Finsupp.Basic

/-!
# Ladders

What a list of supplies comes to at each of their keys, and nothing else of them: a ladder is a
finitely supported function from keys to quantities.  Keys are ordered, the smaller ones first.

* `within d p` — what a ladder has at the keys that satisfy `p`;
* `consume d n` — what it has after `n` have been taken, the smallest keys first;
* `ofList` — the ladder of a list of supplies.

A draw from a sorted list is told from its ladder alone: **`reach_eq_within`** says how much is in
reach, **`ofList_left`** what is left.
-/

namespace Exchange.Ladder

open Finsupp (mem_support_iff onFinset single single_add single_apply sum_add_index'
  sum_single_index sum_zero_index)

universe u v

variable {α : Type u} {κ : Type v}

/-- What a ladder has at the keys that satisfy `p`. -/
noncomputable def within (d : κ →₀ ℕ) (p : κ → Prop) [DecidablePred p] : ℕ :=
  d.sum fun k q => if p k then q else 0

/-- The ladder of a list of supplies. -/
noncomputable def ofList (key : α → κ) (avail : α → ℕ) (l : List α) : κ →₀ ℕ :=
  (l.map fun a => single (key a) (avail a)).sum

variable {key : α → κ} {avail : α → ℕ} {l : List α} {a : α} {d : κ →₀ ℕ} {j k : κ} {q n : ℕ}

/-! ## What is at some keys -/

section Within

variable {p : κ → Prop} [DecidablePred p]

@[simp] lemma within_zero : within (0 : κ →₀ ℕ) p = 0 := sum_zero_index

lemma within_add (d d' : κ →₀ ℕ) : within (d + d') p = within d p + within d' p :=
  sum_add_index' (fun k => ite_self 0) fun k q q' => by
    split_ifs
    · rfl
    · rfl

lemma within_single : within (single k q) p = if p k then q else 0 :=
  sum_single_index (ite_self 0)

/-- Keys at which there is nothing do not count. -/
lemma within_eq_zero (h : ∀ k, p k → d k = 0) : within d p = 0 :=
  Finset.sum_eq_zero fun k _ => by
    by_cases hp : p k
    · exact (if_pos hp).trans (h k hp)
    · exact if_neg hp

end Within

/-! ## Lists of supplies -/

@[simp] lemma ofList_nil : ofList key avail [] = 0 := rfl

@[simp] lemma ofList_cons :
    ofList key avail (a :: l) = single (key a) (avail a) + ofList key avail l := by
  rw [ofList, List.map_cons, List.sum_cons, ofList]

/-- The order of the supplies does not matter to the ladder. -/
lemma ofList_perm {l' : List α} (h : l.Perm l') : ofList key avail l = ofList key avail l' :=
  (h.map _).sum_eq

variable [LinearOrder κ]

/-- A key has what its supplies have. -/
lemma ofList_apply :
    ofList key avail l k = ((l.filter fun a => key a = k).map avail).sum := by
  induction l with
  | nil => rfl
  | cons a l ih =>
      rw [ofList_cons, Finsupp.add_apply, ih, single_apply, List.filter_cons]
      by_cases hk : key a = k
      · simp [hk]
      · simp [hk]

/-- Before the first key of a list there is nothing. -/
lemma ofList_eq_zero_of_lt (h : ∀ b ∈ l, j ≤ key b) (hk : k < j) : ofList key avail l k = 0 := by
  have hnone : (l.filter fun a => key a = k) = [] := by
    rw [List.filter_eq_nil_iff]
    intro b hb heq
    exact absurd (h b hb) (not_le.mpr (by simpa using (of_decide_eq_true heq) ▸ hk))
  rw [ofList_apply, hnone]
  rfl

/-! ## Taking the smallest keys first -/

/-- A key gives what the keys before it have not given. -/
noncomputable def consume (d : κ →₀ ℕ) (n : ℕ) : κ →₀ ℕ :=
  onFinset d.support (fun k => d k - (n - within d (· < k))) fun k hk => by
    rw [mem_support_iff]
    omega

lemma consume_apply : consume d n k = d k - (n - within d (· < k)) := rfl

@[simp] lemma consume_zero : consume d 0 = d := by
  ext k
  rw [consume_apply, Nat.zero_sub, Nat.sub_zero]

/-- What is at the smallest key goes first. -/
lemma consume_single_add (h : ∀ k < j, d k = 0) :
    consume (single j q + d) (q + n) = consume d n := by
  ext k
  rw [consume_apply, consume_apply, within_add, within_single, Finsupp.add_apply, single_apply]
  rcases lt_trichotomy j k with hlt | rfl | hgt
  · rw [if_neg hlt.ne, if_pos hlt]
    omega
  · have hnone : within d (· < j) = 0 := within_eq_zero h
    rw [if_pos rfl, if_neg (lt_irrefl j), hnone]
    omega
  · rw [h k hgt, if_neg hgt.ne', Nat.zero_add, Nat.zero_sub, Nat.zero_sub]

/-! ## Draws -/

variable {stop : α → Bool} {reduce : α → ℕ → α} {want : ℕ}

/-- **What a draw leaves** of a sorted list: the ladder with what was drawn taken off, the smallest
keys first. -/
theorem ofList_left (hsorted : l.Pairwise fun a b => key a ≤ key b)
    (hkey : ∀ a q, key (reduce a q) = key a)
    (havail : ∀ a ∈ l, ∀ q < avail a, avail (reduce a q) = avail a - q) :
    ofList key avail (Draw.left stop avail reduce want l)
      = consume (ofList key avail l) ((Draw.drawn stop avail want l).map (·.2)).sum := by
  induction l generalizing want with
  | nil => simp [Draw.left, Draw.drawn]
  | cons a l ih =>
      rw [List.pairwise_cons] at hsorted
      have hbefore : ∀ k < key a, ofList key avail l k = 0 := fun k hk =>
        ofList_eq_zero_of_lt hsorted.1 hk
      by_cases hclosed : want = 0 ∨ stop a = true
      · rw [Draw.left, Draw.drawn, if_pos hclosed, if_pos hclosed, List.map_nil, List.sum_nil,
          consume_zero]
      · rw [Draw.left, Draw.drawn, if_neg hclosed, if_neg hclosed, List.map_cons, List.sum_cons]
        split_ifs with hall
        · rw [ih hsorted.2 fun b hb => havail b (List.mem_cons_of_mem _ hb), ofList_cons,
            Nat.min_eq_right hall, consume_single_add hbefore]
        · -- the first supply gives all that is wanted, and keeps the rest of what it has
          have hsplit : avail a = want + (avail a - want) := by omega
          have hrest : ∀ k < key a,
              (single (key a) (avail a - want) + ofList key avail l) k = 0 := by
            intro k hk
            rw [Finsupp.add_apply, hbefore k hk, single_apply, if_neg hk.ne']
          rw [Nat.min_eq_left (by omega), Nat.sub_self, Draw.drawn_zero, List.map_nil, List.sum_nil,
            ofList_cons, ofList_cons, hkey, havail a List.mem_cons_self want (by omega)]
          conv_rhs => rw [hsplit, single_add, add_assoc]
          rw [consume_single_add hrest, consume_zero]

/-- **What is in reach** of a draw that stops at a key: all there is up to it. -/
theorem reach_eq_within {p : κ → Prop} [DecidablePred p]
    (hsorted : l.Pairwise fun a b => key a ≤ key b) (hdown : ∀ j k, j ≤ k → p k → p j)
    (hstop : ∀ a ∈ l, stop a = false ↔ p (key a)) :
    Draw.reach stop avail l = within (ofList key avail l) p := by
  induction l with
  | nil => simp [Draw.reach]
  | cons a l ih =>
      rw [List.pairwise_cons] at hsorted
      rw [ofList_cons, within_add, within_single]
      by_cases hp : p (key a)
      · rw [Draw.reach_cons_open ((hstop a List.mem_cons_self).mpr hp), if_pos hp,
          ih hsorted.2 fun b hb => hstop b (List.mem_cons_of_mem _ hb)]
      · have hclosed : stop a = true := by
          rw [← Bool.not_eq_false, hstop a List.mem_cons_self]
          exact hp
        have hnone : within (ofList key avail l) p = 0 := within_eq_zero fun k hk =>
          ofList_eq_zero_of_lt hsorted.1 (not_le.mp fun hle => hp (hdown _ _ hle hk))
        rw [Draw.reach_cons_stop hclosed, if_neg hp, hnone]

end Exchange.Ladder
