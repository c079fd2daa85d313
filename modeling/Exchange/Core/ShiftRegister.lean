import Mathlib.Data.List.GetD
import Mathlib.Logic.Function.Iterate
import Mathlib.Tactic.SplitIfs

/-!
# Shift registers with feedback

A register of `w` bits that moves down by one bit and adds a polynomial whenever a one leaves it at
the bottom.  This is how cyclic redundancy checks work, in the variant in which the least
significant bit goes first.

* `shift_xor` — a shift is linear, and **`shift_injective`** — it loses nothing if the polynomial
  has its top bit set;
* `foldl_feed` — to feed the register bit by bit is to add the bits as a word and then to shift;
* `shifts_split` — the shifts of a word can be looked up for its low bits;
* **`foldl_feed_ne`** — two messages that differ within a window no wider than the register leave
  different registers.
-/

namespace Exchange.ShiftRegister

variable {w : Nat}

section

variable (poly : BitVec w)

/-- One place down, with feedback. -/
def shift (c : BitVec w) : BitVec w := (c >>> 1) ^^^ (if c.getLsbD 0 then poly else 0#w)

/-- One place down, with a bit of the message added to the one that leaves. -/
def feed (c : BitVec w) (bit : Bool) : BitVec w :=
  if c.getLsbD 0 ^^ bit then (c >>> 1) ^^^ poly else c >>> 1

end

/-- The word with the given bits, the first of them lowest. -/
def word : List Bool → BitVec w
  | [] => 0#w
  | bit :: bits => (if bit then 1#w else 0#w) ^^^ (word bits <<< 1)

variable {poly : BitVec w} {a b c : BitVec w} {bit : Bool} {bits : List Bool}

/-! ## Shifts -/

lemma shift_xor (a b : BitVec w) : shift poly (a ^^^ b) = shift poly a ^^^ shift poly b := by
  have hfeedback : (if (a ^^^ b).getLsbD 0 then poly else 0#w)
      = (if a.getLsbD 0 then poly else 0#w) ^^^ (if b.getLsbD 0 then poly else 0#w) := by
    rw [BitVec.getLsbD_xor]
    cases a.getLsbD 0 <;> cases b.getLsbD 0 <;> simp
  rw [shift, shift, shift, hfeedback, BitVec.ushiftRight_xor_distrib]
  ac_rfl

/-- What leaves a zero at the bottom only moves. -/
lemma shift_of_low_eq_false (h : c.getLsbD 0 = false) : shift poly c = c >>> 1 := by
  rw [shift, h]
  exact BitVec.xor_zero

/-- Moving up first undoes a shift where nothing is lost at the top. -/
lemma shift_shiftLeft (h : c.msb = false) : shift poly (c <<< 1) = c := by
  rw [shift_of_low_eq_false (by simp)]
  refine BitVec.eq_of_getLsbD_eq fun i hi => ?_
  rw [BitVec.msb_eq_getLsbD_last] at h
  rw [BitVec.getLsbD_ushiftRight, BitVec.getLsbD_shiftLeft]
  by_cases htop : 1 + i < w
  · simp [htop]
  · have hi' : i = w - 1 := by omega
    simp [hi', h]

/-- The only register that shifts to zero is zero. -/
lemma eq_zero_of_shift (hpoly : poly.msb = true) (h : shift poly c = 0#w) :
    c = 0#w := by
  have hbits : ∀ i, (shift poly c).getLsbD i = false := by
    intro i
    rw [h]
    exact BitVec.getLsbD_zero
  have hlow : c.getLsbD 0 = false := by
    by_contra hone
    rw [Bool.not_eq_false] at hone
    -- the feedback sets the top bit, and nothing else does
    have htop := hbits (w - 1)
    rw [BitVec.msb_eq_getLsbD_last] at hpoly
    have hwidth : w ≠ 0 := by
      rintro rfl
      rw [BitVec.getLsbD_of_ge _ _ (Nat.zero_le _)] at hpoly
      cases hpoly
    rw [shift, hone, if_pos rfl, BitVec.getLsbD_xor,
      BitVec.getLsbD_ushiftRight, BitVec.getLsbD_of_ge _ _ (by omega), hpoly] at htop
    cases htop
  rw [shift_of_low_eq_false hlow] at hbits
  refine BitVec.eq_of_getLsbD_eq fun i hi => ?_
  rw [BitVec.getLsbD_zero]
  cases i with
  | zero => exact hlow
  | succ i =>
      have hmoved := hbits i
      rwa [BitVec.getLsbD_ushiftRight, Nat.add_comm] at hmoved

/-- **A shift loses nothing.** -/
theorem shift_injective (hpoly : poly.msb = true) : Function.Injective (shift poly) := by
  intro a b h
  rw [← BitVec.xor_eq_zero_iff, ← shift_xor] at h
  exact BitVec.xor_eq_zero_iff.mp (eq_zero_of_shift hpoly h)

lemma shifts_xor (n : Nat) (a b : BitVec w) :
    (shift poly)^[n] (a ^^^ b) = (shift poly)^[n] a ^^^ (shift poly)^[n] b := by
  induction n generalizing a b with
  | zero => rfl
  | succ n ih => rw [Function.iterate_succ_apply, shift_xor, ih]; rfl

lemma shifts_injective (hpoly : poly.msb = true) (n : Nat) :
    Function.Injective (shift poly)^[n] :=
  (shift_injective hpoly).iterate n

/-- Moving up by as many places undoes the shifts of what has room to. -/
lemma shifts_shiftLeft {n : Nat} (h : ∀ i, w ≤ i + n → c.getLsbD i = false) :
    (shift poly)^[n] (c <<< n) = c := by
  induction n with
  | zero => simp
  | succ n ih =>
      have htop : (c <<< n).msb = false := by
        rw [BitVec.msb_eq_getLsbD_last, BitVec.getLsbD_shiftLeft, h _ (by omega)]
        simp
      rw [Function.iterate_succ_apply, BitVec.shiftLeft_add, shift_shiftLeft htop]
      exact ih fun i hi => h i (by omega)

/-- **Shifts by the low bits.**  Those that stay do no more than move. -/
theorem shifts_split (n : Nat) (c : BitVec w) :
    (shift poly)^[n] c = (shift poly)^[n] ((c.setWidth n).setWidth w) ^^^ (c >>> n) := by
  have hsplit : c = (c.setWidth n).setWidth w ^^^ ((c >>> n) <<< n) := by
    refine BitVec.eq_of_getLsbD_eq fun i hi => ?_
    rw [BitVec.getLsbD_xor, BitVec.getLsbD_setWidth, BitVec.getLsbD_setWidth,
      BitVec.getLsbD_shiftLeft, BitVec.getLsbD_ushiftRight]
    by_cases hlow : i < n
    · simp [hlow, hi]
    · simp [hlow, hi, Nat.add_sub_cancel' (Nat.le_of_not_lt hlow)]
  have hroom : ∀ i, w ≤ i + n → (c >>> n).getLsbD i = false := by
    intro i hi
    rw [BitVec.getLsbD_ushiftRight, BitVec.getLsbD_of_ge _ _ (by omega)]
  calc (shift poly)^[n] c
      = (shift poly)^[n] ((c.setWidth n).setWidth w ^^^ ((c >>> n) <<< n)) := congrArg _ hsplit
    _ = (shift poly)^[n] ((c.setWidth n).setWidth w) ^^^ (c >>> n) := by
        rw [shifts_xor, shifts_shiftLeft hroom]

/-! ## Words -/

lemma getLsbD_word {i : Nat} (hi : i < w) :
    (word bits : BitVec w).getLsbD i = bits.getD i false := by
  induction bits generalizing i with
  | nil => simp [word]
  | cons bit bits ih =>
      rw [word, BitVec.getLsbD_xor, BitVec.getLsbD_shiftLeft]
      cases i with
      | zero => cases bit <;> simp [hi]
      | succ i =>
          have hlow : (if bit then 1#w else 0#w).getLsbD (i + 1) = false := by
            cases bit <;> simp
          rw [hlow, Nat.add_sub_cancel, ih (Nat.lt_of_succ_lt hi)]
          simp [hi]

/-- A word says which bits it is made of. -/
lemma word_injective {bits' : List Bool} (hlength : bits.length = bits'.length)
    (hw : bits.length ≤ w) (h : (word bits : BitVec w) = word bits') : bits = bits' := by
  refine List.ext_getElem hlength fun i hi hi' => ?_
  have hbit : (word bits : BitVec w).getLsbD i = (word bits' : BitVec w).getLsbD i := by rw [h]
  rw [getLsbD_word (Nat.lt_of_lt_of_le hi hw), getLsbD_word (Nat.lt_of_lt_of_le hi hw)] at hbit
  rwa [List.getD_eq_getElem _ _ hi, List.getD_eq_getElem _ _ hi'] at hbit

/-! ## Feeding the register -/

/-- A bit of the message may as well be added before the shift. -/
lemma feed_eq (hw : 0 < w) (c : BitVec w) (bit : Bool) :
    feed poly c bit = shift poly (c ^^^ if bit then 1#w else 0#w) := by
  have hmoved : (1#w) >>> 1 = 0#w := by
    refine BitVec.eq_of_getLsbD_eq fun i _ => ?_
    simp
  cases bit with
  | false =>
      simp only [feed, shift, Bool.xor_false, Bool.false_eq_true, if_false, BitVec.xor_zero]
      split_ifs
      · rfl
      · rw [BitVec.xor_zero]
  | true =>
      have hlow : (c ^^^ 1#w).getLsbD 0 = !c.getLsbD 0 := by
        rw [BitVec.getLsbD_xor]
        simp [hw]
      simp only [feed, shift, Bool.xor_true, if_true, hlow, BitVec.ushiftRight_xor_distrib, hmoved,
        BitVec.xor_zero]
      split_ifs
      · rfl
      · rw [BitVec.xor_zero]

/-- **Feeding bits is adding a word and shifting.** -/
theorem foldl_feed (c : BitVec w) (hbits : bits.length ≤ w) :
    bits.foldl (feed poly) c = (shift poly)^[bits.length] (c ^^^ word bits) := by
  induction bits generalizing c with
  | nil => simp [word]
  | cons bit bits ih =>
      rw [List.length_cons] at hbits
      have hroom : (word bits : BitVec w).msb = false := by
        rw [BitVec.msb_eq_getLsbD_last, getLsbD_word (by omega)]
        exact List.getD_eq_default _ _ (by omega)
      rw [List.foldl_cons, ih _ (Nat.le_of_succ_le hbits), List.length_cons,
        Function.iterate_succ_apply, word, ← BitVec.xor_assoc, shift_xor, shift_shiftLeft hroom,
        ← feed_eq (by omega)]

/-- A message that follows keeps two registers apart. -/
lemma foldl_feed_injective (hpoly : poly.msb = true) (hw : 0 < w) (bits : List Bool) :
    Function.Injective fun c => bits.foldl (feed poly) c := by
  induction bits with
  | nil => exact Function.injective_id
  | cons bit bits ih =>
      intro a b h
      have hfed : feed poly a bit = feed poly b bit := ih h
      rw [feed_eq hw, feed_eq hw] at hfed
      exact (BitVec.xor_left_inj _).mp (shift_injective hpoly hfed)

/-- **A burst is noticed** if it is no wider than the register. -/
theorem foldl_feed_ne (hpoly : poly.msb = true) {burst burst' : List Bool}
    (hlength : burst.length = burst'.length) (hw : burst.length ≤ w) (hne : burst ≠ burst')
    (c : BitVec w) (before after : List Bool) :
    (before ++ burst ++ after).foldl (feed poly) c
      ≠ (before ++ burst' ++ after).foldl (feed poly) c := by
  have hpos : 0 < w := by
    refine Nat.lt_of_lt_of_le (List.length_pos_iff.mpr ?_) hw
    rintro rfl
    exact hne (List.length_eq_zero_iff.mp hlength.symm).symm
  intro h
  rw [List.foldl_append, List.foldl_append, List.foldl_append, List.foldl_append] at h
  have hburst := foldl_feed_injective hpoly hpos after h
  generalize before.foldl (feed poly) c = c' at hburst
  rw [foldl_feed c' hw, foldl_feed c' (by omega), ← hlength] at hburst
  have hwords := (BitVec.xor_right_inj _).mp (shifts_injective hpoly _ hburst)
  exact hne (word_injective hlength hw hwords)

end Exchange.ShiftRegister
