import Mathlib.Data.List.Basic

/-!
# Frames in a byte stream

A frame is a header of fixed length, which says how long the payload is, followed by the payload.
`Framing` is such a format; a `Frame` carries its own well-formedness.

A stream is read frame by frame until what is left begins with no complete frame: `split` is the
frames and the rest.

* **`split_eq_iff`** — there is one way only to read a stream as frames and such a rest;
* **`split_take`** — a stream of frames that is cut off after `n` bytes is read as the frames that
  end within them, `within n`.
-/

namespace Exchange

universe u

/-- A format of frames over an alphabet. -/
structure Framing (α : Type u) where
  headerLength : Nat
  headerLength_pos : 0 < headerLength
  payloadLength : List α → Nat

namespace Framing

variable {α : Type u} (F : Framing α)

structure Frame where
  header : List α
  payload : List α
  header_length : header.length = F.headerLength
  payload_length : payload.length = F.payloadLength header

variable {F}

def Frame.bytes (f : F.Frame) : List α := f.header ++ f.payload

theorem Frame.ext {f g : F.Frame} (hheader : f.header = g.header)
    (hpayload : f.payload = g.payload) : f = g := by
  cases f
  cases g
  cases hheader
  cases hpayload
  rfl

theorem Frame.length_pos (f : F.Frame) : 0 < f.bytes.length := by
  rw [Frame.bytes, List.length_append, f.header_length]
  exact Nat.add_pos_left F.headerLength_pos _

/-! ## The next frame -/

/-- The first frame of a stream, and what follows it. -/
def next (F : Framing α) (bs : List α) : Option (F.Frame × List α) :=
  if hheader : F.headerLength ≤ bs.length then
    let header := bs.take F.headerLength
    let rest := bs.drop F.headerLength
    if hpayload : F.payloadLength header ≤ rest.length then
      some (⟨header, rest.take (F.payloadLength header), List.length_take_of_le hheader,
        List.length_take_of_le hpayload⟩, rest.drop (F.payloadLength header))
    else none
  else none

variable {bs rest : List α} {f : F.Frame}

/-- **The first frame is what the stream begins with.** -/
theorem next_eq_some_iff : F.next bs = some (f, rest) ↔ bs = f.bytes ++ rest := by
  constructor
  · intro h
    simp only [next] at h
    split_ifs at h
    cases h
    rw [Frame.bytes, List.append_assoc, List.take_append_drop, List.take_append_drop]
  · rintro rfl
    have hheader : (f.bytes ++ rest).take F.headerLength = f.header := by
      rw [Frame.bytes, List.append_assoc, List.take_left' f.header_length]
    have hrest : (f.bytes ++ rest).drop F.headerLength = f.payload ++ rest := by
      rw [Frame.bytes, List.append_assoc, List.drop_left' f.header_length]
    have hlong : F.headerLength ≤ (f.bytes ++ rest).length := by
      rw [Frame.bytes, List.append_assoc, List.length_append, f.header_length]
      exact Nat.le_add_right _ _
    have hfits : F.payloadLength f.header ≤ (f.payload ++ rest).length := by
      rw [List.length_append, f.payload_length]
      exact Nat.le_add_right _ _
    rw [next, dif_pos hlong]
    simp only [hheader, hrest, dif_pos hfits, List.take_left' f.payload_length,
      List.drop_left' f.payload_length]

theorem next_eq_none_iff : F.next bs = none ↔ bs.length < F.headerLength ∨
    (bs.drop F.headerLength).length < F.payloadLength (bs.take F.headerLength) := by
  simp only [next]
  split_ifs with hheader hpayload
  · exact iff_of_false not_false (by omega)
  · exact iff_of_true rfl (Or.inr (Nat.lt_of_not_le hpayload))
  · exact iff_of_true rfl (Or.inl (Nat.lt_of_not_le hheader))

theorem next_append (f : F.Frame) (rest : List α) : F.next (f.bytes ++ rest) = some (f, rest) :=
  next_eq_some_iff.mpr rfl

theorem length_lt_of_next (h : F.next bs = some (f, rest)) : rest.length < bs.length := by
  rw [next_eq_some_iff.mp h, List.length_append]
  exact Nat.lt_add_of_pos_left f.length_pos

/-- No frame begins in a part of a frame. -/
theorem next_take_eq_none {f : F.Frame} {n : Nat} (h : n < f.bytes.length) :
    F.next (f.bytes.take n) = none := by
  cases hnext : F.next (f.bytes.take n) with
  | none => rfl
  | some found =>
      obtain ⟨g, rest⟩ := found
      -- then the frame would begin with a shorter one
      have hsplit : f.bytes ++ [] = g.bytes ++ (rest ++ f.bytes.drop n) := by
        rw [List.append_nil, ← List.append_assoc, ← next_eq_some_iff.mp hnext,
          List.take_append_drop]
      have hsame := (next_append f []).symm.trans (next_eq_some_iff.mpr hsplit)
      simp only [Option.some.injEq, Prod.mk.injEq, List.nil_eq, List.append_eq_nil_iff,
        List.drop_eq_nil_iff] at hsame
      exact absurd hsame.2.2 (Nat.not_le_of_lt h)

/-! ## Reading a stream -/

/-- The frames of a stream, and the rest that begins with none. -/
def split (F : Framing α) (bs : List α) : List F.Frame × List α :=
  match _h : F.next bs with
  | none => ([], bs)
  | some (f, rest) => (f :: (F.split rest).1, (F.split rest).2)
termination_by bs.length
decreasing_by all_goals exact length_lt_of_next _h

theorem split_of_none (h : F.next bs = none) : F.split bs = ([], bs) := by
  rw [split]
  split
  · rfl
  · rename_i h'
    rw [h] at h'
    cases h'

theorem split_append (f : F.Frame) (rest : List α) :
    F.split (f.bytes ++ rest) = (f :: (F.split rest).1, (F.split rest).2) := by
  rw [split]
  split
  · rename_i h
    rw [next_append] at h
    cases h
  · rename_i h
    rw [next_append] at h
    cases h
    rfl

/-- The bytes of frames, one after the other. -/
def joined (fs : List F.Frame) : List α := fs.flatMap Frame.bytes

theorem joined_cons (f : F.Frame) (fs : List F.Frame) : joined (f :: fs) = f.bytes ++ joined fs :=
  rfl

theorem joined_append (fs gs : List F.Frame) : joined (fs ++ gs) = joined fs ++ joined gs :=
  List.flatMap_append

theorem split_spec (F : Framing α) (bs : List α) :
    bs = joined (F.split bs).1 ++ (F.split bs).2 ∧ F.next (F.split bs).2 = none := by
  induction bs using Framing.split.induct F with
  | case1 bs h =>
      rw [split_of_none h]
      exact ⟨rfl, h⟩
  | case2 bs f rest h ih =>
      obtain rfl := next_eq_some_iff.mp h
      rw [split_append, joined_cons, List.append_assoc, ← ih.1]
      exact ⟨rfl, ih.2⟩

/-- **A stream is read in one way only.** -/
theorem split_eq_iff {fs : List F.Frame} {t : List α} :
    F.split bs = (fs, t) ↔ bs = joined fs ++ t ∧ F.next t = none := by
  constructor
  · intro h
    have hspec := F.split_spec bs
    rwa [h] at hspec
  · rintro ⟨rfl, hnone⟩
    induction fs with
    | nil => exact split_of_none hnone
    | cons f fs ih => rw [joined_cons, List.append_assoc, split_append, ih]

theorem next_nil (F : Framing α) : F.next [] = none :=
  dif_neg (Nat.not_le_of_lt F.headerLength_pos)

theorem split_joined (fs : List F.Frame) : F.split (joined fs) = (fs, []) :=
  split_eq_iff.mpr ⟨(List.append_nil _).symm, F.next_nil⟩

theorem split_joined_append (fs : List F.Frame) (rest : List α) :
    F.split (joined fs ++ rest) = (fs ++ (F.split rest).1, (F.split rest).2) := by
  induction fs with
  | nil => rfl
  | cons f fs ih => rw [joined_cons, List.append_assoc, split_append, ih, List.cons_append]

/-- Every frame takes a byte at least. -/
theorem length_split_le (F : Framing α) (bs : List α) : (F.split bs).1.length ≤ bs.length := by
  induction bs using Framing.split.induct F with
  | case1 bs h =>
      rw [split_of_none h]
      exact Nat.zero_le _
  | case2 bs f rest h ih =>
      obtain rfl := next_eq_some_iff.mp h
      have hpos := f.length_pos
      rw [split_append, List.length_cons, List.length_append]
      omega

theorem length_le_length_joined (fs : List F.Frame) : fs.length ≤ (joined fs).length := by
  have h := F.length_split_le (joined fs)
  rwa [split_joined] at h

/-! ## A stream that is cut off -/

/-- The frames that end within the first `n` bytes. -/
def within : Nat → List F.Frame → List F.Frame
  | _, [] => []
  | n, f :: fs => if f.bytes.length ≤ n then f :: within (n - f.bytes.length) fs else []

/-- A frame is among them if the bytes up to its end are no more than `n`. -/
theorem getElem?_within (n : Nat) (fs : List F.Frame) (i : Nat) :
    (within n fs)[i]? = if (joined (fs.take (i + 1))).length ≤ n then fs[i]? else none := by
  induction fs generalizing n i with
  | nil => simp [within]
  | cons f fs ih =>
      rw [within, List.take_succ_cons, joined_cons, List.length_append]
      by_cases hfits : f.bytes.length ≤ n
      · rw [if_pos hfits]
        cases i with
        | zero => simp [joined, hfits]
        | succ i =>
            rw [List.getElem?_cons_succ, List.getElem?_cons_succ, ih]
            congr 1
            exact propext (by omega)
      · rw [if_neg hfits, if_neg (by omega)]
        rfl

/-- The frames that end before a cut are the first ones. -/
theorem within_prefix (n : Nat) (fs : List F.Frame) : within n fs <+: fs := by
  induction fs generalizing n with
  | nil => exact List.nil_prefix
  | cons f fs ih =>
      rw [within]
      split_ifs
      · exact (List.prefix_cons_inj f).mpr (ih _)
      · exact List.nil_prefix

/-- **A cut loses the frames that do not end before it**, and no part of a frame is read as one. -/
theorem split_take (n : Nat) (fs : List F.Frame) :
    (F.split ((joined fs).take n)).1 = within n fs := by
  induction fs generalizing n with
  | nil => simp [joined, split_of_none F.next_nil, within]
  | cons f fs ih =>
      rw [joined_cons, List.take_append, within]
      by_cases hfits : f.bytes.length ≤ n
      · rw [List.take_of_length_le hfits, split_append, if_pos hfits, ih]
      · have hlt : n < f.bytes.length := Nat.lt_of_not_le hfits
        rw [Nat.sub_eq_zero_of_le (Nat.le_of_lt hlt), List.take_zero, List.append_nil,
          split_of_none (next_take_eq_none hlt), if_neg hfits]

end Framing

end Exchange
