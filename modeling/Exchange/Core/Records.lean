import Mathlib.Data.List.Basic

/-!
# An array of records read in one go

A buffer for a number of records of one length is read in one go from a stream, which may end
before the buffer is full; what the stream does not reach is left as it was.

* `records_flatten` — a stream of all the records is read back;
* **`records_fill_take`** — of a stream that is cut off, the records before the cut are read as they
  are, one at the cut may be read in part, and the others are left.
-/

namespace Exchange.Records

universe u

variable {α : Type u} {z : α} {size n : Nat} {r bs : List α} {rs : List (List α)}

/-- What a buffer holds after as much as there is of `bs` has been read into it. -/
def fill (buffer bs : List α) : List α := bs.take buffer.length ++ buffer.drop bs.length

/-- The first records of a buffer. -/
def records (size : Nat) : Nat → List α → List (List α)
  | 0, _ => []
  | count + 1, bs => bs.take size :: records size count (bs.drop size)

@[simp] theorem length_fill (buffer bs : List α) : (fill buffer bs).length = buffer.length := by
  rw [fill, List.length_append, List.length_take, List.length_drop]
  omega

@[simp] theorem fill_nil (buffer : List α) : fill buffer [] = buffer := by
  rw [fill, List.take_nil, List.nil_append, List.length_nil, List.drop_zero]

/-- A stream that is long enough fills the buffer. -/
theorem fill_of_le {buffer : List α} (h : buffer.length ≤ bs.length) :
    fill buffer bs = bs.take buffer.length := by
  rw [fill, List.drop_of_length_le h, List.append_nil]

theorem fill_of_length_eq {buffer : List α} (h : bs.length = buffer.length) :
    fill buffer bs = bs := by
  rw [fill_of_le (Nat.le_of_eq h.symm), List.take_of_length_le (Nat.le_of_eq h)]

/-- What a shorter stream leaves is there after it. -/
theorem fill_replicate {size : Nat} (z : α) (h : bs.length ≤ size) :
    fill (List.replicate size z) bs = bs ++ List.replicate (size - bs.length) z := by
  rw [fill, List.length_replicate, List.take_of_length_le h, List.drop_replicate]

@[simp] theorem length_records (size count : Nat) (bs : List α) :
    (records size count bs).length = count := by
  induction count generalizing bs with
  | zero => rfl
  | succ count ih => rw [records, List.length_cons, ih]

/-- **All the records are read back**, whatever follows them. -/
theorem records_flatten (h : ∀ r ∈ rs, r.length = size) (rest : List α) :
    records size rs.length (rs.flatten ++ rest) = rs := by
  induction rs with
  | nil => rfl
  | cons r rs ih =>
      rw [List.forall_mem_cons] at h
      rw [List.length_cons, records, List.flatten_cons, List.append_assoc, List.take_left' h.1,
        List.drop_left' h.1, ih h.2]

/-! ## A stream that ends early -/

/-- The first record of a buffer, and what is left of the stream for the others. -/
theorem records_fill_succ (z : α) (size count : Nat) (bs : List α) :
    records size (count + 1) (fill (List.replicate ((count + 1) * size) z) bs)
      = fill (List.replicate size z) (bs.take size)
        :: records size count (fill (List.replicate (count * size) z) (bs.drop size)) := by
  have hlength : (count + 1) * size = size + count * size := by
    rw [Nat.succ_mul, Nat.add_comm]
  have hmin : min size (min (size + count * size) bs.length) = min size bs.length := by omega
  rw [records, hlength]
  congr 1
  · rw [fill, fill, List.length_replicate, List.length_replicate, List.drop_replicate,
      List.drop_replicate, List.take_append, List.take_take, List.take_take, List.length_take,
      List.take_replicate, List.length_take, Nat.min_self]
    congr 1
    · rw [Nat.min_eq_left (Nat.le_add_right _ _)]
    · congr 1
      omega
  · congr 1
    rw [fill, fill, List.length_replicate, List.length_replicate, List.drop_replicate,
      List.drop_replicate, List.drop_append, List.length_take, List.drop_replicate,
      List.length_drop, List.drop_take]
    congr 1
    · congr 1
      omega
    · congr 1
      omega

/-- What is read of records of which the stream has the first `n` letters. -/
def readable (z : α) (size : Nat) : Nat → List (List α) → List (List α)
  | _, [] => []
  | n, r :: rs => fill (List.replicate size z) (r.take n) :: readable z size (n - size) rs

theorem records_fill_flatten (h : ∀ r ∈ rs, r.length = size) (n : Nat) :
    records size rs.length (fill (List.replicate (rs.length * size) z) (rs.flatten.take n))
      = readable z size n rs := by
  induction rs generalizing n with
  | nil => rfl
  | cons r rs ih =>
      rw [List.forall_mem_cons] at h
      have hfirst : ((r :: rs).flatten.take n).take size = r.take n := by
        rw [List.take_take, List.flatten_cons, List.take_append, h.1,
          Nat.sub_eq_zero_of_le (Nat.min_le_left _ _), List.take_zero, List.append_nil,
          List.take_eq_take_iff, h.1]
        omega
      have hrest : ((r :: rs).flatten.take n).drop size = rs.flatten.take (n - size) := by
        rw [List.drop_take, List.flatten_cons, List.drop_left' h.1]
      rw [List.length_cons, records_fill_succ, hfirst, hrest, ih h.2, readable]

theorem readable_zero (z : α) (size : Nat) (rs : List (List α)) :
    readable z size 0 rs = rs.map fun _ => List.replicate size z := by
  induction rs with
  | nil => rfl
  | cons r rs ih =>
      rw [readable, Nat.zero_sub, ih, List.take_zero, fill_nil, List.map_cons]

/-- The record at the cut, and those after it. -/
def torn (z : α) (size n : Nat) : List (List α) → List (List α)
  | [] => []
  | r :: rs => fill (List.replicate size z) (r.take n) :: rs.map fun _ => List.replicate size z

/-- One record is cut, if there is anything of it, and the others are blank. -/
theorem torn_eq {n : Nat} (hn : n < size) (h : ∀ r ∈ rs, r.length = size) :
    let cut := if n = 0 then [] else
      rs.head?.toList.map fun r => r.take n ++ List.replicate (size - n) z
    torn z size n rs = cut ++ List.replicate (rs.length - cut.length) (List.replicate size z) := by
  intro cut
  cases rs with
  | nil =>
      have hcut : cut = [] := ite_self _
      rw [hcut]
      rfl
  | cons r rs =>
      have hlength : (r.take n).length = n := by
        rw [List.length_take, h r List.mem_cons_self, Nat.min_eq_left (Nat.le_of_lt hn)]
      rw [torn, List.map_const', List.length_cons]
      by_cases hzero : n = 0
      · rw [show cut = [] from if_pos hzero, hzero, List.take_zero, fill_nil, List.length_nil,
          Nat.sub_zero, List.replicate_succ, List.nil_append]
      · rw [show cut = [_] from if_neg hzero, fill_replicate z (by omega), hlength,
          List.length_singleton, Nat.add_sub_cancel, List.singleton_append]

theorem readable_eq (hsize : 0 < size) (h : ∀ r ∈ rs, r.length = size) (n : Nat) :
    readable z size n rs = rs.take (n / size) ++ torn z size (n % size) (rs.drop (n / size)) := by
  induction rs generalizing n with
  | nil => rw [List.take_nil, List.drop_nil]; rfl
  | cons r rs ih =>
      rw [List.forall_mem_cons] at h
      rw [readable]
      by_cases hlt : n < size
      · rw [Nat.div_eq_of_lt hlt, Nat.mod_eq_of_lt hlt, Nat.sub_eq_zero_of_le (Nat.le_of_lt hlt),
          readable_zero]
        rfl
      · have hle : size ≤ n := Nat.le_of_not_lt hlt
        have hread : fill (List.replicate size z) (r.take n) = r := by
          rw [List.take_of_length_le (by omega), fill_of_length_eq]
          rw [h.1, List.length_replicate]
        rw [ih h.2, hread, Nat.div_eq_sub_div hsize hle, Nat.mod_eq_sub_mod hle]
        rfl

/-- **What is read of a stream that is cut off.** -/
theorem records_fill_take (hsize : 0 < size) (h : ∀ r ∈ rs, r.length = size) (n : Nat) :
    records size rs.length (fill (List.replicate (rs.length * size) z) (rs.flatten.take n))
      = rs.take (n / size) ++ torn z size (n % size) (rs.drop (n / size)) := by
  rw [records_fill_flatten h, readable_eq hsize h]

end Exchange.Records
