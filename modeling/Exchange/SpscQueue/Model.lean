import Mathlib.Data.Nat.ModEq
import Mathlib.Tactic.SplitIfs
import Exchange.Core.Atomic

/-!
# The single-producer single-consumer queue

`include/utils/spsc_queue.hpp`: a ring of `Capacity` slots, of which at most `Capacity - 1` are in
use, between two indices.  The producer moves `head_` and keeps a copy of `tail_`, the consumer
moves `tail_` and keeps a copy of `head_`; a copy is refreshed only when it makes the queue look
full or empty.

The indices wrap at `Capacity`.  `Counters` are what they would be if they did not: the number of
items pushed and popped so far, and the numbers that the two copies were taken at.  `Tracks` relates
the two, and everything is proved of the counters (`next_wrap`, `wrap_inj`, `wrap_succ_eq_iff`).

**`tryPush_spec`**, **`tryPop_spec`** — called one at a time, the two functions are those of a list
of at most `Capacity - 1` items.
-/

namespace Exchange

universe u

/-- The template parameter `Capacity` with its two static assertions. -/
structure Capacity where
  value : UInt64
  pos : 0 < value
  pow_two : value &&& (value - 1) = 0

/-- `SPSCQueue<T, Capacity>`. -/
structure SPSCQueue (T : Type u) where
  head : UInt64
  cachedTail : UInt64
  tail : UInt64
  cachedHead : UInt64
  slots : UInt64 → T

namespace Capacity

variable (c : Capacity)

def size : Nat := c.value.toNat

/-- `(i + 1) & (Capacity - 1)`. -/
def next (i : UInt64) : UInt64 := (i + 1) &&& (c.value - 1)

end Capacity

namespace SPSCQueue

variable {T : Type u}

/-- The constructor: all slots are `T{}`. -/
def empty [Inhabited T] : SPSCQueue T where
  head := 0
  cachedTail := 0
  tail := 0
  cachedHead := 0
  slots := fun _ => default

def writeSlot (q : SPSCQueue T) (i : UInt64) (item : T) : SPSCQueue T :=
  { q with slots := fun j => if j = i then item else q.slots j }

def tryPush (c : Capacity) (q : SPSCQueue T) (item : T) : Bool × SPSCQueue T :=
  let head := q.head
  let nextHead := c.next head
  if nextHead = q.cachedTail then
    let q := { q with cachedTail := q.tail }
    if nextHead = q.cachedTail then (false, q)
    else (true, { q.writeSlot head item with head := nextHead })
  else (true, { q.writeSlot head item with head := nextHead })

def tryPop (c : Capacity) (q : SPSCQueue T) : Option T × SPSCQueue T :=
  let tail := q.tail
  if tail = q.cachedHead then
    let q := { q with cachedHead := q.head }
    if tail = q.cachedHead then (none, q)
    else (some (q.slots tail), { q with tail := c.next tail })
  else (some (q.slots tail), { q with tail := c.next tail })

def sizeApprox (c : Capacity) (q : SPSCQueue T) : UInt64 :=
  (q.head - q.tail + c.value) &&& (c.value - 1)

end SPSCQueue

/-! ## Indices that wrap -/

namespace Capacity

variable (c : Capacity)

lemma size_pos : 0 < c.size := UInt64.lt_iff_toNat_lt.mp c.pos

lemma toNat_sub_one : (c.value - 1).toNat = c.size - 1 := by
  have hle : 1 ≤ c.value := UInt64.le_iff_toNat_le.mpr c.size_pos
  rw [UInt64.toNat_sub_of_le _ _ hle, UInt64.toNat_one, size]

/-- The static assertions say that the capacity is a power of two. -/
lemma size_eq_two_pow : ∃ k ≤ 63, c.size = 2 ^ k := by
  have hand : c.size &&& (c.size - 1) = 0 := by
    have h := congrArg UInt64.toNat c.pow_two
    rwa [UInt64.toNat_and, c.toNat_sub_one] at h
  have hne : c.size ≠ 0 := Nat.pos_iff_ne_zero.mp c.size_pos
  obtain ⟨k, hk⟩ := (Nat.and_sub_one_eq_zero_iff_isPowerOfTwo hne).mp hand
  refine ⟨k, ?_, hk⟩
  have hlt : 2 ^ k < 2 ^ 64 := hk ▸ c.value.toNat_lt
  have := (Nat.pow_lt_pow_iff_right (by omega)).mp hlt
  omega

/-- Masking takes the remainder. -/
lemma toNat_mask (i : UInt64) : (i &&& (c.value - 1)).toNat = i.toNat % c.size := by
  obtain ⟨k, -, hk⟩ := c.size_eq_two_pow
  rw [UInt64.toNat_and, c.toNat_sub_one, hk, Nat.and_two_pow_sub_one_eq_mod]

lemma size_le : c.size ≤ 2 ^ 63 := by
  obtain ⟨k, hk, heq⟩ := c.size_eq_two_pow
  rw [heq]
  exact Nat.pow_le_pow_right (by omega) hk

lemma size_dvd : c.size ∣ 2 ^ 64 := by
  obtain ⟨k, hk, heq⟩ := c.size_eq_two_pow
  rw [heq]
  exact Nat.pow_dvd_pow 2 (by omega)

/-- The index that stands for a counter. -/
def wrap (n : Nat) : UInt64 := UInt64.ofNat (n % c.size)

lemma toNat_wrap (n : Nat) : (c.wrap n).toNat = n % c.size := by
  have hlt := Nat.mod_lt n c.size_pos
  have hle := c.size_le
  rw [wrap, UInt64.toNat_ofNat_of_lt']
  simp only [UInt64.size]
  omega

@[simp] lemma wrap_zero : c.wrap 0 = 0 := by rw [wrap, Nat.zero_mod]; rfl

/-- Counting goes on across the end of the ring. -/
lemma next_wrap (n : Nat) : c.next (c.wrap n) = c.wrap (n + 1) := by
  have hlt := Nat.mod_lt n c.size_pos
  have hle := c.size_le
  rw [← UInt64.toNat_inj, next, c.toNat_mask, UInt64.toNat_add, c.toNat_wrap, c.toNat_wrap]
  simp only [UInt64.toNat_one]
  rw [Nat.mod_eq_of_lt (b := 2 ^ 64) (by omega), Nat.mod_add_mod]

/-- Going on by several slots at once. -/
lemma wrap_add (n : Nat) {i : Nat} (hi : i < c.size) :
    (c.wrap n + UInt64.ofNat i) &&& (c.value - 1) = c.wrap (n + i) := by
  have hlt := Nat.mod_lt n c.size_pos
  have hle := c.size_le
  rw [← UInt64.toNat_inj, c.toNat_mask, UInt64.toNat_add, c.toNat_wrap, c.toNat_wrap,
    UInt64.toNat_ofNat_of_lt' (by simp only [UInt64.size]; omega), Nat.mod_mod_of_dvd _ c.size_dvd,
    Nat.mod_add_mod]

/-- Counters less than a capacity apart have different indices. -/
lemma wrap_inj {m n : Nat} (hle : m ≤ n) (hlt : n < m + c.size) : c.wrap m = c.wrap n ↔ m = n := by
  rw [← UInt64.toNat_inj, c.toNat_wrap, c.toNat_wrap]
  constructor
  · intro h
    have hsub := Nat.sub_mod_eq_zero_of_mod_eq h.symm
    rw [Nat.mod_eq_of_lt (by omega)] at hsub
    omega
  · rintro rfl
    rfl

/-- The queue is full. -/
lemma wrap_succ_eq_iff {m n : Nat} (hle : m ≤ n) (hlt : n < m + c.size) :
    c.wrap (n + 1) = c.wrap m ↔ n + 1 = m + c.size := by
  have hm : c.wrap m = c.wrap (m + c.size) := by
    rw [← UInt64.toNat_inj, c.toNat_wrap, c.toNat_wrap, Nat.add_mod_right]
  constructor
  · intro h
    rcases Nat.lt_or_ge (n + 1) (m + c.size) with hfree | hfull
    · have heq := (c.wrap_inj (Nat.le_succ_of_le hle) hfree).mp h.symm
      omega
    · omega
  · intro h
    rw [h, ← hm]

/-- The distance of two indices, as `size_approx` computes it. -/
lemma toNat_distance {m n : Nat} (hle : m ≤ n) (hlt : n < m + c.size) :
    ((c.wrap n - c.wrap m + c.value) &&& (c.value - 1)).toNat = n - m := by
  have hm := Nat.mod_lt m c.size_pos
  have hsize := c.size_le
  rw [c.toNat_mask, UInt64.toNat_add, UInt64.toNat_sub, c.toNat_wrap, c.toNat_wrap,
    Nat.mod_add_mod, Nat.mod_mod_of_dvd _ c.size_dvd]
  suffices h : 2 ^ 64 - m % c.size + n % c.size + c.value.toNat ≡ n - m [MOD c.size] by
    rwa [Nat.ModEq, Nat.mod_eq_of_lt (by omega : n - m < c.size)] at h
  refine Nat.ModEq.add_right_cancel' (m % c.size) ?_
  calc 2 ^ 64 - m % c.size + n % c.size + c.value.toNat + m % c.size
      = n % c.size + (2 ^ 64 + c.size) := by simp only [size] at *; omega
    _ ≡ n % c.size + 0 [MOD c.size] :=
        Nat.ModEq.add_left _ (Nat.modEq_zero_iff_dvd.mpr (Nat.dvd_add c.size_dvd (Nat.dvd_refl _)))
    _ ≡ n - m + m [MOD c.size] := by rw [Nat.sub_add_cancel hle]; exact Nat.mod_modEq n _
    _ ≡ n - m + m % c.size [MOD c.size] := Nat.ModEq.add_left _ (Nat.mod_modEq m _).symm

end Capacity

/-! ## Counters -/

/-- How many items were pushed and popped, and how many had been when the copies were taken. -/
structure Counters where
  pushed : Nat := 0
  popped : Nat := 0
  seenPopped : Nat := 0
  seenPushed : Nat := 0

/-- The indices are those of the counters, and the slots between them hold the items. -/
structure Tracks {T : Type u} (c : Capacity) (q : SPSCQueue T) (k : Counters) (items : List T) :
    Prop where
  head : q.head = c.wrap k.pushed
  cachedTail : q.cachedTail = c.wrap k.seenPopped
  tail : q.tail = c.wrap k.popped
  cachedHead : q.cachedHead = c.wrap k.seenPushed
  seenPopped_le : k.seenPopped ≤ k.popped
  popped_le : k.popped ≤ k.seenPushed
  seenPushed_le : k.seenPushed ≤ k.pushed
  pushed_lt : k.pushed < k.seenPopped + c.size
  length : k.popped + items.length = k.pushed
  slot : ∀ i (h : i < items.length), q.slots (c.wrap (k.popped + i)) = items[i]

/-- The queue holds these items, oldest first. -/
def SPSCQueue.Holds {T : Type u} (c : Capacity) (q : SPSCQueue T) (items : List T) : Prop :=
  ∃ k, Tracks c q k items

namespace Tracks

open SPSCQueue

variable {T : Type u} {c : Capacity} {q : SPSCQueue T} {k : Counters} {items : List T}

lemma empty [Inhabited T] : Tracks c (SPSCQueue.empty (T := T)) {} [] where
  head := c.wrap_zero.symm
  cachedTail := c.wrap_zero.symm
  tail := c.wrap_zero.symm
  cachedHead := c.wrap_zero.symm
  seenPopped_le := Nat.le_refl 0
  popped_le := Nat.le_refl 0
  seenPushed_le := Nat.le_refl 0
  pushed_lt := by simpa using c.size_pos
  length := rfl
  slot := fun i h => absurd h (Nat.not_lt_zero i)

/-- `size_approx()` is the number of items. -/
lemma toNat_sizeApprox (h : Tracks c q k items) : (q.sizeApprox c).toNat = items.length := by
  have hlen := h.length
  have hlt := h.pushed_lt
  have hseen := h.seenPopped_le
  rw [sizeApprox, h.head, h.tail, c.toNat_distance (by omega) (by omega)]
  omega

/-- The queue looks full. -/
lemma next_head_eq_iff (h : Tracks c q k items) :
    c.next q.head = q.cachedTail ↔ k.pushed + 1 = k.seenPopped + c.size := by
  have hlen := h.length
  have hseen := h.seenPopped_le
  rw [h.head, h.cachedTail, c.next_wrap, c.wrap_succ_eq_iff (by omega) h.pushed_lt]

/-- The queue looks empty. -/
lemma tail_eq_iff (h : Tracks c q k items) : q.tail = q.cachedHead ↔ k.popped = k.seenPushed := by
  have hle := h.seenPushed_le
  have hlt := h.pushed_lt
  have hseen := h.seenPopped_le
  rw [h.tail, h.cachedHead, c.wrap_inj h.popped_le (by omega)]

/-! The steps of the two functions. -/

lemma refreshTail (h : Tracks c q k items) :
    Tracks c { q with cachedTail := q.tail } { k with seenPopped := k.popped } items :=
  { h with
    cachedTail := h.tail
    seenPopped_le := Nat.le_refl _
    pushed_lt := Nat.lt_of_lt_of_le h.pushed_lt (Nat.add_le_add_right h.seenPopped_le _) }

lemma refreshHead (h : Tracks c q k items) :
    Tracks c { q with cachedHead := q.head } { k with seenPushed := k.pushed } items :=
  { h with
    cachedHead := h.head
    popped_le := Nat.le_trans h.popped_le h.seenPushed_le
    seenPushed_le := Nat.le_refl _ }

/-- The slot at `head` holds no item. -/
lemma head_ne (h : Tracks c q k items) {i : Nat} (hi : i < items.length) :
    c.wrap (k.popped + i) ≠ c.wrap k.pushed := by
  have hlen := h.length
  have hlt := h.pushed_lt
  have hseen := h.seenPopped_le
  rw [Ne, c.wrap_inj (by omega) (by omega)]
  omega

lemma writeSlot (h : Tracks c q k items) (item : T) :
    Tracks c (q.writeSlot (c.wrap k.pushed) item) k items :=
  { h with
    slot := fun i hi => by
      simp only [SPSCQueue.writeSlot, if_neg (h.head_ne hi)]
      exact h.slot i hi }

/-- The item at `head` gets in. -/
lemma storeHead (h : Tracks c q k items) {item : T} (hfree : k.pushed + 1 < k.seenPopped + c.size)
    (hitem : q.slots (c.wrap k.pushed) = item) :
    Tracks c { q with head := c.wrap (k.pushed + 1) } { k with pushed := k.pushed + 1 }
      (items ++ [item]) :=
  { h with
    head := rfl
    seenPushed_le := Nat.le_succ_of_le h.seenPushed_le
    pushed_lt := hfree
    length := by
      have hlen := h.length
      simp only [List.length_append, List.length_singleton]
      omega
    slot := fun i hi => by
      have hlen := h.length
      rcases Nat.lt_or_ge i items.length with hold | hnew
      · rw [List.getElem_append_left hold]
        exact h.slot i hold
      · rw [List.length_append, List.length_singleton] at hi
        obtain rfl : i = items.length := by omega
        rw [List.getElem_concat_length rfl, hlen]
        exact hitem }

lemma ne_nil (h : Tracks c q k items) (hseen : k.popped < k.seenPushed) : items ≠ [] := by
  rintro rfl
  have hlen := h.length
  have hle := h.seenPushed_le
  simp only [List.length_nil] at hlen
  omega

/-- The item at `tail` gets out. -/
lemma storeTail {item : T} (h : Tracks c q k (item :: items)) (hseen : k.popped < k.seenPushed) :
    Tracks c { q with tail := c.wrap (k.popped + 1) } { k with popped := k.popped + 1 } items :=
  { h with
    tail := rfl
    seenPopped_le := Nat.le_succ_of_le h.seenPopped_le
    popped_le := hseen
    length := by
      have hlen := h.length
      rw [List.length_cons] at hlen
      change k.popped + 1 + items.length = k.pushed
      omega
    slot := fun i hi => by
      have hslot := h.slot (i + 1) (Nat.succ_lt_succ hi)
      rwa [List.getElem_cons_succ, ← Nat.add_assoc, Nat.add_right_comm] at hslot }

lemma slot_tail {item : T} (h : Tracks c q k (item :: items)) :
    q.slots (c.wrap k.popped) = item := h.slot 0 (Nat.succ_pos _)

lemma push (h : Tracks c q k items) (item : T) (hfree : k.pushed + 1 < k.seenPopped + c.size) :
    { q.writeSlot q.head item with head := c.next q.head }.Holds c (items ++ [item]) := by
  have hwrite := (h.writeSlot item).storeHead hfree (if_pos rfl)
  rw [← c.next_wrap, ← h.head] at hwrite
  exact ⟨_, hwrite⟩

lemma pop {item : T} (h : Tracks c q k (item :: items)) (hseen : k.popped < k.seenPushed) :
    { q with tail := c.next q.tail }.Holds c items := by
  have hstore := h.storeTail hseen
  rw [← c.next_wrap, ← h.tail] at hstore
  exact ⟨_, hstore⟩

end Tracks

/-! ## One call at a time -/

namespace SPSCQueue.Holds

variable {T : Type u} {c : Capacity} {q : SPSCQueue T} {items : List T}

lemma empty [Inhabited T] : (SPSCQueue.empty (T := T)).Holds c [] := ⟨{}, .empty⟩

lemma length_lt (h : q.Holds c items) : items.length < c.size := by
  obtain ⟨k, h⟩ := h
  have hlen := h.length
  have hlt := h.pushed_lt
  have hseen := h.seenPopped_le
  omega

/-- **`try_push`** appends the item, unless `Capacity - 1` items are held. -/
theorem tryPush_spec (h : q.Holds c items) (item : T) :
    if items.length + 1 < c.size then
      (q.tryPush c item).1 = true ∧ (q.tryPush c item).2.Holds c (items ++ [item])
    else (q.tryPush c item).1 = false ∧ (q.tryPush c item).2.Holds c items := by
  obtain ⟨k, h⟩ := h
  have hlen := h.length
  have hlt := h.pushed_lt
  have hseen := h.seenPopped_le
  have hlooks := h.next_head_eq_iff
  have hrefresh := h.refreshTail
  have hfull := hrefresh.next_head_eq_iff
  simp only at hfull
  simp only [tryPush]
  split_ifs with hfree hlook hlook' hlook hlook'
  · exact absurd (hfull.mp hlook') (by omega)
  · exact ⟨rfl, hrefresh.push item (by simp only; omega)⟩
  · exact ⟨rfl, h.push item (by rw [hlooks] at hlook; omega)⟩
  · exact ⟨rfl, _, hrefresh⟩
  · rw [hfull] at hlook'; omega
  · rw [hlooks] at hlook; omega

/-- **`try_pop`** takes the oldest item, if there is one. -/
theorem tryPop_spec (h : q.Holds c items) :
    (q.tryPop c).1 = items.head? ∧ (q.tryPop c).2.Holds c items.tail := by
  obtain ⟨k, h⟩ := h
  have hlen := h.length
  have hle := h.seenPushed_le
  have hle' := h.popped_le
  have hlooks := h.tail_eq_iff
  have hrefresh := h.refreshHead
  have hempty := hrefresh.tail_eq_iff
  simp only at hempty
  simp only [tryPop]
  cases items with
  | nil =>
      rw [List.length_nil] at hlen
      rw [if_pos (hlooks.mpr (by omega)), if_pos (hempty.mpr (by omega))]
      exact ⟨rfl, _, hrefresh⟩
  | cons item items =>
      rw [List.length_cons] at hlen
      split_ifs with hlook hlook'
      · exact absurd (hempty.mp hlook') (by omega)
      · exact ⟨by rw [h.tail, h.slot_tail]; rfl, hrefresh.pop (by simp only; omega)⟩
      · exact ⟨by rw [h.tail, h.slot_tail]; rfl, h.pop (by rw [hlooks] at hlook; omega)⟩

end SPSCQueue.Holds
end Exchange
