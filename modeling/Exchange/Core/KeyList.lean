import Mathlib.Data.List.Nodup
import Mathlib.Tactic.SplitIfs

/-!
# The key list of an ordered map

`std::map` is `Std.ExtTreeMap`: its `keys` are the keys in iteration order, so `begin()->first` is
`keys.head?` and `rbegin()->first` is `keys.getLast?`.  What is missing from the library is how that
list moves with the map: a key list is determined by its members (`keys_eq_of_mem_iff`), so erasing
an entry filters it (`keys_erase`), and its two ends are the extreme keys.
-/

namespace Exchange.KeyList

open Std (ExtTreeMap TransCmp LawfulEqCmp OrientedCmp)

variable {α : Type*} {β : Type*} {cmp : α → α → Ordering} [TransCmp cmp]
  {m : ExtTreeMap α β cmp} {k : α}

lemma cmp_lt_asymm {a b : α} (h : cmp a b = .lt) : cmp b a ≠ .lt := by
  rw [@OrientedCmp.eq_swap α cmp _ b a, h]
  simp

lemma mem_iff_exists_getElem? : k ∈ m ↔ ∃ v, m[k]? = some v := by
  rw [ExtTreeMap.mem_iff_isSome_getElem?, Option.isSome_iff_exists]

/-- Overwriting an entry adds none. -/
lemma size_insert_of_mem (hk : k ∈ m) (v : β) : (m.insert k v).size = m.size := by
  rw [ExtTreeMap.size_insert, if_pos (ExtTreeMap.contains_iff_mem.mpr hk)]

lemma size_erase_of_mem (hk : k ∈ m) : (m.erase k).size + 1 = m.size := by
  have hpos : m.size ≠ 0 := by
    intro h0
    rw [← ExtTreeMap.eq_empty_iff_size_eq_zero] at h0
    rw [h0] at hk
    exact absurd hk ExtTreeMap.not_mem_empty
  rw [ExtTreeMap.size_erase, if_pos (ExtTreeMap.contains_iff_mem.mpr hk)]
  omega

variable [LawfulEqCmp cmp]

/-- **A sorted list is its set of members.** -/
theorem keys_eq_of_mem_iff {l : List α} (hl : l.Pairwise fun a b => cmp a b = .lt)
    (h : ∀ a, a ∈ m ↔ a ∈ l) : m.keys = l := by
  have hnd : l.Nodup := hl.imp fun {a b} hab heq => by
    subst heq
    exact cmp_lt_asymm hab hab
  have hperm : m.keys.Perm l := by
    rw [List.perm_ext_iff_of_nodup ExtTreeMap.nodup_keys hnd]
    intro a
    rw [ExtTreeMap.mem_keys, h]
  refine List.Perm.eq_of_pairwise ?_ ExtTreeMap.ordered_keys hl hperm
  exact fun a b _ _ hab hba => absurd hba (cmp_lt_asymm hab)

lemma keys_erase [DecidableEq α] : (m.erase k).keys = m.keys.filter (· ≠ k) := by
  refine keys_eq_of_mem_iff (List.Pairwise.filter _ ExtTreeMap.ordered_keys) fun a => ?_
  rw [ExtTreeMap.mem_erase, List.mem_filter, ExtTreeMap.mem_keys, ne_eq,
    LawfulEqCmp.compare_eq_iff_eq]
  simp only [ne_eq, decide_eq_true_eq]
  rw [and_comm, eq_comm]

/-- The first key is the least one. -/
lemma head?_keys_eq_some :
    m.keys.head? = some k ↔ k ∈ m ∧ ∀ a ∈ m, a ≠ k → cmp k a = .lt := by
  have hord := ExtTreeMap.ordered_keys (t := m)
  simp only [← ExtTreeMap.mem_keys]
  cases hkeys : m.keys with
  | nil => simp
  | cons b bs =>
      rw [hkeys] at hord
      have hb := (List.pairwise_cons.mp hord).1
      rw [List.head?_cons]
      constructor
      · rintro ⟨⟩
        refine ⟨List.mem_cons_self, fun a ha hne => ?_⟩
        exact hb a ((List.mem_cons.mp ha).resolve_left hne)
      · rintro ⟨hk, hmin⟩
        rcases List.mem_cons.mp hk with rfl | hk
        · rfl
        · have hbk := hb k hk
          by_cases hne : b = k
          · rw [hne]
          · exact absurd (hmin b List.mem_cons_self hne) (cmp_lt_asymm hbk)

/-- The last key is the greatest one. -/
lemma getLast?_keys_eq_some :
    m.keys.getLast? = some k ↔ k ∈ m ∧ ∀ a ∈ m, a ≠ k → cmp a k = .lt := by
  have hord := ExtTreeMap.ordered_keys (t := m)
  simp only [← ExtTreeMap.mem_keys]
  rcases List.eq_nil_or_concat m.keys with hkeys | ⟨bs, b, hkeys⟩
  · simp [hkeys]
  · rw [List.concat_eq_append] at hkeys
    rw [hkeys] at hord ⊢
    have hb : ∀ a ∈ bs, cmp a b = .lt := fun a ha =>
      (List.pairwise_append.mp hord).2.2 a ha b List.mem_cons_self
    rw [List.getLast?_concat]
    constructor
    · rintro ⟨⟩
      refine ⟨by simp, fun a ha hne => ?_⟩
      rcases List.mem_append.mp ha with ha | ha
      · exact hb a ha
      · exact absurd (List.mem_singleton.mp ha) hne
    · rintro ⟨hk, hmax⟩
      rcases List.mem_append.mp hk with hk | hk
      · by_cases hne : b = k
        · rw [hne]
        · exact absurd (hmax b (by simp) hne) (cmp_lt_asymm (hb k hk))
      · rw [List.mem_singleton.mp hk]

theorem keys_eq_nil_iff : m.keys = [] ↔ ∀ k, k ∉ m := by
  simp only [List.eq_nil_iff_forall_not_mem, ExtTreeMap.mem_keys]

end Exchange.KeyList
