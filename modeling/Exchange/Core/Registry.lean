import Mathlib.Data.List.AList

/-!
# Owned objects and plain pointers to them

Objects live at addresses.  One map owns them, another holds plain pointers to the same objects,
both by key, as with `std::unordered_map<K, std::unique_ptr<T>>` beside
`std::unordered_map<K, T *>`.  Overwriting an entry of the first destroys the object it owned;
nothing tells the second.

`Registry` carries what makes this safe: the pointers are those of the owners, what is owned is
alive, and no object has two owners.  Then the registry is a map from keys to objects, `get?`, and
each operation is what it should be on that map (`get?_add`, `get?_modify`, `get?_forEach`).
-/

namespace Exchange

universe u v

structure Registry (κ : Type u) [DecidableEq κ] (β : Type v) where
  /-- the objects that are alive -/
  heap : Nat → Option β
  fresh : Nat
  owners : AList fun _ : κ => Nat
  pointers : AList fun _ : κ => Nat
  pointers_eq : ∀ k, pointers.lookup k = owners.lookup k
  alive : ∀ k a, owners.lookup k = some a → (heap a).isSome
  lt_fresh : ∀ k a, owners.lookup k = some a → a < fresh
  unique : ∀ k k' a, owners.lookup k = some a → owners.lookup k' = some a → k = k'

namespace Registry

variable {κ : Type u} [DecidableEq κ] {β : Type v}

theorem lookup_insert_ite (m : AList fun _ : κ => Nat) (k k' : κ) (a : Nat) :
    (m.insert k a).lookup k' = if k' = k then some a else m.lookup k' := by
  by_cases h : k' = k
  · rw [if_pos h, h, AList.lookup_insert]
  · rw [if_neg h, AList.lookup_insert_ne h]

def empty : Registry κ β where
  heap := fun _ => none
  fresh := 0
  owners := ∅
  pointers := ∅
  pointers_eq _ := rfl
  alive _ _ h := by cases h
  lt_fresh _ _ h := by cases h
  unique _ _ _ h := by cases h

/-- The pointer under a key, with what it points to. -/
def find? (r : Registry κ β) (k : κ) : Option (Nat × β) :=
  (r.pointers.lookup k).bind fun a => (r.heap a).map (a, ·)

def get? (r : Registry κ β) (k : κ) : Option β := (r.find? k).map Prod.snd

variable {r : Registry κ β} {k k' : κ} {a : Nat} {x : β}

theorem find?_eq_some_iff :
    r.find? k = some (a, x) ↔ r.owners.lookup k = some a ∧ r.heap a = some x := by
  rw [find?, r.pointers_eq]
  cases r.owners.lookup k with
  | none => simp
  | some a' =>
      simp only [Option.bind_some, Option.map_eq_some_iff, Prod.mk.injEq, Option.some.injEq]
      constructor
      · rintro ⟨x', hx', rfl, rfl⟩
        exact ⟨rfl, hx'⟩
      · rintro ⟨rfl, hx⟩
        exact ⟨x, hx, rfl, rfl⟩

theorem get?_eq_bind : r.get? k = (r.owners.lookup k).bind r.heap := by
  rw [get?, find?, r.pointers_eq]
  cases r.owners.lookup k with
  | none => rfl
  | some a => simp only [Option.bind_some, Option.map_map, Function.comp_def, Option.map_id']

theorem get?_eq_some_iff : r.get? k = some x ↔ ∃ a, r.find? k = some (a, x) := by
  simp [get?]

theorem get?_eq_none_iff : r.get? k = none ↔ r.find? k = none := by
  rw [get?, Option.map_eq_none_iff]

/-! ## Adding -/

/-- A new object under a key.  The pointer is overwritten first, then the owner. -/
def add (r : Registry κ β) (k : κ) (x : β) : Registry κ β where
  heap := fun a =>
    if a = r.fresh then some x else if r.owners.lookup k = some a then none else r.heap a
  fresh := r.fresh + 1
  owners := r.owners.insert k r.fresh
  pointers := r.pointers.insert k r.fresh
  pointers_eq k' := by rw [lookup_insert_ite, lookup_insert_ite, r.pointers_eq]
  alive k' a h := by
    rw [lookup_insert_ite] at h
    by_cases hk : k' = k
    · rw [if_pos hk] at h
      rw [if_pos (Option.some.inj h).symm, Option.isSome_some]
    · rw [if_neg hk] at h
      have hne : a ≠ r.fresh := Nat.ne_of_lt (r.lt_fresh k' a h)
      have hkept : r.owners.lookup k ≠ some a := fun h' => hk (r.unique k' k a h h')
      rw [if_neg hne, if_neg hkept]
      exact r.alive k' a h
  lt_fresh k' a h := by
    rw [lookup_insert_ite] at h
    split_ifs at h
    · cases h
      exact Nat.lt_succ_self _
    · exact Nat.lt_succ_of_lt (r.lt_fresh k' a h)
  unique k' k'' a h h' := by
    rw [lookup_insert_ite] at h h'
    split_ifs at h h' with hk hk' hk'
    · rw [hk, hk']
    · cases h
      exact absurd (r.lt_fresh _ _ h') (Nat.lt_irrefl _)
    · cases h'
      exact absurd (r.lt_fresh _ _ h) (Nat.lt_irrefl _)
    · exact r.unique k' k'' a h h'

theorem get?_add (r : Registry κ β) (k : κ) (x : β) (k' : κ) :
    (r.add k x).get? k' = if k' = k then some x else r.get? k' := by
  rw [get?_eq_bind, get?_eq_bind, add]
  simp only [lookup_insert_ite]
  by_cases hk : k' = k
  · simp [hk]
  · simp only [if_neg hk]
    cases ha : r.owners.lookup k' with
    | none => rfl
    | some a =>
        have hne : a ≠ r.fresh := Nat.ne_of_lt (r.lt_fresh k' a ha)
        have hkept : r.owners.lookup k ≠ some a := fun h => hk (r.unique k' k a ha h)
        simp only [Option.bind_some, if_neg hne, if_neg hkept]

/-! ## Writing through a pointer -/

def modify (r : Registry κ β) (a : Nat) (f : β → β) : Registry κ β :=
  { r with
    heap := fun a' => if a' = a then (r.heap a').map f else r.heap a'
    alive := fun k a' h => by
      have := r.alive k a' h
      split_ifs
      · rwa [Option.isSome_map]
      · exact this }

theorem get?_modify (h : r.find? k = some (a, x)) (f : β → β) (k' : κ) :
    (r.modify a f).get? k' = if k' = k then some (f x) else r.get? k' := by
  obtain ⟨ha, hx⟩ := find?_eq_some_iff.mp h
  rw [get?_eq_bind, get?_eq_bind, modify]
  by_cases hk : k' = k
  · subst hk
    simp [ha, hx]
  · rw [if_neg hk]
    cases ha' : r.owners.lookup k' with
    | none => rfl
    | some a' =>
        have hne : a' ≠ a := fun heq => hk (r.unique k' k a (heq ▸ ha') ha)
        simp only [Option.bind_some, if_neg hne]

/-! ## Writing to all objects -/

/-- The loop over the owners. -/
def forEach (r : Registry κ β) (f : β → β) : Registry κ β :=
  { r with
    heap := fun a => if r.owners.entries.any (·.2 == a) then (r.heap a).map f else r.heap a
    alive := fun k a h => by
      have := r.alive k a h
      split_ifs
      · rwa [Option.isSome_map]
      · exact this }

theorem get?_forEach (r : Registry κ β) (f : β → β) (k : κ) :
    (r.forEach f).get? k = (r.get? k).map f := by
  rw [get?_eq_bind, get?_eq_bind, forEach]
  cases ha : r.owners.lookup k with
  | none => rfl
  | some a =>
      have hmem : r.owners.entries.any (·.2 == a) = true :=
        List.any_eq_true.mpr ⟨⟨k, a⟩, AList.mem_lookup_iff.mp ha, by simp⟩
      simp only [Option.bind_some, if_pos hmem]

end Registry

end Exchange
