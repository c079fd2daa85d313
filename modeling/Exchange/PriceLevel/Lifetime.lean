import Exchange.PriceLevel.Fifo

/-!
# Levels that come and go

The constructors, the destructor and the assignment of `engine/price_level.cpp`, with any number of
levels whose nodes are in one heap.  A level that has been moved from has no nodes; what is left in
its index the language does not say.

**`levels_come_and_go`** — however levels are created, moved, assigned to, called and destroyed, as
long as no id is added twice to one list and no index left over by a move is used, no node is
deleted twice or used after that, each level holds the list that was moved to it, every node alive
is in the chain of one level, and when the last level is gone the heap is as it was before the
first.
-/

namespace Exchange.Pointers

open Function (update)
open Run (Admitted run outputs)
open Std (ExtTreeMap)

/-! ## Objects -/

/-- The members of the class, without the heap. -/
structure Members where
  price : Price
  totalQuantity : Quantity := 0
  orderCount : Nat := 0
  head : Pointer := none
  tail : Pointer := none
  nodeIndex : ExtTreeMap OrderId Addr compare := ∅

def Members.on (p : Members) (heap : Heap) : PriceLevel :=
  { p with heap }

def PriceLevel.members (p : PriceLevel) : Members :=
  { p with }

/-- The heap, and the objects of the class that are within their lifetime. -/
structure Memory where
  heap : Heap
  levels : Nat → Option Members := fun _ => none

inductive ObjectOp
  | create (x : Nat) (price : Price)
  | destroy (x : Nat)
  /-- `PriceLevel x(std::move(y))`; `left` is what is then in the index of `y`. -/
  | moveConstruct (x y : Nat) (left : ExtTreeMap OrderId Addr compare)
  /-- `x = std::move(y)` -/
  | moveAssign (x y : Nat) (left : ExtTreeMap OrderId Addr compare)
  | call (x : Nat) (c : LevelCall)

/-- The loop of the destructor; one that is not over after `fuel` nodes has no result. -/
def deleteChain (heap : Heap) : Nat → Pointer → Option Heap
  | _, none => some heap
  | 0, some _ => none
  | fuel + 1, some cur => do
      let n ← heap cur
      deleteChain (update heap cur none) fuel n.next

namespace Members

variable (p : Members)

/-- The nodes that are linked are those that have been counted. -/
def deleteNodes (heap : Heap) : Option Heap := deleteChain heap p.orderCount p.head

/-- What a move leaves behind. -/
def movedFrom (left : ExtTreeMap OrderId Addr compare) : Members :=
  { price := p.price, nodeIndex := left }

end Members

namespace Memory

variable (m : Memory)

def create (x : Nat) (price : Price) : Memory :=
  { m with levels := update m.levels x (some { price }) }

def destroy (x : Nat) : Option Memory := do
  let p ← m.levels x
  let heap ← p.deleteNodes m.heap
  some { heap, levels := update m.levels x none }

def moveConstruct (x y : Nat) (left : ExtTreeMap OrderId Addr compare) : Option Memory := do
  let other ← m.levels y
  some { m with
    levels := update (update m.levels x (some other)) y (some (other.movedFrom left)) }

def moveAssign (x y : Nat) (left : ExtTreeMap OrderId Addr compare) : Option Memory :=
  if x = y then some m
  else do
    let this ← m.levels x
    let other ← m.levels y
    let heap ← this.deleteNodes m.heap
    some {
      heap
      levels := update (update m.levels x (some other)) y (some (other.movedFrom left)) }

def call (x : Nat) (c : LevelCall) : Option (Memory × Option Bool) := do
  let this ← m.levels x
  let (p, answer) ← (this.on m.heap).call c
  some ({ heap := p.heap, levels := update m.levels x (some p.members) }, answer)

/-- The memory after an operation, and what a call returns. -/
def apply : ObjectOp → Option (Memory × Option Bool)
  | .create x price => some (m.create x price, none)
  | .destroy x => (m.destroy x).map (·, none)
  | .moveConstruct x y left => (m.moveConstruct x y left).map (·, none)
  | .moveAssign x y left => (m.moveAssign x y left).map (·, none)
  | .call x c => m.call x c

/-- An operation, where nothing undefined has happened before. -/
def applyNext (s : Option Memory) (op : ObjectOp) : Option Memory :=
  s.bind fun m => (m.apply op).map (·.1)

def answer (s : Option Memory) (op : ObjectOp) : Option (Option Bool) :=
  s.bind fun m => (m.apply op).map (·.2)

/-- `new` returns what is not alive. -/
def Allocates (s : Option Memory) : ObjectOp → Prop
  | .call _ (.addOrder node _ _) => ∀ m ∈ s, m.heap node = none
  | _ => True

end Memory

instance (s : Option Memory) : (op : ObjectOp) → Decidable (Memory.Allocates s op)
  | .call _ (.addOrder node _ _) => inferInstanceAs (Decidable (∀ m ∈ s, m.heap node = none))
  | .call _ (.removeOrder _) | .call _ (.modifyQuantity _ _) | .call _ .popFront
  | .call _ (.fillFront _) | .create _ _ | .destroy _ | .moveConstruct _ _ _
  | .moveAssign _ _ _ => isTrue trivial

/-! ## Prices -/

namespace PriceLevel

variable {p p' : PriceLevel} {node : Addr} {q r : Pointer}

lemma price_assign {f : OrderNode → OrderNode} (h : p.assign node f = some p') :
    p'.price = p.price := by
  obtain ⟨n, -, heq⟩ := Option.bind_eq_some_iff.mp h
  cases heq
  rfl

lemma price_delete (h : p.delete node = some p') : p'.price = p.price := by
  obtain ⟨n, -, heq⟩ := Option.bind_eq_some_iff.mp h
  cases heq
  rfl

lemma price_setNext (h : p.setNext q r = some p') : p'.price = p.price := by
  cases q with
  | none =>
      cases h
      rfl
  | some node => exact price_assign h

lemma price_setPrev (h : p.setPrev q r = some p') : p'.price = p.price := by
  cases q with
  | none =>
      cases h
      rfl
  | some node => exact price_assign h

lemma price_unlink (h : p.unlink node = some p') : p'.price = p.price := by
  obtain ⟨n, -, h⟩ := Option.bind_eq_some_iff.mp h
  obtain ⟨p₁, h₁, h⟩ := Option.bind_eq_some_iff.mp h
  obtain ⟨n, -, h⟩ := Option.bind_eq_some_iff.mp h
  rw [price_setPrev h, price_setNext h₁]

lemma price_popFront (h : p.popFront = some p') : p'.price = p.price := by
  rw [popFront] at h
  split at h
  · cases h
    rfl
  · obtain ⟨n, -, h⟩ := Option.bind_eq_some_iff.mp h
    obtain ⟨p₁, h₁, h⟩ := Option.bind_eq_some_iff.mp h
    obtain ⟨n, -, h⟩ := Option.bind_eq_some_iff.mp h
    rw [price_delete h]
    exact (price_setPrev h₁ :)

/-- No call writes the price. -/
lemma price_call {c : LevelCall} {answer : Option Bool} (hcall : p.call c = some (p', answer)) :
    p'.price = p.price := by
  cases c with
  | addOrder node id q =>
      obtain ⟨p₀, h, heq⟩ := Option.map_eq_some_iff.mp hcall
      cases heq
      obtain ⟨p₁, h₁, h⟩ := Option.bind_eq_some_iff.mp h
      obtain ⟨p₂, h₂, h⟩ := Option.bind_eq_some_iff.mp h
      obtain ⟨p₃, h₃, h⟩ := Option.bind_eq_some_iff.mp h
      cases h
      show p₃.price = _
      rw [price_setNext h₃, price_assign h₂]
      exact (price_assign h₁ :)
  | removeOrder id =>
      obtain ⟨⟨found, p₀⟩, h, heq⟩ := Option.map_eq_some_iff.mp hcall
      cases heq
      rw [removeOrder] at h
      split at h
      · cases h
        rfl
      · obtain ⟨n, -, h⟩ := Option.bind_eq_some_iff.mp h
        obtain ⟨p₁, h₁, h⟩ := Option.bind_eq_some_iff.mp h
        obtain ⟨p₂, h₂, h⟩ := Option.bind_eq_some_iff.mp h
        cases h
        rw [price_delete h₂]
        exact (price_unlink h₁ :)
  | modifyQuantity id q =>
      obtain ⟨⟨found, p₀⟩, h, heq⟩ := Option.map_eq_some_iff.mp hcall
      cases heq
      rw [modifyQuantity] at h
      split at h
      · cases h
        rfl
      · obtain ⟨n, -, h⟩ := Option.bind_eq_some_iff.mp h
        obtain ⟨p₁, h₁, h⟩ := Option.bind_eq_some_iff.mp h
        cases h
        exact (price_assign h₁ :)
  | popFront =>
      obtain ⟨p₀, h, heq⟩ := Option.map_eq_some_iff.mp hcall
      cases heq
      exact price_popFront h
  | fillFront qty =>
      obtain ⟨p₀, h, heq⟩ := Option.map_eq_some_iff.mp hcall
      cases heq
      rw [fillFront] at h
      split at h
      · cases h
        rfl
      · obtain ⟨n, -, h⟩ := Option.bind_eq_some_iff.mp h
        split_ifs at h
        · exact price_popFront h
        · exact (price_assign h :)

end PriceLevel

/-! ## What they stand for -/

/-- A list with its price, or a level whose index cannot be relied on. -/
inductive Content
  | list (price : Price) (xs : Fifo)
  | spent

/-- The levels as lists. -/
abbrev Shelf := Nat → Option Content

namespace Shelf

variable (s : Shelf)

/-- What is left of `c`. -/
def leave (left : ExtTreeMap OrderId Addr compare) : Content → Content
  | .list price _ => if left.isEmpty then .list price [] else .spent
  | .spent => .spent

def move (x y : Nat) (left : ExtTreeMap OrderId Addr compare) : Shelf :=
  update (update s x (s y)) y ((s y).map (leave left))

def step : ObjectOp → Shelf
  | .create x price => update s x (some (.list price []))
  | .destroy x => update s x none
  | .moveConstruct x y left => s.move x y left
  | .moveAssign x y left => if x = y then s else s.move x y left
  | .call x c =>
      match s x with
      | some (.list price xs) => update s x (some (.list price (xs.callNext c)))
      | _ => s

def answer : ObjectOp → Option (Option Bool)
  | .call x c =>
      match s x with
      | some (.list _ xs) => xs.answer c
      | _ => some none
  | _ => some none

/-- The program keeps to lifetimes, and calls no level it has moved from while its index is not
empty. -/
def Allowed : ObjectOp → Prop
  | .create x _ => s x = none
  | .destroy x => s x ≠ none
  | .moveConstruct x y _ => s x = none ∧ s y ≠ none
  | .moveAssign x y _ => s x ≠ none ∧ s y ≠ none
  | .call x c =>
      match s x with
      | some (.list _ xs) => xs.Allowed c
      | _ => False

end Shelf

instance (s : Shelf) : (op : ObjectOp) → Decidable (s.Allowed op)
  | .create x _ => inferInstanceAs (Decidable (s x = none))
  | .destroy x => inferInstanceAs (Decidable (s x ≠ none))
  | .moveConstruct x y _ => inferInstanceAs (Decidable (s x = none ∧ s y ≠ none))
  | .moveAssign x y _ => inferInstanceAs (Decidable (s x ≠ none ∧ s y ≠ none))
  | .call x c =>
      match hx : s x with
      | some (.list _ xs) => decidable_of_iff (xs.Allowed c) (by rw [Shelf.Allowed, hx])
      | some .spent => isFalse (by rw [Shelf.Allowed, hx]; exact id)
      | none => isFalse (by rw [Shelf.Allowed, hx]; exact id)

/-! ## Chains in one heap -/

/-- The heap without some of its nodes. -/
def hide (addrs : List Addr) (heap : Heap) : Heap := fun a => if a ∈ addrs then none else heap a

variable {outside heap heap' : Heap} {p : Members} {l : Exchange.PriceLevel} {r : Pointer}
  {addrs : List Addr} {a : Addr}

lemma hide_nil (heap : Heap) : hide [] heap = heap := funext fun _ => if_neg List.not_mem_nil

lemma Follows.frame {link : OrderNode → Pointer} (h : Follows heap link r addrs)
    (hsame : ∀ a ∈ addrs, heap' a = heap a) : Follows heap' link r addrs := by
  induction h with
  | null => exact .null
  | node alive rest ih =>
      rw [List.forall_mem_cons] at hsame
      exact .node (hsame.1.trans alive) (ih hsame.2)

/-- **The destructor deletes the chain, and nothing else.** -/
theorem deleteChain_eq (h : Follows heap (·.next) r addrs) (hnodup : addrs.Nodup) {fuel : Nat}
    (hfuel : addrs.length ≤ fuel) : deleteChain heap fuel r = some (hide addrs heap) := by
  induction addrs generalizing heap r fuel with
  | nil =>
      cases h
      rw [deleteChain, hide_nil]
  | cons a addrs ih =>
      cases h with
      | @node _ n _ alive rest =>
          obtain ⟨hnew, hnodup⟩ := List.nodup_cons.mp hnodup
          rw [List.length_cons] at hfuel
          obtain ⟨fuel, rfl⟩ : ∃ n, fuel = n + 1 := Nat.exists_eq_add_one.mpr (by omega)
          have hrest : Follows (update heap a none) (·.next) n.next addrs := by
            refine rest.frame fun b hb => Function.update_of_ne ?_ _ _
            rintro rfl
            exact hnew hb
          rw [deleteChain, alive, Option.bind_eq_bind, Option.bind_some,
            ih hrest hnodup (by omega)]
          congr 1
          funext b
          by_cases hb : b = a
          · subst hb
            simp [hide]
          · simp [hide, hb]

/-- A level is held by its own nodes only. -/
lemma Represents.frame (h : Represents outside (p.on heap) l)
    (hsame : ∀ n ∈ l.nodes, heap' n.addr = heap n.addr) :
    Represents (hide (l.nodes.map (·.addr)) heap') (p.on heap') l where
  ring := by
    have hplace : ∀ r ∈ none :: chain l, (p.on heap').nextOf r = (p.on heap).nextOf r ∧
        (p.on heap').prevOf r = (p.on heap).prevOf r := by
      intro r hr
      cases r with
      | none => exact ⟨rfl, rfl⟩
      | some a =>
          obtain ⟨n, hn, rfl⟩ := mem_chain.mp ((List.mem_cons.mp hr).resolve_left nofun)
          simp [PriceLevel.nextOf, PriceLevel.prevOf, Members.on, hsame n hn]
    exact h.ring.congr (fun r hr => (hplace r hr).1) fun r hr => (hplace r hr).2
  content n hn := by
    rw [← h.content n hn]
    exact congrArg (Option.map _) (hsame n hn)
  elsewhere a ha := by
    refine (if_neg fun hin => ?_).symm
    obtain ⟨n, hn, heq⟩ := List.mem_map.mp hin
    exact ha n hn heq
  taken n hn := if_pos (List.mem_map_of_mem hn)
  price_eq := h.price_eq
  totalQuantity_eq := h.totalQuantity_eq
  orderCount_eq := h.orderCount_eq
  nodeIndex_eq := h.nodeIndex_eq

/-- In the heap, the members hold the content, in the nodes at `addrs`. -/
inductive Held (heap : Heap) (p : Members) : Content → List Addr → Prop
  | list {l : Exchange.PriceLevel} (price_eq : p.price = l.price)
      (represents : Represents (hide (l.nodes.map (·.addr)) heap) (p.on heap) l)
      (indexed : l.Indexed) : Held heap p (.list l.price (queue l)) (l.nodes.map (·.addr))
  | spent (head_eq : p.head = none) : Held heap p .spent []

lemma Held.frame {c : Content} (h : Held heap p c addrs) (hsame : ∀ a ∈ addrs, heap' a = heap a) :
    Held heap' p c addrs := by
  cases h with
  | list price_eq represents indexed =>
      exact .list price_eq (represents.frame fun n hn => hsame _ (List.mem_map_of_mem hn)) indexed
  | spent head_eq => exact .spent head_eq

lemma Held.deleteNodes {c : Content} (h : Held heap p c addrs) :
    p.deleteNodes heap = some (hide addrs heap) := by
  cases h with
  | list price_eq represents indexed =>
      have hholds := represents.holds indexed
      refine deleteChain_eq hholds.forward hholds.nodup ?_
      rw [show p.orderCount = _ from hholds.orderCount_eq, queue, List.length_map, List.length_map]
  | spent head_eq =>
      rw [Members.deleteNodes, head_eq]
      exact deleteChain_eq .null List.nodup_nil (Nat.zero_le _)

/-- What a move leaves behind holds no nodes. -/
lemma Held.movedFrom {c : Content} (h : Held heap p c addrs) (heap' : Heap)
    (left : ExtTreeMap OrderId Addr compare) :
    Held heap' (p.movedFrom left) (Shelf.leave left c) [] := by
  cases h with
  | list price_eq represents indexed =>
      rw [Shelf.leave]
      split_ifs with hempty
      · have hleft : left = ∅ := ExtTreeMap.isEmpty_iff.mp hempty
        rw [hleft, ← price_eq]
        exact .list (l := .new p.price) rfl (.new _ p.price) (.new p.price)
      · exact .spent rfl
  | spent => exact .spent rfl

/-! ## All levels -/

/-- A place for a level, with its nodes. -/
inductive Slot (heap : Heap) : Option Members → Option Content → List Addr → Prop
  | vacant : Slot heap none none []
  | level {p : Members} {c : Content} {addrs : List Addr} (held : Held heap p c addrs) :
      Slot heap (some p) (some c) addrs

/-- The objects hold their lists, each in nodes of its own; the rest of the heap is as `outside` has
it. -/
structure Arranged (outside : Heap) (m : Memory) (s : Shelf) (owned : Nat → List Addr) : Prop where
  slots : ∀ x, Slot m.heap (m.levels x) (s x) (owned x)
  apart : ∀ x y, x ≠ y → ∀ a ∈ owned x, a ∉ owned y
  elsewhere : ∀ a, (∀ x, a ∉ owned x) → m.heap a = outside a
  taken : ∀ x, ∀ a ∈ owned x, outside a = none

variable {m : Memory} {s : Shelf} {owned : Nat → List Addr} {x y : Nat} {p? : Option Members}
  {c? : Option Content}

lemma Slot.frame (h : Slot heap p? c? addrs) (hsame : ∀ a ∈ addrs, heap' a = heap a) :
    Slot heap' p? c? addrs := by
  cases h with
  | vacant => exact .vacant
  | level held => exact .level (held.frame hsame)

lemma Slot.exists_held (h : Slot heap p? c? addrs) (hc : c? ≠ none) :
    ∃ p c, p? = some p ∧ c? = some c ∧ Held heap p c addrs := by
  cases h with
  | vacant => exact absurd rfl hc
  | level held => exact ⟨_, _, rfl, rfl, held⟩

lemma Slot.addrs_eq_nil (h : Slot heap p? c? addrs) (hc : c? = none) : addrs = [] := by
  cases h with
  | vacant => rfl
  | level held => cases hc

/-- The nodes of a level are alive. -/
lemma Slot.alive (h : Slot heap p? c? addrs) (ha : a ∈ addrs) : heap a ≠ none := by
  cases h with
  | vacant => cases ha
  | level held =>
      cases held with
      | spent => cases ha
      | list price_eq represents indexed =>
          obtain ⟨n, hn, rfl⟩ := List.mem_map.mp ha
          obtain ⟨m, hm, -⟩ := PriceLevel.exists_heap (represents.content n hn)
          rw [show heap n.addr = some m from hm]
          nofun

/-- What is in place `x` is replaced. -/
lemma Arranged.set (h : Arranged outside m s owned) (hslot : Slot heap p? c? addrs)
    (hothers : ∀ y, y ≠ x → ∀ a ∈ owned y, heap a = m.heap a ∧ a ∉ addrs)
    (helsewhere : ∀ a, (∀ y, y ≠ x → a ∉ owned y) → a ∉ addrs → heap a = outside a)
    (htaken : ∀ a ∈ addrs, outside a = none) :
    Arranged outside { heap, levels := update m.levels x p? } (update s x c?)
      (update owned x addrs) where
  slots y := by
    by_cases hyx : y = x
    · subst hyx
      simpa using hslot
    · simpa [hyx] using (h.slots y).frame fun a ha => (hothers y hyx a ha).1
  apart y z hyz a ha := by
    by_cases hyx : y = x
    · subst hyx
      rw [Function.update_self] at ha
      rw [Function.update_of_ne hyz.symm]
      exact fun hin => (hothers z hyz.symm a hin).2 ha
    · rw [Function.update_of_ne hyx] at ha
      by_cases hzx : z = x
      · subst hzx
        rw [Function.update_self]
        exact (hothers y hyx a ha).2
      · rw [Function.update_of_ne hzx]
        exact h.apart y z hyz a ha
  elsewhere a ha := by
    refine helsewhere a (fun y hyx => ?_) ?_
    · simpa [hyx] using ha y
    · simpa using ha x
  taken y a ha := by
    by_cases hyx : y = x
    · subst hyx
      exact htaken a (by simpa using ha)
    · exact h.taken y a (by simpa [hyx] using ha)

theorem Arranged.create (h : Arranged outside m s owned) (hx : s x = none) (price : Price) :
    Arranged outside (m.create x price) (s.step (.create x price)) (update owned x []) := by
  have hgone : owned x = [] := (h.slots x).addrs_eq_nil hx
  refine h.set (.level (.list (l := .new price) rfl (.new _ price) (.new price)))
    (fun y _ a _ => ⟨rfl, List.not_mem_nil⟩) (fun a ha _ => h.elsewhere a fun y => ?_) nofun
  by_cases hyx : y = x
  · rw [hyx, hgone]
    exact List.not_mem_nil
  · exact ha y hyx

theorem Arranged.destroy (h : Arranged outside m s owned) (hx : s x ≠ none) :
    ∃ p, m.levels x = some p ∧ p.deleteNodes m.heap = some (hide (owned x) m.heap) ∧
      Arranged outside { heap := hide (owned x) m.heap, levels := update m.levels x none }
        (s.step (.destroy x)) (update owned x []) := by
  obtain ⟨p, c, hp, -, hheld⟩ := (h.slots x).exists_held hx
  refine ⟨p, hp, hheld.deleteNodes, h.set .vacant (fun y hyx a ha => ⟨?_, List.not_mem_nil⟩)
    (fun a ha _ => ?_) nofun⟩
  · exact if_neg (h.apart y x hyx a ha)
  · by_cases hin : a ∈ owned x
    · exact (if_pos hin).trans (h.taken x a hin).symm
    · refine (if_neg hin).trans (h.elsewhere a fun y => ?_)
      by_cases hyx : y = x
      · rwa [hyx]
      · exact ha y hyx

/-- The nodes of `y` become those of `x`. -/
theorem Arranged.moveConstruct (h : Arranged outside m s owned) (hx : s x = none) (hy : s y ≠ none)
    (left : ExtTreeMap OrderId Addr compare) :
    ∃ m', m.moveConstruct x y left = some m' ∧
      Arranged outside m' (s.move x y left) (owned ∘ Equiv.swap x y) := by
  obtain ⟨q, c, hq, hc, hheld⟩ := (h.slots y).exists_held hy
  have hgone : owned x = [] := (h.slots x).addrs_eq_nil hx
  have hyx : y ≠ x := by
    rintro rfl
    exact hy hx
  refine ⟨_, by rw [Memory.moveConstruct, hq]; rfl, ?_, ?_, ?_, fun z => h.taken _⟩
  · intro z
    by_cases hzy : z = y
    · subst hzy
      simp only [Shelf.move, Function.update_self, Function.comp, Equiv.swap_apply_right, hgone, hc]
      exact .level (hheld.movedFrom m.heap left)
    · by_cases hzx : z = x
      · subst hzx
        simpa [Shelf.move, Ne.symm hyx, hq] using h.slots y
      · simpa [Shelf.move, hzy, hzx, Equiv.swap_apply_of_ne_of_ne hzx hzy] using h.slots z
  · exact fun z w hzw => h.apart _ _ fun heq => hzw ((Equiv.swap x y).injective heq)
  · intro a ha
    refine h.elsewhere a fun z => ?_
    simpa using ha (Equiv.swap x y z)

theorem Arranged.moveAssign (h : Arranged outside m s owned) (hx : s x ≠ none) (hy : s y ≠ none)
    (left : ExtTreeMap OrderId Addr compare) :
    ∃ m' owned', m.moveAssign x y left = some m' ∧
      Arranged outside m' (s.step (.moveAssign x y left)) owned' := by
  by_cases hxy : x = y
  · subst hxy
    exact ⟨m, owned, if_pos rfl, by rwa [Shelf.step, if_pos rfl]⟩
  · obtain ⟨p, hp, hdelete, hempty⟩ := h.destroy hx
    have hy' : (s.step (.destroy x)) y ≠ none := by
      simpa [Shelf.step, Ne.symm hxy] using hy
    have hx' : (s.step (.destroy x)) x = none := by simp [Shelf.step]
    obtain ⟨m', hm', h'⟩ := hempty.moveConstruct hx' hy' left
    rw [Shelf.step, Shelf.move, Function.update_idem, Function.update_of_ne (Ne.symm hxy)] at h'
    refine ⟨m', _, ?_, by rwa [Shelf.step, if_neg hxy]⟩
    rw [← hm', Memory.moveAssign, if_neg hxy, hp, Memory.moveConstruct]
    simp only [Function.update_of_ne (Ne.symm hxy), Function.update_idem]
    cases m.levels y with
    | none => rfl
    | some q =>
        show (p.deleteNodes m.heap).bind _ = _
        rw [hdelete]
        rfl

theorem Arranged.call (h : Arranged outside m s owned) {price : Price} {xs : Fifo} {c : LevelCall}
    (hx : s x = some (.list price xs)) (hnew : Memory.Allocates (some m) (.call x c))
    (hid : xs.Allowed c) :
    ∃ m' owned', m.call x c = some (m', (xs.call c).2) ∧
      Arranged outside m' (s.step (.call x c)) owned' := by
  obtain ⟨p, content, hp, hcontent, hheld⟩ :=
    (h.slots x).exists_held fun hnone => nomatch hx.symm.trans hnone
  cases hx.symm.trans hcontent
  generalize howned : owned x = addrs at hheld
  cases hheld with
  | @list l price_eq represents indexed =>
      have hnew' : PriceLevel.Allocates (some (p.on m.heap)) c := by
        cases c with
        | addOrder node id q =>
            rintro _ ⟨⟩
            exact hnew m rfl
        | removeOrder | modifyQuantity | popFront | fillFront => trivial
      obtain ⟨p', l', hcall, h', hindexed, hqueue⟩ := represents.call indexed hnew' hid
      have hprice : p'.price = p.price := PriceLevel.price_call hcall
      have hl' : l'.price = l.price := by
        rw [← price_eq, ← hprice]
        exact h'.price_eq.symm
      have hframe : Represents (hide (l'.nodes.map (·.addr)) p'.heap)
          (p'.members.on p'.heap) l' := Represents.frame (p := p'.members) h' fun _ _ => rfl
      have hslot : Slot p'.heap (some p'.members)
          (some (.list l.price (((queue l).call c).1))) (l'.nodes.map (·.addr)) := by
        rw [← hqueue, ← hl']
        exact .level (.list h'.price_eq hframe hindexed)
      -- where the nodes of the level are not, nothing has changed
      have hkept : ∀ a, a ∉ owned x → a ∉ l'.nodes.map (·.addr) → p'.heap a = m.heap a := by
        intro a ha ha'
        rw [howned] at ha
        rw [h'.elsewhere a fun n hn heq => ha' (heq ▸ List.mem_map_of_mem hn)]
        exact if_neg ha
      have hfree : ∀ a ∈ l'.nodes.map (·.addr), a ∈ owned x ∨ m.heap a = none := by
        intro a ha
        obtain ⟨n, hn, rfl⟩ := List.mem_map.mp ha
        have htaken := h'.taken n hn
        rw [hide, ← howned] at htaken
        split_ifs at htaken with hin
        · exact .inl hin
        · exact .inr htaken
      have hdead : ∀ y, y ≠ x → ∀ a ∈ owned y, a ∉ owned x ∧ a ∉ l'.nodes.map (·.addr) :=
        fun y hyx a ha => ⟨h.apart y x hyx a ha, fun hin =>
          (hfree a hin).elim (h.apart y x hyx a ha) ((h.slots y).alive ha)⟩
      refine ⟨{ heap := p'.heap, levels := update m.levels x (some p'.members) },
        update owned x (l'.nodes.map (·.addr)), ?_, ?_⟩
      · rw [Memory.call, hp]
        show ((p.on m.heap).call c).bind _ = _
        rw [hcall]
        rfl
      · rw [Shelf.step, hx]
        refine h.set hslot (fun y hyx a ha => ?_) (fun a ha ha' => ?_) fun a ha => ?_
        · obtain ⟨hnot, hnot'⟩ := hdead y hyx a ha
          exact ⟨hkept a hnot hnot', hnot'⟩
        · by_cases hin : a ∈ owned x
          · rw [h.taken x a hin, h'.elsewhere a fun n hn heq => ha' (heq ▸ List.mem_map_of_mem hn)]
            exact if_pos (howned ▸ hin)
          · rw [hkept a hin ha']
            refine h.elsewhere a fun y => ?_
            by_cases hyx : y = x
            · rwa [hyx]
            · exact ha y hyx
        · rcases hfree a ha with hin | hnone
          · exact h.taken x a hin
          · rw [← hnone]
            exact (h.elsewhere a fun y hin => (h.slots y).alive hin hnone).symm

/-- The step lemma. -/
theorem Arranged.apply (h : Arranged outside m s owned) {op : ObjectOp}
    (hnew : Memory.Allocates (some m) op) (hok : s.Allowed op) :
    ∃ m' answer owned', m.apply op = some (m', answer) ∧ s.answer op = some answer ∧
      Arranged outside m' (s.step op) owned' := by
  cases op with
  | create x price => exact ⟨_, none, _, rfl, rfl, h.create hok price⟩
  | destroy x =>
      obtain ⟨p, hp, hdelete, h'⟩ := h.destroy hok
      refine ⟨_, none, _, ?_, rfl, h'⟩
      rw [Memory.apply, Memory.destroy, hp]
      show ((p.deleteNodes m.heap).bind _).map _ = _
      rw [hdelete]
      rfl
  | moveConstruct x y left =>
      obtain ⟨m', hm', h'⟩ := h.moveConstruct hok.1 hok.2 left
      exact ⟨m', none, _, by rw [Memory.apply, hm']; rfl, rfl, h'⟩
  | moveAssign x y left =>
      obtain ⟨m', owned', hm', h'⟩ := h.moveAssign hok.1 hok.2 left
      exact ⟨m', none, owned', by rw [Memory.apply, hm']; rfl, rfl, h'⟩
  | call x c =>
      rw [Shelf.Allowed] at hok
      split at hok
      · rename_i price xs hx
        obtain ⟨m', owned', hm', h'⟩ := h.call hx hnew hok
        refine ⟨m', _, owned', hm', ?_, h'⟩
        rw [Shelf.answer, hx]
        rfl
      · exact hok.elim

/-- Nothing undefined has happened, and the levels hold their lists. -/
def Lives (outside : Heap) (state : Option Memory) (s : Shelf) : Prop :=
  ∃ m owned, state = some m ∧ Arranged outside m s owned

lemma Lives.step {state : Option Memory} (h : Lives outside state s) {op : ObjectOp}
    (hnew : Memory.Allocates state op) (hok : s.Allowed op) :
    Lives outside (Memory.applyNext state op) (s.step op) ∧
      Memory.answer state op = s.answer op := by
  obtain ⟨m, owned, rfl, harranged⟩ := h
  obtain ⟨m', answer, owned', happly, hanswer, h'⟩ := harranged.apply hnew hok
  refine ⟨⟨m', owned', ?_, h'⟩, ?_⟩
  · rw [Memory.applyNext, Option.bind_some, happly, Option.map_some]
  · rw [Memory.answer, Option.bind_some, happly, Option.map_some, hanswer]

lemma arranged_empty (outside : Heap) :
    Arranged outside { heap := outside } (fun _ => none) fun _ => [] where
  slots _ := .vacant
  apart _ _ _ _ ha := by cases ha
  elsewhere _ _ := rfl
  taken _ _ ha := by cases ha

/-- **Levels come and go.**  In every program that keeps to the lifetimes of its levels, adds no id
to a level that has it, and calls a level it has moved from only if that has left the index empty or
after something has been assigned to it, nothing undefined happens, and each call answers what the
list of its level answers.  At the end each level has the price and holds the list that has come to
it; the chains have no node in common, all that is not in one of them is as it was, and nothing that
was there before is in one.  So with the last level the last node is gone. -/
theorem levels_come_and_go (outside : Heap) {ops : List ObjectOp}
    (hnew : Admitted Memory.applyNext Memory.Allocates (some { heap := outside }) ops)
    (hok : Admitted Shelf.step Shelf.Allowed (fun _ => none) ops) :
    let shelf := run Shelf.step (fun _ => none) ops
    ∃ m, run Memory.applyNext (some { heap := outside }) ops = some m ∧
      outputs Memory.applyNext Memory.answer (some { heap := outside }) ops
        = outputs Shelf.step Shelf.answer (fun _ => none) ops ∧
      (∃ owned : Nat → List Addr,
        (∀ x price xs, shelf x = some (.list price xs) →
          ∃ p, m.levels x = some p ∧ p.price = price ∧
            Holds (hide (owned x) m.heap) (p.on m.heap) (owned x) xs) ∧
        (∀ x y, x ≠ y → ∀ a ∈ owned x, a ∉ owned y) ∧
        (∀ a, (∀ x, a ∉ owned x) → m.heap a = outside a) ∧
        ∀ x, ∀ a ∈ owned x, outside a = none) ∧
      ((∀ x, shelf x = none) → m.heap = outside) := by
  intro shelf
  have hstart : Lives outside (some { heap := outside }) fun _ => none :=
    ⟨_, _, rfl, arranged_empty outside⟩
  obtain ⟨⟨m, owned, hm, h⟩, houtputs⟩ :=
    hnew.lockstep (fun _ _ _ h hnew hok => h.step hnew hok) hok hstart
  refine ⟨m, hm, houtputs, ⟨owned, fun x price xs hx => ?_, h.apart, h.elsewhere, h.taken⟩,
    fun hgone => funext fun a => h.elsewhere a fun x => ?_⟩
  · obtain ⟨p, content, hp, hcontent, hheld⟩ :=
      (h.slots x).exists_held fun hnone => nomatch hx.symm.trans hnone
    cases hx.symm.trans hcontent
    refine ⟨p, hp, ?_⟩
    generalize owned x = addrs at hheld
    cases hheld with
    | list price_eq represents indexed => exact ⟨price_eq, represents.holds indexed⟩
  · rw [(h.slots x).addrs_eq_nil (hgone x)]
    exact List.not_mem_nil

/-- A level filled at one place, moved to another, assigned over a third that has nodes of its own,
and used there; at last all are destroyed. -/
theorem levels_come_and_go_sample :
    ∃ m, run Memory.applyNext (some { heap := fun _ => none })
      [.create 0 100, .call 0 (.addOrder 7 1 10), .call 0 (.addOrder 3 2 20),
        .moveConstruct 1 0 ∅, .create 2 101, .call 2 (.addOrder 5 9 90), .call 1 .popFront,
        .moveAssign 2 1 ∅, .call 2 (.addOrder 5 3 30), .destroy 2, .destroy 1, .destroy 0]
      = some m ∧ m.heap = fun _ => none := by
  have hnew : Admitted Memory.applyNext Memory.Allocates (some { heap := fun _ => none })
      [.create 0 100, .call 0 (.addOrder 7 1 10), .call 0 (.addOrder 3 2 20),
        .moveConstruct 1 0 ∅, .create 2 101, .call 2 (.addOrder 5 9 90), .call 1 .popFront,
        .moveAssign 2 1 ∅, .call 2 (.addOrder 5 3 30), .destroy 2, .destroy 1, .destroy 0] := by
    decide +kernel
  have hok : Admitted Shelf.step Shelf.Allowed (fun _ => none)
      [.create 0 100, .call 0 (.addOrder 7 1 10), .call 0 (.addOrder 3 2 20),
        .moveConstruct 1 0 ∅, .create 2 101, .call 2 (.addOrder 5 9 90), .call 1 .popFront,
        .moveAssign 2 1 ∅, .call 2 (.addOrder 5 3 30), .destroy 2, .destroy 1, .destroy 0] := by
    decide +kernel
  obtain ⟨m, hm, -, -, hgone⟩ := levels_come_and_go (fun _ => none) hnew hok
  refine ⟨m, hm, hgone fun x => ?_⟩
  match x with
  | 0 | 1 | 2 => rfl
  | n + 3 => rfl

end Exchange.Pointers
