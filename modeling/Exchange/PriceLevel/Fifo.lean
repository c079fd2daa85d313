import Exchange.Core.Run
import Exchange.PriceLevel.Pointers

/-!
# A price level is a FIFO list

The purpose of the class `PriceLevel` is to be a list of orders, first in, first out, that can also
be edited by id: `Fifo`.

**`level_refines_fifo`** — whatever is called on a new level, and wherever `new` puts the nodes, no
call reads, writes or deletes through a pointer that dangles, every call answers what the list
answers, and the pointers hold the list (`Holds`).
-/

namespace Exchange.Pointers

open Run (Admitted run outputs)

/-! ## The list -/

/-- The orders of a level, the oldest first. -/
abbrev Fifo := List (OrderId × Quantity)

/-- A call of one of the functions of the class.  `add_order` comes with the node it will get from
`new`. -/
inductive LevelCall
  | addOrder (node : Addr) (orderId : OrderId) (quantity : Quantity)
  | removeOrder (orderId : OrderId)
  | modifyQuantity (orderId : OrderId) (newQuantity : Quantity)
  | popFront
  | fillFront (qty : Quantity)
deriving DecidableEq, Repr

namespace Fifo

def contains (xs : Fifo) (id : OrderId) : Bool := xs.any (·.1 = id)

def delete (xs : Fifo) (id : OrderId) : Fifo := xs.filter (·.1 ≠ id)

def modify (xs : Fifo) (id : OrderId) (q : Quantity) : Fifo :=
  xs.map fun x => if x.1 = id then (x.1, q) else x

def decrementFront : Fifo → Quantity → Fifo
  | [], _ => []
  | (id, q) :: xs, qty => if qty ≥ q then xs else (id, q - qty) :: xs

/-- The list after a call, and what the call returns, if it returns anything. -/
def call (xs : Fifo) : LevelCall → Fifo × Option Bool
  | .addOrder _ id q => (xs ++ [(id, q)], none)
  | .removeOrder id => (xs.delete id, some (xs.contains id))
  | .modifyQuantity id q => (xs.modify id q, some (xs.contains id))
  | .popFront => (xs.tail, none)
  | .fillFront qty => (xs.decrementFront qty, none)

def callNext (xs : Fifo) (c : LevelCall) : Fifo := (xs.call c).1

def answer (xs : Fifo) (c : LevelCall) : Option (Option Bool) := some (xs.call c).2

/-- No id is added that is in the list. -/
def Allowed (xs : Fifo) : LevelCall → Prop
  | .addOrder _ id _ => ∀ x ∈ xs, x.1 ≠ id
  | _ => True

end Fifo

instance (xs : Fifo) : (c : LevelCall) → Decidable (xs.Allowed c)
  | .addOrder _ id _ => List.decidableBAll (fun x : OrderId × Quantity => x.1 ≠ id) xs
  | .removeOrder _ | .modifyQuantity _ _ | .popFront | .fillFront _ => isTrue trivial

/-! ## The pointers -/

namespace PriceLevel

/-- The level after a call, and what the call returns. -/
def call (p : PriceLevel) : LevelCall → Option (PriceLevel × Option Bool)
  | .addOrder node id q => (p.addOrder node id q).map (·, none)
  | .removeOrder id => (p.removeOrder id).map fun x => (x.2, some x.1)
  | .modifyQuantity id q => (p.modifyQuantity id q).map fun x => (x.2, some x.1)
  | .popFront => p.popFront.map (·, none)
  | .fillFront qty => (p.fillFront qty).map (·, none)

/-- A call, where nothing undefined has happened before. -/
def callNext (s : Option PriceLevel) (c : LevelCall) : Option PriceLevel :=
  s.bind fun p => (p.call c).map (·.1)

def answer (s : Option PriceLevel) (c : LevelCall) : Option (Option Bool) :=
  s.bind fun p => (p.call c).map (·.2)

/-- `new` returns what is not alive. -/
def Allocates (s : Option PriceLevel) : LevelCall → Prop
  | .addOrder node _ _ => ∀ p ∈ s, p.heap node = none
  | _ => True

end PriceLevel

instance (s : Option PriceLevel) : (c : LevelCall) → Decidable (PriceLevel.Allocates s c)
  | .addOrder node _ _ => inferInstanceAs (Decidable (∀ p ∈ s, p.heap node = none))
  | .removeOrder _ | .modifyQuantity _ _ | .popFront | .fillFront _ => isTrue trivial

/-- Along `link` from a pointer, the nodes met before null. -/
inductive Follows (heap : Heap) (link : OrderNode → Pointer) : Pointer → List Addr → Prop
  | null : Follows heap link none []
  | node {a : Addr} {n : OrderNode} {addrs : List Addr} (alive : heap a = some n)
      (rest : Follows heap link (link n) addrs) : Follows heap link (some a) (a :: addrs)

/-- The pointers of `p` hold the list `xs`, in the nodes at `addrs`; the rest of the heap is as
`outside` has it. -/
structure Holds (outside : Heap) (p : PriceLevel) (addrs : List Addr) (xs : Fifo) : Prop where
  forward : Follows p.heap (·.next) p.head addrs
  backward : Follows p.heap (·.prev) p.tail addrs.reverse
  contents : addrs.map p.contentOf = xs.map some
  nodup : addrs.Nodup
  index : ∀ id a, p.nodeIndex[id]? = some a ↔
    a ∈ addrs ∧ ∃ n, p.heap a = some n ∧ n.orderId = id
  orderCount_eq : p.orderCount = xs.length
  total_eq : p.totalQuantity.toNat = (xs.map (·.2.toNat)).sum % 2 ^ 32
  elsewhere : ∀ a ∉ addrs, p.heap a = outside a
  taken : ∀ a ∈ addrs, outside a = none

/-! ## From the chain to the list -/

variable {outside : Heap} {p : PriceLevel} {l : Exchange.PriceLevel} {xs : Fifo} {id : OrderId}
  {q : Quantity} {r : Pointer} {addrs : List Addr}

/-- What a level queues. -/
def queue (l : Exchange.PriceLevel) : Fifo := l.nodes.map fun n => (n.orderId, n.quantity)

lemma follows_of_walk {heap : Heap} {link : OrderNode → Pointer} {follow : Pointer → Pointer}
    (hfollow : ∀ a n, heap a = some n → follow (some a) = link n)
    (halive : ∀ a ∈ addrs, (heap a).isSome) (h : Walk follow none r (addrs.map some)) :
    Follows heap link r addrs := by
  induction addrs generalizing r with
  | nil =>
      cases h
      exact .null
  | cons a addrs ih =>
      cases h with
      | step _ rest =>
          obtain ⟨n, hn⟩ := Option.isSome_iff_exists.mp (halive a List.mem_cons_self)
          rw [hfollow a n hn] at rest
          exact .node hn (ih (fun b hb => halive b (List.mem_cons_of_mem a hb)) rest)

lemma contains_queue : (queue l).contains id = true ↔ ∃ n ∈ l.nodes, n.orderId = id := by
  simp [Fifo.contains, queue]

lemma queue_removeOrder (h : l.Indexed) (id : OrderId) :
    queue (l.removeOrder id) = (queue l).delete id := by
  rw [queue, h.nodes_removeOrder, Fifo.delete, queue, List.filter_map]
  rfl

lemma queue_modifyQuantity (h : l.Indexed) (id : OrderId) (q : Quantity) :
    queue (l.modifyQuantity id q) = (queue l).modify id q := by
  rw [queue, h.nodes_modifyQuantity, Fifo.modify, queue, List.map_map, List.map_map]
  refine List.map_congr_left fun n _ => ?_
  simp only [Function.comp]
  split_ifs <;> rfl

lemma queue_popFront : queue l.popFront = (queue l).tail := by
  rw [queue, Exchange.PriceLevel.nodes_popFront, queue, List.map_tail]

lemma queue_fillFront (q : Quantity) : queue (l.fillFront q) = (queue l).decrementFront q := by
  cases hl : l.nodes with
  | nil =>
      have hsame : l.fillFront q = l := PriceLevel.ext_data (by
        simp only [Exchange.PriceLevel.fillFront, LevelData.fillFront, hl])
      rw [hsame, queue, hl, List.map_nil, Fifo.decrementFront]
  | cons n rest =>
      rw [queue, Exchange.PriceLevel.nodes_fillFront hl, queue, hl, List.map_cons,
        Fifo.decrementFront]
      split_ifs <;> rfl

/-- The flag that a lookup by id answers with. -/
lemma findNode_isSome (h : l.Indexed) (id : OrderId) :
    (l.findNode id).isSome = (queue l).contains id := by
  rw [Bool.eq_iff_iff, contains_queue]
  constructor
  · intro hsome
    obtain ⟨n, hfind⟩ := Option.isSome_iff_exists.mp hsome
    obtain ⟨hn, hid, -⟩ := (LevelData.findNode_eq_some l.wf).mp hfind
    exact ⟨n, hn, hid⟩
  · rintro ⟨n, hn, rfl⟩
    rw [h.findNode_eq hn]
    rfl

lemma removeOrder_fst (h : l.Indexed) (id : OrderId) :
    (l.toLevelData.removeOrder id).1 = (queue l).contains id := by
  rw [← findNode_isSome h, LevelData.removeOrder]
  cases l.findNode id <;> rfl

lemma modifyQuantity_fst (h : l.Indexed) (id : OrderId) (q : Quantity) :
    (l.toLevelData.modifyQuantity id q).1 = (queue l).contains id := by
  rw [← findNode_isSome h, LevelData.modifyQuantity]
  cases l.findNode id <;> rfl

/-- Pointers that hold an indexed level hold its queue. -/
theorem Represents.holds (h : Represents outside p l) (hindexed : l.Indexed) :
    Holds outside p (l.nodes.map (·.addr)) (queue l) := by
  have halive : ∀ n ∈ l.nodes, ∃ m, p.heap n.addr = some m ∧ m.orderId = n.orderId := by
    intro n hn
    obtain ⟨m, hm, heq, -⟩ := PriceLevel.exists_heap (h.content n hn)
    exact ⟨m, hm, (Prod.mk.inj heq).1⟩
  have hsome : ∀ a ∈ l.nodes.map (·.addr), (p.heap a).isSome := by
    intro a ha
    obtain ⟨n, hn, rfl⟩ := List.mem_map.mp ha
    obtain ⟨m, hm, -⟩ := halive n hn
    rw [hm]
    rfl
  have hchain : chain l = (l.nodes.map (·.addr)).map some := (List.map_map ..).symm
  have hwalk := h.ring.walk
  have hback := h.ring.walk_back
  rw [hchain] at hwalk
  rw [hchain, ← List.map_reverse] at hback
  refine ⟨?_, ?_, ?_, l.wf.addr_nodup, ?_, ?_, ?_, ?_, ?_⟩
  · refine follows_of_walk (fun a n hn => ?_) hsome hwalk
    show (p.heap a).bind _ = _
    rw [hn, Option.bind_some]
  · refine follows_of_walk (fun a n hn => ?_) (fun a ha => hsome a (List.mem_reverse.mp ha)) hback
    show (p.heap a).bind _ = _
    rw [hn, Option.bind_some]
  · rw [queue, List.map_map, List.map_map]
    exact List.map_congr_left fun n hn => h.content n hn
  · intro id a
    rw [show p.nodeIndex = l.nodeIndex from h.nodeIndex_eq]
    constructor
    · intro hindex
      obtain ⟨n, hn, rfl, rfl⟩ := l.wf.index_live id a hindex
      exact ⟨List.mem_map_of_mem hn, halive n hn⟩
    · rintro ⟨ha, m, hm, rfl⟩
      obtain ⟨n, hn, rfl⟩ := List.mem_map.mp ha
      obtain ⟨m', hm', hid⟩ := halive n hn
      cases hm.symm.trans hm'
      rw [hid]
      exact hindexed n hn
  · rw [show p.orderCount = l.orderCount from h.orderCount_eq, l.wf.orderCount_eq, queue,
      List.length_map]
  · rw [show p.totalQuantity = l.totalQuantity from h.totalQuantity_eq, l.wf.total_eq, queue,
      List.map_map]
    rfl
  · exact fun a ha => h.elsewhere a fun n hn heq => ha (heq ▸ List.mem_map_of_mem hn)
  · intro a ha
    obtain ⟨n, hn, rfl⟩ := List.mem_map.mp ha
    exact h.taken n hn

/-! ## The refinement -/

/-- The pointers, by way of the level, hold the list. -/
def Stands (outside : Heap) (s : Option PriceLevel) (xs : Fifo) : Prop :=
  ∃ p l, s = some p ∧ Represents outside p l ∧ l.Indexed ∧ queue l = xs

/-- One call, as each function of the class goes. -/
lemma Represents.call (h : Represents outside p l) (hindexed : l.Indexed) {c : LevelCall}
    (hnew : PriceLevel.Allocates (some p) c) (hid : (queue l).Allowed c) :
    ∃ p' l', p.call c = some (p', ((queue l).call c).2) ∧ Represents outside p' l' ∧
      l'.Indexed ∧ queue l' = ((queue l).call c).1 := by
  cases c with
  | addOrder node id q =>
      have hfree : ∀ n ∈ l.nodes, n.orderId ≠ id := fun n hn => hid _ (List.mem_map_of_mem hn)
      obtain ⟨p', hp', h'⟩ := h.addOrder (hnew p rfl) id q
      refine ⟨p', _, ?_, h', hindexed.addOrderAt _ hfree, List.map_append⟩
      rw [PriceLevel.call, hp']
      rfl
  | removeOrder id =>
      obtain ⟨p', hp', h'⟩ := h.removeOrder id
      refine ⟨p', _, ?_, h', hindexed.removeOrder id, queue_removeOrder hindexed id⟩
      rw [PriceLevel.call, hp', removeOrder_fst hindexed]
      rfl
  | modifyQuantity id q =>
      obtain ⟨p', hp', h'⟩ := h.modifyQuantity id q
      refine ⟨p', _, ?_, h', hindexed.modifyQuantity id q, queue_modifyQuantity hindexed id q⟩
      rw [PriceLevel.call, hp', modifyQuantity_fst hindexed]
      rfl
  | popFront =>
      obtain ⟨p', hp', h'⟩ := h.popFront
      refine ⟨p', _, ?_, h', hindexed.popFront, queue_popFront⟩
      rw [PriceLevel.call, hp']
      rfl
  | fillFront qty =>
      obtain ⟨p', hp', h'⟩ := h.fillFront qty
      refine ⟨p', _, ?_, h', hindexed.fillFront, queue_fillFront qty⟩
      rw [PriceLevel.call, hp']
      rfl

theorem Stands.call {s : Option PriceLevel} {c : LevelCall} (h : Stands outside s xs)
    (hnew : PriceLevel.Allocates s c) (hid : xs.Allowed c) :
    Stands outside (PriceLevel.callNext s c) (xs.call c).1 ∧
      PriceLevel.answer s c = some (xs.call c).2 := by
  obtain ⟨p, l, rfl, hrepresents, hindexed, rfl⟩ := h
  obtain ⟨p', l', hcall, h'⟩ := hrepresents.call hindexed hnew hid
  have hnext : PriceLevel.callNext (some p) c = some p' := by
    rw [PriceLevel.callNext, Option.bind_some, hcall, Option.map_some]
  refine ⟨⟨p', l', hnext, h'⟩, ?_⟩
  rw [PriceLevel.answer, Option.bind_some, hcall, Option.map_some]

/-- **A price level is a FIFO list.** -/
theorem level_refines_fifo (heap : Heap) (price : Price) {calls : List LevelCall}
    (hnew : Admitted PriceLevel.callNext PriceLevel.Allocates (some { heap, price }) calls)
    (hids : Admitted Fifo.callNext Fifo.Allowed [] calls) :
    (∃ p addrs, run PriceLevel.callNext (some { heap, price }) calls = some p ∧
      Holds heap p addrs (run Fifo.callNext [] calls)) ∧
    outputs PriceLevel.callNext PriceLevel.answer (some { heap, price }) calls
      = outputs Fifo.callNext Fifo.answer [] calls := by
  have hstart : Stands heap (some { heap, price }) [] :=
    ⟨_, _, rfl, .new heap price, .new price, rfl⟩
  have hstep : ∀ s (xs : Fifo) c, Stands heap s xs → PriceLevel.Allocates s c → xs.Allowed c →
      Stands heap (PriceLevel.callNext s c) (xs.callNext c) ∧
        PriceLevel.answer s c = xs.answer c := fun _ _ _ h hc hid => h.call hc hid
  obtain ⟨⟨p, l, hp, h, hindexed, hqueue⟩, houtputs⟩ := hnew.lockstep hstep hids hstart
  exact ⟨⟨p, _, hp, hqueue ▸ h.holds hindexed⟩, houtputs⟩

/-- A node taken out of the middle, its address used again, and the front partly filled. -/
theorem level_refines_fifo_reused :
    ∃ p addrs, run PriceLevel.callNext (some { heap := fun _ => none, price := 100 })
        [.addOrder 7 1 10, .addOrder 3 2 20, .addOrder 5 3 30, .removeOrder 2, .addOrder 3 4 40,
          .modifyQuantity 3 15, .fillFront 4] = some p ∧
      Holds (fun _ => none) p addrs [(1, 6), (3, 15), (4, 40)] := by
  have hnew : Admitted PriceLevel.callNext PriceLevel.Allocates
      (some { heap := fun _ => none, price := 100 })
      [.addOrder 7 1 10, .addOrder 3 2 20, .addOrder 5 3 30, .removeOrder 2, .addOrder 3 4 40,
        .modifyQuantity 3 15, .fillFront 4] := by
    decide +kernel
  exact (level_refines_fifo _ 100 hnew (by decide +kernel)).1

end Exchange.Pointers
