import Exchange.Core.Ring
import Exchange.PriceLevel.Queue
import Mathlib.Logic.Function.Basic

/-!
# A price level, pointer by pointer

`engine/price_level.cpp` once more, with its nodes in a heap and every assignment to a pointer made
where the source makes it.  Reading or writing through a pointer that is null or dangles, and
deleting what is not alive, has no result.

The level holds its chain as a ring that goes through the null pointer: `head_` is what comes after
it and `tail_` what comes before it (`nextOf`, `prevOf`).  The assignments to the neighbours of a
node, which the source makes to `head_` and `tail_` where there is no neighbour, are then edits of a
ring.
-/

namespace Exchange.Pointers

open Function (update)
open Std (ExtTreeMap)

/-- Where `new` puts a node. -/
abbrev Addr := Nat

/-- `OrderNode *`; the null pointer is `none`. -/
abbrev Pointer := Option Addr

structure OrderNode where
  orderId : OrderId
  quantity : Quantity
  prev : Pointer := none
  next : Pointer := none
deriving DecidableEq, Repr

/-- The nodes that are alive. -/
abbrev Heap := Addr → Option OrderNode

/-- The members of the class `PriceLevel`, and the heap. -/
structure PriceLevel where
  heap : Heap
  price : Price
  totalQuantity : Quantity := 0
  orderCount : Nat := 0
  head : Pointer := none
  tail : Pointer := none
  nodeIndex : ExtTreeMap OrderId Addr compare := ∅

namespace PriceLevel

variable (l : PriceLevel)

/-! ## The functions of the class -/

/-- An assignment to members of `*node`. -/
def assign (node : Addr) (f : OrderNode → OrderNode) : Option PriceLevel := do
  let n ← l.heap node
  some { l with heap := update l.heap node (some (f n)) }

def delete (node : Addr) : Option PriceLevel := do
  let _ ← l.heap node
  some { l with heap := update l.heap node none }

/-- `if (p) p->next = q; else head_ = q;` -/
def setNext (p q : Pointer) : Option PriceLevel :=
  match p with
  | some node => l.assign node fun n => { n with next := q }
  | none => some { l with head := q }

/-- `if (p) p->prev = q; else tail_ = q;` -/
def setPrev (p q : Pointer) : Option PriceLevel :=
  match p with
  | some node => l.assign node fun n => { n with prev := q }
  | none => some { l with tail := q }

/-- `node` is what `new` returns. -/
def addOrder (node : Addr) (orderId : OrderId) (quantity : Quantity) : Option PriceLevel := do
  let l := { l with
    heap := update l.heap node (some { orderId, quantity })
    nodeIndex := l.nodeIndex.insert orderId node }
  let l ← l.assign node fun n => { n with prev := l.tail }
  let l ← l.assign node fun n => { n with next := none }
  let l ← l.setNext l.tail (some node)
  some { l with
    tail := some node
    totalQuantity := l.totalQuantity + quantity
    orderCount := l.orderCount + 1 }

def findNode (orderId : OrderId) : Pointer := l.nodeIndex[orderId]?

def unlink (node : Addr) : Option PriceLevel := do
  let n ← l.heap node
  let l ← l.setNext n.prev n.next
  let n ← l.heap node
  l.setPrev n.next n.prev

def removeOrder (orderId : OrderId) : Option (Bool × PriceLevel) :=
  match l.findNode orderId with
  | none => some (false, l)
  | some node => do
      let n ← l.heap node
      let l := { l with
        totalQuantity := l.totalQuantity - n.quantity
        orderCount := l.orderCount - 1 }
      let l ← l.unlink node
      let l := { l with nodeIndex := l.nodeIndex.erase orderId }
      let l ← l.delete node
      some (true, l)

def modifyQuantity (orderId : OrderId) (newQuantity : Quantity) : Option (Bool × PriceLevel) :=
  match l.findNode orderId with
  | none => some (false, l)
  | some node => do
      let n ← l.heap node
      let l := { l with totalQuantity := l.totalQuantity - n.quantity + newQuantity }
      let l ← l.assign node fun n => { n with quantity := newQuantity }
      some (true, l)

def frontOrderId : Option OrderId :=
  match l.head with
  | none => some invalidOrderId
  | some node => (l.heap node).map (·.orderId)

def popFront : Option PriceLevel :=
  match l.head with
  | none => some l
  | some oldHead => do
      let n ← l.heap oldHead
      let l := { l with
        totalQuantity := l.totalQuantity - n.quantity
        orderCount := l.orderCount - 1
        head := n.next }
      let l ← l.setPrev l.head none
      let n ← l.heap oldHead
      let l := { l with nodeIndex := l.nodeIndex.erase n.orderId }
      l.delete oldHead

def fillFront (qty : Quantity) : Option PriceLevel :=
  match l.head with
  | none => some l
  | some head => do
      let n ← l.heap head
      if qty ≥ n.quantity then l.popFront
      else do
        let l := { l with totalQuantity := l.totalQuantity - qty }
        l.assign head fun n => { n with quantity := n.quantity - qty }

/-! ## Links and contents -/

def nextOf : Pointer → Pointer
  | none => l.head
  | some node => (l.heap node).bind (·.next)

def prevOf : Pointer → Pointer
  | none => l.tail
  | some node => (l.heap node).bind (·.prev)

/-- What a node says of its order. -/
def contentOf (node : Addr) : Option (OrderId × Quantity) :=
  (l.heap node).map fun n => (n.orderId, n.quantity)

end PriceLevel

/-- A level as its links, the contents of its nodes, and its other members. -/
structure View where
  next : Pointer → Pointer
  prev : Pointer → Pointer
  content : Addr → Option (OrderId × Quantity)
  price : Price
  totalQuantity : Quantity
  orderCount : Nat
  nodeIndex : ExtTreeMap OrderId Addr compare

/-- Null, or alive. -/
def View.Alive (v : View) (p : Pointer) : Prop := ∀ node ∈ p, (v.content node).isSome

/-- A node is unlinked and deleted. -/
def View.erase (v : View) (node : Addr) (c : OrderId × Quantity) : View :=
  { v with
    next := update (update v.next (v.prev (some node)) (v.next (some node))) (some node) none
    prev := update (update v.prev (v.next (some node)) (v.prev (some node))) (some node) none
    content := update v.content node none
    totalQuantity := v.totalQuantity - c.2
    orderCount := v.orderCount - 1
    nodeIndex := v.nodeIndex.erase c.1 }

namespace PriceLevel

def view (l : PriceLevel) : View where
  next := l.nextOf
  prev := l.prevOf
  content := l.contentOf
  price := l.price
  totalQuantity := l.totalQuantity
  orderCount := l.orderCount
  nodeIndex := l.nodeIndex

variable {l l' : PriceLevel} {p q : Pointer} {node a : Addr} {n : OrderNode}
  {c : OrderId × Quantity}

lemma exists_heap (h : l.view.content node = some c) :
    ∃ n, l.heap node = some n ∧ (n.orderId, n.quantity) = c ∧ n.prev = l.view.prev (some node) ∧
      n.next = l.view.next (some node) := by
  obtain ⟨n, hn, hc⟩ := Option.map_eq_some_iff.mp h
  refine ⟨n, hn, hc, ?_, ?_⟩
  · simp [view, prevOf, hn]
  · simp [view, nextOf, hn]

/-- The view has all there is to a node. -/
lemma heap_congr (hcontent : l'.view.content a = l.view.content a)
    (hprev : l'.view.prev (some a) = l.view.prev (some a))
    (hnext : l'.view.next (some a) = l.view.next (some a)) : l'.heap a = l.heap a := by
  cases hc : l.view.content a with
  | none =>
      rw [hc] at hcontent
      rw [Option.map_eq_none_iff.mp hc, Option.map_eq_none_iff.mp hcontent]
  | some c =>
      obtain ⟨n, hn, hnc, hnprev, hnnext⟩ := exists_heap hc
      obtain ⟨n', hn', hnc', hnprev', hnnext'⟩ := exists_heap (hcontent.trans hc)
      have hlinks : n'.prev = n.prev ∧ n'.next = n.next :=
        ⟨hnprev'.trans (hprev.trans hnprev.symm), hnnext'.trans (hnext.trans hnnext.symm)⟩
      obtain ⟨hid, hquantity⟩ := Prod.mk.inj (hnc'.trans hnc.symm)
      obtain ⟨hprev, hnext⟩ := hlinks
      rw [hn, hn']
      cases n
      cases n'
      cases hid
      cases hquantity
      cases hprev
      cases hnext
      rfl

/-! ## Assignments -/

lemma nextOf_update (node : Addr) (m : Option OrderNode) :
    ({ l with heap := update l.heap node m } : PriceLevel).nextOf
      = update l.nextOf (some node) (m.bind (·.next)) := by
  funext r
  cases r with
  | none => rfl
  | some a =>
      by_cases ha : a = node
      · subst ha
        simp [nextOf]
      · simp [nextOf, ha]

lemma prevOf_update (node : Addr) (m : Option OrderNode) :
    ({ l with heap := update l.heap node m } : PriceLevel).prevOf
      = update l.prevOf (some node) (m.bind (·.prev)) := by
  funext r
  cases r with
  | none => rfl
  | some a =>
      by_cases ha : a = node
      · subst ha
        simp [prevOf]
      · simp [prevOf, ha]

lemma contentOf_update (node : Addr) (m : Option OrderNode) :
    ({ l with heap := update l.heap node m } : PriceLevel).contentOf
      = update l.contentOf node (m.map fun n => (n.orderId, n.quantity)) := by
  funext a
  by_cases ha : a = node
  · subst ha
    simp [contentOf]
  · simp [contentOf, ha]

/-- An assignment to the heap, in the view. -/
lemma view_update (node : Addr) (m : Option OrderNode) :
    ({ l with heap := update l.heap node m } : PriceLevel).view = { l.view with
      next := update l.view.next (some node) (m.bind (·.next))
      prev := update l.view.prev (some node) (m.bind (·.prev))
      content := update l.view.content node (m.map fun n => (n.orderId, n.quantity)) } := by
  simp only [view, nextOf_update, prevOf_update, contentOf_update]

lemma view_head (q : Pointer) :
    ({ l with head := q } : PriceLevel).view
      = { l.view with next := update l.view.next none q } := by
  have hnext : ({ l with head := q } : PriceLevel).nextOf = update l.nextOf none q := by
    funext r
    cases r <;> simp [nextOf]
  simp only [view, hnext]
  rfl

lemma view_tail (q : Pointer) :
    ({ l with tail := q } : PriceLevel).view
      = { l.view with prev := update l.view.prev none q } := by
  have hprev : ({ l with tail := q } : PriceLevel).prevOf = update l.prevOf none q := by
    funext r
    cases r <;> simp [prevOf]
  simp only [view, hprev]
  rfl

lemma exists_setNext (h : l.view.Alive p) (q : Pointer) :
    ∃ l', l.setNext p q = some l' ∧
      l'.view = { l.view with next := update l.view.next p q } := by
  cases p with
  | none => exact ⟨_, rfl, view_head q⟩
  | some node =>
      obtain ⟨c, hc⟩ := Option.isSome_iff_exists.mp (h node rfl)
      obtain ⟨n, hn, rfl, hprev, -⟩ := exists_heap hc
      refine ⟨_, by rw [setNext, assign, hn]; rfl, ?_⟩
      rw [view_update]
      simp only [Option.bind_some, Option.map_some, hprev, Function.update_eq_self]
      rw [← hc, Function.update_eq_self]

lemma exists_setPrev (h : l.view.Alive p) (q : Pointer) :
    ∃ l', l.setPrev p q = some l' ∧
      l'.view = { l.view with prev := update l.view.prev p q } := by
  cases p with
  | none => exact ⟨_, rfl, view_tail q⟩
  | some node =>
      obtain ⟨c, hc⟩ := Option.isSome_iff_exists.mp (h node rfl)
      obtain ⟨n, hn, rfl, -, hnext⟩ := exists_heap hc
      refine ⟨_, by rw [setPrev, assign, hn]; rfl, ?_⟩
      rw [view_update]
      simp only [Option.bind_some, Option.map_some, hnext, Function.update_eq_self]
      rw [← hc, Function.update_eq_self]

lemma exists_assignQuantity (h : l.view.content node = some c) (g : Quantity → Quantity) :
    ∃ l', (l.assign node fun n => { n with quantity := g n.quantity }) = some l' ∧
      l'.view = { l.view with content := update l.view.content node (some (c.1, g c.2)) } := by
  obtain ⟨n, hn, rfl, hprev, hnext⟩ := exists_heap h
  refine ⟨_, by rw [assign, hn]; rfl, ?_⟩
  rw [view_update]
  simp only [Option.bind_some, Option.map_some, hprev, hnext, Function.update_eq_self]

lemma exists_delete (h : l.view.content node = some c) :
    ∃ l', l.delete node = some l' ∧ l'.view = { l.view with
      next := update l.view.next (some node) none
      prev := update l.view.prev (some node) none
      content := update l.view.content node none } := by
  obtain ⟨n, hn, -⟩ := exists_heap h
  exact ⟨_, by rw [delete, hn]; rfl, view_update node none⟩

/-! ## The functions, in the view -/

lemma exists_addOrder (htail : l.view.Alive l.tail) (orderId : OrderId) (quantity : Quantity) :
    ∃ l', l.addOrder node orderId quantity = some l' ∧ l'.view = { l.view with
      next := update (update l.view.next (some node) none) l.tail (some node)
      prev := update (update l.view.prev none (some node)) (some node) l.tail
      content := update l.view.content node (some (orderId, quantity))
      nodeIndex := l.nodeIndex.insert orderId node
      totalQuantity := l.totalQuantity + quantity
      orderCount := l.orderCount + 1 } := by
  let l₁ : PriceLevel := { l with
    heap := update l.heap node (some { orderId, quantity })
    nodeIndex := l.nodeIndex.insert orderId node }
  have h₁ : l₁.view = { l.view with
      next := update l.view.next (some node) none
      prev := update l.view.prev (some node) none
      content := update l.view.content node (some (orderId, quantity))
      nodeIndex := l.nodeIndex.insert orderId node } :=
    congrArg (fun v : View => { v with nodeIndex := l.nodeIndex.insert orderId node })
      (view_update node (some { orderId, quantity }))
  have halive₁ : l₁.view.Alive (some node) := by
    rintro _ ⟨⟩
    simp [h₁]
  obtain ⟨l₂, hl₂, h₂⟩ := exists_setPrev halive₁ l.tail
  obtain ⟨l₃, hl₃, h₃⟩ := exists_setNext (l := l₂) (p := some node) (h₂ ▸ halive₁) none
  have htail₃ : l₃.tail = l.tail := by
    show l₃.view.prev none = _
    rw [h₃, h₂, h₁]
    rfl
  have halive₃ : l₃.view.Alive l₃.tail := by
    intro a ha
    rw [h₃, h₂, h₁]
    by_cases han : a = node
    · simp [han]
    · rw [htail₃] at ha
      simpa [han] using htail a ha
  obtain ⟨l₄, hl₄, h₄⟩ := exists_setNext halive₃ (some node)
  refine ⟨{ l₄ with
    tail := some node
    totalQuantity := l₄.totalQuantity + quantity
    orderCount := l₄.orderCount + 1 }, ?_, ?_⟩
  · show (l₁.setPrev (some node) l.tail).bind _ = _
    rw [hl₂]
    show (l₂.setNext (some node) none).bind _ = _
    rw [hl₃]
    show (l₃.setNext l₃.tail (some node)).bind _ = _
    rw [hl₄]
    rfl
  · show { ({ l₄ with tail := some node } : PriceLevel).view with
      totalQuantity := l₄.view.totalQuantity + quantity
      orderCount := l₄.view.orderCount + 1 } = _
    rw [view_tail, h₄, htail₃, h₃, h₂, h₁]
    simp only [Function.update_idem]
    rw [Function.update_comm (Option.some_ne_none node)]
    rfl

lemma exists_unlink (h : l.view.content node = some c)
    (hprev : l.view.Alive (l.view.prev (some node)))
    (hnext : l.view.Alive (l.view.next (some node)))
    (hne : l.view.prev (some node) ≠ some node) :
    ∃ l', l.unlink node = some l' ∧ l'.view = { l.view with
      next := update l.view.next (l.view.prev (some node)) (l.view.next (some node))
      prev := update l.view.prev (l.view.next (some node)) (l.view.prev (some node)) } := by
  obtain ⟨n, hn, -, hnprev, hnnext⟩ := exists_heap h
  obtain ⟨l₁, hl₁, h₁⟩ := exists_setNext hprev (l.view.next (some node))
  have hcontent₁ : l₁.view.content node = some c := by rw [h₁, h]
  obtain ⟨n₁, hn₁, -, hnprev₁, hnnext₁⟩ := exists_heap hcontent₁
  have hprev₁ : n₁.prev = l.view.prev (some node) := by rw [hnprev₁, h₁]
  have hnext₁ : n₁.next = l.view.next (some node) := by
    rw [hnnext₁, h₁]
    exact Function.update_of_ne (Ne.symm hne) _ _
  have halive₁ : l₁.view.Alive (l.view.next (some node)) := by rw [h₁]; exact hnext
  obtain ⟨l₂, hl₂, h₂⟩ := exists_setPrev halive₁ (l.view.prev (some node))
  refine ⟨l₂, ?_, by rw [h₂, h₁]⟩
  rw [unlink, hn]
  show (l.setNext n.prev n.next).bind _ = _
  rw [hnprev, hnnext, hl₁]
  show (l₁.heap node).bind _ = _
  rw [hn₁]
  show l₁.setPrev n₁.next n₁.prev = _
  rw [hprev₁, hnext₁, hl₂]

lemma exists_removeOrder (hindex : l.nodeIndex[c.1]? = some node)
    (h : l.view.content node = some c)
    (hprev : l.view.Alive (l.view.prev (some node)))
    (hnext : l.view.Alive (l.view.next (some node)))
    (hne : l.view.prev (some node) ≠ some node) :
    ∃ l', l.removeOrder c.1 = some (true, l') ∧ l'.view = l.view.erase node c := by
  obtain ⟨n, hn, rfl, -⟩ := exists_heap h
  let l₁ : PriceLevel := { l with
    totalQuantity := l.totalQuantity - n.quantity
    orderCount := l.orderCount - 1 }
  obtain ⟨l₂, hl₂, h₂⟩ := exists_unlink (l := l₁) h hprev hnext hne
  have hcontent₂ : ({ l₂ with nodeIndex := l₂.nodeIndex.erase n.orderId } :
      PriceLevel).view.content node = some (n.orderId, n.quantity) := by
    show l₂.view.content node = _
    rw [h₂]
    exact h
  obtain ⟨l₃, hl₃, h₃⟩ := exists_delete hcontent₂
  refine ⟨l₃, ?_, ?_⟩
  · rw [removeOrder, findNode, hindex]
    show (l.heap node).bind _ = _
    rw [hn]
    show (l₁.unlink node).bind _ = _
    rw [hl₂]
    show (PriceLevel.delete _ node).bind _ = _
    rw [hl₃]
    rfl
  · rw [h₃]
    show { l₂.view with
      next := update l₂.view.next (some node) none
      prev := update l₂.view.prev (some node) none
      content := update l₂.view.content node none
      nodeIndex := l₂.view.nodeIndex.erase n.orderId } = _
    rw [h₂]
    rfl

lemma exists_modifyQuantity {orderId : OrderId} (hindex : l.nodeIndex[orderId]? = some node)
    (h : l.view.content node = some c) (newQuantity : Quantity) :
    ∃ l', l.modifyQuantity orderId newQuantity = some (true, l') ∧ l'.view = { l.view with
      content := update l.view.content node (some (c.1, newQuantity))
      totalQuantity := l.totalQuantity - c.2 + newQuantity } := by
  obtain ⟨n, hn, rfl, -⟩ := exists_heap h
  let l₁ : PriceLevel := { l with totalQuantity := l.totalQuantity - n.quantity + newQuantity }
  obtain ⟨l₂, hl₂, h₂⟩ := exists_assignQuantity (l := l₁) h fun _ => newQuantity
  refine ⟨l₂, ?_, h₂⟩
  rw [modifyQuantity, findNode, hindex]
  show (l.heap node).bind _ = _
  rw [hn]
  show (l₁.assign node _).bind _ = _
  rw [hl₂]
  rfl

lemma exists_popFront (hhead : l.head = some node) (h : l.view.content node = some c)
    (hprev : l.view.prev (some node) = none)
    (hnext : l.view.Alive (l.view.next (some node))) :
    ∃ l', l.popFront = some l' ∧ l'.view = l.view.erase node c := by
  obtain ⟨n, hn, rfl, -, hnnext⟩ := exists_heap h
  let l₁ : PriceLevel := { l with
    totalQuantity := l.totalQuantity - n.quantity
    orderCount := l.orderCount - 1
    head := n.next }
  have h₁ : l₁.view = { l.view with
      next := update l.view.next none n.next
      totalQuantity := l.totalQuantity - n.quantity
      orderCount := l.orderCount - 1 } :=
    congrArg (fun v : View => { v with
      totalQuantity := l.totalQuantity - n.quantity
      orderCount := l.orderCount - 1 }) (view_head n.next)
  have halive₁ : l₁.view.Alive n.next := by
    rw [h₁, hnnext]
    exact hnext
  obtain ⟨l₂, hl₂, h₂⟩ := exists_setPrev halive₁ none
  have hcontent₂ : l₂.view.content node = some (n.orderId, n.quantity) := by rw [h₂, h₁, h]
  obtain ⟨n₂, hn₂, heq₂, -⟩ := exists_heap hcontent₂
  obtain ⟨hid₂, -⟩ := Prod.mk.inj heq₂
  obtain ⟨l₃, hl₃, h₃⟩ := exists_delete
    (l := { l₂ with nodeIndex := l₂.nodeIndex.erase n.orderId }) hcontent₂
  refine ⟨l₃, ?_, ?_⟩
  · rw [popFront, hhead]
    show (l.heap node).bind _ = _
    rw [hn]
    show (l₁.setPrev n.next none).bind _ = _
    rw [hl₂]
    show (l₂.heap node).bind _ = _
    rw [hn₂]
    show PriceLevel.delete { l₂ with nodeIndex := l₂.nodeIndex.erase n₂.orderId } node = _
    rw [hid₂, hl₃]
  · rw [h₃]
    show { l₂.view with
      next := update l₂.view.next (some node) none
      prev := update l₂.view.prev (some node) none
      content := update l₂.view.content node none
      nodeIndex := l₂.view.nodeIndex.erase n.orderId } = _
    rw [h₂, h₁, hnnext, View.erase, hprev]
    rfl

/-- `fill_front` where the front is not used up. -/
lemma exists_fillFront {qty : Quantity} (hhead : l.head = some node)
    (h : l.view.content node = some c) (hqty : ¬ qty ≥ c.2) :
    ∃ l', l.fillFront qty = some l' ∧ l'.view = { l.view with
      content := update l.view.content node (some (c.1, c.2 - qty))
      totalQuantity := l.totalQuantity - qty } := by
  obtain ⟨n, hn, rfl, -⟩ := exists_heap h
  let l₁ : PriceLevel := { l with totalQuantity := l.totalQuantity - qty }
  obtain ⟨l₂, hl₂, h₂⟩ := exists_assignQuantity (l := l₁) h fun quantity => quantity - qty
  refine ⟨l₂, ?_, h₂⟩
  rw [fillFront, hhead]
  show (l.heap node).bind _ = _
  rw [hn]
  rw [Option.bind_some, if_neg hqty, ← hhead]
  exact hl₂

end PriceLevel

/-! ## What a level stands for -/

/-- The addresses of the chain. -/
def chain (l : Exchange.PriceLevel) : List Pointer := l.nodes.map fun n => some n.addr

/-- The pointers of `p` hold the queue of `l`, and the rest of the heap is as `outside` has it. -/
structure Represents (outside : Heap) (p : PriceLevel) (l : Exchange.PriceLevel) : Prop where
  ring : Ring p.view.next p.view.prev none (chain l)
  content : ∀ n ∈ l.nodes, p.view.content n.addr = some (n.orderId, n.quantity)
  elsewhere : ∀ a, (∀ n ∈ l.nodes, n.addr ≠ a) → p.heap a = outside a
  taken : ∀ n ∈ l.nodes, outside n.addr = none
  price_eq : p.view.price = l.price
  totalQuantity_eq : p.view.totalQuantity = l.totalQuantity
  orderCount_eq : p.view.orderCount = l.orderCount
  nodeIndex_eq : p.view.nodeIndex = l.nodeIndex

variable {outside : Heap} {p : PriceLevel} {l : Exchange.PriceLevel} {id : OrderId} {q : Quantity}
  {a : Addr} {r : Pointer}

lemma mem_chain : (some a : Pointer) ∈ chain l ↔ ∃ n ∈ l.nodes, n.addr = a := by
  simp [chain]

lemma ne_of_mem_chain (hout : ∀ n ∈ l.nodes, n.addr ≠ a) (hr : r ∈ none :: chain l) :
    r ≠ some a := by
  rintro rfl
  rcases List.mem_cons.mp hr with hnone | hmem
  · cases hnone
  · obtain ⟨n, hn, heq⟩ := mem_chain.mp hmem
    exact hout n hn heq

namespace Represents

theorem new (outside : Heap) (price : Price) :
    Represents outside { heap := outside, price } (.new price) where
  ring := .empty rfl rfl
  content := by simp
  elsewhere _ _ := rfl
  taken := by simp
  price_eq := rfl
  totalQuantity_eq := rfl
  orderCount_eq := rfl
  nodeIndex_eq := rfl

/-- What is linked can be assigned to. -/
lemma alive (h : Represents outside p l) (hr : r ∈ none :: chain l) : p.view.Alive r := by
  rintro node rfl
  rcases List.mem_cons.mp hr with hnone | hmem
  · cases hnone
  · obtain ⟨n, hn, rfl⟩ := mem_chain.mp hmem
    rw [h.content n hn]
    rfl

lemma addr_ne (h : Represents outside p l) (hnew : p.heap a = none) :
    ∀ n ∈ l.nodes, n.addr ≠ a := by
  rintro n hn rfl
  have hcontent := h.content n hn
  rw [show p.view.content n.addr = _ from congrArg (Option.map _) hnew] at hcontent
  cases hcontent

theorem addOrder (h : Represents outside p l) (hnew : p.heap a = none) (id : OrderId)
    (q : Quantity) : ∃ p', p.addOrder a id q = some p' ∧
      Represents outside p' (l.addOrderAt a (h.addr_ne hnew) id q) := by
  have hout := h.addr_ne hnew
  have htail := h.ring.prev_anchor_mem
  obtain ⟨p', hp', hview⟩ := PriceLevel.exists_addOrder (h.alive htail) id q
  refine ⟨p', hp', ?_, ?_, ?_, ?_, ?_, ?_, ?_, ?_⟩
  · have hring := h.ring.append (y := some a) fun hin => ne_of_mem_chain hout hin rfl
    rw [hview]
    show Ring _ _ none ((l.nodes ++ [_]).map _)
    rw [List.map_append]
    exact hring
  · intro n hn
    rw [hview]
    rcases List.mem_append.mp hn with hn | hn
    · exact (Function.update_of_ne (hout n hn) _ _).trans (h.content n hn)
    · rw [List.mem_singleton.mp hn]
      exact Function.update_self ..
  · intro b hb
    have hba : b ≠ a := fun heq => hb _ (List.mem_append_right _ List.mem_cons_self) heq.symm
    have hother : ∀ n ∈ l.nodes, n.addr ≠ b := fun n hn => hb n (List.mem_append_left _ hn)
    have hbtail : some b ≠ p.tail := (ne_of_mem_chain hother htail).symm
    have hb : (some b : Pointer) ≠ some a := fun heq => hba (Option.some.inj heq)
    rw [← h.elsewhere b hother]
    refine PriceLevel.heap_congr ?_ ?_ ?_
    · rw [hview]
      exact Function.update_of_ne hba _ _
    · rw [hview]
      exact (Function.update_of_ne hb _ _).trans
        (Function.update_of_ne (Option.some_ne_none b) _ _)
    · rw [hview]
      exact (Function.update_of_ne hbtail _ _).trans (Function.update_of_ne hb _ _)
  · intro n hn
    rcases List.mem_append.mp hn with hn | hn
    · exact h.taken n hn
    · rw [List.mem_singleton.mp hn, ← h.elsewhere a hout, hnew]
  · rw [hview]
    exact h.price_eq
  · rw [hview]
    show p.view.totalQuantity + q = _
    rw [h.totalQuantity_eq]
    rfl
  · rw [hview]
    show p.view.orderCount + 1 = _
    rw [h.orderCount_eq]
    rfl
  · rw [hview]
    show p.view.nodeIndex.insert id a = _
    rw [h.nodeIndex_eq]
    rfl

section Node

variable {n : Exchange.OrderNode} {pre post : List Exchange.OrderNode} {p' : PriceLevel}
  {l' : Exchange.PriceLevel}

lemma ring_split (h : Represents outside p l) (hsplit : l.nodes = pre ++ n :: post) :
    Ring p.view.next p.view.prev none
      (pre.map (fun m => some m.addr) ++ some n.addr :: post.map fun m => some m.addr) := by
  have hring := h.ring
  rwa [chain, hsplit, List.map_append, List.map_cons] at hring

lemma prev_mem_chain (h : Represents outside p l) (hsplit : l.nodes = pre ++ n :: post) :
    p.view.prev (some n.addr) ∈ none :: chain l := by
  rw [chain, hsplit, List.map_append]
  exact (List.Sublist.cons_cons none (List.sublist_append_left _ _)).subset
    (h.ring_split hsplit).prev_mem

lemma next_mem_chain (h : Represents outside p l) (hsplit : l.nodes = pre ++ n :: post) :
    p.view.next (some n.addr) ∈ none :: chain l := by
  rw [chain, hsplit, List.map_append, List.map_cons]
  refine (List.Sublist.cons_cons none ?_).subset (h.ring_split hsplit).next_mem
  exact (List.sublist_cons_self _ _).trans (List.sublist_append_right _ _)

lemma prev_ne (h : Represents outside p l) (hsplit : l.nodes = pre ++ n :: post) :
    p.view.prev (some n.addr) ≠ some n.addr := by
  have hring := h.ring_split hsplit
  have hmem := hring.prev_mem
  have hnodup := hring.nodup
  rw [← List.cons_append, List.nodup_append] at hnodup
  exact fun heq => hnodup.2.2 _ (heq ▸ hmem) _ List.mem_cons_self rfl

/-- Where a node is taken out of the chain and deleted, its address is free again, and those of
other levels are as they were. -/
lemma erase_elsewhere (h : Represents outside p l) (hsplit : l.nodes = pre ++ n :: post)
    (hview : p'.view = p.view.erase n.addr (n.orderId, n.quantity)) {b : Addr}
    (hb : ∀ m ∈ pre ++ post, m.addr ≠ b) : p'.heap b = outside b := by
  by_cases hbn : b = n.addr
  · subst hbn
    have hn : n ∈ l.nodes := hsplit ▸ List.mem_append_right _ List.mem_cons_self
    have hcontent : p'.view.content n.addr = none := by
      rw [hview]
      exact Function.update_self ..
    rw [h.taken n hn]
    exact Option.map_eq_none_iff.mp hcontent
  · have hother : ∀ m ∈ l.nodes, m.addr ≠ b := by
      intro m hm
      rw [hsplit] at hm
      rcases List.mem_append.mp hm with hm | hm
      · exact hb m (List.mem_append_left _ hm)
      · rcases List.mem_cons.mp hm with rfl | hm
        · exact Ne.symm hbn
        · exact hb m (List.mem_append_right _ hm)
    have hbn' : (some b : Pointer) ≠ some n.addr := fun heq => hbn (Option.some.inj heq)
    have hlink : ∀ r ∈ none :: chain l, some b ≠ r := fun r hr =>
      (ne_of_mem_chain hother hr).symm
    rw [← h.elsewhere b hother]
    refine PriceLevel.heap_congr ?_ ?_ ?_
    · rw [hview]
      exact Function.update_of_ne hbn _ _
    · rw [hview]
      exact (Function.update_of_ne hbn' _ _).trans
        (Function.update_of_ne (hlink _ (h.next_mem_chain hsplit)) _ _)
    · rw [hview]
      exact (Function.update_of_ne hbn' _ _).trans
        (Function.update_of_ne (hlink _ (h.prev_mem_chain hsplit)) _ _)

lemma erase (h : Represents outside p l) (hsplit : l.nodes = pre ++ n :: post)
    (hview : p'.view = p.view.erase n.addr (n.orderId, n.quantity))
    (hl' : l'.toLevelData = { l.toLevelData with
      totalQuantity := l.totalQuantity - n.quantity
      orderCount := l.orderCount - 1
      nodes := pre ++ post
      nodeIndex := l.nodeIndex.erase n.orderId }) : Represents outside p' l' := by
  have hring := h.ring_split hsplit
  have hnodes : l'.nodes = pre ++ post := by rw [hl']
  have hne : ∀ m ∈ l'.nodes, m.addr ≠ n.addr := hnodes ▸ l.wf.addr_ne hsplit
  have hmem : ∀ m ∈ l'.nodes, m ∈ l.nodes := by
    rw [hnodes, hsplit]
    exact ((List.sublist_cons_self n post).append_left pre).subset
  have hchain : chain l' = pre.map (fun m => some m.addr) ++ post.map fun m => some m.addr := by
    rw [chain, hnodes, List.map_append]
  refine ⟨?_, ?_, ?_, ?_, ?_, ?_, ?_, ?_⟩
  · have hplace : ∀ r ∈ none :: chain l', r ≠ some n.addr := fun r hr => ne_of_mem_chain hne hr
    rw [hview]
    rw [hchain] at hplace ⊢
    exact hring.unlink.congr (fun r hr => Function.update_of_ne (hplace r hr) _ _)
      fun r hr => Function.update_of_ne (hplace r hr) _ _
  · intro m hm
    rw [hview]
    exact (Function.update_of_ne (hne m hm) _ _).trans (h.content m (hmem m hm))
  · exact fun b hb => h.erase_elsewhere hsplit hview (hnodes ▸ hb)
  · exact fun m hm => h.taken m (hmem m hm)
  · rw [hview, hl']
    exact h.price_eq
  · rw [hview, hl']
    show p.view.totalQuantity - _ = _
    rw [h.totalQuantity_eq]
  · rw [hview, hl']
    show p.view.orderCount - 1 = _
    rw [h.orderCount_eq]
  · rw [hview, hl']
    show p.view.nodeIndex.erase _ = _
    rw [h.nodeIndex_eq]

/-- A quantity is written. -/
lemma setQuantity (h : Represents outside p l) (hsplit : l.nodes = pre ++ n :: post)
    {quantity total : Quantity}
    (hview : p'.view = { p.view with
      content := update p.view.content n.addr (some (n.orderId, quantity))
      totalQuantity := total })
    (hl' : l'.toLevelData = { l.toLevelData with
      totalQuantity := total
      nodes := pre ++ { n with quantity } :: post }) : Represents outside p' l' := by
  have hnodes : l'.nodes = pre ++ { n with quantity } :: post := by rw [hl']
  have hchain : chain l' = chain l := by
    rw [chain, chain, hnodes, hsplit]
    simp
  refine ⟨?_, ?_, ?_, ?_, ?_, ?_, ?_, ?_⟩
  · rw [hview, hchain]
    exact h.ring
  · intro m hm
    have hne := l.wf.addr_ne hsplit
    have hold := h.content
    rw [hsplit] at hold
    rw [hnodes] at hm
    rw [hview]
    rcases List.mem_append.mp hm with hm | hm
    · exact (Function.update_of_ne (hne m (List.mem_append_left _ hm)) _ _).trans
        (hold m (List.mem_append_left _ hm))
    · rcases List.mem_cons.mp hm with rfl | hm
      · exact Function.update_self ..
      · exact (Function.update_of_ne (hne m (List.mem_append_right _ hm)) _ _).trans
          (hold m (List.mem_append_right _ (List.mem_cons_of_mem n hm)))
  · intro b hb
    have hother : ∀ m ∈ l.nodes, m.addr ≠ b := by
      intro m hm heq
      obtain ⟨m', hm', heq'⟩ := mem_chain.mp (hchain ▸ mem_chain.mpr ⟨m, hm, heq⟩)
      exact hb m' hm' heq'
    have hn : n ∈ l.nodes := hsplit ▸ List.mem_append_right _ List.mem_cons_self
    rw [← h.elsewhere b hother]
    refine PriceLevel.heap_congr ?_ ?_ ?_
    · rw [hview]
      exact Function.update_of_ne (hother n hn).symm _ _
    · rw [hview]
    · rw [hview]
  · intro m hm
    obtain ⟨m', hm', heq⟩ := mem_chain.mp (hchain ▸ mem_chain.mpr ⟨m, hm, rfl⟩)
    rw [← heq]
    exact h.taken m' hm'
  · rw [hview, hl']
    exact h.price_eq
  · rw [hview, hl']
  · rw [hview, hl']
    exact h.orderCount_eq
  · rw [hview, hl']
    exact h.nodeIndex_eq

end Node

/-- The index of the one has a node for an id where the other finds one. -/
lemma exists_split (h : Represents outside p l) {n : Exchange.OrderNode}
    (hfind : l.findNode id = some n) : ∃ pre post, l.nodes = pre ++ n :: post ∧
      n.orderId = id ∧ p.nodeIndex[id]? = some n.addr ∧
      p.view.content n.addr = some (n.orderId, n.quantity) := by
  obtain ⟨hn, hid, hindex⟩ := (LevelData.findNode_eq_some l.wf).mp hfind
  obtain ⟨pre, post, hsplit⟩ := List.append_of_mem hn
  refine ⟨pre, post, hsplit, hid, ?_, h.content n hn⟩
  show p.view.nodeIndex[id]? = _
  rw [h.nodeIndex_eq, hindex]

lemma index_eq_none (h : Represents outside p l) (hfind : l.findNode id = none) :
    p.nodeIndex[id]? = none := by
  show p.view.nodeIndex[id]? = _
  rw [h.nodeIndex_eq]
  cases hindex : l.nodeIndex[id]? with
  | none => rfl
  | some a =>
      obtain ⟨n, hn, rfl, hid⟩ := l.wf.index_live id a hindex
      rw [(LevelData.findNode_eq_some l.wf).mpr ⟨hn, hid, hindex⟩] at hfind
      cases hfind

theorem removeOrder (h : Represents outside p l) (id : OrderId) :
    ∃ p', p.removeOrder id = some ((l.toLevelData.removeOrder id).1, p') ∧
      Represents outside p' (l.removeOrder id) := by
  cases hfind : l.findNode id with
  | none =>
      have hsame : l.toLevelData.removeOrder id = (false, l.toLevelData) := by
        rw [LevelData.removeOrder, hfind]
      have hl : l.removeOrder id = l := PriceLevel.ext_data (congrArg Prod.snd hsame)
      refine ⟨p, ?_, by rwa [hl]⟩
      rw [PriceLevel.removeOrder, PriceLevel.findNode, h.index_eq_none hfind, hsame]
  | some n =>
      obtain ⟨pre, post, hsplit, rfl, hindex, hcontent⟩ := h.exists_split hfind
      obtain ⟨p', hp', hview⟩ := PriceLevel.exists_removeOrder hindex hcontent
        (h.alive (h.prev_mem_chain hsplit)) (h.alive (h.next_mem_chain hsplit)) (h.prev_ne hsplit)
      have hremove : l.toLevelData.removeOrder n.orderId = (true, { l.toLevelData with
          totalQuantity := l.totalQuantity - n.quantity
          orderCount := l.orderCount - 1
          nodes := pre ++ post
          nodeIndex := l.nodeIndex.erase n.orderId }) := by
        simp only [LevelData.removeOrder, hfind, LevelData.unlink_eq l.wf hsplit]
      exact ⟨p', by rw [hp', hremove], h.erase hsplit hview (congrArg Prod.snd hremove)⟩

theorem modifyQuantity (h : Represents outside p l) (id : OrderId) (q : Quantity) :
    ∃ p', p.modifyQuantity id q = some ((l.toLevelData.modifyQuantity id q).1, p') ∧
      Represents outside p' (l.modifyQuantity id q) := by
  cases hfind : l.findNode id with
  | none =>
      have hsame : l.toLevelData.modifyQuantity id q = (false, l.toLevelData) := by
        rw [LevelData.modifyQuantity, hfind]
      have hl : l.modifyQuantity id q = l := PriceLevel.ext_data (congrArg Prod.snd hsame)
      refine ⟨p, ?_, by rwa [hl]⟩
      rw [PriceLevel.modifyQuantity, PriceLevel.findNode, h.index_eq_none hfind, hsame]
  | some n =>
      obtain ⟨pre, post, hsplit, rfl, hindex, hcontent⟩ := h.exists_split hfind
      obtain ⟨p', hp', hview⟩ := PriceLevel.exists_modifyQuantity hindex hcontent q
      have hmodify : l.toLevelData.modifyQuantity n.orderId q = (true, { l.toLevelData with
          totalQuantity := l.totalQuantity - n.quantity + q
          nodes := pre ++ { n with quantity := q } :: post }) := by
        simp only [LevelData.modifyQuantity, hfind, LevelData.modify_eq l.wf hsplit]
      refine ⟨p', by rw [hp', hmodify], h.setQuantity hsplit hview ?_⟩
      rw [show p.totalQuantity = l.totalQuantity from h.totalQuantity_eq]
      exact congrArg Prod.snd hmodify

/-- `head_` is null where the chain is empty. -/
lemma head_nil (h : Represents outside p l) (hl : l.nodes = []) : p.head = none := by
  have hring := h.ring
  rw [chain, hl] at hring
  exact hring.next_anchor_nil

/-- `head_` is the first node, and nothing is before that. -/
lemma head_cons {n : Exchange.OrderNode} {rest : List Exchange.OrderNode}
    (h : Represents outside p l) (hl : l.nodes = n :: rest) :
    p.head = some n.addr ∧ p.view.prev (some n.addr) = none := by
  have hring := h.ring
  rw [chain, hl, List.map_cons] at hring
  exact hring.linked_first

theorem popFront (h : Represents outside p l) :
    ∃ p', p.popFront = some p' ∧ Represents outside p' l.popFront := by
  cases hl : l.nodes with
  | nil =>
      have hsame : l.popFront = l := PriceLevel.ext_data (by
        simp only [Exchange.PriceLevel.popFront, LevelData.popFront, hl])
      refine ⟨p, ?_, by rwa [hsame]⟩
      rw [PriceLevel.popFront, h.head_nil hl]
  | cons n rest =>
      have hsplit : l.nodes = [] ++ n :: rest := hl
      have hn : n ∈ l.nodes := hl ▸ List.mem_cons_self
      obtain ⟨hhead, hprev⟩ := h.head_cons hl
      obtain ⟨p', hp', hview⟩ := PriceLevel.exists_popFront hhead (h.content n hn) hprev
        (h.alive (h.next_mem_chain hsplit))
      refine ⟨p', hp', h.erase hsplit hview ?_⟩
      simp only [Exchange.PriceLevel.popFront, LevelData.popFront, hl]
      rfl

theorem fillFront (h : Represents outside p l) (q : Quantity) :
    ∃ p', p.fillFront q = some p' ∧ Represents outside p' (l.fillFront q) := by
  cases hl : l.nodes with
  | nil =>
      have hsame : l.fillFront q = l := PriceLevel.ext_data (by
        simp only [Exchange.PriceLevel.fillFront, LevelData.fillFront, hl])
      refine ⟨p, ?_, by rwa [hsame]⟩
      rw [PriceLevel.fillFront, h.head_nil hl]
  | cons n rest =>
      have hsplit : l.nodes = [] ++ n :: rest := hl
      have hcontent := h.content n (hl ▸ List.mem_cons_self)
      obtain ⟨hhead, -⟩ := h.head_cons hl
      by_cases hq : q ≥ n.quantity
      · have hsame : l.fillFront q = l.popFront := PriceLevel.ext_data (by
          simp only [Exchange.PriceLevel.fillFront, Exchange.PriceLevel.popFront,
            LevelData.fillFront, hl, if_pos hq])
        obtain ⟨m, hm, heq, -⟩ := PriceLevel.exists_heap hcontent
        obtain ⟨-, hquantity⟩ := Prod.mk.inj heq
        rw [hsame, PriceLevel.fillFront, hhead]
        show ∃ p', (p.heap n.addr).bind _ = _ ∧ _
        rw [hm, Option.bind_some, hquantity, if_pos hq]
        exact h.popFront
      · obtain ⟨p', hp', hview⟩ := PriceLevel.exists_fillFront hhead hcontent hq
        refine ⟨p', hp', h.setQuantity hsplit hview ?_⟩
        rw [show p.totalQuantity = l.totalQuantity from h.totalQuantity_eq]
        simp only [Exchange.PriceLevel.fillFront, LevelData.fillFront, hl, if_neg hq]
        rfl

theorem frontOrderId (h : Represents outside p l) : p.frontOrderId = some l.frontOrderId := by
  cases hl : l.nodes with
  | nil => rw [PriceLevel.frontOrderId, h.head_nil hl, LevelData.frontOrderId, hl]
  | cons n rest =>
      obtain ⟨m, hm, heq, -⟩ := PriceLevel.exists_heap (h.content n (hl ▸ List.mem_cons_self))
      obtain ⟨hid, -⟩ := Prod.mk.inj heq
      rw [PriceLevel.frontOrderId, (h.head_cons hl).1, LevelData.frontOrderId, hl]
      show (p.heap n.addr).map _ = _
      rw [hm, Option.map_some, hid]

end Represents

end Exchange.Pointers
