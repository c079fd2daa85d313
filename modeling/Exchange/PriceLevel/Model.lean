import Exchange.Order
import Mathlib.Algebra.Ring.Nat
import Mathlib.Data.List.Nodup

/-!
# A price level

`PriceLevel` of `engine/price_level.hpp`: the FIFO queue of the orders resting at one price, a
doubly-linked chain of `OrderNode`s with a hash index from order ids to nodes.

The chain is modelled by the list `nodes` of the nodes met from `head_` along `next`.  A pointer is
the *address* of a node; the index maps ids to addresses, as the source's maps ids to pointers, and
not to nodes: an id that is queued twice has two nodes and one index entry, the newer node's, and
popping the older node erases that entry.  Both happen in reachable books, so the index is kept
apart from the chain here too.

`LevelData` has the members and functions of the class; `PriceLevel` adds what every one of these
functions keeps, whatever it is called with (`LevelData.Wf`): the count is the length of the chain,
the total is the sum of the node quantities modulo `2 ^ 32`, no two nodes share an address, and no
index entry dangles.
-/

namespace Exchange

open Std (ExtTreeMap)

/-- A node of the chain.  `addr` is where `new` put it. -/
structure OrderNode where
  orderId : OrderId
  quantity : Quantity
  addr : Nat
deriving DecidableEq, Repr

/-- The members of the class `PriceLevel`. -/
structure LevelData where
  price : Price
  totalQuantity : Quantity := 0
  orderCount : Nat := 0
  nodes : List OrderNode := []
  nodeIndex : ExtTreeMap OrderId Nat compare := ∅

namespace LevelData

/-! ## The functions of the class -/

/-- The allocator: some address that no live node has. -/
def newAddr (l : LevelData) : Nat := l.nodes.foldr (fun n a => max (n.addr + 1) a) 0

def addOrder (l : LevelData) (orderId : OrderId) (quantity : Quantity) : LevelData :=
  let node : OrderNode := { orderId, quantity, addr := l.newAddr }
  { l with
    nodeIndex := l.nodeIndex.insert orderId node.addr
    nodes := l.nodes ++ [node]
    totalQuantity := l.totalQuantity + quantity
    orderCount := l.orderCount + 1 }

/-- `find_node`: the index entry, followed. -/
def findNode (l : LevelData) (orderId : OrderId) : Option OrderNode :=
  match l.nodeIndex[orderId]? with
  | none => none
  | some a => l.nodes.find? (·.addr = a)

def unlink (l : LevelData) (node : OrderNode) : List OrderNode :=
  l.nodes.filter (·.addr ≠ node.addr)

def removeOrder (l : LevelData) (orderId : OrderId) : Bool × LevelData :=
  match l.findNode orderId with
  | none => (false, l)
  | some node =>
      (true, { l with
        totalQuantity := l.totalQuantity - node.quantity
        orderCount := l.orderCount - 1
        nodes := l.unlink node
        nodeIndex := l.nodeIndex.erase orderId })

def modifyQuantity (l : LevelData) (orderId : OrderId) (newQuantity : Quantity) :
    Bool × LevelData :=
  match l.findNode orderId with
  | none => (false, l)
  | some node =>
      (true, { l with
        totalQuantity := l.totalQuantity - node.quantity + newQuantity
        nodes := l.nodes.map fun n =>
          if n.addr = node.addr then { n with quantity := newQuantity } else n })

def frontOrderId (l : LevelData) : OrderId :=
  match l.nodes with
  | [] => invalidOrderId
  | head :: _ => head.orderId

def popFront (l : LevelData) : LevelData :=
  match l.nodes with
  | [] => l
  | oldHead :: rest =>
      { l with
        totalQuantity := l.totalQuantity - oldHead.quantity
        orderCount := l.orderCount - 1
        nodes := rest
        nodeIndex := l.nodeIndex.erase oldHead.orderId }

def fillFront (l : LevelData) (qty : Quantity) : LevelData :=
  match l.nodes with
  | [] => l
  | head :: rest =>
      if qty ≥ head.quantity then l.popFront
      else
        { l with
          totalQuantity := l.totalQuantity - qty
          nodes := { head with quantity := head.quantity - qty } :: rest }

def empty (l : LevelData) : Bool := l.orderCount == 0

/-! ## What they all keep -/

/-- The sum of the node quantities, as a natural number. -/
def openQuantity (l : LevelData) : Nat := (l.nodes.map (·.quantity.toNat)).sum

/-- Count, total, addresses and index agree with the chain. -/
structure Wf (l : LevelData) : Prop where
  orderCount_eq : l.orderCount = l.nodes.length
  total_eq : l.totalQuantity.toNat = l.openQuantity % 2 ^ 32
  addr_nodup : (l.nodes.map (·.addr)).Nodup
  index_live : ∀ (id : OrderId) (a : Nat), l.nodeIndex[id]? = some a →
    ∃ n ∈ l.nodes, n.addr = a ∧ n.orderId = id

variable {l : LevelData}

lemma addr_lt_newAddr {n : OrderNode} (hn : n ∈ l.nodes) : n.addr < l.newAddr := by
  rw [newAddr]
  generalize l.nodes = nodes at hn
  induction nodes with
  | nil => cases hn
  | cons m ms ih =>
      rw [List.foldr_cons]
      rcases List.mem_cons.mp hn with rfl | hn
      · omega
      · have := ih hn
        omega

/-- Addresses are identities. -/
lemma Wf.eq_of_addr (h : l.Wf) {m n : OrderNode} (hm : m ∈ l.nodes) (hn : n ∈ l.nodes)
    (heq : m.addr = n.addr) : m = n :=
  List.inj_on_of_nodup_map h.addr_nodup hm hn heq

lemma findNode_eq_some (h : l.Wf) {id : OrderId} {n : OrderNode} :
    l.findNode id = some n ↔ n ∈ l.nodes ∧ n.orderId = id ∧ l.nodeIndex[id]? = some n.addr := by
  rw [findNode]
  cases hidx : l.nodeIndex[id]? with
  | none => simp
  | some a =>
      obtain ⟨m, hm, hma, hmid⟩ := h.index_live id a hidx
      constructor
      · intro hf
        have hna : n.addr = a := by simpa using List.find?_some hf
        have hn : n ∈ l.nodes := List.mem_of_find?_eq_some hf
        have hnm : n = m := h.eq_of_addr hn hm (by rw [hna, hma])
        exact ⟨hn, by rw [hnm, hmid], by rw [hna]⟩
      · rintro ⟨hn, -, ha⟩
        cases ha
        cases hf : l.nodes.find? (·.addr = n.addr) with
        | none => simpa using List.find?_eq_none.mp hf n hn
        | some m' =>
            have haddr : m'.addr = n.addr := by simpa using List.find?_some hf
            have hm' : m' = n := h.eq_of_addr (List.mem_of_find?_eq_some hf) hn haddr
            simp only [hf, hm']

/-- No other node is at the address of a node. -/
lemma Wf.addr_ne (h : l.Wf) {node : OrderNode} {pre post : List OrderNode}
    (hsplit : l.nodes = pre ++ node :: post) : ∀ n ∈ pre ++ post, n.addr ≠ node.addr := by
  have hnd := h.addr_nodup
  rw [hsplit, List.map_append, List.map_cons, List.nodup_append] at hnd
  obtain ⟨-, hpost, hdis⟩ := hnd
  intro n hn
  rcases List.mem_append.mp hn with hn | hn
  · exact hdis n.addr (List.mem_map_of_mem hn) node.addr List.mem_cons_self
  · exact fun heq => (List.nodup_cons.mp hpost).1 (heq ▸ List.mem_map_of_mem hn)

/-- The chain before and behind the node is what is left. -/
lemma unlink_eq (h : l.Wf) {node : OrderNode} {pre post : List OrderNode}
    (hsplit : l.nodes = pre ++ node :: post) : l.unlink node = pre ++ post := by
  have hne := h.addr_ne hsplit
  rw [unlink]
  rw [hsplit, List.filter_append, List.filter_cons_of_neg (by simp), ← List.filter_append,
    List.filter_eq_self]
  intro n hn
  simpa using hne n hn

/-- Writing a node's quantity leaves the chain before and behind it. -/
lemma modify_eq (h : l.Wf) {node : OrderNode} {pre post : List OrderNode}
    (hsplit : l.nodes = pre ++ node :: post) (q : Quantity) :
    (l.nodes.map fun n => if n.addr = node.addr then { n with quantity := q } else n)
      = pre ++ { node with quantity := q } :: post := by
  have hne := h.addr_ne hsplit
  have hsame : ∀ ns : List OrderNode, (∀ n ∈ ns, n.addr ≠ node.addr) →
      ns.map (fun n => if n.addr = node.addr then { n with quantity := q } else n) = ns := by
    intro ns hns
    conv_rhs => rw [← List.map_id ns]
    exact List.map_congr_left fun n hn => by rw [if_neg (hns n hn), id]
  rw [hsplit, List.map_append, List.map_cons, if_pos rfl, hsame pre, hsame post]
  · exact fun n hn => hne n (List.mem_append_right _ hn)
  · exact fun n hn => hne n (List.mem_append_left _ hn)

/-- Taking the node found out of the chain lowers count and sum by its share. -/
lemma unlink_spec (h : l.Wf) {node : OrderNode} (hn : node ∈ l.nodes) :
    (l.unlink node).length + 1 = l.nodes.length ∧
      ((l.unlink node).map (·.quantity.toNat)).sum + node.quantity.toNat = l.openQuantity := by
  obtain ⟨pre, post, hsplit⟩ := List.append_of_mem hn
  rw [openQuantity]
  rw [unlink_eq h hsplit, hsplit]
  simp only [List.length_append, List.length_cons, List.map_append, List.map_cons,
    List.sum_append, List.sum_cons]
  omega

end LevelData

end Exchange
