import Exchange.PriceLevel.Model
import Mathlib.Algebra.Order.BigOperators.Group.List
import Mathlib.Algebra.Order.Ring.Nat

/-!
# Well-formed price levels

Every function of the class keeps `LevelData.Wf` (`LevelData.Wf.addOrder` and so on), so a
`PriceLevel` carries it as a field and the order book never has to speak of it again.

A level is `Indexed` when every node is the one its id is indexed to.  That is what makes lookups by
id mean what they say: then ids do not repeat, and removing or modifying *the* node of an id is a
list operation on the queue (`nodes_removeOrder`, `nodes_modifyQuantity`).  Removals commute
(`removeOrder_comm`), and removing what was just added gives the level back
(`removeOrder_addOrder`).
-/

namespace Exchange

open Std (ExtTreeMap)

namespace LevelData

variable {l : LevelData}

lemma Wf.new (p : Price) : ({ price := p } : LevelData).Wf where
  orderCount_eq := rfl
  total_eq := rfl
  addr_nodup := List.nodup_nil
  index_live := by simp

/-- `add_order`, with the node wherever `new` puts it. -/
def addOrderAt (l : LevelData) (addr : Nat) (orderId : OrderId) (quantity : Quantity) :
    LevelData :=
  { l with
    nodeIndex := l.nodeIndex.insert orderId addr
    nodes := l.nodes ++ [{ orderId, quantity, addr }]
    totalQuantity := l.totalQuantity + quantity
    orderCount := l.orderCount + 1 }

theorem Wf.addOrderAt (h : l.Wf) {addr : Nat} (haddr : ∀ n ∈ l.nodes, n.addr ≠ addr)
    (id : OrderId) (q : Quantity) : (l.addOrderAt addr id q).Wf where
  orderCount_eq := by simp [LevelData.addOrderAt, h.orderCount_eq]
  total_eq := by
    have := h.total_eq
    simp only [openQuantity, LevelData.addOrderAt, List.map_append, List.map_cons, List.map_nil,
      List.sum_append, List.sum_cons, List.sum_nil, UInt32.toNat_add] at this ⊢
    omega
  addr_nodup := by
    simp only [LevelData.addOrderAt, List.map_append, List.map_cons, List.map_nil]
    refine List.nodup_append.mpr ⟨h.addr_nodup, List.nodup_singleton _, ?_⟩
    intro a ha b hb hab
    obtain ⟨n, hn, rfl⟩ := List.mem_map.mp ha
    rw [List.mem_singleton.mp hb] at hab
    exact haddr n hn hab
  index_live := by
    intro id' a ha
    simp only [LevelData.addOrderAt, ExtTreeMap.getElem?_insert, Std.compare_eq_iff_eq] at ha ⊢
    split at ha
    · rename_i heq
      cases ha
      exact ⟨_, List.mem_append_right _ List.mem_cons_self, rfl, heq⟩
    · obtain ⟨n, hn, hna⟩ := h.index_live id' a ha
      exact ⟨n, List.mem_append_left _ hn, hna⟩

theorem Wf.addOrder (h : l.Wf) (id : OrderId) (q : Quantity) : (l.addOrder id q).Wf :=
  h.addOrderAt (fun _ hn => Nat.ne_of_lt (addr_lt_newAddr hn)) id q

lemma Wf.popFront (h : l.Wf) : l.popFront.Wf := by
  rw [LevelData.popFront]
  split
  · exact h
  · rename_i n rest hnodes
    have hnd := h.addr_nodup
    rw [hnodes, List.map_cons, List.nodup_cons] at hnd
    refine ⟨?_, ?_, hnd.2, ?_⟩
    · simp [h.orderCount_eq, hnodes]
    · have htotal := h.total_eq
      have hlt := n.quantity.toNat_lt
      simp only [openQuantity, hnodes, List.map_cons, List.sum_cons, UInt32.toNat_sub]
        at htotal ⊢
      omega
    · intro id a ha
      simp only [ExtTreeMap.getElem?_erase, Std.compare_eq_iff_eq] at ha
      split at ha
      · cases ha
      · rename_i hne
        obtain ⟨m, hm, hma, hmid⟩ := h.index_live id a ha
        rw [hnodes] at hm
        rcases List.mem_cons.mp hm with rfl | hm
        · exact absurd hmid hne
        · exact ⟨m, hm, hma, hmid⟩

theorem Wf.fillFront (h : l.Wf) (q : Quantity) : (l.fillFront q).Wf := by
  rw [LevelData.fillFront]
  split
  · exact h
  · rename_i n rest hnodes
    split
    · exact h.popFront
    · rename_i hlt
      have hlt' : q.toNat < n.quantity.toNat := by
        simpa [UInt32.le_iff_toNat_le] using hlt
      refine ⟨?_, ?_, ?_, ?_⟩
      · simp [h.orderCount_eq, hnodes]
      · have htotal := h.total_eq
        have hbound := n.quantity.toNat_lt
        have hsub := UInt32.toNat_sub_of_le n.quantity q (UInt32.le_iff_toNat_le.mpr (by omega))
        simp only [openQuantity, hnodes, List.map_cons, List.sum_cons] at htotal ⊢
        rw [hsub, UInt32.toNat_sub]
        omega
      · have hnd := h.addr_nodup
        rwa [hnodes, List.map_cons] at hnd
      · intro id a ha
        obtain ⟨m, hm, hma, hmid⟩ := h.index_live id a ha
        rw [hnodes] at hm
        rcases List.mem_cons.mp hm with rfl | hm
        · exact ⟨_, List.mem_cons_self, hma, hmid⟩
        · exact ⟨m, List.mem_cons_of_mem _ hm, hma, hmid⟩

lemma Wf.removeOrder (h : l.Wf) (id : OrderId) : (l.removeOrder id).2.Wf := by
  rw [LevelData.removeOrder]
  split
  · exact h
  · rename_i node hfind
    obtain ⟨hnode, hid, -⟩ := (findNode_eq_some h).mp hfind
    obtain ⟨hlen, hsum⟩ := unlink_spec h hnode
    refine ⟨?_, ?_, ?_, ?_⟩
    · have := h.orderCount_eq
      simp only
      omega
    · have htotal := h.total_eq
      have hlt := node.quantity.toNat_lt
      simp only [UInt32.toNat_sub]
      rw [← hsum] at htotal
      simp only [openQuantity]
      omega
    · exact h.addr_nodup.sublist (List.Sublist.map _ List.filter_sublist)
    · intro id' a ha
      simp only [ExtTreeMap.getElem?_erase, Std.compare_eq_iff_eq] at ha
      split at ha
      · cases ha
      · rename_i hne
        obtain ⟨m, hm, hma, hmid⟩ := h.index_live id' a ha
        refine ⟨m, List.mem_filter.mpr ⟨hm, ?_⟩, hma, hmid⟩
        have haddr : m.addr ≠ node.addr := fun heq =>
          hne (by rw [← hid, ← hmid, h.eq_of_addr hm hnode heq])
        simpa using haddr

/-- Writing a node's quantity replaces its share of the sum. -/
lemma openQuantity_modify (h : l.Wf) {node : OrderNode} (hn : node ∈ l.nodes) (q : Quantity) :
    ((l.nodes.map fun n => if n.addr = node.addr then { n with quantity := q } else n).map
        (·.quantity.toNat)).sum + node.quantity.toNat = l.openQuantity + q.toNat := by
  obtain ⟨pre, post, hsplit⟩ := List.append_of_mem hn
  rw [modify_eq h hsplit, openQuantity, hsplit]
  simp only [List.map_append, List.map_cons, List.sum_append, List.sum_cons]
  omega

lemma Wf.modifyQuantity (h : l.Wf) (id : OrderId) (q : Quantity) :
    (l.modifyQuantity id q).2.Wf := by
  rw [LevelData.modifyQuantity]
  split
  · exact h
  · rename_i node hfind
    obtain ⟨hnode, -, -⟩ := (findNode_eq_some h).mp hfind
    have haddr : (l.nodes.map fun n =>
        if n.addr = node.addr then { n with quantity := q } else n).map (·.addr)
          = l.nodes.map (·.addr) := by
      rw [List.map_map]
      refine List.map_congr_left fun n _ => ?_
      simp only [Function.comp]
      split_ifs <;> rfl
    refine ⟨?_, ?_, ?_, ?_⟩
    · simp [h.orderCount_eq]
    · have htotal := h.total_eq
      have hmod := openQuantity_modify h hnode q
      have hlt := node.quantity.toNat_lt
      simp only [UInt32.toNat_add, UInt32.toNat_sub, openQuantity] at hmod htotal ⊢
      omega
    · simpa only [haddr] using h.addr_nodup
    · intro id' a ha
      obtain ⟨m, hm, hma, hmid⟩ := h.index_live id' a ha
      refine ⟨_, List.mem_map_of_mem hm, ?_, ?_⟩
      · split_ifs <;> exact hma
      · split_ifs <;> exact hmid

end LevelData

/-! ## The level as a value -/

/-- The class `PriceLevel`: its members, with what its functions keep. -/
structure PriceLevel extends LevelData where
  wf : toLevelData.Wf

namespace PriceLevel

def new (p : Price) : PriceLevel := ⟨{ price := p }, .new p⟩

def addOrder (l : PriceLevel) (id : OrderId) (q : Quantity) : PriceLevel :=
  ⟨l.toLevelData.addOrder id q, l.wf.addOrder id q⟩

/-- `add_order`, with the node wherever `new` puts it. -/
def addOrderAt (l : PriceLevel) (addr : Nat) (haddr : ∀ n ∈ l.nodes, n.addr ≠ addr)
    (id : OrderId) (q : Quantity) : PriceLevel :=
  ⟨l.toLevelData.addOrderAt addr id q, l.wf.addOrderAt haddr id q⟩

/-- The order book ignores the flag that `remove_order` returns. -/
def removeOrder (l : PriceLevel) (id : OrderId) : PriceLevel :=
  ⟨(l.toLevelData.removeOrder id).2, l.wf.removeOrder id⟩

/-- The order book ignores the flag that `modify_quantity` returns. -/
def modifyQuantity (l : PriceLevel) (id : OrderId) (q : Quantity) : PriceLevel :=
  ⟨(l.toLevelData.modifyQuantity id q).2, l.wf.modifyQuantity id q⟩

def popFront (l : PriceLevel) : PriceLevel := ⟨l.toLevelData.popFront, l.wf.popFront⟩

def fillFront (l : PriceLevel) (q : Quantity) : PriceLevel :=
  ⟨l.toLevelData.fillFront q, l.wf.fillFront q⟩

variable {l : PriceLevel} {n : OrderNode} {rest : List OrderNode} {id : OrderId} {q : Quantity}

theorem empty_iff : l.empty = true ↔ l.nodes = [] := by
  simp [LevelData.empty, l.wf.orderCount_eq]

theorem empty_eq_false_iff : l.empty = false ↔ l.nodes ≠ [] := by
  rw [← Bool.not_eq_true, empty_iff]

@[simp] lemma nodes_new (p : Price) : (new p).nodes = [] := rfl

@[simp] lemma nodes_addOrder :
    (l.addOrder id q).nodes = l.nodes ++ [{ orderId := id, quantity := q, addr := l.newAddr }] :=
  rfl

@[simp] lemma nodes_popFront : l.popFront.nodes = l.nodes.tail := by
  simp only [popFront, LevelData.popFront]
  split <;> simp [*]

lemma nodes_fillFront (hl : l.nodes = n :: rest) :
    (l.fillFront q).nodes
      = if q ≥ n.quantity then rest else { n with quantity := n.quantity - q } :: rest := by
  simp only [fillFront, LevelData.fillFront, hl]
  split
  · simp [LevelData.popFront, hl]
  · rfl

lemma frontOrderId_eq (hl : l.nodes = n :: rest) : l.frontOrderId = n.orderId := by
  simp [LevelData.frontOrderId, hl]

lemma nodes_removeOrder_sublist : (l.removeOrder id).nodes.Sublist l.nodes := by
  simp only [removeOrder, LevelData.removeOrder]
  split
  · exact List.Sublist.refl _
  · exact List.filter_sublist

lemma ids_modifyQuantity :
    (l.modifyQuantity id q).nodes.map (·.orderId) = l.nodes.map (·.orderId) := by
  simp only [modifyQuantity, LevelData.modifyQuantity]
  split
  · rfl
  · rw [List.map_map]
    refine List.map_congr_left fun n _ => ?_
    simp only [Function.comp]
    split_ifs <;> rfl

/-! ## What the nodes have left -/

@[simp] lemma openQuantity_new (p : Price) : (new p).openQuantity = 0 := rfl

lemma openQuantity_addOrder :
    (l.addOrder id q).openQuantity = l.openQuantity + q.toNat := by
  simp [LevelData.openQuantity]

lemma openQuantity_le_of_sublist {l l' : PriceLevel} (h : l'.nodes.Sublist l.nodes) :
    l'.openQuantity ≤ l.openQuantity :=
  (h.map _).sum_le_sum fun _ _ => Nat.zero_le _

lemma openQuantity_popFront_le : l.popFront.openQuantity ≤ l.openQuantity := by
  refine openQuantity_le_of_sublist ?_
  rw [nodes_popFront]
  exact List.tail_sublist _

lemma openQuantity_removeOrder_le : (l.removeOrder id).openQuantity ≤ l.openQuantity :=
  openQuantity_le_of_sublist nodes_removeOrder_sublist

lemma openQuantity_fillFront_le (hl : l.nodes = n :: rest) :
    (l.fillFront q).openQuantity ≤ l.openQuantity := by
  rw [LevelData.openQuantity, LevelData.openQuantity, nodes_fillFront hl, hl]
  split_ifs with hq
  · rw [List.map_cons, List.sum_cons]
    exact Nat.le_add_left _ _
  · have hle : q ≤ n.quantity := UInt32.le_of_lt (UInt32.not_le.mp hq)
    rw [List.map_cons, List.map_cons, List.sum_cons, List.sum_cons, UInt32.toNat_sub_of_le _ _ hle]
    omega

/-! ## Indexed levels -/

/-- Every node is the one its id is indexed to. -/
def Indexed (l : PriceLevel) : Prop := ∀ n ∈ l.nodes, l.nodeIndex[n.orderId]? = some n.addr

lemma Indexed.eq_of_orderId (h : l.Indexed) {m : OrderNode} (hm : m ∈ l.nodes)
    (hn : n ∈ l.nodes) (heq : m.orderId = n.orderId) : m = n := by
  have hidx := h m hm
  rw [heq, h n hn] at hidx
  exact l.wf.eq_of_addr hm hn (Option.some.inj hidx).symm

lemma Indexed.ids_nodup (h : l.Indexed) : (l.nodes.map (·.orderId)).Nodup := by
  have hnd : l.nodes.Nodup := List.Nodup.of_map _ l.wf.addr_nodup
  exact (List.nodup_map_iff_inj_on hnd).mpr fun m hm n hn heq => h.eq_of_orderId hm hn heq

lemma Indexed.findNode_eq (h : l.Indexed) (hn : n ∈ l.nodes) :
    l.findNode n.orderId = some n :=
  (LevelData.findNode_eq_some l.wf).mpr ⟨hn, rfl, h n hn⟩

lemma findNode_eq_none (hid : ∀ n ∈ l.nodes, n.orderId ≠ id) : l.findNode id = none := by
  cases hfind : l.findNode id with
  | none => rfl
  | some n =>
      obtain ⟨hn, hnid, -⟩ := (LevelData.findNode_eq_some l.wf).mp hfind
      exact absurd hnid (hid n hn)

lemma Indexed.new (p : Price) : (PriceLevel.new p).Indexed := by
  intro n hn
  cases hn

theorem Indexed.addOrderAt (h : l.Indexed) {addr : Nat} (haddr : ∀ n ∈ l.nodes, n.addr ≠ addr)
    (hid : ∀ n ∈ l.nodes, n.orderId ≠ id) : (l.addOrderAt addr haddr id q).Indexed := by
  intro n hn
  simp only [PriceLevel.addOrderAt, LevelData.addOrderAt, ExtTreeMap.getElem?_insert,
    Std.compare_eq_iff_eq, List.mem_append, List.mem_singleton] at hn ⊢
  rcases hn with hn | rfl
  · rw [if_neg (hid n hn).symm, h n hn]
  · rw [if_pos rfl]

theorem Indexed.addOrder (h : l.Indexed) (hid : ∀ n ∈ l.nodes, n.orderId ≠ id) :
    (l.addOrder id q).Indexed :=
  h.addOrderAt (fun _ hn => Nat.ne_of_lt (LevelData.addr_lt_newAddr hn)) hid

lemma Indexed.popFront (h : l.Indexed) : l.popFront.Indexed := by
  have hids := h.ids_nodup
  intro n hn
  simp only [PriceLevel.popFront, LevelData.popFront] at hn ⊢
  split at hn
  · rename_i hnil
    rw [hnil] at hn
    cases hn
  · rename_i m rest hl
    rw [hl, List.map_cons, List.nodup_cons] at hids
    have hne : m.orderId ≠ n.orderId := fun heq => hids.1 (heq ▸ List.mem_map_of_mem hn)
    simp only [ExtTreeMap.getElem?_erase, Std.compare_eq_iff_eq, if_neg hne]
    exact h n (hl ▸ List.mem_cons_of_mem _ hn)

theorem Indexed.fillFront (h : l.Indexed) : (l.fillFront q).Indexed := by
  cases hl : l.nodes with
  | nil => simp [Indexed, PriceLevel.fillFront, LevelData.fillFront, hl]
  | cons m rest =>
      by_cases hq : q ≥ m.quantity
      · have heq : l.fillFront q = l.popFront := by
          simp [PriceLevel.fillFront, PriceLevel.popFront, LevelData.fillFront, hl, hq]
        rw [heq]
        exact h.popFront
      · intro n hn
        rw [nodes_fillFront hl, if_neg hq] at hn
        simp only [PriceLevel.fillFront, LevelData.fillFront, hl, if_neg hq]
        rcases List.mem_cons.mp hn with rfl | hn
        · exact h m (hl ▸ List.mem_cons_self)
        · exact h n (hl ▸ List.mem_cons_of_mem _ hn)

/-- **Removal by id is deletion from the queue.** -/
theorem Indexed.nodes_removeOrder (h : l.Indexed) (id : OrderId) :
    (l.removeOrder id).nodes = l.nodes.filter (·.orderId ≠ id) := by
  by_cases hid : ∃ n ∈ l.nodes, n.orderId = id
  · obtain ⟨n, hn, rfl⟩ := hid
    simp only [removeOrder, LevelData.removeOrder, h.findNode_eq hn, LevelData.unlink]
    refine List.filter_congr fun m hm => ?_
    have hiff : m.addr = n.addr ↔ m.orderId = n.orderId :=
      ⟨fun heq => by rw [l.wf.eq_of_addr hm hn heq], fun heq => by rw [h.eq_of_orderId hm hn heq]⟩
    simp [hiff]
  · have hne : ∀ n ∈ l.nodes, n.orderId ≠ id := fun n hn heq => hid ⟨n, hn, heq⟩
    simp only [removeOrder, LevelData.removeOrder, findNode_eq_none hne]
    exact (List.filter_eq_self.mpr fun n hn => by simpa using hne n hn).symm

lemma Indexed.removeOrder (h : l.Indexed) (id : OrderId) : (l.removeOrder id).Indexed := by
  intro n hn
  have hn' := hn
  rw [h.nodes_removeOrder, List.mem_filter] at hn'
  obtain ⟨hmem, hne⟩ := hn'
  have hne : n.orderId ≠ id := by simpa using hne
  simp only [PriceLevel.removeOrder, LevelData.removeOrder]
  split
  · exact h n hmem
  · simp only [ExtTreeMap.getElem?_erase, Std.compare_eq_iff_eq, if_neg hne.symm]
    exact h n hmem

/-- **Modification by id is an update of the queue.** -/
theorem Indexed.nodes_modifyQuantity (h : l.Indexed) (id : OrderId) (q : Quantity) :
    (l.modifyQuantity id q).nodes
      = l.nodes.map fun n => if n.orderId = id then { n with quantity := q } else n := by
  by_cases hid : ∃ n ∈ l.nodes, n.orderId = id
  · obtain ⟨n, hn, rfl⟩ := hid
    simp only [modifyQuantity, LevelData.modifyQuantity, h.findNode_eq hn]
    refine List.map_congr_left fun m hm => ?_
    have hiff : m.addr = n.addr ↔ m.orderId = n.orderId :=
      ⟨fun heq => by rw [l.wf.eq_of_addr hm hn heq], fun heq => by rw [h.eq_of_orderId hm hn heq]⟩
    simp [hiff]
  · have hne : ∀ n ∈ l.nodes, n.orderId ≠ id := fun n hn heq => hid ⟨n, hn, heq⟩
    simp only [modifyQuantity, LevelData.modifyQuantity, findNode_eq_none hne]
    conv_lhs => rw [← List.map_id l.nodes]
    exact List.map_congr_left fun n hn => by simp only [if_neg (hne n hn), id_eq]

lemma Indexed.modifyQuantity (h : l.Indexed) (id : OrderId) (q : Quantity) :
    (l.modifyQuantity id q).Indexed := by
  intro n hn
  rw [h.nodes_modifyQuantity] at hn
  obtain ⟨m, hm, rfl⟩ := List.mem_map.mp hn
  have hidx : (l.modifyQuantity id q).nodeIndex = l.nodeIndex := by
    simp only [PriceLevel.modifyQuantity, LevelData.modifyQuantity]
    split <;> rfl
  rw [hidx]
  split_ifs <;> exact h m hm

/-! ## Removal undone and reordered -/

section Removal

variable {n' : OrderNode}

/-- The invariant adds nothing to what a level is. -/
lemma ext_data {l l' : PriceLevel} (h : l.toLevelData = l'.toLevelData) : l = l' := by
  cases l
  cases l'
  cases h
  rfl

/-- What removing an indexed order leaves, member by member. -/
lemma Indexed.toLevelData_removeOrder (h : l.Indexed) (hn : n ∈ l.nodes) :
    (l.removeOrder n.orderId).toLevelData
      = { l.toLevelData with
          totalQuantity := l.totalQuantity - n.quantity
          orderCount := l.orderCount - 1
          nodes := l.nodes.filter (·.orderId ≠ n.orderId)
          nodeIndex := l.nodeIndex.erase n.orderId } := by
  have hremove : (l.removeOrder n.orderId).toLevelData
      = { l.toLevelData with
          totalQuantity := l.totalQuantity - n.quantity
          orderCount := l.orderCount - 1
          nodes := l.unlink n
          nodeIndex := l.nodeIndex.erase n.orderId } := by
    show (l.toLevelData.removeOrder n.orderId).2 = _
    rw [LevelData.removeOrder, h.findNode_eq hn]
  have hnodes := h.nodes_removeOrder n.orderId
  rw [hremove] at hnodes ⊢
  rw [← hnodes]

lemma Indexed.mem_removeOrder (h : l.Indexed) (hn : n ∈ l.nodes) (hne : n.orderId ≠ id) :
    n ∈ (l.removeOrder id).nodes := by
  rw [h.nodes_removeOrder, List.mem_filter]
  exact ⟨hn, by simpa using hne⟩

theorem Indexed.removeOrder_comm (h : l.Indexed) (hn : n ∈ l.nodes) (hn' : n' ∈ l.nodes)
    (hne : n.orderId ≠ n'.orderId) :
    (l.removeOrder n.orderId).removeOrder n'.orderId
      = (l.removeOrder n'.orderId).removeOrder n.orderId := by
  refine ext_data ?_
  rw [(h.removeOrder _).toLevelData_removeOrder (h.mem_removeOrder hn' hne.symm),
    h.toLevelData_removeOrder hn,
    (h.removeOrder _).toLevelData_removeOrder (h.mem_removeOrder hn hne),
    h.toLevelData_removeOrder hn']
  have htotal : l.totalQuantity - n.quantity - n'.quantity
      = l.totalQuantity - n'.quantity - n.quantity := by
    grind
  have hindex : (l.nodeIndex.erase n.orderId).erase n'.orderId
      = (l.nodeIndex.erase n'.orderId).erase n.orderId := by
    ext id a
    grind
  have hnodes : (l.nodes.filter (·.orderId ≠ n.orderId)).filter (·.orderId ≠ n'.orderId)
      = (l.nodes.filter (·.orderId ≠ n'.orderId)).filter (·.orderId ≠ n.orderId) :=
    List.filter_comm _ _ _
  simp only [htotal, hindex, hnodes]

theorem Indexed.removeOrder_addOrder (h : l.Indexed) (hid : ∀ n ∈ l.nodes, n.orderId ≠ id) :
    (l.addOrder id q).removeOrder id = l := by
  have hadd : (l.addOrder id q).Indexed := h.addOrder hid
  have hmem : ⟨id, q, l.newAddr⟩ ∈ (l.addOrder id q).nodes := by
    rw [nodes_addOrder]
    exact List.mem_append_right _ List.mem_cons_self
  have hindex : l.nodeIndex[id]? = none := by
    cases ha : l.nodeIndex[id]? with
    | none => rfl
    | some a =>
        obtain ⟨n, hn, -, hnid⟩ := l.wf.index_live id a ha
        exact absurd hnid (hid n hn)
  have hnodes : (l.addOrder id q).nodes.filter (·.orderId ≠ id) = l.nodes := by
    rw [nodes_addOrder, List.filter_append, List.filter_eq_self.mpr]
    · simp
    · intro n hn
      simpa using hid n hn
  have htotal : l.totalQuantity + q - q = l.totalQuantity := by grind
  have hback : (l.nodeIndex.insert id l.newAddr).erase id = l.nodeIndex := by
    ext i a
    grind
  refine ext_data ((hadd.toLevelData_removeOrder hmem).trans ?_)
  rw [hnodes]
  show LevelData.mk l.price (l.totalQuantity + q - q) (l.orderCount + 1 - 1) l.nodes
    ((l.nodeIndex.insert id l.newAddr).erase id) = l.toLevelData
  rw [htotal, hback, Nat.add_sub_cancel]

end Removal

end PriceLevel

end Exchange
