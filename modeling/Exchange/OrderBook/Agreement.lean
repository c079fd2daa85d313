import Exchange.OrderBook.Calls

/-!
# Orders, queue nodes and level totals agree

The open quantity of a resting order is stored three times: in `orders_`, in the node that queues
it, and in the total of its level.  `Store.Agrees` ties the first two together (the third is a field
of `PriceLevel`): every resting order has a node in the level of its own side and price, and every
node queues an order of that side and price with exactly that much left.

Every operation touches one order and the one level that queues it, so each is an instance of one
rule, `Store.Agrees.update`.  The exception is `replace_order` at the same price, which writes the
same number into the order's total quantity and into the node's open quantity:

* **`representation`** — with replaces to another price only, every reachable book is represented
  without a flaw;
* **`in_place_agreement`** — in general, agreement lasts exactly as long as no order is replaced in
  place that has already been partly filled.
-/

namespace Exchange

open OrderBook MatchState

namespace Store

/-- The node `n` waits in the level at `p`. -/
def Queues (s : Store) (side : Side) (p : Price) (n : OrderNode) : Prop :=
  ∃ level, (s.levels side)[p]? = some level ∧ n ∈ level.nodes

/-- The resting orders and the nodes of the queues agree. -/
structure Agrees (s : Store) : Prop where
  id_eq : ∀ {id : OrderId} {o : Order}, s.orders[id]? = some o → o.id = id
  filled_le : ∀ {id : OrderId} {o : Order}, s.orders[id]? = some o → o.filledQty ≤ o.quantity
  queued : ∀ {id : OrderId} {o : Order}, s.orders[id]? = some o →
    ∃ n, s.Queues o.side o.price n ∧ n.orderId = id
  node : ∀ {side : Side} {p : Price} {n : OrderNode}, s.Queues side p n →
    ∃ o, s.orders[n.orderId]? = some o ∧ o.side = side ∧ o.price = p ∧ n.quantity = o.remaining
  indexed : ∀ {side : Side} {p : Price} {level : PriceLevel},
    (s.levels side)[p]? = some level → level.Indexed

lemma Agrees.empty : ({} : Store).Agrees where
  id_eq h := by simp at h
  filled_le h := by simp at h
  queued h := by simp at h
  node {side} _ _ h := by
    obtain ⟨level, h, -⟩ := h
    cases side <;> simp [levels] at h
  indexed {side} _ _ h := by cases side <;> simp [levels] at h

variable {s s' : Store}

/-- Agreement reads the orders and the nodes queued; empty levels and the cached best prices are
none of its business. -/
lemma Agrees.congr (h : s.Agrees) (horders : s'.orders = s.orders)
    (hlevels : ∀ (side : Side) (p : Price) (level : PriceLevel),
      (s'.levels side)[p]? = some level → (s.levels side)[p]? = some level)
    (hqueues : ∀ side p n, s.Queues side p n → s'.Queues side p n) : s'.Agrees where
  id_eq ho := h.id_eq (horders ▸ ho)
  filled_le ho := h.filled_le (horders ▸ ho)
  queued ho := by
    obtain ⟨n, hn, hid⟩ := h.queued (horders ▸ ho)
    exact ⟨n, hqueues _ _ _ hn, hid⟩
  node hn := by
    obtain ⟨level, hl, hmem⟩ := hn
    rw [horders]
    exact h.node ⟨level, hlevels _ _ _ hl, hmem⟩
  indexed hl := h.indexed (hlevels _ _ _ hl)

/-- A level says all there is to say about its queue. -/
theorem queues_iff {side : Side} {p : Price} {level : PriceLevel}
    (hl : (s.levels side)[p]? = some level) (n : OrderNode) :
    s.Queues side p n ↔ n ∈ level.nodes := by
  refine ⟨?_, fun hn => ⟨level, hl, hn⟩⟩
  rintro ⟨level', hl', hn⟩
  rw [hl] at hl'
  cases hl'
  exact hn

lemma queues_congr {side : Side} {p : Price}
    (h : (s'.levels side)[p]? = (s.levels side)[p]?) (n : OrderNode) :
    s'.Queues side p n ↔ s.Queues side p n := by
  simp only [Queues]
  rw [h]

/-- Nodes of one id are one node. -/
lemma Agrees.node_unique (h : s.Agrees) {side side' : Side} {p p' : Price} {n n' : OrderNode}
    (hn : s.Queues side p n) (hn' : s.Queues side' p' n') (hid : n.orderId = n'.orderId) :
    side = side' ∧ p = p' ∧ n = n' := by
  obtain ⟨o, ho, hside, hprice, -⟩ := h.node hn
  obtain ⟨o', ho', hside', hprice', -⟩ := h.node hn'
  rw [hid, ho'] at ho
  cases ho
  have hs : side = side' := hside.symm.trans hside'
  have hp : p = p' := hprice.symm.trans hprice'
  subst hs hp
  obtain ⟨level, hl, hmem⟩ := hn
  exact ⟨rfl, rfl, (h.indexed hl).eq_of_orderId hmem ((queues_iff hl n').mp hn') hid⟩

/-- **One order and its level.**  An operation that changes nothing but the order `id` and the
level at `p`, in which alone `id` may have been queued, keeps the agreement if it keeps the other
nodes of that level and leaves `id` and its nodes in agreement. -/
theorem Agrees.update (h : s.Agrees) (side : Side) (p : Price) (id : OrderId)
    (hlevels : ∀ (side' : Side) (k : Price), ¬ (side' = side ∧ k = p) →
      (s'.levels side')[k]? = (s.levels side')[k]?)
    (horders : ∀ i ≠ id, s'.orders[i]? = s.orders[i]?)
    (hplace : ∀ o, s.orders[id]? = some o → o.side = side ∧ o.price = p)
    (hothers : ∀ n, n.orderId ≠ id → (s'.Queues side p n ↔ s.Queues side p n))
    (horder : ∀ o, s'.orders[id]? = some o → o.id = id ∧ o.filledQty ≤ o.quantity ∧
      o.side = side ∧ o.price = p ∧ ∃ n, s'.Queues side p n ∧ n.orderId = id)
    (hnode : ∀ n, s'.Queues side p n → n.orderId = id →
      ∃ o, s'.orders[id]? = some o ∧ n.quantity = o.remaining)
    (hindexed : ∀ level, (s'.levels side)[p]? = some level → level.Indexed) : s'.Agrees where
  id_eq {i o} ho := by
    by_cases hi : i = id
    · subst hi
      exact (horder o ho).1
    · exact h.id_eq (horders i hi ▸ ho)
  filled_le {i o} ho := by
    by_cases hi : i = id
    · subst hi
      exact (horder o ho).2.1
    · exact h.filled_le (horders i hi ▸ ho)
  queued {i o} ho := by
    by_cases hi : i = id
    · subst hi
      obtain ⟨-, -, hside, hprice, hn⟩ := horder o ho
      rwa [hside, hprice]
    · rw [horders i hi] at ho
      obtain ⟨n, hn, hid⟩ := h.queued ho
      refine ⟨n, ?_, hid⟩
      by_cases hat : o.side = side ∧ o.price = p
      · rw [hat.1, hat.2] at hn ⊢
        exact (hothers n (hid ▸ hi)).mpr hn
      · exact (queues_congr (hlevels _ _ hat) n).mpr hn
  node {side' k n} hn := by
    by_cases hat : side' = side ∧ k = p
    · obtain ⟨rfl, rfl⟩ := hat
      by_cases hi : n.orderId = id
      · obtain ⟨o, ho, hq⟩ := hnode n hn hi
        obtain ⟨-, -, hside, hprice, -⟩ := horder o ho
        exact ⟨o, hi ▸ ho, hside, hprice, hq⟩
      · rw [horders _ hi]
        exact h.node ((hothers n hi).mp hn)
    · have hn' := (queues_congr (hlevels side' k hat) n).mp hn
      obtain ⟨o, ho, hside, hprice, hq⟩ := h.node hn'
      have hi : n.orderId ≠ id := fun hi => by
        obtain ⟨hs, hp⟩ := hplace o (hi ▸ ho)
        exact hat ⟨hside.symm.trans hs, hprice.symm.trans hp⟩
      exact ⟨o, by rw [horders _ hi, ho], hside, hprice, hq⟩
  indexed {side' k level} hl := by
    by_cases hat : side' = side ∧ k = p
    · obtain ⟨rfl, rfl⟩ := hat
      exact hindexed level hl
    · exact h.indexed (hlevels _ _ hat ▸ hl)

/-! ## Entering and leaving the book -/

/-- The level a new order is appended to has no node of its id. -/
lemma Agrees.queues_targetLevel (h : s.Agrees) {o : Order} (hnew : s.orders[o.id]? = none)
    {n : OrderNode} (hn : n ∈ (s.targetLevel o).nodes) :
    s.Queues o.side o.price n ∧ n.orderId ≠ o.id := by
  rw [targetLevel] at hn
  cases hl : (s.levels o.side)[o.price]? with
  | none => rw [hl] at hn; cases hn
  | some level =>
      rw [hl] at hn
      have hq : s.Queues o.side o.price n := ⟨level, hl, hn⟩
      refine ⟨hq, fun hid => ?_⟩
      obtain ⟨o', ho', -⟩ := h.node hq
      rw [hid, hnew] at ho'
      cases ho'

lemma Agrees.indexed_targetLevel (h : s.Agrees) (o : Order) : (s.targetLevel o).Indexed := by
  rw [targetLevel]
  cases hl : (s.levels o.side)[o.price]? with
  | none => exact PriceLevel.Indexed.new _
  | some level => exact h.indexed hl

theorem Agrees.insertRestingOrder (h : s.Agrees) {o : Order} (hnew : s.orders[o.id]? = none)
    (hle : o.filledQty ≤ o.quantity) : (s.insertRestingOrder o).Agrees := by
  have hat : ((s.insertRestingOrder o).levels o.side)[o.price]?
      = some ((s.targetLevel o).addOrder o.id o.remaining) := by
    rw [getElem?_insertRestingOrder, if_pos ⟨rfl, rfl⟩]
  have hself : (s.insertRestingOrder o).orders[o.id]? = some o := by
    rw [getElem?_orders_insertRestingOrder, if_pos rfl]
  refine h.update o.side o.price o.id ?_ ?_ ?_ ?_ ?_ ?_ ?_
  · intro side' k hne
    rw [getElem?_insertRestingOrder, if_neg hne]
  · intro i hi
    rw [getElem?_orders_insertRestingOrder, if_neg hi]
  · intro o' ho'
    rw [hnew] at ho'
    cases ho'
  · intro n hn
    rw [queues_iff hat, PriceLevel.nodes_addOrder, List.mem_append, List.mem_singleton]
    constructor
    · rintro (hmem | rfl)
      · exact (h.queues_targetLevel hnew hmem).1
      · exact absurd rfl hn
    · rintro ⟨level, hl, hmem⟩
      exact Or.inl (by simpa [targetLevel, hl] using hmem)
  · intro o' ho'
    rw [hself] at ho'
    cases ho'
    refine ⟨rfl, hle, rfl, rfl, ⟨o.id, o.remaining, (s.targetLevel o).newAddr⟩,
      (queues_iff hat _).mpr ?_, rfl⟩
    rw [PriceLevel.nodes_addOrder]
    exact List.mem_append_right _ List.mem_cons_self
  · intro n hn hid
    rw [queues_iff hat, PriceLevel.nodes_addOrder, List.mem_append, List.mem_singleton] at hn
    rcases hn with hmem | rfl
    · exact absurd hid (h.queues_targetLevel hnew hmem).2
    · exact ⟨o, hself, rfl⟩
  · intro level hl
    rw [hat] at hl
    cases hl
    exact (h.indexed_targetLevel o).addOrder fun n hn => (h.queues_targetLevel hnew hn).2

theorem Agrees.cancelOrder (h : s.Agrees) {id : OrderId} {o : Order}
    (ho : s.orders[id]? = some o) : (s.cancelOrder id o).Agrees := by
  obtain ⟨n, ⟨level, hl, -⟩, -⟩ := h.queued ho
  have hindexed := h.indexed hl
  have hat : ((s.cancelOrder id o).levels o.side)[o.price]?
      = if (level.removeOrder id).empty then none else some (level.removeOrder id) := by
    rw [levels_cancelOrder, getElem?_removeOrderFromLevel, if_pos ⟨rfl, rfl⟩, hl]
    rfl
  -- what is queued there afterwards: the nodes of the other ids
  have hqueues : ∀ n, (s.cancelOrder id o).Queues o.side o.price n ↔
      s.Queues o.side o.price n ∧ n.orderId ≠ id := by
    intro n
    have hmem : n ∈ (level.removeOrder id).nodes ↔ n ∈ level.nodes ∧ n.orderId ≠ id := by
      rw [hindexed.nodes_removeOrder, List.mem_filter, decide_eq_true_eq]
    rw [queues_iff hl, ← hmem, Queues, hat]
    split_ifs with hempty
    · simp [PriceLevel.empty_iff.mp hempty]
    · simp
  have hgone : (s.cancelOrder id o).orders[id]? = none := by
    rw [getElem?_orders_cancelOrder, if_pos rfl]
  refine h.update o.side o.price id ?_ ?_ ?_ ?_ ?_ ?_ ?_
  · intro side' k hne
    rw [levels_cancelOrder, getElem?_removeOrderFromLevel, if_neg hne]
  · intro i hi
    rw [getElem?_orders_cancelOrder, if_neg hi]
  · intro o' ho'
    rw [ho] at ho'
    cases ho'
    exact ⟨rfl, rfl⟩
  · intro n hn
    rw [hqueues n]
    exact and_iff_left hn
  · intro o' ho'
    rw [hgone] at ho'
    cases ho'
  · intro n hn hid
    exact absurd hid ((hqueues n).mp hn).2
  · intro level' hl'
    rw [hat] at hl'
    split_ifs at hl' with hempty
    cases hl'
    exact hindexed.removeOrder id

/-- The level and the order as a replace in place leaves them. -/
lemma amend_self (s : Store) (id : OrderId) (existing : Order) (level : PriceLevel)
    (newQty : Quantity) :
    ((amend s id existing level newQty).levels existing.side)[existing.price]?
        = some (level.modifyQuantity id newQty) ∧
      (amend s id existing level newQty).orders[id]?
        = some { existing with quantity := newQty } := by
  constructor
  · rw [amend, levels_setOrder, getElem?_setLevel, if_pos ⟨rfl, rfl⟩]
  · rw [amend, getElem?_setOrder, if_pos rfl]

/-- A replace in place of an order of which nothing is filled. -/
theorem Agrees.amend (h : s.Agrees) {id : OrderId} {newPrice : Price} {existing : Order}
    {level : PriceLevel} (hin : InPlace s id newPrice existing level)
    (hunfilled : existing.filledQty = 0) (newQty : Quantity) :
    (amend s id existing level newQty).Agrees := by
  have hindexed := h.indexed hin.level_eq
  obtain ⟨hat, hself⟩ := amend_self s id existing level newQty
  have hremaining : ({ existing with quantity := newQty } : Order).remaining = newQty := by
    simp [Order.remaining, hunfilled]
  have hqueues : ∀ n, (OrderBook.amend s id existing level newQty).Queues existing.side
      existing.price n ↔ ∃ m, s.Queues existing.side existing.price m ∧
        n = if m.orderId = id then { m with quantity := newQty } else m := by
    intro n
    rw [queues_iff hat, hindexed.nodes_modifyQuantity, List.mem_map]
    simp only [queues_iff hin.level_eq, eq_comm]
  refine h.update existing.side existing.price id ?_ ?_ ?_ ?_ ?_ ?_ ?_
  · intro side' k hne
    rw [OrderBook.amend, levels_setOrder, getElem?_setLevel, if_neg hne]
  · intro i hi
    rw [OrderBook.amend, getElem?_setOrder, if_neg hi, orders_setLevel]
  · intro o ho
    rw [hin.order_eq] at ho
    cases ho
    exact ⟨rfl, rfl⟩
  · intro n hn
    rw [hqueues n]
    constructor
    · rintro ⟨m, hm, rfl⟩
      split_ifs at hn ⊢ with hid
      · exact absurd hid hn
      · exact hm
    · intro hm
      exact ⟨n, hm, by rw [if_neg hn]⟩
  · intro o ho
    rw [hself] at ho
    cases ho
    obtain ⟨m, hm, hid⟩ := h.queued hin.order_eq
    have hexid : existing.id = id := h.id_eq hin.order_eq
    refine ⟨hexid, ?_, rfl, rfl, { m with quantity := newQty }, ?_, hid⟩
    · simp [hunfilled]
    · exact (hqueues _).mpr ⟨m, hm, by rw [if_pos hid]⟩
  · intro n hn hid
    refine ⟨_, hself, ?_⟩
    obtain ⟨m, -, rfl⟩ := (hqueues n).mp hn
    rw [hremaining]
    split_ifs at hid ⊢ with hm
    · rfl
    · exact absurd hid hm
  · intro level' hl'
    rw [hat] at hl'
    cases hl'
    exact hindexed.modifyQuantity id newQty

/-! ## The front of a queue -/

section Front

variable {m : MatchState} {p : Price} {level : PriceLevel} {n : OrderNode} {rest : List OrderNode}
  {resting : Order}

lemma queues_front (hfront : AtFront p m level n rest) : m.book.store.Queues m.opposite p n :=
  ⟨level, hfront.level_eq, by rw [hfront.nodes_eq]; exact List.mem_cons_self⟩

/-- No node is without its order. -/
lemma Agrees.not_ghost (h : m.book.store.Agrees) (hfront : AtFront p m level n rest) :
    m.book.store.orders[n.orderId]? ≠ none := by
  obtain ⟨o, ho, -⟩ := h.node (queues_front hfront)
  rw [ho]
  exact Option.some_ne_none o

/-- What the order at the front has left is what its node says. -/
theorem Agrees.front (h : m.book.store.Agrees) (hfill : AtFill p m level n rest resting) :
    resting.id = n.orderId ∧ resting.side = m.opposite ∧ resting.price = p ∧
      n.quantity = resting.remaining ∧ resting.filledQty ≤ resting.quantity := by
  obtain ⟨o, ho, hside, hprice, hq⟩ := h.node (queues_front hfill.toAtFront)
  rw [hfill.order_eq] at ho
  cases ho
  exact ⟨h.id_eq hfill.order_eq, hside, hprice, hq, h.filled_le hfill.order_eq⟩

/-- The node at the front goes exactly when its order is filled. -/
lemma Agrees.nodes_fillFront (h : m.book.store.Agrees) (hfill : AtFill p m level n rest resting) :
    (level.fillFront (m.fillQty resting)).nodes
      = if (resting.fill (m.fillQty resting)).2.isFilled then rest
        else { n with quantity := n.quantity - m.fillQty resting } :: rest := by
  obtain ⟨-, -, -, hnq, hle⟩ := h.front hfill
  have hq : m.fillQty resting ≤ resting.remaining := Order.min_quantity_le_right _ _
  rw [PriceLevel.nodes_fillFront hfill.nodes_eq]
  refine if_congr ?_ rfl rfl
  rw [Order.fill_isFilled_iff hle hq, hnq, ge_iff_le]
  exact ⟨fun hge => UInt32.le_antisymm hq hge, fun heq => heq ▸ UInt32.le_refl _⟩

/-- No other node of the queue has the id of the one at the front. -/
lemma Agrees.rest_orderId_ne (h : m.book.store.Agrees) (hfront : AtFront p m level n rest)
    {k : OrderNode} (hk : k ∈ rest) : k.orderId ≠ n.orderId := by
  have hids := (h.indexed hfront.level_eq).ids_nodup
  rw [hfront.nodes_eq, List.map_cons, List.nodup_cons] at hids
  exact fun heq => hids.1 (heq ▸ List.mem_map_of_mem hk)

theorem Agrees.fillStore (h : m.book.store.Agrees) (hfill : AtFill p m level n rest resting) :
    (m.fillStore p level n.orderId resting).Agrees := by
  obtain ⟨hid, hside, hprice, hnq, hle⟩ := h.front hfill
  have hq : m.fillQty resting ≤ resting.remaining := Order.min_quantity_le_right _ _
  have hnodes := h.nodes_fillFront hfill
  have hat : ((m.fillStore p level n.orderId resting).levels m.opposite)[p]?
      = some (level.fillFront (m.fillQty resting)) := by
    rw [getElem?_levels_fillStore, if_pos ⟨rfl, rfl⟩]
  have hqueues := fun k => queues_iff hat (n := k)
  have hself : (m.fillStore p level n.orderId resting).orders[n.orderId]?
      = if (resting.fill (m.fillQty resting)).2.isFilled then none
        else some (resting.fill (m.fillQty resting)).2 := by
    rw [getElem?_orders_fillStore, if_pos rfl]
  refine h.update m.opposite p n.orderId ?_ ?_ ?_ ?_ ?_ ?_ ?_
  · intro side' k hne
    rw [getElem?_levels_fillStore, if_neg hne]
  · intro i hi
    rw [getElem?_orders_fillStore, if_neg hi]
  · intro o ho
    rw [hfill.order_eq] at ho
    cases ho
    exact ⟨hside, hprice⟩
  · intro k hk
    rw [hqueues, hnodes, queues_iff hfill.level_eq, hfill.nodes_eq]
    split_ifs
    · rw [List.mem_cons]
      exact (or_iff_right fun heq => hk (by rw [heq])).symm
    · rw [List.mem_cons, List.mem_cons]
      refine or_congr_left ⟨fun heq => absurd (by rw [heq]) hk, fun heq => absurd (by rw [heq]) hk⟩
  · intro o ho
    rw [hself] at ho
    split_ifs at ho with hfilled
    cases ho
    refine ⟨by rw [Order.fill_id, hid], Order.fill_le hle hq, by rw [Order.fill_side, hside],
      by rw [Order.fill_price, hprice], { n with quantity := n.quantity - m.fillQty resting },
      ?_, rfl⟩
    rw [hqueues, hnodes, if_neg hfilled]
    exact List.mem_cons_self
  · intro k hk hkid
    rw [hqueues, hnodes] at hk
    split_ifs at hk with hfilled
    · exact absurd hkid (h.rest_orderId_ne hfill.toAtFront hk)
    · rcases List.mem_cons.mp hk with rfl | hk
      · refine ⟨_, by rw [hself, if_neg hfilled], ?_⟩
        rw [Order.remaining_fill hq, hnq]
      · exact absurd hkid (h.rest_orderId_ne hfill.toAtFront hk)
  · intro level' hl'
    rw [hat] at hl'
    cases hl'
    exact (h.indexed hfill.level_eq).fillFront

end Front

end Store

namespace OrderBook

/-! ## Matching keeps the agreement -/

theorem agrees_invariant :
    MatchInvariant (fun m => m.book.store.Agrees) fun _ m => m.book.store.Agrees := by
  refine .of_uniform ?_ ?_ ?_ ?_ ?_
  · intro m h
    refine h.congr (by simp [refreshBest]) (fun side p level hl => ?_) fun side p n hn => ?_
    · simpa [refreshBest] using hl
    · simpa [refreshBest, Store.Queues] using hn
  · intro p m level n rest h hfront gone
    exact absurd gone (h.not_ghost hfront)
  · exact fun m h => h
  · exact fun p m level n rest resting h hfill => h.fillStore hfill
  · intro p m level h hlevel hnil
    refine h.congr (by simp) (fun side k level' hl => ?_) fun side k n hn => ?_
    · rw [store_setStore, Store.getElem?_eraseLevel] at hl
      split_ifs at hl
      exact hl
    · obtain ⟨level', hl, hmem⟩ := hn
      refine ⟨level', ?_, hmem⟩
      rw [store_setStore, Store.getElem?_eraseLevel, if_neg, hl]
      rintro ⟨rfl, rfl⟩
      rw [level?, hl] at hlevel
      cases hlevel
      rw [hnil] at hmem
      cases hmem

/-! ## Kinds of resting orders -/

/-- Every resting order satisfies `P`. -/
def AllOrders (s : Store) (P : Order → Prop) : Prop :=
  ∀ (id : OrderId) (o : Order), s.orders[id]? = some o → P o

/-- What is true of orders put in the book, and of makers as long as they are open, is true of all
resting orders after matching. -/
theorem AllOrders.matchOrder {b : OrderBook} {P : Order → Prop} (h : AllOrders b.store P)
    (hfill : ∀ o q, P o → (o.fill q).2.isFilled = false → P (o.fill q).2) (order : Order) :
    AllOrders (b.matchOrder order).book.store P := by
  have hinv : MatchInvariant (fun m => AllOrders m.book.store P)
      fun _ m => AllOrders m.book.store P := by
    refine .of_uniform ?_ ?_ (fun _ h => h) ?_ ?_
    · intro m h i o ho
      exact h i o (by simpa [refreshBest] using ho)
    · intro p m level n rest h _ _ i o ho
      exact h i o (by simpa using ho)
    · intro p m level n rest resting h hat i o ho
      rw [store_fillFront, getElem?_orders_fillStore] at ho
      split_ifs at ho with hi hfilled
      · cases ho
        exact hfill resting _ (h _ _ hat.order_eq) (by simpa using hfilled)
      · exact h i o ho
    · intro p m level h _ _ i o ho
      exact h i o (by simpa using ho)
  exact hinv.matchOrder b order h

/-- Replaces in place ask for one thing more: that the property survives the new quantity. -/
theorem allOrders_calls {ok : OrderBook → Op → Prop} {P : Order → Prop}
    (hfill : ∀ o q, P o → (o.fill q).2.isFilled = false → P (o.fill q).2)
    (hrest : ∀ o, Restable o → o.isFilled = false → P o)
    (hinPlace : ∀ {b : OrderBook} {uninit : OrderResult} {id : OrderId} {newPrice : Price}
      {newQty : Quantity} {o : Order}, ok b (.replace uninit id newPrice newQty) →
      b.store.orders[id]? = some o → o.price = newPrice → P o → P { o with quantity := newQty })
    (hadd : ∀ b order, ok b (.add order)) :
    CallInvariant ok fun b => AllOrders b.store P where
  quiet h hquiet := by rw [hquiet.store_eq]; exact h
  matched h _ _ := h.matchOrder hfill _
  rested {b order} h _ _ hkind hopen i o ho := by
    have htaker := matchOrder_sameTaker b (withMarketPrice order)
    have ho : ((b.matchOrder (withMarketPrice order)).book.store.insertRestingOrder
      (b.matchOrder (withMarketPrice order)).order).orders[i]? = some o := ho
    rw [Store.getElem?_orders_insertRestingOrder] at ho
    split_ifs at ho
    · cases ho
      refine hrest _ ⟨?_, ?_⟩ hopen
      · rw [htaker.type_eq, withMarketPrice_type]
        exact hkind.type_ok
      · rw [htaker.tif_eq, withMarketPrice_tif]
        exact hkind.tif_ok
    · exact h.matchOrder hfill _ i o ho
  cancelled {b id order} h _ i o ho := by
    have ho : (b.store.cancelOrder id order).orders[i]? = some o := ho
    rw [Store.getElem?_orders_cancelOrder] at ho
    split_ifs at ho
    exact h i o ho
  inPlace {b _ id _ newQty existing level} h hop hin i o ho := by
    have ho : (amend b.store id existing level newQty).orders[i]? = some o := ho
    rw [amend, Store.getElem?_setOrder, Store.orders_setLevel] at ho
    split_ifs at ho
    · cases ho
      exact hinPlace hop hin.order_eq hin.price_eq (h _ _ hin.order_eq)
    · exact h i o ho
  moved _ _ := hadd _ _

lemma Restable.fill {o : Order} (h : Restable o) (q : Quantity) : Restable (o.fill q).2 :=
  ⟨by rw [Order.fill_type]; exact h.type_ok, by rw [Order.fill_tif]; exact h.tif_ok⟩

theorem restable_calls : CallInvariant (fun _ _ => True) fun b => AllOrders b.store Restable :=
  allOrders_calls (fun _ q ho _ => ho.fill q) (fun _ ho _ => ho)
    (fun _ _ _ ho => ⟨ho.type_ok, ho.tif_ok⟩) fun _ _ => trivial

/-- A replace in place to quantity 0 leaves an order that is not open. -/
theorem open_calls :
    CallInvariant MovesPrice fun b => AllOrders b.store fun o => Restable o ∧ o.isFilled = false :=
  allOrders_calls (fun _ q ho hopen => ⟨ho.1.fill q, hopen⟩) (fun _ hkind hopen => ⟨hkind, hopen⟩)
    (fun hop ho hprice _ => absurd hprice (hop _ ho)) fun _ _ => trivial

/-! ## Calls keep the agreement -/

/-- A replace in place meets no order of which something is filled. -/
def UnfilledInPlace (b : OrderBook) : Op → Prop
  | .replace _ id newPrice _ =>
      ∀ o, b.store.orders[id]? = some o → o.price = newPrice → o.filledQty = 0
  | _ => True

instance (b : OrderBook) : (op : Op) → Decidable (UnfilledInPlace b op)
  | .replace _ id newPrice _ => inferInstanceAs (Decidable
      (∀ o, b.store.orders[id]? = some o → o.price = newPrice → o.filledQty = 0))
  | .add _ | .cancel _ | .flush => isTrue trivial

lemma MovesPrice.unfilledInPlace {b : OrderBook} {op : Op} (h : MovesPrice b op) :
    UnfilledInPlace b op := by
  cases op with
  | replace _ id newPrice _ => exact fun o ho hprice => absurd hprice (h o ho)
  | _ => trivial

theorem agrees_calls : CallInvariant UnfilledInPlace fun b => b.store.Agrees where
  quiet h hquiet := by rw [hquiet.store_eq]; exact h
  matched h _ _ := agrees_invariant.matchOrder _ _ h
  rested {b order} h _ hpass _ hopen := by
    refine (agrees_invariant.matchOrder b (withMarketPrice order) h).insertRestingOrder ?_ ?_
    · rw [(matchOrder_sameTaker b _).id_eq, withMarketPrice_id]
      exact matchOrder_orders_none b _ hpass.id_new
    · exact UInt32.le_of_lt (Order.not_isFilled_iff.mp hopen)
  cancelled h ho := h.cancelOrder ho
  inPlace h hop hin := h.amend hin (hop _ hin.order_eq hin.price_eq) _
  moved _ _ := trivial

/-! ## The book's representation -/

/-- Orders, nodes, counts and totals correspond, and only open orders of a kind that may rest do. -/
structure Represented (s : Store) : Prop where
  /-- a resting order has one node, in the level of its own side and price -/
  one_node : ∀ (id : OrderId) (o : Order), s.orders[id]? = some o → o.id = id ∧
    ∃ n, s.Queues o.side o.price n ∧ n.orderId = id ∧
      ∀ side p n', s.Queues side p n' → n'.orderId = id → side = o.side ∧ p = o.price ∧ n' = n
  /-- a node queues a resting order of its side and price, with what that order has left -/
  one_order : ∀ side p n, s.Queues side p n → ∃ o, s.orders[n.orderId]? = some o ∧
    o.side = side ∧ o.price = p ∧ n.quantity = o.remaining ∧ 0 < n.quantity
  /-- no level queues an id twice -/
  ids_nodup : ∀ (side : Side) (p : Price) (level : PriceLevel), (s.levels side)[p]? = some level →
    (level.nodes.map (·.orderId)).Nodup
  order_count : ∀ (side : Side) (p : Price) (level : PriceLevel), (s.levels side)[p]? = some level →
    level.orderCount = level.nodes.length
  total_quantity : ∀ (side : Side) (p : Price) (level : PriceLevel), (s.levels side)[p]? = some level →
    level.totalQuantity.toNat = (level.nodes.map (·.quantity.toNat)).sum % 2 ^ 32
  restable : ∀ (id : OrderId) (o : Order), s.orders[id]? = some o → Restable o

lemma Agrees.represented {s : Store} (h : s.Agrees)
    (hopen : AllOrders s fun o => Restable o ∧ o.isFilled = false) : Represented s where
  one_node id o ho := by
    obtain ⟨n, hn, hid⟩ := h.queued ho
    refine ⟨h.id_eq ho, n, hn, hid, fun side p n' hn' hid' => ?_⟩
    exact h.node_unique hn' hn (hid'.trans hid.symm)
  one_order side p n hn := by
    obtain ⟨o, ho, hside, hprice, hq⟩ := h.node hn
    refine ⟨o, ho, hside, hprice, hq, ?_⟩
    rw [hq, UInt32.lt_iff_toNat_lt]
    exact Order.remaining_pos (hopen _ _ ho).2
  ids_nodup side p level hl := (h.indexed hl).ids_nodup
  order_count side p level _ := level.wf.orderCount_eq
  total_quantity side p level _ := level.wf.total_eq
  restable id o ho := (hopen id o ho).1

section Runs

variable {symbol : Symbol} {config : OrderBookConfig} {onTrade onExecution onBbo : Bool}
  {clock : Stream' Timestamp} {ops : List Op}

lemma allOrders_new {P : Order → Prop} :
    AllOrders (new symbol config onTrade onExecution onBbo clock).store P := by
  intro i o ho
  simp [new] at ho

/-- In every run, whatever rests is of a kind that may. -/
theorem restable_after (ops : List Op) :
    AllOrders (after (new symbol config onTrade onExecution onBbo clock) ops).store Restable :=
  restable_calls.run (Run.admitted_trivial _ _) allOrders_new

/-- Where no order is replaced in place, whatever rests is open. -/
theorem open_after (hops : Run.Admitted apply MovesPrice
      (new symbol config onTrade onExecution onBbo clock) ops) :
    AllOrders (after (new symbol config onTrade onExecution onBbo clock) ops).store
      fun o => Restable o ∧ o.isFilled = false :=
  open_calls.run hops allOrders_new

theorem agrees_after (hops : Run.Admitted apply UnfilledInPlace
      (new symbol config onTrade onExecution onBbo clock) ops) :
    (after (new symbol config onTrade onExecution onBbo clock) ops).store.Agrees :=
  agrees_calls.run hops Store.Agrees.empty

/-- **Orders, nodes and totals correspond** after every run in which replaces name a price that
differs from the current one: in every configuration, for orders of every kind, price and
quantity. -/
theorem representation (hops : Run.Admitted apply MovesPrice
      (new symbol config onTrade onExecution onBbo clock) ops) :
    Represented (after (new symbol config onTrade onExecution onBbo clock) ops).store :=
  Agrees.represented (agrees_after (hops.mono fun _ _ h => h.unfilledInPlace)) (open_after hops)

end Runs

/-- A partial fill, a replace to another price and a cancel in the middle of a queue. -/
theorem representation_sample :
    Represented (after (makeBook {})
      [.add (limitOrder 1 .Sell 100 10), .add (limitOrder 2 .Sell 100 10),
        .add (limitOrder 3 .Sell 100 10), .add (limitOrder 4 .Buy 100 4), .cancel 2,
        .replace {} 1 101 8]).store :=
  representation (by decide +kernel)

/-! ## Replaces in place -/

/-- The nodes of the queues hold what the orders have left, one node for each order. -/
structure NodesMatchOrders (s : Store) : Prop where
  queued : ∀ (id : OrderId) (o : Order), s.orders[id]? = some o →
    ∃ n, s.Queues o.side o.price n ∧ n.orderId = id ∧ n.quantity = o.remaining
  node : ∀ side p n, s.Queues side p n →
    ∃ o, s.orders[n.orderId]? = some o ∧ n.quantity = o.remaining

lemma Agrees.nodesMatchOrders {s : Store} (h : s.Agrees) : NodesMatchOrders s where
  queued id o ho := by
    obtain ⟨n, hn, hid⟩ := h.queued ho
    obtain ⟨o', ho', -, -, hq⟩ := h.node hn
    rw [hid, ho] at ho'
    cases ho'
    exact ⟨n, hn, hid, hq⟩
  node side p n hn := by
    obtain ⟨o, ho, -, -, hq⟩ := h.node hn
    exact ⟨o, ho, hq⟩

/-- A replace in place of a partly filled order leaves a node that is wrong by what was filled. -/
lemma not_nodesMatchOrders_amend {s : Store} (h : s.Agrees) {id : OrderId} {newPrice : Price}
    {existing : Order} {level : PriceLevel} (hin : InPlace s id newPrice existing level)
    (hfilled : existing.filledQty ≠ 0) (newQty : Quantity) :
    ¬ NodesMatchOrders (amend s id existing level newQty) := by
  intro hmatch
  obtain ⟨hat, hself⟩ := Store.amend_self s id existing level newQty
  obtain ⟨n, hn, hid, hq⟩ := hmatch.queued id _ hself
  have hn := (Store.queues_iff hat n).mp hn
  rw [(h.indexed hin.level_eq).nodes_modifyQuantity, List.mem_map] at hn
  obtain ⟨m, -, rfl⟩ := hn
  split_ifs at hid hq with hm
  · have hsub : newQty = newQty - existing.filledQty := hq
    exact hfilled (by grind)
  · exact hm hid

lemma not_nodesMatchOrders_of_filled {b : OrderBook} (h : b.store.Agrees) {op : Op}
    (hop : ¬ UnfilledInPlace b op) : ¬ NodesMatchOrders (apply b op).store := by
  cases op with
  | replace uninit id newPrice newQty =>
      simp only [UnfilledInPlace, not_forall] at hop
      obtain ⟨o, ho, hprice, hfilled⟩ := hop
      rw [OrderBook.apply]
      cases replaceOrder_cases b uninit id newPrice newQty with
      | missing hnone _ _ =>
          rw [ho] at hnone
          cases hnone
      | inPlace hin _ hquiet =>
          have heq := hin.order_eq
          rw [ho] at heq
          cases heq
          rw [hquiet.store_eq]
          exact not_nodesMatchOrders_amend h hin hfilled newQty
      | moved ho' hmoved _ _ =>
          -- under agreement the order's level is there
          rw [ho] at ho'
          cases ho'
          obtain ⟨n, ⟨level, hl, -⟩, -⟩ := h.queued ho
          rw [hmoved hprice] at hl
          cases hl
  | _ => exact absurd trivial hop

/-- **Agreement lasts exactly as long as no partly filled order is replaced in place.**  In every
run of calls, the nodes hold what the orders have left after every call if and only if each replace
at an order's current price meets an order of which nothing is filled. -/
theorem in_place_agreement (symbol : Symbol) (config : OrderBookConfig)
    (onTrade onExecution onBbo : Bool) (clock : Stream' Timestamp) (ops : List Op) :
    Run.Throughout apply (fun b => NodesMatchOrders b.store)
        (new symbol config onTrade onExecution onBbo clock) ops ↔
      Run.Admitted apply UnfilledInPlace (new symbol config onTrade onExecution onBbo clock) ops :=
  Run.throughout_iff_admitted (I := fun b : OrderBook => b.store.Agrees)
    (fun _ h => Agrees.nodesMatchOrders h) (fun _ _ h hop => agrees_calls.step h hop)
    (fun _ _ h hop => not_nodesMatchOrders_of_filled h hop) Store.Agrees.empty

/-- A sell of 10 of which 4 are filled is replaced in place by one of 10: the replace succeeds, the
node holds 10 and the order has 6 left. -/
theorem in_place_disagreement :
    let b := after (makeBook {}) [.add (limitOrder 1 .Sell 100 10), .add (limitOrder 2 .Buy 100 4)]
    (b.replaceOrder {} 1 100 10).1.success = true ∧
      ¬ NodesMatchOrders (b.replaceOrder {} 1 100 10).2.store := by
  refine ⟨by decide +kernel, fun h => ?_⟩
  have hlevel : ((after (makeBook {}) [.add (limitOrder 1 .Sell 100 10),
      .add (limitOrder 2 .Buy 100 4)]).replaceOrder {} 1 100 10).2.store.askLevels[(100 : Price)]?.map
        (·.nodes) = some [⟨1, 10, 0⟩] := by decide +kernel
  have horder : ((after (makeBook {}) [.add (limitOrder 1 .Sell 100 10),
      .add (limitOrder 2 .Buy 100 4)]).replaceOrder {} 1 100 10).2.store.orders[(1 : OrderId)]?.map
        (·.remaining) = some 6 := by decide +kernel
  obtain ⟨level, hl, hnodes⟩ := Option.map_eq_some_iff.mp hlevel
  obtain ⟨o, ho, hremaining⟩ := Option.map_eq_some_iff.mp horder
  obtain ⟨o', ho', hq⟩ := h.node .Sell 100 ⟨1, 10, 0⟩ ⟨level, hl, by rw [hnodes]; simp⟩
  rw [ho] at ho'
  cases ho'
  rw [hremaining] at hq
  exact absurd hq (by decide)

end OrderBook

end Exchange
