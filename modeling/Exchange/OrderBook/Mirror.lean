import Exchange.OrderBook.Visited

/-!
# The mirror image of a book

Every function of the book has two twin branches, one a side, written by hand.  They are mirror
images: exchange Buy and Sell, and measure every price from a point `K` downwards instead of from 0
upwards.  `INVALID_PRICE` is its own image, as it stands for "no price" on both sides.

`Mirrored K s s'` — `s'` is the image of `s`, whose prices are all strictly between 0 and `K`.  The
operations on the contents of a book keep it; the key lists of the two maps are each other's reverse
(`Mirrored.keys_eq`), so the greatest bid is the image of the least ask.
-/

namespace Exchange

open Std (ExtTreeMap)
open OrderBook

/-! ## Images -/

/-- Strictly between 0 and `K`. -/
def Between (K p : Price) : Prop := 0 < p ∧ p < K

instance (K p : Price) : Decidable (Between K p) := inferInstanceAs (Decidable (_ ∧ _))

def mirrorPrice (K p : Price) : Price := K - p

/-- The image of a cached best price. -/
def mirrorBest (K p : Price) : Price := if p = invalidPrice then invalidPrice else mirrorPrice K p

def mirrorOrder (K : Price) (o : Order) : Order :=
  { o with side := o.side.opposite, price := mirrorPrice K o.price }

def LevelData.mirror (K : Price) (l : LevelData) : LevelData :=
  { l with price := mirrorPrice K l.price }

def mirrorLevel (K : Price) (l : PriceLevel) : PriceLevel where
  toLevelData := l.toLevelData.mirror K
  wf := ⟨l.wf.orderCount_eq, l.wf.total_eq, l.wf.addr_nodup, l.wf.index_live⟩

variable {K p q : Price} {side : Side} {o : Order} {l : PriceLevel} {id : OrderId}

@[simp] lemma Side.opposite_opposite (side : Side) : side.opposite.opposite = side := by
  cases side <;> rfl

@[simp] lemma Side.opposite_inj {side side' : Side} :
    side'.opposite = side.opposite ↔ side' = side := by
  cases side <;> cases side' <;> simp [opposite]

@[simp] lemma mirrorPrice_mirrorPrice (K p : Price) : mirrorPrice K (mirrorPrice K p) = p := by
  rw [mirrorPrice, mirrorPrice]
  grind

@[simp] lemma mirrorPrice_inj : mirrorPrice K q = mirrorPrice K p ↔ q = p := by
  constructor
  · intro h
    rw [← mirrorPrice_mirrorPrice K q, h, mirrorPrice_mirrorPrice]
  · exact fun h => h ▸ rfl

lemma Between.toInt_mirrorPrice (h : Between K p) :
    (mirrorPrice K p).toInt = K.toInt - p.toInt :=
  Int64.toInt_sub_of_le K p (Int64.le_of_lt h.1) (Int64.le_of_lt h.2)

lemma Between.mirrorPrice (h : Between K p) : Between K (mirrorPrice K p) := by
  have hp := Int64.lt_iff_toInt_lt.mp h.1
  have hK := Int64.lt_iff_toInt_lt.mp h.2
  rw [Between, Int64.lt_iff_toInt_lt, Int64.lt_iff_toInt_lt, h.toInt_mirrorPrice]
  have hzero : (0 : Price).toInt = 0 := rfl
  omega

/-- Mirroring reverses the order of prices. -/
lemma Between.mirrorPrice_lt_iff (hp : Between K p) (hq : Between K q) :
    Exchange.mirrorPrice K q < Exchange.mirrorPrice K p ↔ p < q := by
  rw [Int64.lt_iff_toInt_lt, Int64.lt_iff_toInt_lt, hp.toInt_mirrorPrice, hq.toInt_mirrorPrice]
  omega

lemma Between.mirrorPrice_le_iff (hp : Between K p) (hq : Between K q) :
    Exchange.mirrorPrice K q ≤ Exchange.mirrorPrice K p ↔ p ≤ q := by
  rw [Int64.le_iff_toInt_le, Int64.le_iff_toInt_le, hp.toInt_mirrorPrice, hq.toInt_mirrorPrice]
  omega

lemma Between.validPrice (h : Between K p) : ValidPrice p := by
  refine ⟨h.1, ?_⟩
  rcases lt_or_eq_invalid K with hK | rfl
  · exact Int64.lt_trans h.2 hK
  · exact h.2

@[simp] lemma mirrorBest_invalid (K : Price) : mirrorBest K invalidPrice = invalidPrice := if_pos rfl

lemma Between.mirrorBest_eq (h : Between K p) : mirrorBest K p = Exchange.mirrorPrice K p :=
  if_neg h.validPrice.ne_invalid

section Order

variable (K o) (q : Quantity)

@[simp] lemma mirrorOrder_id : (mirrorOrder K o).id = o.id := rfl

@[simp] lemma mirrorOrder_type : (mirrorOrder K o).type = o.type := rfl

@[simp] lemma mirrorOrder_quantity : (mirrorOrder K o).quantity = o.quantity := rfl

@[simp] lemma remaining_mirrorOrder : (mirrorOrder K o).remaining = o.remaining := rfl

@[simp] lemma isFilled_mirrorOrder : (mirrorOrder K o).isFilled = o.isFilled := rfl

lemma fill_mirrorOrder : ((mirrorOrder K o).fill q).2 = mirrorOrder K (o.fill q).2 := by
  rw [Order.fill, Order.fill]
  dsimp only
  rw [apply_ite (mirrorOrder K), apply_ite (mirrorOrder K)]
  rfl

end Order

/-! ### Levels -/

namespace LevelData

variable (K) (l : LevelData) (id) (q : Quantity)

lemma removeOrder_mirror : ((l.mirror K).removeOrder id).2 = (l.removeOrder id).2.mirror K := by
  have hfind : (l.mirror K).findNode id = l.findNode id := rfl
  rw [removeOrder, removeOrder, hfind]
  cases l.findNode id <;> rfl

lemma modifyQuantity_mirror :
    ((l.mirror K).modifyQuantity id q).2 = (l.modifyQuantity id q).2.mirror K := by
  have hfind : (l.mirror K).findNode id = l.findNode id := rfl
  rw [modifyQuantity, modifyQuantity, hfind]
  cases l.findNode id <;> rfl

lemma popFront_mirror : (l.mirror K).popFront = l.popFront.mirror K := by
  have hnodes : (l.mirror K).nodes = l.nodes := rfl
  rw [popFront, popFront, hnodes]
  cases l.nodes <;> rfl

lemma fillFront_mirror : (l.mirror K).fillFront q = (l.fillFront q).mirror K := by
  have hnodes : (l.mirror K).nodes = l.nodes := rfl
  rw [fillFront, fillFront, hnodes, popFront_mirror]
  cases l.nodes with
  | nil => rfl
  | cons head rest =>
      dsimp only
      split_ifs <;> rfl

end LevelData

section Level

variable (K l id) (q : Quantity)

lemma PriceLevel.eq_of_data {l l' : PriceLevel} (h : l.toLevelData = l'.toLevelData) : l = l' := by
  cases l
  cases l'
  cases h
  rfl

@[simp] lemma empty_mirrorLevel : (mirrorLevel K l).empty = l.empty := rfl

@[simp] lemma frontOrderId_mirrorLevel : (mirrorLevel K l).frontOrderId = l.frontOrderId := rfl

lemma mirrorLevel_addOrder :
    mirrorLevel K (l.addOrder id q) = (mirrorLevel K l).addOrder id q := rfl

lemma mirrorLevel_removeOrder :
    mirrorLevel K (l.removeOrder id) = (mirrorLevel K l).removeOrder id :=
  PriceLevel.eq_of_data (l.toLevelData.removeOrder_mirror K id).symm

lemma mirrorLevel_modifyQuantity :
    mirrorLevel K (l.modifyQuantity id q) = (mirrorLevel K l).modifyQuantity id q :=
  PriceLevel.eq_of_data (l.toLevelData.modifyQuantity_mirror K id q).symm

lemma mirrorLevel_popFront : mirrorLevel K l.popFront = (mirrorLevel K l).popFront :=
  PriceLevel.eq_of_data (l.toLevelData.popFront_mirror K).symm

lemma mirrorLevel_fillFront : mirrorLevel K (l.fillFront q) = (mirrorLevel K l).fillFront q :=
  PriceLevel.eq_of_data (l.toLevelData.fillFront_mirror K q).symm

end Level

/-! ## Images of what a book holds -/

/-- An order whose image does the same on the other side: it is priced between 0 and `K`, and its
fate does not hang on the order in which a map of levels is read. -/
structure Mirrorable (K : Price) (o : Order) : Prop where
  type_ne : o.type ≠ .Market
  not_fillOrKill : isFillOrKill o = false
  price : Between K o.price

/-- `s'` holds what `s` holds, on the other side and at the mirrored price. -/
structure MirrorImage (K : Price) (s s' : Store) : Prop where
  level : ∀ (side : Side) (p : Price),
    (s'.levels side.opposite)[mirrorPrice K p]? = (s.levels side)[p]?.map (mirrorLevel K)
  order : ∀ id : OrderId, s'.orders[id]? = s.orders[id]?.map (mirrorOrder K)
  best : ∀ side, s'.best side.opposite = mirrorBest K (s.best side)

/-- The same, for a book whose prices are all between 0 and `K`. -/
structure Mirrored (K : Price) (s s' : Store) : Prop extends MirrorImage K s s' where
  levels_between : ∀ (side : Side) (p : Price), p ∈ s.levels side → Between K p
  best_between : ∀ side, s.best side = invalidPrice ∨ Between K (s.best side)
  mirrorable : AllOrders s (Mirrorable K)

/-- From `s` to `t` at most the cached best price of one side has changed. -/
structure ChangesBest (side : Side) (s t : Store) : Prop where
  levels_eq : ∀ side', t.levels side' = s.levels side'
  orders_eq : t.orders = s.orders
  best_eq : ∀ {side'}, side' ≠ side → t.best side' = s.best side'

lemma ChangesBest.updateBest (s : Store) (side : Side) : ChangesBest side s (s.updateBest side) :=
  ⟨fun _ => Store.levels_updateBest _ _ _, Store.orders_updateBest _ _,
    fun hside => Store.best_updateBest_of_ne hside⟩

lemma ChangesBest.raiseBest (s : Store) (side : Side) (p : Price) :
    ChangesBest side s (s.raiseBest side p) :=
  ⟨fun _ => Store.levels_raiseBest _ _ _ _, Store.orders_raiseBest _ _ _,
    fun hside => Store.best_raiseBest_of_ne hside⟩

/-- An ask price goes below the cached best one, if there is one, as its image goes above. -/
lemma Between.lt_mirrorBest_iff (hp : Between K p) (hq : q = invalidPrice ∨ Between K q) :
    Exchange.mirrorPrice K p < mirrorBest K q ↔ q = invalidPrice ∨ q < p := by
  rcases hq with rfl | hq
  · rw [mirrorBest_invalid]
    exact iff_of_true hp.mirrorPrice.validPrice.2 (Or.inl rfl)
  · rw [hq.mirrorBest_eq, hq.mirrorPrice_lt_iff hp]
    exact (or_iff_right hq.validPrice.ne_invalid).symm

lemma Between.mirrorBest_lt_iff (hp : Between K p) (hq : q = invalidPrice ∨ Between K q) :
    (mirrorBest K q = invalidPrice ∨ mirrorBest K q < Exchange.mirrorPrice K p) ↔ p < q := by
  rcases hq with rfl | hq
  · exact iff_of_true (Or.inl (mirrorBest_invalid K)) hp.validPrice.2
  · rw [hq.mirrorBest_eq, hp.mirrorPrice_lt_iff hq]
    exact or_iff_right hq.mirrorPrice.validPrice.ne_invalid

lemma Mirrorable.fill (h : Mirrorable K o) (q : Quantity) : Mirrorable K (o.fill q).2 := by
  refine ⟨by rw [Order.fill_type]; exact h.type_ne, ?_, by rw [Order.fill_price]; exact h.price⟩
  rw [← h.not_fillOrKill]
  simp [isFillOrKill]

namespace Mirrored

variable {s s' : Store}

lemma empty (K : Price) : Mirrored K {} {} where
  level side p := by cases side <;> simp [Store.levels, Side.opposite]
  order id := by simp
  best side := by cases side <;> rfl
  levels_between side p h := by cases side <;> simp [Store.levels] at h
  best_between side := by cases side <;> exact Or.inl rfl
  mirrorable id o h := by simp at h

/-- The levels that are written are between 0 and `K`. -/
lemma setLevel (h : Mirrored K s s') (side : Side) (hp : Between K p) (l : PriceLevel) :
    Mirrored K (s.setLevel side p l)
      (s'.setLevel side.opposite (mirrorPrice K p) (mirrorLevel K l)) where
  level side' k := by
    simp only [Store.getElem?_setLevel, Side.opposite_inj, mirrorPrice_inj, h.level]
    split_ifs <;> rfl
  order id := by simpa using h.order id
  best side' := by simpa using h.best side'
  levels_between side' k hk := by
    rcases Store.mem_setLevel.mp hk with ⟨-, rfl⟩ | hk
    · exact hp
    · exact h.levels_between side' k hk
  best_between side' := by simpa using h.best_between side'
  mirrorable id o ho := h.mirrorable id o (by simpa using ho)

lemma eraseLevel (h : Mirrored K s s') (side : Side) (p : Price) :
    Mirrored K (s.eraseLevel side p) (s'.eraseLevel side.opposite (mirrorPrice K p)) where
  level side' k := by
    simp only [Store.getElem?_eraseLevel, Side.opposite_inj, mirrorPrice_inj, h.level]
    split_ifs <;> rfl
  order id := by simpa using h.order id
  best side' := by simpa using h.best side'
  levels_between side' k hk := h.levels_between side' k (Store.mem_of_mem_eraseLevel hk)
  best_between side' := by simpa using h.best_between side'
  mirrorable id o ho := h.mirrorable id o (by simpa using ho)

lemma setOrder (h : Mirrored K s s') (id : OrderId) (ho : Mirrorable K o) :
    Mirrored K (s.setOrder id o) (s'.setOrder id (mirrorOrder K o)) where
  level side p := by simpa using h.level side p
  order i := by
    rw [Store.getElem?_setOrder, Store.getElem?_setOrder, h.order]
    split_ifs <;> rfl
  best side := by simpa using h.best side
  levels_between side p hp := h.levels_between side p (by simpa using hp)
  best_between side := by simpa using h.best_between side
  mirrorable i o' ho' := by
    rw [Store.getElem?_setOrder] at ho'
    split_ifs at ho'
    · cases ho'
      exact ho
    · exact h.mirrorable i o' ho'

lemma eraseOrder (h : Mirrored K s s') (id : OrderId) :
    Mirrored K (s.eraseOrder id) (s'.eraseOrder id) where
  level side p := by simpa using h.level side p
  order i := by
    rw [Store.getElem?_eraseOrder, Store.getElem?_eraseOrder, h.order]
    split_ifs <;> rfl
  best side := by simpa using h.best side
  levels_between side p hp := h.levels_between side p (by simpa using hp)
  best_between side := by simpa using h.best_between side
  mirrorable i o ho := by
    rw [Store.getElem?_eraseOrder] at ho
    split_ifs at ho
    exact h.mirrorable i o ho

/-! ### Key lists -/

lemma mem_levels_iff (h : Mirrored K s s') (side : Side) (p : Price) :
    mirrorPrice K p ∈ s'.levels side.opposite ↔ p ∈ s.levels side := by
  rw [ExtTreeMap.mem_iff_isSome_getElem?, ExtTreeMap.mem_iff_isSome_getElem?, h.level,
    Option.isSome_map]

/-- **The key list of a map is the reverse of its image's.** -/
theorem keys_eq (h : Mirrored K s s') (side : Side) :
    (s'.levels side.opposite).keys = ((s.levels side).keys.map (mirrorPrice K)).reverse := by
  refine KeyList.keys_eq_of_mem_iff ?_ fun p => ?_
  · rw [List.pairwise_reverse, List.pairwise_map]
    refine ExtTreeMap.ordered_keys.imp_of_mem fun {p q} hp hq hlt => ?_
    rw [ExtTreeMap.mem_keys] at hp hq
    rw [Std.compare_eq_lt] at hlt ⊢
    exact ((h.levels_between side p hp).mirrorPrice_lt_iff (h.levels_between side q hq)).mpr hlt
  · rw [List.mem_reverse, List.mem_map]
    constructor
    · intro hp
      refine ⟨mirrorPrice K p, ?_, mirrorPrice_mirrorPrice K p⟩
      rw [ExtTreeMap.mem_keys, ← h.mem_levels_iff, mirrorPrice_mirrorPrice]
      exact hp
    · rintro ⟨q, hq, rfl⟩
      rw [ExtTreeMap.mem_keys] at hq
      exact (h.mem_levels_iff side q).mpr hq

lemma size_levels_eq (h : Mirrored K s s') (side : Side) :
    (s'.levels side.opposite).size = (s.levels side).size := by
  rw [← ExtTreeMap.length_keys, h.keys_eq, List.length_reverse, List.length_map,
    ExtTreeMap.length_keys]

lemma size_orders_eq (h : Mirrored K s s') : s'.orders.size = s.orders.size := by
  have hkeys : s'.orders.keys = s.orders.keys := by
    refine KeyList.keys_eq_of_mem_iff ExtTreeMap.ordered_keys fun id => ?_
    rw [ExtTreeMap.mem_keys, ExtTreeMap.mem_iff_isSome_getElem?,
      ExtTreeMap.mem_iff_isSome_getElem?, h.order, Option.isSome_map]
  rw [← ExtTreeMap.length_keys, hkeys, ExtTreeMap.length_keys]

/-- So the best prices are each other's images too. -/
lemma bestFirst_eq (h : Mirrored K s s') (side : Side) :
    s'.bestFirst side.opposite = (s.bestFirst side).map (mirrorPrice K) := by
  have hkeys := h.keys_eq side
  cases side with
  | Buy =>
      simp only [Side.opposite, Store.levels] at hkeys
      rw [Side.opposite, Store.bestFirst, Store.bestFirst, hkeys, List.map_reverse]
  | Sell =>
      simp only [Side.opposite, Store.levels] at hkeys
      rw [Side.opposite, Store.bestFirst, Store.bestFirst, hkeys, List.reverse_reverse]

/-- Where only the best price of one side changes, it has to become the image of the other's. -/
lemma changesBest {t t' : Store} (h : Mirrored K s s') (hs : ChangesBest side s t)
    (hs' : ChangesBest side.opposite s' t')
    (hbetween : t.best side = invalidPrice ∨ Between K (t.best side))
    (himage : t'.best side.opposite = mirrorBest K (t.best side)) : Mirrored K t t' where
  level side' p := by
    rw [hs.levels_eq, hs'.levels_eq]
    exact h.level side' p
  order id := by
    rw [hs.orders_eq, hs'.orders_eq]
    exact h.order id
  best side' := by
    by_cases hside : side' = side
    · rw [hside, himage]
    · rw [hs.best_eq hside, hs'.best_eq (by simpa using hside), h.best]
  levels_between side' p hp := h.levels_between side' p (by rwa [hs.levels_eq] at hp)
  best_between side' := by
    by_cases hside : side' = side
    · rw [hside]
      exact hbetween
    · rw [hs.best_eq hside]
      exact h.best_between side'
  mirrorable id o ho := h.mirrorable id o (by rwa [hs.orders_eq] at ho)

lemma updateBest (h : Mirrored K s s') (side : Side) :
    Mirrored K (s.updateBest side) (s'.updateBest side.opposite) := by
  have hhead : ∀ p ps, s.bestFirst side = p :: ps → Between K p := by
    intro p ps hprices
    refine h.levels_between side p ?_
    rw [← Store.mem_bestFirst, hprices]
    exact List.mem_cons_self
  refine h.changesBest (.updateBest s side) (.updateBest s' side.opposite) ?_ ?_
  · rw [Store.best_updateBest]
    cases hprices : s.bestFirst side with
    | nil => exact Or.inl rfl
    | cons p ps => exact Or.inr (hhead p ps hprices)
  · rw [Store.best_updateBest, Store.best_updateBest, h.bestFirst_eq]
    cases hprices : s.bestFirst side with
    | nil => exact (mirrorBest_invalid K).symm
    | cons p ps => exact (hhead p ps hprices).mirrorBest_eq.symm

/-! ### Whole operations -/

lemma raiseBest (h : Mirrored K s s') (side : Side) (hp : Between K p) :
    Mirrored K (s.raiseBest side p) (s'.raiseBest side.opposite (mirrorPrice K p)) := by
  have hold := h.best_between side
  have himage := h.best side
  refine h.changesBest (.raiseBest s side p) (.raiseBest s' side.opposite _) ?_ ?_
  · cases side <;> simp only [Store.raiseBest, Store.best] at hold ⊢ <;> split_ifs
    all_goals first
      | exact Or.inr hp
      | exact hold
  · cases side with
    | Buy =>
        simp only [Side.opposite, Store.best] at himage hold
        simp only [Side.opposite, Store.raiseBest, Store.best, himage, hp.lt_mirrorBest_iff hold]
        split_ifs
        · exact hp.mirrorBest_eq.symm
        · exact himage
    | Sell =>
        simp only [Side.opposite, Store.best] at himage hold
        simp only [Side.opposite, Store.raiseBest, Store.best, himage, gt_iff_lt,
          hp.mirrorBest_lt_iff hold]
        split_ifs
        · exact hp.mirrorBest_eq.symm
        · exact himage

lemma removeOrderFromLevel (h : Mirrored K s s') (id : OrderId) (side : Side) (p : Price) :
    Mirrored K (s.removeOrderFromLevel id side p)
      (s'.removeOrderFromLevel id side.opposite (mirrorPrice K p)) := by
  rw [Store.removeOrderFromLevel, Store.removeOrderFromLevel, h.level]
  cases hl : (s.levels side)[p]? with
  | none => exact h
  | some level =>
      rw [Option.map_some]
      dsimp only
      rw [← mirrorLevel_removeOrder, empty_mirrorLevel]
      split_ifs
      · exact h.eraseLevel side p
      · exact h.setLevel side
          (h.levels_between side p (KeyList.mem_iff_exists_getElem?.mpr ⟨level, hl⟩)) _

lemma targetLevel_eq (h : Mirrored K s s') (o : Order) :
    s'.targetLevel (mirrorOrder K o) = mirrorLevel K (s.targetLevel o) := by
  have hl : (s'.levels (mirrorOrder K o).side)[(mirrorOrder K o).price]?
      = (s.levels o.side)[o.price]?.map (mirrorLevel K) := h.level o.side o.price
  rw [Store.targetLevel, Store.targetLevel, hl]
  cases (s.levels o.side)[o.price]? <;> rfl

theorem insertRestingOrder (h : Mirrored K s s') (ho : Mirrorable K o) :
    Mirrored K (s.insertRestingOrder o) (s'.insertRestingOrder (mirrorOrder K o)) := by
  have hlevel := h.setLevel o.side ho.price ((s.targetLevel o).addOrder o.id o.remaining)
  rw [mirrorLevel_addOrder, ← h.targetLevel_eq] at hlevel
  exact (hlevel.setOrder o.id ho).raiseBest o.side ho.price

theorem cancelOrder (h : Mirrored K s s') (id : OrderId) (o : Order) :
    Mirrored K (s.cancelOrder id o) (s'.cancelOrder id (mirrorOrder K o)) :=
  ((h.removeOrderFromLevel id o.side o.price).eraseOrder id).updateBest o.side

theorem amend (h : Mirrored K s s') (id : OrderId) (ho : Mirrorable K o) (level : PriceLevel)
    (newQty : Quantity) :
    Mirrored K (amend s id o level newQty)
      (amend s' id (mirrorOrder K o) (mirrorLevel K level) newQty) := by
  have hlevel := h.setLevel o.side ho.price (level.modifyQuantity id newQty)
  rw [mirrorLevel_modifyQuantity] at hlevel
  exact hlevel.setOrder id (o := { o with quantity := newQty }) ⟨ho.type_ne, ho.not_fillOrKill, ho.price⟩

end Mirrored

end Exchange
