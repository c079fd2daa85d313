import Exchange.OrderBook.Model

/-!
# What a round of matching can do

Every property of `match_order` is proved from the case analyses here, made once: a round of the
inner loop is one of four things (`SweepCase`), a round of the outer loop one of three
(`MatchCase`).  `sweepLevel_induct` and `MatchInvariant.matchOrder` are the induction rules they
give, and `sweepLevel_exits` says that the inner loop always ends: every fill either completes the
taker or removes the maker from `orders_`, and every ghost popped shortens the queue.
-/

namespace Exchange.OrderBook.MatchState

open Std (ExtTreeMap)

/-! ## Frames -/

section Frame

variable (m : MatchState) (s : Store) (p k : Price) (side : Side) (level : PriceLevel)
  (id i : OrderId) (resting : Order)

@[simp] lemma store_setStore : (m.setStore s).book.store = s := rfl

@[simp] lemma opposite_setStore : (m.setStore s).opposite = m.opposite := rfl

@[simp] lemma opposite_popGhost : (m.popGhost p level).opposite = m.opposite := rfl

@[simp] lemma order_popGhost : (m.popGhost p level).order = m.order := rfl

@[simp] lemma store_popGhost :
    (m.popGhost p level).book.store = m.book.store.setLevel m.opposite p level.popFront := rfl

@[simp] lemma opposite_fillFront : (m.fillFront p level id resting).opposite = m.opposite := by
  simp [opposite, fillFront]

@[simp] lemma store_fillFront :
    (m.fillFront p level id resting).book.store = m.fillStore p level id resting := rfl

@[simp] lemma order_fillFront :
    (m.fillFront p level id resting).order = (m.order.fill (m.fillQty resting)).2 := rfl

@[simp] lemma best_fillStore :
    (m.fillStore p level id resting).best side = m.book.store.best side := by
  simp only [fillStore]
  split <;> simp

lemma levels_fillStore :
    (m.fillStore p level id resting).levels side
      = (m.book.store.setLevel m.opposite p (level.fillFront (m.fillQty resting))).levels side := by
  simp only [fillStore]
  split <;> simp [Store.setLevel]

lemma getElem?_levels_fillStore :
    ((m.fillStore p level id resting).levels side)[k]?
      = if side = m.opposite ∧ k = p then some (level.fillFront (m.fillQty resting))
        else (m.book.store.levels side)[k]? := by
  rw [levels_fillStore, Store.getElem?_setLevel]

lemma getElem?_orders_fillStore :
    (m.fillStore p level id resting).orders[i]?
      = if i = id then
          if (resting.fill (m.fillQty resting)).2.isFilled then none
          else some (resting.fill (m.fillQty resting)).2
        else m.book.store.orders[i]? := by
  simp only [fillStore]
  split
  · simp only [Store.getElem?_eraseOrder, Store.orders_setLevel, Store.getElem?_setOrder]
    split <;> rfl
  · simp only [Store.orders_setLevel, Store.getElem?_setOrder]

end Frame

/-! ## The inner loop -/

/-- The inner loop is about to look at the node `n` at the front of the level at `p`. -/
structure AtFront (p : Price) (m : MatchState) (level : PriceLevel) (n : OrderNode)
    (rest : List OrderNode) : Prop where
  level_eq : m.level? p = some level
  nodes_eq : level.nodes = n :: rest
  notFilled : m.order.isFilled = false

/-- The inner loop is about to fill the order `resting` of the node at the front. -/
structure AtFill (p : Price) (m : MatchState) (level : PriceLevel) (n : OrderNode)
    (rest : List OrderNode) (resting : Order) : Prop extends AtFront p m level n rest where
  order_eq : m.book.store.orders[n.orderId]? = some resting
  notNear : m.book.config.enableSelfTradePrevention = true →
    nearIds m.order.id resting.id = false

/-- The four things a round of the inner loop can do. -/
inductive SweepCase (p : Price) (m : MatchState) : ForInStep MatchState → Prop
  | exit (h : ∀ level, m.level? p = some level → m.order.isFilled = true ∨ level.nodes = []) :
      SweepCase p m (.done m)
  | ghost {level n rest} (h : AtFront p m level n rest)
      (gone : m.book.store.orders[n.orderId]? = none) :
      SweepCase p m (.yield (m.popGhost p level))
  | selfTrade {level n rest resting} (h : AtFront p m level n rest)
      (found : m.book.store.orders[n.orderId]? = some resting)
      (enabled : m.book.config.enableSelfTradePrevention = true)
      (near : nearIds m.order.id resting.id = true) :
      SweepCase p m (.done { m with stoppedForSelfTrade := true })
  | fill {level n rest resting} (h : AtFill p m level n rest resting) :
      SweepCase p m (.yield (m.fillFront p level n.orderId resting))

theorem sweepStep_cases (p : Price) (m : MatchState) : SweepCase p m (m.sweepStep p) := by
  rw [sweepStep]
  cases hl : m.level? p with
  | none => exact .exit fun level h => by rw [hl] at h; cases h
  | some level =>
      simp only
      split_ifs with hexit
      · refine .exit fun level' h => ?_
        rw [hl] at h
        cases h
        simpa [PriceLevel.empty_iff] using hexit
      · simp only [Bool.or_eq_true, not_or, Bool.not_eq_true, PriceLevel.empty_eq_false_iff]
          at hexit
        obtain ⟨hfilled, hne⟩ := hexit
        obtain ⟨n, rest, hnodes⟩ := List.exists_cons_of_ne_nil hne
        have hfront : AtFront p m level n rest := ⟨hl, hnodes, hfilled⟩
        rw [PriceLevel.frontOrderId_eq hnodes]
        cases ho : m.book.store.orders[n.orderId]? with
        | none => exact .ghost hfront ho
        | some resting =>
            simp only
            split_ifs with hstp
            · simp only [Bool.and_eq_true] at hstp
              exact .selfTrade hfront ho hstp.1 hstp.2
            · refine .fill ⟨hfront, ho, fun henabled => ?_⟩
              simpa [henabled] using hstp

/-- **Induction along the inner loop.** -/
theorem sweepLevel_induct {p : Price} {I : MatchState → Prop}
    (ghost : ∀ m level n rest, I m → AtFront p m level n rest →
      m.book.store.orders[n.orderId]? = none → I (m.popGhost p level))
    (selfTrade : ∀ m level n rest resting, I m → AtFront p m level n rest →
      m.book.store.orders[n.orderId]? = some resting →
      m.book.config.enableSelfTradePrevention = true → nearIds m.order.id resting.id = true →
      I { m with stoppedForSelfTrade := true })
    (fill : ∀ m level n rest resting, I m → AtFill p m level n rest resting →
      I (m.fillFront p level n.orderId resting))
    {m : MatchState} (hm : I m) : I (m.sweepLevel p) := by
  refine Loop.run_invariant ?_ ?_ _ hm
  · intro m m' hI hstep
    have hcase := sweepStep_cases p m
    rw [hstep] at hcase
    cases hcase with
    | ghost h gone => exact ghost m _ _ _ hI h gone
    | fill h => exact fill m _ _ _ _ hI h
  · intro m m' hI hstep
    have hcase := sweepStep_cases p m
    rw [hstep] at hcase
    cases hcase with
    | exit => exact hI
    | selfTrade h found enabled near => exact selfTrade m _ _ _ _ hI h found enabled near

/-! ### The inner loop ends -/

/-- Rounds left: orders that can still be removed, nodes that can still be popped. -/
def sweepMeasure (p : Price) (m : MatchState) : Nat :=
  if m.order.isFilled then 0
  else m.book.store.orders.size + (m.level? p).elim 0 (·.nodes.length) + 1

lemma level?_popGhost (m : MatchState) (p : Price) (level : PriceLevel) :
    (m.popGhost p level).level? p = some level.popFront := by
  rw [level?, opposite_popGhost, popGhost, store_setStore, Store.getElem?_setLevel,
    if_pos ⟨rfl, rfl⟩]

lemma level?_fillFront (m : MatchState) (p : Price) (level : PriceLevel) (id : OrderId)
    (resting : Order) :
    (m.fillFront p level id resting).level? p = some (level.fillFront (m.fillQty resting)) := by
  rw [level?, opposite_fillFront, store_fillFront, getElem?_levels_fillStore, if_pos ⟨rfl, rfl⟩]

lemma AtFront.popFront_length {p : Price} {m : MatchState} {level : PriceLevel} {n : OrderNode}
    {rest : List OrderNode} (h : AtFront p m level n rest) :
    level.popFront.nodes.length + 1 = level.nodes.length := by
  simp [h.nodes_eq]

lemma AtFront.fillFront_length {p : Price} {m : MatchState} {level : PriceLevel} {n : OrderNode}
    {rest : List OrderNode} (h : AtFront p m level n rest) (q : Quantity) :
    (level.fillFront q).nodes.length ≤ level.nodes.length := by
  rw [PriceLevel.nodes_fillFront h.nodes_eq, h.nodes_eq]
  split_ifs <;> simp

/-- A fill that completes the maker takes it out of `orders_`. -/
lemma size_orders_fillStore {m : MatchState} {id : OrderId} (p : Price) (level : PriceLevel)
    (resting : Order) (hid : id ∈ m.book.store.orders) :
    (m.fillStore p level id resting).orders.size
      + (if (resting.fill (m.fillQty resting)).2.isFilled then 1 else 0)
      = m.book.store.orders.size := by
  simp only [fillStore]
  split_ifs
  · simp only [Store.eraseOrder, Store.orders_setLevel, Store.setOrder]
    rw [KeyList.size_erase_of_mem ExtTreeMap.mem_insert_self, KeyList.size_insert_of_mem hid]
  · simp only [Store.orders_setLevel, Store.setOrder]
    rw [KeyList.size_insert_of_mem hid, Nat.add_zero]

lemma sweepMeasure_lt {p : Price} {m m' : MatchState} (h : m.sweepStep p = .yield m') :
    sweepMeasure p m' < sweepMeasure p m := by
  have hcase := sweepStep_cases p m
  rw [h] at hcase
  cases hcase with
  | @ghost level n rest hfront gone =>
      have hlen := hfront.popFront_length
      simp only [sweepMeasure, hfront.notFilled, hfront.level_eq, level?_popGhost, order_popGhost,
        store_popGhost, Store.orders_setLevel, Option.elim_some, Bool.false_eq_true, if_false]
      omega
  | @fill level n rest resting hfill =>
      have hlen := hfill.fillFront_length (m.fillQty resting)
      have hmem : n.orderId ∈ m.book.store.orders :=
        KeyList.mem_iff_exists_getElem?.mpr ⟨_, hfill.order_eq⟩
      have hsize := size_orders_fillStore p level resting hmem
      simp only [sweepMeasure, hfill.notFilled, hfill.level_eq, level?_fillFront, order_fillFront,
        store_fillFront, Option.elim_some, Bool.false_eq_true, if_false]
      rcases Order.fill_min_completes m.order resting with htaker | hmaker
      · rw [fillQty, if_pos htaker]
        omega
      · rw [fillQty] at hsize
        rw [if_pos hmaker] at hsize
        split_ifs
        · omega
        · omega

/-- **The inner loop always ends**, from any state whatever. -/
theorem sweepLevel_exits (p : Price) (m : MatchState) :
    Loop.Exits (sweepStep p) m (m.sweepLevel p) := by
  have hcount : (m.level? p).elim 0 (·.orderCount) = (m.level? p).elim 0 (·.nodes.length) := by
    cases m.level? p with
    | none => rfl
    | some level => exact level.wf.orderCount_eq
  have hfuel : sweepMeasure p m < m.sweepFuel p := by
    rw [sweepMeasure, sweepFuel]
    rw [hcount]
    split_ifs <;> omega
  exact Loop.exits_run (I := fun _ => True) (fun s s' _ h => ⟨trivial, sweepMeasure_lt h⟩) trivial
    hfuel

/-- Why the inner loop has ended. -/
theorem sweepLevel_done (p : Price) (m : MatchState) :
    (m.sweepLevel p).order.isFilled = true ∨ (m.sweepLevel p).stoppedForSelfTrade = true ∨
      ∀ level, (m.sweepLevel p).level? p = some level → level.nodes = [] := by
  refine (sweepLevel_exits p m).last (I := fun _ => True)
    (Q := fun t => t.order.isFilled = true ∨ t.stoppedForSelfTrade = true ∨
      ∀ level, t.level? p = some level → level.nodes = [])
    (fun _ _ _ _ => trivial) ?_ trivial
  intro s t _ h
  have hcase := sweepStep_cases p s
  rw [h] at hcase
  cases hcase with
  | exit hexit =>
      by_cases hfilled : s.order.isFilled = true
      · exact Or.inl hfilled
      · exact Or.inr (Or.inr fun level hl => (hexit level hl).resolve_left hfilled)
  | selfTrade => exact Or.inr (Or.inl rfl)

/-! ## The outer loop -/

/-- The outer loop is about to look for the level at the cached best price. -/
structure Running (m : MatchState) : Prop where
  notFilled : m.order.isFilled = false
  notStopped : m.stoppedForSelfTrade = false
  ne_invalid : m.book.store.best m.opposite ≠ invalidPrice
  ne_zero : m.book.store.best m.opposite ≠ 0
  crosses : m.order.type = .Market ∨ m.order.wouldCross (m.book.store.best m.opposite) = true

/-- The three things a round of the outer loop can do. -/
inductive MatchCase (m : MatchState) : ForInStep MatchState → Prop
  | exit (h : ¬ Running m) : MatchCase m (.done m)
  | stale (h : Running m)
      (hstale : ∀ level, m.level? (m.book.store.best m.opposite) = some level → level.nodes = []) :
      MatchCase m (.yield m.refreshBest)
  | sweep (h : Running m) {level : PriceLevel}
      (hlevel : m.level? (m.book.store.best m.opposite) = some level) (hne : level.nodes ≠ []) :
      MatchCase m (.yield ((m.sweepLevel (m.book.store.best m.opposite)).closeLevel
        (m.book.store.best m.opposite)))

theorem matchStep_cases (m : MatchState) : MatchCase m m.matchStep := by
  rw [matchStep]
  by_cases h1 : (m.order.isFilled || m.stoppedForSelfTrade) = true
  · rw [if_pos h1]
    refine .exit fun h => ?_
    simp [h.notFilled, h.notStopped] at h1
  rw [if_neg h1]
  simp only [Bool.or_eq_true, not_or, Bool.not_eq_true] at h1
  by_cases h2 : (m.book.store.best m.opposite == invalidPrice ||
      m.book.store.best m.opposite == 0) = true
  · simp only [h2, if_true]
    refine .exit fun h => ?_
    simp [h.ne_invalid, h.ne_zero] at h2
  simp only [h2, Bool.false_eq_true, if_false]
  simp only [Bool.or_eq_true, not_or, beq_iff_eq] at h2
  by_cases h3 : (m.order.type == .Market ||
      m.order.wouldCross (m.book.store.best m.opposite)) = true
  · have hrun : Running m := ⟨h1.1, h1.2, h2.1, h2.2, by simpa using h3⟩
    simp only [h3, Bool.not_true, Bool.false_eq_true, if_false]
    cases hl : m.level? (m.book.store.best m.opposite) with
    | none => exact .stale hrun fun level h => by rw [hl] at h; cases h
    | some level =>
        simp only
        split_ifs with hempty
        · refine .stale hrun fun level' h => ?_
          rw [hl] at h
          cases h
          exact PriceLevel.empty_iff.mp hempty
        · exact .sweep hrun hl (PriceLevel.empty_eq_false_iff.mp (by simpa using hempty))
  · simp only [h3, Bool.not_false, if_true]
    refine .exit fun h => h3 ?_
    simpa using h.crosses

/-- What follows the inner loop, by what it has left of the level. -/
inductive CloseCase (p : Price) (m : MatchState) : MatchState → Prop
  | close {level : PriceLevel} (hlevel : m.level? p = some level) (hnil : level.nodes = []) :
      CloseCase p m (m.setStore (m.book.store.eraseLevel m.opposite p)).refreshBest
  | keep (h : ∀ level, m.level? p = some level → level.nodes ≠ []) : CloseCase p m m

theorem closeLevel_cases (p : Price) (m : MatchState) : CloseCase p m (m.closeLevel p) := by
  rw [closeLevel]
  cases hl : m.level? p with
  | none => exact .keep fun level h => by rw [hl] at h; cases h
  | some level =>
      simp only
      split_ifs with hempty
      · exact .close hl (PriceLevel.empty_iff.mp hempty)
      · refine .keep fun level' h => ?_
        rw [hl] at h
        cases h
        exact PriceLevel.empty_eq_false_iff.mp (by simpa using hempty)

/-! ## Invariants of matching

`Head` holds whenever the outer loop is at its head, `Inner p` whenever the inner loop is, on the
level at `p`.
-/

structure MatchInvariant (Head : MatchState → Prop) (Inner : Price → MatchState → Prop) :
    Prop where
  stale : ∀ m, Head m → Running m →
    (∀ level, m.level? (m.book.store.best m.opposite) = some level → level.nodes = []) →
    Head m.refreshBest
  enter : ∀ m level, Head m → Running m →
    m.level? (m.book.store.best m.opposite) = some level → level.nodes ≠ [] →
    Inner (m.book.store.best m.opposite) m
  ghost : ∀ p m level n rest, Inner p m → AtFront p m level n rest →
    m.book.store.orders[n.orderId]? = none → Inner p (m.popGhost p level)
  selfTrade : ∀ p m level n rest resting, Inner p m → AtFront p m level n rest →
    m.book.store.orders[n.orderId]? = some resting →
    m.book.config.enableSelfTradePrevention = true → nearIds m.order.id resting.id = true →
    Inner p { m with stoppedForSelfTrade := true }
  fill : ∀ p m level n rest resting, Inner p m → AtFill p m level n rest resting →
    Inner p (m.fillFront p level n.orderId resting)
  close : ∀ p m level, Inner p m → m.level? p = some level → level.nodes = [] →
    Head (m.setStore (m.book.store.eraseLevel m.opposite p)).refreshBest
  keep : ∀ p m, Inner p m → (∀ level, m.level? p = some level → level.nodes ≠ []) → Head m

namespace MatchInvariant

variable {Head : MatchState → Prop} {Inner : Price → MatchState → Prop}

lemma sweepLevel (h : MatchInvariant Head Inner) {p : Price} {m : MatchState} (hm : Inner p m) :
    Inner p (m.sweepLevel p) :=
  sweepLevel_induct (h.ghost p) (h.selfTrade p) (h.fill p) hm

lemma closeLevel (h : MatchInvariant Head Inner) {p : Price} {m : MatchState} (hm : Inner p m) :
    Head (m.closeLevel p) := by
  have hcase := closeLevel_cases p m
  revert hcase
  generalize m.closeLevel p = m'
  intro hcase
  cases hcase with
  | close hlevel hnil => exact h.close p m _ hm hlevel hnil
  | keep hkeep => exact h.keep p m hm hkeep

lemma matchStep (h : MatchInvariant Head Inner) {m m' : MatchState} (hm : Head m)
    (hstep : m.matchStep = .yield m') : Head m' := by
  have hcase := matchStep_cases m
  rw [hstep] at hcase
  cases hcase with
  | stale hrun hstale => exact h.stale m hm hrun hstale
  | sweep hrun hlevel hne => exact h.closeLevel (h.sweepLevel (h.enter m _ hm hrun hlevel hne))

/-- **Induction along `match_order`.** -/
theorem matchOrder (h : MatchInvariant Head Inner) (b : OrderBook) (order : Order)
    (hb : Head { book := b, order := order }) : Head (b.matchOrder order) := by
  refine Loop.run_invariant (fun m m' hm hstep => h.matchStep hm hstep) ?_ _ hb
  intro m m' hm hstep
  have hcase := matchStep_cases m
  rw [hstep] at hcase
  cases hcase with
  | exit => exact hm

/-- The common case: one property for both loops, which does not depend on the cached best price
or on the level maps having no empty level. -/
theorem of_uniform {I : MatchState → Prop} (refresh : ∀ m, I m → I m.refreshBest)
    (ghost : ∀ p m level n rest, I m → AtFront p m level n rest →
      m.book.store.orders[n.orderId]? = none → I (m.popGhost p level))
    (selfTrade : ∀ m, I m → I { m with stoppedForSelfTrade := true })
    (fill : ∀ p m level n rest resting, I m → AtFill p m level n rest resting →
      I (m.fillFront p level n.orderId resting))
    (close : ∀ p m level, I m → m.level? p = some level → level.nodes = [] →
      I (m.setStore (m.book.store.eraseLevel m.opposite p))) :
    MatchInvariant I fun _ => I where
  stale m hm _ _ := refresh m hm
  enter _ _ hm _ _ _ := hm
  ghost := ghost
  selfTrade _ m _ _ _ _ hm _ _ _ _ := selfTrade m hm
  fill := fill
  close p m level hm hlevel hnil := refresh _ (close p m level hm hlevel hnil)
  keep _ _ hm _ := hm

end MatchInvariant

/-! ### What matching never changes -/

/-- The fields of the taker that decide where and whether it trades. -/
structure SameTaker (b : OrderBook) (order : Order) (m : MatchState) : Prop where
  config_eq : m.book.config = b.config
  symbol_eq : m.book.symbol = b.symbol
  id_eq : m.order.id = order.id
  side_eq : m.order.side = order.side
  type_eq : m.order.type = order.type
  tif_eq : m.order.tif = order.tif
  price_eq : m.order.price = order.price
  quantity_eq : m.order.quantity = order.quantity

theorem sameTaker_invariant (b : OrderBook) (order : Order) :
    MatchInvariant (SameTaker b order) fun _ => SameTaker b order :=
  .of_uniform (fun _ h => ⟨h.1, h.2, h.3, h.4, h.5, h.6, h.7, h.8⟩)
    (fun _ _ _ _ _ h _ _ => ⟨h.1, h.2, h.3, h.4, h.5, h.6, h.7, h.8⟩)
    (fun _ h => ⟨h.1, h.2, h.3, h.4, h.5, h.6, h.7, h.8⟩)
    (fun _ _ _ _ _ _ h _ => ⟨h.1, h.2, by simp [h.3], by simp [h.4], by simp [h.5],
      by simp [h.6], by simp [h.7], by simp [h.8]⟩)
    (fun _ _ _ h _ _ => ⟨h.1, h.2, h.3, h.4, h.5, h.6, h.7, h.8⟩)

lemma matchOrder_sameTaker (b : OrderBook) (order : Order) :
    SameTaker b order (b.matchOrder order) :=
  (sameTaker_invariant b order).matchOrder b order ⟨rfl, rfl, rfl, rfl, rfl, rfl, rfl, rfl⟩

/-- Matching puts no order into the book. -/
lemma matchOrder_orders_none (b : OrderBook) (order : Order) {i : OrderId}
    (hi : b.store.orders[i]? = none) : (b.matchOrder order).book.store.orders[i]? = none := by
  have hinv : MatchInvariant (fun m => m.book.store.orders[i]? = none)
      fun _ m => m.book.store.orders[i]? = none := by
    refine .of_uniform ?_ ?_ (fun _ h => h) ?_ ?_
    · intro m h
      simpa [refreshBest] using h
    · intro p m level n rest h _ _
      simpa using h
    · intro p m level n rest resting h hfill
      have hne : i ≠ n.orderId := by
        rintro rfl
        rw [hfill.order_eq] at h
        cases h
      rw [store_fillFront, getElem?_orders_fillStore, if_neg hne, h]
    · intro p m level h _ _
      simpa using h
  exact hinv.matchOrder b order hi

end Exchange.OrderBook.MatchState
