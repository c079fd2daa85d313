import Exchange.OrderBook.Calls

/-!
# No empty level, and a live best price

What holds of *every* reachable book, whatever the prices, quantities and fill histories of the
orders: no level of the maps is empty, and each cached best price is either a key of its map, or
`INVALID_PRICE` with an empty map (`Store.Sound`).

That is what `match_order` needs in order to end.  Its `continue` branch refreshes the cached best
price and tries again, which makes no progress if the cached price is the right one and its level
is empty; in a sound book the branch is not taken, every round of the outer loop uses up a level or
is the last (`matchMeasure_lt`), and the loop ends (`matchOrder_exits`).
-/

namespace Exchange

open Std (ExtTreeMap)
open OrderBook MatchState

namespace Store

/-- The cached best price of a side is the price of one of its levels, if it has any. -/
def BestLive (s : Store) (side : Side) : Prop :=
  s.best side ∈ s.levels side ∨ (s.best side = invalidPrice ∧ ∀ p, p ∉ s.levels side)

structure Sound (s : Store) : Prop where
  noEmpty : ∀ (side : Side) (p : Price) (level : PriceLevel),
    (s.levels side)[p]? = some level → level.nodes ≠ []
  bestLive : ∀ side, s.BestLive side

lemma Sound.empty : ({} : Store).Sound where
  noEmpty side p level h := by cases side <;> simp [levels] at h
  bestLive side := by cases side <;> exact Or.inr ⟨rfl, by simp [levels]⟩

lemma bestLive_updateBest (s : Store) (side : Side) : (s.updateBest side).BestLive side := by
  rw [BestLive]
  rw [levels_updateBest]
  cases side with
  | Buy =>
      simp only [updateBest, updateBestBid, levels, best]
      cases h : s.bidLevels.keys.getLast? with
      | none => exact Or.inr ⟨rfl, KeyList.keys_eq_nil_iff.mp (List.getLast?_eq_none_iff.mp h)⟩
      | some p => exact Or.inl (KeyList.getLast?_keys_eq_some.mp h).1
  | Sell =>
      simp only [updateBest, updateBestAsk, levels, best]
      cases h : s.askLevels.keys.head? with
      | none => exact Or.inr ⟨rfl, KeyList.keys_eq_nil_iff.mp (List.head?_eq_none_iff.mp h)⟩
      | some p => exact Or.inl (KeyList.head?_keys_eq_some.mp h).1

variable {s s' : Store}

/-- Liveness of a cached best price depends on the keys and the cache only. -/
lemma BestLive.congr {side : Side} (h : s.BestLive side) (hbest : s'.best side = s.best side)
    (hkeys : ∀ p, p ∈ s'.levels side ↔ p ∈ s.levels side) : s'.BestLive side := by
  rw [BestLive] at h ⊢
  simpa only [hbest, hkeys] using h

lemma mem_setLevel {side side' : Side} {p k : Price} {level : PriceLevel} :
    k ∈ (s.setLevel side p level).levels side' ↔ (side' = side ∧ k = p) ∨ k ∈ s.levels side' := by
  simp only [KeyList.mem_iff_exists_getElem?, getElem?_setLevel]
  split_ifs with h <;> simp [h]

lemma mem_setLevel_of_mem {side side' : Side} {p k : Price} {level : PriceLevel}
    (hp : p ∈ s.levels side) :
    k ∈ (s.setLevel side p level).levels side' ↔ k ∈ s.levels side' := by
  rw [mem_setLevel]
  refine or_iff_right_of_imp ?_
  rintro ⟨rfl, rfl⟩
  exact hp

lemma size_setLevel_of_mem {side : Side} {p : Price} {level : PriceLevel}
    (hp : p ∈ s.levels side) :
    ((s.setLevel side p level).levels side).size = (s.levels side).size := by
  simp only [setLevel, levels_setLevels, if_true]
  exact KeyList.size_insert_of_mem hp level

lemma mem_of_mem_eraseLevel {side side' : Side} {p k : Price}
    (hk : k ∈ (s.eraseLevel side p).levels side') : k ∈ s.levels side' := by
  simp only [KeyList.mem_iff_exists_getElem?, getElem?_eraseLevel] at hk ⊢
  split_ifs at hk with h
  · obtain ⟨level, hl⟩ := hk
    cases hl
  · exact hk

lemma bestLive_raiseBest {side : Side} {p : Price} (hp : p ∈ s.levels side)
    (h : s.best side ∈ s.levels side ∨ s.best side = invalidPrice) :
    (s.raiseBest side p).BestLive side := by
  cases side with
  | Buy =>
      simp only [levels, best] at hp h
      rw [BestLive, levels_raiseBest]
      simp only [levels, raiseBest, best]
      split_ifs with hraise
      · exact Or.inl hp
      · exact Or.inl (h.resolve_right fun hb => hraise (Or.inl hb))
  | Sell =>
      simp only [levels, best] at hp h
      rw [BestLive, levels_raiseBest]
      simp only [levels, raiseBest, best]
      split_ifs with hraise
      · exact Or.inl hp
      · rcases h with h | h
        · exact Or.inl h
        · rw [h] at hraise ⊢
          rw [← (lt_or_eq_invalid p).resolve_left hraise]
          exact Or.inl hp

lemma targetLevel_mem_or (s : Store) (o : Order) :
    (s.levels o.side)[o.price]? = some (s.targetLevel o) ∨
      (o.price ∉ s.levels o.side ∧ s.targetLevel o = .new o.price) := by
  rw [targetLevel]
  cases h : (s.levels o.side)[o.price]? with
  | some level => exact Or.inl rfl
  | none =>
      refine Or.inr ⟨fun hmem => ?_, rfl⟩
      obtain ⟨v, hv⟩ := KeyList.mem_iff_exists_getElem?.mp hmem
      rw [h] at hv
      cases hv

theorem Sound.insertRestingOrder (h : s.Sound) (o : Order) : (s.insertRestingOrder o).Sound where
  noEmpty side p level hl := by
    rw [getElem?_insertRestingOrder] at hl
    split_ifs at hl
    · cases hl
      simp
    · exact h.noEmpty side p level hl
  bestLive side := by
    by_cases hs : side = o.side
    · subst hs
      refine bestLive_raiseBest ?_ ?_
      · rw [levels_setOrder, mem_setLevel]
        exact Or.inl ⟨rfl, rfl⟩
      · rw [best_setOrder, best_setLevel, levels_setOrder, mem_setLevel]
        rcases h.bestLive o.side with hmem | hnone
        · exact Or.inl (Or.inr hmem)
        · exact Or.inr hnone.1
    · refine (h.bestLive side).congr (best_insertRestingOrder_of_ne hs) fun p => ?_
      simp [KeyList.mem_iff_exists_getElem?, getElem?_insertRestingOrder, hs]

theorem Sound.cancelOrder (h : s.Sound) (id : OrderId) (o : Order) :
    (s.cancelOrder id o).Sound where
  noEmpty side p level hl := by
    rw [levels_cancelOrder, getElem?_removeOrderFromLevel] at hl
    split_ifs at hl
    · obtain ⟨level', -, hl'⟩ := Option.bind_eq_some_iff.mp hl
      split_ifs at hl' with hempty
      cases hl'
      exact PriceLevel.empty_eq_false_iff.mp (by simpa using hempty)
    · exact h.noEmpty side p level hl
  bestLive side := by
    by_cases hs : side = o.side
    · rw [hs]
      exact bestLive_updateBest _ _
    · refine (h.bestLive side).congr (best_cancelOrder_of_ne hs) fun p => ?_
      simp [KeyList.mem_iff_exists_getElem?, getElem?_removeOrderFromLevel, hs]

/-- A replace in place keeps the level maps' keys. -/
lemma mem_levels_amend {id : OrderId} {newPrice : Price} {existing : Order} {level : PriceLevel}
    (hin : InPlace s id newPrice existing level) {newQty : Quantity} {side : Side} {p : Price} :
    p ∈ (amend s id existing level newQty).levels side ↔ p ∈ s.levels side := by
  rw [amend, levels_setOrder]
  exact mem_setLevel_of_mem (KeyList.mem_iff_exists_getElem?.mpr ⟨_, hin.level_eq⟩)

theorem Sound.amend (h : s.Sound) {id : OrderId} {newPrice : Price} {existing : Order}
    {level : PriceLevel} (hin : InPlace s id newPrice existing level) (newQty : Quantity) :
    (amend s id existing level newQty).Sound where
  noEmpty side p level' hl := by
    simp only [OrderBook.amend, Store.levels_setOrder, Store.getElem?_setLevel] at hl
    split_ifs at hl
    · cases hl
      intro hnil
      have hids : (level.modifyQuantity id newQty).nodes.map (·.orderId)
          = level.nodes.map (·.orderId) := PriceLevel.ids_modifyQuantity
      rw [hnil, List.map_nil, eq_comm, List.map_eq_nil_iff] at hids
      exact h.noEmpty _ _ _ hin.level_eq hids
    · exact h.noEmpty side p level' hl
  bestLive side :=
    (h.bestLive side).congr (by simp [OrderBook.amend]) fun _ => mem_levels_amend hin

end Store

namespace OrderBook

/-! ## Matching keeps it -/

section Keys

variable {p : Price} {m : MatchState} {level : PriceLevel} {n : OrderNode} {rest : List OrderNode}

lemma MatchState.AtFront.mem_levels (h : AtFront p m level n rest) :
    p ∈ m.book.store.levels m.opposite :=
  KeyList.mem_iff_exists_getElem?.mpr ⟨level, h.level_eq⟩

/-- A round of the inner loop keeps the level maps' keys. -/
lemma mem_levels_popGhost (h : AtFront p m level n rest) {side : Side} {k : Price} :
    k ∈ (m.popGhost p level).book.store.levels side ↔ k ∈ m.book.store.levels side := by
  rw [store_popGhost, Store.mem_setLevel_of_mem h.mem_levels]

lemma mem_levels_fillStore (h : AtFront p m level n rest) {id : OrderId} {resting : Order}
    {side : Side} {k : Price} :
    k ∈ (m.fillStore p level id resting).levels side ↔ k ∈ m.book.store.levels side := by
  rw [levels_fillStore, Store.mem_setLevel_of_mem h.mem_levels]

end Keys

/-- `Sound`, except that the level at `p`, where the inner loop is at work, may be empty. -/
structure SoundExcept (p : Price) (m : MatchState) : Prop where
  mem : p ∈ m.book.store.levels m.opposite
  noEmpty : ∀ (side : Side) (k : Price) (level : PriceLevel),
    (m.book.store.levels side)[k]? = some level →
    side ≠ m.opposite ∨ k ≠ p → level.nodes ≠ []
  bestLive : ∀ side, m.book.store.BestLive side

/-- In a sound book the loop never has to refresh the cached best price and try again. -/
lemma MatchState.Running.not_stale {m : MatchState} (hrun : Running m) (hm : m.book.store.Sound) :
    ¬ ∀ level, m.level? (m.book.store.best m.opposite) = some level → level.nodes = [] := by
  intro hstale
  rcases hm.bestLive m.opposite with hmem | hnone
  · obtain ⟨level, hlevel⟩ := KeyList.mem_iff_exists_getElem?.mp hmem
    exact hm.noEmpty _ _ _ hlevel (hstale level hlevel)
  · exact hrun.ne_invalid hnone.1

theorem sound_invariant : MatchInvariant (fun m => m.book.store.Sound) SoundExcept where
  stale m hm hrun hstale := absurd hstale (hrun.not_stale hm)
  enter m level hm hrun hlevel hne :=
    ⟨KeyList.mem_iff_exists_getElem?.mpr ⟨level, hlevel⟩,
      fun side k level' h _ => hm.noEmpty side k level' h, hm.bestLive⟩
  ghost p m level n rest hm hfront gone := by
    refine ⟨(mem_levels_popGhost hfront).mpr hm.mem, fun side k level' h hne => ?_, fun side => ?_⟩
    · rw [store_popGhost, Store.getElem?_setLevel, if_neg (by tauto)] at h
      exact hm.noEmpty side k level' h hne
    · exact (hm.bestLive side).congr (by simp) fun _ => mem_levels_popGhost hfront
  selfTrade p m level n rest resting hm _ _ _ _ := ⟨hm.mem, hm.noEmpty, hm.bestLive⟩
  fill p m level n rest resting hm hfill := by
    refine ⟨?_, fun side k level' h hne => ?_, fun side => ?_⟩
    · rw [opposite_fillFront, store_fillFront, mem_levels_fillStore hfill.toAtFront]
      exact hm.mem
    · rw [opposite_fillFront] at hne
      rw [store_fillFront, getElem?_levels_fillStore, if_neg (by tauto)] at h
      exact hm.noEmpty side k level' h hne
    · exact (hm.bestLive side).congr (by simp) fun _ => mem_levels_fillStore hfill.toAtFront
  close p m level hm hlevel hnil := by
    refine ⟨fun side k level' h => ?_, fun side => ?_⟩
    · simp only [refreshBest, store_setStore, opposite_setStore, Store.levels_updateBest,
        Store.getElem?_eraseLevel] at h
      split_ifs at h with heq
      exact hm.noEmpty side k level' h (by tauto)
    · by_cases hs : side = m.opposite
      · rw [hs]
        exact Store.bestLive_updateBest _ _
      · refine (hm.bestLive side).congr ?_ fun k => ?_
        · rw [refreshBest, store_setStore, opposite_setStore, Store.best_updateBest_of_ne hs,
            store_setStore, Store.best_eraseLevel]
        · simp [refreshBest, KeyList.mem_iff_exists_getElem?, Store.getElem?_eraseLevel, hs]
  keep p m hm hkeep := by
    refine ⟨fun side k level h => ?_, hm.bestLive⟩
    by_cases hat : side = m.opposite ∧ k = p
    · obtain ⟨rfl, rfl⟩ := hat
      exact hkeep level h
    · exact hm.noEmpty side k level h (by tauto)

/-! ## The outer loop ends -/

/-- Rounds left: levels that can still be used up. -/
def matchMeasure (m : MatchState) : Nat :=
  if m.order.isFilled || m.stoppedForSelfTrade then 0
  else (m.book.store.levels m.opposite).size + 1

/-- The inner loop works on the level at `p` and neither adds nor removes one. -/
lemma sweepLevel_levels {p : Price} {m : MatchState} (hp : p ∈ m.book.store.levels m.opposite) :
    (m.sweepLevel p).opposite = m.opposite ∧
      p ∈ (m.sweepLevel p).book.store.levels m.opposite ∧
      ((m.sweepLevel p).book.store.levels m.opposite).size
        = (m.book.store.levels m.opposite).size := by
  refine sweepLevel_induct (I := fun m' => m'.opposite = m.opposite ∧
    p ∈ m'.book.store.levels m.opposite ∧
    (m'.book.store.levels m.opposite).size = (m.book.store.levels m.opposite).size)
    ?_ ?_ ?_ ⟨rfl, hp, rfl⟩
  · rintro m' level n rest ⟨hopp, hmem, hsize⟩ _ _
    refine ⟨hopp, ?_, ?_⟩
    · rw [store_popGhost, hopp, Store.mem_setLevel_of_mem hmem]
      exact hmem
    · rw [store_popGhost, hopp, Store.size_setLevel_of_mem hmem, hsize]
  · rintro m' level n rest resting h _ _ _ _
    exact h
  · rintro m' level n rest resting ⟨hopp, hmem, hsize⟩ _
    refine ⟨by rw [opposite_fillFront, hopp], ?_, ?_⟩
    · rw [store_fillFront, levels_fillStore, hopp, Store.mem_setLevel_of_mem hmem]
      exact hmem
    · rw [store_fillFront, levels_fillStore, hopp, Store.size_setLevel_of_mem hmem, hsize]

lemma matchMeasure_lt {m m' : MatchState} (hm : m.book.store.Sound)
    (h : m.matchStep = .yield m') : matchMeasure m' < matchMeasure m := by
  have hcase := matchStep_cases m
  rw [h] at hcase
  cases hcase with
  | stale hrun hstale => exact absurd hstale (hrun.not_stale hm)
  | @sweep hrun level hlevel hne =>
      obtain ⟨hopp, hmem, hsize⟩ :=
        sweepLevel_levels (KeyList.mem_iff_exists_getElem?.mpr ⟨level, hlevel⟩)
      have hdone := sweepLevel_done (m.book.store.best m.opposite) m
      have hstart : matchMeasure m = (m.book.store.levels m.opposite).size + 1 := by
        simp [matchMeasure, hrun.notFilled, hrun.notStopped]
      have hclose := closeLevel_cases (m.book.store.best m.opposite)
        (m.sweepLevel (m.book.store.best m.opposite))
      rw [hstart]
      generalize closeLevel _ _ = m' at hclose
      cases hclose with
      | close hlevel' hnil =>
          have herase := KeyList.size_erase_of_mem hmem
          simp only [matchMeasure, refreshBest, opposite_setStore, store_setStore,
            Store.levels_updateBest, Store.eraseLevel, Store.levels_setLevels, hopp, if_true]
          split_ifs <;> omega
      | keep hkeep =>
          have hover : ((m.sweepLevel (m.book.store.best m.opposite)).order.isFilled ||
              (m.sweepLevel (m.book.store.best m.opposite)).stoppedForSelfTrade) = true := by
            rcases hdone with hdone | hdone | hdone
            · simp [hdone]
            · simp [hdone]
            · obtain ⟨level', hlevel'⟩ := KeyList.mem_iff_exists_getElem?.mp hmem
              have hlevel' : (m.sweepLevel (m.book.store.best m.opposite)).level?
                  (m.book.store.best m.opposite) = some level' := by
                rw [level?, hopp, hlevel']
              exact absurd (hdone level' hlevel') (hkeep level' hlevel')
          rw [matchMeasure, if_pos hover]
          omega

/-- **`match_order` ends** on every sound book, and `matchOrder` is where it ends. -/
theorem matchOrder_exits {b : OrderBook} (hb : b.store.Sound) (order : Order) :
    Loop.Exits matchStep { book := b, order := order } (b.matchOrder order) := by
  have hfuel : matchMeasure { book := b, order := order } < b.matchFuel order := by
    rw [matchMeasure, matchFuel]
    split_ifs
    · omega
    · simp [MatchState.opposite]
  exact Loop.exits_run (I := fun m : MatchState => m.book.store.Sound)
    (fun m m' hm h => ⟨sound_invariant.matchStep hm h, matchMeasure_lt hm h⟩) hb hfuel

/-- Why `match_order` has ended. -/
theorem matchOrder_done {b : OrderBook} (hb : b.store.Sound) (order : Order) :
    ¬ Running (b.matchOrder order) := by
  refine (matchOrder_exits hb order).last (I := fun _ => True) (Q := fun m => ¬ Running m)
    (fun _ _ _ _ => trivial) ?_ trivial
  intro m m' _ h
  have hcase := matchStep_cases m
  rw [h] at hcase
  cases hcase with
  | exit hexit => exact hexit

/-! ## Every reachable book is sound -/

theorem sound_calls : CallInvariant (fun _ _ => True) fun b => b.store.Sound where
  quiet h hquiet := by rw [hquiet.store_eq]; exact h
  matched h _ _ := sound_invariant.matchOrder _ _ h
  rested h _ _ _ _ := (sound_invariant.matchOrder _ _ h).insertRestingOrder _
  cancelled h _ := h.cancelOrder _ _
  inPlace h _ hin := h.amend hin _
  moved _ _ := trivial

section Runs

variable (symbol : Symbol) (config : OrderBookConfig) (onTrade onExecution onBbo : Bool)
  (clock : Stream' Timestamp) (ops : List Op)

theorem sound_after : (after (new symbol config onTrade onExecution onBbo clock) ops).store.Sound :=
  sound_calls.run (Run.admitted_trivial _ _) Store.Sound.empty

/-- **Matching always terminates.**  In every reachable book, whatever order comes in, the outer
loop of `match_order` leaves after finitely many rounds, and so does the inner loop wherever it is
entered; `matchOrder` and `sweepLevel` are the states they leave in. -/
theorem matching_terminates (order : Order) :
    Loop.Exits matchStep
        { book := after (new symbol config onTrade onExecution onBbo clock) ops, order := order }
        ((after (new symbol config onTrade onExecution onBbo clock) ops).matchOrder order) ∧
      ∀ (bestOpposite : Price) (m : MatchState),
        Loop.Exits (sweepStep bestOpposite) m (m.sweepLevel bestOpposite) :=
  ⟨matchOrder_exits (sound_after _ _ _ _ _ _ _) order, sweepLevel_exits⟩

end Runs

end OrderBook

end Exchange
