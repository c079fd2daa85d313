import Exchange.OrderBook.Depth
import Mathlib.Data.List.Dedup

/-!
# What a snapshot of the depth shows

`get_bids` and `get_asks` read the level map, sort what they find there and cut it off.

* `Store.groups` — the orders of `orders_` on a side, grouped by price, best price first;
* `snapshot_eq` — where orders and nodes agree and the caches are exact, a snapshot is the beginning
  of that list;
* **`depth_exact`** — so it is after every run with valid prices and replaces to another price, and
  it begins with the cached best price.
-/

namespace Exchange

open Std (ExtTreeMap)

namespace Store

/-! ## Orders grouped by price -/

/-- The prices at which orders of a side rest, each once, best first. -/
def restingPrices (s : Store) (side : Side) : List Price :=
  ((((s.orders.toList.map Prod.snd).filter (·.side = side)).map (·.price)).dedup).insertionSort
    fun p q => side.rank p ≤ side.rank q

/-- What rests at a price, as an entry of a snapshot. -/
def group (s : Store) (side : Side) (p : Price) : PriceLevelUpdate where
  price := p
  quantity := UInt32.ofNat (s.openAt side p)
  orderCount := UInt32.ofNat (s.restingAt side p).length

/-- The orders of a side, grouped by price. -/
def groups (s : Store) (side : Side) : List PriceLevelUpdate :=
  (s.restingPrices side).map (s.group side)

variable {s : Store} {side : Side} {p : Price}

lemma mem_restingPrices : p ∈ s.restingPrices side ↔ s.restingAt side p ≠ [] := by
  rw [restingPrices, List.mem_insertionSort, List.mem_dedup, List.mem_map]
  simp only [restingAt, ne_eq, List.filter_eq_nil_iff, List.mem_filter, decide_eq_true_eq,
    not_forall, not_not]
  constructor
  · rintro ⟨o, ⟨ho, hside⟩, hprice⟩
    exact ⟨o, ho, hside, hprice⟩
  · rintro ⟨o, ho, hside, hprice⟩
    exact ⟨o, ⟨ho, hside⟩, hprice⟩

lemma nodup_restingPrices (s : Store) (side : Side) : (s.restingPrices side).Nodup :=
  (List.perm_insertionSort _ _).nodup_iff.mpr (List.nodup_dedup _)

lemma rank_injective (side : Side) : Function.Injective side.rank := by
  intro p q h
  cases side with
  | Buy => exact Int64.toInt_inj.mp (Int.neg_inj.mp h)
  | Sell => exact Int64.toInt_inj.mp h

/-- Best first, and each price once. -/
lemma restingPrices_pairwise (s : Store) (side : Side) :
    (s.restingPrices side).Pairwise fun p q => side.rank p < side.rank q := by
  have htotal : Std.Total fun p q => side.rank p ≤ side.rank q := ⟨fun _ _ => Int.le_total _ _⟩
  have htrans : IsTrans Price fun p q => side.rank p ≤ side.rank q :=
    ⟨fun _ _ _ => Int.le_trans⟩
  have hsorted : (s.restingPrices side).Pairwise fun p q => side.rank p ≤ side.rank q :=
    List.pairwise_insertionSort _ _
  refine (hsorted.and (nodup_restingPrices s side)).imp fun {p q} h => ?_
  exact lt_of_le_of_ne h.1 fun heq => h.2 (rank_injective side heq)

/-! ## Levels are groups -/

/-- The prices of the levels are those of the orders. -/
theorem Agrees.bestFirst_eq (h : s.Agrees) (hs : s.Sound) (side : Side) :
    s.bestFirst side = s.restingPrices side := by
  have hperm : (s.bestFirst side).Perm (s.restingPrices side) := by
    rw [List.perm_ext_iff_of_nodup (bestFirst_nodup s side) (nodup_restingPrices s side)]
    intro p
    rw [mem_bestFirst, mem_restingPrices, KeyList.mem_iff_exists_getElem?]
    constructor
    · rintro ⟨level, hl⟩ hnil
      have hqueue := h.ordersAt_perm side p
      rw [hnil, List.perm_nil] at hqueue
      exact h.ordersAt_ne_nil hl (hs.noEmpty _ _ _ hl) hqueue
    · intro hne
      obtain ⟨o, ho⟩ := List.exists_mem_of_ne_nil _ hne
      obtain ⟨hfound, rfl, rfl⟩ := h.mem_restingAt.mp ho
      obtain ⟨n, ⟨level, hl, -⟩, -⟩ := h.queued hfound
      exact ⟨level, hl⟩
  refine hperm.eq_of_pairwise ?_ (bestFirst_pairwise s side) (restingPrices_pairwise s side)
  intro p q _ _ hpq hqp
  omega

lemma Agrees.length_restingAt (h : s.Agrees) {level : PriceLevel}
    (hl : (s.levels side)[p]? = some level) :
    (s.restingAt side p).length = level.orderCount := by
  rw [← (h.ordersAt_perm side p).length_eq, ordersAt_eq hl, level.wf.orderCount_eq,
    List.length_filterMap_eq_countP, List.countP_eq_length]
  intro n hn
  obtain ⟨o, ho, -⟩ := h.node ⟨level, hl, hn⟩
  rw [ho]
  rfl

/-- An entry made from a level is the group at its price. -/
lemma Agrees.levelUpdate_eq (h : s.Agrees) {level : PriceLevel}
    (hl : (s.levels side)[p]? = some level) :
    OrderBook.levelUpdate (p, level) = s.group side p := by
  have hquantity : level.totalQuantity = UInt32.ofNat (s.openAt side p) := by
    have htotal := Feed.toNat_quantityAt h side p
    rw [Feed.quantityAt, hl] at htotal
    exact UInt32.toNat_inj.mp (by rw [UInt32.toNat_ofNat']; exact htotal)
  rw [OrderBook.levelUpdate, group, hquantity, h.length_restingAt hl]

end Store

namespace OrderBook

/-! ## Sorting what is sorted -/

/-- Insertion sort turns round a list in which nothing precedes what comes after it. -/
lemma insertionSort_eq_reverse {α : Type} {r : α → α → Prop} [DecidableRel r] {l : List α}
    (h : l.Pairwise fun x y => ¬ r x y) : l.insertionSort r = l.reverse := by
  have hinsert : ∀ (x : α) (l : List α), (∀ y ∈ l, ¬ r x y) → l.orderedInsert r x = l ++ [x] := by
    intro x l hall
    induction l with
    | nil => rfl
    | cons y l ih =>
        rw [List.orderedInsert_of_not_le _ _ (hall y List.mem_cons_self),
          ih fun z hz => hall z (List.mem_cons_of_mem _ hz), List.cons_append]
  induction h with
  | nil => rfl
  | cons hx _ ih =>
      rw [List.insertionSort_cons, ih, hinsert _ _ fun y hy => hx y (List.mem_reverse.mp hy),
        List.reverse_cons]

section Snapshot

variable {s : Store} {side : Side} {levels : List (Price × PriceLevel)}

/-- No level is left out. -/
lemma filter_nonempty (hs : s.Sound) (side : Side) :
    ((s.levels side).toList.filter fun x => !x.2.empty) = (s.levels side).toList := by
  rw [List.filter_eq_self]
  rintro ⟨p, level⟩ hmem
  have hl := ExtTreeMap.mem_toList_iff_getElem?_eq_some.mp hmem
  simpa using PriceLevel.empty_eq_false_iff.mpr (hs.noEmpty side p level hl)

/-- The entries of a side are its groups, in whichever order they stand. -/
lemma map_levelUpdate (h : s.Agrees) (hsub : levels ⊆ (s.levels side).toList) :
    levels.map levelUpdate = (levels.map Prod.fst).map (s.group side) := by
  rw [List.map_map]
  refine List.map_congr_left ?_
  rintro ⟨p, level⟩ hmem
  exact h.levelUpdate_eq (ExtTreeMap.mem_toList_iff_getElem?_eq_some.mp (hsub hmem))

lemma snapshot_bids (h : s.Agrees) (hs : s.Sound) (depth : ℕ) :
    snapshot (· > ·) s.bidLevels depth = (s.groups .Buy).take depth := by
  have hsorted : s.bidLevels.toList.Pairwise fun x y => ¬ x.1 > y.1 :=
    ExtTreeMap.ordered_keys_toList.imp fun {x y} hlt =>
      Int64.not_lt.mpr (Int64.le_of_lt (Std.compare_eq_lt.mp hlt))
  have hfilter := filter_nonempty hs .Buy
  rw [Store.levels] at hfilter
  rw [snapshot, hfilter, insertionSort_eq_reverse hsorted, List.map_take, Store.groups,
    ← h.bestFirst_eq hs, Store.bestFirst, ← ExtTreeMap.map_fst_toList_eq_keys, ← List.map_reverse,
    ← map_levelUpdate h]
  exact fun x hx => List.mem_reverse.mp hx

lemma snapshot_asks (h : s.Agrees) (hs : s.Sound) (depth : ℕ) :
    snapshot (· < ·) s.askLevels depth = (s.groups .Sell).take depth := by
  have hsorted : s.askLevels.toList.Pairwise fun x y => x.1 < y.1 :=
    ExtTreeMap.ordered_keys_toList.imp fun {x y} hlt => Std.compare_eq_lt.mp hlt
  have hfilter := filter_nonempty hs .Sell
  rw [Store.levels] at hfilter
  rw [snapshot, hfilter, hsorted.insertionSort_eq, List.map_take, Store.groups,
    ← h.bestFirst_eq hs, Store.bestFirst, ← ExtTreeMap.map_fst_toList_eq_keys,
    ← map_levelUpdate h]
  exact fun x hx => hx

end Snapshot

/-! ## Depth in runs -/

/-- What the snapshots of a side show, given the function that makes them and the cached price. -/
structure DepthExact (s : Store) (side : Side) (get : ℕ → List PriceLevelUpdate) (best : Price) :
    Prop where
  eq_groups : ∀ d, get d = (s.groups side).take d
  length_eq : ∀ d, (get d).length = min d (s.restingPrices side).length
  sorted : ∀ d, ((get d).map (·.price)).Pairwise fun p q => side.rank p < side.rank q
  starts_best : ∀ d, 0 < d → s.restingPrices side ≠ [] → (get d).head?.map (·.price) = some best
  extends_shorter : ∀ d d', d ≤ d' → get d <+: get d'

lemma prices_groups (s : Store) (side : Side) :
    (s.groups side).map (·.price) = s.restingPrices side := by
  rw [Store.groups, List.map_map]
  exact List.map_id _

theorem depthExact {s : Store} {side : Side} {get : ℕ → List PriceLevelUpdate} (h : s.Agrees)
    (hs : s.Exact) (hget : ∀ d, get d = (s.groups side).take d) :
    DepthExact s side get (s.best side) where
  eq_groups := hget
  length_eq d := by
    rw [hget, List.length_take, Store.groups, List.length_map]
  sorted d := by
    rw [hget, List.map_take, prices_groups]
    exact (Store.restingPrices_pairwise s side).sublist (List.take_sublist _ _)
  starts_best d hd hne := by
    obtain ⟨p, ps, hprices⟩ := List.exists_cons_of_ne_nil hne
    obtain ⟨d, rfl⟩ := Nat.exists_eq_add_of_lt hd
    have hbest := hs.best_eq_head side
    rw [h.bestFirst_eq hs.toSound, hprices] at hbest
    rw [hget, Store.groups, hprices, hbest]
    simp [Store.group]
  extends_shorter d d' hle := by
    rw [hget, hget]
    exact List.take_prefix_take_left hle

section Runs

variable {symbol : Symbol} {config : OrderBookConfig} {onTrade onExecution onBbo : Bool}
  {clock : Stream' Timestamp} {ops : List Op}

/-- **Depth snapshots are exact** after every run in which only valid prices can enter the book and
replaces name another price. -/
theorem depth_exact (hops : Run.Admitted apply (fun b op => ValidPrices b op ∧ MovesPrice b op)
      (new symbol config onTrade onExecution onBbo clock) ops) :
    let b := after (new symbol config onTrade onExecution onBbo clock) ops
    DepthExact b.store .Buy b.getBids b.store.bestBid ∧
      DepthExact b.store .Sell b.getAsks b.store.bestAsk := by
  intro b
  have hagrees : b.store.Agrees := agrees_after (hops.mono fun _ _ h => h.2.unfilledInPlace)
  have hexact : b.store.Exact := exact_after (hops.mono fun _ _ h => h.1)
  exact ⟨depthExact hagrees hexact (snapshot_bids hagrees hexact.toSound),
    depthExact hagrees hexact (snapshot_asks hagrees hexact.toSound)⟩

end Runs

/-- Two bids at one price and one below, entered from the bottom. -/
theorem depth_exact_sample :
    let b := after (makeBook {})
      [.add (limitOrder 1 .Buy 98 5), .add (limitOrder 2 .Buy 99 10),
        .add (limitOrder 3 .Buy 99 7), .add (limitOrder 4 .Sell 101 3)]
    DepthExact b.store .Buy b.getBids b.store.bestBid ∧
      DepthExact b.store .Sell b.getAsks b.store.bestAsk :=
  depth_exact (by decide +kernel)

end OrderBook

end Exchange
