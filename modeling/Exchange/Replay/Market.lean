import Exchange.OrderBook.Passive
import Exchange.Replay.Kraken

/-!
# The market that is replayed

A recorded feed shows a market: for each side and price string the size of the last entry for it.
Turned into commands and replayed, it should leave that market in the engine, with one order for
each level.

* `Market`, `marketAfter` — what a stream of commands stands for, level by level;
* **`rebuilt_run`** — a stream whose additions cross nothing leaves its market in the book;
* **`market_rebuilt`** — and the stream of a feed has the market that the feed shows.

An addition that would trade makes the replay part from the feed, so the market shown must never be
crossed, not even between two entries of one message.
-/

namespace Exchange.ReplayKraken

open Function (update)
open OrderBook (Quiet)
open ParseFeed
open Run (Admitted run)

/-! ## What a stream of commands stands for -/

/-- A price level with its size. -/
structure Quote where
  side : Side
  price : Nat
  quantity : Nat
deriving DecidableEq, Repr

abbrev Market := Nat → Option Quote

def marketAfter (m : Market) (cmd : Command) : Market :=
  match cmd.type with
  | .ADD => update m cmd.orderId (some ⟨cmd.side, cmd.price, max cmd.quantity 1⟩)
  | .CANCEL => update m cmd.orderId none
  | .REPLACE => update m cmd.orderId (some ⟨cmd.side, cmd.price, cmd.quantity⟩)

/-- No price on the other side is reached. -/
def Clear (m : Market) (side : Side) (price : Nat) : Prop :=
  ∀ oid quote, m oid = some quote → quote.side = side.opposite →
    match side with
    | .Buy => price < quote.price
    | .Sell => quote.price < price

/-- An addition is new, has a price and reaches nothing; the others name a level by its side and
price. -/
def Suits (m : Market) (cmd : Command) : Prop :=
  match cmd.type with
  | .ADD => m cmd.orderId = none ∧ 0 < cmd.price ∧ Clear m cmd.side cmd.price
  | .CANCEL | .REPLACE => ∃ quantity, m cmd.orderId = some ⟨cmd.side, cmd.price, quantity⟩

/-- The order stands for the level. -/
structure Shows (o : Order) (q : Quote) : Prop where
  side_eq : o.side = q.side
  price_eq : o.price.toInt = q.price
  quantity_eq : o.quantity.toNat = q.quantity
  unfilled : o.filledQty = 0

/-- The book holds the market, and nothing has been traded. -/
structure Carries (m : Market) (b : OrderBook) : Prop where
  agrees : b.store.Agrees
  sound : b.store.Sound
  orders : ∀ id : OrderId, Option.Rel Shows b.store.orders[id]? (m id.toNat)
  executed : b.history.executed = []

/-! ## One command -/

variable {uninit : OrderResult} {m : Market} {b : OrderBook} {cmd : Command} {packed : ReplayCmd}

/-- What the fields of a record are. -/
structure Reads (packed : ReplayCmd) (cmd : Command) : Prop where
  type_eq : packed.type = typeCode cmd.type
  orderId_eq : packed.orderId.toNat = cmd.orderId
  side_eq : packed.order.side = cmd.side
  price_eq : packed.price.toInt = cmd.price
  quantity_eq : packed.quantity.toNat = cmd.quantity
  order_quantity : packed.order.quantity.toNat = max cmd.quantity 1

lemma reads_pack (h : pack cmd = some packed) : Reads packed cmd := by
  rw [pack] at h
  split_ifs at h with hfits
  cases h
  have hquantity := UInt32.toNat_ofNat_of_lt' hfits.2.2
  refine ⟨rfl, UInt64.toNat_ofNat_of_lt' hfits.1, ?_, ?_, hquantity, ?_⟩
  · simp only [ReplayCmd.order]
    cases cmd.side <;> rfl
  · exact Int64.toInt_ofNat_of_lt hfits.2.1
  · simp only [ReplayCmd.order]
    split_ifs with hpos
    · rw [gt_iff_lt, UInt32.lt_iff_toNat_lt, hquantity] at hpos
      have hpos : 1 ≤ cmd.quantity := hpos
      rw [hquantity, Nat.max_eq_left hpos]
    · rw [gt_iff_lt, UInt32.lt_iff_toNat_lt, hquantity] at hpos
      have hzero : cmd.quantity = 0 := Nat.eq_zero_of_not_pos hpos
      rw [hzero]
      rfl

/-- An order in the book is a level of the market. -/
lemma Carries.exists_quote (h : Carries m b) {id : OrderId} {o : Order}
    (ho : b.store.orders[id]? = some o) : ∃ q, m id.toNat = some q ∧ Shows o q := by
  have hrel := h.orders id
  rw [ho] at hrel
  generalize m id.toNat = q at hrel ⊢
  cases hrel with
  | some hshows => exact ⟨_, rfl, hshows⟩

lemma Carries.exists_order (h : Carries m b) {id : OrderId} {q : Quote}
    (hq : m id.toNat = some q) : ∃ o, b.store.orders[id]? = some o ∧ Shows o q := by
  have hrel := h.orders id
  rw [hq] at hrel
  generalize b.store.orders[id]? = o at hrel ⊢
  cases hrel with
  | some hshows => exact ⟨_, rfl, hshows⟩

lemma Carries.order_none (h : Carries m b) {id : OrderId} (hq : m id.toNat = none) :
    b.store.orders[id]? = none := by
  have hrel := h.orders id
  rw [hq] at hrel
  generalize b.store.orders[id]? = o at hrel ⊢
  cases hrel
  rfl

/-- One entry of the orders and of the market is changed. -/
lemma Carries.update (h : Carries m b) {b' : OrderBook} {id : OrderId} {o : Option Order}
    {q : Option Quote} (hagrees : b'.store.Agrees) (hsound : b'.store.Sound)
    (horders : ∀ i, b'.store.orders[i]? = if i = id then o else b.store.orders[i]?)
    (hrel : Option.Rel Shows o q) (hexecuted : b'.history.executed = b.history.executed) :
    Carries (update m id.toNat q) b' := by
  refine ⟨hagrees, hsound, fun i => ?_, hexecuted.trans h.executed⟩
  rw [horders, Function.update_apply]
  by_cases hid : i = id
  · rw [if_pos hid, if_pos (congrArg UInt64.toNat hid)]
    exact hrel
  · rw [if_neg hid, if_neg fun heq => hid (UInt64.toNat_inj.mp heq)]
    exact h.orders i

lemma Carries.add (h : Carries m b) (hreads : Reads packed cmd) (hprice : 0 < cmd.price)
    (hnew : m cmd.orderId = none) (hclear : Clear m cmd.side cmd.price) :
    Carries (Function.update m cmd.orderId (some ⟨cmd.side, cmd.price, max cmd.quantity 1⟩))
        (b.addOrder packed.order).2 ∧
      (b.addOrder packed.order).1.success = true := by
  have hprice_eq : packed.order.price.toInt = cmd.price := hreads.price_eq
  have hpos : 0 < packed.order.price := by
    rw [Int64.lt_iff_toInt_lt, hprice_eq, Int64.toInt_zero]
    exact_mod_cast hprice
  have hquantity : packed.order.quantity ≠ 0 := by
    intro hzero
    have hquantity := hreads.order_quantity
    rw [hzero, UInt32.toNat_zero] at hquantity
    omega
  have hnone : b.store.orders[packed.order.id]? = none :=
    h.order_none (by rw [show packed.order.id = packed.orderId from rfl, hreads.orderId_eq, hnew])
  obtain ⟨hok, hquiet⟩ := OrderBook.addOrder_rests h.agrees h.sound
    (rfl : packed.order.type = .Limit) rfl rfl hquantity hpos hnone fun id o ho hside => by
      obtain ⟨q, hq, hshows⟩ := h.exists_quote ho
      have hlt := hclear _ _ hq (by rw [← hshows.side_eq, hside, hreads.side_eq])
      rw [Order.wouldCross, hreads.side_eq]
      cases hcase : cmd.side with
      | Buy =>
          rw [hcase] at hlt
          refine decide_eq_false fun hle => ?_
          rw [ge_iff_le, Int64.le_iff_toInt_le, hprice_eq, hshows.price_eq] at hle
          exact absurd (Int.ofNat_le.mp hle) (Nat.not_le.mpr hlt)
      | Sell =>
          rw [hcase] at hlt
          refine decide_eq_false fun hle => ?_
          rw [Int64.le_iff_toInt_le, hprice_eq, hshows.price_eq] at hle
          exact absurd (Int.ofNat_le.mp hle) (Nat.not_le.mpr hlt)
  refine ⟨?_, hok⟩
  rw [← hreads.orderId_eq]
  refine h.update (o := some packed.order) (OrderBook.agrees_calls.addOrder h.agrees trivial)
    (OrderBook.sound_calls.addOrder h.sound trivial) (fun i => ?_) (.some ?_) ?_
  · rw [hquiet.store_eq]
    exact Store.getElem?_orders_insertRestingOrder _ _ i
  · exact ⟨hreads.side_eq, hreads.price_eq, hreads.order_quantity, rfl⟩
  · rw [hquiet.history_eq, OrderBook.executed_insertRestingOrder]

lemma Carries.cancel (h : Carries m b) {id : OrderId} {q : Quote} (hq : m id.toNat = some q) :
    Carries (Function.update m id.toNat none) (b.cancelOrder id).2 ∧
      (b.cancelOrder id).1.success = true := by
  obtain ⟨o, ho, -⟩ := h.exists_order hq
  obtain ⟨hok, hquiet⟩ := OrderBook.cancelOrder_rests ho
  refine ⟨h.update (OrderBook.agrees_calls.cancelOrder h.agrees id)
    (OrderBook.sound_calls.cancelOrder h.sound id) (fun i => ?_) .none ?_, hok⟩
  · rw [hquiet.store_eq]
    exact Store.getElem?_orders_cancelOrder b.store id o i
  · rw [hquiet.history_eq]

lemma Carries.replace (h : Carries m b) {id : OrderId} {side : Side} {price quantity : Nat}
    (hq : m id.toNat = some ⟨side, price, quantity⟩) {newPrice : Price}
    (hprice : newPrice.toInt = price) (newQty : Quantity) (uninit : OrderResult) :
    Carries (Function.update m id.toNat (some ⟨side, price, newQty.toNat⟩))
        (b.replaceOrder uninit id newPrice newQty).2 ∧
      (b.replaceOrder uninit id newPrice newQty).1.success = true := by
  obtain ⟨o, ho, hshows⟩ := h.exists_order hq
  obtain rfl : o.price = newPrice := Int64.toInt_inj.mp (hshows.price_eq.trans hprice.symm)
  obtain ⟨hok, level, hin, hquiet⟩ := OrderBook.replaceOrder_inPlace h.agrees ho uninit newQty
  have hunfilled : OrderBook.UnfilledInPlace b (.replace uninit id o.price newQty) := by
    intro o' ho' _
    rw [ho] at ho'
    cases ho'
    exact hshows.unfilled
  have hsound : (b.apply (.replace uninit id o.price newQty)).store.Sound :=
    OrderBook.sound_calls.step h.sound trivial
  refine ⟨h.update (o := some { o with quantity := newQty })
    (OrderBook.agrees_calls.step h.agrees hunfilled) hsound (fun i => ?_) (.some ?_) ?_, hok⟩
  · rw [hquiet.store_eq]
    simp only [OrderBook.amend]
    rw [Store.getElem?_setOrder, Store.orders_setLevel]
  · exact ⟨hshows.side_eq, hshows.price_eq, rfl, hshows.unfilled⟩
  · rw [hquiet.history_eq]

lemma Carries.step (h : Carries m b) (hsuits : Suits m cmd) (hpack : pack cmd = some packed)
    (uninit : OrderResult) :
    Carries (marketAfter m cmd) (b.apply (packed.request cmd.type).op) ∧
      ((packed.request cmd.type).answer uninit b).success = true := by
  have hreads := reads_pack hpack
  rw [Suits] at hsuits
  rw [marketAfter]
  cases htype : cmd.type with
  | ADD =>
      rw [htype] at hsuits
      obtain ⟨hnew, hprice, hclear⟩ := hsuits
      exact h.add hreads hprice hnew hclear
  | CANCEL =>
      rw [htype] at hsuits
      obtain ⟨quantity, hq⟩ := hsuits
      rw [← hreads.orderId_eq] at hq ⊢
      exact h.cancel hq
  | REPLACE =>
      rw [htype] at hsuits
      obtain ⟨quantity, hq⟩ := hsuits
      rw [← hreads.orderId_eq] at hq ⊢
      rw [← hreads.quantity_eq]
      exact ⟨(h.replace hq hreads.price_eq packed.quantity {}).1,
        (h.replace hq hreads.price_eq packed.quantity uninit).2⟩

/-! ## Replays -/

/-- The engine's book holds the market, and no command has failed. -/
structure Rebuilt (m : Market) (s : TimedReplay) : Prop where
  book : ∃ b, s.engine.book? sym = some b ∧ Carries m b
  nErr : s.nErr = 0

lemma rebuilt_start (clocks : Nat → Stream' Timestamp) :
    Rebuilt (fun _ => none) (start clocks) := by
  obtain ⟨clock, hbook⟩ := MatchingEngine.book?_start {} false false clocks [sym] sym
  refine ⟨⟨_, hbook.trans (if_pos List.mem_cons_self), .empty, .empty, fun id => ?_, rfl⟩, rfl⟩
  have hnone : (OrderBook.new sym {} false false false clock).store.orders[id]? = none := by
    simp [OrderBook.new]
  rw [hnone]
  exact .none

lemma Rebuilt.step {s : TimedReplay} (h : Rebuilt m s) (hsuits : Suits m cmd)
    (hpack : pack cmd = some packed) : Rebuilt (marketAfter m cmd) (step uninit s packed) := by
  obtain ⟨b, hb, hcarries⟩ := h.book
  obtain ⟨hnext, hok⟩ := hcarries.step hsuits hpack uninit
  have htype := (reads_pack hpack).type_eq
  have hsuccess : (execute uninit s packed).1.success = true := by
    rw [(execute_eq htype).1, MatchingEngine.fst_handle, symbol_request, hb]
    exact hok
  refine ⟨⟨_, ?_, hnext⟩, ?_⟩
  · rw [engine_step, (execute_eq htype).2, MatchingEngine.book?_handle, symbol_request, if_pos rfl,
      hb]
    rfl
  · simp only [ReplayKraken.step, hsuccess, Bool.not_true, Bool.false_eq_true, if_false]
    have hsame : (execute uninit s packed).2.nErr = s.nErr := by
      rw [execute]
      split_ifs <;> rfl
    rw [hsame, h.nErr]

/-- **A stream leaves its market in the book.** -/
theorem rebuilt_run (uninit : OrderResult) {cmds : List Command}
    (hsuits : Admitted marketAfter Suits m cmds)
    {packed : List ReplayCmd} (hpack : cmds.mapM pack = some packed) {s : TimedReplay}
    (h : Rebuilt m s) : Rebuilt (run marketAfter m cmds) (run (step uninit) s packed) := by
  induction cmds generalizing m s packed with
  | nil =>
      cases hpack
      exact h
  | cons cmd cmds ih =>
      rw [List.mapM_cons, Option.bind_eq_bind, Option.bind_eq_some_iff] at hpack
      obtain ⟨first, hfirst, hpack⟩ := hpack
      obtain ⟨rest, hrest, hpack⟩ := Option.bind_eq_some_iff.mp hpack
      cases hpack
      exact ih hsuits.2 hrest (h.step hsuits.1 hfirst)

/-! ## The market that a feed shows -/

variable {c : Conversion}

/-- The size shown for a price on a side, by the last entry for it; the engine does not take orders
of size 0, and the tool makes them 1. -/
def shownSize (c : Conversion) (its : List Item) (side : Side) (priceStr : String) : Option Nat :=
  (its.reverse.find? fun i => i.side = side ∧ i.entry.priceStr = priceStr).bind fun i =>
    if i.shows c then some (max (c.sizeToQty i.entry.sizeStr) 1) else none

/-- No bid shown ever reaches an ask shown at the same time. -/
def Uncrossed (c : Conversion) (its : List Item) : Prop :=
  ∀ before, before <+: its → ∀ bid ask, shown c before .Buy bid = true →
    shown c before .Sell ask = true → c.priceToFixed bid < c.priceToFixed ask

lemma shownSize_concat (before : List Item) (i : Item) (side : Side) (priceStr : String) :
    shownSize c (before ++ [i]) side priceStr
      = if i.side = side ∧ i.entry.priceStr = priceStr then
          if i.shows c then some (max (c.sizeToQty i.entry.sizeStr) 1) else none
        else shownSize c before side priceStr := by
  rw [shownSize, List.reverse_append, List.reverse_singleton, List.singleton_append,
    List.find?_cons]
  by_cases hlast : i.side = side ∧ i.entry.priceStr = priceStr
  · rw [decide_eq_true hlast, if_pos hlast]
    rfl
  · rw [decide_eq_false hlast, if_neg hlast]
    rfl

/-- A price has a size just if it is shown. -/
lemma isSome_shownSize (its : List Item) (side : Side) (priceStr : String) :
    (shownSize c its side priceStr).isSome = shown c its side priceStr := by
  rw [shownSize, shown]
  cases its.reverse.find? fun i => i.side = side ∧ i.entry.priceStr = priceStr with
  | none => rfl
  | some i => cases hshows : i.shows c <;> simp [hshows]

/-- The market of the commands written so far is the one that the entries show. -/
structure Depicts (c : Conversion) (its : List Item) (s : FeedState) (m : Market) : Prop where
  tracks : ParseFeed.Tracks c s.books fun oid => (m oid).map fun q => (q.side, q.price)
  shown_eq : ∀ side priceStr, (s.books side priceStr).isSome = shown c its side priceStr
  size_eq : ∀ side priceStr oid, s.books side priceStr = some oid → ∃ size,
    shownSize c its side priceStr = some size ∧
      m oid = some ⟨side, c.priceToFixed priceStr, size⟩

variable {before : List Item} {s : FeedState} {i : Item}

/-- The sides and prices of the market after one entry of it has changed. -/
lemma map_update (m : Market) (oid : Nat) (q : Option Quote) :
    (fun oid' => (update m oid q oid').map fun q => (q.side, q.price))
      = update (fun oid' => (m oid').map fun q => (q.side, q.price)) oid
        (q.map fun q => (q.side, q.price)) := by
  funext oid'
  rw [Function.update_apply, Function.update_apply]
  split_ifs <;> rfl

lemma Depicts.exists_level (h : Depicts c before s m) {oid : Nat} {q : Quote}
    (hq : m oid = some q) :
    ∃ priceStr, s.books q.side priceStr = some oid ∧ c.priceToFixed priceStr = q.price :=
  (h.tracks.live_iff oid q.side q.price).mp (by rw [hq]; rfl)

/-- Two levels shown that have one id are one. -/
lemma Depicts.level_unique (h : Depicts c before s m) {side side' : Side}
    {priceStr priceStr' : String} {oid : Nat} (hbook : s.books side priceStr = some oid)
    (hbook' : s.books side' priceStr' = some oid) : side = side' ∧ priceStr = priceStr' := by
  have hid := (h.tracks.named _ _ _ hbook).symm.trans (h.tracks.named _ _ _ hbook')
  obtain ⟨rfl, hprice⟩ := (makeOrderId_inj (c.price_lt _) (c.price_lt _)).mp hid
  exact ⟨rfl, h.tracks.distinct side _ _ (Option.isSome_of_eq_some hbook)
    (Option.isSome_of_eq_some hbook') hprice⟩

/-- Levels other than the last entry's keep their sizes, if their ids do. -/
lemma Depicts.size_eq_of_ne (h : Depicts c before s m) {m' : Market} {side : Side}
    {priceStr : String} {oid : Nat} (hbook : s.books side priceStr = some oid)
    (hother : ¬ (i.side = side ∧ i.entry.priceStr = priceStr)) (hsame : m' oid = m oid) :
    ∃ size, shownSize c (before ++ [i]) side priceStr = some size ∧
      m' oid = some ⟨side, c.priceToFixed priceStr, size⟩ := by
  rw [shownSize_concat, if_neg hother, hsame]
  exact h.size_eq side priceStr oid hbook

lemma Depicts.shown_step (h : Depicts c before s m) (i : Item) (side : Side) (priceStr : String) :
    ((entryStep c s i).books side priceStr).isSome = shown c (before ++ [i]) side priceStr := by
  rw [isSome_books_step, shown_concat, h.shown_eq]

lemma Depicts.add (h : Depicts c before s m)
    (hsafe : ∀ priceStr, (s.books i.side priceStr).isSome →
      c.priceToFixed priceStr ≠ c.priceToFixed i.entry.priceStr) (hshows : i.shows c = true)
    (hstep : (entryStep c s i).books
      = s.books.set i.side i.entry.priceStr (some (i.orderId c))) :
    Depicts c (before ++ [i]) (entryStep c s i) (update m (i.orderId c)
      (some ⟨i.side, c.priceToFixed i.entry.priceStr, max (c.sizeToQty i.entry.sizeStr) 1⟩)) := by
  refine ⟨?_, h.shown_step i, fun side priceStr oid hbook => ?_⟩
  · rw [map_update, hstep]
    exact h.tracks.add hsafe
  · rw [hstep, Books.set_apply] at hbook
    by_cases hlast : i.side = side ∧ i.entry.priceStr = priceStr
    · rw [if_pos hlast] at hbook
      cases hbook
      obtain ⟨rfl, rfl⟩ := hlast
      refine ⟨_, ?_, Function.update_self _ _ _⟩
      rw [shownSize_concat, if_pos ⟨rfl, rfl⟩, if_pos hshows]
    · rw [if_neg hlast] at hbook
      refine h.size_eq_of_ne hbook hlast (Function.update_of_ne ?_ _ _)
      -- the new level's id is that of no other
      rintro rfl
      obtain ⟨rfl, hprice⟩ := (makeOrderId_inj (c.price_lt _) (c.price_lt _)).mp
        (h.tracks.named _ _ _ hbook)
      exact hsafe priceStr (Option.isSome_of_eq_some hbook) hprice.symm

lemma Depicts.cancel (h : Depicts c before s m) {oid : Nat}
    (hshown : s.books i.side i.entry.priceStr = some oid)
    (hstep : (entryStep c s i).books = s.books.set i.side i.entry.priceStr none) :
    Depicts c (before ++ [i]) (entryStep c s i) (update m oid none) := by
  refine ⟨?_, h.shown_step i, fun side priceStr oid' hbook => ?_⟩
  · rw [map_update, hstep]
    exact h.tracks.cancel hshown
  · rw [hstep, Books.set_apply] at hbook
    split_ifs at hbook with hlast
    refine h.size_eq_of_ne hbook hlast (Function.update_of_ne ?_ _ _)
    rintro rfl
    exact hlast (h.level_unique hshown hbook)

lemma Depicts.replace (h : Depicts c before s m) {oid : Nat}
    (hshown : s.books i.side i.entry.priceStr = some oid) (hshows : i.shows c = true)
    (hsize : c.sizeToQty i.entry.sizeStr ≠ 0) (hstep : (entryStep c s i).books = s.books) :
    Depicts c (before ++ [i]) (entryStep c s i) (update m oid
      (some ⟨i.side, c.priceToFixed i.entry.priceStr, c.sizeToQty i.entry.sizeStr⟩)) := by
  obtain ⟨size, -, hm⟩ := h.size_eq _ _ _ hshown
  refine ⟨?_, h.shown_step i, fun side priceStr oid' hbook => ?_⟩
  · have hlive : (m oid).map (fun q => (q.side, q.price))
        = some (i.side, c.priceToFixed i.entry.priceStr) := by
      rw [hm]
      rfl
    rw [map_update, hstep, Option.map_some, ← hlive, Function.update_eq_self]
    exact h.tracks
  · rw [hstep] at hbook
    by_cases hlast : i.side = side ∧ i.entry.priceStr = priceStr
    · obtain ⟨rfl, rfl⟩ := hlast
      obtain rfl : oid = oid' := Option.some.inj (hshown.symm.trans hbook)
      refine ⟨_, ?_, Function.update_self _ _ _⟩
      rw [shownSize_concat, if_pos ⟨rfl, rfl⟩, if_pos hshows,
        Nat.max_eq_left (Nat.one_le_iff_ne_zero.mpr hsize)]
    · refine h.size_eq_of_ne hbook hlast (Function.update_of_ne ?_ _ _)
      rintro rfl
      exact hlast (h.level_unique hshown hbook)

/-- One entry: its command, if it makes one, suits the market. -/
lemma Depicts.step (h : Depicts c before s m) (hsafe : Safe c s i)
    (hpos : 0 < c.priceToFixed i.entry.priceStr)
    (huncrossed : ∀ bid ask, shown c (before ++ [i]) .Buy bid = true →
      shown c (before ++ [i]) .Sell ask = true → c.priceToFixed bid < c.priceToFixed ask) :
    ∃ cmds, (entryStep c s i).commands = s.commands ++ cmds ∧ Admitted marketAfter Suits m cmds ∧
      Depicts c (before ++ [i]) (entryStep c s i) (run marketAfter m cmds) := by
  have hnew : i.adds c s.books → m (i.orderId c) = none := by
    intro hadds
    cases hm : m (i.orderId c) with
    | none => rfl
    | some q =>
        obtain ⟨priceStr, hbook, -⟩ := h.exists_level hm
        obtain ⟨hside, hprice⟩ := (makeOrderId_inj (c.price_lt _) (c.price_lt _)).mp
          (h.tracks.named _ _ _ hbook)
        rw [← hside] at hbook
        exact absurd hprice.symm (hsafe hadds priceStr (Option.isSome_of_eq_some hbook))
  have hclear : i.shows c = true → Clear m i.side (c.priceToFixed i.entry.priceStr) := by
    intro hshows oid q hq hopposite
    obtain ⟨priceStr, hbook, hprice⟩ := h.exists_level hq
    have hmine : shown c (before ++ [i]) i.side i.entry.priceStr = true := by
      rw [shown_concat, if_pos ⟨rfl, rfl⟩, hshows]
    have hother : shown c (before ++ [i]) q.side priceStr = true := by
      rw [shown_concat, if_neg fun hlast => ?_, ← h.shown_eq]
      · exact Option.isSome_of_eq_some hbook
      · rw [← hlast.1] at hopposite
        cases hside : i.side <;> rw [hside] at hopposite <;> cases hopposite
    rw [← hprice]
    rw [hopposite] at hother
    cases hside : i.side <;> rw [hside] at hmine hother
    · exact huncrossed _ _ hmine hother
    · exact huncrossed _ _ hother hmine
  obtain ⟨hadds, hshows, hstep⟩ | ⟨hno, hshows, oid, hshown, hstep⟩ |
    ⟨-, -, oid, hshown, hstep⟩ | ⟨-, hshows, hshown, hstep⟩ := entryStep_cases c s i
  all_goals
    have hcommands := congrArg FeedState.commands hstep
  · exact ⟨_, hcommands, ⟨⟨hnew hadds, hpos, hclear hshows⟩, trivial⟩,
      h.add (hsafe hadds) hshows (by rw [hstep])⟩
  · have hsize : c.sizeToQty i.entry.sizeStr ≠ 0 := by
      rw [Item.adds, not_or] at hno
      rw [Item.shows, Bool.eq_false_iff.mpr hno.1, Bool.false_or, decide_eq_true_eq] at hshows
      exact hshows
    obtain ⟨size, -, hm⟩ := h.size_eq _ _ _ hshown
    exact ⟨_, hcommands, ⟨⟨size, hm⟩, trivial⟩,
      h.replace hshown hshows hsize (by rw [hstep])⟩
  · obtain ⟨size, -, hm⟩ := h.size_eq _ _ _ hshown
    exact ⟨_, hcommands, ⟨⟨size, hm⟩, trivial⟩, h.cancel hshown (by rw [hstep])⟩
  · refine ⟨[], by rw [hstep, List.append_nil], trivial, ?_, h.shown_step i, ?_⟩
    · rw [hstep]
      exact h.tracks
    · intro side priceStr oid hbook
      rw [hstep] at hbook
      refine h.size_eq_of_ne hbook (fun hlast => ?_) rfl
      rw [← hlast.1, ← hlast.2, hshown] at hbook
      cases hbook

/-- A feed that shows a market, its commands and what they stand for. -/
lemma depicts_feed {its : List Item} (hdistinct : Distinct c its) (huncrossed : Uncrossed c its)
    (hpos : ∀ i ∈ its, 0 < c.priceToFixed i.entry.priceStr) :
    Admitted marketAfter Suits (fun _ => none) (run (entryStep c) {} its).commands ∧
      Depicts c its (run (entryStep c) {} its)
        (run marketAfter (fun _ => none) (run (entryStep c) {} its).commands) := by
  induction its using List.reverseRecOn with
  | nil => exact ⟨trivial, .empty c, fun _ _ => rfl, nofun⟩
  | append_singleton before i ih =>
      obtain ⟨hadmitted, hdepicts⟩ := ih
        (fun before' i' after' hsplit => hdistinct before' i' (after' ++ [i]) (by simp [hsplit]))
        (fun before' hbegin => huncrossed before' (hbegin.trans (List.prefix_append _ _)))
        (fun i' hi' => hpos i' (List.mem_append_left _ hi'))
      have hsafe : Safe c (run (entryStep c) {} before) i := by
        intro hadds priceStr hshown
        refine hdistinct before i [] rfl (hadds.imp_right fun hnew => ?_) priceStr ?_
        · rw [← isSome_books, Bool.not_eq_true, Option.isSome_eq_false_iff]
          exact hnew
        · rw [← isSome_books]
          exact hshown
      obtain ⟨cmds, hcommands, hsuits, hnext⟩ := hdepicts.step hsafe
        (hpos i (List.mem_append_right _ List.mem_cons_self))
        (huncrossed (before ++ [i]) (List.prefix_refl _))
      have hrun : run (entryStep c) {} (before ++ [i])
          = entryStep c (run (entryStep c) {} before) i := Run.run_append _ _ _
      rw [hrun, hcommands, Run.admitted_append, Run.run_append]
      exact ⟨⟨hadmitted, hsuits⟩, hnext⟩

/-- **The market is rebuilt.**  Take a feed with positive prices that adds nothing while a level of
the same price in fixed point is shown on its side, be it the same string, and never shows a bid
that reaches an ask.  It is replayed without an error and without a trade.  In the end there is one
order for each level shown, of its side, price and size, and no other order; and the book shows the
same size at that price. -/
theorem market_rebuilt (c : Conversion) (feed : List Message)
    (hsize : ∀ sizeStr, c.sizeToQty sizeStr < 2 ^ 32)
    (hpos : ∀ i ∈ feed.flatMap items, 0 < c.priceToFixed i.entry.priceStr)
    (hdistinct : Distinct c (feed.flatMap items)) (huncrossed : Uncrossed c (feed.flatMap items))
    (uninit : OrderResult) (clocks : Nat → Stream' Timestamp) :
    ∃ packed, (parseFeed c feed).mapM pack = some packed ∧
      (run (step uninit) (start clocks) packed).nErr = 0 ∧
      ∃ b, (run (step uninit) (start clocks) packed).engine.book? sym = some b ∧
        b.history.executed = [] ∧
        (∀ side priceStr size, shownSize c (feed.flatMap items) side priceStr = some size →
          ∃ o, b.store.orders[UInt64.ofNat (makeOrderId side (c.priceToFixed priceStr))]? = some o ∧
            o.side = side ∧ o.price.toInt = c.priceToFixed priceStr ∧ o.remaining.toNat = size ∧
            (Feed.quantityAt b.store side o.price).toNat = size) ∧
        ∀ (id : OrderId) (o : Order), b.store.orders[id]? = some o → ∃ priceStr,
          shown c (feed.flatMap items) o.side priceStr = true ∧
            id.toNat = makeOrderId o.side (c.priceToFixed priceStr) := by
  obtain ⟨packed, hpack⟩ := pack_parseFeed hsize feed
  have hcommands : parseFeed c feed = (run (entryStep c) {} (feed.flatMap items)).commands :=
    parseFeed_eq c feed
  obtain ⟨hsuits, hdepicts⟩ := depicts_feed hdistinct huncrossed hpos
  rw [← hcommands] at hsuits hdepicts
  have hrebuilt := rebuilt_run uninit hsuits hpack (rebuilt_start clocks)
  obtain ⟨b, hb, hcarries⟩ := hrebuilt.book
  refine ⟨packed, hpack, hrebuilt.nErr, b, hb, hcarries.executed,
    fun side priceStr size hshown => ?_, fun id o ho => ?_⟩
  · have hsome : (run (entryStep c) {} (feed.flatMap items)).books side priceStr |>.isSome := by
      rw [hdepicts.shown_eq, ← isSome_shownSize, hshown]
      rfl
    obtain ⟨oid, hbook⟩ := Option.isSome_iff_exists.mp hsome
    obtain ⟨size', hsize', hq⟩ := hdepicts.size_eq _ _ _ hbook
    obtain rfl : size = size' := Option.some.inj (hshown.symm.trans hsize')
    have hoid : (UInt64.ofNat oid).toNat = oid := by
      rw [hdepicts.tracks.named _ _ _ hbook]
      exact UInt64.toNat_ofNat_of_lt' (makeOrderId_lt side (c.price_lt _))
    rw [← hdepicts.tracks.named _ _ _ hbook]
    rw [← hoid] at hq
    obtain ⟨o, ho, hshows⟩ := hcarries.exists_order hq
    have hid := hcarries.agrees.id_eq ho
    have hremaining : o.remaining.toNat = size := by
      rw [Order.remaining, hshows.unfilled, UInt32.sub_zero, hshows.quantity_eq]
    refine ⟨o, ho, hshows.side_eq, hshows.price_eq, hremaining, ?_⟩
    obtain rfl : o.side = side := hshows.side_eq
    rw [OrderBook.quantityAt_of_unique hcarries.agrees (hid ▸ ho), hremaining]
    -- an order at this price stands for the level of the same price string
    intro o' ho' hside hprice
    obtain ⟨q', hq', hshows'⟩ := hcarries.exists_quote ho'
    obtain ⟨priceStr', hbook', hfixed⟩ := hdepicts.exists_level hq'
    rw [← hshows'.side_eq, hside] at hbook'
    have hfixed' : c.priceToFixed priceStr = c.priceToFixed priceStr' := by
      have hsame := hshows'.price_eq.symm.trans
        ((congrArg Int64.toInt hprice).trans hshows.price_eq)
      rw [hfixed]
      exact (Int.ofNat_inj.mp hsame).symm
    obtain rfl := hdepicts.tracks.distinct _ _ _ (Option.isSome_of_eq_some hbook)
      (Option.isSome_of_eq_some hbook') hfixed'
    have hsameId : o'.id = UInt64.ofNat oid := by
      rw [← UInt64.toNat_inj, hoid]
      exact Option.some.inj (hbook'.symm.trans hbook)
    rw [hsameId, ho] at ho'
    exact (Option.some.inj ho').symm
  · obtain ⟨q, hq, hshows⟩ := hcarries.exists_quote ho
    obtain ⟨priceStr, hbook, -⟩ := hdepicts.exists_level hq
    rw [← hshows.side_eq] at hbook
    refine ⟨priceStr, ?_, hdepicts.tracks.named _ _ _ hbook⟩
    rw [← hdepicts.shown_eq]
    exact Option.isSome_of_eq_some hbook

/-- What is shown stands in some entry. -/
lemma exists_item {its : List Item} {side : Side} {priceStr : String}
    (h : shown c its side priceStr = true) :
    ∃ i ∈ its, i.side = side ∧ i.entry.priceStr = priceStr := by
  rw [shown, Option.any_eq_true] at h
  obtain ⟨i, hfind, -⟩ := h
  exact ⟨i, List.mem_reverse.mp (List.mem_of_find?_eq_some hfind),
    by simpa using List.find?_some hfind⟩

/-- Bids below a price and asks from it on never cross. -/
lemma uncrossed_of_between {its : List Item} (price : Nat)
    (h : ∀ i ∈ its, (i.side = .Buy → c.priceToFixed i.entry.priceStr < price) ∧
      (i.side = .Sell → price ≤ c.priceToFixed i.entry.priceStr)) : Uncrossed c its := by
  intro before hbegin bid ask hbid hask
  obtain ⟨i, hi, hside, rfl⟩ := exists_item hbid
  obtain ⟨j, hj, hside', rfl⟩ := exists_item hask
  have hbelow := (h i (hbegin.subset hi)).1 hside
  have habove := (h j (hbegin.subset hj)).2 hside'
  exact Nat.lt_of_lt_of_le hbelow habove

/-- A snapshot, and an update that changes one level, removes one and adds one. -/
def sampleFeed : List Message :=
  [.array
    { as := some [⟨"100.20000", "1.00000000"⟩]
      bs := some [⟨"100.00000", "2.00000000"⟩] },
    .array
      { a := some [⟨"100.20000", "0.50000000"⟩]
        b := some [⟨"100.00000", "0.00000000"⟩, ⟨"99.90000", "1.00000000"⟩] }]

/-- `price_to_fixed` and `size_to_qty` on the strings of that feed. -/
def sampleConversion : Conversion where
  priceToFixed s := if s = "100.20000" then 1002000 else if s = "100.00000" then 1000000 else 999000
  sizeToQty s := if s = "0.00000000" then 0 else if s = "0.50000000" then 5000 else
    if s = "1.00000000" then 10000 else 20000
  price_lt s := by split_ifs <;> decide

/-- Its replay. -/
theorem market_rebuilt_sample :
    ∃ packed, (parseFeed sampleConversion sampleFeed).mapM pack = some packed ∧
      (run (step {}) (start fun _ _ => 0) packed).nErr = 0 := by
  obtain ⟨packed, hpack, herr, -⟩ := market_rebuilt sampleConversion sampleFeed
    (fun s => by simp only [sampleConversion]; split_ifs <;> decide) (by decide +kernel)
    ((wellFormed_parseFeed_iff _ _).mp (by decide +kernel))
    (uncrossed_of_between 1001000 (by decide +kernel)) {} fun _ _ => 0
  exact ⟨packed, hpack, herr⟩

end Exchange.ReplayKraken
