import Exchange.OrderBook.Rejection

/-!
# Quantity is conserved

A ledger kept beside the book remembers, for each id, the quantity of the order that was last
accepted under it and how many trades had been executed when that `add_order` call began.
`Conserved` compares it with the trades delivered or pending: an order that rests has been traded
for exactly what it no longer has open, and no order was ever traded for more than its quantity.

The trades of a fill-or-kill order that is rejected after matching name an order that was not
accepted.  Where its id had been accepted before, they count against that earlier order:

* **`conservation`** — quantity is conserved in every run in which no such order meets an id that
  was accepted before;
* `conservation_fails` — a run of adds that ends with such an order.
-/

namespace Exchange

/-- The execution names the order as buyer or seller. -/
def Execution.names (e : Execution) (id : OrderId) : Bool :=
  e.buyOrderId = id || e.sellOrderId = id

/-- The quantity traded under an id, from the `start`-th trade on. -/
def tradedSince (executions : List Execution) (start : Nat) (id : OrderId) : Nat :=
  (((executions.drop start).filter (·.names id)).map (·.quantity.toNat)).sum

lemma tradedSince_append {xs : List Execution} {start : Nat} (h : start ≤ xs.length)
    (ys : List Execution) (id : OrderId) :
    tradedSince (xs ++ ys) start id = tradedSince xs start id + tradedSince ys 0 id := by
  simp only [tradedSince, List.drop_append_of_le_length h, List.filter_append, List.map_append,
    List.sum_append, List.drop_zero]

lemma tradedSince_length (xs : List Execution) (id : OrderId) :
    tradedSince xs xs.length id = 0 := by
  simp [tradedSince]

lemma tradedSince_singleton (taker maker : Order) (p : Price) (q : Quantity) (id : OrderId) :
    tradedSince [executionOf taker maker p q] 0 id
      = if id = taker.id ∨ id = maker.id then q.toNat else 0 := by
  cases hside : taker.side <;>
    simp only [tradedSince, executionOf, hside, Execution.names, List.drop_zero, List.filter_cons,
      List.filter_nil, Bool.or_eq_true, decide_eq_true_eq, eq_comm (a := id)] <;>
    split_ifs <;> simp_all

namespace OrderBook

open MatchState

/-! ## The ledger -/

/-- An accepted order: its quantity, and the number of trades executed before it was accepted. -/
structure Account where
  quantity : Quantity
  start : Nat
deriving DecidableEq, Repr

abbrev Ledger := OrderId → Option Account

/-- The trades of a book, delivered or pending. -/
def executions (b : OrderBook) : List Execution := b.feed.trades.map Trade.execution

/-- An `add_order` call that succeeds opens an account. -/
def accept (b : OrderBook) (ledger : Ledger) (order : Order) : Ledger :=
  if (b.addOrder order).1.success then
    fun id => if id = order.id then some ⟨order.quantity, b.executions.length⟩ else ledger id
  else ledger

/-- The ledger after a call.  Of a replace to another price, the `add_order` call inside it
counts. -/
def record (b : OrderBook) (ledger : Ledger) : Op → Ledger
  | .add order => accept b ledger order
  | .replace _ id newPrice newQty =>
      match b.store.orders[id]? with
      | none => ledger
      | some existing =>
          if existing.price = newPrice then ledger
          else accept (b.cancelOrder id).2 ledger (replacement existing id newPrice newQty)
  | .cancel _ | .flush => ledger

def applyRecorded (s : OrderBook × Ledger) (op : Op) : OrderBook × Ledger :=
  (apply s.1 op, record s.1 s.2 op)

/-- The ledger only watches. -/
lemma fst_run_applyRecorded (s : OrderBook × Ledger) (ops : List Op) :
    (Run.run applyRecorded s ops).1 = after s.1 ops := by
  induction ops generalizing s with
  | nil => rfl
  | cons op ops ih => exact ih (applyRecorded s op)

/-- Quantity is conserved. -/
structure Conserved (s : OrderBook × Ledger) : Prop where
  resting : ∀ (id : OrderId) (o : Order), s.1.store.orders[id]? = some o →
    ∃ account, s.2 id = some account ∧ o.quantity = account.quantity ∧
      account.quantity.toNat
        = o.remaining.toNat + tradedSince s.1.executions account.start id
  accepted : ∀ (id : OrderId) (account : Account), s.2 id = some account →
    tradedSince s.1.executions account.start id ≤ account.quantity.toNat

/-- An order that would be rejected after trading does not meet an account under its id. -/
def KillsUnaccounted (s : OrderBook × Ledger) : Op → Prop
  | .add order => AllOrNothing s.1 order ∨ s.2 order.id = none
  | _ => True

instance (s : OrderBook × Ledger) : (op : Op) → Decidable (KillsUnaccounted s op)
  | .add order => inferInstanceAs (Decidable (AllOrNothing s.1 order ∨ s.2 order.id = none))
  | .cancel _ | .replace _ _ _ _ | .flush => isTrue trivial

/-! ## Matching keeps the books -/

/-- The fills executed, as executions. -/
def executed (b : OrderBook) : List Execution := b.history.executed.map Fill.execution

/-- The accounts of the makers, and the fills of the taker since the `start`-th trade. -/
structure Booked (ledger : Ledger) (taker : Order) (start : Nat) (m : MatchState) : Prop where
  agrees : m.book.store.Agrees
  id_eq : m.order.id = taker.id
  quantity_eq : m.order.quantity = taker.quantity
  start_le : start ≤ m.book.executed.length
  filled_eq : m.order.filledQty.toNat = tradedSince m.book.executed start taker.id
  filled_le : m.order.filledQty ≤ m.order.quantity
  resting : ∀ (id : OrderId) (o : Order), m.book.store.orders[id]? = some o →
    id ≠ taker.id ∧ ∃ account, ledger id = some account ∧ account.start ≤ start ∧
      o.quantity = account.quantity ∧
      o.filledQty.toNat = tradedSince m.book.executed account.start id
  accepted : ∀ (id : OrderId) (account : Account), id ≠ taker.id → ledger id = some account →
    account.start ≤ start ∧
      tradedSince m.book.executed account.start id ≤ account.quantity.toNat

/-- The cached best prices and empty levels are not in the books. -/
lemma Booked.congr {ledger : Ledger} {taker : Order} {start : Nat} {m m' : MatchState}
    (h : Booked ledger taker start m) (hagrees : m'.book.store.Agrees)
    (horders : m'.book.store.orders = m.book.store.orders)
    (hhistory : m'.book.history = m.book.history) (horder : m'.order = m.order) :
    Booked ledger taker start m' := by
  have hexecuted : m'.book.executed = m.book.executed := by rw [executed, hhistory, executed]
  refine ⟨hagrees, ?_, ?_, ?_, ?_, ?_, ?_, ?_⟩
  · rw [horder, h.id_eq]
  · rw [horder, h.quantity_eq]
  · rw [hexecuted]
    exact h.start_le
  · rw [horder, hexecuted, h.filled_eq]
  · rw [horder]
    exact h.filled_le
  · rw [horders, hexecuted]
    exact h.resting
  · rw [hexecuted]
    exact h.accepted

lemma executed_fillFront (m : MatchState) (p : Price) (level : PriceLevel) (id : OrderId)
    (resting : Order) :
    (m.fillFront p level id resting).book.executed
      = m.book.executed ++ [executionOf m.order resting p (m.fillQty resting)] := by
  simp only [executed, MatchState.fillFront, List.map_append, List.map_cons, List.map_nil,
    Fill.execution]

/-- An id is traded under by a fill if it is the taker's or the maker's. -/
lemma Booked.tradedSince_fillFront {ledger : Ledger} {taker : Order} {start : Nat} {p : Price}
    {m : MatchState} {level : PriceLevel} {n : OrderNode} {rest : List OrderNode} {resting : Order}
    (h : Booked ledger taker start m) (hfill : AtFill p m level n rest resting) {k : Nat}
    (hk : k ≤ start) (id : OrderId) :
    tradedSince (m.fillFront p level n.orderId resting).book.executed k id
      = tradedSince m.book.executed k id
        + if id = taker.id ∨ id = n.orderId then (m.fillQty resting).toNat else 0 := by
  obtain ⟨hid, -, -, -, -⟩ := h.agrees.front hfill
  rw [executed_fillFront, tradedSince_append (Nat.le_trans hk h.start_le), tradedSince_singleton,
    h.id_eq, hid]

theorem Booked.fillFront {ledger : Ledger} {taker : Order} {start : Nat} {p : Price}
    {m : MatchState} {level : PriceLevel} {n : OrderNode} {rest : List OrderNode} {resting : Order}
    (h : Booked ledger taker start m) (hfill : AtFill p m level n rest resting) :
    Booked ledger taker start (m.fillFront p level n.orderId resting) := by
  obtain ⟨-, -, -, -, hle⟩ := h.agrees.front hfill
  have hqm : m.fillQty resting ≤ resting.remaining := Order.min_quantity_le_right _ _
  have hqt : m.fillQty resting ≤ m.order.remaining := Order.min_quantity_le_left _ _
  obtain ⟨hne, account, haccount, hstart, hquantity, hmaker⟩ := h.resting _ _ hfill.order_eq
  have hmaker' : (resting.fill (m.fillQty resting)).2.filledQty.toNat
      = tradedSince (m.fillFront p level n.orderId resting).book.executed account.start
        n.orderId := by
    rw [Order.toNat_fill_filledQty hle hqm, hmaker, h.tradedSince_fillFront hfill hstart,
      if_pos (Or.inr rfl)]
  refine ⟨agrees_invariant.fill p m level n rest resting h.agrees hfill, ?_, ?_, ?_, ?_, ?_, ?_, ?_⟩
  · rw [order_fillFront, Order.fill_id, h.id_eq]
  · rw [order_fillFront, Order.fill_quantity, h.quantity_eq]
  · rw [executed_fillFront, List.length_append]
    exact Nat.le_trans h.start_le (Nat.le_add_right _ _)
  · rw [order_fillFront, Order.toNat_fill_filledQty h.filled_le hqt, h.filled_eq,
      h.tradedSince_fillFront hfill (Nat.le_refl _), if_pos (Or.inl rfl)]
  · rw [order_fillFront]
    exact Order.fill_le h.filled_le hqt
  · intro id o ho
    rw [store_fillFront, getElem?_orders_fillStore] at ho
    split_ifs at ho with heq hfilled
    · cases ho
      subst heq
      exact ⟨hne, account, haccount, hstart, by rw [Order.fill_quantity, hquantity], hmaker'⟩
    · obtain ⟨hne', account', haccount', hstart', hquantity', hfilled'⟩ := h.resting id o ho
      refine ⟨hne', account', haccount', hstart', hquantity', ?_⟩
      rw [h.tradedSince_fillFront hfill hstart', if_neg (by simp [hne', heq]), hfilled',
        Nat.add_zero]
  · intro id account' hid' haccount'
    obtain ⟨hstart', hbound⟩ := h.accepted id account' hid' haccount'
    refine ⟨hstart', ?_⟩
    by_cases heq : id = n.orderId
    · subst heq
      rw [haccount] at haccount'
      cases haccount'
      have hfull := UInt32.le_iff_toNat_le.mp (Order.fill_le hle hqm)
      rw [Order.fill_quantity, hquantity, hmaker'] at hfull
      exact hfull
    · rw [h.tradedSince_fillFront hfill hstart', if_neg (by simp [hid', heq]), Nat.add_zero]
      exact hbound

theorem booked_invariant (ledger : Ledger) (taker : Order) (start : Nat) :
    MatchInvariant (Booked ledger taker start) fun _ => Booked ledger taker start where
  stale m h hrun hstale :=
    h.congr (agrees_invariant.stale m h.agrees hrun hstale) (by simp [refreshBest]) rfl rfl
  enter _ _ h _ _ _ := h
  ghost p m level n rest h hfront gone :=
    h.congr (agrees_invariant.ghost p m level n rest h.agrees hfront gone) (by simp) rfl rfl
  selfTrade p m level n rest resting h _ _ _ _ := h.congr h.agrees rfl rfl rfl
  fill p m level n rest resting h hfill := h.fillFront hfill
  close p m level h hlevel hnil :=
    h.congr (agrees_invariant.close p m level h.agrees hlevel hnil) (by simp [refreshBest]) rfl rfl
  keep _ _ h _ := h

/-- An order that has been traded for what is filled has the rest open. -/
theorem quantity_eq_iff {o : Order} (h : o.filledQty ≤ o.quantity) (traded : Nat) :
    o.quantity.toNat = o.remaining.toNat + traded ↔ o.filledQty.toNat = traded := by
  have hle := UInt32.le_iff_toNat_le.mp h
  rw [Order.toNat_remaining h, Order.leaves]
  omega

/-- The books after matching, with and without an account for the taker. -/
lemma Booked.resting_conserved {ledger ledger' : Ledger} {taker : Order} {start : Nat}
    {m : MatchState} (h : Booked ledger taker start m)
    (hledger : ∀ id ≠ taker.id, ledger' id = ledger id) {id : OrderId} {o : Order}
    (ho : m.book.store.orders[id]? = some o) :
    ∃ account, ledger' id = some account ∧ o.quantity = account.quantity ∧
      account.quantity.toNat
        = o.remaining.toNat + tradedSince m.book.executed account.start id := by
  obtain ⟨hne, account, haccount, -, hquantity, hfilled⟩ := h.resting id o ho
  refine ⟨account, by rw [hledger id hne, haccount], hquantity, ?_⟩
  rw [← hquantity, quantity_eq_iff (h.agrees.filled_le ho), hfilled]

/-! ## Calls -/

/-- What a run keeps: quantity is conserved, and the book is one in which that can be said. -/
structure Balanced (s : OrderBook × Ledger) : Prop extends Conserved s where
  agrees : s.1.store.Agrees
  sound : s.1.store.Sound
  opened : AllOrders s.1.store fun o => Restable o ∧ o.isFilled = false
  announced : Announced s.1
  start_le : ∀ (id : OrderId) (account : Account), s.2 id = some account →
    account.start ≤ s.1.executions.length

variable {b : OrderBook} {ledger : Ledger} {order : Order}

/-- A fresh order of a new id starts with nothing in the books. -/
lemma Balanced.booked (h : Balanced (b, ledger)) (hfresh : Fresh order)
    (hnew : b.store.orders[order.id]? = none) :
    Booked ledger (withMarketPrice order) b.executions.length
      (b.matchOrder (withMarketPrice order)) := by
  have hexecuted : b.executions = b.executed := h.announced.executions_eq
  refine (booked_invariant ledger _ _).matchOrder b _ ⟨h.agrees, rfl, rfl, ?_, ?_, ?_, ?_, ?_⟩
  · rw [hexecuted]
  · rw [hexecuted, tradedSince_length, withMarketPrice_filledQty, hfresh]
    rfl
  · rw [withMarketPrice_filledQty, hfresh]
    exact UInt32.zero_le
  · intro id o ho
    obtain ⟨account, haccount, hquantity, hconserved⟩ := h.resting id o ho
    refine ⟨fun hid => ?_, account, haccount, h.start_le id account haccount, hquantity, ?_⟩
    · rw [hid, withMarketPrice_id, hnew] at ho
      cases ho
    · rw [← hexecuted, ← quantity_eq_iff (h.agrees.filled_le ho), hquantity]
      exact hconserved
  · intro id account _ haccount
    refine ⟨h.start_le id account haccount, ?_⟩
    rw [← hexecuted]
    exact h.accepted id account haccount

/-- A call that executes nothing and opens no account. -/
lemma Conserved.congr {b' : OrderBook} (h : Conserved (b, ledger))
    (horders : ∀ (id : OrderId) (o : Order), b'.store.orders[id]? = some o →
      b.store.orders[id]? = some o)
    (hexecutions : b'.executions = b.executions) : Conserved (b', ledger) where
  resting id o ho := by
    rw [hexecutions]
    exact h.resting id o (horders id o ho)
  accepted id account haccount := by
    rw [hexecutions]
    exact h.accepted id account haccount

lemma Quiet.executions_eq {b b' : OrderBook} (h : Quiet b b') : b'.executions = b.executions := by
  rw [executions, h.trades_eq, executions]

lemma Quiet.executed_eq {b b' : OrderBook} (h : Quiet b b') : b'.executed = b.executed := by
  rw [executed, h.history_eq, executed]

/-- What `add_order` leaves in the books when it accepts the order. -/
lemma Booked.conserved_accept {start : Nat} {m : MatchState} {b' : OrderBook}
    (h : Booked ledger (withMarketPrice order) start m)
    (horders : ∀ (id : OrderId) (o : Order), b'.store.orders[id]? = some o →
      m.book.store.orders[id]? = some o ∨ (id = order.id ∧ o = m.order))
    (hexecutions : b'.executions = m.book.executed) :
    Conserved (b', fun id => if id = order.id then some ⟨order.quantity, start⟩ else ledger id) where
  resting id o ho := by
    rw [hexecutions]
    rcases horders id o ho with ho | ⟨rfl, rfl⟩
    · refine h.resting_conserved (fun i hi => ?_) ho
      rw [withMarketPrice_id] at hi
      exact if_neg hi
    · refine ⟨⟨order.quantity, start⟩, if_pos rfl, ?_, ?_⟩
      · rw [h.quantity_eq, withMarketPrice_quantity]
      · have hfilled := h.filled_eq
        rw [withMarketPrice_id] at hfilled
        have hquantity := h.quantity_eq
        rw [withMarketPrice_quantity] at hquantity
        dsimp only
        rw [← hquantity, quantity_eq_iff h.filled_le, hfilled]
  accepted id account haccount := by
    dsimp only at haccount ⊢
    rw [hexecutions]
    split_ifs at haccount with hid
    · cases haccount
      have hfilled := h.filled_eq
      rw [withMarketPrice_id] at hfilled
      have hfull := UInt32.le_iff_toNat_le.mp h.filled_le
      rw [h.quantity_eq, withMarketPrice_quantity, hfilled] at hfull
      rw [hid]
      exact hfull
    · exact (h.accepted id account (by rwa [withMarketPrice_id]) haccount).2

/-- What `add_order` leaves in the books when it rejects an order that has been through matching:
the accounts of the others, and the one under the order's id if nothing more was traded under it. -/
lemma Booked.conserved_reject {start : Nat} {m : MatchState} {b' : OrderBook}
    (h : Booked ledger (withMarketPrice order) start m) (hquiet : Quiet m.book b')
    (hexecutions : b'.executions = m.book.executed)
    (hid : ∀ account, ledger order.id = some account →
      tradedSince b'.executions account.start order.id ≤ account.quantity.toNat) :
    Conserved (b', ledger) where
  resting id o ho := by
    have ho : b'.store.orders[id]? = some o := ho
    rw [hquiet.store_eq] at ho
    rw [hexecutions]
    exact h.resting_conserved (fun _ _ => rfl) ho
  accepted id account haccount := by
    by_cases heq : id = order.id
    · subst heq
      exact hid account haccount
    · rw [hexecutions]
      exact (h.accepted id account (by rwa [withMarketPrice_id]) haccount).2

/-- An order that is rejected after matching has traded nothing under an id accepted before. -/
lemma Balanced.feed_killed (h : Balanced (b, ledger)) (hfresh : Fresh order)
    (hpasses : Passes b order) (hkills : KillsRemainder order)
    (hopen : (b.matchOrder (withMarketPrice order)).order.isFilled = false)
    (hall : AllOrNothing b order) :
    (b.matchOrder (withMarketPrice order)).book.feed = b.feed := by
  have hfilled := matchOrder_isFilled_iff h.agrees h.sound hfresh
  refine (matchOrder_eq_of_inaccessible h.agrees h.sound h.opened hfresh ?_).2
  refine (hall hkills (rejectReason_eq_none_iff.mpr hpasses)).resolve_right fun hfull => ?_
  rw [hfilled.mpr hfull] at hopen
  cases hopen

lemma Balanced.conserved_addOrder (h : Balanced (b, ledger)) (hfresh : Fresh order)
    (hsafe : AllOrNothing b order ∨ ledger order.id = none) :
    Conserved ((b.addOrder order).2, accept b ledger order) ∧
      b.executions.length ≤ (b.addOrder order).2.executions.length := by
  have hexecuted : (b.addOrder order).2.executions = (b.addOrder order).2.executed :=
    (announced_calls.addOrder h.announced trivial).executions_eq
  cases addOrder_cases b order with
  | rejected _ _ hfail hquiet =>
      rw [accept, hfail, hquiet.executions_eq]
      refine ⟨h.toConserved.congr (fun id o ho => ?_) hquiet.executions_eq, Nat.le_refl _⟩
      rwa [hquiet.store_eq] at ho
  | killed hr hkills hopen hfail hquiet =>
      have hpasses := rejectReason_eq_none_iff.mp hr
      have hbooked := h.booked hfresh hpasses.id_new
      have hsame := hexecuted.trans hquiet.executed_eq
      rw [accept, hfail, hsame]
      refine ⟨hbooked.conserved_reject hquiet hsame fun account haccount => ?_, hbooked.start_le⟩
      have hall := hsafe.resolve_right (by rw [haccount]; exact Option.some_ne_none _)
      rw [hquiet.executions_eq, executions, h.feed_killed hfresh hpasses hkills hopen hall]
      exact h.accepted _ account haccount
  | rested hr _ _ hok _ hquiet =>
      have hbooked := h.booked hfresh (rejectReason_eq_none_iff.mp hr).id_new
      have hsame : (b.addOrder order).2.executions
          = (b.matchOrder (withMarketPrice order)).book.executed := by
        rw [hexecuted, hquiet.executed_eq, executed, executed_insertRestingOrder, executed]
      rw [accept, hok, hsame]
      refine ⟨hbooked.conserved_accept (fun id o ho => ?_) hsame, hbooked.start_le⟩
      rw [hquiet.store_eq] at ho
      have ho : ((b.matchOrder (withMarketPrice order)).book.store.insertRestingOrder
        (b.matchOrder (withMarketPrice order)).order).orders[id]? = some o := ho
      rw [Store.getElem?_orders_insertRestingOrder, hbooked.id_eq, withMarketPrice_id] at ho
      split_ifs at ho with hid
      · exact Or.inr ⟨hid, (Option.some.inj ho).symm⟩
      · exact Or.inl ho
  | passed hr _ _ hok _ hquiet =>
      have hbooked := h.booked hfresh (rejectReason_eq_none_iff.mp hr).id_new
      have hsame := hexecuted.trans hquiet.executed_eq
      rw [accept, hok, hsame]
      refine ⟨hbooked.conserved_accept (fun id o ho => ?_) hsame, hbooked.start_le⟩
      rw [hquiet.store_eq] at ho
      exact Or.inl ho

theorem Balanced.addOrder (h : Balanced (b, ledger)) (hfresh : Fresh order)
    (hsafe : AllOrNothing b order ∨ ledger order.id = none) :
    Balanced ((b.addOrder order).2, accept b ledger order) := by
  obtain ⟨hconserved, hle⟩ := h.conserved_addOrder hfresh hsafe
  refine ⟨hconserved, agrees_calls.addOrder h.agrees trivial, sound_calls.addOrder h.sound trivial,
    open_calls.addOrder h.opened trivial, announced_calls.addOrder h.announced trivial,
    fun id account haccount => ?_⟩
  have haccount : accept b ledger order id = some account := haccount
  rw [accept] at haccount
  split at haccount
  · dsimp only at haccount
    split_ifs at haccount
    · cases haccount
      exact hle
    · exact Nat.le_trans (h.start_le id account haccount) hle
  · exact Nat.le_trans (h.start_le id account haccount) hle

theorem Balanced.cancelOrder (h : Balanced (b, ledger)) (id : OrderId) :
    Balanced ((b.cancelOrder id).2, ledger) := by
  have hsame : (∀ (i : OrderId) (o : Order), (b.cancelOrder id).2.store.orders[i]? = some o →
      b.store.orders[i]? = some o) ∧ (b.cancelOrder id).2.executions = b.executions := by
    cases cancelOrder_cases b id with
    | missing _ _ hsame =>
        rw [hsame]
        exact ⟨fun _ _ ho => ho, rfl⟩
    | cancelled _ _ hquiet =>
        refine ⟨fun i o ho => ?_, hquiet.executions_eq⟩
        rw [hquiet.store_eq, Store.getElem?_orders_cancelOrder] at ho
        split_ifs at ho
        exact ho
  refine ⟨h.toConserved.congr hsame.1 hsame.2, agrees_calls.cancelOrder h.agrees id,
    sound_calls.cancelOrder h.sound id, open_calls.cancelOrder h.opened id,
    announced_calls.cancelOrder h.announced id, fun i account haccount => ?_⟩
  rw [hsame.2]
  exact h.start_le i account haccount

lemma Balanced.apply {s : OrderBook × Ledger} (h : Balanced s) {op : Op}
    (hfresh : FreshAdds s.1 op) (hmoves : MovesPrice s.1 op) (hsafe : KillsUnaccounted s op) :
    Balanced (applyRecorded s op) := by
  obtain ⟨b, ledger⟩ := s
  cases op with
  | add order => exact h.addOrder hfresh hsafe
  | cancel id => exact h.cancelOrder id
  | flush =>
      have hquiet := Quiet.flushTrades b
      have hexecutions : b.flushTrades.executions = b.executions := hquiet.executions_eq
      refine ⟨h.toConserved.congr (fun _ _ ho => ho) hexecutions, h.agrees, h.sound, h.opened,
        h.announced.quiet hquiet, fun id account haccount => ?_⟩
      have hle : account.start ≤ b.executions.length := h.start_le id account haccount
      rwa [← hexecutions] at hle
  | replace uninit id newPrice newQty =>
      rw [applyRecorded, record, OrderBook.apply]
      cases replaceOrder_cases b uninit id newPrice newQty with
      | missing hnone _ hsame =>
          simp only [hsame, hnone]
          exact h
      | inPlace hin _ _ => exact absurd hin.price_eq (hmoves _ hin.order_eq)
      | moved ho _ _ hbook =>
          simp only [hbook, ho, if_neg (hmoves _ ho)]
          refine (h.cancelOrder id).addOrder rfl (Or.inl fun hkills => ?_)
          exact absurd hkills ((h.opened _ _ ho).1.replacement id newPrice newQty).not_killsRemainder

/-! ## Runs -/

section Runs

variable {symbol : Symbol} {config : OrderBookConfig} {onExecution onBbo : Bool}
  {clock : Stream' Timestamp} {ops : List Op}

/-- **Quantity is conserved** after every call of a run with a trade callback, fresh orders and
replaces to another price, in which no order that is rejected after trading meets an id accepted
before. -/
theorem conservation
    (hops : Run.Admitted applyRecorded
      (fun s op => FreshAdds s.1 op ∧ MovesPrice s.1 op ∧ KillsUnaccounted s op)
      (new symbol config true onExecution onBbo clock, fun _ => none) ops) :
    Conserved (Run.run applyRecorded
      (new symbol config true onExecution onBbo clock, fun _ => none) ops) := by
  refine (Run.Admitted.invariant (I := Balanced) (fun _ _ h hop => h.apply hop.1 hop.2.1 hop.2.2)
    hops ⟨⟨?_, ?_⟩, Store.Agrees.empty, Store.Sound.empty, ?_, ?_, ?_⟩).toConserved
  · intro id o ho
    simp [new] at ho
  · intro id account haccount
    cases haccount
  · intro id o ho
    simp [new] at ho
  · exact ⟨⟨rfl, fun _ => rfl⟩, rfl⟩
  · intro id account haccount
    cases haccount

end Runs

/-- Two partial fills of one order, and a replace of what is left. -/
theorem conservation_sample :
    Conserved (Run.run applyRecorded (makeBook {}, fun _ => none)
      [.add (limitOrder 1 .Sell 100 10), .add (limitOrder 2 .Buy 100 4),
        .add (limitOrder 3 .Buy 100 3), .replace {} 1 101 8]) :=
  conservation (by decide +kernel)

/-- Id 1 buys 10, its whole quantity.  A fill-or-kill bid of the same id then buys 10 more before
self-trade prevention stops it, and is rejected: 20 have been traded for an accepted quantity of
10. -/
theorem conservation_fails :
    let start : OrderBook × Ledger :=
      (makeBook { enableSelfTradePrevention := true }, fun _ => none)
    let ops : List Op :=
      [.add (limitOrder 1000 .Sell 100 10), .add (limitOrder 1 .Buy 100 10),
        .add (limitOrder 1000 .Sell 100 10), .add (limitOrder 2 .Sell 101 10),
        .add { limitOrder 1 .Buy 101 20 with type := .FillOrKill }]
    Run.Admitted applyRecorded (fun s op => FreshAdds s.1 op ∧ MovesPrice s.1 op) start ops ∧
      ¬ Conserved (Run.run applyRecorded start ops) := by
  refine ⟨by decide +kernel, fun h => ?_⟩
  have haccount : (Run.run applyRecorded
      (makeBook { enableSelfTradePrevention := true }, fun _ => none)
      [.add (limitOrder 1000 .Sell 100 10), .add (limitOrder 1 .Buy 100 10),
        .add (limitOrder 1000 .Sell 100 10), .add (limitOrder 2 .Sell 101 10),
        .add { limitOrder 1 .Buy 101 20 with type := .FillOrKill }]).2 1 = some ⟨10, 0⟩ := by
    decide +kernel
  exact absurd (h.accepted 1 ⟨10, 0⟩ haccount) (by decide +kernel)

end OrderBook

end Exchange
