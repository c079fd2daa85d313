import Exchange.Engine.Queued
import Exchange.Journal.Padding
import Exchange.Journal.RoundTrip

/-!
# Executing a journal again

`ReplayHarness` is there "for deterministic re-execution": whoever uses an engine logs each request
with `log_order` before it is made, and each trade with `log_trade` as it is delivered; later the
order callback of a harness makes the requests again, on a new engine.

`journalOf` is what is logged in this way.  `Delivery.request?` is the request that the order
callback makes of what it is given.

**`reexecuted`** — the requests are those that were made; the new engine ends up as the old one was,
times aside; and the journal it gives in turn passes `verify_against` the first one if and only if
the bytes between the fields happen to be the same.
-/

namespace Exchange

open EventJournal MatchingEngine

/-! ## What is logged -/

/-- The order that is logged for a request, and its type. -/
def Request.entry : Request → LoggedEvent
  | .order o => .order o .OrderNew
  | .cancel symbol orderId =>
      .order { id := orderId, price := 0, quantity := 0, side := .Buy, symbol } .OrderCancel
  | .replace symbol orderId newPrice newQty =>
      .order { id := orderId, price := newPrice, quantity := newQty, side := .Buy, symbol }
        .OrderReplace

/-- The order of a request has not been executed yet. -/
def Request.Unfilled : Request → Prop
  | .order o => o.filledQty = 0 ∧ o.status = .New
  | .cancel _ _ | .replace _ _ _ _ => True

namespace MatchingEngine

/-- The trades that the callback gets while a request is handled. -/
def delivered (e : MatchingEngine) (r : Request) : List Trade :=
  ((e.handle {} r).2.history.events.drop e.history.events.length).filterMap Event.trade?

/-- What is logged of a run of requests. -/
def journalOf : MatchingEngine → List Request → List LoggedEvent
  | _, [] => []
  | e, r :: rs => r.entry :: (e.delivered r).map .trade ++ journalOf (e.handle {} r).2 rs

end MatchingEngine

/-! ## What the callback makes of it -/

def Side.ofCode? (code : UInt8) : Option Side := [Side.Buy, .Sell].find? (·.code = code)

def OrderType.ofCode? (code : UInt8) : Option OrderType :=
  [OrderType.Limit, .Market, .ImmediateOrCancel, .FillOrKill, .PostOnly].find? (·.code = code)

def TimeInForce.ofCode? (code : UInt8) : Option TimeInForce :=
  [TimeInForce.Day, .GoodTillCancel, .ImmediateOrCancel, .FillOrKill].find? (·.code = code)

lemma Side.ofCode?_code (s : Side) : ofCode? s.code = some s := by cases s <;> rfl

lemma OrderType.ofCode?_code (t : OrderType) : ofCode? t.code = some t := by cases t <;> rfl

lemma TimeInForce.ofCode?_code (t : TimeInForce) : ofCode? t.code = some t := by cases t <;> rfl

/-- A new order with the fields of a record. -/
def JournalOrder.order? (jo : JournalOrder) : Option Order := do
  let side ← Side.ofCode? jo.side
  let type ← OrderType.ofCode? jo.type
  let tif ← TimeInForce.ofCode? jo.tif
  return { id := jo.id
           price := jo.price
           quantity := jo.quantity
           side := side
           type := type
           tif := tif
           symbol := jo.symbol
           timestamp := jo.timestamp }

def Delivery.request? : Delivery → Option Request
  | .order jo type =>
      if type = .OrderNew then jo.order?.map .order
      else if type = .OrderCancel then some (.cancel jo.symbol jo.id)
      else if type = .OrderReplace then some (.replace jo.symbol jo.id jo.price jo.quantity)
      else none
  | .trade _ => none

lemma JournalOrder.order?_ofOrder {o : Order} (hfilled : o.filledQty = 0)
    (hstatus : o.status = .New) : (ofOrder o).order? = some o := by
  obtain ⟨id, price, quantity, filledQty, side, type, tif, status, symbol, timestamp⟩ := o
  cases hfilled
  cases hstatus
  simp only [order?, ofOrder, Side.ofCode?_code, OrderType.ofCode?_code,
    TimeInForce.ofCode?_code]
  rfl

namespace LoggedEvent

/-- What a callback gets of a record. -/
def delivery : LoggedEvent → Delivery
  | .order o type => .order (.ofOrder o) type
  | .trade t => .trade (.ofTrade t)

/-- The times of trades are not logged. -/
def untimed : LoggedEvent → LoggedEvent
  | .order o type => .order o type
  | .trade t => .trade t.untimed

def Replayable : LoggedEvent → Prop
  | .order _ type => type = .OrderNew ∨ type = .OrderCancel ∨ type = .OrderReplace
  | .trade _ => True

/-- A call that logs an event, where memory is zero. -/
def call : LoggedEvent → LogCall
  | .order o type => .order o type 0 ⟨.replicate 4 0, .replicate 4 0⟩
  | .trade t => .trade t 0 ⟨.replicate 4 0⟩

@[simp] lemma event_call (x : LoggedEvent) : x.call.event = x := by cases x <;> rfl

end LoggedEvent

lemma LogCall.delivery_eq (c : LogCall) : c.delivery = c.event.delivery := by cases c <;> rfl

lemma LogCall.replayable_iff_event (c : LogCall) : c.Replayable ↔ c.event.Replayable := by
  cases c <;> exact Iff.rfl

lemma Request.request?_entry {r : Request} (h : r.Unfilled) :
    r.entry.delivery.request? = some r := by
  cases r with
  | order o =>
      show (JournalOrder.ofOrder o).order?.map Request.order = _
      rw [JournalOrder.order?_ofOrder h.1 h.2]
      rfl
  | cancel symbol orderId => rfl
  | replace symbol orderId newPrice newQty => rfl

lemma Request.replayable_entry (r : Request) : r.entry.Replayable := by
  cases r with
  | order o => exact .inl rfl
  | cancel symbol orderId => exact .inr (.inl rfl)
  | replace symbol orderId newPrice newQty => exact .inr (.inr rfl)

namespace MatchingEngine

variable {e e' : MatchingEngine} {rs : List Request}

lemma replayable_journalOf (e : MatchingEngine) (rs : List Request) :
    ∀ x ∈ journalOf e rs, x.Replayable := by
  induction rs generalizing e with
  | nil => exact fun x hx => absurd hx List.not_mem_nil
  | cons r rs ih =>
      intro x hx
      rw [journalOf, List.cons_append, List.mem_cons, List.mem_append] at hx
      rcases hx with rfl | htrade | hrest
      · exact r.replayable_entry
      · obtain ⟨t, -, rfl⟩ := List.mem_map.mp htrade
        trivial
      · exact ih _ x hrest

/-- The requests can be told from the journal. -/
lemma requests_journalOf (e : MatchingEngine) (hrs : ∀ r ∈ rs, r.Unfilled) :
    ((journalOf e rs).map LoggedEvent.delivery).filterMap Delivery.request? = rs := by
  induction rs generalizing e with
  | nil => rfl
  | cons r rs ih =>
      obtain ⟨hr, hrs⟩ := List.forall_mem_cons.mp hrs
      have htrades : (((e.delivered r).map LoggedEvent.trade).map
          LoggedEvent.delivery).filterMap Delivery.request? = [] := by
        rw [List.filterMap_eq_nil_iff]
        intro x hx
        rw [List.map_map] at hx
        obtain ⟨t, -, rfl⟩ := List.mem_map.mp hx
        rfl
      rw [journalOf, List.cons_append, List.map_cons, List.map_append, List.filterMap_cons,
        r.request?_entry hr, List.filterMap_append, htrades, List.nil_append, ih _ hrs]

/-! ## The engine that executes the requests again -/

/-- Engines that are the same apart from times deliver the same trades apart from times. -/
lemma SameEngine.delivered (h : SameEngine e e') (r : Request) :
    (e'.delivered r).map Trade.untimed = (e.delivered r).map Trade.untimed := by
  have hlength := congrArg List.length h.events_eq
  rw [List.length_map, List.length_map] at hlength
  have htrade : ∀ x : Event, x.trade?.map Trade.untimed = x.untimed.trade? := by
    intro x
    cases x <;> rfl
  have hmap : ∀ xs : List Event, (xs.filterMap Event.trade?).map Trade.untimed
      = (xs.map Event.untimed).filterMap Event.trade? := by
    intro xs
    rw [List.map_filterMap, List.filterMap_map]
    exact List.filterMap_congr fun x _ => htrade x
  rw [MatchingEngine.delivered, MatchingEngine.delivered, hmap, hmap, List.map_drop, List.map_drop,
    (h.handle {} r).1.events_eq, hlength]

lemma SameEngine.journalOf (h : SameEngine e e') (rs : List Request) :
    (journalOf e' rs).map LoggedEvent.untimed = (journalOf e rs).map LoggedEvent.untimed := by
  have htrades : ∀ ts : List Trade, (ts.map LoggedEvent.trade).map LoggedEvent.untimed
      = (ts.map Trade.untimed).map LoggedEvent.trade := by
    intro ts
    rw [List.map_map, List.map_map]
    rfl
  induction rs generalizing e e' with
  | nil => rfl
  | cons r rs ih =>
      rw [MatchingEngine.journalOf, MatchingEngine.journalOf, List.cons_append, List.cons_append,
        List.map_cons, List.map_cons, List.map_append, List.map_append, htrades, htrades,
        h.delivered r, ih (h.handle {} r).1]

lemma SameEngine.submitAll (h : SameEngine e e') (rs : List Request) :
    SameEngine (e.submitAll rs) (e'.submitAll rs) := by
  induction rs generalizing e e' with
  | nil => exact h
  | cons r rs ih => exact ih (h.handle {} r).1

end MatchingEngine

/-! ## The journal of the second execution -/

/-- A call that logs the same bytes. -/
def LogCall.untimed : LogCall → LogCall
  | .order o type now padding => .order o type now padding
  | .trade t now padding => .trade t.untimed now padding

lemma session_untimed (calls : List LogCall) :
    (session [] (calls.map LogCall.untimed)).content = (session [] calls).content := by
  have hframe : ∀ (c : LogCall) (sequence : UInt64),
      c.untimed.frame sequence = c.frame sequence := by
    intro c sequence
    cases c <;> rfl
  have hframes : frames (calls.map LogCall.untimed) = frames calls := by
    refine List.ext_getElem? fun i => ?_
    rw [frames, frames, List.getElem?_mapIdx, List.getElem?_mapIdx, List.getElem?_map,
      Option.map_map]
    exact congrArg (Option.map · _) (funext fun c => hframe c _)
  rw [session_eq, session_eq, hframes]

/-- **Journals of the same events agree** if the bytes between the fields do. -/
lemma agree_iff {calls calls' : List LogCall}
    (hevents : (calls.map LogCall.event).map LoggedEvent.untimed
      = (calls'.map LogCall.event).map LoggedEvent.untimed) (h : ReplayHarness) :
    ((h.loadJournal (some (session [] calls).content)).verifyAgainst initCrc32Table
        (some (session [] calls').content)).1 = true
      ↔ calls.map LogCall.padding = calls'.map LogCall.padding := by
  have hevent : ∀ cs : List LogCall, (cs.map LogCall.untimed).map LogCall.event
      = (cs.map LogCall.event).map LoggedEvent.untimed := by
    intro cs
    rw [List.map_map, List.map_map]
    exact List.map_congr_left fun c _ => by cases c <;> rfl
  have hpadding : ∀ cs : List LogCall, (cs.map LogCall.untimed).map LogCall.padding
      = cs.map LogCall.padding := by
    intro cs
    rw [List.map_map]
    exact List.map_congr_left fun c _ => by cases c <;> rfl
  have hsame : (calls.map LogCall.untimed).map LogCall.event
      = (calls'.map LogCall.untimed).map LogCall.event := by rw [hevent, hevent, hevents]
  have hrecords : RecordsAgree initCrc32Table
      (some (session [] (calls.map LogCall.untimed)).content)
      (some (session [] (calls'.map LogCall.untimed)).content) ↔ _ :=
    forall₂_frames hsame fun sequence c c' hc => LogCall.sameRecord_iff hc sequence
  rw [hpadding, hpadding, session_untimed, session_untimed] at hrecords
  have hverdict := (ReplayHarness.verifyAgainst_eq_true_iff initCrc32Table
    (h.loadJournal (some (session [] calls).content))
    (.construct (some (session [] calls).content)) (some (session [] calls').content)).2
  exact hverdict.trans hrecords

/-- What a journal is replayed as. -/
lemma deliveries_replayAll {calls : List LogCall} {logged : List LoggedEvent}
    (hcalls : calls.map LogCall.event = logged) (hlogged : ∀ x ∈ logged, x.Replayable)
    (h : ReplayHarness) (hOrder : h.onOrder = true) (hTrade : h.onTrade = true) :
    (h.loadJournal (some (session [] calls).content)).replayAll.deliveries
      = h.deliveries ++ logged.map LoggedEvent.delivery := by
  have hreplayable : ∀ c ∈ calls, c.Replayable := fun c hc =>
    c.replayable_iff_event.mpr (hlogged _ (hcalls ▸ List.mem_map_of_mem hc))
  rw [(ReplayHarness.replayAll_loadJournal h _).2, split_session,
    deliverAll_frames hOrder hTrade hreplayable, ← hcalls, List.map_map]
  exact congrArg _ (List.map_congr_left fun c _ => c.delivery_eq)

/-- **A journal is executed again as it was logged.**  An engine handles some requests, which are
logged with the trades delivered.  A harness replays the journal, and its order callback makes the
requests on a new engine, which is logged in the same way. -/
theorem reexecuted (config : OrderBookConfig) (onTrade onExecution : Bool)
    (clocks clocks' : Nat → Stream' Timestamp) (symbols : List Symbol) (rs : List Request)
    (hrs : ∀ r ∈ rs, r.Unfilled) (calls : List LogCall)
    (hcalls : calls.map LogCall.event
      = journalOf (start config onTrade onExecution clocks symbols) rs) :
    let file := (session [] calls).content
    let harness : ReplayHarness := { onOrder := true, onTrade := true }
    let requests := (harness.loadJournal (some file)).replayAll.deliveries.filterMap
      Delivery.request?
    let fresh := start config onTrade onExecution clocks' symbols
    requests = rs ∧
      SameEngine ((start config onTrade onExecution clocks symbols).submitAll rs)
        (fresh.submitAll requests) ∧
      ∀ (calls' : List LogCall) (h : ReplayHarness),
        calls'.map LogCall.event = journalOf fresh requests →
        (((h.loadJournal (some (session [] calls').content)).verifyAgainst initCrc32Table
            (some file)).1 = true ↔ calls'.map LogCall.padding = calls.map LogCall.padding) := by
  intro file harness requests fresh
  have hsame := (follows_start config onTrade onExecution clocks clocks' symbols).same
  have hrequests : requests = rs := by
    show (harness.loadJournal (some file)).replayAll.deliveries.filterMap Delivery.request? = rs
    rw [deliveries_replayAll hcalls (replayable_journalOf _ rs) harness rfl rfl]
    exact requests_journalOf _ hrs
  rw [hrequests]
  refine ⟨rfl, hsame.submitAll rs, fun calls' h hcalls' => agree_iff ?_ h⟩
  rw [hcalls, hcalls']
  exact hsame.journalOf rs

/-- Two orders that meet, and the cancellation of the rest. -/
def sampleRequests : List Request :=
  [.order { id := 1, price := 100, quantity := 5, side := .Sell, symbol := .ofChars [65] },
    .order { id := 2, price := 100, quantity := 3, side := .Buy, symbol := .ofChars [65] },
    .cancel (.ofChars [65]) 1]

def sampleEngine (now : Timestamp) : MatchingEngine :=
  start {} true false (fun _ => Stream'.const now) [.ofChars [65]]

/-- The requests, logged where memory is zero. -/
def sampleJournal (now : Timestamp) : List LogCall :=
  (journalOf (sampleEngine now) sampleRequests).map LoggedEvent.call

lemma event_sampleJournal (now : Timestamp) :
    (sampleJournal now).map LogCall.event = journalOf (sampleEngine now) sampleRequests := by
  rw [sampleJournal, List.map_map]
  exact List.map_id'' LoggedEvent.event_call _

theorem reexecuted_sample :
    let harness : ReplayHarness := { onOrder := true, onTrade := true }
    let replayed := (harness.loadJournal (some (session [] (sampleJournal 0)).content)).replayAll
    replayed.deliveries.filterMap Delivery.request? = sampleRequests ∧
      ((harness.loadJournal (some (session [] (sampleJournal 1)).content)).verifyAgainst
        initCrc32Table (some (session [] (sampleJournal 0)).content)).1 = true := by
  intro harness replayed
  have hrs : ∀ r ∈ sampleRequests, r.Unfilled := by
    simp [sampleRequests, Request.Unfilled]
  obtain ⟨hrequests, -, hverdict⟩ := reexecuted {} true false (fun _ => Stream'.const 0)
    (fun _ => Stream'.const 1) [.ofChars [65]] sampleRequests hrs _ (event_sampleJournal 0)
  refine ⟨hrequests, (hverdict (sampleJournal 1) harness ?_).mpr (by decide +kernel)⟩
  rw [hrequests]
  exact event_sampleJournal 1

/-- Three requests and a trade. -/
example : (journalOf (sampleEngine 0) sampleRequests).length = 4 := by decide +kernel

end Exchange
