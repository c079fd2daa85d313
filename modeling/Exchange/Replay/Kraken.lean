import Exchange.Engine.Calls
import Exchange.OrderBook.Ids
import Exchange.Replay.WellFormed

/-!
# The replay tool

`src/tools/replay_kraken.cpp`: the commands that the converter has written are read back, and an
engine with a single book is fed one after the other.

* `pack_parseFeed` — sizes below `2 ^ 32`, as `size_to_qty` makes them, let every command be packed;
* `no_duplicates` — where the stream is well formed, no `ADD` is refused as a duplicate, whatever
  has been traded or refused before;
* **`replayable_iff`** — what the converter promises, and when it keeps it.
-/

namespace Exchange.ReplayKraken

open Function (update)
open ParseFeed
open Run (Admitted run)

/-! ## The commands -/

/-- `ReplayCmd`, without the padding. -/
structure ReplayCmd where
  type : UInt8
  side : UInt8
  orderId : OrderId
  price : Price
  quantity : Quantity
deriving DecidableEq, Repr

/-- `CMD_ADD`, `CMD_CANCEL` and `CMD_REPLACE`; `ADD`, `CANCEL` and `REPLACE` here. -/
def typeCode : CmdType → UInt8
  | .ADD => 0
  | .CANCEL => 1
  | .REPLACE => 2

/-- `struct.pack(CMD_FMT, …)`, which raises an error if a number does not fit, and the record that
is read back. -/
def pack (cmd : Command) : Option ReplayCmd :=
  if cmd.orderId < 2 ^ 64 ∧ cmd.price < 2 ^ 63 ∧ cmd.quantity < 2 ^ 32 then
    some
      { type := typeCode cmd.type
        side := .ofNat (sideCode cmd.side)
        orderId := .ofNat cmd.orderId
        price := .ofNat cmd.price
        quantity := .ofNat cmd.quantity }
  else none

/-- `exchange::Symbol sym("XBTUSD")`. -/
def sym : Symbol := .ofChars [88, 66, 84, 85, 83, 68]

/-- `order`, as it is filled in for every command. -/
def ReplayCmd.order (cmd : ReplayCmd) : Order :=
  { id := cmd.orderId
    symbol := sym
    side := if cmd.side = 0 then .Buy else .Sell
    price := cmd.price
    quantity := if cmd.quantity > 0 then cmd.quantity else 1
    type := .Limit
    tif := .GoodTillCancel }

/-! ## The timed replay -/

/-- The variables of the loop. -/
structure TimedReplay where
  engine : MatchingEngine
  nAdd : UInt32 := 0
  nCancel : UInt32 := 0
  nReplace : UInt32 := 0
  nErr : UInt32 := 0

/-- `engine2`, with its one symbol. -/
def start (clocks : Nat → Stream' Timestamp) : TimedReplay where
  engine := .start {} false false clocks [sym]

/-- The request that a command makes.  `uninit` is the indeterminate content of
`OrderResult result;`. -/
def execute (uninit : OrderResult) (s : TimedReplay) (cmd : ReplayCmd) :
    OrderResult × TimedReplay :=
  let order := cmd.order
  if cmd.type = 0 then
    let (result, engine) := s.engine.submitOrder uninit order
    (result, { s with engine, nAdd := s.nAdd + 1 })
  else if cmd.type = 1 then
    let (result, engine) := s.engine.cancelOrder uninit sym cmd.orderId
    (result, { s with engine, nCancel := s.nCancel + 1 })
  else if cmd.type = 2 then
    let (result, engine) := s.engine.replaceOrder uninit sym cmd.orderId cmd.price cmd.quantity
    (result, { s with engine, nReplace := s.nReplace + 1 })
  else (uninit, s)

/-- One round. -/
def step (uninit : OrderResult) (s : TimedReplay) (cmd : ReplayCmd) : TimedReplay :=
  let (result, s) := execute uninit s cmd
  if !result.success then { s with nErr := s.nErr + 1 } else s

/-- The command is not an `ADD` that is refused as a duplicate. -/
def NoDuplicate (uninit : OrderResult) (s : TimedReplay) (cmd : ReplayCmd) : Prop :=
  cmd.type = typeCode .ADD → ¬ ((execute uninit s cmd).1.success = false ∧
    (execute uninit s cmd).1.rejectReason = .DuplicateOrderId)

/-- The stream is well formed, and its replay goes through without a duplicate. -/
def Replayable (cmds : List Command) : Prop :=
  WellFormed cmds ∧ ∀ packed, cmds.mapM pack = some packed →
    ∀ uninit clocks, Admitted (step uninit) (NoDuplicate uninit) (start clocks) packed

/-! ## Rounds -/

/-- What the engine is asked to do. -/
def ReplayCmd.request (cmd : ReplayCmd) : CmdType → Request
  | .ADD => .order cmd.order
  | .CANCEL => .cancel sym cmd.orderId
  | .REPLACE => .replace sym cmd.orderId cmd.price cmd.quantity

variable {uninit : OrderResult} {s : TimedReplay} {cmd : Command} {packed : ReplayCmd} {live : Live}

lemma symbol_request (packed : ReplayCmd) (type : CmdType) :
    (packed.request type).symbol = sym := by
  cases type <;> rfl

/-- A command is a request. -/
lemma execute_eq {type : CmdType} (h : packed.type = typeCode type) :
    (execute uninit s packed).1 = (s.engine.handle uninit (packed.request type)).1 ∧
      (execute uninit s packed).2.engine = (s.engine.handle uninit (packed.request type)).2 := by
  rw [execute]
  cases type with
  | ADD =>
      have h₀ : packed.type = 0 := h
      rw [if_pos h₀]
      exact ⟨rfl, rfl⟩
  | CANCEL =>
      have h₁ : packed.type = 1 := h
      rw [if_neg (by rw [h₁]; decide), if_pos h₁]
      exact ⟨rfl, rfl⟩
  | REPLACE =>
      have h₂ : packed.type = 2 := h
      rw [if_neg (by rw [h₂]; decide), if_neg (by rw [h₂]; decide), if_pos h₂]
      exact ⟨rfl, rfl⟩

/-- The error count does not concern the engine. -/
lemma engine_step (uninit : OrderResult) (s : TimedReplay) (packed : ReplayCmd) :
    (step uninit s packed).engine = (execute uninit s packed).2.engine := by
  simp only [step]
  split_ifs <;> rfl

lemma pack_eq (h : pack cmd = some packed) :
    packed.type = typeCode cmd.type ∧ packed.orderId.toNat = cmd.orderId := by
  rw [pack] at h
  split_ifs at h with hfits
  cases h
  exact ⟨rfl, UInt64.toNat_ofNat_of_lt' hfits.1⟩

/-! ## Well-formed streams -/

/-- Whatever rests in the book has an id that is live. -/
def Known (live : Live) (s : TimedReplay) : Prop :=
  ∃ b, s.engine.book? sym = some b ∧
    ∀ id : OrderId, live id.toNat = none → b.store.orders[id]? = none

lemma known_start (clocks : Nat → Stream' Timestamp) : Known (fun _ => none) (start clocks) := by
  obtain ⟨clock, hbook⟩ := MatchingEngine.book?_start {} false false clocks [sym] sym
  refine ⟨_, hbook.trans (if_pos List.mem_cons_self), fun id _ => ?_⟩
  simp [OrderBook.new]

lemma Known.noDuplicate (h : Known live s) (hcmd : Accepts live cmd)
    (hpack : pack cmd = some packed) : NoDuplicate uninit s packed := by
  obtain ⟨b, hb, hfree⟩ := h
  obtain ⟨htype, hid⟩ := pack_eq hpack
  intro hadd hdup
  rw [(execute_eq hadd).1, MatchingEngine.fst_handle, symbol_request, hb] at hdup
  obtain ⟨type, side, oid, price, quantity⟩ := cmd
  cases type with
  | ADD =>
      have hnone : live packed.orderId.toNat = none := by
        rw [hid]
        exact hcmd
      exact (OrderBook.addOrder_duplicate_iff.mp hdup).2.2 (hfree packed.orderId hnone)
  | CANCEL | REPLACE =>
      rw [htype] at hadd
      exact absurd hadd (by simp [typeCode])

lemma Known.step (h : Known live s) (hpack : pack cmd = some packed) :
    Known (liveAfter live cmd) (step uninit s packed) := by
  obtain ⟨b, hb, hfree⟩ := h
  obtain ⟨htype, hid⟩ := pack_eq hpack
  refine ⟨b.apply (packed.request cmd.type).op, ?_, fun id hlive => ?_⟩
  · rw [engine_step, (execute_eq htype).2, MatchingEngine.book?_handle, symbol_request, if_pos rfl,
      hb]
    rfl
  · obtain ⟨type, side, oid, price, quantity⟩ := cmd
    cases type with
    | ADD =>
        have hlive : update live oid (some (side, price)) id.toNat = none := hlive
        rw [Function.update_apply] at hlive
        split_ifs at hlive with hnew
        refine OrderBook.addOrder_orders_none (hfree id hlive) ?_
        rintro rfl
        exact absurd hid hnew
    | CANCEL =>
        have hlive : update live oid none id.toNat = none := hlive
        rw [Function.update_apply] at hlive
        split_ifs at hlive with hgone
        · obtain rfl : id = packed.orderId := UInt64.toNat_inj.mp (hgone.trans hid.symm)
          exact OrderBook.cancelOrder_orders_self b packed.orderId
        · exact OrderBook.cancelOrder_orders_none (hfree id hlive)
    | REPLACE => exact OrderBook.replaceOrder_orders_none (hfree id hlive)

/-- **A well-formed stream meets no duplicate in the engine.** -/
theorem no_duplicates {cmds : List Command} (hwf : Admitted liveAfter Accepts live cmds)
    {packed : List ReplayCmd} (hpack : cmds.mapM pack = some packed) (h : Known live s) :
    Admitted (step uninit) (NoDuplicate uninit) s packed := by
  induction cmds generalizing live s packed with
  | nil =>
      cases hpack
      trivial
  | cons cmd cmds ih =>
      rw [List.mapM_cons, Option.bind_eq_bind, Option.bind_eq_some_iff] at hpack
      obtain ⟨first, hfirst, hpack⟩ := hpack
      obtain ⟨rest, hrest, hpack⟩ := Option.bind_eq_some_iff.mp hpack
      cases hpack
      exact ⟨h.noDuplicate hwf.1 hfirst, ih hwf.2 hrest (h.step hfirst)⟩

/-! ## The streams of the converter -/

lemma makeOrderId_lt (side : Side) {p : Nat} (hp : p < 2 ^ 60) : makeOrderId side p < 2 ^ 64 := by
  rw [makeOrderId_eq side hp]
  cases side <;> simp only [sideCode] <;> omega

/-- What has been written fits its record, and so will the ids that may be written yet. -/
structure Fits (s : FeedState) : Prop where
  books : ∀ side priceStr oid, s.books side priceStr = some oid → oid < 2 ^ 64
  commands : ∀ cmd ∈ s.commands, (pack cmd).isSome

variable {c : Conversion}

lemma isSome_pack {type : CmdType} {side : Side} {oid quantity : Nat} (hid : oid < 2 ^ 64)
    (priceStr : String) (hquantity : quantity < 2 ^ 32) :
    (pack ⟨type, side, oid, c.priceToFixed priceStr, quantity⟩).isSome := by
  have hprice : c.priceToFixed priceStr < 2 ^ 63 := Nat.lt_trans (c.price_lt priceStr) (by decide)
  rw [pack, if_pos ⟨hid, hprice, hquantity⟩]
  rfl

lemma exists_mapM_pack {cmds : List Command} (h : ∀ cmd ∈ cmds, (pack cmd).isSome) :
    ∃ packed, cmds.mapM pack = some packed := by
  induction cmds with
  | nil => exact ⟨[], rfl⟩
  | cons cmd cmds ih =>
      rw [List.forall_mem_cons] at h
      obtain ⟨first, hfirst⟩ := Option.isSome_iff_exists.mp h.1
      obtain ⟨rest, hrest⟩ := ih h.2
      exact ⟨first :: rest, by rw [List.mapM_cons, hfirst, hrest]; rfl⟩

lemma Fits.step (hsize : ∀ sizeStr, c.sizeToQty sizeStr < 2 ^ 32) {s : FeedState} (h : Fits s)
    (i : Item) : Fits (entryStep c s i) := by
  have hnew : i.orderId c < 2 ^ 64 := makeOrderId_lt i.side (c.price_lt _)
  obtain ⟨-, -, hstep⟩ | ⟨-, -, oid, hbook, hstep⟩ | ⟨-, -, oid, hbook, hstep⟩ | ⟨-, -, -, hstep⟩ :=
    entryStep_cases c s i
  · rw [hstep]
    refine ⟨fun side priceStr oid hoid => ?_, ?_⟩
    · simp only [Books.set_apply] at hoid
      split_ifs at hoid
      · cases hoid
        exact hnew
      · exact h.books side priceStr oid hoid
    · rw [List.forall_mem_append, List.forall_mem_singleton]
      exact ⟨h.commands, isSome_pack hnew _ (hsize _)⟩
  · rw [hstep]
    refine ⟨h.books, ?_⟩
    rw [List.forall_mem_append, List.forall_mem_singleton]
    exact ⟨h.commands, isSome_pack (h.books _ _ _ hbook) _ (hsize _)⟩
  · rw [hstep]
    refine ⟨fun side priceStr oid' hoid => ?_, ?_⟩
    · simp only [Books.set_apply] at hoid
      split_ifs at hoid
      exact h.books side priceStr oid' hoid
    · rw [List.forall_mem_append, List.forall_mem_singleton]
      exact ⟨h.commands, isSome_pack (h.books _ _ _ hbook) _ (by decide)⟩
  · rwa [hstep]

/-- **Every command fits its record**, if the sizes do. -/
theorem pack_parseFeed (hsize : ∀ sizeStr, c.sizeToQty sizeStr < 2 ^ 32) (feed : List Message) :
    ∃ packed, (parseFeed c feed).mapM pack = some packed := by
  have hfits : Fits (run (entryStep c) {} (feed.flatMap items)) :=
    Admitted.invariant (I := Fits) (fun _ i h _ => h.step hsize i) (Run.admitted_trivial _ _)
      ⟨nofun, nofun⟩
  rw [parseFeed_eq]
  exact exists_mapM_pack hfits.commands

/-- **What the converter promises, and when it keeps it.** -/
theorem replayable_iff (c : Conversion) (feed : List Message) :
    Replayable (parseFeed c feed) ↔ Distinct c (feed.flatMap items) := by
  rw [← wellFormed_parseFeed_iff]
  refine and_iff_left_of_imp fun hwf packed hpack uninit clocks => ?_
  exact no_duplicates hwf hpack (known_start clocks)

/-- A level that two snapshots show. -/
theorem not_replayable_snapshots : ¬ ∀ c feed, Replayable (parseFeed c feed) := by
  intro hall
  have hwf := (hall ⟨fun _ => 1000000, fun _ => 10000, fun _ => by decide⟩
    [.array { as := some [⟨"100.00000", "1.00000000"⟩] },
      .array { as := some [⟨"100.00000", "1.00000000"⟩] }]).1
  exact absurd hwf (by decide +kernel)

end Exchange.ReplayKraken
