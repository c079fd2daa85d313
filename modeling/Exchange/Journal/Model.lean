import Exchange.Core.Loop
import Exchange.Journal.Codec

/-!
# The journal and its replay

`replay/event_journal.cpp`: `EventJournal` appends records to a file, `JournalReader` reads them
back, and `ReplayHarness` hands them to callbacks or compares them with those of another file.

A file is what it holds; a file that does not exist, or cannot be opened, is `none`.  All writes
succeed, and so do allocations.  `InputFile` is as much of `std::ifstream` as the reader uses.

The table of the checksum belongs to the process: it is zero until an `EventJournal` is constructed,
which a process that only reads never does.
-/

namespace Exchange

/-! ## Checksums -/

/-- `crc32_table`. -/
abbrev CrcTable := Vector UInt32 256

def zeroCrc32Table : CrcTable := .replicate 256 0

/-- One round of the inner loop of `init_crc32_table`. -/
def crcShift (c : UInt32) : UInt32 :=
  if c &&& 1 ≠ 0 then (0xEDB88320 : UInt32) ^^^ (c >>> 1) else c >>> 1

/-- `init_crc32_table`. -/
def initCrc32Table : CrcTable :=
  .ofFn fun i => Nat.repeat crcShift 8 (UInt32.ofNat i)

lemma toNat_and_255_lt (x : UInt32) : (x &&& 0xFF).toNat < 256 := by
  rw [UInt32.toNat_and]
  exact Nat.lt_succ_of_le Nat.and_le_right

/-- One round of the loop of `compute_checksum`. -/
def crcByte (table : CrcTable) (crc : UInt32) (b : UInt8) : UInt32 :=
  table.get ⟨((crc ^^^ b.toUInt32) &&& 0xFF).toNat, toNat_and_255_lt _⟩ ^^^ (crc >>> 8)

/-- `compute_checksum`. -/
def computeChecksum (table : CrcTable) (data : List UInt8) : UInt32 :=
  data.foldl (crcByte table) 0xFFFFFFFF ^^^ 0xFFFFFFFF

/-! ## Writing -/

/-- `jo` of `log_order`. -/
def JournalOrder.ofOrder (order : Order) : JournalOrder where
  id := order.id
  symbol := order.symbol
  side := order.side.code
  type := order.type.code
  tif := order.tif.code
  price := order.price
  quantity := order.quantity
  timestamp := order.timestamp

/-- `jt` of `log_trade`. -/
def JournalTrade.ofTrade (trade : Trade) : JournalTrade where
  seqNum := trade.seqNum
  symbol := trade.symbol
  price := trade.price
  quantity := trade.quantity
  buyOrderId := trade.buyOrderId
  sellOrderId := trade.sellOrderId
  aggressorSide := trade.aggressorSide.code

/-- `content` is what the file holds. -/
structure EventJournal where
  content : List UInt8
  sequence : UInt64
  fileSize : UInt64

namespace EventJournal

/-- The constructor.  The file is opened for appending. -/
def construct (content : List UInt8) : EventJournal where
  content := content
  sequence := 0
  fileSize := 0

variable (j : EventJournal)

def write (bytes : List UInt8) : EventJournal := { j with content := j.content ++ bytes }

/-- `now` is the value of `Timing::now_ns`. -/
def writeHeader (type : EventType) (payloadSize checksum : UInt32) (now : Timestamp) :
    EventJournal :=
  let header : JournalHeader :=
    { sequence := j.sequence
      timestamp := now
      eventType := type
      reserved := .replicate 7 0
      payloadSize := payloadSize
      checksum := checksum }
  { j with sequence := j.sequence + 1 }.write header.bytes

/-- The table is that of a process in which an `EventJournal` has been constructed. -/
def logOrder (order : Order) (type : EventType) (now : Timestamp) (padding : OrderPadding) :
    EventJournal :=
  let jo := JournalOrder.ofOrder order
  let checksum := computeChecksum initCrc32Table (jo.bytes padding)
  let j := (j.writeHeader type 48 checksum now).write (jo.bytes padding)
  { j with fileSize := j.fileSize + (32 + 48) }

def logTrade (trade : Trade) (now : Timestamp) (padding : TradePadding) : EventJournal :=
  let jt := JournalTrade.ofTrade trade
  let checksum := computeChecksum initCrc32Table (jt.bytes padding)
  let j := (j.writeHeader .Trade 56 checksum now).write (jt.bytes padding)
  { j with fileSize := j.fileSize + (32 + 56) }

def size : UInt64 := j.fileSize

end EventJournal

/-- A call of `log_order` or `log_trade`. -/
inductive LogCall
  | order (order : Order) (type : EventType) (now : Timestamp) (padding : OrderPadding)
  | trade (trade : Trade) (now : Timestamp) (padding : TradePadding)

def EventJournal.log (j : EventJournal) : LogCall → EventJournal
  | .order order type now padding => j.logOrder order type now padding
  | .trade trade now padding => j.logTrade trade now padding

/-! ## Reading -/

/-- `std::ifstream`. -/
structure InputFile where
  content : Option (List UInt8)
  pos : Nat := 0
  eof : Bool := false
  fail : Bool := false

namespace InputFile

def construct (content : Option (List UInt8)) : InputFile where
  content := content
  fail := content.isNone

variable (f : InputFile)

/-- What is left to read. -/
def rest : List UInt8 := (f.content.getD []).drop f.pos

/-- `read`, with the `gcount()` bytes it has got. -/
def read (n : Nat) : List UInt8 × InputFile :=
  if f.eof || f.fail then ([], { f with fail := true })
  else
    let got := f.rest.take n
    let f := { f with pos := f.pos + got.length }
    if got.length < n then (got, { f with eof := true, fail := true }) else (got, f)

/-- `clear()` and `seekg(0, std::ios::beg)`. -/
def rewind : InputFile :=
  { f with pos := 0, eof := false, fail := f.content.isNone }

/-- `seekg(-n, std::ios::cur)`. -/
def seekBack (n : Nat) : InputFile :=
  if f.fail then { f with eof := false }
  else if f.content.isNone ∨ f.pos < n then { f with eof := false, fail := true }
  else { f with eof := false, pos := f.pos - n }

end InputFile

/-- `lastHeader` has no value of its own while `lastValid` is false. -/
structure JournalReader where
  file : InputFile
  lastHeader : JournalHeader := .ofBytes []
  lastPayload : List UInt8 := []
  lastValid : Bool := false

namespace JournalReader

def construct (content : Option (List UInt8)) : JournalReader where
  file := .construct content

variable (r : JournalReader)

/-- `read_next`, with the header and the payload where it returns true. -/
def readNext : Option (JournalHeader × List UInt8) × JournalReader :=
  if r.file.fail || r.file.content.isNone then (none, r)
  else
    let (got, file) := r.file.read 32
    if file.fail || got.length ≠ 32 then (none, { r with file := file, lastValid := false })
    else
      let header := JournalHeader.ofBytes got
      let (payload, file) := file.read header.payloadSize.toNat
      if file.fail || UInt32.ofNat payload.length ≠ header.payloadSize then
        (none, { r with file := file, lastValid := false })
      else
        (some (header, payload),
          { file := file, lastHeader := header, lastPayload := payload, lastValid := true })

def reset : JournalReader := { r with file := r.file.rewind, lastValid := false }

/-- One round of the loop of `seek_to_sequence`, with what it returns. -/
def seekStep (seq : UInt64) (s : Bool × JournalReader) : ForInStep (Bool × JournalReader) :=
  match s.2.readNext with
  | (none, r) => .done (false, r)
  | (some (header, _), r) =>
      if header.sequence ≥ seq then
        .done (true, { r with file := r.file.seekBack (32 + header.payloadSize.toNat) })
      else .yield (false, r)

def seekToSequence (seq : UInt64) : Bool × JournalReader :=
  Loop.run (seekStep seq) (r.reset.file.rest.length + 1) (false, r.reset)

/-- The loop of `verify_checksum` is that of `compute_checksum`. -/
def verifyChecksum (table : CrcTable) : Bool :=
  if !r.lastValid || r.lastPayload.isEmpty then false
  else computeChecksum table r.lastPayload == r.lastHeader.checksum

end JournalReader

/-! ## Replay -/

/-- An invocation of a callback. -/
inductive Delivery
  | order (order : JournalOrder) (type : EventType)
  | trade (trade : JournalTrade)
deriving DecidableEq, Repr

/-- `deliveries` are the invocations of callbacks so far. -/
structure ReplayHarness where
  reader : Option JournalReader := none
  currentSeq : UInt64 := 0
  onOrder : Bool := false
  onTrade : Bool := false
  deliveries : List Delivery := []

namespace ReplayHarness

variable (h : ReplayHarness)

def loadJournal (content : Option (List UInt8)) : ReplayHarness :=
  { h with reader := some (.construct content), currentSeq := 0 }

/-- The `switch` of `step`. -/
def deliver (header : JournalHeader) (payload : List UInt8) : List Delivery :=
  if header.eventType = .OrderNew ∨ header.eventType = .OrderCancel
      ∨ header.eventType = .OrderReplace then
    if h.onOrder ∧ payload.length ≥ 48 then
      [.order (.ofBytes payload) header.eventType]
    else []
  else if header.eventType = .Trade then
    if h.onTrade ∧ payload.length ≥ 56 then [.trade (.ofBytes payload)] else []
  else []

def step : Bool × ReplayHarness :=
  match h.reader with
  | none => (false, h)
  | some r =>
      match r.readNext with
      | (none, r) => (false, { h with reader := some r })
      | (some (header, payload), r) =>
          (true, { h with
            reader := some r
            currentSeq := header.sequence
            deliveries := h.deliveries ++ h.deliver header payload })

/-- One round of the loop of `replay_all`. -/
def replayStep : ForInStep ReplayHarness :=
  match h.step with
  | (true, h) => .yield h
  | (false, h) => .done h

def replayFuel : Nat := h.reader.elim 0 (·.file.rest.length) + 1

def replayAll : ReplayHarness := Loop.run replayStep h.replayFuel h

/-- One round of the loop of `replay_until`. -/
def untilStep (seq : UInt64) (h : ReplayHarness) : ForInStep ReplayHarness :=
  if h.currentSeq < seq then h.replayStep else .done h

def replayUntil (seq : UInt64) : ReplayHarness := Loop.run (untilStep seq) h.replayFuel h

/-! ## Comparison -/

/-- The variables live in `verify_against`. -/
structure Comparison where
  reader : JournalReader
  expected : JournalReader
  verdict : Bool := true

/-- One round of the loop of `verify_against`. -/
def compareStep (table : CrcTable) (c : Comparison) : ForInStep Comparison :=
  let (has1, reader) := c.reader.readNext
  let (has2, expected) := c.expected.readNext
  match has1, has2 with
  | none, none => .done { reader, expected, verdict := true }
  | some (header1, payload1), some (header2, payload2) =>
      if !reader.verifyChecksum table || !expected.verifyChecksum table then
        .done { reader, expected, verdict := false }
      else if header1.sequence ≠ header2.sequence ∨ header1.eventType ≠ header2.eventType ∨
          header1.payloadSize ≠ header2.payloadSize ∨ header1.checksum ≠ header2.checksum then
        .done { reader, expected, verdict := false }
      else if payload1 ≠ payload2 then .done { reader, expected, verdict := false }
      else .yield { reader, expected }
  | _, _ => .done { reader, expected, verdict := false }

def compareFuel (c : Comparison) : Nat := c.reader.file.rest.length + 1

def verifyAgainst (table : CrcTable) (expected : Option (List UInt8)) : Bool × ReplayHarness :=
  match h.reader with
  | none => (false, h)
  | some r =>
      let start : Comparison := { reader := r.reset, expected := .construct expected }
      let c := Loop.run (compareStep table) (compareFuel start) start
      (c.verdict, { h with reader := some c.reader })

end ReplayHarness

end Exchange
