import Exchange.Core.Bytes
import Exchange.Core.Framing
import Exchange.Order

/-!
# The journal's records

`JournalHeader`, `JournalOrder` and `JournalTrade` of `replay/event_journal.hpp`, in memory and as
bytes, in the little-endian x86-64 layout that the `static_assert`s fix.  An `enum class` with a
fixed underlying type holds any value of it, so enumerators are kept as they are stored.

`bytes` is what `file_.write` is given, `ofBytes` what `memcpy` leaves in the record.  The padding
that the compiler inserts has no value of its own: `OrderPadding` and `TradePadding` hold what
happens to be there.

`ofBytes_bytes` says for each of the three that nothing is lost.
-/

namespace Exchange

open Bytes

/-! ## Enumerators -/

structure EventType where
  code : UInt8
deriving DecidableEq, Repr

namespace EventType

def OrderNew : EventType := ⟨0⟩
def OrderCancel : EventType := ⟨1⟩
def OrderReplace : EventType := ⟨2⟩
def Trade : EventType := ⟨3⟩

end EventType

def Side.code : Side → UInt8
  | .Buy => 0
  | .Sell => 1

def OrderType.code : OrderType → UInt8
  | .Limit => 0
  | .Market => 1
  | .ImmediateOrCancel => 2
  | .FillOrKill => 3
  | .PostOnly => 4

def TimeInForce.code : TimeInForce → UInt8
  | .Day => 0
  | .GoodTillCancel => 1
  | .ImmediateOrCancel => 2
  | .FillOrKill => 3

/-! ## Records -/

structure JournalHeader where
  sequence : UInt64
  timestamp : UInt64
  eventType : EventType
  reserved : Vector UInt8 7
  payloadSize : UInt32
  checksum : UInt32
deriving DecidableEq, Repr

/-- `_pad`, of which only 0 is ever written, is left out of the record. -/
structure JournalOrder where
  id : OrderId
  symbol : Symbol
  side : UInt8
  type : UInt8
  tif : UInt8
  price : Price
  quantity : Quantity
  timestamp : UInt64
deriving DecidableEq, Repr

structure JournalTrade where
  seqNum : SequenceNum
  symbol : Symbol
  price : Price
  quantity : Quantity
  buyOrderId : OrderId
  sellOrderId : OrderId
  aggressorSide : UInt8
deriving DecidableEq, Repr

/-- Offsets 20 to 23 and 36 to 39. -/
structure OrderPadding where
  beforePrice : Vector UInt8 4
  beforeTimestamp : Vector UInt8 4

/-- Offsets 28 to 31. -/
structure TradePadding where
  beforeBuyOrderId : Vector UInt8 4

/-! ## Bytes -/

namespace JournalHeader

def bytes (h : JournalHeader) : List UInt8 :=
  putU64 h.sequence ++ (putU64 h.timestamp ++ ([h.eventType.code] ++ (h.reserved.toList ++
    (putU32 h.payloadSize ++ putU32 h.checksum))))

def ofBytes (bs : List UInt8) : JournalHeader where
  sequence := getU64 0 bs
  timestamp := getU64 8 bs
  eventType := ⟨getU8 16 bs⟩
  reserved := toVector 7 (slice 17 7 bs)
  payloadSize := getU32 24 bs
  checksum := getU32 28 bs

@[simp] lemma length_bytes (h : JournalHeader) : h.bytes.length = 32 := by
  simp [bytes]

end JournalHeader

namespace JournalOrder

def bytes (o : JournalOrder) (padding : OrderPadding) : List UInt8 :=
  putU64 o.id ++ (o.symbol.data.toList ++ ([o.side] ++ ([o.type] ++ ([o.tif] ++ ([0] ++
    (padding.beforePrice.toList ++ (putU64 o.price.toUInt64 ++ (putU32 o.quantity ++
      (padding.beforeTimestamp.toList ++ putU64 o.timestamp)))))))))

def ofBytes (bs : List UInt8) : JournalOrder where
  id := getU64 0 bs
  symbol := ⟨toVector 8 (slice 8 8 bs)⟩
  side := getU8 16 bs
  type := getU8 17 bs
  tif := getU8 18 bs
  price := (getU64 24 bs).toInt64
  quantity := getU32 32 bs
  timestamp := getU64 40 bs

@[simp] lemma length_bytes (o : JournalOrder) (padding : OrderPadding) :
    (o.bytes padding).length = 48 := by
  simp [bytes]

end JournalOrder

namespace JournalTrade

def bytes (t : JournalTrade) (padding : TradePadding) : List UInt8 :=
  putU64 t.seqNum ++ (t.symbol.data.toList ++ (putU64 t.price.toUInt64 ++ (putU32 t.quantity ++
    (padding.beforeBuyOrderId.toList ++ (putU64 t.buyOrderId ++ (putU64 t.sellOrderId ++
      ([t.aggressorSide] ++ List.replicate 7 0)))))))

def ofBytes (bs : List UInt8) : JournalTrade where
  seqNum := getU64 0 bs
  symbol := ⟨toVector 8 (slice 8 8 bs)⟩
  price := (getU64 16 bs).toInt64
  quantity := getU32 24 bs
  buyOrderId := getU64 32 bs
  sellOrderId := getU64 40 bs
  aggressorSide := getU8 48 bs

@[simp] lemma length_bytes (t : JournalTrade) (padding : TradePadding) :
    (t.bytes padding).length = 56 := by
  simp [bytes]

end JournalTrade

/-! ## Round trips -/

theorem JournalHeader.ofBytes_bytes (h : JournalHeader) : ofBytes h.bytes = h := by
  have hsequence : slice 0 8 h.bytes = putU64 h.sequence := by
    simp [bytes, slice_append_left]
  have htimestamp : slice 8 8 h.bytes = putU64 h.timestamp := by
    simp [bytes, slice_append_right, slice_append_left]
  have heventType : slice 16 1 h.bytes = [h.eventType.code] := by
    simp [bytes, slice_append_right, slice_cons_one]
  have hreserved : slice 17 7 h.bytes = h.reserved.toList := by
    simp [bytes, slice_append_right, slice_cons_succ, slice_append_left]
  have hpayloadSize : slice 24 4 h.bytes = putU32 h.payloadSize := by
    simp [bytes, slice_append_right, slice_cons_succ, slice_append_left]
  have hchecksum : slice 28 4 h.bytes = putU32 h.checksum := by
    simp [bytes, slice_append_right, slice_cons_succ, slice_self]
  rw [ofBytes, getU64_of_slice hsequence, getU64_of_slice htimestamp, getU8_of_slice heventType,
    hreserved, toVector_toList, getU32_of_slice hpayloadSize, getU32_of_slice hchecksum]

theorem JournalOrder.ofBytes_bytes (o : JournalOrder) (padding : OrderPadding) :
    ofBytes (o.bytes padding) = o := by
  have hid : slice 0 8 (o.bytes padding) = putU64 o.id := by
    simp [bytes, slice_append_left]
  have hsymbol : slice 8 8 (o.bytes padding) = o.symbol.data.toList := by
    simp [bytes, slice_append_right, slice_append_left]
  have hside : slice 16 1 (o.bytes padding) = [o.side] := by
    simp [bytes, slice_append_right, slice_cons_one]
  have htype : slice 17 1 (o.bytes padding) = [o.type] := by
    simp [bytes, slice_append_right, slice_cons_succ, slice_cons_one]
  have htif : slice 18 1 (o.bytes padding) = [o.tif] := by
    simp [bytes, slice_append_right, slice_cons_succ, slice_cons_one]
  have hprice : slice 24 8 (o.bytes padding) = putU64 o.price.toUInt64 := by
    simp [bytes, slice_append_right, slice_cons_succ, slice_append_left]
  have hquantity : slice 32 4 (o.bytes padding) = putU32 o.quantity := by
    simp [bytes, slice_append_right, slice_cons_succ, slice_append_left]
  have htimestamp : slice 40 8 (o.bytes padding) = putU64 o.timestamp := by
    simp [bytes, slice_append_right, slice_cons_succ, slice_self]
  rw [ofBytes, getU64_of_slice hid, hsymbol, toVector_toList, getU8_of_slice hside,
    getU8_of_slice htype, getU8_of_slice htif, getU64_of_slice hprice, Int64.toInt64_toUInt64,
    getU32_of_slice hquantity, getU64_of_slice htimestamp]

theorem JournalTrade.ofBytes_bytes (t : JournalTrade) (padding : TradePadding) :
    ofBytes (t.bytes padding) = t := by
  have hseqNum : slice 0 8 (t.bytes padding) = putU64 t.seqNum := by
    simp [bytes, slice_append_left]
  have hsymbol : slice 8 8 (t.bytes padding) = t.symbol.data.toList := by
    simp [bytes, slice_append_right, slice_append_left]
  have hprice : slice 16 8 (t.bytes padding) = putU64 t.price.toUInt64 := by
    simp [bytes, slice_append_right, slice_append_left]
  have hquantity : slice 24 4 (t.bytes padding) = putU32 t.quantity := by
    simp [bytes, slice_append_right, slice_append_left]
  have hbuy : slice 32 8 (t.bytes padding) = putU64 t.buyOrderId := by
    simp [bytes, slice_append_right, slice_append_left]
  have hsell : slice 40 8 (t.bytes padding) = putU64 t.sellOrderId := by
    simp [bytes, slice_append_right, slice_append_left]
  have haggressor : slice 48 1 (t.bytes padding) = [t.aggressorSide] := by
    simp [bytes, slice_append_right, slice_cons_one]
  rw [ofBytes, getU64_of_slice hseqNum, hsymbol, toVector_toList, getU64_of_slice hprice,
    Int64.toInt64_toUInt64, getU32_of_slice hquantity, getU64_of_slice hbuy, getU64_of_slice hsell,
    getU8_of_slice haggressor]

end Exchange
