/-!
# The value types of the exchange

`include/core/types.hpp` and `trade.hpp`: fixed-width integers where the source has
them (a `Price` is an `int64_t`, a `Quantity` a `uint32_t` whose subtraction wraps), enumerations as
inductive types, records as structures.  `std::memcmp`, padding and byte layout play no part in the
order book and are left out.
-/

namespace Exchange

/-! ## `types.hpp` -/

abbrev Price := Int64
abbrev Quantity := UInt32
abbrev OrderId := UInt64
abbrev SequenceNum := UInt64
abbrev Timestamp := UInt64

/-- `PRICE_SCALE`: four decimal places. -/
def priceScale : Price := 10000

/-- `INVALID_PRICE`, the largest `int64_t`: "no price". -/
def invalidPrice : Price := Int64.maxValue

theorem lt_or_eq_invalid (p : Price) : p < invalidPrice ∨ p = invalidPrice := by
  have hle := p.toInt_le
  rw [Int64.lt_iff_toInt_lt, ← Int64.toInt_inj]
  simp only [invalidPrice]
  omega

theorem toInt_quantity (q : Quantity) : q.toUInt64.toInt64.toInt = q.toNat := by
  have hlt := q.toNat_lt
  show q.toUInt64.toBitVec.toInt = q.toNat
  rw [BitVec.toInt_eq_toNat_of_lt]
  · rfl
  · show 2 * q.toUInt64.toNat < 2 ^ 64
    rw [UInt32.toNat_toUInt64]
    omega

/-- `INVALID_ORDER_ID`. -/
def invalidOrderId : OrderId := 0

/-- `struct Symbol`: eight characters. -/
structure Symbol where
  data : Vector UInt8 8
deriving DecidableEq, Repr

/-- `Symbol(const char *)`: up to seven characters, then zeros. -/
def Symbol.ofChars (s : List UInt8) : Symbol :=
  ⟨Vector.ofFn fun i => ((s.takeWhile (· ≠ 0)).take 7)[i]?.getD 0⟩

inductive Side
  | Buy
  | Sell
deriving DecidableEq, Repr

/-- The other side of the book. -/
def Side.opposite : Side → Side
  | .Buy => .Sell
  | .Sell => .Buy

@[simp] theorem Side.opposite_ne (s : Side) : s.opposite ≠ s := by cases s <;> simp [opposite]

inductive OrderType
  | Limit
  | Market
  | ImmediateOrCancel
  | FillOrKill
  | PostOnly
deriving DecidableEq, Repr

inductive TimeInForce
  | Day
  | GoodTillCancel
  | ImmediateOrCancel
  | FillOrKill
deriving DecidableEq, Repr

inductive OrderStatus
  | New
  | PartiallyFilled
  | Filled
  | Cancelled
  | Rejected
deriving DecidableEq, Repr

/-! ## `trade.hpp` -/

structure Trade where
  seqNum : SequenceNum
  symbol : Symbol
  price : Price
  quantity : Quantity
  buyOrderId : OrderId
  sellOrderId : OrderId
  timestamp : Timestamp
  aggressorSide : Side
deriving DecidableEq, Repr

structure BBOUpdate where
  symbol : Symbol
  bidPrice : Price
  bidQty : Quantity
  askPrice : Price
  askQty : Quantity
  timestamp : Timestamp
deriving DecidableEq, Repr

structure PriceLevelUpdate where
  price : Price
  quantity : Quantity
  orderCount : UInt32
deriving DecidableEq, Repr

structure ExecutionReport where
  orderId : OrderId
  execId : OrderId
  symbol : Symbol
  side : Side
  status : OrderStatus
  price : Price
  orderQty : Quantity
  filledQty : Quantity
  leavesQty : Quantity
  avgPrice : Price
  timestamp : Timestamp
  lastPrice : Price
  lastQty : Quantity
deriving DecidableEq, Repr

inductive RejectReason
  | None
  | UnknownSymbol
  | InvalidPrice
  | InvalidQuantity
  | OrderNotFound
  | WouldCross
  | DuplicateOrderId
  | ExchangeClosed
  | RateLimitExceeded
  | InsufficientFunds
deriving DecidableEq, Repr

/-- `struct OrderResult` of `order_book.hpp`; the defaults are those of `OrderResult result{}`. -/
structure OrderResult where
  success : Bool := false
  rejectReason : RejectReason := .None
  orderId : OrderId := 0
  filledQty : Quantity := 0
  avgFillPrice : Price := 0
deriving DecidableEq, Repr

end Exchange
