import Exchange.Types
import Mathlib.Algebra.Ring.Nat
import Mathlib.Logic.Function.Basic

/-!
# The feed converter

`scripts/parse_feed.py`: a recorded feed of order book messages is turned into commands for the
engine.  For each side there is a dictionary from the prices shown, which are strings, to order ids,
which are made from the side and the fixed-point price.

The dictionaries are functions; nothing goes through their entries in order.  `price_to_fixed` and
`size_to_qty` go by way of `float`, and they are parameters: any two functions to natural numbers,
the prices below `2 ^ 60` (`Conversion`).  The two sides are handled by the same code twice in the
source, and once here.
-/

namespace Exchange.ParseFeed

open Function (update)

/-- `price_to_fixed` and `size_to_qty`. -/
structure Conversion where
  priceToFixed : String → Nat
  sizeToQty : String → Nat
  price_lt : ∀ s, priceToFixed s < 2 ^ 60

/-- An entry of a payload; what follows price and size is not used. -/
structure Entry where
  priceStr : String
  sizeStr : String
deriving DecidableEq, Repr

/-- `"as"` and `"bs"` are the entries of a snapshot, `"a"` and `"b"` those of an update. -/
structure Payload where
  as : Option (List Entry) := none
  bs : Option (List Entry) := none
  a : Option (List Entry) := none
  b : Option (List Entry) := none
deriving DecidableEq, Repr

/-- A line of the recording. -/
inductive Message
  | status
  | array (payload : Payload)
deriving DecidableEq, Repr

inductive CmdType
  | ADD
  | CANCEL
  | REPLACE
deriving DecidableEq, Repr

/-- The fields of `CMD_FMT`. -/
structure Command where
  type : CmdType
  side : Side
  orderId : Nat
  price : Nat
  quantity : Nat
deriving DecidableEq, Repr

/-- `SIDE_BUY` and `SIDE_SELL`. -/
def sideCode : Side → Nat
  | .Buy => 0
  | .Sell => 1

def makeOrderId (side : Side) (priceFixed : Nat) : Nat :=
  (sideCode side <<< 60) ||| (priceFixed &&& 0x0FFFFFFFFFFFFFFF)

/-- `bid_book` and `ask_book`. -/
abbrev Books := Side → String → Option Nat

/-- The variables of the loops. -/
structure FeedState where
  books : Books := fun _ _ => none
  commands : List Command := []

/-- `book[price_str] = oid`, and `book.pop(price_str)` with nothing. -/
def Books.set (books : Books) (side : Side) (priceStr : String) (oid : Option Nat) : Books :=
  update books side (update (books side) priceStr oid)

variable (c : Conversion)

def snapshotEntry (side : Side) (s : FeedState) (e : Entry) : FeedState :=
  let price := c.priceToFixed e.priceStr
  let qty := c.sizeToQty e.sizeStr
  let oid := makeOrderId side price
  { books := s.books.set side e.priceStr (some oid)
    commands := s.commands ++ [⟨.ADD, side, oid, price, qty⟩] }

def updateEntry (side : Side) (s : FeedState) (e : Entry) : FeedState :=
  let price := c.priceToFixed e.priceStr
  let qty := c.sizeToQty e.sizeStr
  if qty = 0 then
    match s.books side e.priceStr with
    | some oid =>
        { books := s.books.set side e.priceStr none
          commands := s.commands ++ [⟨.CANCEL, side, oid, price, 0⟩] }
    | none => s
  else
    match s.books side e.priceStr with
    | some oid => { s with commands := s.commands ++ [⟨.REPLACE, side, oid, price, qty⟩] }
    | none =>
        let oid := makeOrderId side price
        { books := s.books.set side e.priceStr (some oid)
          commands := s.commands ++ [⟨.ADD, side, oid, price, qty⟩] }

/-- One round of the loop over the lines. -/
def message (s : FeedState) : Message → FeedState
  | .status => s
  | .array payload =>
      if payload.as.isSome || payload.bs.isSome then
        let s := (payload.as.getD []).foldl (snapshotEntry c .Sell) s
        (payload.bs.getD []).foldl (snapshotEntry c .Buy) s
      else if payload.a.isSome || payload.b.isSome then
        let s := (payload.a.getD []).foldl (updateEntry c .Sell) s
        (payload.b.getD []).foldl (updateEntry c .Buy) s
      else s

def parseFeed (feed : List Message) : List Command := (feed.foldl (message c) {}).commands

end Exchange.ParseFeed
