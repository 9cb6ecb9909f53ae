import IronCondor.Lib.Checked

/-! # The typed error boundary

Each kind carries the offending value; the string of a kind is the text after its prefix. -/
namespace IronCondor

/-- `BacktestError`. -/
inductive BacktestError where
  | InvalidQuantity (quantity : Int)
  | CrossedQuote (bid ask : Int)
  | PriceNotTickAligned (price tick : Int)
  | DataOutOfOrder (step ts prev : Int)
  | TapeTooLarge (limit : String) (value cap : Int)
  | Config (msg : String)
  | DataIo (msg : String)
  | Data (msg : String)
  | Conversion (msg : String)
  | Session (msg : String)
  | Execution (msg : String)
  | OrderBook (msg : String)
  | Strategy (msg : String)
  | Bundle (msg : String)
  | ArithmeticOverflow
deriving DecidableEq, Repr

/-- The rendered message of an error. -/
def BacktestError.display : BacktestError → String
  | .InvalidQuantity quantity => s!"invalid quantity: {quantity}"
  | .CrossedQuote bid ask => s!"crossed quote: bid {bid} > ask {ask}"
  | .PriceNotTickAligned price tick => s!"price {price} not aligned to tick {tick}"
  | .DataOutOfOrder step ts prev =>
    s!"data out of order: step {step} ts {ts} not strictly after previous {prev}"
  | .TapeTooLarge limit value cap => s!"tape too large: {limit} = {value} exceeds cap {cap}"
  | .Config msg => "config: " ++ msg
  | .DataIo msg => "data source io: " ++ msg
  | .Data msg => "malformed data: " ++ msg
  | .Conversion msg => "chain conversion: " ++ msg
  | .Session msg => "simulator session: " ++ msg
  | .Execution msg => "execution: " ++ msg
  | .OrderBook msg => "orderbook: " ++ msg
  | .Strategy msg => "strategy: " ++ msg
  | .Bundle msg => "bundle write: " ++ msg
  | .ArithmeticOverflow => "arithmetic overflow"

/-- A fallible operation of the crate. -/
abbrev Outcome := Except BacktestError

/-- A checked machine operation: overflow is a typed error, never a wrap. -/
abbrev checked (r : Checked.IntRange) (x : Int) : Outcome (Checked.Bounded r) :=
  Checked.narrow r BacktestError.ArithmeticOverflow x

end IronCondor
