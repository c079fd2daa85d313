import Exchange.Agents.MidPrice
import Exchange.Agents.PositionLimit
import Exchange.Agents.Quoting
import Exchange.Agents.Simulation
import Exchange.Agents.Totals
import Exchange.Agents.Withdrawal
import Exchange.Core.Greedy
import Exchange.Core.Ladder
import Exchange.Engine.Lifetime
import Exchange.Engine.Numbering
import Exchange.Engine.Queued
import Exchange.Engine.Results
import Exchange.Engine.Running
import Exchange.Engine.Sharding
import Exchange.Engine.TradeCount
import Exchange.Engine.Volume
import Exchange.Histogram.Merge
import Exchange.Histogram.Percentile
import Exchange.Journal.Checksum
import Exchange.Journal.Cursor
import Exchange.Journal.Durability
import Exchange.Journal.Padding
import Exchange.Journal.Process
import Exchange.Journal.Reexecution
import Exchange.Journal.Replaying
import Exchange.Journal.RoundTrip
import Exchange.Journal.Seeking
import Exchange.Journal.Sessions
import Exchange.Journal.Stopping
import Exchange.OrderBook.AveragePrice
import Exchange.OrderBook.BatchedTrades
import Exchange.OrderBook.BestExecution
import Exchange.OrderBook.Cancel
import Exchange.OrderBook.Conservation
import Exchange.OrderBook.FairTrades
import Exchange.OrderBook.Ids
import Exchange.OrderBook.LevelTotals
import Exchange.OrderBook.Liquidity
import Exchange.OrderBook.MarketByPrice
import Exchange.OrderBook.OpenQuantity
import Exchange.OrderBook.Pending
import Exchange.OrderBook.PostOnly
import Exchange.OrderBook.Priority
import Exchange.OrderBook.Quotes
import Exchange.OrderBook.Refinement
import Exchange.OrderBook.Rejection
import Exchange.OrderBook.Replace
import Exchange.OrderBook.Reports
import Exchange.OrderBook.SelfTrade
import Exchange.OrderBook.Sentinel
import Exchange.OrderBook.Slicing
import Exchange.OrderBook.Snapshot
import Exchange.OrderBook.Symmetry
import Exchange.PriceLevel.Fifo
import Exchange.PriceLevel.Lifetime
import Exchange.Replay.File
import Exchange.Replay.Kraken
import Exchange.Replay.Market
import Exchange.Replay.WellFormed
import Exchange.SpscQueue.Concurrent
