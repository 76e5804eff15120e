import CryptoHft.Lib.OrderedMap
import CryptoHft.Lib.Machine
import CryptoHft.Lib.ProducerQueue
import CryptoHft.Lib.SharedReads
import CryptoHft.Lib.Outcome
import CryptoHft.Lib.Json
import CryptoHft.Lib.CharStream
import CryptoHft.Lib.Yaml
import CryptoHft.Lib.Escape
import CryptoHft.Lib.SetUpdates
import CryptoHft.Core.Ladder
import CryptoHft.Core.OrderBook
import CryptoHft.Core.OrderBookHistory
import CryptoHft.Exchanges.IExchangeAdapter
import CryptoHft.Core.MarketDataEngine
import CryptoHft.Core.Delta
import CryptoHft.Core.Snapshot
import CryptoHft.Core.OrderBookReads
import CryptoHft.Core.Session
import CryptoHft.Core.Calls
import CryptoHft.Core.LevelLists
import CryptoHft.Core.EmptyLevels
import CryptoHft.Core.Spread
import CryptoHft.Core.CumulativeVolume
import CryptoHft.Core.Tightening
import CryptoHft.Exchanges.Levels
import CryptoHft.Exchanges.Adapter
import CryptoHft.Exchanges.CoinbaseAdapter
import CryptoHft.Exchanges.KrakenAdapter
import CryptoHft.Exchanges.BinanceAdapter
import CryptoHft.Exchanges.Exchange
import CryptoHft.Exchanges.Connection
import CryptoHft.Exchanges.ReadLoop
import CryptoHft.Exchanges.Reconnect
import CryptoHft.Exchanges.FailedConnects
import CryptoHft.Exchanges.Deliveries
import CryptoHft.Exchanges.Threads
import CryptoHft.Exchanges.Destruction
import CryptoHft.Exchanges.Writes
import CryptoHft.Exchanges.Streams
import CryptoHft.Exchanges.Authentication
import CryptoHft.Exchanges.Access
import CryptoHft.Exchanges.Documents
import CryptoHft.Exchanges.KrakenChannels
import CryptoHft.Exchanges.Handlers
import CryptoHft.Exchanges.Wire
import CryptoHft.Exchanges.MockExchangeAdapter
import CryptoHft.Exchanges.ExecutionReports
import CryptoHft.Exchanges.Fills
import CryptoHft.Exchanges.MarketDataSimulation
import CryptoHft.Infra.ConfigManager
import CryptoHft.Infra.Lookup
import CryptoHft.Infra.Keys
import CryptoHft.Infra.Loads
import CryptoHft.Infra.Defaults
import CryptoHft.Utils.EnvFile
import CryptoHft.Utils.Bindings
import CryptoHft.Utils.CoinbaseJwt
import CryptoHft.Core.TradingSystem
import CryptoHft.Core.Restarts
import CryptoHft.Core.Parallel
import CryptoHft.Core.Serial
import CryptoHft.Core.Progress
import CryptoHft.Core.Replica
import CryptoHft.Core.Sharing
import CryptoHft.Exchanges.Feed
import CryptoHft.Exchanges.Wiring
import CryptoHft.Core.Program
