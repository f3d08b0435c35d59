import Dexdo.PMP.Proportion
import Dexdo.TokenContract.Timing
import Dexdo.PrivateNote.DebtLock
import Dexdo.OrderBook.Uncrossed
import Dexdo.OrderBook.AllOrNothing
import Dexdo.Oracle.Resolution
import Dexdo.OrderBook.Shutdown
import Dexdo.InferenceBook.Recorded
import Dexdo.InferenceBook.PostOnly
import Dexdo.InferenceBook.FillOrKill
import Dexdo.InferenceBook.Uncrossed
import Dexdo.Indexer.Published
import Dexdo.Indexer.Terminal
import Dexdo.Indexer.Orphans
import Dexdo.TokenContract.Commitment
import Dexdo.Indexer.Watch
import Dexdo.Indexer.DealRow
import Dexdo.Indexer.BookRows
import Dexdo.ReplayProtection
import Dexdo.InferenceBook.Window
import Dexdo.TokenContract.Settlement
import Dexdo.Api.Admission
import Dexdo.InferenceBook.Fifo
import Dexdo.Multisig.Counters
import Dexdo.Multisig.Approval
import Dexdo.RootPN.Gas
import Dexdo.RootPN.Upgrade
import Dexdo.Api.Served
import Dexdo.Api.Signing
import Dexdo.Sdk.History
import Dexdo.Desk.Orders
