import Comyno.Conc.Machine
import Comyno.Conc.Lock
import Comyno.Conc.Ledger
import Comyno.Conc.Refine
import Comyno.Conc.Broker
import Comyno.Qpid.Receiver
import Comyno.Qpid.Messaging
import Comyno.Qpid.Step
import Comyno.Qpid.Life
import Comyno.Qpid.Ownership
import Comyno.Qpid.Registry
import Comyno.Qpid.ReceiveLock
import Comyno.Qpid.Acknowledge
import Comyno.Qpid.Quiescence
import Comyno.Qpid.Progress
import Comyno.Qpid.FailedClose
import Comyno.Qpid.CallbackStop
import Comyno.Qpid.Terminate
import Comyno.Qpid.Connection
import Comyno.Qpid.Exchanges
import Comyno.Qpid.Refinement
import Comyno.Qpid.Sender
import Comyno.Qpid.SendStatus
import Comyno.Qpid.Escape
import Comyno.Qpid.Broker
import Comyno.Qpid.Redelivery
import Comyno.Qpid.RoundTrip
import Comyno.Pg.ThreadPool
import Comyno.Pg.Client
import Comyno.Pg.Step
import Comyno.Pg.QueueMutex
import Comyno.Pg.CallbackMutex
import Comyno.Pg.Drain
import Comyno.Pg.Tickets
import Comyno.Pg.Accounting
import Comyno.Pg.Destruction
import Comyno.Sql.Literal
import Comyno.Sql.Transaction
import Comyno.Pg.Database
import Comyno.Pg.Dialect
import Comyno.Pg.Persist
import Comyno.Pg.History
import Comyno.Pg.Served
import Comyno.Pg.Completion
import Comyno.Pg.Retrieval
import Comyno.Qpid.Solo
import Comyno.Test.GetInt
import Comyno.Test.Program
import Comyno.Test.Step
import Comyno.Test.Commands
import Comyno.Test.Callback
import Comyno.Test.AutoReply
import Comyno.Test.Traffic
import Comyno.Test.Exit
import Comyno.Text.Istream
import Comyno.Test.Terminal
import Comyno.Conc.Sequential
import Comyno.Test.Dialogue
import Comyno.Test.EndOfInput
import Comyno.Test.Script
import Comyno.Conc.Protocol
import Comyno.Qpid.ReceiverCalls
import Comyno.Qpid.Closes
import Comyno.Qpid.SenderCalls
import Comyno.Conc.Fifo
import Comyno.Conc.Snapshot
import Comyno.Pg.Linear
import Comyno.Pg.Order
import Comyno.Test.Archive
import Comyno.Test.Persisted
import Comyno.Conc.Progress
import Comyno.Pg.Shutdown
import Comyno.Qpid.Return
import Comyno.Qpid.Conservation
import Comyno.Qpid.Processing
