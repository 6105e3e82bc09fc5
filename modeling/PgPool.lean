import PgPool.Parser.Faithful
import PgPool.Recovery.Awake
import PgPool.Parallel.Inserted
import PgPool.Parallel.Merged
import PgPool.Parallel.Placed
import PgPool.Params.Follows
import PgPool.Pcp.Guarded
import PgPool.Safety.Prepared
import PgPool.Safety.ReadSet
import PgPool.Safety.Completions
import PgPool.Safety.Contexts
import PgPool.Safety.Inheritance
import PgPool.Stream.Peek
import PgPool.Failover.Named
import PgPool.Relay.Mismatch
import PgPool.Serial.Order
import PgPool.Serial.Marks
import PgPool.Failover.Master
import PgPool.Recovery.Counter
import PgPool.Reset.Ends
import PgPool.Timestamp.Numbers
import PgPool.Timestamp.Clocks
import PgPool.Memory.Arena
import PgPool.Memory.Calls
import PgPool.Memory.Freed
import PgPool.Timestamp.Bound
import PgPool.Auth.Sound
import PgPool.Proto2.Run
import PgPool.Majority.Victims
import PgPool.Majority.Kinds
import PgPool.Parallel.Field
import PgPool.Internal.ParseBeforeBind
import PgPool.Timestamp.Bind
import PgPool.Internal.ErrorExecute
import PgPool.Internal.Transactions
import PgPool.Internal.Decoded
import PgPool.Timestamp.Alignment
import PgPool.Query.TempTables
import PgPool.Stream.Writes
import PgPool.Stream.SeverityMessage
import PgPool.Query.AccessMode
import PgPool.Auth.Startup
import PgPool.Query.RelCacheSound
import PgPool.Session.Balance
import PgPool.Query.FunctionCalls
import PgPool.Cache.Timer
import PgPool.Auth.PoolPasswd
import PgPool.Hba.Check
import PgPool.Hba.Reload
import PgPool.Parser.Composed
import PgPool.Pcp.Codec
import PgPool.Query.CacheBuffer
import PgPool.Query.StandbyDelay
import PgPool.Timestamp.Parse
import PgPool.Cache.Cancel
import PgPool.Hba.FirstMatch
import PgPool.Memory.Frame
import PgPool.Memory.Strings
import PgPool.Lib.Arrays
import PgPool.Parallel.Joins
import PgPool.Proto.LargeObject
import PgPool.Proto.Bounds
import PgPool.Parallel.Nested
import PgPool.Parallel.Survives
import PgPool.Lib.Aggregates
import PgPool.Lib.Partition
import PgPool.Parallel.Pushdown
import PgPool.Parallel.Pushed
import PgPool.Lib.OuterJoin
import PgPool.Parallel.Restricted
import PgPool.Internal.Reported
import PgPool.Failover.Health
import PgPool.Failover.Command
import PgPool.Failover.Restart
import PgPool.Pcp.Login
import PgPool.ConfigFile.Kept
import PgPool.ConfigFile.Written
import PgPool.Query.CacheRows
import PgPool.Hba.Authenticate
