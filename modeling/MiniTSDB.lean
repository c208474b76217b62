import MiniTSDB.Alarm.AlarmEngine
import MiniTSDB.Auth.AuthManager
import MiniTSDB.Auth.Calls
import MiniTSDB.Auth.LastAdmin
import MiniTSDB.Auth.RoundTrip
import MiniTSDB.Auth.Sessions
import MiniTSDB.Auth.Sha256
import MiniTSDB.Auth.Sha256Standard
import MiniTSDB.Auth.Sha256Stream
import MiniTSDB.Auth.UserFile
import MiniTSDB.Cache.LatestCache
import MiniTSDB.Common.Types
import MiniTSDB.Lib.Bits
import MiniTSDB.Lib.BlockStream
import MiniTSDB.Lib.Decimal
import MiniTSDB.Lib.Delta
import MiniTSDB.Lib.Fields
import MiniTSDB.Lib.Framing
import MiniTSDB.Lib.GroupFold
import MiniTSDB.Lib.Keep
import MiniTSDB.Lib.LastWrite
import MiniTSDB.Lib.Local
import MiniTSDB.Lib.Related
import MiniTSDB.Lib.Returns
import MiniTSDB.Lib.Runs
import MiniTSDB.Lib.Search
import MiniTSDB.Lib.Sha2
import MiniTSDB.Lib.SortedUnique
import MiniTSDB.Lib.TableCrc
import MiniTSDB.Os.Dir
import MiniTSDB.Os.File
import MiniTSDB.Os.MakeDirs
import MiniTSDB.Os.Tree
import MiniTSDB.Os.Walk
import MiniTSDB.Server.BucketWidth
import MiniTSDB.Server.Insert
import MiniTSDB.Server.KeywordCase
import MiniTSDB.Server.Query
import MiniTSDB.Server.Treatment
import MiniTSDB.Snapshot.CrashAtomic
import MiniTSDB.Snapshot.LatestStores
import MiniTSDB.Snapshot.SaveLoop
import MiniTSDB.Snapshot.SaveRetry
import MiniTSDB.Snapshot.SnapshotStore
import MiniTSDB.Sql.Ast
import MiniTSDB.Sql.Between
import MiniTSDB.Sql.CaseBlind
import MiniTSDB.Sql.ClauseEnds
import MiniTSDB.Sql.Containment
import MiniTSDB.Sql.Ddl
import MiniTSDB.Sql.DeleteFrame
import MiniTSDB.Sql.Dml
import MiniTSDB.Sql.DropDatabase
import MiniTSDB.Sql.DropErases
import MiniTSDB.Sql.Executor
import MiniTSDB.Sql.FixedWords
import MiniTSDB.Sql.Insert
import MiniTSDB.Sql.Isolation
import MiniTSDB.Sql.Keywords
import MiniTSDB.Sql.LetterCase
import MiniTSDB.Sql.Literals
import MiniTSDB.Sql.Operations
import MiniTSDB.Sql.Parser
import MiniTSDB.Sql.ParserLoops
import MiniTSDB.Sql.ParserTotal
import MiniTSDB.Sql.Registration
import MiniTSDB.Sql.TagLiteral
import MiniTSDB.Sql.Text
import MiniTSDB.Sql.UpdateFrame
import MiniTSDB.Storage.Aggregate
import MiniTSDB.Storage.BitBuffer
import MiniTSDB.Storage.BlockCompressor
import MiniTSDB.Storage.Compaction
import MiniTSDB.Storage.CompactionSafety
import MiniTSDB.Storage.Crc32
import MiniTSDB.Storage.DataPaths
import MiniTSDB.Storage.Durability
import MiniTSDB.Storage.Engine
import MiniTSDB.Storage.Flush
import MiniTSDB.Storage.FlushFaults
import MiniTSDB.Storage.Kept
import MiniTSDB.Storage.LatestRecovery
import MiniTSDB.Storage.MemTable
import MiniTSDB.Storage.Namespace
import MiniTSDB.Storage.RangeQuery
import MiniTSDB.Storage.ReadYourWrites
import MiniTSDB.Storage.Recovery
import MiniTSDB.Storage.Rewrites
import MiniTSDB.Storage.SSTable
import MiniTSDB.Storage.SSTableOpen
import MiniTSDB.Storage.TagDir
import MiniTSDB.Storage.TierManager
import MiniTSDB.Storage.TierReads
import MiniTSDB.Storage.TierLife
import MiniTSDB.Storage.TimestampCompressor
import MiniTSDB.Storage.ValueBounds
import MiniTSDB.Storage.ValueEncoder
import MiniTSDB.Storage.Wal
import MiniTSDB.Storage.WalBounds
import MiniTSDB.Storage.WalWriter
import MiniTSDB.Sql.InsertText
import MiniTSDB.Lib.Double
import MiniTSDB.Lib.Numeral
import MiniTSDB.Alarm.Condition
import MiniTSDB.Alarm.RateLimit
import MiniTSDB.Lib.Calendar
import MiniTSDB.Sql.TimeText
import MiniTSDB.Server.TagQuery
import MiniTSDB.Server.OrderLimit
import MiniTSDB.Server.Unbounded
import MiniTSDB.Sql.InsertLiterals
import MiniTSDB.Cache.MatchPattern
import MiniTSDB.Snapshot.MatchPattern
import MiniTSDB.Cache.History
import MiniTSDB.Cache.TableScans
import MiniTSDB.Server.SnapshotCount
import MiniTSDB.Cli.ScriptLoop
import MiniTSDB.Cli.Script
import MiniTSDB.Lib.Purge
import MiniTSDB.Server.Service
import MiniTSDB.Server.Silent
import MiniTSDB.Server.Accounts
import MiniTSDB.Server.WriteLog
import MiniTSDB.Os.Listing
import MiniTSDB.Sql.Catalog
import MiniTSDB.Server.Shows
import MiniTSDB.Lib.Csv
import MiniTSDB.Lib.Json
import MiniTSDB.Server.Rectangular
import MiniTSDB.Cli.Output
import MiniTSDB.Common.Config
import MiniTSDB.Sql.Cursor
import MiniTSDB.Sql.StatementText
import MiniTSDB.Alarm.Watch
import MiniTSDB.Server.Alarms
import MiniTSDB.Auth.Restarts
import MiniTSDB.Storage.Background
import MiniTSDB.Os.Copy
import MiniTSDB.Storage.TierCopy
