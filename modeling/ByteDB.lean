import ByteDB.VersionReads
import ByteDB.SsiSerializable
import ByteDB.StatementFailure
import ByteDB.WriteConflicts
import ByteDB.Vacuum
import ByteDB.IndexRuns
import ByteDB.WalFlips
import ByteDB.Recovery
import ByteDB.KeyScans
import ByteDB.FastAggregates
import ByteDB.AbortedVersions
import ByteDB.ConnectionRuns
import ByteDB.CteTables
import ByteDB.Subqueries
import ByteDB.ConcurrentUpdates
import ByteDB.SpilledRows
import ByteDB.BPlusTreeThreads
import ByteDB.GroupCommitRuns
import ByteDB.LockRuns
import ByteDB.BufferPool
import ByteDB.DeletedKeys
import ByteDB.Backup
import ByteDB.Correlation
import ByteDB.LikeMatch
import ByteDB.SetOperations
import ByteDB.JoinNames
import ByteDB.Conditions
import ByteDB.DatabaseSwitch
import ByteDB.Sequences
import ByteDB.DiskManager
import ByteDB.FreeSpace
import ByteDB.Calendar
import ByteDB.Snapshots
import ByteDB.Blobs
import ByteDB.ParentSearch
