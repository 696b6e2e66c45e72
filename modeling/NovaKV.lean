import NovaKV.Format.BloomFilter
import NovaKV.Format.Building
import NovaKV.Format.Damaged
import NovaKV.Format.Entries
import NovaKV.Format.Layout
import NovaKV.Format.Lengths
import NovaKV.Format.RoundTrip
import NovaKV.Format.SSTableBuilder
import NovaKV.Format.SSTableReader
import NovaKV.Lib.Conflicts
import NovaKV.Lib.CrashHoare
import NovaKV.Lib.Crc
import NovaKV.Lib.Decimal
import NovaKV.Lib.Fetch
import NovaKV.Lib.LittleEndian
import NovaKV.Lib.Lookup
import NovaKV.Lib.LowerBound
import NovaKV.Lib.Overwrite
import NovaKV.Lib.Progress
import NovaKV.Lib.Resumable
import NovaKV.Lib.SortedMap
import NovaKV.Lib.Unordered
import NovaKV.Manifest.Codec
import NovaKV.Manifest.Fallback
import NovaKV.Manifest.Manager
import NovaKV.Manifest.Recovery
import NovaKV.Manifest.Rejected
import NovaKV.Manifest.Reopen
import NovaKV.Manifest.RoundTrip
import NovaKV.Manifest.Session
import NovaKV.Manifest.State
import NovaKV.Manifest.TornTail
import NovaKV.Manifest.Words
import NovaKV.Memory.Burst
import NovaKV.Memory.Calls
import NovaKV.Memory.Checksum
import NovaKV.Memory.Deletion
import NovaKV.Memory.Insertion
import NovaKV.Memory.LogFile
import NovaKV.Memory.MemTable
import NovaKV.Memory.OrderedMap
import NovaKV.Memory.SkipList
import NovaKV.Memory.TornLog
import NovaKV.Memory.Towers
import NovaKV.Memory.WalHandler
import NovaKV.Network.Arithmetic
import NovaKV.Network.Buffer
import NovaKV.Network.ByteQueue
import NovaKV.Network.Chunking
import NovaKV.Network.ClientView
import NovaKV.Network.Connection
import NovaKV.Network.Dispatch
import NovaKV.Network.Drain
import NovaKV.Network.Draining
import NovaKV.Network.Encoder
import NovaKV.Network.EventLoop
import NovaKV.Network.Executor
import NovaKV.Network.Framing
import NovaKV.Network.Grammar
import NovaKV.Network.Journal
import NovaKV.Network.Language
import NovaKV.Network.Linearization
import NovaKV.Network.Parser
import NovaKV.Network.Pipelined
import NovaKV.Network.Registered
import NovaKV.Network.ResponseStream
import NovaKV.Network.Sequential
import NovaKV.Network.Server
import NovaKV.Network.Service
import NovaKV.Network.Serving
import NovaKV.Network.Shutdown
import NovaKV.Network.Storage
import NovaKV.Network.ThreadPool
import NovaKV.Network.Tracking
import NovaKV.Store.Boot
import NovaKV.Store.Bootstrap
import NovaKV.Store.CleanClose
import NovaKV.Store.Closing
import NovaKV.Store.CompactStep
import NovaKV.Store.Compaction
import NovaKV.Store.ConsumeOrder
import NovaKV.Store.CrashRecovery
import NovaKV.Store.DBImpl
import NovaKV.Store.Directory
import NovaKV.Store.Disk
import NovaKV.Store.Events
import NovaKV.Store.Files
import NovaKV.Store.Filling
import NovaKV.Store.FlushRequest
import NovaKV.Store.FlushStep
import NovaKV.Store.History
import NovaKV.Store.Image
import NovaKV.Store.InStep
import NovaKV.Store.InstallCrash
import NovaKV.Store.InstallStep
import NovaKV.Store.Invariant
import NovaKV.Store.Iterator
import NovaKV.Store.LastWriteWins
import NovaKV.Store.Levels
import NovaKV.Store.Listing
import NovaKV.Store.Merge
import NovaKV.Store.Mismatch
import NovaKV.Store.Numbers
import NovaKV.Store.Opening
import NovaKV.Store.PutStep
import NovaKV.Store.Recovery
import NovaKV.Store.Remnant
import NovaKV.Store.Reopening
import NovaKV.Store.Replay
import NovaKV.Store.ReplayStep
import NovaKV.Store.Restart
import NovaKV.Store.Retired
import NovaKV.Store.Run
import NovaKV.Store.Scan
import NovaKV.Store.Session
import NovaKV.Store.Table
import NovaKV.Store.Threads
import NovaKV.Store.Tidy
import NovaKV.Store.Tombstones
import NovaKV.Store.Transition
import NovaKV.Store.View
import NovaKV.ValueRecord
