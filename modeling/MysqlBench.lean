import MysqlBench.Dbt2.Counters
import MysqlBench.Dbt2.Datagen
import MysqlBench.Dbt2.Escape
import MysqlBench.Dbt2.InputData
import MysqlBench.Dbt2.NewOrder
import MysqlBench.Dbt2.OrderStatus
import MysqlBench.Dbt2.Payment
import MysqlBench.Dbt2.Routing
import MysqlBench.Dbt2.RoutingInvariants
import MysqlBench.Dbt2.Schema
import MysqlBench.Dbt2.Socket
import MysqlBench.Dbt2.StockLevel
import MysqlBench.Fio.Axmap.Bounds
import MysqlBench.Fio.Axmap.Calls
import MysqlBench.Fio.Axmap.FirstFree
import MysqlBench.Fio.Axmap.Free
import MysqlBench.Fio.Axmap.Hierarchy
import MysqlBench.Fio.Axmap.Model
import MysqlBench.Fio.Axmap.NextFree
import MysqlBench.Fio.Axmap.Refine
import MysqlBench.Fio.Axmap.Runs
import MysqlBench.Fio.Axmap.SetNr
import MysqlBench.Fio.Cconv.Model
import MysqlBench.Fio.Cconv.RoundTrip
import MysqlBench.Fio.Ddir
import MysqlBench.Fio.Ffz
import MysqlBench.Fio.Filelock.Exclusion
import MysqlBench.Fio.Filelock.Model
import MysqlBench.Fio.Iolog.Model
import MysqlBench.Fio.Iolog.Replay
import MysqlBench.Fio.Iolog.Sizes
import MysqlBench.Fio.LatTarget.Model
import MysqlBench.Fio.LatTarget.Search
import MysqlBench.Fio.Lfsr.Model
import MysqlBench.Fio.Lfsr.Permutation
import MysqlBench.Fio.Lfsr.Register
import MysqlBench.Fio.Lfsr.Reset
import MysqlBench.Fio.Lfsr.Taps
import MysqlBench.Fio.Net.Bounds
import MysqlBench.Fio.Net.Fragment
import MysqlBench.Fio.Net.Iolog
import MysqlBench.Fio.Net.Jobline
import MysqlBench.Fio.Net.Model
import MysqlBench.Fio.Net.Sendv
import MysqlBench.Fio.Options.Decimal
import MysqlBench.Fio.RandomMap
import MysqlBench.Fio.Smalloc.Alloc
import MysqlBench.Fio.Smalloc.Blocks
import MysqlBench.Fio.Smalloc.Growth
import MysqlBench.Fio.Smalloc.Model
import MysqlBench.Fio.Smalloc.NextNonFull
import MysqlBench.Fio.Smalloc.Runs
import MysqlBench.Fio.Smalloc.Search
import MysqlBench.Fio.SortedVerify
import MysqlBench.Fio.Stat.Histogram
import MysqlBench.Fio.Stat.Model
import MysqlBench.Fio.Stat.Net
import MysqlBench.Fio.Stat.Percentiles
import MysqlBench.Fio.Stat.Reset
import MysqlBench.Fio.Stat.Slots
import MysqlBench.Fio.StringDistance
import MysqlBench.Fio.Verify.Blocks
import MysqlBench.Fio.Verify.Digest
import MysqlBench.Fio.Verify.Hashes
import MysqlBench.Fio.Verify.Model
import MysqlBench.Fio.Verify.Pattern
import MysqlBench.Fio.Verify.RoundTrip
import MysqlBench.Fio.Verify.Verdicts
import MysqlBench.Fio.Verify.WholeBlocks
import MysqlBench.Lib.Absorb
import MysqlBench.Lib.Assign
import MysqlBench.Lib.Bitmap
import MysqlBench.Lib.Bytes
import MysqlBench.Lib.CString
import MysqlBench.Lib.ClearBits
import MysqlBench.Lib.EditDistance
import MysqlBench.Lib.Galois
import MysqlBench.Lib.Interleave
import MysqlBench.Lib.IntrusiveList
import MysqlBench.Lib.LogBuckets
import MysqlBench.Lib.Loop
import MysqlBench.Lib.Orbit
import MysqlBench.Lib.Pratt
import MysqlBench.Lib.Progression
import MysqlBench.Lib.Qsort
import MysqlBench.Lib.RowLocks
import MysqlBench.Lib.SelectionSort
import MysqlBench.Lib.Shuffle
import MysqlBench.Lib.SqlText
import MysqlBench.Lib.Stdio
import MysqlBench.Lib.Strtol
import MysqlBench.Lib.Table
import MysqlBench.Lib.Transaction
import MysqlBench.Lib.TwoPhase
import MysqlBench.Lib.Wire
import MysqlBench.Lib.Words
import MysqlBench.Sysbench.DbStats.Account
import MysqlBench.Sysbench.DbStats.Model
import MysqlBench.Sysbench.Emulation.Buffer
import MysqlBench.Sysbench.Emulation.Meaning
import MysqlBench.Sysbench.Emulation.Model
import MysqlBench.Sysbench.EventQueue.Fifo
import MysqlBench.Sysbench.EventQueue.Model
import MysqlBench.Sysbench.Fileio.Async
import MysqlBench.Sysbench.Fileio.Model
import MysqlBench.Sysbench.Fileio.RandomRequests
import MysqlBench.Sysbench.Fileio.Schedule
import MysqlBench.Sysbench.Fileio.SeqCheck
import MysqlBench.Sysbench.Fileio.Sequential
import MysqlBench.Sysbench.Fileio.Threads
import MysqlBench.Sysbench.Fileio.Validate
import MysqlBench.Sysbench.Memory
import MysqlBench.Sysbench.Percentile
import MysqlBench.Sysbench.Pgsql.Execute
import MysqlBench.Sysbench.Pgsql.Prepare
import MysqlBench.Sysbench.Random
import MysqlBench.Tpcc.Balance
import MysqlBench.Tpcc.Delivery
import MysqlBench.Tpcc.DeliveryRetry
import MysqlBench.Tpcc.DeliveryThreads
import MysqlBench.Tpcc.Histogram
import MysqlBench.Tpcc.Inputs
import MysqlBench.Tpcc.Load
import MysqlBench.Tpcc.Loaded
import MysqlBench.Tpcc.Locks
import MysqlBench.Tpcc.NewOrder
import MysqlBench.Tpcc.Nodes
import MysqlBench.Tpcc.OrderSide
import MysqlBench.Tpcc.OrderStatus
import MysqlBench.Tpcc.Originals
import MysqlBench.Tpcc.Payment
import MysqlBench.Tpcc.PaymentFrame
import MysqlBench.Tpcc.Permutation
import MysqlBench.Tpcc.Schema
import MysqlBench.Tpcc.Sequence
import MysqlBench.Tpcc.Totals
