import Pview.Foundation.Fuel
import Pview.Foundation.Groups
import Pview.Foundation.Components
import Pview.Foundation.Occurrences
import Pview.Foundation.StdString
import Pview.Foundation.DepthFirst
import Pview.Foundation.PrimaryKey
import Pview.Foundation.Allocation
import Pview.Foundation.Tickets
import Pview.Foundation.Retry
import Pview.Foundation.Transaction
import Pview.Foundation.Transition
import Pview.Foundation.CondVar
import Pview.Foundation.Termination
import Pview.MySQL.Literal
import Pview.MySQL.Connection
import Pview.MySQL.MultiDml
import Pview.MySQL.Atomicity
import Pview.MySQL.Tables
import Pview.MySQL.Filepaths
import Pview.Indexer.Symbols
import Pview.Indexer.SourcePath
import Pview.Indexer.ProjectRoot
import Pview.Indexer.StrUtils
import Pview.Indexer.StringDelimiter
import Pview.Indexer.ReplaceString
import Pview.Indexer.AnonymousNames
import Pview.Indexer.SQL
import Pview.Indexer.Literals
import Pview.Indexer.Statements
import Pview.Indexer.Store
import Pview.Indexer.SymbolTables
import Pview.Indexer.LongNames
import Pview.Indexer.IdCounters
import Pview.Prepare.Projects
import Pview.Prepare.OneProject
import Pview.Query.CallPath
import Pview.Query.CalleeCaller
import Pview.Query.CallPathRequest
import Pview.Query.ThrowPath
import Pview.Query.SearchQueries
import Pview.Exceptions.ExceptionInfo
import Pview.Exceptions.Analyzer
import Pview.Exceptions.Behaviour
import Pview.Exceptions.Findings
import Pview.Exceptions.LevelLimit
import Pview.Exceptions.Reports
import Pview.Exceptions.Semantics
import Pview.Exceptions.Places
import Pview.Exceptions.CutOff
import Pview.Exceptions.FalsePositives
import Pview.Exceptions.MissedThrows
import Pview.Tasks.ThreadPool
import Pview.Tasks.Drain
import Pview.Tasks.PoolWakeup
import Pview.Tasks.MaxDop
import Pview.Tasks.PoolProgress
import Pview.Tasks.ParseLoops
import Pview.Queue.IndexQueue
import Pview.Queue.Fifo
import Pview.Queue.Wakeup
import Pview.Queue.BackPressure
import Pview.Queue.Progress
import Pview.Reindex.IncludeAnalyzer
import Pview.Reindex.EditHistory
import Pview.Reindex.NoMissedUpdate
import Pview.Pipeline.System
import Pview.Pipeline.UpToDate
import Pview.Pipeline.Redefinition
import Pview.Pipeline.Confluence
import Pview.Pipeline.UnitIsolation
import Pview.Pipeline.CallEvents
import Pview.FileIds.System
import Pview.FileIds.Ownership
import Pview.FileIds.Integrity
import Pview.FileIds.Agreement
import Pview.Shutdown.DoIndexing
import Pview.Shutdown.Delivered
import Pview.Shutdown.LeftBehind
import Pview.Shutdown.Serving
import Pview.Shutdown.Pooled
import Pview.Shutdown.Underway
import Pview.Shutdown.Placement
import Pview.Shutdown.Termination
import Pview.Shutdown.Completes
import Pview.Foundation.Program
import Pview.Startup.MYSQLMgr
import Pview.Startup.Main
import Pview.Startup.Processes
import Pview.Startup.Children
import Pview.Startup.CommandLines
import Pview.Startup.Supervision
import Pview.Startup.Order
import Pview.Foundation.LittleEndian
import Pview.Hash.SipHash
import Pview.Hash.Digest
import Pview.Foundation.Inventory
import Pview.Pipeline.SymbolIds
import Pview.Pipeline.Answers
import Pview.Pipeline.ThrowAnswers
