import OsCompiler.Lib.Transition
import OsCompiler.Lib.Loop
import OsCompiler.Lib.Region
import OsCompiler.Lib.FlatArray
import OsCompiler.Lib.ByteStream
import OsCompiler.Lib.KeyedErase
import OsCompiler.Lib.KeyedTable
import OsCompiler.Lib.FirstFit
import OsCompiler.Lib.Semaphore
import OsCompiler.Lib.TextLines
import OsCompiler.Lib.Action
import OsCompiler.Lib.Balance
import OsCompiler.Lib.LaneSum
import OsCompiler.Lib.BumpArena
import OsCompiler.Lib.TopK
import OsCompiler.Lib.Tokeniser
import OsCompiler.Lib.Transducer
import OsCompiler.Lib.ResourceLedger
import OsCompiler.Lib.Window
import OsCompiler.Lib.TruncatedStamp
import OsCompiler.Lib.Countdown
import OsCompiler.Lib.FirstLine
import OsCompiler.Nvmsim.Tables
import OsCompiler.Nvmsim.WriteHelper
import OsCompiler.Nvmsim.Accounting
import OsCompiler.Nvmsim.BitmapCount
import OsCompiler.Nvmsim.WearLevel
import OsCompiler.Nvmsim.WearMapping
import OsCompiler.Nvmsim.FreeBlock
import OsCompiler.Nvmsim.Request
import OsCompiler.Nvmsim.Bounds
import OsCompiler.Nvmsim.FlatDisk
import OsCompiler.Nvmsim.SegmentCursor
import OsCompiler.Nvmsim.Statistics
import OsCompiler.Nvmsim.Syncer
import OsCompiler.Nvmsim.Extraction
import OsCompiler.Nvmsim.PagePick
import OsCompiler.Nvmsim.ExtractionMemory
import OsCompiler.Nvmsim.Highmem
import OsCompiler.Nvmsim.ModuleInit
import OsCompiler.Nvmsim.ModuleExit
import OsCompiler.Nvmsim.HighmemLoad
import OsCompiler.Nvmsim.IdleDetection
import OsCompiler.Tdlcd.Fifo
import OsCompiler.Tdlcd.WaitQueue
import OsCompiler.Tdlcd.Readiness
import OsCompiler.Ch6.Tdlcd
import OsCompiler.Tdlcd.Llseek
import OsCompiler.Tdlcd.LoadUnload
import OsCompiler.Tdlbd.XferBio
import OsCompiler.Tdlbd.Requests
import OsCompiler.Tdlbd.LoadUnload
import OsCompiler.TShell.State
import OsCompiler.TShell.Commands
import OsCompiler.TShell.KillTree
import OsCompiler.TShell.Scheduling
import OsCompiler.TShell.Resources
import OsCompiler.TShell.Location
import OsCompiler.TShell.WakeUp
import OsCompiler.TShell.ServeWaiters
import OsCompiler.TShell.Subtree
import OsCompiler.TShell.Runnable
import OsCompiler.TShell.RoundRobin
import OsCompiler.TShell.Parser
import OsCompiler.TShell.Script
import OsCompiler.PhiloProblem.Philo
import OsCompiler.PhiloProblem.Pc
import OsCompiler.PhiloProblem.Completion
import OsCompiler.Csapp.Sbuf
import OsCompiler.Csapp.SbufRuns
import OsCompiler.Csapp.Sio
import OsCompiler.Csapp.Rio
import OsCompiler.Csapp.RioStream
import OsCompiler.Csapp.RioLines
import OsCompiler.LabPy.Lex
import OsCompiler.LabPy.DydFormat
import OsCompiler.LabPy.TokenBoundaries
import OsCompiler.LabPy.LongestMatch
import OsCompiler.LabPy.TokenCount
import OsCompiler.LabPy.ParserState
import OsCompiler.LabPy.LabParser
import OsCompiler.LabPy.Descent
import OsCompiler.LabPy.Frames
import OsCompiler.LabPy.Progress
import OsCompiler.LabPy.LineBreaks
import OsCompiler.LabPy.Crashes
import OsCompiler.LabPy.Scopes
import OsCompiler.LabPy.OpenCalls
import OsCompiler.LabPy.Grammar
import OsCompiler.LabPy.Recognizer
import OsCompiler.LabPy.Acceptance
import OsCompiler.LabPy.Declarations
import OsCompiler.LabPy.Statements
import OsCompiler.LabPy.SymbolTable
import OsCompiler.LabPy.FrontEnd
import OsCompiler.ParserLex.LabLex
import OsCompiler.ParserLex.Tokens
import OsCompiler.ParserLex.Unbounded
import OsCompiler.ParserLex.Buffers
import OsCompiler.ParserLex.Tokenisation
import OsCompiler.ParserLex.TwoLexers
import OsCompiler.ParserLex.Progress
import OsCompiler.ParserLex.ReadSource
import OsCompiler.ParserLex.Capacity
import OsCompiler.ParserLex.Fi
import OsCompiler.Algorithm.InsetSort
import OsCompiler.Algorithm.QuickSort
import OsCompiler.Funds.GridTrading
import OsCompiler.Funds.Exposure
import OsCompiler.TShell.ChildLists
import OsCompiler.LabParser.State
import OsCompiler.LabParser.Procedures
import OsCompiler.LabParser.Runs
import OsCompiler.LabParser.Recovery
import OsCompiler.LabParser.Invariants
import OsCompiler.LabParser.Grammar
import OsCompiler.LabParser.Endless
import OsCompiler.LabParser.Functions
import OsCompiler.LabParser.Following
import OsCompiler.LabParser.Acceptance
import OsCompiler.LabParser.TwoParsers
import OsCompiler.CopyAssitants.Recursive
import OsCompiler.CopyAssitants.Merge
