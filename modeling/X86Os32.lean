import X86Os32.Library.ByteMemory
import X86Os32.Library.Ring
import X86Os32.Library.Tiling
import X86Os32.Debug.Assert
import X86Os32.Utils.MemUtil
import X86Os32.Utils.Heap
import X86Os32.Utils.HeapRepresentation
import X86Os32.Utils.HeapSteps
import X86Os32.Utils.HeapCalls
import X86Os32.Library.Runs
import X86Os32.Utils.HeapRuns
import X86Os32.Utils.HeapContract
import X86Os32.Utils.HeapStaleHeaders
import X86Os32.Utils.HeapDoubleFree
import X86Os32.Utils.HeapStats
import X86Os32.Utils.HeapExhausted
import X86Os32.Utils.HeapContent
import X86Os32.Utils.HeapBlocks
import X86Os32.Utils.HeapNeighbours
import X86Os32.Library.LinkChain
import X86Os32.Object.Queue
import X86Os32.Library.Results
import X86Os32.Meeting.Bellringer
import X86Os32.Thread.Operations
import X86Os32.Thread.Lists
import X86Os32.Thread.Placement
import X86Os32.User.Mutex
import X86Os32.Thread.Effects
import X86Os32.Thread.Moves
import X86Os32.User.MutexRelease
import X86Os32.Thread.Steps
import X86Os32.Thread.Invariants
import X86Os32.Thread.SinglePlace
import X86Os32.Thread.KillFlag
import X86Os32.Meeting.BellLifetime
import X86Os32.Thread.Past
import X86Os32.User.MutexToken
import X86Os32.User.MutexOwnership
import X86Os32.Thread.DestroyOnce
import X86Os32.Syscall.GuardedScheduler
import X86Os32.Library.Calendar
import X86Os32.User.Time
import X86Os32.User.TimeCalendar
import X86Os32.User.TimeArithmetic
import X86Os32.User.Strtol
import X86Os32.Library.CountingSemaphore
import X86Os32.Meeting.SemaphoreAccount
import X86Os32.Library.Timetable
import X86Os32.Meeting.BellTimes
import X86Os32.Object.QueueRefinement
import X86Os32.Meeting.BellClock
import X86Os32.Library.Positional
import X86Os32.Library.Powers
import X86Os32.Object.OStream
import X86Os32.Library.LocalAction
import X86Os32.User.Characters
import X86Os32.Library.Sheet
import X86Os32.Machine.CGAScreen
import X86Os32.Object.BBuffer
import X86Os32.Object.BBufferChannel
import X86Os32.Device.Keyboard
import X86Os32.Guard.Guard
import X86Os32.Guard.Moves
import X86Os32.Guard.Level
import X86Os32.Guard.EpilogueQueue
import X86Os32.Guard.Requests
import X86Os32.Thread.IdlePrograms
import X86Os32.Thread.IdleMoves
import X86Os32.Thread.IdleWakeup
import X86Os32.Device.Watch
import X86Os32.Machine.CGAWindow
import X86Os32.Machine.CGALayout
import X86Os32.Device.CGAStream
import X86Os32.Library.Blocks
import X86Os32.Library.Programs
import X86Os32.User.StringObject
import X86Os32.User.StringContents
import X86Os32.User.StringMethods
import X86Os32.User.StringMachine
import X86Os32.User.StringRuns
import X86Os32.User.StringAliasing
import X86Os32.User.StringShrink
import X86Os32.User.StringStrict
import X86Os32.User.StringShrinkRuns
import X86Os32.User.StringRanges
import X86Os32.User.StringSearch
import X86Os32.Library.Words
import X86Os32.User.StringTokens
import X86Os32.User.StrtolGrammar
import X86Os32.Object.OStreamNumbers
import X86Os32.Library.Dial
import X86Os32.User.TimeHours
import X86Os32.User.RTC
import X86Os32.User.ClockSetting
import X86Os32.User.ClockDisplay
import X86Os32.User.ClockCommands
import X86Os32.Library.LongDivision
import X86Os32.Library.Loops
import X86Os32.Utils.Math
import X86Os32.Utils.Pow
import X86Os32.Device.Windup
import X86Os32.Device.Console
import X86Os32.Device.CursorReport
import X86Os32.User.StringIterator
import X86Os32.User.StringOrder
import X86Os32.Library.HeldKeys
import X86Os32.Machine.KeyDecoder
import X86Os32.Machine.KeyLookups
import X86Os32.Device.KeyboardRead
import X86Os32.Library.DoublyLinked
import X86Os32.User.ShellHistory
import X86Os32.User.ShellEditor
import X86Os32.Library.Roll
import X86Os32.Device.CGARoll
import X86Os32.User.ShellDisplay
import X86Os32.Library.Walks
import X86Os32.Library.AddressSpace
import X86Os32.Machine.SystemConfig
import X86Os32.Machine.MPTable
import X86Os32.Machine.MPSearch
import X86Os32.Machine.MPCounting
import X86Os32.Machine.ACPI
import X86Os32.Machine.IRQMap
import X86Os32.Machine.APICSystem
import X86Os32.Library.Assignments
import X86Os32.Debug.GDBCoding
import X86Os32.Debug.GDBPacket
import X86Os32.Debug.GDBStub
import X86Os32.Debug.GDBSession
import X86Os32.Debug.GDBMemory
import X86Os32.Debug.GDBAnyHost
import X86Os32.Library.Processor
import X86Os32.Machine.Toc
import X86Os32.Machine.Interrupt
import X86Os32.Debug.GDBTrap
import X86Os32.Machine.APBoot
import X86Os32.Library.Bitfields
import X86Os32.Machine.IOAPIC
import X86Os32.Thread.ContextSwitch
import X86Os32.Machine.KeyboardController
import X86Os32.Device.KeyboardLine
import X86Os32.User.ClockTicks
