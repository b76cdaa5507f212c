import Wittche.Lib.Bytes
import Wittche.Lib.Scan
import Wittche.Lib.Bitmap
import Wittche.Lib.Execution
import Wittche.Lib.Ledger
import Wittche.Lib.Segments
import Wittche.Lib.RingBuffer
import Wittche.Lib.Tables
import Wittche.Lib.Traced
import Wittche.Lib.AddressSpace
import Wittche.Lib.Recorded
import Wittche.Lib.Editor
import Wittche.Lib.Recent
import Wittche.Lib.CommonPrefix
import Wittche.Lib.Numerals
import Wittche.Lib.Words
import Wittche.Lib.Stack
import Wittche.Heap.Model
import Wittche.Heap.Refinement
import Wittche.Heap.Invariant
import Wittche.Heap.DoubleFree
import Wittche.Heap.FirstFit
import Wittche.Heap.Blocks
import Wittche.Heap.Realloc
import Wittche.Heap.Canonical
import Wittche.Pmm.Model
import Wittche.Pmm.Search
import Wittche.Pmm.Contiguous
import Wittche.Pmm.Bookkeeping
import Wittche.Pmm.HeapOverlap
import Wittche.Paging.Model
import Wittche.Paging.Entries
import Wittche.Paging.Spaces
import Wittche.Paging.Isolation
import Wittche.Paging.UserPages
import Wittche.Paging.UserAccess
import Wittche.Paging.Scarcity
import Wittche.CString
import Wittche.Strings.Splitting
import Wittche.Fs.Disk
import Wittche.Heap.Ramdisk
import Wittche.Fs.Model
import Wittche.Fs.Layout
import Wittche.Fs.View
import Wittche.Fs.Consistency
import Wittche.Fs.Allocation
import Wittche.Fs.Directory
import Wittche.Fs.Names
import Wittche.Fs.Transfer
import Wittche.Fs.Write
import Wittche.Fs.Mount
import Wittche.Fs.Invariant
import Wittche.Fs.Runs
import Wittche.Fs.Namespace
import Wittche.Fs.Contents
import Wittche.Fs.Root
import Wittche.Fs.Isolation
import Wittche.Fs.HeapUse
import Wittche.Fs.Counters
import Wittche.Fs.Persistence
import Wittche.Fs.Remount
import Wittche.Fs.FailedCreate
import Wittche.Fs.ReadBounds
import Wittche.Fs.FailedMount
import Wittche.Fs.Volumes
import Wittche.Fs.CreatedNames
import Wittche.Fs.FailedOpen
import Wittche.Fs.Capacity
import Wittche.Fs.Listing
import Wittche.Screen.Model
import Wittche.Screen.Safety
import Wittche.Screen.Drawing
import Wittche.Screen.Rendering
import Wittche.Screen.Terminal
import Wittche.Kprintf.Model
import Wittche.Kprintf.Format
import Wittche.Keyboard.GetLine
import Wittche.Keyboard.Driver
import Wittche.Keyboard.Queue
import Wittche.Keyboard.Decoding
import Wittche.Shell.Files
import Wittche.Shell.History
import Wittche.Shell.CommandLine
import Wittche.Shell.FileTypes
import Wittche.Shell.WriteCommand
import Wittche.Shell.FileCommands
import Wittche.Shell.FileSession
import Wittche.Shell.GetLine
import Wittche.Shell.LineEditing
import Wittche.Shell.Completion
import Wittche.Shell.TabCompletion
import Wittche.Shell.Echo
import Wittche.Shell.MainLoop
import Wittche.Shell.Typing
import Wittche.Shell.MemoryTest
import Wittche.Boot.Loader
import Wittche.Process.Model
import Wittche.Process.Switch
import Wittche.Process.ContextSwitch
import Wittche.Interrupt.Descriptors
import Wittche.Interrupt.Stubs
import Wittche.Interrupt.Frames
import Wittche.Interrupt.Transparency
import Wittche.Interrupt.SystemCalls
import Wittche.Process.Table
import Wittche.Process.Schedule
import Wittche.Process.Turnover
import Wittche.Process.Create
import Wittche.Process.Exit
import Wittche.Process.Runs
import Wittche.Shell.JobControl
import Wittche.Strings.Conversion
import Wittche.Strings.Building
import Wittche.Kprintf.Printers
import Wittche.Process.Release
import Wittche.Process.Fairness
import Wittche.Process.Interrupts
import Wittche.Process.Messages
import Wittche.Process.Exchange
import Wittche.Process.LongRuns
import Wittche.Process.Sleep
import Wittche.Process.Balance
import Wittche.Process.StaleMemory
import Wittche.Process.UserMode
import Wittche.Process.UserRuns
import Wittche.Process.UserCreation
import Wittche.Process.Shortage
import Wittche.Syscall.Model
import Wittche.Syscall.Confinement
