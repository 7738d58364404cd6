import Nachos.Verification.BitMap.Semantics
import Nachos.Library.CStrings
import Nachos.Library.Numerals
import Nachos.Library.Runs
import Nachos.Library.Tracking
import Nachos.Model.Synch
import Nachos.Model.Exception
import Nachos.Verification.Exception.ProgramCounter
import Nachos.Model.AddrSpace
import Nachos.Model.Constructors
import Nachos.Model.Coff
import Nachos.Verification.AddrSpace.OutOfMemory
import Nachos.Verification.AddrSpace.Sizing
import Nachos.Verification.Coff.Preservation
import Nachos.Verification.AddrSpace.Frames
import Nachos.Model.Process
import Nachos.Verification.AddrSpace.Allocation
import Nachos.Verification.Process.Semantics
import Nachos.Verification.Process.Consistency
import Nachos.Verification.Process.Exit
import Nachos.Verification.Process.Reclaim
import Nachos.Verification.Process.Authority
import Nachos.Verification.Process.Handshake
import Nachos.Verification.Process.Join
import Nachos.Verification.AddrSpace.Copying
import Nachos.Verification.Process.FailedExec
import Nachos.Verification.AddrSpace.Image
import Nachos.Verification.AddrSpace.Confinement
import Nachos.Verification.Machine.Isolation
import Nachos.Model.Threads
import Nachos.Verification.Threads.Semantics
import Nachos.Verification.Threads.Moves
import Nachos.Verification.Threads.Places
import Nachos.Verification.Threads.Invariant
import Nachos.Verification.Threads.Scheduling
import Nachos.Verification.Threads.Semaphores
import Nachos.Library.Exclusion
import Nachos.Library.FifoLock
import Nachos.Verification.Threads.Locks
import Nachos.Library.Logs
import Nachos.Verification.Threads.Levels
import Nachos.Verification.Threads.Destruction
import Nachos.Verification.Threads.UserContext
import Nachos.Model.List
import Nachos.Verification.List.Sorted
import Nachos.Model.Disk
import Nachos.Model.Interrupt
import Nachos.Model.OpenFile
import Nachos.Model.Directory
import Nachos.Model.FileSystem
import Nachos.Verification.Interrupt.Queue
import Nachos.Verification.FileSystem.Layout
import Nachos.Verification.FileSystem.Transfer
import Nachos.Verification.FileSystem.Sectors
import Nachos.Verification.FileSystem.Names
import Nachos.Library.Holdings
import Nachos.Verification.FileSystem.Operations
import Nachos.Verification.FileSystem.Consistency
import Nachos.Verification.FileSystem.Accesses
import Nachos.Verification.FileSystem.Steps
import Nachos.Verification.FileSystem.Allocation
import Nachos.Verification.FileSystem.Isolation
import Nachos.Library.Slices
import Nachos.Verification.FileSystem.ByteArray
import Nachos.Model.FileSystemStub
import Nachos.Verification.FileSystem.Stub
import Nachos.Model.Mips
import Nachos.Verification.Mips.Decode
import Nachos.Verification.Mips.Semantics
import Nachos.Verification.Mips.Exceptions
import Nachos.Verification.Mips.Alu
import Nachos.Verification.Exception.ReadInt
import Nachos.Verification.Exception.PrintInt
import Nachos.Verification.Exception.Strings
import Nachos.Verification.Exception.ReadString
import Nachos.Verification.Exception.Registers
import Nachos.Verification.Exception.Semantics
import Nachos.Verification.Threads.RegisterFile
import Nachos.Model.Drivers
import Nachos.Verification.Drivers.Device
import Nachos.Verification.Drivers.SynchDisk
import Nachos.Verification.Drivers.SynchRead
import Nachos.Verification.Drivers.SynchWrite
import Nachos.Verification.Machine.Bytes
import Nachos.Library.Channels
import Nachos.Model.Network
import Nachos.Verification.Network.Headers
import Nachos.Verification.Network.Delivery
import Nachos.Model.PcbObject
import Nachos.Verification.Process.Names
import Nachos.Verification.FileSystem.Capacity
import Nachos.Verification.FileSystem.NameMap
import Nachos.Model.FileAccess
import Nachos.Verification.FileSystem.Bounds
import Nachos.Model.Translate
import Nachos.Verification.Machine.Exactness
import Nachos.Verification.Machine.TlbHits
import Nachos.Library.ByteMemory
import Nachos.Model.Endian
import Nachos.Verification.Machine.Endian
import Nachos.Verification.Mips.Overflow
import Nachos.Library.Residues
import Nachos.Model.DiskTiming
import Nachos.Verification.Drivers.Latency
import Nachos.Library.DoubleWords
import Nachos.Verification.Mips.Multiply
import Nachos.Library.DataRefinement
import Nachos.Model.BitMapObject
import Nachos.Verification.BitMap.Refinement
import Nachos.Library.Chains
import Nachos.Library.StableQueue
import Nachos.Model.ListObject
import Nachos.Verification.List.Representation
import Nachos.Verification.List.Refinement
import Nachos.Library.Coroutines
import Nachos.Library.I386
import Nachos.Model.Switch
import Nachos.Verification.Switch.Coroutines
import Nachos.Verification.Switch.Resumption
import Nachos.Verification.Switch.ThreadRoot
import Nachos.Model.Interpreter
import Nachos.Model.Timer
import Nachos.Verification.Interpreter.Agreement
import Nachos.Verification.Interrupt.Punctual
import Nachos.Verification.Interrupt.Timer
import Nachos.Model.Coff2flat
import Nachos.Model.ConsoleTest
import Nachos.Model.FsTest
import Nachos.Model.MailTest
import Nachos.Verification.Coff.Toolchain
import Nachos.Verification.Drivers.ConsoleTest
import Nachos.Verification.FileSystem.FsTest
import Nachos.Verification.Network.MailTest
import Nachos.Verification.Process.Queues
import Nachos.Verification.Process.Undisturbed
