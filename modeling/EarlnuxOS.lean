import EarlnuxOS.Mm.Pmm.Coalescing
import EarlnuxOS.Mm.Pmm.KernelImage
import EarlnuxOS.Mm.Pmm.Populate
import EarlnuxOS.Mm.Bump
import EarlnuxOS.Mm.Heap.Heap
import EarlnuxOS.Mm.Heap.Headers
import EarlnuxOS.Mm.Heap.HeapInvariant
import EarlnuxOS.Mm.Heap.HeapSpec
import EarlnuxOS.Mm.Heap.NoOverlap
import EarlnuxOS.Fs.Inode
import EarlnuxOS.Fs.Ramfs
import EarlnuxOS.Fs.Vfs
import EarlnuxOS.Fs.Resolve
import EarlnuxOS.Fs.Namespace
import EarlnuxOS.Fs.Creation
import EarlnuxOS.Fs.Objects
import EarlnuxOS.Fs.Calls
import EarlnuxOS.Fs.Lifetime
import EarlnuxOS.Foundation.Sparse
import EarlnuxOS.Fs.Contents
import EarlnuxOS.Fs.Store
import EarlnuxOS.Fs.Accesses
import EarlnuxOS.Fs.Refinement
import EarlnuxOS.Lib.Printf
import EarlnuxOS.Lib.PrintfAgreement
import EarlnuxOS.Fs.Splitting
import EarlnuxOS.Fs.WholeFiles
import EarlnuxOS.Lib.Strings
import EarlnuxOS.User.Login
import EarlnuxOS.User.Credentials
import EarlnuxOS.Mm.Vmm.Paging
import EarlnuxOS.Mm.Vmm.Entries
import EarlnuxOS.Mm.Vmm.Steps
import EarlnuxOS.Mm.Vmm.Translation
import EarlnuxOS.Mm.Vmm.PageLoop
import EarlnuxOS.Mm.Vmm.TableLoop
import EarlnuxOS.Mm.Vmm.BadFrames
import EarlnuxOS.Mm.Vmm.CloneFaithful
import EarlnuxOS.Mm.Vmm.Destroying
import EarlnuxOS.Mm.Vmm.Directories
import EarlnuxOS.Mm.Vmm.CloneMapped
import EarlnuxOS.Mm.Vmm.EarlyMap
import EarlnuxOS.Mm.Vmm.Machine
import EarlnuxOS.Mm.Vmm.HighFrames
import EarlnuxOS.Foundation.ByteRuns
import EarlnuxOS.Foundation.LittleEndian
import EarlnuxOS.Net.Headers
import EarlnuxOS.Net.Stack
import EarlnuxOS.Net.Receive
import EarlnuxOS.Net.ReadBounds
import EarlnuxOS.Net.SendSpec
import EarlnuxOS.Net.ByteOrder
import EarlnuxOS.Net.RoundTrip
import EarlnuxOS.Drivers.Keyboard
import EarlnuxOS.Drivers.Pit
import EarlnuxOS.Drivers.Console
import EarlnuxOS.Drivers.ConsoleInterrupts
import EarlnuxOS.User.ShellSpec
import EarlnuxOS.Fs.Mounts
import EarlnuxOS.Mm.Vmm.Permissions
import EarlnuxOS.Mm.Pmm.ArrayBounds
import EarlnuxOS.Mm.Pmm.ZoneSeparation
import EarlnuxOS.Fs.Descriptors
import EarlnuxOS.Fs.Subtrees
import EarlnuxOS.Fs.Failures
import EarlnuxOS.Lib.StringCopy
import EarlnuxOS.Foundation.Halting
import EarlnuxOS.Lib.FormatReads
import EarlnuxOS.Lib.Numerals
import EarlnuxOS.Net.Addresses
import EarlnuxOS.Foundation.OnesComplement
import EarlnuxOS.Net.Checksum
import EarlnuxOS.Drivers.Rtl8139
import EarlnuxOS.Net.EchoReply
import EarlnuxOS.Net.TransmitBounds
import EarlnuxOS.Drivers.Rtl8139Receive
import EarlnuxOS.Drivers.ReceiveRing
import EarlnuxOS.Mm.Heap.LargeRequests
import EarlnuxOS.Foundation.Trails
import EarlnuxOS.User.ResolvePath
import EarlnuxOS.Fs.Dispatch
import EarlnuxOS.Fs.RamfsCalls
import EarlnuxOS.Fs.Guards
import EarlnuxOS.Drivers.ShiftKeys
import EarlnuxOS.Foundation.Pages
import EarlnuxOS.Fs.Listing
import EarlnuxOS.Fs.Rename
import EarlnuxOS.User.ChangeDirectory
import EarlnuxOS.Fs.Appends
import EarlnuxOS.Mm.Vmm.Ranges
import EarlnuxOS.Drivers.ScreenText
import EarlnuxOS.User.LineEditor
import EarlnuxOS.Mm.Heap.Krealloc
import EarlnuxOS.Mm.Heap.Statistics
import EarlnuxOS.User.ShellMath
import EarlnuxOS.Lib.BoundedFormat
import EarlnuxOS.Boot.MemoryMap
import EarlnuxOS.Lib.MemoryMove
import EarlnuxOS.Lib.StringSearch
import EarlnuxOS.Lib.NumberStrings
import EarlnuxOS.Lib.IntegerStrings
import EarlnuxOS.User.Tokenize
import EarlnuxOS.Foundation.BackLinks
import EarlnuxOS.Mm.Heap.BoundaryTags
import EarlnuxOS.Foundation.WordStack
import EarlnuxOS.Arch.Processor
import EarlnuxOS.Arch.Stubs
import EarlnuxOS.Arch.Context
import EarlnuxOS.Arch.Descriptors
import EarlnuxOS.Foundation.Simulation
import EarlnuxOS.Drivers.Pic
import EarlnuxOS.Arch.Interrupts
import EarlnuxOS.Foundation.Network
import EarlnuxOS.Net.Lan
import EarlnuxOS.Net.Ping
import EarlnuxOS.Foundation.Shares
import EarlnuxOS.Mm.Vmm.Lending
import EarlnuxOS.Mm.Vmm.Images
import EarlnuxOS.Mm.Vmm.AddressSpaces
import EarlnuxOS.Mm.Vmm.Isolation
import EarlnuxOS.Fs.KeptPaths
import EarlnuxOS.Fs.Requests
import EarlnuxOS.Fs.KeptFiles
import EarlnuxOS.User.FileCommands
import EarlnuxOS.User.FileSession
import EarlnuxOS.User.TypedSessions
import EarlnuxOS.Foundation.NamedPaths
import EarlnuxOS.Fs.FileTree
import EarlnuxOS.Fs.TreeCalls
import EarlnuxOS.User.TreeShell
import EarlnuxOS.User.TreeSession
import EarlnuxOS.User.Uptime
import EarlnuxOS.Drivers.Pci
