import XrLinux.Lib.Iterate
import XrLinux.Lib.Run
import XrLinux.Lib.Recency
import XrLinux.Lib.Prog
import XrLinux.Lib.BitField
import XrLinux.Lib.Octets
import XrLinux.Lib.BitRuns
import XrLinux.Lib.ByteMemory
import XrLinux.Lib.LinkedList
import XrLinux.Lib.Intervals
import XrLinux.Lib.PointerTree
import XrLinux.Lib.PathResolution
import XrLinux.Lib.Numeral
import XrLinux.Linux.IrqFlags
import XrLinux.Linux.Regs
import XrLinux.Linux.Switch
import XrLinux.Linux.Tasks
import XrLinux.Linux.Signal
import XrLinux.Linux.SignalRuns
import XrLinux.Machine.Instr
import XrLinux.Machine.Solo
import XrLinux.Machine.Smp
import XrLinux.Gcc.Operand
import XrLinux.Gcc.Compare
import XrLinux.Gcc.Subword
import XrLinux.Gcc.Exchange
import XrLinux.Gcc.FetchOp
import XrLinux.Gcc.WordOps
import XrLinux.Gcc.CompareAndSwap
import XrLinux.Gcc.Constants
import XrLinux.Gcc.Linearizable
import XrLinux.Gcc.Frame
import XrLinux.Gcc.StackBalance
import XrLinux.Gcc.FrameLayout
import XrLinux.Gcc.Address
import XrLinux.Gcc.Legitimize
import XrLinux.Bootloader.List
import XrLinux.Bootloader.Memory
import XrLinux.Bootloader.HeapLinks
import XrLinux.Bootloader.HeapLayout
import XrLinux.Bootloader.HeapRefine
import XrLinux.Bootloader.HeapRuns
import XrLinux.Bootloader.HeapAreas
import XrLinux.Bootloader.HeapResize
import XrLinux.Bootloader.Paging
import XrLinux.Bootloader.Disk
import XrLinux.Bootloader.BlockCache
import XrLinux.Bootloader.PartitionReads
import XrLinux.Bootloader.Ext2
import XrLinux.Bootloader.BlockMap
import XrLinux.Bootloader.FileReads
import XrLinux.Bootloader.BypassReads
import XrLinux.Bootloader.ReadBounds
import XrLinux.Bootloader.MountSafety
import XrLinux.Bootloader.Path
import XrLinux.Bootloader.Outcomes
import XrLinux.Bootloader.Ownership
import XrLinux.Bootloader.Directories
import XrLinux.Bootloader.FindInode
import XrLinux.Bootloader.DirectorySearch
import XrLinux.Bootloader.CorruptDirectories
import XrLinux.Bootloader.Links
import XrLinux.Bootloader.KickProcessors
import XrLinux.Bootloader.HeapClient
import XrLinux.Bootloader.DeviceTree
import XrLinux.Bootloader.Logging
import XrLinux.Bootloader.NumberFormat
import XrLinux.Bootloader.BoundedPrint
import XrLinux.Bootloader.Config
import XrLinux.Bootloader.ConfigGrammar
import XrLinux.Bootloader.MemoryBanks
import XrLinux.Binutils.Imm
import XrLinux.Binutils.Reloc
import XrLinux.Binutils.Gas
import XrLinux.Binutils.ConstReloc
import XrLinux.Binutils.BranchFixups
import XrLinux.Binutils.Opcodes
import XrLinux.Binutils.OperandScan
import XrLinux.Binutils.OperandGrammar
import XrLinux.Binutils.OperandReadings
import XrLinux.Binutils.OperandLines
import XrLinux.Binutils.OperandAttempts
import XrLinux.Binutils.OperandState
import XrLinux.Binutils.Assemble
import XrLinux.Binutils.Pcrel
import XrLinux.Binutils.LocalPcrel
import XrLinux.Binutils.Relocate
import XrLinux.Binutils.RelocateRuns
import XrLinux.Binutils.PcrelSound
import XrLinux.Binutils.TlsGot
import XrLinux.Glibc.Tls
import XrLinux.Glibc.TlsModels
import XrLinux.Machine.Memory
import XrLinux.Glibc.Setjmp
import XrLinux.Glibc.Clone
import XrLinux.Linux.Lsic
import XrLinux.Linux.LsicRuns
import XrLinux.Linux.Amtsu
import XrLinux.Lib.Driven
import XrLinux.InstallApt.Install
import XrLinux.InstallApt.Atomicity
import XrLinux.InstallApt.Confinement
import XrLinux.Gcc.Args
import XrLinux.Linux.Disk
import XrLinux.Linux.DiskRuns
import XrLinux.Linux.Atomics
import XrLinux.Linux.Cmpxchg
import XrLinux.Linux.Extable
import XrLinux.Glibc.Stubs
import XrLinux.Linux.Restart
import XrLinux.Machine.Bytes
import XrLinux.Linux.Uaccess
import XrLinux.Linux.ClearUser
import XrLinux.Linux.Memcpy
import XrLinux.Linux.Memset
import XrLinux.Linux.Pgtable
import XrLinux.Linux.LinearMapping
import XrLinux.Linux.KernelMapping
import XrLinux.Gcc.FallbackFrame
import XrLinux.Bootloader.ByteSwap
import XrLinux.Linux.SwapEntry
import XrLinux.Binutils.ImmFields
import XrLinux.Linux.RangeFlush
import XrLinux.Linux.AmtsuLifetime
import XrLinux.Linux.Resources
import XrLinux.Glibc.Profile
import XrLinux.Linux.ReserveMapped
import XrLinux.Linux.Stacktrace
import XrLinux.Linux.VmallocFault
import XrLinux.Bootloader.Interning
import XrLinux.Lib.Forest
import XrLinux.Lib.FlattenedTree
import XrLinux.Bootloader.TreeRuns
import XrLinux.Bootloader.BuiltTree
import XrLinux.Bootloader.NodePaths
import XrLinux.Bootloader.BlobTree
import XrLinux.Bootloader.Blob
import XrLinux.Linux.TrapEntry
import XrLinux.Linux.TrapRuns
import XrLinux.Bootloader.LoadKernel
import XrLinux.Bootloader.Handoff
