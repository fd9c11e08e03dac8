import NyauxKernel.Library.RingWindow
import NyauxKernel.Virtio.DescriptorPool
import NyauxKernel.Virtio.Queue
import NyauxKernel.Library.DoublyLinked
import NyauxKernel.Virtio.QueueProtocol
import NyauxKernel.Util.Lists
import NyauxKernel.Util.ListRefinement
import NyauxKernel.Vfs.Ramfs
import NyauxKernel.Vfs.Ustar
import NyauxKernel.Vfs.Archive
import NyauxKernel.Vfs.InitramfsLoad
import NyauxKernel.Library.WordMemory
import NyauxKernel.Memory.Machine
import NyauxKernel.Memory.Pmm
import NyauxKernel.Memory.Slab
import NyauxKernel.Memory.PageTable
import NyauxKernel.Memory.Vmm
import NyauxKernel.Memory.Conservation
import NyauxKernel.Memory.SlabShape
import NyauxKernel.Memory.SlabInvariant
import NyauxKernel.Memory.SlabRuns
import NyauxKernel.Library.RadixTree
import NyauxKernel.Memory.PageEntry
import NyauxKernel.Memory.TableShape
import NyauxKernel.Memory.TableWalk
import NyauxKernel.Memory.PageMap
import NyauxKernel.Memory.Ownership
import NyauxKernel.Memory.OwnedTables
import NyauxKernel.Memory.RegionList
import NyauxKernel.Library.Folds
import NyauxKernel.Memory.RegionPages
import NyauxKernel.Memory.Records
import NyauxKernel.Memory.Kernel
import NyauxKernel.Memory.KernelBoot
import NyauxKernel.Memory.AddressSpace
import NyauxKernel.Memory.Objects
import NyauxKernel.Memory.Devices
import NyauxKernel.Memory.RegionRuns
import NyauxKernel.Memory.FrameOwnership
import NyauxKernel.Memory.Heap
import NyauxKernel.Memory.Isolation
import NyauxKernel.Library.IteratedLinks
import NyauxKernel.Virtio.PoolInvariant
import NyauxKernel.Virtio.Commands
import NyauxKernel.Util.OwnedLists
import NyauxKernel.Util.ArcLists
import NyauxKernel.Util.ArcAccounting
import NyauxKernel.Library.RoundRobin
import NyauxKernel.Scheduler.Threads
import NyauxKernel.Scheduler.Rotation
import NyauxKernel.Scheduler.Contexts
import NyauxKernel.Util.SpinLocks
import NyauxKernel.Util.RwExclusion
import NyauxKernel.Util.InterruptState
import NyauxKernel.Memory.Preemption
import NyauxKernel.Memory.PreemptionSafety
import NyauxKernel.Memory.DeviceMappings
import NyauxKernel.RiscV.PageMap
import NyauxKernel.Util.BoxLists
import NyauxKernel.Util.ListLength
import NyauxKernel.Scheduler.IdleThread
import NyauxKernel.Util.OnceCell
import NyauxKernel.Memory.Alignment
import NyauxKernel.Memory.BootSpace
import NyauxKernel.Uacpi.Map
import NyauxKernel.Uacpi.Unmap
import NyauxKernel.Memory.UnmapEffects
import NyauxKernel.RiscV.Unmap
import NyauxKernel.Memory.BootSequence
import NyauxKernel.Vfs.LoaderOffsets
import NyauxKernel.Library.Overwrite
import NyauxKernel.Vfs.FileBytes
import NyauxKernel.Vfs.Directory
import NyauxKernel.Vfs.Mounts
import NyauxKernel.Vfs.Descent
import NyauxKernel.Vfs.Headers
import NyauxKernel.Vfs.MissingParents
import NyauxKernel.Vfs.LoaderPanics
import NyauxKernel.Library.Traversal
import NyauxKernel.Pci.Config
import NyauxKernel.Pci.Scan
import NyauxKernel.Pci.BarWindows
import NyauxKernel.Library.BitFields
import NyauxKernel.X86.Descriptors
import NyauxKernel.Library.LinkWalk
import NyauxKernel.Virtio.Capabilities
import NyauxKernel.X86.Hpet
import NyauxKernel.X86.Dmar
import NyauxKernel.X86.ContextTables
import NyauxKernel.Library.StackWords
import NyauxKernel.X86.InterruptStubs
import NyauxKernel.X86.Interrupts
import NyauxKernel.Scheduler.TimerInterrupts
import NyauxKernel.Library.Replies
import NyauxKernel.Vfs.PathMap
import NyauxKernel.Library.WordBuffers
import NyauxKernel.Virtio.Exchange
import NyauxKernel.Util.GuardedData
import NyauxKernel.Library.DeviceCode
import NyauxKernel.X86.LocalApic
import NyauxKernel.X86.LapicTimer
import NyauxKernel.X86.TimeSlices
