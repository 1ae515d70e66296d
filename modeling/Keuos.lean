import Keuos.Lib.Run
import Keuos.Lib.Bits
import Keuos.Ebr.Defs
import Keuos.Ebr.Equiv.Grace
import Keuos.Ebr.Equiv.Conservation
import Keuos.Scheduler.Defs
import Keuos.Scheduler.Equiv.Bitmap
import Keuos.Scheduler.Equiv.WorkSteal
import Keuos.Ecs.SparseSet
import Keuos.Ecs.World
import Keuos.Ecs.Lifecycle
import Keuos.Ecs.Equiv.SparseSet
import Keuos.Ecs.Equiv.World
import Keuos.Ecs.Equiv.StaleHandles
import Keuos.Lib.Memory
import Keuos.Lib.Prog
import Keuos.Lib.Forest
import Keuos.Lib.Ledger
import Keuos.Lib.OnesComplement
import Keuos.Pmm.Defs
import Keuos.Pmm.Equiv.FreeLists
import Keuos.Pmm.Equiv.Holds
import Keuos.Slab.Defs
import Keuos.Slab.Equiv.FreeList
import Keuos.Slab.Equiv.Objects
import Keuos.Slab.Equiv.Cores
import Keuos.Ipc.Shm
import Keuos.Ipc.Equiv.Shm
import Keuos.Ipc.Equiv.Producer
import Keuos.Ipc.Equiv.Consumer
import Keuos.Ipc.Equiv.Stream
import Keuos.Ipc.Equiv.Bulk
import Keuos.Ipc.Equiv.Hostile
import Keuos.Ipc.Mailbox
import Keuos.Ipc.Equiv.Mailbox
import Keuos.Paging.Defs
import Keuos.Paging.Equiv.Tables
import Keuos.Paging.Equiv.Map
import Keuos.Paging.Equiv.Supply
import Keuos.Paging.Equiv.Teardown
import Keuos.Paging.Equiv.Sweep
import Keuos.Process.Table
import Keuos.Process.Lifecycle
import Keuos.Process.Equiv.Sched
import Keuos.Process.Equiv.RingSlots
import Keuos.Process.Spawn
import Keuos.Process.Equiv.Spawn
import Keuos.Process.Waiting
import Keuos.Process.Equiv.Running
import Keuos.Process.Equiv.Books
import Keuos.Process.Equiv.Reaping
import Keuos.RingAbi.Defs
import Keuos.RingAbi.Equiv.Bounds
import Keuos.RingAbi.Equiv.Completions
import Keuos.Syscall.Memory
import Keuos.Syscall.Spaces
import Keuos.Syscall.Equiv.Agreement
import Keuos.Syscall.Capability
import Keuos.Syscall.Equiv.Fresh
import Keuos.Syscall.Equiv.Heap
import Keuos.Syscall.Equiv.Areas
import Keuos.Syscall.Equiv.Mappings
import Keuos.Syscall.Equiv.Undo
import Keuos.Syscall.Equiv.Ownership
import Keuos.Syscall.Equiv.CapTable
import Keuos.Syscall.Equiv.CapLives
import Keuos.Syscall.Equiv.Teardowns
import Keuos.Reclaim.Defs
import Keuos.Reclaim.Equiv.RingPages
import Keuos.Reclaim.Equiv.Exact
import Keuos.Tcp.SynCookie
import Keuos.Tcp.Defs
import Keuos.Tcp.Equiv.SynCookie
import Keuos.Tcp.Equiv.Pool
import Keuos.Tcp.Equiv.Segments
import Keuos.Tcp.Equiv.Calls
import Keuos.Tcp.Equiv.Identity
import Keuos.Tcp.Equiv.Roles
import Keuos.Tcp.Equiv.Accept
import Keuos.Tcp.Equiv.Buffers
import Keuos.Tcp.Equiv.Receive
import Keuos.Tcp.Equiv.Closing
import Keuos.Lib.Deque
import Keuos.Lib.Window
import Keuos.Net.Equiv.Virtio
import Keuos.Net.NotifyRing
import Keuos.Scheduler.BitmapDisp
import Keuos.Scheduler.ChaseLev
import Keuos.Scheduler.Equiv.BitmapDisp
import Keuos.Scheduler.Equiv.ChaseLev
import Keuos.Scheduler.Equiv.Successor
import Keuos.Lib.Traced
import Keuos.Net.Frames
import Keuos.Net.Netcore
import Keuos.Net.Equiv.NotifyRing
import Keuos.Net.Equiv.Frames
import Keuos.Net.Equiv.Bounds
import Keuos.Net.Equiv.Buffers
import Keuos.Net.Equiv.Loopback
import Keuos.Net.Equiv.Checksum
import Keuos.Net.Equiv.Echo
import Keuos.Net.Equiv.Headers
import Keuos.Net.Virtio
import Keuos.Net.Equiv.Virtqueue
import Keuos.Net.Equiv.Transmit
import Keuos.Pmm.Equiv.Sharded
import Keuos.Ecs.Equiv.Handles
import Keuos.Lib.Spsc
import Keuos.Ecs.Events
import Keuos.Ipc.Equiv.Wakeup
import Keuos.Process.Equiv.Post
import Keuos.Ipc.Adaptive
import Keuos.Ipc.Equiv.Adaptive
import Keuos.Paging.Equiv.Guard
import Keuos.Lib.Lease
import Keuos.Netd.Router
import Keuos.Netd.Equiv.Router
import Keuos.Lib.Recency
import Keuos.Netd.Defs
import Keuos.Netd.Equiv.Arp
import Keuos.Serial.Defs
import Keuos.Serial.Equiv.Serial
import Keuos.Lib.Circular
import Keuos.Rtl8125.Defs
import Keuos.Rtl8125.Equiv.Descriptors
import Keuos.Rtl8125.Equiv.Receive
import Keuos.Ipc.UserRing
import Keuos.Ipc.Equiv.UserRing
import Keuos.Ipc.Socket
import Keuos.Ipc.Equiv.Socket
import Keuos.Reactor.Deque
import Keuos.Reactor.Equiv.Deque
import Keuos.Syscall.Equiv.UserCopy
import Keuos.Lib.ByteString
import Keuos.Lib.Decimal
import Keuos.Lettuce.Resp
import Keuos.Lettuce.Equiv.Parse
import Keuos.Lettuce.Equiv.Inside
import Keuos.Lettuce.Equiv.Write
import Keuos.Netd.Equiv.Checksum
import Keuos.Netd.Daemon
import Keuos.Netd.Equiv.Daemon
import Keuos.Netd.Equiv.Encap
import Keuos.Lib.Limbs
import Keuos.Netd.Equiv.BigInt
import Keuos.Netd.Equiv.ModMul
import Keuos.Netd.Equiv.Asn1
import Keuos.Alloc.Arena
import Keuos.Alloc.Equiv.Arena
import Keuos.Lib.FirstMin
import Keuos.Ecs.Equiv.Scheduler
import Keuos.Ecs.Equiv.Dispatch
import Keuos.Ecs.Equiv.Reclaim
import Keuos.Process.Equiv.Manifest
import Keuos.Lib.RangePerm
import Keuos.Basalt.Sort
import Keuos.Basalt.Equiv.Pivot
import Keuos.Basalt.Equiv.Sort
import Keuos.Basalt.Equiv.SortDepth
import Keuos.Ext2.Defs
import Keuos.Ext2.Equiv.Access
import Keuos.Ext2.Equiv.Inode
import Keuos.Ext2.Equiv.Read
import Keuos.Ext2.Equiv.Lookup
import Keuos.Ext2.Equiv.Confined
import Keuos.Stored.Ring
import Keuos.Stored.Equiv.Ring
import Keuos.Ecs.Equiv.Commands
import Keuos.LatticeEcs.World
import Keuos.LatticeEcs.Equiv.World
import Keuos.Syscall.Names
import Keuos.Syscall.Equiv.Names
import Keuos.Lib.PhaseBit
import Keuos.Lib.Simulation
import Keuos.Nvme.Defs
import Keuos.Nvme.Equiv.Queues
import Keuos.Nvme.Equiv.Slots
import Keuos.Nvme.Equiv.Commands
import Keuos.Nvme.Equiv.Requests
