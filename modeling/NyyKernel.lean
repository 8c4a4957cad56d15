import NyyKernel.Asserts.Run
import NyyKernel.Boot.Kernel
import NyyKernel.Clock.Apic
import NyyKernel.Clock.Hpet
import NyyKernel.Devkit.Tree
import NyyKernel.Dispatch.Event
import NyyKernel.Dispatch.Race
import NyyKernel.Dispatch.Repeat
import NyyKernel.Dispatch.Stale
import NyyKernel.Irq.Deliver
import NyyKernel.Irq.Dpc
import NyyKernel.Irq.Progress
import NyyKernel.Kmem.Backing
import NyyKernel.Kmem.Kcalloc
import NyyKernel.Kmem.Tlb
import NyyKernel.Lock.Run
import NyyKernel.Log.Printk
import NyyKernel.Memory.String
import NyyKernel.Mutex.Return
import NyyKernel.Pci.Mcfg
import NyyKernel.Pci.Termination
import NyyKernel.Pm.Region
import NyyKernel.Sched.Fifo
import NyyKernel.Sched.Run
import NyyKernel.Slab.Buflist
import NyyKernel.Slab.Geometry
import NyyKernel.Symbols.Lookup
import NyyKernel.Symbols.Parse
import NyyKernel.Timer.Cancel
import NyyKernel.Timer.Due
import NyyKernel.Timer.Sleep
import NyyKernel.Vmem.BestFit
import NyyKernel.Vmem.Failure
import NyyKernel.Vmem.Index
import NyyKernel.Vmem.InstantFit
import NyyKernel.Vmem.Overlap
import NyyKernel.Vmem.Stat
