import Amdkfd.KernelQueueRing
import Amdkfd.QueueManager.RunList
import Amdkfd.Svm.Remap
import Amdkfd.Svm.UnmapFailure
import Amdkfd.Debug.Exceptions
import Amdkfd.Debug.WatchPoint
import Amdkfd.Debug.Session
import Amdkfd.Events.Interrupt
import Amdkfd.Events.FailedWait
import Amdkfd.Events.WakeUp
import Amdkfd.EvictionRollback
import Amdkfd.StablePstate
import Amdkfd.Cs.PatchIbs
import Amdkfd.Cs.Released
import Amdkfd.Mes.Books
import Amdkfd.Ras.BadPageReport
import Amdkfd.Ras.Checksum
import Amdkfd.Ras.InitTolerates
import Amdkfd.Gmc.FaultFilterExact
import Amdkfd.Ttm.CopyMemToMem
import Amdkfd.Gpuvm.MapMemoryCount
import Amdkfd.Gpuvm.UserptrSafe
import Amdkfd.Sync.Coverage
import Amdkfd.QueueGws
import Amdkfd.QueueManager.RestoreMqd
import Amdkfd.NoHws.Termination
import Amdkfd.NoHws.Marked
import Amdkfd.Vm.StatusLists
import Amdkfd.Crat.Links
import Amdkfd.Vmid.Isolation
import Amdkfd.VmMap.Orphans
import Amdkfd.Migrate.CleanUp
import Amdkfd.SdmaPlacement
import Amdkfd.Svm.GetAttr
import Amdkfd.Svm.MaxPages
import Amdkfd.Svm.RestorePages
import Amdkfd.TrapVmid
import Amdkfd.Debug.SetFlags
import Amdkfd.KernelDoorbell
import Amdkfd.Gpuvm.MemLimitExact
import Amdkfd.Gpuvm.FreeMemory
import Amdkfd.Gpuvm.VramUsage
import Amdkfd.QueueManager.Report
import Amdkfd.VmMap.UpdateRange
import Amdkfd.VmPt.Free
import Amdkfd.Seq64
import Amdkfd.Gmc.Location
import Amdkfd.EepromXfer
import Amdkfd.IhRing
import Amdkfd.Fence.RuntimePm
import Amdkfd.VramMgr.VisibleSize
import Amdkfd.VramMgr.AllocSgt
import Amdkfd.CtxMgr.Usage
import Amdkfd.Writeback
import Amdkfd.Ttm.AccessMemory
import Amdkfd.Atom.Lanes
import Amdkfd.Atom.Watchdog
import Amdkfd.Discovery.Walkers
import Amdkfd.Irq
