import Zka.Framework.Run
import Zka.FSKit.CatalogLaws
import Zka.FSKit.CatalogFrame
import Zka.FSKit.Accounting
import Zka.FSKit.Extents
import Zka.FSKit.ParentPath
import Zka.FSKit.Walks
import Zka.FSKit.WriteFrame
import Zka.FSKit.FormatFrame
import Zka.KernelKit.FileStreamRun
import Zka.HALKit.BitMapPool
import Zka.HALKit.PageWalk
import Zka.BootKit.ATA
import Zka.BootKit.SectionChecks
import Zka.BootKit.LoadLaw
import Zka.BootKit.Strtol
import Zka.BootKit.FileReader
import Zka.BootKit.DiskFormat
import Zka.NetworkKit.IPC
import Zka.KernelKit.ProcessHeap
import Zka.KernelKit.AddressSpace
import Zka.KernelKit.ProcessTable
import Zka.KernelKit.ProcessName
import Zka.KernelKit.Semaphore
import Zka.KernelKit.User
import Zka.KernelKit.DriveMgr
import Zka.KernelKit.HeapProtect
import Zka.KernelKit.HeapValidity
import Zka.KernelKit.SchedulerRun
import Zka.KernelKit.BusySlice
import Zka.KernelKit.SpawnFailure
import Zka.KernelKit.PEFCodeMgr
import Zka.Modules.ACPI
import Zka.HALKit.ARM64Paging
import Zka.HALKit.SystemCalls
import Zka.HALKit.PCIIterator
import Zka.HALKit.AHCISlots
import Zka.HALKit.AHCIScatter
import Zka.HALKit.CoreScheduler
import Zka.HALKit.SerialLine
import Zka.HALKit.DescriptorLoader
import Zka.KernelKit.Stop
import Zka.Modules.KWindow
import Zka.BootKit.ATATransfer
import Zka.BootKit.AutoFormat
import Zka.KernelKit.DriveDetect
import Zka.NetworkKit.IPCPass
import Zka.NetworkKit.IPCPenalty
import Zka.KernelKit.Timer
import Zka.KernelKit.LockDelegate
import Zka.FSKit.IndexableProperty
import Zka.NewKit.CxxAbi
import Zka.NewKit.KString
import Zka.NewKit.Json
import Zka.NewKit.StringLoops
import Zka.NetworkKit.IP
import Zka.KernelKit.DebugOutput
