import Uw7.Dosfs.ConcurrentAlloc
import Uw7.Dosfs.MountVolume
import Uw7.Ipc.Ids
import Uw7.Dlpi.TxRuns
import Uw7.Ipc.AttachmentRuns
import Uw7.Ipc.LookupRuns
import Uw7.Sr.WaitRuns
import Uw7.Dlpi.MulticastRuns
import Uw7.Dlpi.DriverIoctlRuns
import Uw7.Dlpi.ReceiveFrames
import Uw7.Fga.PageRuns
import Uw7.Dosfs.DenodeCacheWell
import Uw7.Ksynch.SleepLockRuns
import Uw7.Ksynch.SleepSig
import Uw7.Rtld.FiniOrder
import Uw7.Rtld.LookupSearch
import Uw7.Rtld.SpaceList
import Uw7.Rtld.SearchPath
import Uw7.Cron.Fields
import Uw7.Amigo.UnrollPreserves
import Uw7.Aas.LogSwitch
import Uw7.Xxfs.TruncateFile
import Uw7.Aas.Restart
import Uw7.Amigo.CopyPropSound
import Uw7.Xxfs.FreeInodesRuns
import Uw7.Intemu.FromStrRight
import Uw7.Intemu.GcdRight
import Uw7.Dosfs.FatBuffers
import Uw7.Dosfs.FileMapRuns
import Uw7.Fga.Granularity
import Uw7.Fga.SoftlockUndo
import Uw7.Iobitmap.AllOrNothing
import Uw7.Ipc.ShmAttachRight
import Uw7.Ksynch.RwRellock
import Uw7.Rzbm.Removal
import Uw7.Rzbm.Reservations
import Uw7.Util.Bitmasks
import Uw7.Util.DoubleLong
import Uw7.Amigo.Seldom
import Uw7.Amigo.Distribute
import Uw7.Dosfs.Times
import Uw7.Tsort.Printing
import Uw7.Dosfs.CheckPath
import Uw7.Amigo.LoopIncrement
import Uw7.Ipc.NewSegments
import Uw7.Sr.RouteLengths
import Uw7.Postwait.Posts
import Uw7.Libelf.XlatePaths
import Uw7.Libelf.Arsym
import Uw7.Libelf.Paging
import Uw7.Libelf.Strptr
