import LakeOS.Analysis.PmmOwnership
import LakeOS.Analysis.SalByteStore
import LakeOS.Analysis.HeapPartition
import LakeOS.Analysis.HeapCoalescing
import LakeOS.Analysis.UserCalls
import LakeOS.Analysis.PageMap
import LakeOS.Analysis.MmapAtomic
import LakeOS.Analysis.PagePermissions
import LakeOS.Analysis.PathCreate
import LakeOS.Analysis.BootMemory
import LakeOS.Analysis.FatTable
import LakeOS.Analysis.ElfImage
import LakeOS.Analysis.AddressSpaces
import LakeOS.Analysis.KernelHalf
import LakeOS.Analysis.Inheritance
import LakeOS.Analysis.Descriptors
import LakeOS.Analysis.SalWriteFrame
import LakeOS.Analysis.CalendarClock
import LakeOS.Analysis.KeyboardInput
import LakeOS.Analysis.VirtualFile
import LakeOS.Analysis.SeekContract
import LakeOS.Analysis.Enumeration
import LakeOS.Analysis.Descent
import LakeOS.Analysis.StatAgreement
import LakeOS.Analysis.DeviceCursor
import LakeOS.Analysis.DirMap
import LakeOS.Analysis.PageExhaustion
import LakeOS.Analysis.PageRuns
import LakeOS.Analysis.HeapRequests
import LakeOS.Analysis.Realloc
import LakeOS.Analysis.VectorGrowth
import LakeOS.Analysis.TerminalScreen
import LakeOS.Analysis.TerminalCursor
import LakeOS.Analysis.DriverBinding
import LakeOS.Analysis.OutOfFrames
import LakeOS.Analysis.UserMapping
import LakeOS.Analysis.FirstFit
import LakeOS.Model.VmmInit
import LakeOS.Analysis.NewPermissions
import LakeOS.Analysis.BitmapMapping
import LakeOS.Model.ExeArgs
import LakeOS.Analysis.EntranceArgs
import LakeOS.Analysis.StackGrowth
import LakeOS.Analysis.BlockRemoval
import LakeOS.Analysis.RangeRemoval
import LakeOS.Analysis.FatAppend
import LakeOS.Analysis.FatEntryMap
import LakeOS.Analysis.Fat32Entries
import LakeOS.Analysis.ShortNames
import LakeOS.Analysis.SlotPlaces
import LakeOS.Analysis.SlotRuns
import LakeOS.Analysis.NameBuffer
import LakeOS.Analysis.ClusterCount
import LakeOS.Analysis.ReadBounds
import LakeOS.Analysis.RootBounds
import LakeOS.Analysis.EntryNibbles
import LakeOS.Analysis.ChainFreeing
import LakeOS.Analysis.ChainGrowing
import LakeOS.Analysis.EndMarker
import LakeOS.Analysis.WalkEnds
import LakeOS.Model.FatFormat
import LakeOS.Analysis.FatSize
import LakeOS.Analysis.MountSafety
import LakeOS.Analysis.VolumeLayout
import LakeOS.Model.FatPath
import LakeOS.Analysis.TwoSearches
import LakeOS.Library.StringAt
import LakeOS.Model.Printf
import LakeOS.Analysis.PrintfOutput
import LakeOS.Model.VfsPath
import LakeOS.Model.VfsEntry
import LakeOS.Model.SysFd
import LakeOS.Analysis.WalkCopy
import LakeOS.Analysis.UnresolvedPaths
import LakeOS.Analysis.ArbitraryDescriptors
import LakeOS.Library.Unlink
import LakeOS.Analysis.Unlinking
import LakeOS.Model.VfmList
import LakeOS.Analysis.VfmFiles
import LakeOS.Analysis.ChainOffsets
import LakeOS.Analysis.FreeSearch
import LakeOS.Model.Rtc
import LakeOS.Analysis.TimeZone
import LakeOS.Library.Overlap
import LakeOS.Analysis.MemmoveDirections
import LakeOS.Model.Strcmp
import LakeOS.Analysis.StringOrder
import LakeOS.Model.Ata
import LakeOS.Library.TaskFile
import LakeOS.Analysis.AtaAddressing
import LakeOS.Analysis.StringScan
import LakeOS.Library.Tokens
import LakeOS.Analysis.TokenRuns
import LakeOS.Model.Ps2Steps
import LakeOS.Analysis.KeyboardBounds
import LakeOS.Library.DriveChannel
import LakeOS.Model.AtaTransfer
import LakeOS.Analysis.AtaStore
import LakeOS.Library.Processor
import LakeOS.Model.Stubs
import LakeOS.Analysis.StubFrames
import LakeOS.Model.ProcessSwitch
import LakeOS.Analysis.ProcessNesting
import LakeOS.Library.InterruptController
import LakeOS.Model.Pic
import LakeOS.Analysis.IrqDelivery
import LakeOS.Library.ClockFace
import LakeOS.Library.SteadyReading
import LakeOS.Model.RtcInit
import LakeOS.Analysis.RtcSnapshot
import LakeOS.Model.FatClose
import LakeOS.Analysis.FatSessions
import LakeOS.Library.SystemTables
import LakeOS.Model.Tables
import LakeOS.Analysis.GateDispatch
import LakeOS.Analysis.BootDialogue
import LakeOS.Analysis.BootDevices
import LakeOS.Analysis.ClusterOwnership
