import RpiWifi.Runs
import RpiWifi.Packets
import RpiWifi.Driver
import RpiWifi.DriverSteps
import RpiWifi.SequenceNumbers
import RpiWifi.FlowControl
import RpiWifi.Replies
import RpiWifi.ReceiveBlocks
import RpiWifi.Scheduler
import RpiWifi.TaskTable
import RpiWifi.Memory
import RpiWifi.KernelAlloc
import RpiWifi.HeapRegion
import RpiWifi.RunSearch
import RpiWifi.FrameAlloc
import RpiWifi.FrameBits
import RpiWifi.FrameSearch
import RpiWifi.FrameSafety
import RpiWifi.CStrings
import RpiWifi.Control
import RpiWifi.ControlLaws
import RpiWifi.ControlFaults
import RpiWifi.Exclusion
import RpiWifi.Mutex
import RpiWifi.Joins
import RpiWifi.JoinLaws
import RpiWifi.Chains
import RpiWifi.HeapLists
import RpiWifi.Backplane
import RpiWifi.BackplaneLaws
import RpiWifi.Firmware
import RpiWifi.FirmwareLaws
import RpiWifi.UploadLaws
import RpiWifi.FrameCodec
import RpiWifi.BlockQueue
import RpiWifi.Transmit
import RpiWifi.TransmitLaws
import RpiWifi.Cyclic
import RpiWifi.RoundRobin
import RpiWifi.Preemption
import RpiWifi.FrameInit
import RpiWifi.FrameSupply
import RpiWifi.TaskFrames
import RpiWifi.Mailbox
import RpiWifi.NetQueue
import RpiWifi.QueueTasks
import RpiWifi.QueueTaskLaws
import RpiWifi.Allocators
import RpiWifi.QueueCalls
import RpiWifi.LinkLayer
import RpiWifi.LinkDelivery
import RpiWifi.KernelHeap
import RpiWifi.LinkHeap
import RpiWifi.DriverLocks
import RpiWifi.ContiguousSearch
import RpiWifi.MailboxMiss
import RpiWifi.HeapBlocks
import RpiWifi.HeapLedger
import RpiWifi.HeapRealloc
import RpiWifi.PacketReads
import RpiWifi.BlockPointers
import RpiWifi.Fat
import RpiWifi.FatChains
import RpiWifi.FatSearch
import RpiWifi.FatTree
import RpiWifi.FatNames
import RpiWifi.FatTrails
import RpiWifi.LongNames
import RpiWifi.FatPaths
import RpiWifi.FatLookup
import RpiWifi.CoreLaws
import RpiWifi.CoreAccess
import RpiWifi.CommandResults
import RpiWifi.CommandLaws
import RpiWifi.BusErrorLaws
import RpiWifi.BusPattern
import RpiWifi.BusPatternLaws
import RpiWifi.UploadErrors
import RpiWifi.UploadErrorLaws
import RpiWifi.Pieces
import RpiWifi.Settings
import RpiWifi.SettingsUpload
import RpiWifi.CommandBuffer
import RpiWifi.CommandBufferLaws
import RpiWifi.EtherAddress
import RpiWifi.EtherAddressLaws
import RpiWifi.AuthElement
import RpiWifi.KeyLine
import RpiWifi.KeyLineLaws
import RpiWifi.ClockDivider
import RpiWifi.BitFields
import RpiWifi.CardSize
import RpiWifi.Sleeps
import RpiWifi.SleepLaws
import RpiWifi.EarlySleeps
import RpiWifi.BlockTransfer
import RpiWifi.Conversations
import RpiWifi.SdHost
import RpiWifi.SdHostLaws
import RpiWifi.SdReads
import RpiWifi.FatGeometry
import RpiWifi.FieldReads
import RpiWifi.NumberLaw
import RpiWifi.TickCount
import RpiWifi.ExtendedTransfers
import RpiWifi.InterruptTable
import RpiWifi.KernelList
import RpiWifi.SectorSearch
import RpiWifi.FileContents
import RpiWifi.Traversal
import RpiWifi.Holdings
import RpiWifi.OutOfMemory
import RpiWifi.OutOfMemoryLaws
import RpiWifi.Printf
import RpiWifi.PrintfNumbers
import RpiWifi.PrintfSyntax
import RpiWifi.PrintfLaws
import RpiWifi.PrintfOutput
import RpiWifi.PrintfDevices
import RpiWifi.PrintfReadBack
import RpiWifi.PrintfBytes
import RpiWifi.Sections
import RpiWifi.PreemptedCalls
import RpiWifi.MailboxExchange
import RpiWifi.FrameInterrupts
import RpiWifi.Dma
import RpiWifi.DmaLaws
import RpiWifi.Arm
import RpiWifi.TaskSwitch
import RpiWifi.InterruptFrame
import RpiWifi.Contexts
import RpiWifi.ContextInvariant
import RpiWifi.ContextLaws
import RpiWifi.Dialogues
import RpiWifi.SdCard
import RpiWifi.SdContents
