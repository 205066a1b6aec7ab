import NdkSw.Ndp.TxV2
import NdkSw.Ndp.TxV2Inv
import NdkSw.Medusa.Mps
import NdkSw.Medusa.MpsLayout
import NdkSw.Bits.Field
import NdkSw.Medusa.Desc
import NdkSw.Medusa.Ctrl
import NdkSw.Medusa.Rx
import NdkSw.Medusa.RxStream
import NdkSw.Medusa.RxInv
import NdkSw.Medusa.Tx
import NdkSw.Medusa.TxInv
import NdkSw.Medusa.TxAccount
import NdkSw.Medusa.TxProgress
import NdkSw.Medusa.DescStream
import NdkSw.Ndp.RxV2
import NdkSw.Ndp.RxV2Inv
import NdkSw.Ndp.RxV2Deliver
import NdkSw.Calypte.Rx
import NdkSw.Calypte.RxScan
import NdkSw.Calypte.RxInv
import NdkSw.Calypte.RxDeliver
import NdkSw.Calypte.RxUspace
import NdkSw.Ndp.TxBounds
import NdkSw.Ndp.RxBounds
import NdkSw.Ndp.Book
import NdkSw.Ndp.Flags
import NdkSw.Ndp.TxCtrl
import NdkSw.Medusa.MpsUsable
import NdkSw.Medusa.Reconf
import NdkSw.Calypte.Tx
import NdkSw.Calypte.TxUspace
import NdkSw.Calypte.TxUspaceInv
import NdkSw.Calypte.TxUspaceRun
import NdkSw.Nfb.Lock
import NdkSw.Nfb.CharMmap
import NdkSw.Xdp.Ethdev
import NdkSw.Calypte.Geometry
import NdkSw.Ring.Window
import NdkSw.Xdp.Tx
import NdkSw.Xdp.TxInv
import NdkSw.Xdp.TxOwn
import NdkSw.Xdp.TxUndo
import NdkSw.Xdp.Rx
import NdkSw.Xdp.RxInv
import NdkSw.Xdp.RxOwn
import NdkSw.Xdp.Destroy
import NdkSw.Ndp.Handle
import NdkSw.Ndp.Geometry
import NdkSw.Ndp.HandleInv
import NdkSw.Ndp.GeometryInv
import NdkSw.Nfb.CharOpen
import NdkSw.Nfb.DtbInject
import NdkSw.Nfb.MiCopy
import NdkSw.Calypte.ReadBack
import NdkSw.Ndp.TxV1
import NdkSw.Ndp.TxV1Inv
import NdkSw.Ring.Store
import NdkSw.Ndp.RxV1
import NdkSw.Ndp.V1Format
import NdkSw.Ndp.RxV1Inv
import NdkSw.Ndp.RxV1Deliver
import NdkSw.Nfb.MiMap
import NdkSw.Xdp.Channel
import NdkSw.Nfb.NetService
import NdkSw.Bits.Narrow
import NdkSw.Grpc.CompAccess
import NdkSw.Grpc.DmaResponder
import NdkSw.Ndp.RxV1Walk
import NdkSw.Ndp.TxRecover
import NdkSw.Ndp.TxRecoverV2
import NdkSw.Calypte.TxRecover
import NdkSw.Bits.Fill
import NdkSw.Calypte.TxPad
import NdkSw.Ndp.SzeDesc
import NdkSw.Json.Grammar
import NdkSw.Ni.PluginJson
import NdkSw.Ni.CallParts
import NdkSw.Ni.Info
import NdkSw.Ni.InfoJson
import NdkSw.Nfb.Reload
import NdkSw.Boot.MtdIoctl
import NdkSw.Medusa.RingSetters
import NdkSw.Nfb.CompBounds
import NdkSw.Bits.Align
import NdkSw.Ndp.TxCopy
import NdkSw.Shared.Segments
import NdkSw.Calypte.TxStage
import NdkSw.Boot.Load
import NdkSw.Shared.Tiling
import NdkSw.Boot.Partition
import NdkSw.Boot.Write
import NdkSw.Boot.BmcSpi
import NdkSw.Boot.FpgaLoad
import NdkSw.Boot.FileUpload
import NdkSw.Nfb.Attach
import NdkSw.Boot.BitFile
import NdkSw.Shared.Framed
import NdkSw.Boot.McsLoad
import NdkSw.Shared.EvenShare
import NdkSw.Nfb.IfcMap
import NdkSw.Net.QueueConfig
import NdkSw.Net.Tsu
import NdkSw.Net.Transmission
import NdkSw.Shared.OptionText
import NdkSw.Shared.IntText
import NdkSw.Tools.ListRange
import NdkSw.Xdp.NetdevCmd
import NdkSw.Xdp.Open
import NdkSw.Shared.LockedCalls
import NdkSw.Net.RxMac
import NdkSw.Tools.ListParse
import NdkSw.Tools.LoopbackHw
import NdkSw.Bits.Bytes
import NdkSw.Tools.StructuredPacket
import NdkSw.Tools.DmaSums
import NdkSw.Shared.Stock
import NdkSw.Tools.Stats
import NdkSw.Tools.StatsRun
import NdkSw.Tools.PacketLimit
import NdkSw.Tools.XdpFrames
import NdkSw.Tools.XdpQueues
import NdkSw.Tools.ListGrammar
import NdkSw.Tools.ExpandFormat
import NdkSw.Tools.QueryParse
import NdkSw.Boot.Rbf
import NdkSw.Nfb.CompFind
import NdkSw.Shared.Replay
import NdkSw.Tools.PcapReplay
import NdkSw.Tools.PcapCapture
import NdkSw.Tools.HeaderTime
import NdkSw.Shared.OrderedWalk
import NdkSw.Boot.Dfl
import NdkSw.Boot.Sdm
import NdkSw.Xdp.RxMacs
import NdkSw.Boot.SdmFrames
import NdkSw.Boot.SdmRead
import NdkSw.Boot.Download
import NdkSw.Boot.MtdWrite
import NdkSw.Shared.HexText
import NdkSw.Tools.BusDump
import NdkSw.Nfb.Drivers
import NdkSw.Nfb.DriversInv
import NdkSw.Calypte.TxKernel
import NdkSw.Calypte.TxKernelRun
import NdkSw.Tools.Loopback
