import Chdkptp.RawActive
import Chdkptp.RawConvertPixel
import Chdkptp.PtpUsb
import Chdkptp.PtpIp
import Chdkptp.PtpIpData
import Chdkptp.PtpSend
import Chdkptp.PtpIpTotal
import Chdkptp.PtpContainer
import Chdkptp.PtpTransaction
import Chdkptp.PtpChdk
import Chdkptp.ChdkuExec
import Chdkptp.LuaText
import Chdkptp.LuaSerialize
import Chdkptp.LuaReadBack
import Chdkptp.LuaRoundTrip
import Chdkptp.MsgBatcher
import Chdkptp.DependencyOrder
import Chdkptp.LuaUtil
import Chdkptp.Rlibs
import Chdkptp.LbufAccess
import Chdkptp.LiveWrapper
import Chdkptp.LiveDump
import Chdkptp.FileTree
import Chdkptp.FsUtil
import Chdkptp.FindFiles
import Chdkptp.RmR
import Chdkptp.RemoteCapture
import Chdkptp.LiveFrame
import Chdkptp.LoopPasses
import Chdkptp.LivePixel
import Chdkptp.LiveImage
import Chdkptp.LiveLoops
import Chdkptp.LivePalette
import Chdkptp.LiveReads
import Chdkptp.PtpDataOut
import Chdkptp.RawBlackLevel
import Chdkptp.UsbRead
import Chdkptp.GuiSched
import Chdkptp.GuiHandles
import Chdkptp.GuiWakeup
import Chdkptp.Prefs
import Chdkptp.PrefsEarly
import Chdkptp.Rsint
import Chdkptp.RsintNames
import Chdkptp.FsCam
import Chdkptp.RlibPaths
import Chdkptp.Multicam
import Chdkptp.MulticamIds
import Chdkptp.LiveCalls
import Chdkptp.LivePlanes
import Chdkptp.LiveWrites
import Chdkptp.RawThumb
import Chdkptp.RawPatch
import Chdkptp.RlibBuild
import Chdkptp.ExecErrors
import Chdkptp.CaptureReturns
import Chdkptp.StatusWait
import Chdkptp.LiveImageDump
import Chdkptp.LiveReuse
import Chdkptp.LiveOrientation
import Chdkptp.PairsOrder
import Chdkptp.NumberSpelling
import Chdkptp.SerializeOptions
import Chdkptp.LbufValues
import Chdkptp.LbufCoherence
import Chdkptp.LbufIndex
import Chdkptp.LbufFill
import Chdkptp.RcProcessDng
import Chdkptp.DngEntry
import Chdkptp.DngArray
import Chdkptp.Fuelled
import Chdkptp.BindIfds
import Chdkptp.IfdWalk
import Chdkptp.IfdTree
import Chdkptp.SubIfds
import Chdkptp.DumpImage
import Chdkptp.Intervals
import Chdkptp.Histogram
import Chdkptp.Separated
import Chdkptp.PathExt
import Chdkptp.VarSubstGrammar
import Chdkptp.ArgParser
import Chdkptp.CliDownload
import Chdkptp.PathSplit
import Chdkptp.PathRejoin
import Chdkptp.MkdirM
import Chdkptp.LbufUtil
import Chdkptp.BoundFields
import Chdkptp.BitUtil
import Chdkptp.TableHeap
import Chdkptp.CompareValues
import Chdkptp.ExtendTable
import Chdkptp.LuaPattern
import Chdkptp.StringSplit
import Chdkptp.CamClock
import Chdkptp.ShootOpts
import Chdkptp.LuaLiteral
import Chdkptp.ListDir
import Chdkptp.CliSource
import Chdkptp.ImageNames
import Chdkptp.FindActions
import Chdkptp.Mupload
import Chdkptp.MulticamStatus
import Chdkptp.RsInit
import Chdkptp.CameraCalls
import Chdkptp.RsShoot
import Chdkptp.RsintSingle
import Chdkptp.WaitFile
import Chdkptp.Ls
import Chdkptp.CamFindSent
import Chdkptp.FindAlike
import Chdkptp.PlainNames
import Chdkptp.ByteLayout
import Chdkptp.PtpDataset
import Chdkptp.PtpObjectInfo
import Chdkptp.Conversation
import Chdkptp.McProtocol
import Chdkptp.McScript
import Chdkptp.PtpPropDesc
import Chdkptp.ResourceTrace
import Chdkptp.Connections
import Chdkptp.ConnectionCalls
import Chdkptp.KeyIndex
import Chdkptp.ConnectionRuns
