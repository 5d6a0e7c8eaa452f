import Cdc2Net.SinkTcp.TelnetMalformed
import Cdc2Net.SinkTcp.Ownership
import Cdc2Net.SinkTcp.RawSession
import Cdc2Net.SinkTcp.SourceDown
import Cdc2Net.SinkTcp.ControlFrames
import Cdc2Net.Bridge.TxLock
import Cdc2Net.Radio.Usable
import Cdc2Net.Radio.ChipFence
import Cdc2Net.SinkTcp.SlotLeak
import Cdc2Net.SinkTcp.Replay
import Cdc2Net.SinkTcp.UartReplies
import Cdc2Net.SinkTcp.CpoReply
import Cdc2Net.SinkTcp.TnSend
import Cdc2Net.Ota.TwoPaths
import Cdc2Net.Web.OwnerFrame
import Cdc2Net.Net.Recovery
import Cdc2Net.Source.RebootScan
import Cdc2Net.Source.UsbHandle
import Cdc2Net.Source.CherryClaim
import Cdc2Net.Source.UsbIdentity
import Cdc2Net.Dfu.Flashing
import Cdc2Net.Dfu.Transfer
import Cdc2Net.Dfu.EnterBootloader
import Cdc2Net.Net.WifiConfig
import Cdc2Net.Net.CaptiveDns
import Cdc2Net.Net.CaptiveDnsTask
import Cdc2Net.Net.ConnectivityWdt
import Cdc2Net.Web.ConfigOverlay
import Cdc2Net.Web.EscapeBuffer
import Cdc2Net.Log.Page
import Cdc2Net.Main.Watchdog
import Cdc2Net.Improv.Window
import Cdc2Net.Improv.ScanEvents
import Cdc2Net.Improv.SerialFilter
import Cdc2Net.Release.Manifest
import Cdc2Net.Web.SerialGet
import Cdc2Net.Web.SerialList
import Cdc2Net.Lib.RingQueue
import Cdc2Net.Source.CherryDelivery
import Cdc2Net.Source.CherryRunaway
import Cdc2Net.Bridge.Fanout
import Cdc2Net.Bridge.Master
import Cdc2Net.Source.Dwc2
import Cdc2Net.Source.Dwc2Channels
import Cdc2Net.Source.Dwc2Stale
import Cdc2Net.Source.ConfigDesc
import Cdc2Net.Source.ConfigTables
import Cdc2Net.Source.DevAddress
import Cdc2Net.Source.HubPoll
