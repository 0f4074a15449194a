import Simtrace2.Lib.Run
import Simtrace2.Lib.Bytes
import Simtrace2.Lib.Packets
import Simtrace2.Msgb
import Simtrace2.Prot
import Simtrace2.CardEmu.Activation
import Simtrace2.CardEmu.Direction
import Simtrace2.Usb.BufferedEp
import Simtrace2.Usb.Framing
import Simtrace2.Sniffer.Convention
import Simtrace2.Sniffer.History
import Simtrace2.Sniffer.Resync
import Simtrace2.Sniffer.Provenance
import Simtrace2.Sniffer.Reconstruct
import Simtrace2.Sniffer.AtrGrammar
import Simtrace2.CardEmu.Transparency
import Simtrace2.CardEmu.Bounds
import Simtrace2.Proxy.Attribution
import Simtrace2.Proxy.EndToEnd
import Simtrace2.Host.Sniff
import Simtrace2.CardEmu.Conditioning
import Simtrace2.Proxy.Resets
import Simtrace2.Proxy.Requests
import Simtrace2.Negotiation
import Simtrace2.Firmware.Ownership
import Simtrace2.CardEmu.Stray
import Simtrace2.CardEmu.NullBytes
import Simtrace2.CardEmu.WaitingTime
import Simtrace2.Dfu.Download
import Simtrace2.Firmware.Segmentation
import Simtrace2.Host.Segments
import Simtrace2.Sniffer.Negotiated
import Simtrace2.WaitingInteger
import Simtrace2.Ringbuffer
import Simtrace2.Crcstub
import Simtrace2.Host.Reissue
import Simtrace2.Dfu.Upload
import Simtrace2.CardEmu.Disarm
import Simtrace2.Sniffer.Supervision
import Simtrace2.Timers.Perst
import Simtrace2.Lib.RedBlack
import Simtrace2.Lib.LinkedTree
import Simtrace2.Rbtree.Insert
import Simtrace2.Rbtree.Walk
import Simtrace2.Rbtree.Erase
import Simtrace2.Timers.TimerTree
import Simtrace2.Host.SniffLink
import Simtrace2.Usb.UdpIn
import Simtrace2.Usb.UdpPipe
import Simtrace2.Usb.UdpOut
import Simtrace2.Dfu.Flashd
import Simtrace2.Dfu.Boot
import Simtrace2.Dfu.Update
import Simtrace2.Reader.Tpdu
import Simtrace2.Reader.Atr
import Simtrace2.Lib.Circle
import Simtrace2.Firmware.Queues
import Simtrace2.Usb.EpMemory
import Simtrace2.Firmware.MainLoop
