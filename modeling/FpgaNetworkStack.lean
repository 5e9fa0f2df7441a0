import FpgaNetworkStack.Toe.RetransmitBurst
import FpgaNetworkStack.Toe.CongestionWindow
import FpgaNetworkStack.Toe.WriteStatus
import FpgaNetworkStack.Toe.FinLast
import FpgaNetworkStack.Roce.ReadHandOver
import FpgaNetworkStack.Roce.GoBackN
import FpgaNetworkStack.Roce.MultiQueueRest
import FpgaNetworkStack.Toe.PortChecks
import FpgaNetworkStack.Toe.WindowScale
import FpgaNetworkStack.Toe.PortLifecycle
import FpgaNetworkStack.Toe.Notifications
import FpgaNetworkStack.Roce.NakOnce
import FpgaNetworkStack.Roce.PsnAllocation
import FpgaNetworkStack.Roce.RequesterWindow
import FpgaNetworkStack.Roce.DmaWrites
import FpgaNetworkStack.Roce.ResponseOrder
import FpgaNetworkStack.Toe.CuckooFailure
import FpgaNetworkStack.Toe.RetransmitLog
import FpgaNetworkStack.Toe.ProbeTimer
import FpgaNetworkStack.Toe.DelayedAcks
import FpgaNetworkStack.Toe.EventQuiescence
import FpgaNetworkStack.Toe.TimerCoverage
import FpgaNetworkStack.Toe.TimerOwnership
import FpgaNetworkStack.Toe.FinAcceptance
import FpgaNetworkStack.Toe.AdvertisedWindow
import FpgaNetworkStack.Toe.NotificationOrder
import FpgaNetworkStack.Toe.UsableWindow
import FpgaNetworkStack.Roce.RxExhProgress
import FpgaNetworkStack.Roce.RetransRecords
import FpgaNetworkStack.Dhcp.Adoption
import FpgaNetworkStack.Roce.PacketLengths
import FpgaNetworkStack.Roce.TimerCover
import FpgaNetworkStack.Udp.RoundTrip
import FpgaNetworkStack.IpHandler.Filter
import FpgaNetworkStack.Icmp.Deadlock
import FpgaNetworkStack.Icmp.ErrorReplies
import FpgaNetworkStack.Toe.OptionStrip
import FpgaNetworkStack.Toe.BufferWriters
import FpgaNetworkStack.Toe.AppReadBack
import FpgaNetworkStack.Ipv6.RoundTrip
import FpgaNetworkStack.Roce.PmtuCut
import FpgaNetworkStack.Crc.ExtractIcrc
import FpgaNetworkStack.Crc.IcrcNet
import FpgaNetworkStack.ArpServer.Packets
import FpgaNetworkStack.MacIpEncode.Frames
import FpgaNetworkStack.Axi.Shifters
import FpgaNetworkStack.Axi.FairMerger
import FpgaNetworkStack.Axi.StreamWidth
import FpgaNetworkStack.Roce.HeaderRegister
import FpgaNetworkStack.Toe.StateClients
import FpgaNetworkStack.Ethernet.Link
