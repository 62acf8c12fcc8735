import TransportProxy.Foundations.Machine
import TransportProxy.Foundations.Leads
import TransportProxy.Foundations.View
import TransportProxy.Foundations.Simulation
import TransportProxy.Foundations.Wire
import TransportProxy.Foundations.Channel
import TransportProxy.Foundations.Retry
import TransportProxy.Foundations.Marks
import TransportProxy.Foundations.Restrict
import TransportProxy.Foundations.Semaphore
import TransportProxy.Foundations.LittleEndian
import TransportProxy.Foundations.Cutter
import TransportProxy.Foundations.Hex
import TransportProxy.Bridge.Halves
import TransportProxy.Bridge.Steps
import TransportProxy.Bridge.Ledger
import TransportProxy.Bridge.Ownership
import TransportProxy.Bridge.Wake
import TransportProxy.Bridge.Receive
import TransportProxy.Bridge.Forward
import TransportProxy.Bridge.Picoquic
import TransportProxy.Bridge.SendHalf
import TransportProxy.Bridge.Rechunk
import TransportProxy.Client.Callbacks
import TransportProxy.Client.Steps
import TransportProxy.Client.SendOrder
import TransportProxy.Client.Close
import TransportProxy.Client.Wake
import TransportProxy.Client.Receive
import TransportProxy.Client.Connect
import TransportProxy.Client.Handshake
import TransportProxy.Client.Terminate
import TransportProxy.Client.OwnStream
import TransportProxy.Server.Callbacks
import TransportProxy.Server.Steps
import TransportProxy.Server.Streams
import TransportProxy.Server.Links
import TransportProxy.Server.Drain
import TransportProxy.Server.Wake
import TransportProxy.Server.Receive
import TransportProxy.Server.Accept
import TransportProxy.Server.Routing
import TransportProxy.Server.Kept
import TransportProxy.Server.Echo
import TransportProxy.Server.Steady
import TransportProxy.Server.Isolation
import TransportProxy.Server.Closed
import TransportProxy.Server.Discard
import TransportProxy.WakeUp
import TransportProxy.ReceivePath
import TransportProxy.EchoConservation
import TransportProxy.Server.Forward
import TransportProxy.Duplex.Machine
import TransportProxy.Duplex.Connections
import TransportProxy.Duplex.Order
import TransportProxy.Duplex.Conservation
import TransportProxy.Duplex.Ends
import TransportProxy.Duplex.OwnStream
import TransportProxy.Tunnel.Machine
import TransportProxy.Tunnel.Order
import TransportProxy.Tunnel.Conservation
import TransportProxy.Tunnel.Ready
import TransportProxy.Tunnel.Progress
import TransportProxy.Network.Machine
import TransportProxy.Network.Isolation
import TransportProxy.Network.Progress
import TransportProxy.StreamEnd
import TransportProxy.OnlyShutdown
import TransportProxy.LastBytes
import TransportProxy.HandlerDone
import TransportProxy.TimeCheck
import TransportProxy.Connected
import TransportProxy.HalfClose
import TransportProxy.DrainRefinement
import TransportProxy.Client.Forward
import TransportProxy.Accepting.Loop
import TransportProxy.Accepting.Shutdown
import TransportProxy.Accepting.Starved
import TransportProxy.Accepting.Served
import TransportProxy.Server.Thread
import TransportProxy.ThreadEnd
import TransportProxy.Relay
import TransportProxy.Bench.KcpRoundtrip
import TransportProxy.Bench.QuinnEcho
import TransportProxy.Bench.QuinnFraming
import TransportProxy.Bench.QuinnOneShot
import TransportProxy.Bench.PacketFeed
import TransportProxy.LoadTest.Client
import TransportProxy.LoadTest.Report
import TransportProxy.LoadTest.Echo
import TransportProxy.Proxy.Direct
import TransportProxy.Proxy.Connections
import TransportProxy.Proxy.FirstByte
import TransportProxy.Proxy.Relay
import TransportProxy.Proxy.Machine
import TransportProxy.Proxy.EndToEnd
import TransportProxy.Proxy.HalfClose
