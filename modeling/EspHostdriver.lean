import EspHostdriver.Core.Machine
import EspHostdriver.Core.Fifo
import EspHostdriver.Core.Text
import EspHostdriver.Core.Heap
import EspHostdriver.Core.Roster
import EspHostdriver.Core.Links
import EspHostdriver.Core.Forest
import EspHostdriver.Core.Fields
import EspHostdriver.Sys.Ringbuf
import EspHostdriver.Sys.List2
import EspHostdriver.Sys.List1
import EspHostdriver.Sys.ForEach
import EspHostdriver.Sys.Checked
import EspHostdriver.Bos.Fs
import EspHostdriver.Bos.NodeTree
import EspHostdriver.Bos.Subtree
import EspHostdriver.Bos.Creation
import EspHostdriver.Bos.Memory
import EspHostdriver.Net.Inet
import EspHostdriver.Net.Socket
import EspHostdriver.Esp01.Command
import EspHostdriver.Esp01.Driver
import EspHostdriver.Esp01.Reader
import EspHostdriver.Esp01.Buffer
import EspHostdriver.Esp01.Wire
import EspHostdriver.Net.Netdev
import EspHostdriver.Net.System
import EspHostdriver.Net.Calls
import EspHostdriver.Net.Effects
import EspHostdriver.Net.Ownership
import EspHostdriver.Scenarios.StreamDelivery
import EspHostdriver.Scenarios.DatagramDelivery
import EspHostdriver.Scenarios.CloseReleases
import EspHostdriver.Scenarios.CallsComplete
import EspHostdriver.Scenarios.SendExact
import EspHostdriver.Scenarios.Framing
import EspHostdriver.Scenarios.AcceptNested
import EspHostdriver.Scenarios.CommandMatching
import EspHostdriver.Scenarios.OutputIntegrity
import EspHostdriver.Scenarios.CallsReturn
import EspHostdriver.Scenarios.LinkTable
import EspHostdriver.Scenarios.RingbufFifo
import EspHostdriver.Scenarios.RingbufShared
import EspHostdriver.Scenarios.DescriptorTable
import EspHostdriver.Scenarios.Isolation
import EspHostdriver.Scenarios.PeerClose
import EspHostdriver.Scenarios.NodeNames
import EspHostdriver.Scenarios.FailAtomic
import EspHostdriver.Scenarios.ReaderSafety
import EspHostdriver.Scenarios.HandlerSafety
import EspHostdriver.Scenarios.DestroyWhole
import EspHostdriver.Scenarios.CreateWhole
import EspHostdriver.Scenarios.Rendering
import EspHostdriver.Scenarios.ConfigText
import EspHostdriver.Scenarios.StatusLookup
import EspHostdriver.Scenarios.NumberText
import EspHostdriver.Scenarios.AcceptFifo
import EspHostdriver.Scenarios.AddressText
import EspHostdriver.Scenarios.StorageFits
import EspHostdriver.Scenarios.CopyOut
import EspHostdriver.Scenarios.MemorySafety
import EspHostdriver.Scenarios.PrivateQueues
import EspHostdriver.Core.Transducer
import EspHostdriver.Core.Announced
import EspHostdriver.Scenarios.WireEvents
import EspHostdriver.Scenarios.WireDelivery
import EspHostdriver.Scenarios.WireSending
import EspHostdriver.Main.Opt
import EspHostdriver.Main.Program
import EspHostdriver.Scenarios.ProgramSafety
import EspHostdriver.Scenarios.ThreadPerClient
import EspHostdriver.Scenarios.Startup
import EspHostdriver.Scenarios.EchoServer
