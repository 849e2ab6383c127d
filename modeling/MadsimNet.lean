import MadsimNet.Vec
import MadsimNet.Rendezvous
import MadsimNet.Std.Mailbox
import MadsimNet.Sim.Endpoint
import MadsimNet.Safety
import MadsimNet.Agreement
import MadsimNet.Order
import MadsimNet.Std.Slices
import MadsimNet.Std.Frame
import MadsimNet.Std.Connection
import MadsimNet.Std.Routes
import MadsimNet.Sim.Network
import MadsimNet.Sim.Provenance
import MadsimNet.Sim.Conservation
import MadsimNet.Sim.Ports
import MadsimNet.Sim.Sockets
