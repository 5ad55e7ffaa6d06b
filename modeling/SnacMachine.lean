import SnacMachine.Dns.Bounds
import SnacMachine.Srp.Deletion
import SnacMachine.Nat64.Crowding
import SnacMachine.Nat64.Filtering
import SnacMachine.Mdns.Advertise
import SnacMachine.Dns.Framing
import SnacMachine.Ip.RoundTrip
import SnacMachine.Nat64.Announcing
import SnacMachine.Dns.Encrypted
import SnacMachine.Router.Detection
import SnacMachine.Router.Leases
import SnacMachine.Nat64.Allocation
import SnacMachine.Nat64.Sizes
import SnacMachine.Persist.Replace
import SnacMachine.Nat64.Blocking
import SnacMachine.Ip.RaServices
import SnacMachine.Discovery.Answer
import SnacMachine.Discovery.Denial
import SnacMachine.Lib.Lex
import SnacMachine.Mdns.Packing
import SnacMachine.Mdns.Freshness
import SnacMachine.Nat64.Faithful
import SnacMachine.Lib.Window
import SnacMachine.Ipv4.Delivery
import SnacMachine.Ipv4.Acquisition
