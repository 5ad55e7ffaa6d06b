import SnacMachine.Ipv4.Arp
import SnacMachine.Lib.Total

/-!
# The IPv4 host

The host on the AIL (`ipv4/mod.rs`): its address and routes, the neighbors that it resolves by ARP,
the packets that wait for them and the packets that it has received. A call that would panic returns
`none`.
-/

namespace SnacMachine

namespace Ipv4

open Ip Nat64

/-- Whether two addresses share their first bits. Reference: `same_prefix` (`ipv4/mod.rs:343`). -/
def samePrefix (a b : Ipv4Addr) (length : Nat) : Bool :=
  ofBe a.1 / 2 ^ (32 - length) == ofBe b.1 / 2 ^ (32 - length)

/-- The bits of an address after a prefix. -/
def hostBits (a : Ipv4Addr) (length : Nat) : Nat := ofBe a.1 % 2 ^ (32 - length)

/-- Reference: `host_address` (`ipv4/mod.rs:347`). -/
def hostAddress (address : Ipv4Addr) (length : Nat) : Bool :=
  length ≥ 31 ||
    (hostBits address length != 0 && hostBits address length != 2 ^ (32 - length) - 1)

/-- Reference: `ethernet` (`ipv4/mod.rs:328`). -/
def ethernet (source destination : Mac) (payload : Bytes) : Bytes :=
  destination.1 ++ source.1 ++ [8, 0] ++ payload

/-- Reference: `Route` (`ipv4/mod.rs:28`). -/
structure Route where
  network : Ipv4Addr
  length : Nat
  gateway : Ipv4Addr
  deriving DecidableEq

/-- Reference: `Neighbor` (`ipv4/mod.rs:10`). -/
structure Neighbor where
  mac : Option Mac
  deadline : Nat
  attempts : Nat
  queue : List Bytes

end Ipv4

open Ipv4 in
/-- Reference: `Ipv4` (`ipv4/mod.rs:16`). -/
structure Ipv4 where
  mac : Mac
  address : Option (Ipv4Addr × Nat)
  gateway : Option Ipv4Addr
  neighbors : OrdMap Ipv4Addr Neighbor
  routes : List Route
  input : List Bytes
  arpWindow : Nat
  arpSent : Nat

namespace Ipv4

open Ip Nat64

/-- The last of the elements of a list with the greatest key. Reference: `Iterator::max_by_key`. -/
def maxByKey {α : Type} (key : α → Nat) : List α → Option α
  | [] => none
  | a :: l =>
    match maxByKey key l with
    | none => some a
    | some b => if key b < key a then some a else some b

/-- Failure with a text. Reference: `io::Error::other`. -/
def otherError (text : String) : IoError := ⟨.other, text⟩

/-- Reference: `Ipv4::new` (`ipv4/mod.rs:38`). -/
def new (mac : Mac) : Ipv4 := ⟨mac, none, none, .empty, [], [], 0, 0⟩

/-- Reference: `Ipv4::default` (`ipv4/mod.rs:33`). -/
def default : Ipv4 := new (.new 2 0 0 0 0 1)

/-- Reference: `Ipv4::configure` (`ipv4/mod.rs:50`). -/
def configure (h : Ipv4) (address : Ipv4Addr) (length : Nat) (gateway : Option Ipv4Addr) :
    Except IoError Unit × Ipv4 :=
  if length > 32 ∨ unicast address = false ∨ hostAddress address length = false ∨
      (gateway.any fun g => unicast g == false || samePrefix address g length == false) then
    (.error (otherError "invalid IPv4 address/route"), h)
  else (.ok (), { h with
    address := some (address, length), gateway, neighbors := .empty, routes := [], input := [] })

/-- Reference: `Ipv4::unavailable` (`ipv4/mod.rs:70`). -/
def unavailable (h : Ipv4) : Ipv4 :=
  { h with address := none, gateway := none, neighbors := .empty, routes := [], input := [] }

/-- Whether a route is refused. Reference: `Ipv4::set_routes` (`ipv4/mod.rs:91`). -/
def refusesRoute (address : Ipv4Addr) (length : Nat) (r : Route) : Bool :=
  r.length > 32 || (r.length != 0 && unicast r.network == false) ||
  hostBits r.network r.length != 0 ||
    (isUnspecified r.gateway == false &&
      (unicast r.gateway == false || hostAddress r.gateway length == false ||
        samePrefix address r.gateway length == false))

/-- Reference: `Ipv4::set_routes` (`ipv4/mod.rs:86`). -/
def setRoutes (h : Ipv4) (routes : List Route) : Except IoError Unit × Ipv4 :=
  match h.address with
  | none => (.error (otherError "IPv4 unavailable"), h)
  | some (address, length) =>
    if routes.length > 64 ∨ routes.any (refusesRoute address length) then
      (.error (otherError "invalid IPv4 routes/capacity"), h)
    else (.ok (), { h with routes, neighbors := .empty })

/-- Reference: `Ipv4::take_packet` (`ipv4/mod.rs:111`). -/
def takePacket (h : Ipv4) : Option Bytes × Ipv4 := (h.input.head?, { h with input := h.input.tail })

/-- The most specific route to a destination, if it is more specific than the link. Reference:
`Ipv4::next_hop` (`ipv4/mod.rs:127`). -/
def route (h : Ipv4) (address : Ipv4Addr) (length : Nat) (destination : Ipv4Addr) : Option Route :=
  (maxByKey Route.length (h.routes.filter fun r =>
    samePrefix r.network destination r.length)).filter
    fun r => r.length > length || samePrefix address destination length == false

/-- Reference: `Ipv4::next_hop` (`ipv4/mod.rs:114`). -/
def nextHop (h : Ipv4) (destination : Ipv4Addr) : Option Ipv4Addr :=
  match h.address with
  | none => none
  | some (address, length) =>
    if unicast destination = false then none
    else if length < 31 ∧ samePrefix address destination length ∧
        (hostBits destination length = 2 ^ (32 - length) - 1 ∨ hostBits destination length = 0) then
      none
    else
      match h.route address length destination with
      | some r => some (if isUnspecified r.gateway then destination else r.gateway)
      | none => if samePrefix address destination length then some destination else h.gateway

/-- Reference: `Ipv4::probe` (`ipv4/mod.rs:146`). -/
def probe (h : Ipv4) (destination : Ipv4Addr) : Option Bytes :=
  h.address.map fun a => Arp.encode ⟨1, h.mac, a.1, .zero, destination⟩ .broadcast

/-- Reference: `Ipv4::allow_arp` (`ipv4/mod.rs:156`). -/
def allowArp (h : Ipv4) (now : Nat) : Bool × Ipv4 :=
  let h := if now ≥ satAdd h.arpWindow 1000 then { h with arpWindow := now, arpSent := 0 } else h
  if h.arpSent ≥ 32 then (false, h) else (true, { h with arpSent := h.arpSent + 1 })

/-- How many packets wait. -/
def queuedPackets (h : Ipv4) : Nat := h.neighbors.total fun _ n => n.queue.length

/-- How many octets wait. -/
def queuedBytes (h : Ipv4) : Nat := h.neighbors.total fun _ n => (n.queue.map List.length).sum

/-- The frame for a packet to a neighbor that is known. Reference: `Ipv4::send`
(`ipv4/mod.rs:172`). -/
def sendKnown (h : Ipv4) (next : Ipv4Addr) (bytes : Bytes) (now : Nat) : Option Bytes :=
  (h.neighbors.get next).bind fun n =>
    if n.deadline > now then n.mac.map fun mac => ethernet h.mac mac bytes else none

/-- Whether no packet is taken for a neighbor. Reference: `Ipv4::send` (`ipv4/mod.rs:188`). -/
def full (h : Ipv4) (next : Ipv4Addr) (packet : Bytes) : Bool :=
  (h.neighbors.contains next == false && h.neighbors.size ≥ 256) || h.queuedPackets ≥ 64 ||
    h.queuedBytes + packet.length > 256 * 1024 ||
    (h.neighbors.get next).any fun n => n.queue.length ≥ 4

/-- A packet waits for a neighbor. Reference: `Ipv4::send` (`ipv4/mod.rs:201`). -/
def enqueue (h : Ipv4) (next : Ipv4Addr) (bytes : Bytes) (now : Nat) :
    Option (Except IoError (List Bytes) × Ipv4) :=
  let first := h.neighbors.contains next == false
  let n := (h.neighbors.get next).getD ⟨none, satAdd now 1000, 0, []⟩
  let n := { n with queue := n.queue ++ [bytes] }
  let h := { h with neighbors := h.neighbors.insert next n }
  if first then
    match h.allowArp now with
    | (false, h) => some (.ok [], h)
    | (true, h) =>
      let h := { h with neighbors := h.neighbors.insert next { n with attempts := 1 } }
      (h.probe next).map fun frame => (.ok [frame], h)
  else some (.ok [], h)

/-- Reference: `Ipv4::send` (`ipv4/mod.rs:167`). -/
def send (h : Ipv4) (packet : Bytes) (now : Nat) : Option (Except IoError (List Bytes) × Ipv4) :=
  match Packet.parse packet with
  | .error e => some (.error e, h)
  | .ok p =>
    match h.nextHop p.destination with
    | none => some (.error (otherError "IPv4 destination unreachable"), h)
    | some next =>
      match h.sendKnown next p.bytes now with
      | some frame => some (.ok [frame], h)
      | none =>
        let h := { h with
          neighbors := h.neighbors.retain fun _ n => n.mac.isNone || n.deadline > now }
        if h.full next packet then
          some (.error ⟨.wouldBlock, "IPv4 neighbor/queue capacity"⟩, h)
        else h.enqueue next p.bytes now

/-- A packet is received. Reference: `Ipv4::receive` (`ipv4/mod.rs:228`). -/
def receivePacket (h : Ipv4) (address : Ipv4Addr) (frame : Bytes) : Ipv4 :=
  match Packet.parse (frame.drop 14) with
  | .error _ => h
  | .ok p =>
    if p.destination = address ∧ unicast p.source ∧ p.ttl > 0 ∧ frame.take 6 = h.mac.1 ∧
        h.input.length < 64 ∧ (h.input.map List.length).sum + p.bytes.length ≤ 256 * 1024 then
      { h with input := h.input ++ [p.bytes] }
    else h

/-- Whether a neighbor is learned from an ARP message. Reference: `Ipv4::receive`
(`ipv4/mod.rs:255`). -/
def learns (h : Ipv4) (a : Arp) : Bool :=
  isUnspecified a.sender == false && (h.neighbors.contains a.sender || a.operation == 1) &&
    (h.neighbors.contains a.sender || h.neighbors.size < 256) &&
    (a.operation == 1 ||
      (h.neighbors.get a.sender).any fun n => n.mac == none || n.mac == some a.senderMac)

/-- A neighbor is known, and what waited for it is sent. Reference: `Ipv4::receive`
(`ipv4/mod.rs:265`). -/
def learn (h : Ipv4) (a : Arp) (now : Nat) : List Bytes × Ipv4 :=
  let queue := ((h.neighbors.get a.sender).map Neighbor.queue).getD []
  (queue.map (ethernet h.mac a.senderMac),
    { h with neighbors :=
        h.neighbors.insert a.sender ⟨some a.senderMac, satAdd now 60000, 0, []⟩ })

/-- Reference: `Ipv4::receive` (`ipv4/mod.rs:216`). -/
def receive (h : Ipv4) (frame : Bytes) (now : Nat) : List Bytes × Ipv4 :=
  match h.address with
  | none => ([], h)
  | some (address, length) =>
    if frame.length < 14 ∨ (frame.drop 6).take 6 = h.mac.1 ∨ octet frame 6 &&& 1 ≠ 0 ∨
        (frame.drop 6).take 6 = Mac.zero.1 ∨
        (octet frame 0 &&& 1 = 0 ∧ frame.take 6 ≠ h.mac.1) then ([], h)
    else if (frame.drop 12).take 2 = [8, 0] then ([], h.receivePacket address frame)
    else
      match Arp.parse frame with
      | .error _ => ([], h)
      | .ok a =>
        if a.senderMac = h.mac ∨ a.sender = address ∨ a.target ≠ address ∨
            (isUnspecified a.sender = false ∧
             samePrefix address a.sender length = false) then ([], h)
        else
          let (out, h) := if h.learns a then h.learn a now else ([], h)
          if a.operation = 1 then
            match h.allowArp now with
            | (false, h) => (out, h)
            | (true, h) =>
              (out ++ [Arp.encode ⟨2, h.mac, address, a.senderMac, a.sender⟩ a.senderMac], h)
          else (out, h)

/-- Whether `poll` keeps a neighbor. Reference: `Ipv4::poll` (`ipv4/mod.rs:292`). -/
def pollKeeps (now : Nat) (n : Neighbor) : Bool :=
  now < n.deadline || (n.mac.isNone && n.attempts < 3)

/-- A neighbor is asked for again, unless there were too many ARP messages. Reference: `Ipv4::poll`
(`ipv4/mod.rs:304`). -/
def askAgain (h : Ipv4) (ip : Ipv4Addr) (now : Nat) : Option (Option Bytes × Ipv4) :=
  match h.allowArp now with
  | (false, h) => some (none, h)
  | (true, h) =>
    (h.neighbors.get ip).bind fun n =>
      let n := { n with attempts := n.attempts + 1, deadline := satAdd now 1000 }
      let h := { h with neighbors := h.neighbors.insert ip n }
      (h.probe ip).map fun frame => (some frame, h)

/-- The loop of `poll` over the neighbors that are asked for again. Reference: `Ipv4::poll`
(`ipv4/mod.rs:303`). -/
def pollProbes (now : Nat) : List Ipv4Addr → Ipv4 → Option (List Bytes × Ipv4)
  | [], h => some ([], h)
  | ip :: ips, h =>
    (h.askAgain ip now).bind fun r =>
      match r.1 with
      | none => some ([], r.2)
      | some frame => (pollProbes now ips r.2).map fun s => (frame :: s.1, s.2)

/-- Reference: `Ipv4::poll` (`ipv4/mod.rs:290`). -/
def poll (h : Ipv4) (now : Nat) : Option (List Bytes × Ipv4) :=
  let due := (h.neighbors.retain fun _ n => !decide (now < n.deadline) && pollKeeps now n).keys
  pollProbes now due { h with neighbors := h.neighbors.retain fun _ n => pollKeeps now n }

end Ipv4

end SnacMachine
