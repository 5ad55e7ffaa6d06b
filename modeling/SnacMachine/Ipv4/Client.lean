import SnacMachine.Ipv4.Message
import SnacMachine.Lib.Outcome
import SnacMachine.Lib.Run

/-!
# The DHCPv4 client

The client that acquires an IPv4 address (`ipv4/dhcp/mod.rs`): its exchange with the servers, the
ARP probes for an address before it is used, and the link-local address that it takes when no server
answers. A call may fail half way, when the random source does; what it did before stays done.
-/

namespace SnacMachine.Ipv4

open Ip Nat64

/-- Reference: `State` (`ipv4/dhcp/mod.rs:27`). -/
inductive Phase
  | selecting | requesting | reboot | bound | renewing | rebinding | stopped
  deriving DecidableEq

/-- Reference: `OutputKind` (`ipv4/dhcp/mod.rs:37`). -/
inductive OutputKind
  | broadcast | unicast | arp
  deriving DecidableEq

/-- Reference: `Output` (`ipv4/dhcp/mod.rs:43`). -/
structure Output where
  kind : OutputKind
  packet : Bytes

/-- Reference: `Probe` (`ipv4/dhcp/mod.rs:47`). -/
structure Probe where
  address : Ipv4Addr
  lease : Option Lease
  sent : Nat
  next : Nat

/-- Reference: `Client` (`ipv4/dhcp/mod.rs:53`). -/
structure Client where
  mac : Mac
  xid : Nat
  state : Phase
  offers : List Lease
  selected : Option Lease
  active : Option Lease
  probe : Option Probe
  next : Nat
  started : Nat
  retry : Nat
  linkLocal : Option Configuration
  fallbackAt : Nat
  conflicts : Nat
  defendedAt : Option Nat

namespace Client

/-- The client and the random source of a call, with the number of samples taken. -/
structure World where
  client : Client
  draw : Random
  used : Nat

/-- A call of the client. -/
abbrev Call := Act World Fault

/-- The client as it is. -/
def look : Call Client := fun w => (.ok w.client, w)

/-- A change of the client. -/
def change (f : Client → Client) : Call Unit := fun w => (.ok (), { w with client := f w.client })

/-- Reference: `RandomSource::sample` (`time.rs:41`). -/
def sample (max : Nat) : Call Nat := fun w =>
  ((w.draw.sample w.used max).mapError .io, { w with used := w.used + 1 })

/-- Reference: `Client::new` (`ipv4/dhcp/mod.rs:70`), with what the random source returns. -/
def new (mac : Mac) (now xid delay : Nat) : Client :=
  ⟨mac, xid, .selecting, [], none, none, none, satAdd now (1000 + delay), now, 4000, none,
    satAdd now 60000, 0, none⟩

/-- Reference: `Client::configuration` (`ipv4/dhcp/mod.rs:99`). -/
def configuration (c : Client) : Option Configuration :=
  match c.active with
  | some l => some l.config
  | none => c.linkLocal

/-! ## Messages -/

/-- An ARP message to all. Reference: `Client::poll` (`ipv4/dhcp/mod.rs:280`). -/
def askAll (mac : Mac) (sender target : Ipv4Addr) : Output :=
  ⟨.arp, Arp.encode ⟨1, mac, sender, .zero, target⟩ .broadcast⟩

/-- The address that a client has for its server. Reference: `Client::message`
(`ipv4/dhcp/mod.rs:452`). -/
def ciaddr (c : Client) (kind : UInt8) : Ipv4Addr :=
  if kind = 7 ∨ (kind = 3 ∧ (c.state = .renewing ∨ c.state = .rebinding)) then
    (c.active.map fun l => l.config.address).getD unspecified
  else unspecified

/-- The fixed fields of a message. Reference: `Client::message` (`ipv4/dhcp/mod.rs:468`). -/
def fixedFields (c : Client) (kind : UInt8) (ciaddr : Ipv4Addr) (now : Nat) : Bytes :=
  [1, 1, 6, 0] ++ toBe 4 c.xid ++
    toBe 2 (if kind ≠ 7 ∧ kind ≠ 4 then min ((now - c.started) / 1000) 65535 else 0) ++
    [if isUnspecified ciaddr ∧ kind ≠ 4 then 0x80 else 0, 0] ++ ciaddr.1 ++ List.replicate 12 0 ++
    c.mac.1 ++ List.replicate 202 0 ++ [99, 130, 83, 99]

/-- The options for the lease that is asked for. Reference: `Client::message`
(`ipv4/dhcp/mod.rs:484`). -/
def leaseOptions (c : Client) (kind : UInt8) (l : Lease) : Bytes :=
  (if kind = 3 ∨ kind = 4 then [50, 4] ++ l.config.address.1 else []) ++
    (if c.state = .requesting ∨ kind = 4 then [54, 4] ++ l.server.1 else [])

/-- The options of a message. Reference: `Client::message` (`ipv4/dhcp/mod.rs:482`). -/
def options (c : Client) (kind : UInt8) (destination : Ipv4Addr) : Bytes :=
  [53, 1, kind, 61, 7, 1] ++ c.mac.1 ++ (c.selected.map (c.leaseOptions kind)).getD [] ++
    (if kind = 7 then [54, 4] ++ destination.1 else []) ++
    (if kind ≠ 4 ∧ kind ≠ 7 then [55, 8, 1, 3, 6, 15, 119, 121, 58, 59, 57, 2, 0x10,
      0x00] else []) ++
    [255]

/-- At least some octets. -/
def padTo (n : Nat) (b : Bytes) : Bytes := b ++ List.replicate (n - b.length) 0

/-- A datagram from the port of the client to that of the server. Reference: `Client::message`
(`ipv4/dhcp/mod.rs:503`). -/
def datagram (source destination : Ipv4Addr) (b : Bytes) : Bytes :=
  let udp := [0, 68, 0, 67] ++ toBe 2 (b.length + 8) ++ [0, 0] ++ b
  overwrite udp 6 (toBe 2 (nonzero (checksum4 source destination 17 udp)))

/-- Whether a message goes to the server of the lease. Reference: `Client::message`
(`ipv4/dhcp/mod.rs:462`). -/
def direct (c : Client) (kind : UInt8) : Bool := kind == 7 || (kind == 3 && c.state == .renewing)

/-- The octets of a message. Reference: `Client::message` (`ipv4/dhcp/mod.rs:501`). -/
def payload (c : Client) (kind : UInt8) (ciaddr destination : Ipv4Addr) (now : Nat) : Bytes :=
  padTo 300 (c.fixedFields kind ciaddr now ++ c.options kind destination)

/-- Reference: `Client::message` (`ipv4/dhcp/mod.rs:451`). -/
def message (c : Client) (kind : UInt8) (now : Nat) : Except Fault Output :=
  match if c.direct kind then c.active.map Lease.server else some broadcast with
  | none => .error .panic
  | some destination =>
    match encode (c.ciaddr kind) destination 17 64
      (datagram (c.ciaddr kind) destination (c.payload kind (c.ciaddr kind) destination now)) with
    | .error e => .error (.io e)
    | .ok packet => .ok ⟨if c.direct kind then .unicast else .broadcast, packet⟩

/-- A message in a call. -/
def send (kind : UInt8) (now : Nat) : Call Output := fun w => (w.client.message kind now, w)

/-! ## Calls -/

/-- Reference: `Client::transaction` (`ipv4/dhcp/mod.rs:148`). -/
def transaction (now : Nat) : Call Unit := do
  let xid ← sample (2 ^ 32 - 1)
  change fun c => { c with xid, started := now, next := now, retry := 4000 }

/-- Reference: `Client::restart` (`ipv4/dhcp/mod.rs:157`). -/
def restart (now : Nat) : Call Unit := do
  change fun c => { c with
    active := none, selected := none, offers := [], probe := none, state := .selecting }
  transaction now

/-- Reference: `Client::restore` (`ipv4/dhcp/mod.rs:134`). -/
def restore (lease : Lease) (now : Nat) : Call Unit := do
  restart now
  if lease.expires > now then
    change fun c => { c with selected := some lease, state := .reboot, next := now }

/-- A client that waits some seconds before it asks again. -/
def postpone (now : Nat) : Call Unit := do
  let delay ← sample 9000
  change fun c => { c with next := satAdd now (1000 + delay) }

/-- A lease is offered. Reference: `Client::receive` (`ipv4/dhcp/mod.rs:177`). -/
def offer (m : Message) (now : Nat) (c : Client) : Client :=
  match m.lease now none with
  | .error _ => c
  | .ok l =>
    if (c.offers.any fun l => l.server == m.server) ∨ c.offers.length ≥ 8 then c
    else { c with
      next := if c.offers.isEmpty then satAdd now 1000 else c.next
      offers := c.offers ++ [l] }

/-- The lease that a client asks for. -/
def prior (c : Client) : Option Lease :=
  match c.selected with
  | some l => some l
  | none => c.active

/-- A lease is acknowledged. Reference: `Client::receive` (`ipv4/dhcp/mod.rs:212`). -/
def acknowledge (lease : Lease) (now : Nat) : Call Unit := do
  let c ← look
  if (c.selected.any fun l => l.config.address != lease.config.address) then pure ()
  else do
    if (c.active.any fun l => l.config.address == lease.config.address) then
      change fun c => { c with active := some lease }
    else do
      let delay ← sample 1000
      change fun c => { c with
        probe := some ⟨lease.config.address, some lease, 0, satAdd now delay⟩ }
    change fun c => { c with selected := none, offers := [], state := .bound }

/-- Whether a client waits for an acknowledgement. -/
def awaits (c : Client) : Bool :=
  c.state == .requesting || c.state == .reboot || c.state == .renewing || c.state == .rebinding

/-- Whether a client refuses what the server of a message says. Reference: `Client::receive`
(`ipv4/dhcp/mod.rs:196`). -/
def refuses (c : Client) (m : Message) : Bool :=
  (c.state == .requesting || c.state == .renewing) && c.prior.all fun l => l.server != m.server

/-- Reference: `Client::receive` (`ipv4/dhcp/mod.rs:165`). -/
def receive (packet : Bytes) (now : Nat) : Call Unit := do
  let c ← look
  match Message.parse packet with
  | .error _ => pure ()
  | .ok m =>
    if m.xid ≠ c.xid ∨ m.mac ≠ c.mac then pure ()
    else if m.kind = 2 ∧ c.state = .selecting then change (offer m now)
    else if c.awaits = false ∨ c.refuses m then pure ()
    else if m.kind = 6 then do
      restart now
      postpone now
    else if m.kind ≠ 5 then pure ()
    else
      match m.lease now c.prior with
      | .error _ => pure ()
      | .ok lease => acknowledge lease now

/-- A lease that is over is given up. Reference: `Client::poll` (`ipv4/dhcp/mod.rs:243`). -/
def expire (now : Nat) : Call Unit := do
  let c ← look
  if (c.active.any fun l => now ≥ l.expires) then restart now

/-- A lease is renewed or rebound. Reference: `Client::poll` (`ipv4/dhcp/mod.rs:246`). -/
def renew (now : Nat) : Call Unit := do
  let c ← look
  match c.active with
  | none => pure ()
  | some l =>
    if now ≥ l.t2 ∧ c.state ≠ .rebinding then do
      change fun c => { c with state := .rebinding }
      transaction now
    else if now ≥ l.t1 ∧ c.state = .bound then do
      change fun c => { c with state := .renewing }
      transaction now

/-- A lease that is over before its address is used. Reference: `Client::poll`
(`ipv4/dhcp/mod.rs:255`). -/
def abandon (now : Nat) : Call Unit := do
  let c ← look
  if (c.probe.any fun p => p.lease.any fun l => now ≥ l.expires) then restart now

/-- A link-local address. Reference: `Client::poll` (`ipv4/dhcp/mod.rs:263`). -/
def linkLocalAddress (x : Nat) : Ipv4Addr := ⟨toBe 4 (ofBe [169, 254, 1, 0] + x), length_toBe 4 _⟩

/-- A link-local address is tried. Reference: `Client::poll` (`ipv4/dhcp/mod.rs:262`). -/
def fallback (now : Nat) : Call Unit := do
  let c ← look
  if c.probe.isNone ∧ c.configuration.isNone ∧ now ≥ c.fallbackAt then do
    let x ← sample (254 * 256 - 1)
    let delay ← sample 1000
    change fun c => { c with
      probe := some ⟨linkLocalAddress x, none, 0, satAdd now delay⟩ }

/-- An address that was probed for is used. Reference: `Client::poll` (`ipv4/dhcp/mod.rs:297`). -/
def adopt (p : Probe) (c : Client) : Client :=
  match p.lease with
  | some lease => { c with
      active := some lease, linkLocal := none, defendedAt := none
      probe := c.probe.map fun p => { p with lease := none } }
  | none => { c with linkLocal := some ⟨p.address, 16, [], [], []⟩, defendedAt := none }

/-- The next ARP message for an address that is probed for. Reference: `Client::poll`
(`ipv4/dhcp/mod.rs:273`). -/
def tick (now : Nat) : Call (List Output) := do
  let c ← look
  match c.probe with
  | none => pure []
  | some p =>
    if now < p.next then pure []
    else do
      let out := askAll c.mac (if p.sent < 3 then unspecified else p.address) p.address
      change fun c => { c with
        probe := some { p with sent := p.sent + 1 } }
      let delay ← if p.sent + 1 < 3 then (1000 + ·) <$> sample 1000 else pure 2000
      change fun c => { c with
        probe := some { p with sent := p.sent + 1, next := satAdd now delay } }
      if p.sent + 1 = 4 then change (adopt p)
      if p.sent + 1 = 5 then change fun c => { c with probe := none }
      pure [out]

/-- The order in which offers are taken: the last to expire, and of these the one of the least
server. -/
def offerKey (l : Lease) : Nat := l.expires * 2 ^ 32 + (2 ^ 32 - 1 - ofBe l.server.1)

/-- How long a client waits for an answer. Reference: `Client::poll` (`ipv4/dhcp/mod.rs:337`). -/
def patience (now : Nat) : Call Nat := do
  let c ← look
  if c.state = .renewing ∨ c.state = .rebinding then
    match c.active with
    | none => Act.fail .panic
    | some l =>
      let stop := if c.state = .renewing then l.t2 else l.expires
      pure (min (max ((stop - now) / 2) 60000) (stop - now))
  else do
    let x ← sample 2000
    change fun c => { c with retry := min (c.retry * 2) 64000 }
    pure (c.retry - 1000 + x)

/-- The messages to the servers. Reference: `Client::poll` (`ipv4/dhcp/mod.rs:317`). -/
def converse (now : Nat) : Call (List Output) := do
  let c ← look
  if now < c.next ∨ c.state = .bound ∨ c.state = .stopped then pure []
  else do
    if c.state = .selecting ∧ c.offers ≠ [] then
      change fun c => { c with
        selected := maxByKey offerKey c.offers, offers := [], state := .requesting
        started := now, retry := 4000 }
    else if (c.state = .requesting ∨ c.state = .reboot) ∧ now ≥ satAdd c.started 60000 then
      restart now
    let c ← look
    let out ← send (if c.state = .selecting then 1 else 3) now
    let delay ← patience now
    change fun c => { c with next := satAdd now delay }
    pure [out]

/-- Reference: `Client::poll` (`ipv4/dhcp/mod.rs:238`). -/
def poll (now : Nat) : Call (List Output) := do
  let c ← look
  if c.state = .stopped then pure []
  else do
    expire now
    renew now
    abandon now
    fallback now
    let arps ← tick now
    let messages ← converse now
    pure (arps ++ messages)

/-- Reference: `Client::stop` (`ipv4/dhcp/mod.rs:355`). -/
def stop (now : Nat) : Call (List Output) := do
  let c ← look
  let out ← if c.active.isSome then (fun o => [o]) <$> send 7 now else pure []
  change fun c => { c with
    state := .stopped, active := none, linkLocal := none, selected := none, probe := none,
      offers := [] }
  pure out

/-- Reference: `Client::set_link` (`ipv4/dhcp/mod.rs:369`). -/
def setLink (up : Bool) (now : Nat) : Call Unit := do
  let c ← look
  if up ∧ c.state = .stopped then do
    restart now
    postpone now
    change fun c => { c with fallbackAt := satAdd now 60000 }
  else if up = false then
    change fun c => { c with
      state := .stopped, active := none, linkLocal := none, probe := none, selected := none
      offers := [], defendedAt := none }

/-- The address that a message is in conflict with, if it is probed for. Reference:
`Client::receive_arp` (`ipv4/dhcp/mod.rs:397`). -/
def candidate (c : Client) (a : Arp) : Bool :=
  c.probe.any fun p => p.sent < 4 &&
    (a.sender == p.address || (isUnspecified a.sender && a.target == p.address))

/-- The address that a message is in conflict with, if it is used. Reference: `Client::receive_arp`
(`ipv4/dhcp/mod.rs:406`). -/
def claimed (c : Client) (a : Arp) : Option Ipv4Addr :=
  (c.configuration.filter fun conf => a.sender == conf.address).map Configuration.address

/-- Whether a client defends its address. Reference: `Client::receive_arp`
(`ipv4/dhcp/mod.rs:414`). -/
def defends (c : Client) (now : Nat) : Bool := c.defendedAt.all fun t => now ≥ satAdd t 10000

/-- A lease is declined. Reference: `Client::receive_arp` (`ipv4/dhcp/mod.rs:439`). -/
def decline (lease : Lease) (now : Nat) : Call (List Output) := do
  change fun c => { c with selected := some lease }
  let out ← send 4 now
  restart now
  change fun c => { c with next := satAdd now 10000 }
  pure [out]

/-- A link-local address is given up. Reference: `Client::receive_arp` (`ipv4/dhcp/mod.rs:446`). -/
def relent (now : Nat) (c : Client) : Client :=
  let conflicts := min (c.conflicts + 1) (2 ^ 32 - 1)
  { c with
    linkLocal := none, conflicts, fallbackAt := satAdd now (if conflicts ≥ 10 then 60000 else 0) }

/-- The lease whose address is given up. Reference: `Client::receive_arp`
(`ipv4/dhcp/mod.rs:432`). -/
def forfeit (c : Client) (a : Arp) : Option Lease :=
  if c.candidate a then c.probe.bind Probe.lease else c.active

/-- An address is given up. Reference: `Client::receive_arp` (`ipv4/dhcp/mod.rs:432`). -/
def giveUp (a : Arp) (now : Nat) : Call (List Output) := do
  let c ← look
  change fun c => { c with
    probe := none, active := if c.candidate a then c.active else none, defendedAt := none }
  match c.forfeit a with
  | some lease => decline lease now
  | none => do
    change (relent now)
    pure []

/-- Reference: `Client::receive_arp` (`ipv4/dhcp/mod.rs:385`). -/
def receiveArp (frame : Bytes) (now : Nat) : Call (List Output) := do
  let c ← look
  match Arp.parse frame with
  | .error _ => pure []
  | .ok a =>
    if a.senderMac = c.mac ∨ c.state = .stopped then pure []
    else
      match c.claimed a with
      | none => if c.candidate a then giveUp a now else pure []
      | some address =>
        if c.defends now then do
          change fun c => { c with defendedAt := some now }
          pure [askAll c.mac address address]
        else giveUp a now

/-! ## The machine -/

/-- What is done with a client. -/
inductive Op
  | restore (lease : Lease)
  | receive (packet : Bytes)
  | poll
  | stop
  | setLink (up : Bool)
  | receiveArp (frame : Bytes)

/-- A call of the client. -/
def perform (now : Nat) : Op → Call (List Output)
  | .restore lease => (fun _ => []) <$> restore lease now
  | .receive packet => (fun _ => []) <$> receive packet now
  | .poll => poll now
  | .stop => stop now
  | .setLink up => (fun _ => []) <$> setLink up now
  | .receiveArp frame => receiveArp frame now

/-- A call at a moment, with a random source. -/
structure Event where
  op : Op
  now : Nat
  draw : Random

/-- A client after a call, and what the call returns. -/
def after (c : Client) (e : Event) : Client × Except Fault (List Output) :=
  let r := perform e.now e.op ⟨c, e.draw, 0⟩
  (r.2.client, r.1)

/-- A client in use. -/
def machine : Machine Client Event (Except Fault (List Output)) where
  step := after
  time := Event.now
  legal _ _ := True

end Client

end SnacMachine.Ipv4
