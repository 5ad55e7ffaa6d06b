import SnacMachine.ServiceIo.Ports

/-!
# NAT64 bindings and sessions

The embedding of `nat64/bindings.rs`, `nat64/bindings/tcp.rs`, `nat64/bindings/icmp.rs` and the TCP
states of `nat64/tcp.rs`. Every function returns its answer and the table after it, and `none` where
the code would panic: an `unwrap`, an index or an unsigned subtraction that fails.
-/

namespace SnacMachine.Nat64

namespace Tcp

/-- Reference: `ESTABLISHED` (`nat64/tcp.rs:2`). -/
def established : Nat := 7200000

/-- Reference: `TRANSITORY` (`nat64/tcp.rs:3`). -/
def transitory : Nat := 240000

/-- Reference: `State` (`nat64/tcp.rs:5`). -/
inductive State
  | v4Init | v6Init | established | v4Fin | v6Fin | bothFin | transitory
  deriving DecidableEq

/-- The state and the expiry after a packet. Reference: `State::packet` (`nat64/tcp.rs:15`). -/
def State.packet (s : State) (v6 : Bool) (flags : UInt8) (expires now : Nat) : State × Nat :=
  let syn : Bool := flags &&& 2 ≠ 0
  let fin : Bool := flags &&& 1 ≠ 0
  let rst : Bool := flags &&& 4 ≠ 0
  let est := satAdd now Tcp.established
  let trans := satAdd now Tcp.transitory
  match s with
  | .v4Init => if v6 && syn then (.established, est) else (.v4Init, expires)
  | .v6Init =>
    if !v6 && syn then (.established, est) else if v6 && syn then (.v6Init, trans)
    else (.v6Init, expires)
  | .bothFin => (.bothFin, expires)
  | .established =>
    if fin then (if v6 then .v6Fin else .v4Fin, expires)
    else if rst then (.transitory, trans) else (.established, est)
  | .v4Fin => if v6 && fin then (.bothFin, trans) else (.v4Fin, est)
  | .v6Fin => if !v6 && fin then (.bothFin, trans) else (.v6Fin, est)
  | .transitory => if !rst then (.established, est) else (.transitory, expires)

end Tcp

/-- A transport address behind a translation prefix. Reference: `Key` (`nat64/bindings.rs:13`). -/
structure Key where
  protocol : UInt8
  host : Ipv6Addr
  port : UInt16
  domain : Ipv6Addr
  deriving DecidableEq

/-- Keys are compared field by field. -/
instance : OrdKey Key :=
  ⟨OrdKey.Code (UInt8 × Ipv6Addr × UInt16 × Ipv6Addr), inferInstance,
    fun k => OrdKey.code (k.protocol, k.host, k.port, k.domain)⟩
instance : LawfulOrdKey Key := ⟨fun {a b} h => by
  have h := LawfulOrdKey.code_inj (K := UInt8 × Ipv6Addr × UInt16 × Ipv6Addr) h
  cases a
  cases b
  simp_all⟩

/-- Reference: `SessionKey` (`nat64/bindings.rs:14`). -/
abbrev SessionKey := Key × SocketAddrV4

/-- Reference: `UdpFiltering` (`nat64/bindings.rs:16`). -/
inductive UdpFiltering
  | addressDependent | endpointIndependent
  deriving DecidableEq

/-- Reference: `Binding` (`nat64/bindings.rs:21`). -/
structure Binding where
  lease : Lease
  port : UInt16
  sessions : Nat

/-- Reference: `Session` (`nat64/bindings.rs:26`). -/
structure Session where
  expires : Nat
  tcp : Option Tcp.State
  probe : Bool
  synQuote : Bytes

/-- Reference: `Bindings` (`nat64/bindings.rs:32`). -/
structure Bindings where
  domain : Ipv6Addr
  ports : Ports
  bindings : OrdMap Key Binding
  reverse : OrdMap PortKey Key
  sessions : OrdMap SessionKey Session
  hosts : OrdMap Ipv6Addr (Nat × Nat)
  next : Option Nat
  udpFiltering : UdpFiltering
  udpSeconds : Nat
  icmpSeconds : Nat
  tcpTimeouts : List Bytes
  tcpQuoteBytes : Nat

/-- Reference: `full` (`nat64/bindings.rs:64`). -/
def full : IoError := ⟨.wouldBlock, "NAT64 binding/session/port capacity"⟩

/-- The most bytes a table is charged for. Reference: `nat64/bindings.rs:218`. -/
def maxCharge : Nat := 4 * 1024 * 1024

/-- How much of a SYN is kept: its header and eight octets. Reference:
`nat64/bindings/tcp.rs:24`. -/
def quoteLength (packet : Bytes) : Nat :=
  min (min (((packet.headD 0) &&& 15).toNat * 4 + 8) packet.length) 68

/-- The deadline of an established session that has run out is put off once. Reference:
`nat64/bindings.rs:161`. -/
def Session.relax (now : Nat) (s : Session) : Session :=
  if s.expires ≤ now ∧ s.tcp = some .established then
    let expires := satAdd s.expires Tcp.transitory
    { s with tcp := some .transitory, expires, probe := decide (now < expires) }
  else s

namespace Bindings

/-- Reference: `Bindings::with_ports` (`nat64/bindings.rs:71`). -/
def withPorts (ports : Ports) : Bindings :=
  ⟨.unspecified, ports, .empty, .empty, .empty, .empty, none, .addressDependent, 300, 60, [], 0⟩

/-- Reference: `Bindings::charged_bytes` (`nat64/bindings.rs:129`). -/
def chargedBytes (b : Bindings) : Nat :=
  b.bindings.size * 192 + b.reverse.size * 96 + b.sessions.size * 256 + b.hosts.size * 128 +
    b.tcpTimeouts.length * 128 + b.tcpQuoteBytes

/-- The earliest expiry of the sessions. -/
def earliest (sessions : OrdMap SessionKey Session) : Option Nat :=
  (sessions.values.map Session.expires).min?

/-- Gives the ports of dropped bindings back. -/
def releaseAll (ports : Ports) (dropped : List Binding) : Option Ports :=
  dropped.foldlM (fun p x => p.release x.lease) ports

/-- Counts one binding of a host. Reference: `nat64/bindings.rs:87`. -/
def countBinding (hosts : OrdMap Ipv6Addr (Nat × Nat)) (k : Key) : OrdMap Ipv6Addr (Nat × Nat) :=
  let old := (hosts.get k.host).getD (0, 0)
  hosts.insert k.host (old.1 + 1, old.2)

/-- Counts one session of a host. Reference: `nat64/bindings.rs:90`. -/
def countSession (hosts : OrdMap Ipv6Addr (Nat × Nat)) (k : SessionKey) :
    OrdMap Ipv6Addr (Nat × Nat) :=
  let old := (hosts.get k.1.host).getD (0, 0)
  hosts.insert k.1.host (old.1, old.2 + 1)

/-- Reference: `Bindings::retain_domains` (`nat64/bindings.rs:79`). -/
def retainDomains (b : Bindings) (domains : List Prefix) : Option Bindings := do
  let keep := fun k : Key => domains.any fun p => p.address == k.domain
  let sessions := b.sessions.retain fun k _ => keep k.1
  let bindings := b.bindings.retain fun k _ => keep k
  let ports ← releaseAll b.ports (b.bindings.retain fun k _ => !keep k).values
  return { b with
    ports, sessions, bindings
    reverse := b.reverse.retain fun _ k => keep k
    hosts := sessions.keys.foldl countSession (bindings.keys.foldl countBinding .empty)
    tcpQuoteBytes := sessions.total fun _ s => s.synQuote.length
    next := earliest sessions }

/-- Reference: `Bindings::error_in` (`nat64/bindings.rs:99`). -/
def errorIn (b : Bindings) (protocol : UInt8) (port : UInt16) (remote : SocketAddrV4) (now : Nat) :
    Option (Ipv6Addr × UInt16) := do
  let key ← b.reverse.get (protocol, port)
  let s ← b.sessions.get (key, remote)
  if s.expires > now then some (key.host, key.port) else none

/-- Reference: `Bindings::error_out` (`nat64/bindings.rs:112`). -/
def errorOut (b : Bindings) (protocol : UInt8) (host : Ipv6Addr) (port : UInt16)
    (remote : SocketAddrV4) (now : Nat) : Option UInt16 := do
  let key : Key := ⟨protocol, host, port, b.domain⟩
  let s ← b.sessions.get (key, remote)
  if s.expires > now then (b.bindings.get key).map fun x => x.port else none

/-- Reference: `Bindings::set_udp_timeout` (`nat64/bindings.rs:147`). -/
def setUdpTimeout (b : Bindings) (seconds : UInt32) : Except IoError Unit × Bindings :=
  if seconds < 120 ∨ seconds > 86400 then
    (.error ⟨.invalidInput, "UDP timeout must be 120..86400 seconds"⟩, b)
  else (.ok (), { b with udpSeconds := seconds.toNat })

/-- Reference: `Bindings::set_icmp_timeout` (`nat64/bindings/icmp.rs:4`). -/
def setIcmpTimeout (b : Bindings) (seconds : UInt32) : Except IoError Unit × Bindings :=
  if seconds < 60 ∨ seconds > 86400 then
    (.error ⟨.invalidInput, "ICMP timeout must be 60..86400 seconds"⟩, b)
  else (.ok (), { b with icmpSeconds := seconds.toNat })

/-- Takes one session out of the table, and its binding and host with the last of them. Reference:
`nat64/bindings.rs:175`. -/
def dropSession (b : Bindings) (key : SessionKey) : Option (List PortKey × Bindings) := do
  let s : Session ← b.sessions.get key
  if b.tcpQuoteBytes < s.synQuote.length then none
  let x ← b.bindings.get key.1
  if x.sessions = 0 then none
  let host ← b.hosts.get key.1.host
  if host.2 = 0 then none
  let b : Bindings := { b with
    sessions := b.sessions.remove key
    tcpQuoteBytes := b.tcpQuoteBytes - s.synQuote.length
    tcpTimeouts :=
      if s.tcp = some .v4Init ∧ s.synQuote ≠ [] ∧ b.tcpTimeouts.length < 32 then
        b.tcpTimeouts ++ [s.synQuote]
      else b.tcpTimeouts }
  if x.sessions - 1 = 0 then
    if host.1 = 0 then none
    let ports ← b.ports.release x.lease
    return ([(key.1.protocol, x.port)], { b with
      ports
      bindings := b.bindings.remove key.1
      reverse := b.reverse.remove (key.1.protocol, x.port)
      hosts :=
        if host.1 - 1 = 0 then b.hosts.remove key.1.host
        else b.hosts.insert key.1.host (host.1 - 1, host.2 - 1) })
  else
    return ([], { b with
      bindings := b.bindings.insert key.1 { x with sessions := x.sessions - 1 }
      hosts :=
        if host.1 = 0 then b.hosts.remove key.1.host
        else b.hosts.insert key.1.host (host.1, host.2 - 1) })

/-- Takes sessions out one by one. -/
def dropSessions (b : Bindings) : List SessionKey → Option (List PortKey × Bindings)
  | [] => some ([], b)
  | key :: rest => do
    let (ports, b) ← b.dropSession key
    let (more, b) ← dropSessions b rest
    return (ports ++ more, b)

/-- Reference: `Bindings::expire` (`nat64/bindings.rs:157`). -/
def expire (b : Bindings) (now : Nat) : Option (List PortKey × Bindings) :=
  if b.next.all (fun t => decide (now < t)) = true then some ([], b)
  else do
    let b : Bindings := { b with sessions := b.sessions.mapValues fun _ => Session.relax now }
    let old := (b.sessions.retain fun _ s => decide (s.expires ≤ now)).keys
    let (released, b) ← b.dropSessions old
    return (released, { b with next := earliest b.sessions })

/-- Reference: `Bindings::clear` (`nat64/bindings.rs:202`). -/
def clear (b : Bindings) : Option (List PortKey × Bindings) := do
  let ports ← releaseAll b.ports b.bindings.values
  return (b.reverse.keys, { b with
    ports, bindings := .empty, reverse := .empty, sessions := .empty, hosts := .empty, next := none
    tcpTimeouts := [], tcpQuoteBytes := 0 })

/-- Reference: `Bindings::admit` (`nat64/bindings.rs:213`). -/
def admits (b : Bindings) (key : Key) (remote : SocketAddrV4) : Except IoError Unit :=
  let host := (b.hosts.get key.host).getD (0, 0)
  let newBinding := !b.bindings.contains key
  let newSession := !b.sessions.contains (key, remote)
  let bytes := (if newBinding then 288 else 0) + (if b.hosts.contains key.host then 0 else 128) +
    (if newSession then 256 else 0)
  if b.chargedBytes + bytes > maxCharge ∨
      (newBinding = true ∧ (b.bindings.size ≥ 4096 ∨ host.1 ≥ 128)) ∨
      (newSession = true ∧ (b.sessions.size ≥ 8192 ∨ host.2 ≥ 256)) then
    .error full
  else .ok ()

/-- Whether a port can be assigned. Reference: `nat64/bindings.rs:309`. -/
def free (b : Bindings) (protocol : UInt8) (occupied : UInt16 → Bool) (p : UInt16) : Bool :=
  !b.reverse.contains (protocol, p) && !b.ports.occupied protocol p && !occupied p

/-- The ports of one range and parity: the first and how many. Reference:
`nat64/bindings.rs:318`. -/
def range (high : Bool) (parity : Nat) : Nat × Nat :=
  if high then (1024 + parity, 32256) else if parity = 0 then (2, 511) else (1, 512)

/-- Searches the ranges in turn, each from a random start. Reference: `nat64/bindings.rs:316`. -/
def search (b : Bindings) (protocol : UInt8) (rng : Random) (occupied : UInt16 → Bool) :
    (calls : Nat) → List (Nat × Nat) → Except IoError UInt16
  | _, [] => .error full
  | n, (first, count) :: rest => do
    let start ← rng.sample n (count - 1)
    let candidates := (List.range (min count 8192)).map fun i =>
      UInt16.ofNat (first + (start + i) % count * 2)
    match candidates.find? (b.free protocol occupied) with
    | some p => return p
    | none => search b protocol rng occupied (n + 1) rest

/-- Reference: `Bindings::allocate` (`nat64/bindings.rs:302`). -/
def allocate (b : Bindings) (protocol : UInt8) (port : UInt16) (rng : Random)
    (occupied : UInt16 → Bool) : Except IoError UInt16 :=
  if (port ≠ 0 ∨ protocol = 1) ∧ b.free protocol occupied port = true then .ok port
  else
    let parity := port.toNat % 2
    let high : Bool := port ≥ 1024
    b.search protocol rng occupied 0
      [range high parity, range high (1 - parity), range (!high) parity, range (!high) (1 - parity)]

/-- The external port of a key: that of its binding, or of a new one. Reference:
`nat64/bindings.rs:260`, `nat64/bindings/tcp.rs:97`, `nat64/bindings/icmp.rs:46`. -/
def assign (b : Bindings) (key : Key) (rng : Random) (occupied : UInt16 → Bool) :
    Except IoError (UInt16 × Bindings) :=
  match b.bindings.get key with
  | some x => .ok (x.port, b)
  | none => do
    let port ← b.allocate key.protocol key.port rng occupied
    let (lease, ports) ← b.ports.claim key.protocol port .translation
    return (port, { b with
      ports
      bindings := b.bindings.insert key ⟨lease, port, 0⟩
      reverse := b.reverse.insert (key.protocol, port) key
      hosts := countBinding b.hosts key })

/-- A later lower bound of the expiries. -/
def soonest (next : Option Nat) (expires : Nat) : Option Nat :=
  some (next.elim expires fun old => min old expires)

/-- Counts a session that a binding and its host have gained. -/
def addSession (b : Bindings) (key : Key) : Option Bindings := do
  let x ← b.bindings.get key
  let host ← b.hosts.get key.host
  return { b with
    bindings := b.bindings.insert key { x with sessions := x.sessions + 1 }
    hosts := b.hosts.insert key.host (host.1, host.2 + 1) }

/-- Starts or renews a session without TCP state. -/
def plainSession (b : Bindings) (key : Key) (remote : SocketAddrV4) (expires : Nat) :
    Option Bindings := do
  let fresh := !b.sessions.contains (key, remote)
  let b := { b with sessions := b.sessions.insert (key, remote) ⟨expires, none, false, []⟩ }
  let b ← if fresh then b.addSession key else some b
  return { b with next := soonest b.next expires }

/-- Reference: `Bindings::udp_session` (`nat64/bindings.rs:226`). -/
def udpSession (b : Bindings) (key : Key) (remote : SocketAddrV4) (now : Nat) : Option Bindings :=
  b.plainSession key remote (satAdd now (b.udpSeconds * 1000))

/-- Reference: `Bindings::icmp_session` (`nat64/bindings/icmp.rs:14`). -/
def icmpSession (b : Bindings) (key : Key) (remote : Ipv4Addr) (now : Nat) : Option Bindings :=
  b.plainSession key ⟨remote, 0⟩ (satAdd now (b.icmpSeconds * 1000))

/-- Reference: `Bindings::udp_out` (`nat64/bindings.rs:247`). -/
def udpOut (b : Bindings) (source : Ipv6Addr) (port : UInt16) (remote : SocketAddrV4) (now : Nat)
    (rng : Random) (occupied : UInt16 → Bool) : Option (Except IoError UInt16 × Bindings) := do
  let (_, b) ← b.expire now
  let key : Key := ⟨17, source, port, b.domain⟩
  match b.admits key remote with
  | .error e => return (.error e, b)
  | .ok () =>
    match b.assign key rng occupied with
    | .error e => return (.error e, b)
    | .ok (assigned, b) =>
      let b ← b.udpSession key remote now
      return (.ok assigned, b)

/-- Whether some session of a key has the address of a remote, at any port: the source looks for one
in the range of the key from the remote's port 0 to its port 65535. Reference:
`nat64/bindings.rs:289`. -/
def addressKnown (b : Bindings) (key : Key) (remote : SocketAddrV4) : Bool :=
  b.sessions.keys.any fun k => decide (k.1 = key) && decide (k.2.ip = remote.ip)

/-- Reference: `Bindings::udp_in` (`nat64/bindings.rs:278`). -/
def udpIn (b : Bindings) (port : UInt16) (remote : SocketAddrV4) (now : Nat) :
    Option (Except IoError (Option (Ipv6Addr × UInt16)) × Bindings) := do
  let (_, b) ← b.expire now
  match b.reverse.get (17, port) with
  | none => return (.ok none, b)
  | some key =>
    if b.udpFiltering = .addressDependent ∧ b.addressKnown key remote = false then
      return (.ok none, b)
    else match b.admits key remote with
      | .error e => return (.error e, b)
      | .ok () =>
        let b ← b.udpSession key remote now
        return (.ok (some (key.host, key.port)), { b with domain := key.domain })

/-- Reference: `Bindings::take_tcp_timeouts` (`nat64/bindings/tcp.rs:10`). -/
def takeTcpTimeouts (b : Bindings) (limit : Nat) : List Bytes × Bindings :=
  let n := min (min limit 32) b.tcpTimeouts.length
  (b.tcpTimeouts.take n, { b with tcpTimeouts := b.tcpTimeouts.drop n })

/-- Reference: `Bindings::remember_tcp_syn` (`nat64/bindings/tcp.rs:15`). -/
def rememberTcpSyn (b : Bindings) (port : UInt16) (remote : SocketAddrV4) (packet : Bytes) :
    Option Bindings :=
  match b.reverse.get (6, port) with
  | none => some b
  | some key =>
    match b.sessions.get (key, remote) with
    | none => some b
    | some s =>
      if s.tcp = some .v4Init ∧ s.synQuote = [] then
        if packet = [] then none
        else
          let quote := packet.take (quoteLength packet)
          some { b with
            sessions := b.sessions.insert (key, remote) { s with synQuote := quote }
            tcpQuoteBytes := b.tcpQuoteBytes + quote.length }
      else some b

/-- The first probes due, and the entries after their marks are cleared. Reference:
`nat64/bindings/tcp.rs:42`. -/
def takeProbes (bindings : OrdMap Key Binding) : (limit : Nat) → List (SessionKey × Session) →
    Option (List (Ipv6Addr × UInt16 × UInt16 × SocketAddrV4) × List SessionKey)
  | _, [] => some ([], [])
  | 0, _ :: _ => some ([], [])
  | n + 1, (k, s) :: rest =>
    if s.probe then do
      let x ← bindings.get k.1
      let (out, taken) ← takeProbes bindings n rest
      return ((k.1.host, k.1.port, x.port, k.2) :: out, k :: taken)
    else takeProbes bindings (n + 1) rest

/-- Reference: `Bindings::take_tcp_probes` (`nat64/bindings/tcp.rs:40`). -/
def takeTcpProbes (b : Bindings) (limit : Nat) :
    Option (List (Ipv6Addr × UInt16 × UInt16 × SocketAddrV4) × Bindings) := do
  let (out, taken) ← takeProbes b.bindings (min limit 32) b.sessions.entries
  return (out, { b with
    sessions := b.sessions.mapValues fun k s => if k ∈ taken then { s with probe := false }
    else s })

/-- Reference: `Bindings::tcp_session` (`nat64/bindings/tcp.rs:55`). -/
def tcpSession (b : Bindings) (key : Key) (remote : SocketAddrV4) (v6 : Bool) (flags : UInt8)
    (now : Nat) : Option Bindings :=
  match b.sessions.get (key, remote) with
  | some s => do
    let state ← s.tcp
    let (state, expires) := state.packet v6 flags s.expires now
    if state ≠ .v4Init ∧ b.tcpQuoteBytes < s.synQuote.length then none
    return { b with
      tcpQuoteBytes :=
        if state ≠ .v4Init then b.tcpQuoteBytes - s.synQuote.length else b.tcpQuoteBytes
      sessions := b.sessions.insert (key, remote)
        ⟨expires, some state, false, if state ≠ .v4Init then [] else s.synQuote⟩
      next := soonest b.next expires }
  | none => do
    let expires := satAdd now Tcp.transitory
    let state : Tcp.State := if v6 then .v6Init else .v4Init
    let b := { b with
      sessions := b.sessions.insert (key, remote) ⟨expires, some state, false, []⟩ }
    let b ← b.addSession key
    return { b with next := soonest b.next expires }

/-- Reference: `Bindings::tcp_out` (`nat64/bindings/tcp.rs:80`). -/
def tcpOut (b : Bindings) (source : Ipv6Addr) (port : UInt16) (remote : SocketAddrV4)
    (flags : UInt8) (now : Nat) (rng : Random) :
    Option (Except IoError (Option UInt16) × Bindings) := do
  let (_, b) ← b.expire now
  let key : Key := ⟨6, source, port, b.domain⟩
  if b.sessions.contains (key, remote) = false ∧ flags &&& 2 = 0 then return (.ok none, b)
  else match b.admits key remote with
    | .error e => return (.error e, b)
    | .ok () =>
      match b.assign key rng fun _ => false with
      | .error e => return (.error e, b)
      | .ok (assigned, b) =>
        let b ← b.tcpSession key remote true flags now
        return (.ok (some assigned), b)

/-- Reference: `Bindings::tcp_in` (`nat64/bindings/tcp.rs:148`). -/
def tcpIn (b : Bindings) (port : UInt16) (remote : SocketAddrV4) (flags : UInt8) (now : Nat) :
    Option (Except IoError (Option (Ipv6Addr × UInt16)) × Bindings) := do
  let (_, b) ← b.expire now
  match b.reverse.get (6, port) with
  | none => return (.ok none, b)
  | some key =>
    if b.sessions.contains (key, remote) = false ∧ flags &&& 2 = 0 then return (.ok none, b)
    else match b.admits key remote with
      | .error e => return (.error e, b)
      | .ok () =>
        let b ← b.tcpSession key remote false flags now
        return (.ok (some (key.host, key.port)), { b with domain := key.domain })

/-- Whether a segment's head is to be kept with its session. Reference:
`nat64/bindings/tcp.rs:128`. -/
def needsQuote (b : Bindings) (key : Key) (remote : SocketAddrV4) (flags : UInt8) : Bool :=
  decide (flags &&& 2 ≠ 0) && ((b.sessions.get (key, remote)).all fun s =>
    decide (s.tcp = some .v4Init ∧ s.synQuote = []))

/-- Reference: `Bindings::tcp_in_packet` (`nat64/bindings/tcp.rs:117`). -/
def tcpInPacket (b : Bindings) (port : UInt16) (remote : SocketAddrV4) (flags : UInt8) (now : Nat)
    (packet : Bytes) : Option (Except IoError (Option (Ipv6Addr × UInt16)) × Bindings) := do
  let (_, b) ← b.expire now
  match b.reverse.get (6, port) with
  | none => return (.ok none, b)
  | some key =>
    let needs := b.needsQuote key remote flags
    if needs = true ∧ packet = [] then none
    let added := quoteLength packet + (if b.sessions.contains (key, remote) then 0 else 256)
    if needs = true ∧ b.chargedBytes + added > maxCharge then return (.error full, b)
    else do
      let (result, b) ← b.tcpIn port remote flags now
      match result with
      | .ok (some host) =>
        let b ← if needs then b.rememberTcpSyn port remote packet else some b
        return (.ok (some host), b)
      | other => return (other, b)

/-- Reference: `Bindings::icmp_out` (`nat64/bindings/icmp.rs:37`). -/
def icmpOut (b : Bindings) (source : Ipv6Addr) (id : UInt16) (remote : Ipv4Addr) (now : Nat)
    (rng : Random) : Option (Except IoError UInt16 × Bindings) := do
  let (_, b) ← b.expire now
  let key : Key := ⟨1, source, id, b.domain⟩
  match b.admits key ⟨remote, 0⟩ with
  | .error e => return (.error e, b)
  | .ok () =>
    match b.assign key rng fun _ => false with
    | .error e => return (.error e, b)
    | .ok (assigned, b) =>
      let b ← b.icmpSession key remote now
      return (.ok assigned, b)

/-- Reference: `Bindings::icmp_in` (`nat64/bindings/icmp.rs:66`). -/
def icmpIn (b : Bindings) (id : UInt16) (remote : Ipv4Addr) (now : Nat) :
    Option (Except IoError (Option (Ipv6Addr × UInt16)) × Bindings) := do
  let (_, b) ← b.expire now
  match b.reverse.get (1, id) with
  | none => return (.ok none, b)
  | some key =>
    if b.sessions.contains (key, ⟨remote, 0⟩) = false then return (.ok none, b)
    else
      let b ← b.icmpSession key remote now
      return (.ok (some (key.host, key.port)), { b with domain := key.domain })

end Bindings

end SnacMachine.Nat64
