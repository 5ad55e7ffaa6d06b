import SnacMachine.Ip.Reassembly
import SnacMachine.Nat64.Bindings
import SnacMachine.Nat64.Errors
import SnacMachine.Router.State

/-!
# The translator

The embedding of `nat64/translate.rs` and of the methods of `nat64/translate/errors.rs`: packets
from the stub link become IPv4 packets (`outboundDatagram`), packets from the IPv4 side become IPv6
packets (`inbound`), errors are translated both ways (`error4`, `error6`) and new ones are made
(`generate4`, `generate6`).
-/

namespace SnacMachine.Nat64

open Ip Router

/-- Reference: `unicast` (`ipv4/mod.rs:335`); 255.255.255.255, multicast and 127/8 are refused, and
everything from 240/4 on. -/
def unicast (ip : Ipv4Addr) : Bool :=
  ip.1 != [0, 0, 0, 0] && octet ip.1 0 &&& 0xf0 != 0xe0 && ip.1 != [255, 255, 255, 255] &&
    octet ip.1 0 != 127 && octet ip.1 0 != 0 && octet ip.1 0 < 240

/-! ## Ports -/

/-- Whether the options of a TCP header between two positions are well formed. Reference: the loop
of `ports` (`nat64/tcp.rs:53`). -/
def tcpOptionsOk (b : Bytes) (header pos : Nat) : Bool :=
  if pos < header then
    let kind := octet b pos
    if kind = 0 then !((b.take header).drop (pos + 1)).any fun v => v != 0
    else if kind = 1 then tcpOptionsOk b header (pos + 1)
    else if pos + 2 > header then false
    else
      let n := (octet b (pos + 1)).toNat
      if n < 2 ∨ pos + n > header ∨ (kind = 2 ∧ n ≠ 4) ∨ (kind = 3 ∧ n ≠ 3) ∨ (kind = 4 ∧ n ≠ 2) ∨
          (kind = 5 ∧ (n < 10 ∨ (n - 2) % 8 ≠ 0)) ∨ (kind = 8 ∧ n ≠ 10) then false
      else tcpOptionsOk b header (pos + n)
  else true
termination_by header - pos

/-- Reference: `ports` (`nat64/tcp.rs:36`). -/
def tcpPorts (b : Bytes) : Except IoError (UInt16 × UInt16) :=
  if b.length < 20 then .error invalidEvidence
  else
    let header := (octet b 12 >>> 4).toNat * 4
    let source := u16At b 0
    let dest := u16At b 2
    if header < 20 ∨ header > b.length ∨ source = 0 ∨ dest = 0 ∨
        (octet b 13 &&& 2 ≠ 0 ∧ octet b 13 &&& 5 ≠ 0) then .error invalidEvidence
    else if tcpOptionsOk b header 20 = false then .error invalidEvidence
    else .ok (UInt16.ofNat source, UInt16.ofNat dest)

/-- Reference: `udp` (`nat64/translate.rs:413`). -/
def udpPorts (b : Bytes) : Except IoError (UInt16 × UInt16) :=
  if b.length < 8 ∨ u16At b 4 ≠ b.length then .error invalidEvidence
  else if u16At b 2 = 0 then .error invalidEvidence
  else .ok (UInt16.ofNat (u16At b 0), UInt16.ofNat (u16At b 2))

/-- Reference: `ports` (`nat64/translate.rs:382`). -/
def ports (protocol : UInt8) (b : Bytes) : Except IoError (UInt16 × UInt16) :=
  if protocol = 6 then tcpPorts b
  else if protocol = 17 then udpPorts b
  else if protocol = 1 ∨ protocol = 58 then
    let types : List UInt8 := if protocol = 1 then [0, 8] else [128, 129]
    if b.length < 8 ∨ octet b 1 ≠ 0 ∨ octet b 0 ∉ types then .error invalidEvidence
    else
      let id := UInt16.ofNat (u16At b 4)
      .ok (id, id)
  else .error invalidEvidence

/-- The loop of `unexpired_source_route` (`nat64/translate/headers.rs:56`). -/
def sourceRouteFrom (b : Bytes) (header : Nat) : Nat → Nat → Except IoError Bool
  | 0, _ => .ok false
  | turns + 1, pos =>
    if pos < header then
      let kind := octet b pos
      if kind = 0 then .ok false
      else if kind = 1 then sourceRouteFrom b header turns (pos + 1)
      else
        let len := (octet b (pos + 1)).toNat
        if kind ∈ [131, 137] then
          if len < 3 ∨ (len - 3) % 4 ≠ 0 then .error invalidEvidence
          else
            let pointer := (octet b (pos + 2)).toNat
            if pointer < 4 ∨ (pointer - 4) % 4 ≠ 0 then .error invalidEvidence
            else if pointer ≤ len then .ok true
            else sourceRouteFrom b header turns (pos + len)
        else sourceRouteFrom b header turns (pos + len)
    else .ok false

/-- Whether an IPv4 packet has a source route that is not used up. Every option has an octet at
least, so that the header has no more options than octets. Reference: `unexpired_source_route`
(`nat64/translate/headers.rs:54`). -/
def unexpiredSourceRoute (p : Packet) : Except IoError Bool :=
  sourceRouteFrom p.bytes p.headerLen p.headerLen 20

/-- The IPv6 packet with its transport checksum. Reference: `encode6` (`nat64/translate.rs:442`). -/
def encode6 (protocol : UInt8) (source dest : Ipv6Addr) (class_ hop : UInt8) (payload : Bytes) :
    Except IoError Bytes :=
  let at_ := checksumOffset protocol
  let payload := overwrite payload at_ [0, 0]
  let sum := checksum6 source dest protocol payload
  let payload := overwrite payload at_ (toBe 2 (transportSum protocol sum))
  match ipv6Packet source dest protocol hop payload with
  | .error _ => .error invalidEvidence
  | .ok out => .ok (overwrite out 0 [octet out 0 ||| class_ >>> 4, class_ <<< 4])

/-! ## The state -/

/-- Reference: `Translator` (`nat64/translate.rs:16`); `mtus` has the AIL first. -/
structure Translator where
  bindings : Bindings
  prefixes : List Prefix
  ipv4 : Option Ipv4Addr
  identification : UInt16
  mtus : Both Nat
  lowestIpv6Mtu : Nat
  errorWindow : Nat
  errorCount : Nat

/-- How a call fails: with an error, or with a panic. -/
inductive Fault
  | io (e : IoError)
  | panic
  deriving DecidableEq

/-- A call of the translator. -/
abbrev Translation := Act Translator Fault

/-- A fallible function in a call. -/
def check {α : Type} (r : Except IoError α) : Translation α := Act.lift (r.mapError .io)

/-- A call of the bindings, which panics where that does. -/
def onBindings {α : Type} (op : Bindings → Option (Except IoError α × Bindings)) : Translation α :=
  fun t =>
    match op t.bindings with
    | none => (.error .panic, t)
    | some (r, b) => (r.mapError .io, { t with bindings := b })

namespace Translator

/-- Reference: `Translator::synthesize` (`nat64/translate.rs:378`). -/
def synthesize (t : Translator) (ipv4 : Ipv4Addr) : Ipv6Addr :=
  .ofValue (t.bindings.domain.value ||| ofBe ipv4.1)

/-- Reference: `Translator::allow_error` (`nat64/translate/errors.rs:4`). -/
def allowError (now : Nat) : Translation Bool := fun t =>
  let t := if now - t.errorWindow ≥ 1000 then { t with errorWindow := now, errorCount := 0 } else t
  if t.errorCount = 32 then (.ok false, t)
  else (.ok true, { t with errorCount := t.errorCount + 1 })

/-- Reference: `extract` (`nat64/translate/errors.rs:155`). -/
def extract (a : Ipv6Addr) : Ipv4Addr := octetsAt a.1 12 4

/-- Reference: `icmp4_checksum` (`nat64/translate/errors.rs:158`). -/
def icmp4Checksum (b : Bytes) : Bytes := overwrite b 2 (toBe 2 (checksum b))

/-! ## New errors -/

/-- Reference: `Translator::generate6` (`nat64/translate/errors.rs:364`). -/
def generate6 (e : Envelope) (kind code : UInt8) (value : Nat) (now : Nat) :
    Translation (List Tx) := do
  if ← allowError now then
    let body := [kind, code, 0, 0] ++ toBe 4 value ++ e.packet.take 1232
    let packet ← check (encode6 58 e.destination e.source 0 64 body)
    pure [⟨.stub, packet⟩]
  else pure []

/-- Reference: `Translator::generate4` (`nat64/translate/errors.rs:383`). -/
def generate4 (p : Packet) (kind code : UInt8) (value : Nat) (now : Nat) :
    Translation (List Tx) := do
  if ← allowError now then
    let body := [kind, code, 0, 0] ++ toBe 4 value ++ p.bytes.take 548
    let packet ← check (encode p.destination p.source 1 64 (icmp4Checksum body))
    pure [⟨.ail, packet⟩]
  else pure []

/-! ## Translated errors -/

/-- The value of an ICMP error: the pointer or the MTU. Reference: `Translator::error4`
(`nat64/translate/errors.rs:28`). -/
def errorValue4 (b : Bytes) : Nat := if octet b 0 = 12 then (octet b 4).toNat else u16At b 6

/-- The last part of `error4`, for a quote with a binding. Reference: `Translator::error4`
(`nat64/translate/errors.rs:51`). -/
def deliver4 (p : Packet) (now : Nat) (q : Packet) (extension : Bytes) (kind code : UInt8)
    (value : Nat) (sport : UInt16) (host : Ipv6Addr) (port : UInt16) : Translation (List Tx) := do
  match (← Act.get).bindings.reverse.get (q.protocol, sport) with
  | none => Act.fail .panic
  | some key =>
    Act.modify fun t => { t with bindings := { t.bindings with domain := key.domain } }
    let t ← Act.get
    let quote ← check (quote4To6 q host (t.synthesize q.destination) port)
    let body := joinExtensions kind code value quote extension false
    if ← allowError now then
      let packet ← check (encode6 58 (t.synthesize p.source) host p.trafficClass (p.ttl - 1) body)
      pure [⟨.stub, packet⟩]
    else pure []

/-- Reference: `Translator::error4` (`nat64/translate/errors.rs:15`). -/
def error4 (p : Packet) (now : Nat) : Translation (List Tx) := do
  let b := p.payload
  let t ← Act.get
  if b.length < 8 ∨ checksum b ≠ 0 then Act.fail (.io invalidEvidence)
  else if t.ipv4 ≠ some p.destination ∨ unicast p.source = false then pure []
  else
    let (quoted, extension) ← check (splitExtensions b true)
    let q ← check (Packet.parseInner quoted true)
    if q.payload.length < 8 then Act.fail (.io invalidEvidence)
    else
      match v4ToV6 (octet b 0) (octet b 1) (errorValue4 b) (u16At b 10) t.mtus.ail t.mtus.stub with
      | none => pure []
      | some (kind, code, value) =>
        if q.source ≠ p.destination ∨ unicast q.destination = false ∨ q.fragmentOffset ≠ 0 then
          pure []
        else
          match quotedPorts q.protocol q.payload with
          | none => pure []
          | some (sport, dport) =>
            let remote : SocketAddrV4 := ⟨q.destination, if q.protocol = 1 then 0 else dport⟩
            match t.bindings.errorIn q.protocol sport remote now with
            | none => pure []
            | some (host, port) => deliver4 p now q extension kind code value sport host port

/-- Whether an address is behind the prefix in use. -/
def inDomain (t : Translator) (a : Ipv6Addr) : Bool :=
  (Prefix.new t.bindings.domain 96).any fun p => p.contains a

/-- The last part of `error6`, for a quote with a binding. Reference: `Translator::error6`
(`nat64/translate/errors.rs:114`). -/
def deliver6 (e : Envelope) (now : Nat) (pool dest : Ipv4Addr) (q : Quote6) (extension : Bytes)
    (port : UInt16) : Translation (List Tx) := do
  let b := e.payload
  let t ← Act.get
  let adjustment := if octet b 0 = 2 ∧ q.fragment.isSome then 8 else 0
  match v6ToV4 (octet b 0) (octet b 1) (ofBe ((b.drop 4).take 4) - adjustment) t.mtus.ail
      (t.mtus.stub - adjustment) with
  | none => pure []
  | some (kind, code, value) =>
    let quote ← check (quote6To4 q dest pool port)
    let body := joinExtensions kind code (if kind = 12 then value * 2 ^ 24 % 2 ^ 32 else value)
      quote extension true
    if dest = pool then
      let packet ← check (encode pool pool 1 e.hopLimit (icmp4Checksum body))
      let p ← check (Packet.parse packet)
      error4 p now
    else if ← allowError now then
      let packet ← check (encode pool dest 1 (e.hopLimit - 1) (icmp4Checksum body))
      pure [⟨.ail, packet⟩]
    else pure []

/-- Reference: `Translator::error6` (`nat64/translate/errors.rs:71`). -/
def error6 (e : Envelope) (now : Nat) : Translation (List Tx) := do
  let b := e.payload
  let t ← Act.get
  if b.length < 8 ∨ checksum6 e.source e.destination 58 b ≠ 0 then Act.fail (.io invalidEvidence)
  else
    match t.ipv4 with
    | none => pure []
    | some pool =>
      if t.inDomain e.destination = false ∨ t.inDomain e.source ∨ e.source.isMulticast ∨
          e.source.isUnspecified ∨ e.source.isLoopback ∨ e.source.linkLocal then pure []
      else
        let (quoted, extension) ← check (splitExtensions b false)
        let q ← check (Quote6.parse quoted)
        if q.nonInitial ∨ t.inDomain q.source = false ∨ q.source ≠ e.destination then pure []
        else if unicast (extract q.source) = false then pure []
        else
          match quotedPorts q.protocol q.payload with
          | none => pure []
          | some (sport, dport) =>
            let dest := extract q.source
            let protocol := if q.protocol = 58 then 1 else q.protocol
            let remote : SocketAddrV4 := ⟨dest, if protocol = 1 then 0 else sport⟩
            match t.bindings.errorOut protocol q.dest dport remote now with
            | none => pure []
            | some port => deliver6 e now pool dest q extension port

/-! ## From the stub link -/

/-- The external port of a packet; `none` if the bindings do not let it out. Reference:
`Translator::outbound_datagram` (`nat64/translate.rs:172`). -/
def assign (e : Envelope) (protocol : UInt8) (sport dport : UInt16) (dest : Ipv4Addr) (now : Nat)
    (rng : Random) : Translation (Option UInt16) :=
  if protocol = 17 then
    some <$> onBindings fun b => b.udpOut e.source sport ⟨dest, dport⟩ now rng fun _ => false
  else if protocol = 58 then
    some <$> onBindings fun b => b.icmpOut e.source sport dest now rng
  else onBindings fun b => b.tcpOut e.source sport ⟨dest, dport⟩ (octet e.payload 13) now rng

/-- The host and port that a packet to the pool goes back to. Reference:
`Translator::outbound_datagram` (`nat64/translate.rs:197`). -/
def hairpinTarget (protocol : UInt8) (pool : Ipv4Addr) (assigned dport : UInt16) (flags : UInt8)
    (now : Nat) : Translation (Option (Ipv6Addr × UInt16)) :=
  if protocol = 17 then onBindings fun b => b.udpIn dport ⟨pool, assigned⟩ now
  else if protocol = 58 then onBindings fun b => b.icmpIn assigned pool now
  else onBindings fun b => b.tcpIn dport ⟨pool, assigned⟩ flags now

/-- A packet to the pool goes back to the stub link. Reference: `Translator::outbound_datagram`
(`nat64/translate.rs:193`). -/
def hairpin (e : Envelope) (protocol class_ : UInt8) (pool : Ipv4Addr) (assigned dport : UInt16)
    (payload : Bytes) (now : Nat) : Translation (List Tx) := do
  match ← hairpinTarget protocol pool assigned dport (octet payload 13) now with
  | none => pure []
  | some (target, port) =>
    let payload := overwrite payload (if protocol = 58 then 4 else 2) (toBe 2 port.toNat)
    let t ← Act.get
    let packet ← check (encode6 protocol (t.synthesize pool) target class_ (e.hopLimit - 1) payload)
    pure [⟨.stub, packet⟩]

/-- The IPv4 packet of a packet from the stub link, before it is cut. Reference:
`Translator::outbound_datagram` (`nat64/translate.rs:222`). -/
def packet4 (e : Envelope) (protocol class_ : UInt8) (pool dest : Ipv4Addr) (payload : Bytes)
    (id : Nat) (unfragmented : Bool) : Except IoError Bytes := do
  let payload :=
    if protocol = 58 then overwrite payload 0 [if octet payload 0 = 128 then 8 else 0] else payload
  let protocol := if protocol = 58 then 1 else protocol
  let at_ := checksumOffset protocol
  let payload := overwrite payload at_ [0, 0]
  let sum := checksum4 pool dest protocol payload
  let payload := overwrite payload at_ (toBe 2 (transportSum protocol sum))
  let out ← encode pool dest protocol (e.hopLimit - 1) payload
  let out := overwrite (overwrite out 1 [class_]) 4 (toBe 2 id)
  let out := if out.length > 1260 ∧ unfragmented then overwrite out 6 [0x40] else out
  let out := overwrite out 10 [0, 0]
  .ok (overwrite out 10 (toBe 2 (checksum (out.take 20))))

/-- A packet from the stub link goes to the AIL. Reference: `Translator::outbound_datagram`
(`nat64/translate.rs:222`). -/
def emit4 (e : Envelope) (protocol class_ : UInt8) (pool dest : Ipv4Addr) (payload : Bytes)
    (fragmentId : Option UInt32) : Translation (List Tx) := do
  let t ← Act.get
  let id := (fragmentId.map UInt32.toNat).getD t.identification.toNat
  let out ← check (packet4 e protocol class_ pool dest payload id fragmentId.isNone)
  Act.modify fun t => { t with identification := t.identification + 1 }
  let packets ← check (fragment out t.mtus.ail (UInt32.ofNat (u16At out 4)))
  pure (packets.map fun packet => ⟨.ail, packet⟩)

/-- The traffic class of an IPv6 packet. -/
def trafficClass (packet : Bytes) : UInt8 := (octet packet 0 &&& 15) <<< 4 ||| octet packet 1 >>> 4

/-- The last part of `outbound_datagram`, for a packet of the right size. Reference:
`Translator::outbound_datagram` (`nat64/translate.rs:171`). -/
def translateOut (d : Datagram) (e : Envelope) (protocol : UInt8) (pool dest : Ipv4Addr)
    (sport dport : UInt16) (now : Nat) (rng : Random) : Translation (List Tx) := do
  match ← assign e protocol sport dport dest now rng with
  | none => pure []
  | some assigned =>
    let payload := overwrite e.payload (if protocol = 58 then 4 else 0) (toBe 2 assigned.toNat)
    if dest = pool then
      hairpin e protocol (trafficClass d.packet) pool assigned dport payload now
    else emit4 e protocol (trafficClass d.packet) pool dest payload d.fragmentId

/-- Whether a packet is answered with Packet Too Big. Reference: `Translator::outbound_datagram`
(`nat64/translate.rs:164`). -/
def tooBig (t : Translator) (d : Datagram) (e : Envelope) (pool dest : Ipv4Addr) : Bool :=
  e.payload.length + 20 > t.mtus.ail && e.payload.length + 20 > 1260 && dest != pool &&
    d.fragmentId.isNone

/-- The middle part of `outbound_datagram`, for a packet between addresses that are translated.
Reference: `Translator::outbound_datagram` (`nat64/translate.rs:139`). -/
def outboundTransport (d : Datagram) (e : Envelope) (protocol : UInt8) (problem : Option Nat)
    (pool dest : Ipv4Addr) (now : Nat) (rng : Random) : Translation (List Tx) := do
  if protocol = 58 ∧ e.payload.head?.any fun kind => kind < 128 then
    if e.hopLimit ≤ 1 ∨ problem.isSome then pure [] else error6 e now
  else
    match problem with
    | some pointer => generate6 e 4 0 pointer now
    | none =>
      if protocol ∉ [6, 17, 58] then generate6 e 1 4 0 now
      else
        let (sport, dport) ← check (ports protocol e.payload)
        let t ← Act.get
        if (protocol = 17 ∧ u16At e.payload 6 = 0) ∨
            checksum6 e.source e.destination protocol e.payload ≠ 0 then
          Act.fail (.io invalidEvidence)
        else if e.hopLimit ≤ 1 then generate6 e 3 0 0 now
        else if t.tooBig d e pool dest then
          generate6 e 2 0 (max (satAdd32 t.mtus.ail 20) 1280) now
        else translateOut d e protocol pool dest sport dport now rng

/-- Whether a source may not send through the translator, or a destination is not translated.
Reference: `Translator::outbound_datagram` (`nat64/translate.rs:117`). -/
def refused (t : Translator) (sourceAllowed : Ipv6Addr → Bool) (e : Envelope) : Bool :=
  !sourceAllowed e.source || e.source.isUnspecified || e.source.isLoopback ||
  e.source.isMulticast ||
    e.source.linkLocal || e.source.isIpv4Mapped || (t.prefixes.any fun p => p.contains e.source) ||
    !t.prefixes.any fun p => p.contains e.destination

/-- The part of `outbound_datagram` that looks at the addresses. Reference:
`Translator::outbound_datagram` (`nat64/translate.rs:111`). -/
def outboundAddressed (d : Datagram) (e : Envelope) (problem : Option Nat) (now : Nat)
    (rng : Random) (sourceAllowed : Ipv6Addr → Bool) (reachable : Ipv4Addr → Bool) :
    Translation (List Tx) := do
  let t ← Act.get
  if e.payload.length > 65515 then Act.fail (.io invalidEvidence)
  else
    match t.ipv4 with
    | none => pure []
    | some pool =>
      if t.refused sourceAllowed e then pure []
      else
        match t.prefixes.find? fun p => p.contains e.destination with
        | none => Act.fail .panic
        | some p =>
          Act.modify fun t => { t with bindings := { t.bindings with domain := p.address } }
          let dest := extract e.destination
          if unicast dest = false ∨ (dest ≠ pool ∧ reachable dest = false) then pure []
          else outboundTransport d e e.nextHeader problem pool dest now rng

/-- Reference: `Translator::outbound_datagram` (`nat64/translate.rs:95`). -/
def outboundDatagram (d : Datagram) (now : Nat) (rng : Random) (sourceAllowed : Ipv6Addr → Bool)
    (reachable : Ipv4Addr → Bool) : Translation (List Tx) := do
  match envelope .rawIpv6 d.packet with
  | .error _ => Act.fail (.io invalidEvidence)
  | .ok e =>
    if e.packet.length ≠ d.packet.length then Act.fail (.io invalidEvidence)
    else
      let (protocol, offset, problem) ← check (transport6 d.packet)
      outboundAddressed d { e with nextHeader := protocol, payload := d.packet.drop offset } problem
        now rng sourceAllowed reachable

/-! ## From the AIL -/

/-- The host and port that a packet from the AIL goes to. Reference: `Translator::inbound`
(`nat64/translate.rs:305`). -/
def inboundTarget (p : Packet) (sport dport : UInt16) (now : Nat) :
    Translation (Option (Ipv6Addr × UInt16)) :=
  if p.protocol = 17 then onBindings fun b => b.udpIn dport ⟨p.source, sport⟩ now
  else if p.protocol = 1 then onBindings fun b => b.icmpIn sport p.source now
  else onBindings fun b => b.tcpInPacket dport ⟨p.source, sport⟩ (octet p.payload 13) now p.bytes

/-- The transport octets of a packet from the AIL, for its host. Reference: `Translator::inbound`
(`nat64/translate.rs:317`). -/
def payload6 (p : Packet) (port : UInt16) : Bytes :=
  if p.protocol = 1 then
    overwrite (overwrite p.payload 4 (toBe 2 port.toNat)) 0
      [if octet p.payload 0 = 8 then 128 else 129]
  else overwrite p.payload 2 (toBe 2 port.toNat)

/-- The last part of `inbound`, for a packet that is let in. Reference: `Translator::inbound`
(`nat64/translate.rs:305`). -/
def translateIn (p : Packet) (sport dport : UInt16) (now : Nat) : Translation (List Tx) := do
  match ← inboundTarget p sport dport now with
  | none => pure []
  | some (target, port) =>
    let t ← Act.get
    let protocol := if p.protocol = 1 then 58 else p.protocol
    let out ← check (encode6 protocol (t.synthesize p.source) target p.trafficClass (p.ttl - 1)
      (payload6 p port))
    let mtu := if p.dontFragment then t.mtus.stub else min t.mtus.stub t.lowestIpv6Mtu
    let packets ← check (fragment out mtu (UInt32.ofNat p.id))
    pure (packets.map fun packet => ⟨.stub, packet⟩)

/-- Whether a packet that may not be cut is too long for the stub link. Reference:
`Translator::inbound` (`nat64/translate.rs:280`). -/
def tooBig4 (t : Translator) (p : Packet) : Bool :=
  p.dontFragment && p.payload.length + 40 > t.mtus.stub

/-- The part of `inbound` for a packet that is answered with an error, if it has a session.
Reference: `Translator::inbound` (`nat64/translate.rs:282`). -/
def refuseIn (p : Packet) (sport dport : UInt16) (sourceRoute : Bool) (now : Nat) :
    Translation (List Tx) := do
  let t ← Act.get
  let port := if p.protocol = 1 then sport else dport
  let remote : SocketAddrV4 := ⟨p.source, if p.protocol = 1 then 0 else sport⟩
  if (t.bindings.errorIn p.protocol port remote now).isNone then pure []
  else if p.ttl ≤ 1 then generate4 p 11 0 0 now
  else if sourceRoute then generate4 p 3 5 0 now
  else generate4 p 3 4 (max (t.mtus.stub - 20) 68) now

/-- Reference: `Translator::inbound` (`nat64/translate.rs:252`). -/
def inbound (packet : Bytes) (now : Nat) : Translation (List Tx) := do
  let p ← check (Packet.parse packet)
  if p.bytes.length ≠ packet.length ∨ p.protocol ∉ [1, 6, 17] ∨ p.fragmentOffset ≠ 0 ∨
      p.moreFragments then Act.fail (.io invalidEvidence)
  else if p.protocol = 1 ∧ p.payload.head?.any fun kind => kind ∉ [0, 8] then
    if p.ttl ≤ 1 then pure [] else error4 p now
  else
    let (sport, dport) ← check (ports p.protocol p.payload)
    let t ← Act.get
    if (p.protocol ≠ 17 ∨ u16At p.payload 6 ≠ 0) ∧
        checksum4 p.source p.destination p.protocol p.payload ≠ 0 then
      Act.fail (.io invalidEvidence)
    else if t.ipv4 ≠ some p.destination ∨ unicast p.source = false then pure []
    else
      let sourceRoute ← check (unexpiredSourceRoute p)
      if p.ttl ≤ 1 ∨ sourceRoute ∨ t.tooBig4 p then refuseIn p sport dport sourceRoute now
      else translateIn p sport dport now

end Translator

end SnacMachine.Nat64
