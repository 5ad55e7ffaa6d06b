import SnacMachine.Net.Address

/-!
# IP packets

The headers of IPv4 and IPv6 packets: `Packet.parse` and the header checksum of `ipv4/wire.rs`,
`envelope` of `wire.rs`. Octets are read by position; the program reads no position that the packet
does not have, so what `octet` returns there does not matter.
-/

namespace SnacMachine.Ip

/-- The octet at a position. -/
def octet (b : Bytes) (n : Nat) : UInt8 := b.getD n 0

/-- The 16-bit number at a position. -/
def u16At (b : Bytes) (n : Nat) : Nat := ofBe [octet b n, octet b (n + 1)]

/-- The `n` octets at a position. -/
def octetsAt (b : Bytes) (pos n : Nat) : Octets n :=
  ⟨(b.drop pos ++ List.replicate n 0).take n, by simp⟩

/-- Reference: `invalid` (`ipv4/wire.rs:2`). -/
def invalidIpv4 : IoError := ⟨.invalidData, "invalid IPv4/ARP/ICMP packet"⟩

/-! ## The header checksum -/

/-- The sum of the 16-bit words of a byte string, a last odd octet being the high one of its
word. -/
def wordSum : Bytes → Nat
  | [] => 0
  | [x] => x.toNat * 256
  | x :: y :: b => ofBe [x, y] + wordSum b

/-- Adds the carries of a sum to its low 16 bits until there are none. -/
def foldCarries (sum : Nat) : Nat :=
  if sum > 65535 then foldCarries (sum % 65536 + sum / 65536) else sum
termination_by sum
decreasing_by omega

/-- Reference: `checksum` (`ipv4/wire.rs:5`). -/
def checksum (b : Bytes) : Nat := 65535 - foldCarries (wordSum b)

/-! ## IPv4 -/

/-- Reference: `Packet` (`ipv4/wire.rs:16`). -/
structure Packet where
  source : Ipv4Addr
  destination : Ipv4Addr
  ttl : UInt8
  protocol : UInt8
  payload : Bytes
  bytes : Bytes
  headerLen : Nat
  fragmentOffset : Nat
  moreFragments : Bool
  dontFragment : Bool
  id : Nat
  trafficClass : UInt8

/-- The loop over the options that end at `h`: whether they are well formed. Reference: the loop of
`Packet::parse_inner` (`ipv4/wire.rs:47`). -/
def optionsOk (b : Bytes) (h pos : Nat) : Bool :=
  if pos < h then
    let t := octet b pos
    if t = 0 then !((b.take h).drop (pos + 1)).any fun v => v != 0
    else if t = 1 then optionsOk b h (pos + 1)
    else if pos + 2 > h then false
    else
      let len := (octet b (pos + 1)).toNat
      if len < 2 ∨ pos + len > h then false else optionsOk b h (pos + len)
  else true
termination_by h - pos

/-- Reference: `Packet::parse_inner` (`ipv4/wire.rs:37`). -/
def Packet.parseInner (b : Bytes) (quoted : Bool) : Except IoError Packet :=
  if b.length < 20 ∨ octet b 0 >>> 4 ≠ 4 then .error invalidIpv4
  else
    let h := (octet b 0 &&& 15).toNat * 4
    let n := u16At b 2
    if h < 20 ∨ h > b.length ∨ n < h ∨ (quoted = false ∧ n > b.length) ∨
        checksum (b.take h) ≠ 0 then .error invalidIpv4
    else if !optionsOk b h 20 then .error invalidIpv4
    else
      let flags := u16At b 6
      let offset := (flags &&& 0x1fff) * 8
      let more := flags &&& 0x2000 != 0
      let df := flags &&& 0x4000 != 0
      if flags &&& 0x8000 ≠ 0 ∨ (df ∧ (more ∨ offset ≠ 0)) ∨
          (more ∧ ((n - h) % 8 ≠ 0 ∨ n = h)) ∨ offset + n - h > 65535 then .error invalidIpv4
      else
        let n := min n b.length
        .ok {
          source := octetsAt b 12 4
          destination := octetsAt b 16 4
          ttl := octet b 8
          protocol := octet b 9
          payload := (b.take n).drop h
          bytes := b.take n
          headerLen := h
          fragmentOffset := offset
          moreFragments := more
          dontFragment := df
          id := u16At b 4
          trafficClass := octet b 1 }

/-- Reference: `Packet::parse` (`ipv4/wire.rs:31`). -/
def Packet.parse (b : Bytes) : Except IoError Packet := Packet.parseInner b false

/-! ## IPv6 -/

/-- Reference: `FrameKind` (`wire.rs:4`). -/
inductive FrameKind
  | ethernet
  | rawIpv6
  deriving DecidableEq

/-- Reference: `WireError` (`wire.rs:9`). -/
inductive WireError
  | truncated
  | invalid
  | unsupported
  | capacity
  deriving DecidableEq

/-- Reference: `Envelope` (`wire.rs:16`). -/
structure Envelope where
  packet : Bytes
  payload : Bytes
  source : Ipv6Addr
  destination : Ipv6Addr
  nextHeader : UInt8
  hopLimit : UInt8

/-- The packet in a frame. -/
def framed (kind : FrameKind) (frame : Bytes) : Except WireError Bytes :=
  match kind with
  | .rawIpv6 => .ok frame
  | .ethernet =>
    if frame.length < 14 then .error .truncated
    else if (frame.drop 12).take 2 ≠ [0x86, 0xdd] then .error .unsupported
    else .ok (frame.drop 14)

/-- Reference: `envelope` (`wire.rs:24`). -/
def envelope (kind : FrameKind) (frame : Bytes) : Except WireError Envelope := do
  let p ← framed kind frame
  if p.length < 40 then .error .truncated
  else if octet p 0 >>> 4 ≠ 6 then .error .invalid
  else
    let stop := 40 + u16At p 4
    if stop > p.length then .error .truncated
    else
      let packet := p.take stop
      .ok {
        packet
        payload := packet.drop 40
        source := octetsAt p 8 16
        destination := octetsAt p 24 16
        nextHeader := octet p 6
        hopLimit := octet p 7 }

end SnacMachine.Ip
