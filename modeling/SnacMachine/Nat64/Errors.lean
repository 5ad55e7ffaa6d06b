import SnacMachine.Ip.Ra

/-!
# Translating ICMP errors

The embedding of `nat64/icmp.rs`, of the header traversal of `nat64/translate/headers.rs`, and of
the functions of `nat64/translate/errors.rs` that translate the packet that an error quotes and the
extensions behind it. Octets are read by position and replaced in place; the translator calls these
functions on messages and quotes that have the octets they touch.
-/

namespace SnacMachine.Nat64

open Ip

/-! ## Error types -/

/-- The plateau below the length of a packet. Reference: the table of `v4_to_v6`
(`nat64/icmp.rs:18`). -/
def plateau (quotedLength : Nat) : Nat :=
  ([65535, 32000, 17914, 8166, 4352, 2002, 1492].find? fun v => v < quotedLength).getD 0

/-- An addition that stops at the largest 32-bit value. -/
def satAdd32 (a b : Nat) : Nat := min (a + b) (2 ^ 32 - 1)

/-- The pointer into an IPv6 header for one into an IPv4 header. Reference: `v4_to_v6`
(`nat64/icmp.rs:39`). -/
def pointer4To6 (value : Nat) : Option Nat :=
  match value with
  | 0 => some 0
  | 1 => some 1
  | 2 | 3 => some 4
  | 8 => some 7
  | 9 => some 6
  | v => if 12 ≤ v ∧ v ≤ 15 then some 8 else if 16 ≤ v ∧ v ≤ 19 then some 24 else none

/-- The pointer into an IPv4 header for one into an IPv6 header. Reference: `v6_to_v4`
(`nat64/icmp.rs:71`). -/
def pointer6To4 (value : Nat) : Option Nat :=
  match value with
  | 0 => some 0
  | 1 => some 1
  | 4 | 5 => some 2
  | 6 => some 9
  | 7 => some 8
  | v => if 8 ≤ v ∧ v ≤ 23 then some 12 else if 24 ≤ v ∧ v ≤ 39 then some 16 else none

/-- The type, code and value of the ICMPv6 error for an ICMP error. Reference: `v4_to_v6`
(`nat64/icmp.rs:3`). -/
def v4ToV6 (kind code : UInt8) (value quotedLength mtu4 mtu6 : Nat) :
    Option (UInt8 × UInt8 × Nat) :=
  if kind = 3 then
    if code ∈ [0, 1, 5, 6, 7, 8, 11, 12] then some (1, 0, 0)
    else if code = 2 then some (4, 1, 6)
    else if code = 3 then some (1, 4, 0)
    else if code = 4 then
      let mtu := if value = 0 then plateau quotedLength else value
      some (2, 0, max (min (min (satAdd32 mtu 20) mtu6) (satAdd32 mtu4 20)) 1280)
    else if code ∈ [9, 10, 13, 15] then some (1, 1, 0)
    else none
  else if kind = 11 then if code ∈ [0, 1] then some (3, code, 0) else none
  else if kind = 12 then
    if code ∈ [0, 2] then (pointer4To6 value).map fun v => (4, 0, v) else none
  else none

/-- The type, code and value of the ICMP error for an ICMPv6 error. Reference: `v6_to_v4`
(`nat64/icmp.rs:53`). -/
def v6ToV4 (kind code : UInt8) (value mtu4 mtu6 : Nat) : Option (UInt8 × UInt8 × Nat) :=
  if kind = 1 then
    if code ∈ [0, 2, 3] then some (3, 1, 0)
    else if code = 1 then some (3, 10, 0)
    else if code = 4 then some (3, 3, 0)
    else none
  else if kind = 2 then
    if code = 0 then some (3, 4, min (max (min (min (value - 20) mtu4) (mtu6 - 20)) 68) 65535)
    else none
  else if kind = 3 then if code ∈ [0, 1] then some (11, code, 0) else none
  else if kind = 4 then
    if code = 0 then (pointer6To4 value).map fun v => (12, 0, v)
    else if code = 1 then some (3, 2, 0)
    else none
  else none

/-! ## Transport checksums -/

/-- Reference: `checksum_offset` (`nat64/translate.rs:397`). -/
def checksumOffset (protocol : UInt8) : Nat :=
  if protocol = 6 then 16 else if protocol = 17 then 6 else 2

/-- Reference: `nonzero` (`nat64/translate.rs:435`). -/
def nonzero (value : Nat) : Nat := if value = 0 then 65535 else value

/-- Reference: `transport_sum` (`nat64/translate.rs:406`). -/
def transportSum (protocol : UInt8) (sum : Nat) : Nat := if protocol = 17 then nonzero sum else sum

/-- Reference: `checksum4` (`nat64/translate.rs:424`). -/
def checksum4 (source destination : Ipv4Addr) (protocol : UInt8) (b : Bytes) : Nat :=
  if protocol = 1 then checksum b
  else checksum (source.1 ++ destination.1 ++ [0, protocol] ++ toBe 2 b.length ++ b)

/-! ## Headers -/

/-- Reference: `encode` (`ipv4/wire.rs:96`). -/
def encode (source destination : Ipv4Addr) (protocol ttl : UInt8) (payload : Bytes) :
    Except IoError Bytes :=
  if 20 + payload.length > 65535 then .error invalidIpv4
  else
    let b := [0x45, 0] ++ toBe 2 (20 + payload.length) ++ [0, 0, 0, 0, ttl, protocol, 0, 0] ++
      source.1 ++ destination.1
    .ok (overwrite b 10 (toBe 2 (checksum b)) ++ payload)

/-- Whether the options between two positions of an extension header are well formed. Reference: the
inner loop of `transport6` (`nat64/translate/headers.rs:34`). -/
def optionsFit (b : Bytes) (stop pos : Nat) : Bool :=
  if pos < stop then
    if octet b pos = 0 then optionsFit b stop (pos + 1)
    else if pos + 2 > stop then false
    else
      let len := (octet b (pos + 1)).toNat + 2
      if pos + len > stop then false else optionsFit b stop (pos + len)
  else true
termination_by stop - pos

/-- The extension headers that `transport6` has met. -/
structure HeadersSeen where
  hop : Bool
  route : Bool
  before : Bool
  after : Bool

/-- The headers that have been met with one more, if it may stand there. Reference: `transport6`
(`nat64/translate/headers.rs:20`). -/
def HeadersSeen.meet (s : HeadersSeen) (next : UInt8) (pos : Nat) : Option HeadersSeen :=
  if next = 0 ∧ pos = 40 ∧ s.hop = false then some { s with hop := true }
  else if next = 43 ∧ s.route = false ∧ s.after = false then some { s with route := true }
  else if next = 60 ∧ s.route = false ∧ s.before = false then some { s with before := true }
  else if next = 60 ∧ s.route = true ∧ s.after = false then some { s with after := true }
  else none

/-- The loop of `transport6` (`nat64/translate/headers.rs:9`). -/
def transport6From (b : Bytes) : Nat → HeadersSeen → UInt8 → Nat → Option Nat →
    Except IoError (UInt8 × Nat × Option Nat)
  | 0, _, _, _, _ => .error invalidEvidence
  | turns + 1, seen, next, pos, problem =>
    if next ∉ [0, 43, 60] then .ok (next, pos, problem)
    else if pos + 8 > b.length then .error invalidEvidence
    else
      let n := ((octet b (pos + 1)).toNat + 1) * 8
      if pos + n > b.length then .error invalidEvidence
      else
        match seen.meet next pos with
        | none => .error invalidEvidence
        | some seen =>
          if next ≠ 43 ∧ optionsFit b (pos + n) (pos + 2) = false then .error invalidEvidence
          else
            let problem := if next = 43 ∧ octet b (pos + 3) ≠ 0 then some (pos + 3) else problem
            transport6From b turns seen (octet b pos) (pos + n) problem

/-- The transport protocol of an IPv6 packet, where it starts, and the pointer to a Routing header
that still needs routing. Reference: `transport6` (`nat64/translate/headers.rs:4`). -/
def transport6 (b : Bytes) : Except IoError (UInt8 × Nat × Option Nat) :=
  transport6From b 16 ⟨false, false, false, false⟩ (octet b 6) 40 none

/-! ## Quoted packets -/

/-- Reference: `quoted_ports` (`nat64/translate/errors.rs:163`). -/
def quotedPorts (protocol : UInt8) (b : Bytes) : Option (UInt16 × UInt16) :=
  if b.length < 8 then none
  else if protocol = 6 ∨ protocol = 17 then
    some (UInt16.ofNat (u16At b 0), UInt16.ofNat (u16At b 2))
  else if (protocol = 1 ∨ protocol = 58) ∧ octet b 1 = 0 ∧
      octet b 0 ∈ (if protocol = 1 then [0, 8] else [128, 129]) then
    let id := UInt16.ofNat (u16At b 4)
    some (id, id)
  else none

/-- Reference: `Quote6` (`nat64/translate/errors.rs:186`). -/
structure Quote6 where
  source : Ipv6Addr
  dest : Ipv6Addr
  protocol : UInt8
  hop : UInt8
  class_ : UInt8
  len : Nat
  payload : Bytes
  fragment : Option (Nat × Bool)
  nonInitial : Bool

/-- The protocol of a quote, where its transport starts, its identification and more-fragments flag,
and whether it is a later fragment. Reference: `Quote6::parse` (`nat64/translate/errors.rs:209`). -/
def Quote6.fragmentAt (b : Bytes) (protocol : UInt8) (offset : Nat) :
    Except IoError (UInt8 × Nat × Option (Nat × Bool) × Bool) :=
  if protocol = 44 then
    if offset + 8 > b.length ∨ octet b (offset + 1) ≠ 0 then .error invalidEvidence
    else
      let flags := u16At b (offset + 2)
      if flags &&& 6 ≠ 0 ∨ octet b offset ∈ [0, 43, 44, 51, 60] then .error invalidEvidence
      else .ok (octet b offset, offset + 8,
        some (ofBe ((b.drop (offset + 4)).take 4), flags &&& 1 != 0), flags &&& 0xfff8 != 0)
  else .ok (protocol, offset, none, false)

/-- Reference: `Quote6::parse` (`nat64/translate/errors.rs:198`). -/
def Quote6.parse (b : Bytes) : Except IoError Quote6 := do
  if b.length < 48 ∨ octet b 0 >>> 4 ≠ 6 then .error invalidEvidence
  else
    let total := u16At b 4
    let (protocol, offset, problem) ← transport6 b
    if problem.isSome then .error invalidEvidence
    else
      let (protocol, offset, fragment, nonInitial) ← Quote6.fragmentAt b protocol offset
      if total < offset - 40 then .error invalidEvidence
      else
        let len := total - (offset - 40)
        if ¬ (8 ≤ len ∧ len ≤ 65515) ∨ b.length < offset + 8 then .error invalidEvidence
        else .ok {
          source := octetsAt b 8 16
          dest := octetsAt b 24 16
          protocol := protocol
          hop := octet b 7
          class_ := (octet b 0 &&& 15) <<< 4 ||| octet b 1 >>> 4
          len := len
          payload := (b.drop offset).take len
          fragment := fragment
          nonInitial := nonInitial }

/-- Reference: `pseudo4` (`nat64/translate/errors.rs:242`). -/
def pseudo4 (src dst : Ipv4Addr) (p : UInt8) (len : Nat) : Bytes :=
  if p = 1 then [] else src.1 ++ dst.1 ++ [0, p] ++ toBe 2 len

/-- Reference: `pseudo6` (`nat64/translate/errors.rs:252`). -/
def pseudo6 (src dst : Ipv6Addr) (p : UInt8) (len : Nat) : Bytes :=
  src.1 ++ dst.1 ++ toBe 4 len ++ [0, 0, 0, p]

/-- The sum of the complements of the 16-bit words of a byte string. Reference: the first loop of
`adjust` (`nat64/translate/errors.rs:283`). -/
def complementSum : Bytes → Nat
  | [] => 0
  | [x] => 65535 - x.toNat * 256
  | x :: y :: b => 65535 - ofBe [x, y] + complementSum b

/-- What `adjust` sums up, before the carries are folded (`nat64/translate/errors.rs:282`). -/
def adjustedSum (c : Nat) (before old after b : Bytes) : Nat :=
  65535 - c + complementSum (before ++ old) + wordSum (after ++ b)

/-- The octets `b` with their checksum brought from the pseudo header `before` and the octets `old`
to the pseudo header `after`. Reference: `adjust` (`nat64/translate/errors.rs:259`). -/
def adjust (p : UInt8) (old b before after : Bytes) (len : Nat) : Except IoError Bytes :=
  let at_ := checksumOffset p
  if b.length < at_ + 2 then .ok b
  else
    let c := u16At old at_
    if p = 17 ∧ c = 0 then
      if b.length ≠ len then .error invalidEvidence
      else .ok (overwrite b at_ (toBe 2 (nonzero (checksum (after ++ b)))))
    else
      let sum := foldCarries (adjustedSum c before old after b % 2 ^ 32)
      .ok (overwrite b at_ (toBe 2 (transportSum p (65535 - sum))))

/-- The transport octets of a quoted IPv4 packet with the type and identifier or the source port of
the translated one. Reference: `quote4_to_6` (`nat64/translate/errors.rs:303`). -/
def relabel4 (p : UInt8) (b : Bytes) (port : UInt16) : Bytes :=
  if p = 58 then
    overwrite (overwrite b 0 [if octet b 0 = 8 then 128 else 129]) 4 (toBe 2 port.toNat)
  else overwrite b 0 (toBe 2 port.toNat)

/-- Reference: `quote4_to_6` (`nat64/translate/errors.rs:296`). -/
def quote4To6 (q : Packet) (src dst : Ipv6Addr) (port : UInt16) : Except IoError Bytes := do
  let len := u16At q.bytes 2 - q.headerLen
  let p := if q.protocol = 1 then 58 else q.protocol
  let b ← adjust p q.payload (relabel4 p q.payload port)
    (pseudo4 q.source q.destination q.protocol len) (pseudo6 src dst p len) len
  match ipv6Packet src dst p q.ttl b with
  | .error _ => .error invalidEvidence
  | .ok out =>
    let out := overwrite out 0 [octet out 0 ||| q.trafficClass >>> 4, q.trafficClass <<< 4]
    let out := overwrite out 4 (toBe 2 len)
    if q.moreFragments then
      if len + 8 > 65535 then .error invalidEvidence
      else
        let out := overwrite (overwrite out 6 [44]) 4 (toBe 2 (len + 8))
        .ok (out.take 40 ++ [p, 0, 0, 1] ++ toBe 4 q.id ++ out.drop 40)
    else .ok out

/-- The transport octets of a quoted IPv6 packet with the type and identifier or the destination
port of the translated one. Reference: `quote6_to_4` (`nat64/translate/errors.rs:333`). -/
def relabel6 (p : UInt8) (b : Bytes) (port : UInt16) : Bytes :=
  if p = 1 then
    overwrite (overwrite b 0 [if octet b 0 = 128 then 8 else 0]) 4 (toBe 2 port.toNat)
  else overwrite b 2 (toBe 2 port.toNat)

/-- Reference: `quote6_to_4` (`nat64/translate/errors.rs:332`). -/
def quote6To4 (q : Quote6) (src dst : Ipv4Addr) (port : UInt16) : Except IoError Bytes := do
  let p := if q.protocol = 58 then 1 else q.protocol
  let b ← adjust p q.payload (relabel6 p q.payload port) (pseudo6 q.source q.dest q.protocol q.len)
    (pseudo4 src dst p q.len) q.len
  let out ← encode src dst p q.hop b
  let out := overwrite out 1 [q.class_]
  let out := overwrite out 2 (toBe 2 (q.len + 20))
  let out :=
    match q.fragment with
    | some (id, more) => overwrite out 4 (toBe 2 id ++ [if more then 0x20 else 0])
    | none => if q.len + 20 > 1260 then overwrite out 6 [0x40] else out
  let out := overwrite out 10 [0, 0]
  .ok (overwrite out 10 (toBe 2 (checksum (out.take 20))))

/-! ## Extensions -/

/-- Whether the errors of a type have a length field. Reference: `split_extensions`
(`nat64/translate/errors.rs:406`). -/
def hasLength (kind : UInt8) (v4 : Bool) : Bool :=
  if v4 then kind ∈ [3, 11, 12] else kind ∈ [1, 3]

/-- Where the length field is. -/
def lengthAt (v4 : Bool) : Nat := if v4 then 5 else 4

/-- What it counts. -/
def lengthUnit (v4 : Bool) : Nat := if v4 then 4 else 8

/-- Whether the objects of an extension from a position on are well formed. Reference: the loop of
`split_extensions` (`nat64/translate/errors.rs:431`). -/
def objectsFit (x : Bytes) (pos : Nat) : Bool :=
  if pos < x.length then
    if pos + 4 > x.length then false
    else
      let n := u16At x pos
      if n < 4 ∨ n % 4 ≠ 0 ∨ pos + n > x.length then false else objectsFit x (pos + n)
  else true
termination_by x.length - pos

/-- The quote and the extension of an error. Reference: `split_extensions`
(`nat64/translate/errors.rs:405`). -/
def splitExtensions (b : Bytes) (v4 : Bool) : Except IoError (Bytes × Bytes) :=
  let units := if hasLength (octet b 0) v4 then (octet b (lengthAt v4)).toNat else 0
  if units = 0 then .ok (b.drop 8, [])
  else
    let len := units * lengthUnit v4
    if len < 128 ∨ 8 + len + 8 > b.length then .error invalidEvidence
    else
      let extension := b.drop (8 + len)
      if octet extension 0 >>> 4 ≠ 2 ∨ extension.length % 4 ≠ 0 ∨
          (u16At extension 2 ≠ 0 ∧ checksum extension ≠ 0) then .error invalidEvidence
      else if objectsFit extension 4 = false then .error invalidEvidence
      else .ok ((b.drop 8).take len, extension)

/-- The most octets that follow the first eight of an error. Reference: `join_extensions`
(`nat64/translate/errors.rs:453`). -/
def bodyCap (v4 : Bool) : Nat := if v4 then 548 else 1232

/-- The length of a padded quote. Reference: `join_extensions` (`nat64/translate/errors.rs:455`). -/
def paddedLength (n : Nat) (v4 : Bool) : Nat :=
  (max n 128 + lengthUnit v4 - 1) / lengthUnit v4 * lengthUnit v4

/-- The error with a quote and an extension. Reference: `join_extensions`
(`nat64/translate/errors.rs:443`). -/
def joinExtensions (kind code : UInt8) (value : Nat) (quote extension : Bytes)
    (v4 : Bool) : Bytes :=
  let body := [kind, code, 0, 0] ++ toBe 4 value
  let padded := paddedLength quote.length v4
  if hasLength kind v4 ∧ extension ≠ [] ∧ padded + extension.length ≤ bodyCap v4 ∧
      padded / lengthUnit v4 ≤ 255 then
    overwrite body (lengthAt v4) [UInt8.ofNat (padded / lengthUnit v4)] ++
      (quote ++ List.replicate (padded - quote.length) 0) ++ extension
  else body ++ quote.take (bodyCap v4)

end SnacMachine.Nat64
