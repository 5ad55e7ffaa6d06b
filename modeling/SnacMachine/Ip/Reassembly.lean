import SnacMachine.Ip.Wire
import SnacMachine.Lib.Total
import SnacMachine.Lib.Word

/-!
# Fragmentation and reassembly

The embedding of `ip_reassembly.rs`: `fragment` cuts a packet into fragments, and a `Reassembler`
puts fragments together again. A context collects the fragments of one key; a fragment that does
not agree with its context discards it.
-/

namespace SnacMachine.Ip

/-- A thirty-two-bit word is compared as a number. -/
instance : OrdKey UInt32 := ⟨Nat, inferInstance, UInt32.toNat⟩
instance : LawfulOrdKey UInt32 := ⟨fun h => UInt32.toNat_inj.1 h⟩

/-- Reference: `CAP` (`ip_reassembly.rs:7`). -/
def cap : Nat := 4 * 1024 * 1024

/-- Reference: `Datagram` (`ip_reassembly.rs:8`). -/
structure Datagram where
  packet : Bytes
  fragmentId : Option UInt32
  deriving DecidableEq

/-- What the fragments of one packet share: the scope they arrive in, the addresses, the protocol
and the identification. Reference: `Key` (`ip_reassembly.rs:12`). -/
abbrev Key := UInt8 × IpAddr × IpAddr × UInt8 × UInt32

/-- Reference: `invalid` (`ip_reassembly.rs:13`). -/
def invalid : IoError := ⟨.invalidData, "invalid IP fragment"⟩

/-- The refusal of a fragment that there is no room for. Reference: `ip_reassembly.rs:102`. -/
def capacity : IoError := ⟨.wouldBlock, "IP reassembly capacity"⟩

/-- Reference: `Context` (`ip_reassembly.rs:16`); `stop` is its field `end`. -/
structure Context where
  header : Bytes
  parts : OrdMap Nat Bytes
  stop : Option Nat
  deadline : Nat

/-- Reference: `Context::bytes` (`ip_reassembly.rs:23`). -/
def Context.bytes (c : Context) : Nat :=
  128 + c.header.length + (c.parts.values.map fun b => b.length + 128).sum

/-- Reference: `Reassembler` (`ip_reassembly.rs:28`). -/
structure Reassembler where
  contexts : OrdMap Key Context

/-- Reference: `Fragment` (`ip_reassembly.rs:31`). -/
structure Fragment where
  key : Key
  header : Bytes
  offset : Nat
  more : Bool
  payload : Bytes

/-! ## Reading a fragment -/

/-- The fragment that an IPv6 packet carries behind the header at `previous`, the fragment header
being at `pos`. Reference: the first branch of the loop of `parse` (`ip_reassembly.rs:185`). -/
def fragmentAt (b : Bytes) (e : Envelope) (pos previous : Nat) : Except IoError (Option Fragment) :=
  if pos + 8 > b.length ∨ octet b (pos + 1) ≠ 0 then .error invalid
  else
    let flags := u16At b (pos + 2)
    if flags &&& 6 ≠ 0 ∨ octet b pos ∈ [0, 43, 44, 51, 60] then .error invalid
    else .ok (some {
      key := (0, .v6 e.source, .v6 e.destination, 0,
        UInt32.ofNat (ofBe ((b.drop (pos + 4)).take 4)))
      header := overwrite (overwrite (b.take pos) previous [octet b pos]) 4 [0, 0]
      offset := flags &&& 0xfff8
      more := flags &&& 1 != 0
      payload := b.drop (pos + 8) })

/-- The loop over the headers of an IPv6 packet. Reference: the loop of `parse`
(`ip_reassembly.rs:183`). -/
def parseHeaders (b : Bytes) (e : Envelope) : Nat → Nat → Nat → Except IoError (Option Fragment)
  | 0, _, _ => .error invalid
  | turns + 1, pos, previous =>
    let next := octet b previous
    if next = 44 then fragmentAt b e pos previous
    else if next ∈ [0, 43, 60] then
      if pos + 2 > b.length then .error invalid
      else
        let n := ((octet b (pos + 1)).toNat + 1) * 8
        if pos + n > b.length then .error invalid else parseHeaders b e turns (pos + n) pos
    else if next = 51 then
      if pos + 2 > b.length then .error invalid
      else
        let n := ((octet b (pos + 1)).toNat + 2) * 4
        if pos + n > b.length then .error invalid else parseHeaders b e turns (pos + n) pos
    else .ok none

/-- The fragment that an IPv4 packet is. Reference: the first case of `parse`
(`ip_reassembly.rs:154`). -/
def parse4 (b : Bytes) : Except IoError (Option Fragment) := do
  let p ← Packet.parse b
  if p.bytes.length ≠ b.length then .error invalid
  else if !p.moreFragments ∧ p.fragmentOffset = 0 then .ok none
  else .ok (some {
    key := (0, .v4 p.source, .v4 p.destination, p.protocol, UInt32.ofNat p.id)
    header := overwrite (overwrite (overwrite (b.take p.headerLen) 2 [0, 0]) 6 [0, 0]) 10 [0, 0]
    offset := p.fragmentOffset
    more := p.moreFragments
    payload := p.payload })

/-- The fragment that an IPv6 packet carries. Reference: the second case of `parse`
(`ip_reassembly.rs:177`). -/
def parse6 (b : Bytes) : Except IoError (Option Fragment) :=
  match envelope .rawIpv6 b with
  | .error _ => .error invalid
  | .ok e => if e.packet.length ≠ b.length then .error invalid else parseHeaders b e 16 40 6

/-- The version in the first octet. -/
def version (b : Bytes) : Option UInt8 := b.head?.map fun v : UInt8 => v >>> 4

/-- Reference: `parse` (`ip_reassembly.rs:152`). -/
def parse (b : Bytes) : Except IoError (Option Fragment) :=
  if version b = some 4 then parse4 b
  else if version b = some 6 then parse6 b
  else .error invalid

/-! ## Putting fragments together -/

/-- Whether a header is of IPv6. -/
def isV6 (header : Bytes) : Bool := octet header 0 >>> 4 == 6

/-- What a header adds to the length field of its packet. -/
def overhead (header : Bytes) : Nat :=
  if isV6 header then header.length - 40 else header.length

/-- Reference: `complete` (`ip_reassembly.rs:139`). -/
def complete (header data : Bytes) : Except IoError Bytes :=
  if isV6 header then
    let len := header.length - 40 + data.length
    if len > 65535 then .error invalid
    else .ok (overwrite header 4 (toBe 2 len) ++ data)
  else
    let len := header.length + data.length
    if len > 65535 then .error invalid
    else
      let header := overwrite header 2 (toBe 2 len)
      .ok (overwrite header 10 (toBe 2 (checksum header)) ++ data)

/-- The loop that looks for a gap: where the parts end, if they follow one another from `next` on.
Reference: `ip_reassembly.rs:117`. -/
def runLength : List (Nat × Bytes) → Nat → Option Nat
  | [], next => some next
  | (pos, b) :: parts, next => if pos ≠ next then none else runLength parts (next + b.length)

/-- Whether a fragment disagrees with the context of its key. Reference: `ip_reassembly.rs:84`. -/
def Context.conflicts (c : Context) (f : Fragment) (stop : Nat) : Bool :=
  c.header != f.header ||
    (c.parts.entries.any fun e => f.offset < e.1 + e.2.length && e.1 < stop) ||
    (c.stop.any fun e => stop > e || (!f.more && stop != e)) ||
    (!f.more && c.parts.entries.any fun e => e.1 + e.2.length > stop)

/-- The context with one fragment more. Reference: `ip_reassembly.rs:112`. -/
def Context.add (c : Context) (f : Fragment) (stop : Nat) : Context :=
  { c with
    stop := if !f.more then some stop else c.stop
    parts := c.parts.insert f.offset f.payload }

namespace Reassembler

/-- Reference: `Reassembler::default` (`ip_reassembly.rs:27`). -/
def default : Reassembler := ⟨.empty⟩

/-- Reference: `Reassembler::retained_bytes` (`ip_reassembly.rs:42`). -/
def retainedBytes (r : Reassembler) : Nat := (r.contexts.values.map Context.bytes).sum

/-- Reference: `Reassembler::expire` (`ip_reassembly.rs:48`). -/
def expire (r : Reassembler) (now : Nat) : Reassembler :=
  ⟨r.contexts.retain fun _ c => now < c.deadline⟩

/-- The context that a fragment is added to. -/
def entry (r : Reassembler) (key : Key) (f : Fragment) (now : Nat) : Context :=
  (r.contexts.get key).getD ⟨f.header, .empty, none, satAdd now 60000⟩

/-- What a fragment is charged. Reference: `ip_reassembly.rs:99`. -/
def charge (r : Reassembler) (key : Key) (f : Fragment) : Nat :=
  f.payload.length + 128 + if !r.contexts.contains key then 128 + f.header.length else 0

/-- The last part of `input_scoped`: a fragment that agrees with its context is kept, and a context
that is complete is delivered. Reference: `ip_reassembly.rs:96`. -/
def store (r : Reassembler) (key : Key) (f : Fragment) (stop now : Nat) :
    Except IoError (Option Datagram) × Reassembler :=
  if (!r.contexts.contains key ∧ r.contexts.size ≥ 64) ∨ r.retainedBytes + r.charge key f > cap then
    (.error capacity, r)
  else
    let c := (r.entry key f now).add f stop
    let kept : Reassembler := ⟨r.contexts.insert key c⟩
    match runLength c.parts.entries 0 with
    | none => (.ok none, kept)
    | some next =>
      if c.stop ≠ some next then (.ok none, kept)
      else ((complete c.header c.parts.values.flatten).map
        fun packet => some ⟨packet, some key.2.2.2.2⟩, ⟨kept.contexts.remove key⟩)

/-- Reference: `Reassembler::input_scoped` (`ip_reassembly.rs:54`). -/
def inputScoped (r : Reassembler) (b : Bytes) (now : Nat) (scope : UInt8) :
    Except IoError (Option Datagram) × Reassembler :=
  let r := r.expire now
  match parse b with
  | .error e => (.error e, r)
  | .ok none => (.ok (some ⟨b, none⟩), r)
  | .ok (some f) =>
    let key : Key := (scope, f.key.2)
    if f.offset = 0 ∧ !f.more then
      ((complete f.header f.payload).map fun packet => some ⟨packet, some key.2.2.2.2⟩, r)
    else
      let stop := f.offset + f.payload.length
      if f.payload = [] ∨ stop + overhead f.header > 65535 ∨
          (f.more ∧ f.payload.length % 8 ≠ 0) then (.error invalid, r)
      else if (r.contexts.get key).any fun c => c.conflicts f stop then
        (.error invalid, ⟨r.contexts.remove key⟩)
      else r.store key f stop now

end Reassembler

/-! ## Cutting a packet -/

/-- The pieces of at most `n` octets of a byte string. Reference: `chunks`. -/
def chunks (n : Nat) (b : Bytes) : List Bytes :=
  if _ : b = [] ∨ n = 0 then []
  else b.take n :: chunks n (b.drop n)
termination_by b.length
decreasing_by
  rename_i h
  have : 0 < b.length := List.length_pos_iff.2 fun hb => h (.inl hb)
  have : n ≠ 0 := fun hn => h (.inr hn)
  simp only [List.length_drop]
  omega

/-- The fragment of an IPv6 packet that carries `data`. Reference: the first branch of the loop of
`fragment` (`ip_reassembly.rs:272`). -/
def fragment6 (b data : Bytes) (offset : Nat) (more : Bool) (id : UInt32) : Bytes :=
  let h := overwrite (b.take 40) 6 [44]
  let h := overwrite h 4 (toBe 2 (data.length + 8))
  h ++ [octet b 6, 0] ++ toBe 2 (offset % 65536 ||| more.toNat) ++ toBe 4 id.toNat ++ data

/-- The fragment of an IPv4 packet that carries `data`. Reference: the second branch of the loop of
`fragment` (`ip_reassembly.rs:278`). -/
def fragment4 (b data : Bytes) (offset : Nat) (more : Bool) (id : UInt32) : Bytes :=
  let h := overwrite (b.take 20) 2 (toBe 2 (data.length + 20))
  let h := overwrite h 4 (toBe 2 id.toNat)
  let h := overwrite h 6 (toBe 2 (offset % 65536 / 8 ||| if more then 0x2000 else 0))
  let h := overwrite h 10 [0, 0]
  overwrite h 10 (toBe 2 (checksum h)) ++ data

/-- The header length and the overhead of the fragments of a packet. Reference: `fragment`
(`ip_reassembly.rs:246`). -/
def fragmentLayout (b : Bytes) (mtu : Nat) : Except IoError (Nat × Nat) :=
  if version b = some 6 then
    match envelope .rawIpv6 b with
    | .error _ => .error invalid
    | .ok e => if e.nextHeader ∉ [6, 17, 58] ∨ mtu < 1280 then .error invalid else .ok (40, 48)
  else if version b = some 4 then do
    let p ← Packet.parse b
    if p.headerLen ≠ 20 ∨ p.moreFragments ∨ p.fragmentOffset ≠ 0 ∨ mtu < 68 then .error invalid
    else .ok (20, 20)
  else .error invalid

/-- Reference: `fragment` (`ip_reassembly.rs:242`). -/
def fragment (b : Bytes) (mtu : Nat) (id : UInt32) : Except IoError (List Bytes) :=
  if b.length ≤ mtu then .ok [b]
  else do
    let (header, overhead) ← fragmentLayout b mtu
    let chunk := (mtu - overhead) / 8 * 8
    if chunk = 0 then .error invalid
    else
      let payload := b.drop header
      .ok ((chunks chunk payload).zipIdx.map fun (data, i) =>
        let offset := i * chunk
        let more := decide (offset + data.length < payload.length)
        if header = 40 then fragment6 b data offset more id else fragment4 b data offset more id)

end SnacMachine.Ip
