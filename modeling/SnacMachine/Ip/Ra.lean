import SnacMachine.Ip.Nd
import SnacMachine.Nat64.Selection

/-!
# Router Advertisements

The options of a Router Advertisement and its encoding (`wire.rs:251` on).
-/

namespace SnacMachine.Ip

open Nat64 (Link)

/-- Reference: `u32_at` (`wire.rs:248`). -/
def u32At (b : Bytes) (n : Nat) : Nat := ofBe ((b.drop n).take 4)

/-- The address of up to 16 octets, with zeros after them. -/
def paddedAddress (b : Bytes) : Ipv6Addr :=
  ⟨b.take 16 ++ List.replicate (16 - (b.take 16).length) 0, by simp⟩

/-! ## Options -/

/-- Reference: `Pio` (`wire.rs:252`). -/
structure Pio where
  prefix_ : Prefix
  flags : UInt8
  preferred : Nat
  valid : Nat
  deriving DecidableEq

namespace Pio

/-- Reference: `Pio::decode` (`wire.rs:259`). -/
def decode (b : Bytes) : Option Pio :=
  if b.length ≠ 32 ∨ octet b 0 ≠ 3 ∨ octet b 1 ≠ 4 then none
  else (Prefix.new (octetsAt b 16 16) (octet b 2)).map fun p =>
    ⟨p, octet b 3, u32At b 8, u32At b 4⟩

/-- Reference: `Pio::on_link` (`wire.rs:270`). -/
def onLink (p : Pio) : Bool := p.flags &&& 0x80 != 0

/-- Reference: `Pio::suitable` (`wire.rs:273`). -/
def suitable (p : Pio) : Bool :=
  p.prefix_.length == 64 && p.prefix_.routable && p.onLink && p.flags &&& 0x50 != 0 &&
    1800 ≤ p.preferred && p.preferred ≤ p.valid

/-- Reference: `Pio::encode` (`wire.rs:281`). -/
def encode (p : Pio) : Bytes :=
  [3, 4, p.prefix_.length, p.flags] ++ toBe 4 p.valid ++ toBe 4 p.preferred ++ [0, 0, 0, 0] ++
    p.prefix_.address.1

end Pio

namespace Preference

/-- Reference: `Preference::decode` (`wire.rs:298`). -/
def decode (flags : UInt8) : Option Preference :=
  if flags &&& 0x18 = 0 then some .medium
  else if flags &&& 0x18 = 8 then some .high
  else if flags &&& 0x18 = 24 then some .low
  else none

/-- Reference: `Preference::bits` (`wire.rs:306`). -/
def bits : Preference → UInt8
  | .low => 24
  | .medium => 0
  | .high => 8

end Preference

namespace Rio

/-- Reference: `Rio::decode` (`wire.rs:321`). -/
def decode (b : Bytes) : Option Rio :=
  if b.length < 8 ∨ octet b 0 ≠ 24 ∨ octet b 1 < 1 ∨ octet b 1 > 3 ∨
      b.length ≠ (octet b 1).toNat * 8 ∨ octet b 2 > 128 ∨ (octet b 2 > 0 ∧ octet b 1 < 2) ∨
      (octet b 2 > 64 ∧ octet b 1 < 3) then none
  else do
    let p ← Prefix.new (paddedAddress (b.drop 8)) (octet b 2)
    let preference ← Preference.decode (octet b 3)
    some ⟨p, preference, u32At b 4⟩

/-- The number of eight-octet units of an option. Reference: `wire.rs:341`. -/
def units (length : UInt8) : Nat :=
  if length = 0 then 1 else if length ≤ 64 then 2 else 3

/-- Reference: `Rio::encode` (`wire.rs:340`). -/
def encode (r : Rio) : Bytes :=
  let n := units r.prefix_.length
  [24, UInt8.ofNat n, r.prefix_.length, r.preference.bits] ++ toBe 4 r.lifetime ++
    r.prefix_.address.1.take ((n - 1) * 8)

end Rio

/-- Reference: `Pref64::encode` (`wire.rs:362`). -/
def Pref64.encode (p : Pref64) : Except WireError Bytes :=
  match ([96, 64, 56, 48, 40, 32] : List UInt8).findIdx? (· == p.prefix_.length) with
  | none => .error .invalid
  | some plc =>
    if Prefix.new p.prefix_.address p.prefix_.length ≠ some p.prefix_ then .error .invalid
    else
      let scaled := (min p.lifetime 65528 + 7) / 8 * 8
      .ok ([38, 2] ++ toBe 2 (scaled ||| plc) ++ p.prefix_.address.1.take 12)

/-! ## Packets -/

/-- Reference: `ipv6_packet` (`wire.rs:393`). -/
def ipv6Packet (source destination : Ipv6Addr) (next hop : UInt8) (payload : Bytes) :
    Except WireError Bytes :=
  if payload.length > 65535 then .error .capacity
  else .ok ([0x60, 0, 0, 0] ++ toBe 2 payload.length ++ [next, hop] ++ source.1 ++ destination.1 ++
    payload)

/-- Reference: `icmp_packet` (`wire.rs:411`). -/
def icmpPacket (source destination : Ipv6Addr) (hop : UInt8) (body : Bytes) :
    Except WireError Bytes :=
  if body.length < 4 then .error .invalid
  else
    let body := body.take 2 ++ [0, 0] ++ body.drop 4
    let c := checksum6 source destination 58 body
    ipv6Packet source destination 58 hop (body.take 2 ++ toBe 2 c ++ body.drop 4)

/-- Reference: `Advertisement` (`wire.rs:426`). -/
structure Advertisement where
  link : Link
  source : Ipv6Addr
  destination : Ipv6Addr
  mac : Option (Octets 6)
  mtu : Nat
  mo : UInt8
  defaultLifetime : Nat
  pios : List Pio
  rios : List Rio

namespace Advertisement

/-- Prefixes in order. -/
def prefixLe (a b : Prefix) : Bool := OrdKey.code a ≤ OrdKey.code b

/-- A list without the elements that have the key of the one before them. Reference:
`dedup_by_key`. -/
def dedupBy {α K : Type} [DecidableEq K] (f : α → K) : List α → List α
  | [] => []
  | a :: l => a :: dedupAfter a l
where
  /-- The rest of the list, after an element that is kept. -/
  dedupAfter (a : α) : List α → List α
    | [] => []
    | b :: l => if f b = f a then dedupAfter a l else b :: dedupAfter b l

/-- The part of the message before its options. Reference: `wire.rs:455`. -/
def header (ad : Advertisement) : Bytes :=
  [134, 0, 0, 0, 0, if ad.link = .ail then 2 ||| (ad.mo &&& 0xc0) else 0] ++
    toBe 2 (if ad.link = .ail then 0 else min ad.defaultLifetime 1800) ++ List.replicate 8 0

/-- The option of one resolver. Reference: `wire.rs:486`. -/
def resolverOption (r : Ipv6Addr × Nat) : Except WireError Bytes :=
  if r.1.isUnspecified || r.1.isMulticast || r.1.isLoopback then .error .invalid
  else .ok ([25, 3, 0, 0] ++ toBe 4 r.2 ++ r.1.1)

/-- The options that the advertisement always carries. Reference: `wire.rs:466`. -/
def ownOptions (ad : Advertisement) : List Bytes :=
  (match ad.mac with | some mac => [[1, 1] ++ mac.1] | none => []) ++
    (if ad.link = .ail then [] else [[5, 1, 0, 0] ++ toBe 4 ad.mtu]) ++
    ((ad.pios.mergeSort fun a b => prefixLe a.prefix_ b.prefix_).map Pio.encode) ++
    ((dedupBy Rio.prefix_ (ad.rios.mergeSort fun a b => prefixLe a.prefix_ b.prefix_)).map
     Rio.encode)

/-- Reference: `Advertisement::encode_services` (`wire.rs:441`). -/
def encodeServices (ad : Advertisement) (resolvers : List (Ipv6Addr × Nat)) (pref64 : List Pref64) :
    Except WireError Bytes :=
  if resolvers.length > 2 ∨ pref64.length > 8 then .error .capacity
  else if ad.link = .ail ∧ (resolvers ≠ [] ∨ pref64 ≠ []) then .error .invalid
  else if ad.mtu < 1280 ∨ !ad.source.linkLocal then .error .invalid
  else do
    let dns ← resolvers.mapM resolverOption
    let nat ← pref64.mapM Pref64.encode
    let b := ad.header ++ ad.ownOptions.flatten ++ dns.flatten ++ nat.flatten
    if b.length + 40 > 1280 then .error .capacity
    else icmpPacket ad.source ad.destination 255 b

/-- Reference: `Advertisement::encode` (`wire.rs:438`). -/
def encode (ad : Advertisement) : Except WireError Bytes := ad.encodeServices [] []

end Advertisement

end SnacMachine.Ip
