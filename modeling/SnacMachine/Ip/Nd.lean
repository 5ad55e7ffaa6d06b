import SnacMachine.Ip.Wire

/-!
# Neighbor discovery messages

`transport` and `decode_nd` of `wire.rs`, and the prefixes that the options of a Router
Advertisement carry. A prefix is masked by its length (`Prefix.new`), which is done on the number
that its address denotes.
-/

namespace SnacMachine

open Ip

/-! ## Prefixes -/

namespace Ipv6Addr

/-- The number that an address denotes. -/
def value (a : Ipv6Addr) : Nat := ofBe a.1

/-- The address of a number. -/
def ofValue (n : Nat) : Ipv6Addr := ⟨toBe 16 n, length_toBe 16 n⟩

/-- An address is a number of 128 bits. -/
theorem value_lt (a : Ipv6Addr) : a.value < 2 ^ 128 := by
  have h := ofBe_lt a.1
  rw [a.2] at h
  exact Nat.lt_of_lt_of_le h (by decide)

/-- The address of a number is that number again, in 128 bits. -/
@[simp] theorem value_ofValue (n : Nat) : (ofValue n).value = n % 2 ^ 128 := by
  have h := ofBe_toBe_mod 16 n
  rw [show 256 ^ 16 = 2 ^ 128 by decide] at h
  exact h

/-- The number of an address gives the address back. -/
@[simp] theorem ofValue_value (a : Ipv6Addr) : ofValue a.value = a :=
  Subtype.ext (toBe_ofBe a.2)

/-- Reference: `link_local` (`wire.rs:55`). -/
def linkLocal (a : Ipv6Addr) : Bool := u16At a.1 0 &&& 0xffc0 == 0xfe80

def isMulticast (a : Ipv6Addr) : Bool := octet a.1 0 == 0xff

def isUnspecified (a : Ipv6Addr) : Bool := a.value == 0

def isLoopback (a : Ipv6Addr) : Bool := a.value == 1

/-- Whether the address is an IPv4-mapped one. Reference: `Ipv6Addr::to_ipv4_mapped`. -/
def isIpv4Mapped (a : Ipv6Addr) : Bool := a.value / 2 ^ 32 == 0xffff

/-- Reference: `solicited_node` (`wire.rs:58`). -/
def solicitedNode (a : Ipv6Addr) : Ipv6Addr :=
  ofValue (0xff0200000000000000000001ff000000 ||| (a.value &&& 0xffffff))

end Ipv6Addr

namespace Prefix

/-- Prefixes are compared by address, then by length. -/
instance : OrdKey Prefix :=
  ⟨OrdKey.Code (Ipv6Addr × UInt8), inferInstance, fun p => OrdKey.code (p.address, p.length)⟩
instance : LawfulOrdKey Prefix := ⟨fun {a b} h => by
  obtain ⟨ha, hl⟩ := Prod.mk.inj (LawfulOrdKey.code_inj (K := Ipv6Addr × UInt8) h)
  cases a
  cases b
  simp_all⟩

/-- Reference: `Prefix::new` (`wire.rs:220`). -/
def new (address : Ipv6Addr) (length : UInt8) : Option Prefix :=
  if length > 128 then none
  else
    let host := 2 ^ (128 - length.toNat)
    some ⟨.ofValue (address.value / host * host), length⟩

/-- Reference: `Prefix::contains` (`wire.rs:234`). -/
def contains (p : Prefix) (address : Ipv6Addr) : Bool := new address p.length == some p

/-- Reference: `Prefix::ula` (`wire.rs:237`). -/
def ula (p : Prefix) : Bool := octet p.address.1 0 &&& 0xfe == 0xfc

/-- Reference: `Prefix::routable` (`wire.rs:240`). -/
def routable (p : Prefix) : Bool :=
  0 < p.length && !p.address.linkLocal && !p.address.isMulticast && !p.address.isUnspecified &&
    !p.address.isLoopback

end Prefix

namespace Ip

/-! ## The transport payload -/

/-- Reference: `checksum` (`wire.rs:61`). -/
def checksum6 (source destination : Ipv6Addr) (next : UInt8) (data : Bytes) : Nat :=
  65535 - foldCarries (wordSum source.1 + wordSum destination.1 + wordSum (toBe 4 data.length) +
    next.toNat + wordSum data)

/-- Reference: `Transport` (`wire.rs:79`). -/
structure Transport where
  protocol : UInt8
  bytes : Bytes
  fragmented : Bool
  nonInitial : Bool

/-- The loop over the headers of a packet. Reference: the loop of `transport` (`wire.rs:89`). -/
def transportLoop : Nat → UInt8 → Bytes → Bool → Except WireError Transport
  | 0, _, _, _ => .error .invalid
  | turns + 1, next, p, fragmented =>
    let step (n : Nat) (fragmented : Bool) : Except WireError Transport :=
      if p.length < n then .error .truncated
      else if next = 44 ∧ u16At p 2 &&& 0xfff8 ≠ 0 then
        .ok ⟨octet p 0, p.drop n, fragmented, true⟩
      else transportLoop turns (octet p 0) (p.drop n) fragmented
    if next ∈ [0, 43, 60] then
      if p.length < 2 then .error .truncated else step (((octet p 1).toNat + 1) * 8) fragmented
    else if next = 44 then step 8 true
    else if next = 51 then
      if p.length < 2 then .error .truncated else step (((octet p 1).toNat + 2) * 4) fragmented
    else .ok ⟨next, p, fragmented, false⟩

/-- Reference: `transport` (`wire.rs:85`). -/
def transport (e : Envelope) : Except WireError Transport :=
  transportLoop 16 e.nextHeader e.payload false

/-- Where an option of the Hop-by-Hop header is told to be wrong, if it is; the loop over the
options from `at_`. Reference: the loop of `hop_options` (`wire.rs:518`). -/
def hopOptionsFrom (e : Envelope) (stop at_ : Nat) : Except WireError (Option Nat) :=
  if at_ < stop then
    let kind := octet e.payload at_
    let length := (octet e.payload (at_ + 1)).toNat
    if kind = 0 then hopOptionsFrom e stop (at_ + 1)
    else if at_ + 2 > stop ∨ at_ + 2 + length > stop then .error .truncated
    else if kind = 1 then
      if ((e.payload.drop (at_ + 2)).take length).any fun b => b != 0 then .error .invalid
      else hopOptionsFrom e stop (at_ + 2 + length)
    else if kind = 5 then
      if length ≠ 2 then .error .invalid else hopOptionsFrom e stop (at_ + 2 + length)
    else if kind >>> 6 = 0 then hopOptionsFrom e stop (at_ + 2 + length)
    else if kind >>> 6 = 1 ∨ (kind >>> 6 = 3 ∧ e.destination.isMulticast) then .error .unsupported
    else .ok (some (40 + at_))
  else .ok none
termination_by stop - at_

/-- Reference: `hop_options` (`wire.rs:506`). -/
def hopOptions (e : Envelope) : Except WireError (Option Nat) :=
  if e.nextHeader ≠ 0 then .ok none
  else if e.payload.length < 2 then .error .truncated
  else
    let stop := ((octet e.payload 1).toNat + 1) * 8
    if stop > e.payload.length then .error .truncated else hopOptionsFrom e stop 2

/-! ## Messages -/

/-- Reference: `NdOption` (`wire.rs:133`). -/
structure NdOption where
  kind : UInt8
  bytes : Bytes

/-- Reference: `Nd` (`wire.rs:138`). -/
structure Nd where
  kind : UInt8
  body : Bytes
  options : List NdOption

/-- The loop over the options of a message. Reference: `wire.rs:174`. -/
def ndOptions (rest : Bytes) : Except WireError (List NdOption) :=
  if rest = [] then .ok []
  else if rest.length < 2 then .error .truncated
  else
    let n := (octet rest 1).toNat * 8
    if n = 0 ∨ n > rest.length then .error .invalid
    else do
      let options ← ndOptions (rest.drop n)
      .ok (⟨octet rest 0, rest.take n⟩ :: options)
termination_by rest.length
decreasing_by
  simp only [List.length_drop]
  omega

/-- The length of a message before its options. Reference: `wire.rs:155`. -/
def ndBase (kind : UInt8) : Option Nat :=
  if kind = 133 then some 8
  else if kind = 134 then some 16
  else if kind = 135 ∨ kind = 136 then some 24
  else none

/-- The last checks of a message about a neighbor. Reference: `wire.rs:194`. -/
def targetOk (e : Envelope) (b : Bytes) : Bool :=
  let target := octetsAt b 8 16
  !(Ipv6Addr.isMulticast target || Ipv6Addr.isUnspecified target) &&
    !(octet b 0 == 135 && e.source.isUnspecified &&
      e.destination != Ipv6Addr.solicitedNode target) &&
    !(octet b 0 == 136 && (e.source.isUnspecified ||
      (e.destination.isMulticast && octet b 4 &&& 0x40 != 0)))

/-- Reference: `decode_nd` (`wire.rs:143`). -/
def decodeNd (e : Envelope) : Except WireError Nd := do
  let t ← transport e
  let b := t.bytes
  if t.protocol ≠ 58 ∨ t.fragmented ∨ e.hopLimit ≠ 255 ∨ b.length < 4 ∨ octet b 1 ≠ 0 ∨
      checksum6 e.source e.destination 58 b ≠ 0 then .error .invalid
  else
    match ndBase (octet b 0) with
    | none => .error .unsupported
    | some base =>
      if b.length < base then .error .truncated
      else if octet b 0 = 134 ∧ !e.source.linkLocal then .error .invalid
      else if e.source.isMulticast then .error .invalid
      else do
        let options ← ndOptions (b.drop base)
        if (octet b 0 = 133 ∨ octet b 0 = 135) ∧ e.source.isUnspecified ∧
            options.any fun o => o.kind == 1 then .error .invalid
        else if octet b 0 ≥ 135 ∧ !targetOk e b then .error .invalid
        else .ok ⟨octet b 0, b, options⟩

/-! ## Options of a Router Advertisement -/

/-- Reference: `Preference` (`wire.rs:292`). -/
inductive Preference
  | low | medium | high
  deriving DecidableEq

/-- Reference: `Rio` (`wire.rs:315`). -/
structure Rio where
  prefix_ : Prefix
  preference : Preference
  lifetime : Nat
  deriving DecidableEq

/-- Reference: `Pref64` (`wire.rs:355`). -/
structure Pref64 where
  prefix_ : Prefix
  lifetime : Nat
  deriving DecidableEq

/-- Reference: `Pref64::decode` (`wire.rs:377`). -/
def Pref64.decode (b : Bytes) : Option Pref64 :=
  if b.length ≠ 16 ∨ octet b 0 ≠ 38 ∨ octet b 1 ≠ 2 then none
  else do
    let word := u16At b 2
    let length ← [96, 64, 56, 48, 40, 32][word &&& 7]?
    let prefix_ ← Prefix.new ⟨(b.drop 4).take 12 ++
      List.replicate (16 - ((b.drop 4).take 12).length) 0, by simp⟩ length
    some ⟨prefix_, word &&& 0xfff8⟩

end Ip

end SnacMachine
