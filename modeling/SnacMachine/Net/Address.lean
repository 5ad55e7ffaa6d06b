import SnacMachine.Lib.Bytes

/-!
# Addresses

The addresses, prefixes and input-output errors that the packet code shares. Addresses are their
octets, most significant first, so that their order is that of the source's ordered maps.
-/

namespace SnacMachine

/-- An IPv4 address. -/
abbrev Ipv4Addr := Octets 4

/-- The address of four octets. -/
def Ipv4Addr.new (a b c d : UInt8) : Ipv4Addr := ⟨[a, b, c, d], rfl⟩

/-- An IPv6 address. -/
abbrev Ipv6Addr := Octets 16

/-- The all-zero IPv6 address. -/
def Ipv6Addr.unspecified : Ipv6Addr := ⟨List.replicate 16 0, rfl⟩

/-- The IPv6 address of the host itself. -/
def Ipv6Addr.localhost : Ipv6Addr := ⟨List.replicate 15 0 ++ [1], rfl⟩

/-- An IPv4 address and a port. -/
structure SocketAddrV4 where
  ip : Ipv4Addr
  port : UInt16
  deriving DecidableEq

/-- Socket addresses are compared by address, then by port. -/
instance : OrdKey SocketAddrV4 :=
  ⟨OrdKey.Code (Ipv4Addr × UInt16), inferInstance, fun a => OrdKey.code (a.ip, a.port)⟩
instance : LawfulOrdKey SocketAddrV4 := ⟨fun {a b} h => by
  obtain ⟨hi, hp⟩ := Prod.mk.inj (LawfulOrdKey.code_inj (K := Ipv4Addr × UInt16) h)
  cases a
  cases b
  simp_all⟩

/-- An address of either kind. -/
inductive IpAddr
  | v4 (address : Ipv4Addr)
  | v6 (address : Ipv6Addr)
  deriving DecidableEq

namespace IpAddr

/-- Its octets, after the kind. -/
def octets : IpAddr → Nat × Bytes
  | .v4 a => (0, a.1)
  | .v6 a => (1, a.1)

/-- Addresses with the same octets, of the same version, are equal. -/
theorem octets_inj : ∀ {a b : IpAddr}, a.octets = b.octets → a = b
  | .v4 _, .v4 _, h => congrArg IpAddr.v4 (Subtype.ext (Prod.mk.inj h).2)
  | .v6 _, .v6 _, h => congrArg IpAddr.v6 (Subtype.ext (Prod.mk.inj h).2)
  | .v4 _, .v6 _, h => absurd (Prod.mk.inj h).1 (by decide)
  | .v6 _, .v4 _, h => absurd (Prod.mk.inj h).1 (by decide)

/-- IPv4 addresses come before IPv6 addresses. -/
instance : OrdKey IpAddr :=
  ⟨OrdKey.Code (Nat × Bytes), inferInstance, fun a => OrdKey.code a.octets⟩
instance : LawfulOrdKey IpAddr :=
  ⟨fun h => octets_inj (LawfulOrdKey.code_inj (K := Nat × Bytes) h)⟩

def isUnspecified (a : IpAddr) : Bool := a.octets.2.all fun x => x == 0

def isMulticast (a : IpAddr) : Bool :=
  match a with
  | .v4 a => a.1.head?.any fun x => x &&& 0xf0 == 0xe0
  | .v6 a => a.1.head? == some 0xff

end IpAddr

/-- An address and a port; an IPv4 address has no flow and no scope. -/
structure SocketAddr where
  ip : IpAddr
  port : UInt16
  flow : UInt32
  scope : UInt32
  deriving DecidableEq

/-- Reference: `Prefix` (`wire.rs:215`). -/
structure Prefix where
  address : Ipv6Addr
  length : UInt8
  deriving DecidableEq

/-- The kinds of input-output errors that the program returns. -/
inductive ErrorKind
  | wouldBlock | interrupted | writeZero | invalidInput | invalidData | other
  deriving DecidableEq

/-- An input-output error: its kind and its text. -/
structure IoError where
  kind : ErrorKind
  text : String
  deriving DecidableEq

/-- A random source, from some point on: what it returns at the n-th call that asks for a number up
to a maximum. Reference: `RandomSource` (`time.rs:37`). -/
abbrev Random := Nat → Nat → Except IoError Nat

/-- The n-th sample up to a maximum. Reference: `RandomSource::sample` (`time.rs:39`). -/
def Random.sample (rng : Random) (n max : Nat) : Except IoError Nat :=
  (rng n max).map fun x => x % (max + 1)

end SnacMachine
