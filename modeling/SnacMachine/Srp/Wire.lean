import SnacMachine.Dns.Wire
import SnacMachine.Lib.Word

/-!
# SRP updates and their authentication

The embedding of `srp/wire.rs`: `Validator.verify` turns the octets of a DNS UPDATE into an
`Update`, after the structural checks of RFC 9665 and one signature verification. The cryptographic
functions of third-party packages are the fields of `Crypto`.
-/

namespace SnacMachine.Srp

open Dns

/-- The cryptographic functions that the program takes from third-party packages. -/
structure Crypto where
  /-- Whether a public key is a point of its curve. Reference: `Key::valid_public`
  (`srp/wire.rs:76`). -/
  validPublic : UInt8 → Bytes → Bool
  /-- Whether a signature over a message verifies under an algorithm and a public key. Reference:
  `Key::verify` (`srp/wire.rs:105`). -/
  verify : UInt8 → Bytes → Bytes → Bytes → Bool
  /-- SHA-256. Reference: `fingerprint` (`srp/wire.rs:456`). -/
  fingerprint : Bytes → Octets 32
  /-- SHA-1. Reference: `Sha1::digest` (`srp/registry/journal.rs:70`). -/
  sha1 : Bytes → Octets 20

/-- The response codes of a refused update. Reference: `Error` (`srp/wire.rs:7`). -/
inductive Error
  | format | servFail | refused | yxDomain | notAuth | notZone
  deriving DecidableEq

/-- Reference: `Key` (`srp/wire.rs:16`). -/
structure Key where
  flags : UInt16
  protocol : UInt8
  algorithm : UInt8
  bytes : Bytes
  deriving DecidableEq

namespace Key

/-- Reference: `Key::same_public_key` (`srp/wire.rs:23`). -/
def samePublicKey (a b : Key) : Bool := a.algorithm == b.algorithm && a.bytes == b.bytes

/-- Reference: `Key::rdata` (`srp/wire.rs:26`). -/
def rdata (k : Key) : Rdata := .key k.flags k.protocol k.algorithm k.bytes

/-- The sum of the octets, those at even places shifted by eight. -/
def tagSum : Bytes → Nat
  | [] => 0
  | [x] => x.toNat * 256
  | x :: y :: rest => x.toNat * 256 + y.toNat + tagSum rest

/-- Reference: `Key::tag` (`srp/wire.rs:34`). -/
def tag (k : Key) : UInt16 :=
  let sum := tagSum (toBe 2 k.flags.toNat ++ [k.protocol, k.algorithm] ++ k.bytes)
  UInt16.ofNat (sum + sum / 65536)

/-- The public key length of an algorithm. Reference: `srp/wire.rs:55`. -/
def length? (algorithm : UInt8) : Option Nat :=
  if algorithm = 13 then some 64
  else if algorithm = 14 then some 96
  else if algorithm = 15 then some 32
  else if algorithm = 16 then some 57
  else none

/-- Reference: `Key::from_record` (`srp/wire.rs:45`). -/
def fromRecord (r : Record) : Except Error Key :=
  match r.data with
  | .key flags protocol algorithm key =>
    match length? algorithm with
    | none => .error .refused
    | some len =>
      if protocol ≠ 3 ∨ key.length ≠ len then .error .refused
      else .ok ⟨flags, protocol, algorithm, key⟩
  | _ => .error .refused

/-- Keys are the same if algorithm and octets are. -/
theorem samePublicKey_iff {a b : Key} :
    a.samePublicKey b = true ↔ a.algorithm = b.algorithm ∧ a.bytes = b.bytes := by
  simp [samePublicKey]

/-- A key is the same as itself. -/
@[simp] theorem samePublicKey_self (a : Key) : a.samePublicKey a = true := by simp [samePublicKey]

/-- Being the same key is symmetric. -/
theorem samePublicKey_symm {a b : Key} (h : a.samePublicKey b = true) :
    b.samePublicKey a = true := by
  rw [samePublicKey_iff] at *; exact ⟨h.1.symm, h.2.symm⟩

/-- Being the same key is transitive. -/
theorem samePublicKey_trans {a b c : Key} (h : a.samePublicKey b = true)
    (h' : b.samePublicKey c = true) : a.samePublicKey c = true := by
  rw [samePublicKey_iff] at *; exact ⟨h.1.trans h'.1, h.2.trans h'.2⟩

end Key

/-- Reference: `ServiceUpdate` (`srp/wire.rs:151`). -/
structure ServiceUpdate where
  name : Name
  records : List Record
  discovery : List Record
  deleted : Bool

/-- Reference: `Update` (`srp/wire.rs:158`). -/
structure Update where
  digest : Octets 32
  id : UInt16
  zone : Name
  host : Name
  key : Key
  addresses : List Record
  services : List ServiceUpdate
  lease : UInt32
  keyLease : UInt32
  extendedLease : Bool

/-- The registration zone that every validator serves. Reference: `srp/wire.rs:225`. -/
def defaultZone : Name := ⟨[ascii "default", ascii "service", ascii "arpa"], by decide⟩

/-- Reference: `within` (`srp/wire.rs:423`). -/
def within (name zone : Name) : Bool :=
  decide (zone.labels.length ≤ name.labels.length) &&
    (name.labels.reverse.zip zone.labels.reverse).all fun p =>
      p.1.map lowercase == p.2.map lowercase

/-- Reference: `discovery_owner` (`srp/wire.rs:432`). -/
def discoveryOwner (owner target zone : Name) : Bool :=
  if !within target zone || target.labels.length != zone.labels.length + 3 then false
  else match Name.fromLabels (target.labels.drop 1) with
    | none => false
    | some base =>
      if owner == base then true
      else owner.labels.length == base.labels.length + 2 &&
        (owner.labels.getD 1 []).map lowercase == ascii "_sub" &&
        (Name.fromLabels (owner.labels.drop 2)).any fun n => n == base

/-- The additions of one owner's instructions, after the leading deletion. Reference:
`instructions` (`srp/wire.rs:408`). -/
def instructions (rrs : List Record) : Except Error (List Record) :=
  match rrs with
  | [] => .error .refused
  | first :: rest =>
    if first.kind ≠ 255 ∨ first.cls ≠ 255 ∨ first.ttl ≠ 0 ∨ (first.data == .empty) = false then
      .error .refused
    else if rest.all (fun r => r.cls == 1 && [1, 16, 25, 28, 33].contains r.kind) then .ok rest
    else .error .refused

/-- The authority section, sorted into instructions by owner and PTR records. -/
structure Sorted where
  groups : OrdMap Name (List Record)
  discovery : List Record
  ttls : OrdMap (Name × UInt16) UInt32

/-- One record of the authority section. Reference: `srp/wire.rs:285`. -/
def sortRecord (zone : Name) (s : Sorted) (r : Record) : Except Error Sorted := do
  if r.cls = 1 ∧ (s.ttls.get (r.name, r.kind)).any (fun old => old != r.ttl) = true then
    throw .refused
  let ttls := if r.cls = 1 then s.ttls.insert (r.name, r.kind) r.ttl else s.ttls
  if within r.name zone = false then throw .notZone
  if r.kind = 12 then
    if (r.cls ≠ 1 ∧ r.cls ≠ 254) ∨ (r.cls = 254 ∧ r.ttl ≠ 0) then throw .refused
    return { s with discovery := s.discovery ++ [r], ttls }
  else
    if s.groups.contains r.name = false ∧ s.groups.size ≥ 9 then throw .servFail
    return { s with groups := s.groups.insert r.name ((s.groups.get r.name).getD [] ++ [r]), ttls }

/-- The counts and kept records of one service's additions. -/
structure ServiceAdds where
  records : List Record
  srv : Nat
  txt : Nat
  keys : Nat

/-- One addition of a service's instructions. Reference: `srp/wire.rs:338`. -/
def serviceAdd (host : Name) (key : Key) (a : ServiceAdds) (r : Record) :
    Except Error ServiceAdds :=
  match r.data with
  | .key .. =>
    if r.kind = 25 then do
      if a.keys + 1 > 1 then throw .refused
      let k ← Key.fromRecord r
      if k ≠ key then throw .refused
      return { a with keys := a.keys + 1 }
    else .error .refused
  | .srv _ _ _ target =>
    if r.kind = 33 then
      if target == host then .ok { a with srv := a.srv + 1, records := a.records ++ [r] }
      else .error .refused
    else .error .refused
  | .txt _ =>
    if r.kind = 16 then .ok { a with txt := a.txt + 1, records := a.records ++ [r] }
    else .error .refused
  | _ => .error .refused

/-- One service's instructions. Reference: `srp/wire.rs:332`. -/
def serviceUpdate (host : Name) (key : Key) (lease : UInt32) (group : Name × List Record) :
    Except Error ServiceUpdate := do
  let adds ← instructions group.2
  let a ← adds.foldlM (serviceAdd host key) ⟨[], 0, 0, 0⟩
  if a.srv > 1 ∨ (a.srv = 0 ∧ a.txt ≠ 0) ∨ (a.srv = 1 ∧ a.txt = 0) ∨ (lease = 0 ∧ a.srv ≠ 0) then
    throw .refused
  return ⟨group.1, a.records, [], a.srv == 0⟩

/-- Adds a PTR record to the first service with a name. -/
def pushDiscovery (target : Name) (r : Record) : List ServiceUpdate → List ServiceUpdate
  | [] => []
  | s :: ss =>
    if s.name == target then { s with discovery := s.discovery ++ [r] } :: ss
    else s :: pushDiscovery target r ss

/-- The PTR records, in message order. Reference: `srp/wire.rs:372`. -/
def discoveryAdds (zone : Name) :
    List Record → List ServiceUpdate → Except Error (List ServiceUpdate)
  | [], services => .ok services
  | r :: rest, services =>
    match r.data with
    | .name target =>
      match services.find? fun s => s.name == target with
      | none => .error .refused
      | some s =>
        let replacement := rest.any fun next =>
          next.cls == 1 && next.name == r.name && next.data == r.data
        if (r.cls = 1 ∧ s.deleted = true) ∨
            (r.cls = 254 ∧ s.deleted = false ∧ replacement = false) ∨
            discoveryOwner r.name target zone = false then .error .refused
        else discoveryAdds zone rest
          (if r.cls = 1 then pushDiscovery target r services else services)
    | _ => .error .refused

/-- The addresses of the host's additions. Reference: `srp/wire.rs:319`. -/
def hostAddresses (lease : UInt32) : List Record → Except Error (List Record)
  | [] => .ok []
  | r :: rest =>
    if r.kind = 25 then hostAddresses lease rest
    else if (r.kind ≠ 1 ∧ r.kind ≠ 28) ∨ lease = 0 then .error .refused
    else do
      let rs ← hostAddresses lease rest
      return r :: rs

/-- Reference: `Validator` (`srp/wire.rs:183`). -/
structure Validator where
  zones : List Name

/-- Reference: `Validator::new` (`srp/wire.rs:187`). -/
def Validator.new (zones : List Name) : Except Error Validator :=
  if zones.length > 8 ∨ zones.any (fun n => n.labels.isEmpty) = true then .error .refused
  else .ok ⟨zones⟩

/-- The lease option of an update: the option data, the lease and the key lease. Reference:
`srp/wire.rs:232`. -/
def leaseOption (opt : Record) : Except Error (Bytes × UInt32 × UInt32) :=
  if opt.kind ≠ 41 ∨ opt.name.labels ≠ [] ∨ opt.ttl ≠ 0 then .error .refused
  else match opt.data with
    | .opt options =>
      match options.filter fun o => o.1 == 2 with
      | [(_, data)] =>
        if data.length ≠ 4 ∧ data.length ≠ 8 then .error .refused
        else
          let lease := UInt32.ofNat (ofBe (data.take 4))
          let keyLease := if data.length = 8 then UInt32.ofNat (ofBe (data.drop 4)) else lease
          if keyLease < lease then .error .refused else .ok (data, lease, keyLease)
      | _ => .error .refused
    | _ => .error .refused

/-- The octets that the signature covers. Reference: `srp/wire.rs:383`. -/
def signedData (bytes : Bytes) (span : RecordSpan) (host : Name) (additional : Nat) : Bytes :=
  let head := (bytes.drop span.rdataStart).take 18 ++ host.canonical
  overwrite (head ++ bytes.take span.wireStart) (head.length + 10) (toBe 2 (additional - 1))

/-- Whether the signature's validity bracket admits the current time, in serial arithmetic.
Reference: `srp/wire.rs:366`. -/
def inBracket (inception expiration : UInt32) (now : Nat) : Bool :=
  (inception == 0 && expiration == 0) ||
    !(decide (expiration - inception ≥ 2147483648) ||
      decide (UInt32.ofNat now - inception > expiration - inception))

/-- The key of an update: its own KEY record, or, in a removal, the registered one. Reference:
`srp/wire.rs:306`. -/
def updateKey (lease : UInt32) (host : Name) (keys : List Record) (lookup : Name → Option Key) :
    Except Error Key :=
  match keys with
  | k :: _ => if keys.length > 1 then .error .refused else Key.fromRecord k
  | [] =>
    if lease = 0 then
      match lookup host with
      | some k => .ok k
      | none => .error .refused
    else .error .refused

/-- The checks of `Validator::verify` before the signature is verified: the update, the octets that
are signed and the signature. Reference: `srp/wire.rs:202`. -/
def Validator.checked (c : Crypto) (v : Validator) (bytes : Bytes) (now : Nat)
    (lookup : Name → Option Key) : Except Error (Update × Bytes × Bytes) := do
  if bytes.length ≥ 10 ∧ ofBe ((bytes.drop 8).take 2) > 256 then throw .servFail
  let m ← match Message.parse bytes .unicast with
    | some m => pure m
    | none => throw .format
  let zone ← match m.questions with
    | [q] => if m.flags ≠ 0x2800 ∨ q.kind ≠ 6 ∨ q.cls ≠ 1 then throw .format else pure q.name
    | _ => throw .format
  if v.zones.any (fun z => z == zone) = false ∧ (zone == defaultZone) = false then throw .notAuth
  if m.answers ≠ [] ∨ m.authority = [] then throw .refused
  let (opt, sig) ← match m.additional with
    | [opt, sig] => pure (opt, sig)
    | _ => throw .refused
  let (data, lease, keyLease) ← leaseOption opt
  match sig.data with
  | .sig covered algorithm labels _ expiration inception keyTag host signature =>
    if covered ≠ 0 ∨ labels ≠ 0 ∨ sig.kind ≠ 24 ∨ within host zone = false ∨ (host == zone) = true
      then throw .refused
    let sorted ← m.authority.foldlM (sortRecord zone) ⟨.empty, [], .empty⟩
    let hostRrs ← match sorted.groups.get host with
      | some rrs => pure rrs
      | none => throw .refused
    let hostAdds ← instructions hostRrs
    let key ← updateKey lease host (hostAdds.filter fun r => r.kind == 25) lookup
    let addresses ← hostAddresses lease hostAdds
    if lease ≠ 0 ∧ addresses = [] then throw .refused
    let services ← (sorted.groups.remove host).entries.mapM (serviceUpdate host key lease)
    let services ← discoveryAdds zone sorted.discovery services
    if (host :: services.map (·.name)).any
        (fun n => (lookup n).any fun old => !old.samePublicKey key) = true then throw .yxDomain
    if algorithm ≠ key.algorithm ∨ keyTag ≠ key.tag then throw .refused
    if inBracket inception expiration now = false then throw .refused
    let span ← match m.spans.getLast? with
      | some span => pure span
      | none => throw .refused
    return (⟨c.fingerprint bytes, m.id, zone, host, key, addresses, services, lease, keyLease,
      data.length == 8⟩, signedData bytes span host m.additional.length, signature)
  | _ => throw .refused

/-- Reference: `Validator::verify` (`srp/wire.rs:195`). The second component is what is left of the
crypto budget. -/
def Validator.verify (c : Crypto) (v : Validator) (bytes : Bytes) (now : Nat) (budget : Nat)
    (lookup : Name → Option Key) : Except Error Update × Nat :=
  match v.checked c bytes now lookup with
  | .error e => (.error e, budget)
  | .ok (u, signed, signature) =>
    if budget = 0 then (.error .servFail, budget)
    else if c.verify u.key.algorithm u.key.bytes signed signature then (.ok u, budget - 1)
    else (.error .refused, budget - 1)

end SnacMachine.Srp
