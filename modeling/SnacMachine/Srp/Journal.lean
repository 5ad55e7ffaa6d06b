import SnacMachine.Srp.Registry

/-!
# The journal of a registry

The embedding of `srp/registry/journal.rs`. A writer appends to the octets written so far; a reader
consumes a list of octets and returns what is left of it. Lease ends are written as what remains of
them, so that they survive a restart of the clock.
-/

namespace SnacMachine.Srp

open Dns

namespace Journal

/-- Reference: `MAGIC` (`srp/registry/journal.rs:4`). -/
def magic : Bytes := ascii "SNAC-SRP-2" ++ [0]

/-! ## Writing -/

/-- Reference: `put_name` (`srp/registry/journal.rs:8`). -/
def putName (name : Name) : Bytes := toBe 2 name.canonical.length ++ name.canonical

/-- Reference: `put_key` (`srp/registry/journal.rs:26`). -/
def putKey (key : Key) : Bytes :=
  toBe 2 key.flags.toNat ++ [key.protocol, key.algorithm] ++ toBe 2 key.bytes.length ++ key.bytes

/-- The message that carries one record. Reference: `srp/registry/journal.rs:15`. -/
def recordMessage (r : Record) : Message := { Message.new 0 0 with answers := [r] }

/-- One record of `putRecords`. Reference: `srp/registry/journal.rs:14`. -/
def putRecord (b : Bytes) (r : Record) : Option Bytes := do
  let wire ← (recordMessage r).encode
  let b := b ++ (toBe 4 wire.length ++ wire)
  if b.length > maxBytes then none else some b

/-- Reference: `put_records` (`srp/registry/journal.rs:12`). -/
def putRecords (b : Bytes) (records : List Record) : Option Bytes :=
  records.foldlM putRecord (b ++ toBe 2 records.length)

/-- How long ago something was received. Reference: `srp/registry/journal.rs:46`. -/
def age (now : Nat) (receivedAt : Int) : Nat := min (max ((now : Int) - receivedAt) 0).toNat u64Max

/-- What remains of the two leases of an entry, and its age. Reference:
`srp/registry/journal.rs:43`. -/
def putLeases (now expires keyExpires : Nat) (receivedAt : Int) : Bytes :=
  toBe 8 (expires - now) ++ (toBe 8 (keyExpires - now) ++ toBe 8 (age now receivedAt))

/-- Reference: `srp/registry/journal.rs:40`. -/
def putHost (now : Nat) (b : Bytes) (e : Name × Host) : Option Bytes :=
  putRecords (b ++ (putName e.1 ++ (putKey e.2.key ++
    putLeases now e.2.expires e.2.keyExpires e.2.receivedAt))) e.2.addresses

/-- Reference: `srp/registry/journal.rs:50`. -/
def putService (now : Nat) (b : Bytes) (e : Name × Service) : Option Bytes := do
  let b ← putRecords (b ++ (putName e.1 ++ (putName e.2.host ++ (putKey e.2.key ++
    putLeases now e.2.expires e.2.keyExpires e.2.receivedAt)))) e.2.records
  putRecords b e.2.discovery

/-- Reference: `srp/registry/journal.rs:62`. -/
def putReply (now : Nat) (e : Octets 32 × Receipt) : Bytes :=
  e.1.1 ++ (toBe 4 e.2.grant.lease.toNat ++ (toBe 4 e.2.grant.keyLease.toNat ++
    (toBe 8 (e.2.expires - now) ++ toBe 8 (age now e.2.receivedAt))))

/-- The magic, the wall clock and the three counts. Reference: `srp/registry/journal.rs:34`. -/
def putHeader (r : Registry) (wall : Nat) : Bytes :=
  magic ++ (toBe 8 wall ++ (toBe 2 r.hosts.size ++
    (toBe 2 r.services.size ++ toBe 2 r.replies.size)))

/-- Reference: `Registry::encode` (`srp/registry/journal.rs:33`). -/
def encode (c : Crypto) (r : Registry) (now wall : Nat) : Option Bytes := do
  let b ← r.hosts.entries.foldlM (putHost now) (putHeader r wall)
  let b ← r.services.entries.foldlM (putService now) b
  let b := b ++ r.replies.entries.flatMap (putReply now)
  let b := b ++ (c.sha1 b).1
  if b.length > maxBytes then none else some b

/-! ## Reading -/

/-- Reference: `Reader::take` (`srp/registry/journal.rs:222`). -/
def take (n : Nat) (b : Bytes) : Option (Bytes × Bytes) :=
  if n ≤ b.length then some (b.take n, b.drop n) else none

/-- A big-endian number of `w` octets. Reference: `Reader::u16`, `Reader::u32`, `Reader::u64`
(`srp/registry/journal.rs:232`). -/
def number (w : Nat) (b : Bytes) : Option (Nat × Bytes) := do
  let (x, b) ← take w b
  return (ofBe x, b)

/-- The labels of an uncompressed name that fills its octets. Reference:
`srp/registry/journal.rs:247`. -/
def readLabels : (fuel : Nat) → Bytes → Option (List Bytes)
  | 0, _ => none
  | _ + 1, [] => none
  | fuel + 1, n :: data =>
    if n = 0 then
      if data = [] then some [] else none
    else if n.toNat > 63 ∨ n.toNat > data.length then none
    else do
      let labels ← readLabels fuel (data.drop n.toNat)
      return data.take n.toNat :: labels

/-- Reference: `Reader::name` (`srp/registry/journal.rs:241`). -/
def readName (b : Bytes) : Option (Name × Bytes) := do
  let (n, b) ← number 2 b
  if n > 255 then none
  let (data, b) ← take n b
  let labels ← readLabels data.length data
  if labels = [] then none
  let name ← Name.fromLabels labels
  return (name, b)

/-- Reference: `Reader::key` (`srp/registry/journal.rs:268`). -/
def readKey (c : Crypto) (b : Bytes) : Option (Key × Bytes) := do
  let (flags, b) ← number 2 b
  let (protocol, b) ← number 1 b
  let (algorithm, b) ← number 1 b
  let (len, b) ← number 2 b
  let size ← Key.length? (UInt8.ofNat algorithm)
  if protocol ≠ 3 ∨ len ≠ size then none
  let (bytes, b) ← take len b
  if c.validPublic (UInt8.ofNat algorithm) bytes = false then none
  return (⟨UInt16.ofNat flags, UInt8.ofNat protocol, UInt8.ofNat algorithm, bytes⟩, b)

/-- One record. Reference: `srp/registry/journal.rs:306`. -/
def readRecord (b : Bytes) : Option (Record × Bytes) := do
  let (n, b) ← number 4 b
  if n > 65535 then none
  let (wire, b) ← take n b
  let m ← Message.parse wire .unicast
  match m.answers with
  | [r] =>
    if m.id ≠ 0 ∨ m.flags ≠ 0 ∨ m.questions.isEmpty = false ∨ m.authority.isEmpty = false ∨
        m.additional.isEmpty = false then none
    else some (r, b)
  | _ => none

/-- A fixed number of records. -/
def readCount : (count : Nat) → Bytes → Option (List Record × Bytes)
  | 0, b => some ([], b)
  | count + 1, b => do
    let (r, b) ← readRecord b
    let (rs, b) ← readCount count b
    return (r :: rs, b)

/-- Reference: `Reader::records` (`srp/registry/journal.rs:300`). -/
def readRecords (b : Bytes) : Option (List Record × Bytes) := do
  let (count, b) ← number 2 b
  if count > 256 then none else readCount count b

/-- The two clocks at a restart: the new monotonic clock, and how long the program was away. -/
structure Restart where
  now : Nat
  elapsed : Nat

/-- The end of a lease with so much remaining. Reference: `srp/registry/journal.rs:97`. -/
def Restart.deadline (t : Restart) (remaining : Nat) : Nat :=
  if remaining ≤ t.elapsed then 0 else satAdd t.now (remaining - t.elapsed)

/-- When something of an age was received. Reference: `srp/registry/journal.rs:117`. -/
def Restart.receivedAt (t : Restart) (age : Nat) : Int := (t.now : Int) - age - t.elapsed

/-- The longest lease the journal accepts, in milliseconds. Reference:
`srp/registry/journal.rs:111`. -/
def maxRemaining : Nat := 4294967295 * 1000

/-- The two lease ends and the moment of receipt of an entry. Reference:
`srp/registry/journal.rs:109`. -/
def readLeases (t : Restart) (b : Bytes) : Option ((Nat × Nat × Int) × Bytes) := do
  let (lease, b) ← number 8 b
  let (keyLease, b) ← number 8 b
  if lease > maxRemaining ∨ keyLease > maxRemaining ∨ lease > keyLease then none
  let (age, b) ← number 8 b
  return ((t.deadline lease, t.deadline keyLease, t.receivedAt age), b)

/-- The records that a host may carry. Reference: `srp/registry/journal.rs:121`. -/
def addressOk (name : Name) (r : Record) : Bool :=
  r.name == name && [1, 28].contains r.kind && r.cls == 1

/-- The records that a service may carry. Reference: `srp/registry/journal.rs:162`. -/
def serviceRecordOk (name host : Name) (r : Record) : Bool :=
  r.name == name && r.cls == 1 && [16, 33].contains r.kind &&
    match r.data with
    | .srv _ _ _ target => target == host
    | _ => true

/-- The PTR records that a service may carry. Reference: `srp/registry/journal.rs:169`. -/
def discoveryOk (name : Name) (r : Record) : Bool :=
  r.kind == 12 && r.cls == 1 && r.data == .name name

/-- Adds an entry at a key that is not there yet. -/
def insertFresh {K V : Type} [OrdKey K] (m : OrdMap K V) (k : K) (v : V) : Option (OrdMap K V) :=
  if m.contains k then none else some (m.insert k v)

/-- Reference: `srp/registry/journal.rs:106`. -/
def readHost (c : Crypto) (t : Restart) (b : Bytes) : Option ((Name × Host) × Bytes) := do
  let (name, b) ← readName b
  let (key, b) ← readKey c b
  let ((expires, keyExpires, receivedAt), b) ← readLeases t b
  let (addresses, b) ← readRecords b
  if addresses.all (addressOk name) = false then none
  return ((name, ⟨key, addresses, expires, keyExpires, receivedAt⟩), b)

/-- Reference: `srp/registry/journal.rs:146`. -/
def readService (c : Crypto) (t : Restart) (b : Bytes) : Option ((Name × Service) × Bytes) := do
  let (name, b) ← readName b
  let (host, b) ← readName b
  let (key, b) ← readKey c b
  let ((expires, keyExpires, receivedAt), b) ← readLeases t b
  let (records, b) ← readRecords b
  let (discovery, b) ← readRecords b
  if records.all (serviceRecordOk name host) = false ∨ discovery.all (discoveryOk name) = false then
    none
  return ((name, ⟨host, key, records, discovery, expires, keyExpires, receivedAt⟩), b)

/-- Reference: `srp/registry/journal.rs:192`. -/
def readReply (t : Restart) (b : Bytes) : Option ((Octets 32 × Receipt) × Bytes) := do
  if h : 32 ≤ b.length then
    let digest : Octets 32 := ⟨b.take 32, by simp [h]⟩
    let (lease, b) ← number 4 (b.drop 32)
    let (keyLease, b) ← number 4 b
    let (remaining, b) ← number 8 b
    let (age, b) ← number 8 b
    if lease > keyLease ∨ remaining > 30000 ∨ age > 30000 then none
    return ((digest, ⟨⟨UInt32.ofNat lease, UInt32.ofNat keyLease⟩, t.receivedAt age,
      t.deadline remaining⟩), b)
  else none

/-- A fixed number of entries, at keys that are all different. -/
def readEntries {K V : Type} [OrdKey K] (read : Bytes → Option ((K × V) × Bytes)) :
    (count : Nat) → OrdMap K V → Bytes → Option (OrdMap K V × Bytes)
  | 0, m, b => some (m, b)
  | count + 1, m, b => do
    let ((k, v), b) ← read b
    let m ← insertFresh m k v
    readEntries read count m b

/-- The registry that the octets after the magic spell. Reference:
`srp/registry/journal.rs:89`. -/
def readBody (c : Crypto) (now wall : Nat) (b : Bytes) : Option Registry := do
  let (savedWall, b) ← number 8 b
  let t : Restart := ⟨now, satMul (wall - savedWall) 1000⟩
  let (hosts, b) ← number 2 b
  let (services, b) ← number 2 b
  let (replies, b) ← number 2 b
  if hosts > 128 ∨ services > 1024 ∨ replies > 128 then none
  let (hosts, b) ← readEntries (readHost c t) hosts .empty b
  let (services, b) ← readEntries (readService c t) services .empty b
  let (replies, b) ← readEntries (readReply t) replies .empty b
  if b ≠ [] then none
  return ⟨hosts, services, replies, LeasePolicy.default⟩

/-- Reference: `Registry::decode` (`srp/registry/journal.rs:77`). -/
def decode (c : Crypto) (bytes : Bytes) (now wall : Nat) : Option Registry := do
  if bytes.length > maxBytes ∨ bytes.length < magic.length + 32 ∨
    bytes.take magic.length ≠ magic then
    none
  let n := bytes.length - 20
  if (c.sha1 (bytes.take n)).1 ≠ bytes.drop n then none
  let out ← readBody c now wall ((bytes.take n).drop magic.length)
  if out.checkBounds = false then none
  return out.expire now

end Journal

/-- Reference: `Registry::restore` (`srp/registry.rs:432`). -/
def Registry.restore (c : Crypto) (bytes : Bytes) (now wall : Nat) : Option Registry :=
  Journal.decode c bytes now wall

/-- What an update did: the answer, the registry after it and the octets given to the store. -/
structure Applied where
  result : Except Error Grant
  registry : Registry
  saved : Option Bytes

/-- Reference: `Registry::apply_checked` (`srp/registry.rs:293`). `save` says whether the store
accepts the journal. -/
def Registry.applyChecked (c : Crypto) (r : Registry) (u : Update) (save : Bytes → Bool)
    (now wall : Nat) (accept : Registry → Except Error Unit) : Applied :=
  match r.cachedDigest u.digest now with
  | some grant => ⟨.ok grant, r, none⟩
  | none =>
    match r.admits u now with
    | .error e => ⟨.error e, r, none⟩
    | .ok grant =>
      let next := r.next u grant now
      if next.checkBounds = false then ⟨.error .servFail, r, none⟩
      else match accept next with
        | .error e => ⟨.error e, r, none⟩
        | .ok () =>
          match Journal.encode c next now wall with
          | none => ⟨.error .servFail, r, none⟩
          | some bytes =>
            if save bytes then ⟨.ok grant, next, some bytes⟩ else ⟨.error .servFail, r, some bytes⟩

end SnacMachine.Srp
