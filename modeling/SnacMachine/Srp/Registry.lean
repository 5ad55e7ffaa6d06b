import SnacMachine.Srp.Wire

/-!
# The registry of an SRP registrar

The embedding of `srp/registry.rs`, less the journal: hosts and services with independent record
and key leases, and the replies of recent updates. Clock readings are milliseconds in a 64-bit
counter (`Nat`, with the saturating additions of the source); `received_at` is an integer, as it
may lie before the clock's start after a restart.
-/

namespace SnacMachine.Srp

open Dns

/-- Reference: `LeasePolicy` (`srp/registry.rs:13`). -/
structure LeasePolicy where
  maxLease : UInt32
  maxKeyLease : UInt32
  minTtl : UInt32
  maxTtl : UInt32
  deriving DecidableEq

/-- Reference: `LeasePolicy::default` (`srp/registry.rs:19`). -/
def LeasePolicy.default : LeasePolicy := ⟨7200, 1209600, 30, 4500⟩

/-- Reference: `LeasePolicy::validate` (`srp/registry.rs:30`). -/
def LeasePolicy.validate (p : LeasePolicy) : Bool :=
  !(p.maxLease == 0 || decide (p.maxKeyLease < p.maxLease) || p.minTtl == 0 ||
    decide (p.minTtl > p.maxTtl) || decide (p.maxTtl > 2147483647))

/-- The bound on the registry's memory charge and on the journal. Reference: `MAX_BYTES`
(`srp/registry.rs:45`). -/
def maxBytes : Nat := 4 * 1024 * 1024

/-- Reference: `Host` (`srp/registry.rs:47`). -/
structure Host where
  key : Key
  addresses : List Record
  expires : Nat
  keyExpires : Nat
  receivedAt : Int

/-- Reference: `Service` (`srp/registry.rs:55`). -/
structure Service where
  host : Name
  key : Key
  records : List Record
  discovery : List Record
  expires : Nat
  keyExpires : Nat
  receivedAt : Int

/-- Reference: `Grant` (`srp/registry.rs:78`). -/
structure Grant where
  lease : UInt32
  keyLease : UInt32
  deriving DecidableEq

/-- Reference: `Receipt` (`srp/registry.rs:72`). -/
structure Receipt where
  grant : Grant
  receivedAt : Int
  expires : Nat

/-- Reference: `Registry` (`srp/registry.rs:65`). -/
structure Registry where
  hosts : OrdMap Name Host
  services : OrdMap Name Service
  replies : OrdMap (Octets 32) Receipt
  policy : LeasePolicy

/-- Reference: `clamp` of the standard library. -/
def clampTtl (ttl low high : UInt32) : UInt32 := max low (min ttl high)

/-- Adds a record under the policy's lifetimes, unless it is there. Reference:
`srp/registry.rs:447`. -/
def addNormalized (lease : UInt32) (policy : LeasePolicy) (out : List Record) (r : Record) :
    List Record :=
  let r := { r with ttl := min (clampTtl r.ttl policy.minTtl policy.maxTtl) lease }
  if out.contains r then out else out ++ [r]

/-- The records under the policy's lifetimes and without repetitions. Reference: `normalized`
(`srp/registry.rs:445`). -/
def normalized (records : List Record) (lease : UInt32) (policy : LeasePolicy) : List Record :=
  records.foldl (addNormalized lease policy) []

/-- Reference: `name_charge` (`srp/registry.rs:456`). -/
def nameCharge (n : Name) : Nat := 64 + 4 * n.canonical.length + 48 * n.labels.length

/-- Reference: `records_charge` (`srp/registry.rs:459`). -/
def recordsCharge (rs : List Record) : Nat :=
  (rs.map fun r => 128 + nameCharge r.name + match r.data with
    | .name n => nameCharge n
    | .srv _ _ _ target => nameCharge target
    | .txt v => (v.map fun s => 48 + s.length * 2).sum
    | .key _ _ _ key => key.length * 2
    | _ => 32).sum

/-- Reference: `key_record` (`srp/registry.rs:436`). -/
def keyRecord (name : Name) (key : Key) (ttl : UInt32) : Record := ⟨name, 25, 1, ttl, key.rdata⟩

/-- What is left of a lease after a whole number of seconds. -/
def leftAfter (lease : UInt32) (elapsed : Nat) : UInt32 := UInt32.ofNat (lease.toNat - elapsed)

/-- A host whose record lease has ended keeps its claim only. Reference: `srp/registry.rs:233`. -/
def Host.expire (now : Nat) (h : Host) : Host :=
  if h.expires ≤ now then { h with addresses := [], expires := 0 } else h

/-- A service without records. Reference: `srp/registry.rs:247`. -/
def Service.lapse (s : Service) : Service := { s with records := [], discovery := [], expires := 0 }

namespace Registry

/-- Reference: `Registry::default` (`srp/registry.rs:64`). -/
def default : Registry := ⟨.empty, .empty, .empty, LeasePolicy.default⟩

/-- Reference: `Registry::set_policy` (`srp/registry.rs:112`). -/
def setPolicy (r : Registry) (p : LeasePolicy) : Option Registry :=
  if p.validate then some { r with policy := p } else none

/-- Reference: `Registry::cached_digest` (`srp/registry.rs:123`). -/
def cachedDigest (r : Registry) (digest : Octets 32) (now : Nat) : Option Grant := do
  let receipt ← (r.replies.get digest).filter fun receipt => decide (receipt.expires > now)
  let elapsed := min (max ((now : Int) - receipt.receivedAt) 0 / 1000).toNat 4294967295
  return ⟨leftAfter receipt.grant.lease elapsed, leftAfter receipt.grant.keyLease elapsed⟩

/-- The live claim of a host on a name: its key and when the key lease ends. -/
def hostClaim (r : Registry) (name : Name) (now : Nat) : Option (Key × Nat) :=
  ((r.hosts.get name).filter fun h => decide (h.keyExpires > now)).map fun h =>
  (h.key, h.keyExpires)

/-- The live claim of a service on a name: its key and when the key lease ends. -/
def serviceClaim (r : Registry) (name : Name) (now : Nat) : Option (Key × Nat) :=
  ((r.services.get name).filter fun s => decide (s.keyExpires > now)).map
    fun s => (s.key, s.keyExpires)

/-- The entry that holds a name, a host before a service. -/
def claim (r : Registry) (name : Name) (now : Nat) : Option (Key × Nat) :=
  (r.hostClaim name now).orElse fun _ => r.serviceClaim name now

/-- Reference: `Registry::key` (`srp/registry.rs:143`). -/
def key (r : Registry) (name : Name) (now : Nat) : Option Key :=
  (((r.hosts.get name).filter fun h => decide (h.keyExpires > now)).map fun h => h.key).orElse
    fun _ => ((r.services.get name).filter fun s => decide (s.keyExpires > now)).map fun s => s.key

/-- Reference: `Registry::service_live` (`srp/registry.rs:210`). -/
def serviceLive (r : Registry) (s : Service) (now : Nat) : Bool :=
  decide (s.expires > now) &&
    (r.hosts.get s.host).any fun h => decide (h.expires > now) && h.key.samePublicKey s.key

/-- Reference: `Registry::key_ttl` (`srp/registry.rs:205`). -/
def keyTtl (r : Registry) (expires : Nat) (receivedAt : Int) : UInt32 :=
  min (clampTtl 120 r.policy.minTtl r.policy.maxTtl)
    (UInt32.ofNat (min (max ((expires : Int) - receivedAt) 0 / 1000).toNat 4294967295))

/-- One lifetime for all the records of a kind: the least of them. Reference:
`srp/registry.rs:194`. -/
def levelTtls (rs : List Record) : List Record :=
  rs.map fun r => { r with
    ttl := (rs.filter fun x => x.kind == r.kind).foldl (fun ttl x => min ttl x.ttl) r.ttl }

/-- Drops a record that repeats the one kept before it. Reference: `srp/registry.rs:202`. -/
def dedupRecords : List Record → List Record
  | [] => []
  | a :: rest => go a rest
where
  /-- The records from `a` on, `a` kept. -/
  go (a : Record) : List Record → List Record
    | [] => [a]
    | b :: rest =>
      if b.name == a.name && b.kind == a.kind && b.data == a.data then go a rest else a :: go b rest

/-- Reference: `Registry::records` (`srp/registry.rs:155`). -/
def records (r : Registry) (name : Name) (kind : UInt16) (now : Nat) : List Record :=
  let wants (k : UInt16) : Bool := kind == 255 || kind == k
  let ofHost := match r.hosts.get name with
    | none => []
    | some h =>
      (if h.keyExpires > now ∧ wants 25 = true
        then [keyRecord name h.key (r.keyTtl h.keyExpires h.receivedAt)] else []) ++
      (if h.expires > now then h.addresses.filter fun x => wants x.kind else [])
  let ofServices := r.services.entries.flatMap fun (owner, s) =>
    (if (owner == name) = true ∧ s.keyExpires > now ∧ wants 25 = true
      then [keyRecord owner s.key (r.keyTtl s.keyExpires s.receivedAt)] else []) ++
    (if r.serviceLive s now
      then (s.records ++ s.discovery).filter fun x => x.name == name && wants x.kind else [])
  dedupRecords (levelTtls (ofHost ++ ofServices))

/-- Reference: `Registry::expire` (`srp/registry.rs:230`). -/
def expire (r : Registry) (now : Nat) : Registry :=
  let hosts := (r.hosts.retain fun _ h => decide (h.keyExpires > now)).mapValues fun _ h =>
    h.expire now
  { r with
    replies := r.replies.retain fun _ x => decide (x.expires > now)
    hosts := hosts
    services := (r.services.retain fun _ s => decide (s.keyExpires > now)).mapValues fun _ s =>
      if s.expires ≤ now ∨ ((hosts.get s.host).any fun h =>
          decide (h.expires > now) && h.key.samePublicKey s.key) = false
        then s.lapse else s }

/-- The names that have a host or are a service's host. Reference: `srp/registry.rs:257`. -/
def parents (r : Registry) : OrdMap Name Unit :=
  (r.hosts.keys ++ r.services.values.map fun s => s.host).foldl (fun set n =>
   set.insert n ()) .empty

/-- The charge of one host. -/
def hostCharge (e : Name × Host) : Nat :=
  384 + nameCharge e.1 + e.2.key.bytes.length + recordsCharge e.2.addresses

/-- The charge of one service. -/
def serviceCharge (e : Name × Service) : Nat :=
  384 + nameCharge e.1 + nameCharge e.2.host + e.2.key.bytes.length + recordsCharge e.2.records +
    recordsCharge e.2.discovery

/-- Reference: `Registry::charge` (`srp/registry.rs:264`). -/
def charge (r : Registry) : Nat :=
  ((r.hosts.entries.map hostCharge).sum + (r.services.entries.map serviceCharge).sum +
    192 * r.replies.size) * 3

/-- Reference: `Registry::counts` (`srp/registry.rs:256`). -/
def counts (r : Registry) : Nat × Nat × Nat := (r.parents.size, r.services.size, r.charge)

/-- One service counted against its host, up to eight a host. Reference: `srp/registry.rs:424`. -/
def countService (perHost : OrdMap Name Nat) (host : Name) : Option (OrdMap Name Nat) :=
  let count := (perHost.get host).getD 0 + 1
  if count > 8 then none else some (perHost.insert host count)

/-- Reference: `Registry::check_bounds` (`srp/registry.rs:418`). -/
def checkBounds (r : Registry) : Bool :=
  let (hosts, services, bytes) := r.counts
  if hosts > 128 ∨ services > 1024 ∨ r.replies.size > 128 ∨ bytes > maxBytes then false
  else ((r.services.values.map fun s => s.host).foldlM countService .empty).isSome

/-- Reference: `srp/registry.rs:314`. -/
def grantFor (r : Registry) (u : Update) : Grant :=
  ⟨min u.lease r.policy.maxLease,
    min u.keyLease (if u.extendedLease then r.policy.maxKeyLease else r.policy.maxLease)⟩

/-- Reference: `srp/registry.rs:325`. -/
def updateWork (u : Update) : Nat :=
  nameCharge u.host + recordsCharge u.addresses +
    (u.services.map fun s =>
      nameCharge s.name + recordsCharge s.records + recordsCharge s.discovery + 512).sum

/-- The end of a lease of whole seconds that starts now. -/
def leaseEnd (now : Nat) (lease : UInt32) : Nat := satAdd now (lease.toNat * 1000)

/-- The host that an update registers. Reference: `srp/registry.rs:349`. -/
def hostOf (r : Registry) (u : Update) (grant : Grant) (now : Nat) : Host where
  key := u.key
  addresses := normalized u.addresses grant.lease r.policy
  expires := if grant.lease = 0 then 0 else leaseEnd now grant.lease
  keyExpires := leaseEnd now grant.keyLease
  receivedAt := now

/-- A service that an update registers. Reference: `srp/registry.rs:372`. -/
def serviceOf (r : Registry) (u : Update) (grant : Grant) (now : Nat)
    (s : ServiceUpdate) : Service where
  host := u.host
  key := u.key
  records := normalized s.records grant.lease r.policy
  discovery := normalized s.discovery grant.lease r.policy
  expires := if s.deleted = false ∧ grant.lease ≠ 0 then leaseEnd now grant.lease else 0
  keyExpires := leaseEnd now grant.keyLease
  receivedAt := now

/-- Whether a service belongs to an update's host and was registered under its public key. -/
def ownedBy (u : Update) (s : Service) : Bool := s.host == u.host && s.key.samePublicKey u.key

/-- Gives up the host and its services. Reference: `srp/registry.rs:343`. -/
def release (next : Registry) (u : Update) : Registry :=
  { next with
    hosts := next.hosts.remove u.host
    services := next.services.retain fun _ s => !ownedBy u s }

/-- Withdraws the records of the host's services when the update withdraws the host's. Reference:
`srp/registry.rs:360`. -/
def withdraw (services : OrdMap Name Service) (u : Update) (grant : Grant) : OrdMap Name Service :=
  if grant.lease = 0 then
    services.mapValues fun _ s => if ownedBy u s then s.lapse else s
  else services

/-- Registers the host and the services of an update. Reference: `srp/registry.rs:347`. -/
def register (r next : Registry) (u : Update) (grant : Grant) (now : Nat) : Registry :=
  { next with
    hosts := next.hosts.insert u.host (hostOf r u grant now)
    services := u.services.foldl (fun m s => m.insert s.name (serviceOf r u grant now s))
      (withdraw next.services u grant) }

/-- The entry that `min_by_key` selects: the first with the least moment of receipt. -/
def oldestReply : List (Octets 32 × Receipt) → Option (Octets 32 × Receipt)
  | [] => none
  | e :: rest => some (rest.foldl (fun best x =>
      if x.2.receivedAt < best.2.receivedAt then x else best) e)

/-- Makes room for a reply and records it. Reference: `srp/registry.rs:386`. -/
def remember (replies : OrdMap (Octets 32) Receipt) (digest : Octets 32)
    (grant : Grant) (now : Nat) :
    OrdMap (Octets 32) Receipt :=
  let replies := if replies.size = 128 then
      match oldestReply replies.entries with
      | some e => replies.remove e.1
      | none => replies
    else replies
  replies.insert digest ⟨grant, now, satAdd now 30000⟩

/-- The registry that an update would commit. Reference: `srp/registry.rs:339`. -/
def next (r : Registry) (u : Update) (grant : Grant) (now : Nat) : Registry :=
  let live := r.expire now
  let changed := if grant.keyLease = 0 then live.release u else register r live u grant now
  { changed with replies := remember changed.replies u.digest grant now }

/-- The refusals that come before any work on a copy. Reference: `srp/registry.rs:309`. -/
def admits (r : Registry) (u : Update) (now : Nat) : Except Error Grant :=
  if (u.host :: u.services.map fun s => s.name).any
      (fun n => (r.key n now).any fun k => !k.samePublicKey u.key) = true then .error .yxDomain
  else
    let grant := r.grantFor u
    if grant.keyLease < grant.lease then .error .refused
    else if r.charge + updateWork u * 2 > maxBytes then .error .servFail
    else .ok grant

end Registry

end SnacMachine.Srp
