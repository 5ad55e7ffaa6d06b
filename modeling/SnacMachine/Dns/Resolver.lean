import SnacMachine.Dns.Reply
import SnacMachine.Discovery.Proxy
import SnacMachine.Lib.Run
import SnacMachine.Srp.Deletion

/-!
# The forwarding resolver

The transactions of `dns/resolver.rs`, `dns/resolver/discovery.rs`, `dns/resolver/privacy.rs` and
`dns/resolver/browse.rs`: queries that wait for an upstream server (`pending`) or for the Discovery
Proxy (`discovered`), the follow-up lookups of additional addresses, and the cache of replies.

The components next to the resolver enter as what they answer during a call (`Outside`): the random
source, the registry, the inventory, the privacy policy and the registrar. Nothing is assumed of
them, so that what holds of every run holds whatever they answer.
-/

namespace SnacMachine.Dns

open Discovery

/-! ## Data -/

/-- Reference: `PENDING` (`dns/resolver.rs:16`). -/
def maxPending : Nat := 128
/-- Reference: `WAITERS` (`dns/resolver.rs:17`). -/
def maxWaiters : Nat := 256
/-- Reference: `CACHE_SETS` (`dns/resolver.rs:18`). -/
def maxCacheSets : Nat := 1024
/-- Reference: `BYTES` (`dns/resolver.rs:19`). -/
def maxBytes : Nat := 4194304

/-- Reference: `invalid` (`dns/resolver.rs:20`). -/
def invalid : IoError := ⟨.invalidData, "invalid DNS request"⟩
/-- Reference: `capacity` (`dns/resolver.rs:23`). -/
def capacity : IoError := ⟨.wouldBlock, "DNS capacity"⟩

/-- The outcome of the wire format as a result of the resolver. -/
def ofWire {α : Type} : Option α → Except IoError α
  | none => .error wireInvalid
  | some x => .ok x

/-- Reference: `Client` (`dns/resolver.rs:27`); `local_` is its field `local`. -/
structure Client where
  address : SocketAddr
  connection : Option Nat
  local_ : Option IpAddr
  deriving DecidableEq

/-- Reference: `Designation` (`dns/privacy.rs:11`). -/
structure Designation where
  endpoint : SocketAddr
  serverName : String
  priority : UInt16
  expires : Nat

/-- Reference: `UpstreamQuery` (`dns/resolver.rs:49`). -/
structure UpstreamQuery where
  exchange : Nat
  origin : SocketAddr
  tls : Option Designation
  server : SocketAddr
  sourcePort : UInt16
  tcp : Bool
  bytes : Bytes

/-- Reference: `Action` (`dns/resolver.rs:59`). -/
inductive Action
  | upstream (query : UpstreamQuery)
  | register (client : Client) (update : Srp.Update)
  | reply (client : Client) (bytes : Bytes)

/-- Reference: `Waiter` (`dns/resolver.rs:64`). -/
structure Waiter where
  client : Client
  id : UInt16
  limit : Nat
  deriving DecidableEq

/-- Reference: `Purpose` (`dns/resolver.rs:69`). -/
inductive Purpose
  | client
  | ddr (id : Nat)
  | browse (id : Nat)
  deriving DecidableEq

/-- Reference: `alias_charge` (`dns/resolver.rs:1081`). -/
def aliasCharge (names : OrdMap Name Unit) : Nat :=
  names.total fun n _ => 512 + n.canonical.length + 128 * n.labels.length

/-- Reference: `Pending` (`dns/resolver.rs:74`). -/
structure Pending where
  purpose : Purpose
  key : Bytes
  original : Message
  query : UpstreamQuery
  question : Question
  waiters : List Waiter
  deadline : Nat
  retry : Nat
  attempt : Nat
  base : Option Bytes
  forwardCache : Bool
  aliases : OrdMap Name Unit

/-- Reference: `Pending::charge` (`dns/resolver.rs:89`). -/
def Pending.charge (p : Pending) : Nat :=
  1024 + p.key.length + 16 * p.original.original.length + 16 * p.query.bytes.length +
    16 * p.base.elim 0 List.length + aliasCharge p.aliases + 1024 * p.waiters.length

/-- Reference: `Discovered` (`dns/resolver/discovery.rs:2`). -/
structure Discovered where
  key : Bytes
  original : Message
  question : Question
  job : Nat
  waiters : List Waiter
  base : Option Bytes
  forwardCache : Bool
  aliases : OrdMap Name Unit

/-- Reference: `Discovered::from_pending` (`dns/resolver/discovery.rs:13`). -/
def Discovered.fromPending (p : Pending) : Discovered :=
  ⟨p.key, p.original, p.question, 0, p.waiters, p.base, p.forwardCache, p.aliases⟩

/-- Reference: `Discovered::charge` (`dns/resolver/discovery.rs:25`). -/
def Discovered.charge (p : Discovered) : Nat :=
  4096 + p.key.length + 16 * p.original.original.length + 16 * p.base.elim 0 List.length +
    aliasCharge p.aliases + 1024 * p.waiters.length

/-- Reference: `Cache` (`dns/resolver.rs:98`). -/
structure Cache where
  wire : Bytes
  inserted : Nat
  expires : Nat
  last : Nat
  sets : Nat

/-- A reply with which an entry was finished: the query it is for, its octets and the moment. -/
structure Finished where
  original : Message
  reply : Bytes
  time : Nat

/-- The state of the resolver. Reference: `Resolver` (`dns/resolver.rs:105`). The field `privacy` is
whether a policy is configured; the fields that are left out are those of `Outside`. The field
`next` counts the exchanges, and the source keeps it modulo 2^64. The field `finished` is not in the
source: it lists the replies that entries were finished with. -/
structure Resolver where
  additionalA : Bool
  privacy : Bool
  localZones : List Name
  upstreams : List SocketAddr
  pending : OrdMap Nat Pending
  discovered : OrdMap Nat Discovered
  discovery : Option Proxy
  cache : OrdMap Bytes Cache
  next : Nat
  rates : OrdMap IpAddr (Nat × Nat)
  finished : List Finished

/-- What the components next to the resolver answer during a call. The random source is asked for
two words before each exchange, the registry (if there is one) for the records of a name and a type,
the inventory for an answer, the privacy policy for the designation on a route and whether one is
still live, and the registrar for its answer to an update. -/
structure Outside where
  random : Nat → Except IoError (UInt16 × UInt16)
  records : Option (Name → UInt16 → List Record)
  inventory : Question → Except IoError (Option Message)
  route : SocketAddr → Option Designation
  liveTls : SocketAddr → SocketAddr → String → Bool
  update : Client → Bytes → Except IoError (List Action)

/-- The result of a call and the state after it. -/
abbrev Outcome := Except IoError (List Action) × Resolver

/-! ## Messages -/

/-- Reference: `in_zone` (`dns/resolver.rs:1042`). -/
def inZone (name zone : Name) : Bool := Srp.within name zone

def serviceArpa : Name := ⟨[ascii "service", ascii "arpa"], by decide⟩
def resolverArpa : Name := ⟨[ascii "resolver", ascii "arpa"], by decide⟩

/-- Reference: `query_key` (`dns/resolver.rs:902`). -/
def queryKey (m : Message) : Option Bytes :=
  match m.questions with
  | [] => none
  | q :: qs =>
    let key := { Message.new 0 (m.flags &&& 0x110) with
      questions := { q with name := q.name.lower } :: qs
      additional := m.additional }
    key.encode

/-- Reference: `client_limit` (`dns/resolver.rs:915`). -/
def clientLimit (c : Client) (m : Message) : Nat :=
  if c.connection.isSome then 65535
  else (m.additional.find? fun r => r.kind == 41).elim 512 fun r => max 512 (min r.cls.toNat 4096)

/-- Reference: `failure` (`dns/resolver.rs:925`). -/
def failure (q : Message) (rcode : UInt16) : Option Bytes :=
  let m := { Message.new q.id
    (0x8080 ||| (q.flags &&& 0x110) ||| rcode) with questions := q.questions }
  m.encode

/-- The last changes to a reply: the identifier of the query, no AD bit, and the RA bit if it
answers a standard query. Reference: `dns/resolver.rs:939`. -/
def addressed (id : UInt16) (b : Bytes) : Bytes :=
  let b := overwrite b 0 (toBe 2 id.toNat)
  let low := b.getD 3 0 &&& 0xdf
  overwrite b 3 [if b.getD 2 0 &&& 0x78 == 0 then low ||| 0x80 else low]

/-- A reply cut down to its question. Reference: `dns/resolver.rs:933`. -/
def truncated (id : UInt16) (m : Message) : Message :=
  { Message.new id ((m.flags ||| 0x280) &&& ~~~(0x20 : UInt16)) with questions := m.questions }

/-- Reference: `deliver` (`dns/resolver.rs:931`). -/
def deliver (w : Waiter) (b : Bytes) : Option Action := do
  let bytes ← if b.length > w.limit then do
      let m ← Message.parse b .unicast
      (truncated w.id m).encode
    else some b
  some (.reply w.client (addressed w.id bytes))

/-- Reference: `additional_question` (`dns/resolver.rs:1051`). -/
def additionalQuestion (m : Message) (q : Question) (enabled : Bool) : Option Question :=
  if !enabled || q.kind != 28 || rcode m == 3 || m.answers.any fun r => r.kind == 28 then none
  else (canonical m q.name).map fun name => ⟨name, 1, q.cls⟩

/-- The loop of `additional_alias` (`dns/resolver.rs:1093`): the name at the end of the aliases, if
they may be followed, and the names seen. Every round adds a name, so that there are at most
seventeen. -/
def aliasLoop (m : Message) :
    (fuel : Nat) → OrdMap Name Unit → Name → Option Name × OrdMap Name Unit
  | fuel, seen, name => match cnameTargets m name with
    | [] => (some name, seen)
    | target :: rest =>
      if (rest.any fun n => n != target) || decide (seen.size ≥ 17) || seen.contains target then
        (none, seen)
      else match fuel with
        | 0 => (none, seen)
        | fuel + 1 => aliasLoop m fuel (seen.insert target ()) target

/-- The question for the addresses at the end of the aliases, if they are not there yet, and the
names seen. Reference: `additional_alias` (`dns/resolver.rs:1088`). -/
def additionalAlias (m : Message) (q : Question) (seen : OrdMap Name Unit) :
    Option Question × OrdMap Name Unit :=
  if rcode m ≠ 0 ∨ q.kind ≠ 1 then (none, seen)
  else match aliasLoop m 17 seen q.name with
    | (none, seen) => (none, seen)
    | (some name, seen) =>
      if name != q.name && !(m.answers.any fun r => r.name == name && r.kind == 1) then
        (some ⟨name, 1, q.cls⟩, seen)
      else (none, seen)

/-! ## The tables -/

namespace Resolver

/-- Reference: `Resolver::new` (`dns/resolver.rs:125`). -/
def new (additionalA : Bool) : Resolver :=
  ⟨additionalA, false, [], [], .empty, .empty, none, .empty, 0, .empty, []⟩

/-- Reference: `Resolver::waiters` (`dns/resolver/discovery.rs:43`). -/
def waiters (r : Resolver) : List Waiter :=
  (r.pending.values.flatMap fun p => p.waiters) ++ r.discovered.values.flatMap fun p => p.waiters

/-- Reference: `Resolver::pending_count` (`dns/resolver.rs:373`). -/
def pendingCount (r : Resolver) : Nat := r.pending.size + r.discovered.size

/-- Reference: `Resolver::pending_bytes` (`dns/resolver.rs:379`). -/
def pendingBytes (r : Resolver) : Nat :=
  (r.pending.total fun _ p => p.charge) + (r.discovered.total fun _ p => p.charge) +
    r.discovery.elim 0 Proxy.bytes

/-- Reference: `Resolver::cache_sets` (`dns/resolver.rs:388`). -/
def cacheSets (r : Resolver) : Nat := r.cache.total fun _ c => c.sets

/-- Reference: `Resolver::cache_bytes` (`dns/resolver.rs:391`). -/
def cacheBytes (r : Resolver) : Nat := r.cache.total fun k c => k.length + c.wire.length + 128

/-- Reference: `Resolver::admit` (`dns/resolver.rs:417`). -/
def admitSource (r : Resolver) (source : IpAddr) (now : Nat) : Except IoError Unit × Resolver :=
  let r := { r with rates := r.rates.retain fun _ e => decide (e.1 > now) }
  if r.rates.contains source = false ∧ r.rates.size ≥ 32 then (.error capacity, r)
  else
    let (until_, count) := (r.rates.get source).getD (satAdd now 1000, 0)
    if count ≥ 32 then (.error capacity, r)
    else (.ok (), { r with rates := r.rates.insert source (until_, count + 1) })

/-- Whether there is no room for one more waiter. Reference: `dns/resolver.rs:613`. -/
def full (r : Resolver) (w : Waiter) : Bool :=
  decide (r.waiters.length ≥ maxWaiters) ||
    decide ((r.waiters.filter fun x => x.client.address.ip == w.client.address.ip).length ≥ 8) ||
    decide (r.pendingBytes + 1024 > maxBytes)

/-- The search for a source port, from the `n`-th after the first one on. Reference:
`dns/resolver.rs:672`. -/
def freePort (used : UInt16 → Bool) (start : Nat) : (fuel n : Nat) → Option UInt16
  | 0, _ => none
  | fuel + 1, n =>
    let port := UInt16.ofNat (49152 + (start + n) % 16384)
    if used port then freePort used start fuel (n + 1) else some port

/-- The first free source port from a random one on. Reference: `dns/resolver.rs:671`. -/
def sourcePort (r : Resolver) (start : UInt16) : Option UInt16 :=
  freePort (fun port => r.pending.values.any fun p => p.query.sourcePort == port)
    (start.toNat % 16384) 16384 0

/-- The octets of a query under a new identifier, without its AD bit. Reference:
`dns/resolver.rs:678`. -/
def queryBytes (id : UInt16) (b : Bytes) : Bytes :=
  let b := overwrite b 0 (toBe 2 id.toNat)
  overwrite b 3 [b.getD 3 0 &&& 0xdf]

/-- The query of the next exchange, which the caller counts.
Reference: `Resolver::make_query` (`dns/resolver.rs:653`). -/
def makeQuery (o : Outside) (r : Resolver) (bytes : Bytes) (origin : SocketAddr) :
    Except IoError UpstreamQuery :=
  let tls := if r.privacy then o.route origin else none
  let exchange := (r.next + 1) % 2 ^ 64
  match o.random exchange with
  | .error e => .error e
  | .ok (id, start) => match r.sourcePort start with
    | none => .error capacity
    | some port => .ok {
        exchange
        origin
        tls
        server := tls.elim origin Designation.endpoint
        sourcePort := port
        tcp := tls.isSome || decide (bytes.length > 4096)
        bytes := queryBytes id bytes }

/-! ## The cache -/

/-- The lifetimes of the records but OPT. -/
def lifetimes (m : Message) : List UInt32 := (m.records.filter fun r => r.kind != 41).map Record.ttl

/-- The negative lifetimes of the SOA records of the authority section. Reference:
`dns/resolver.rs:791`. -/
def negativeLifetimes (m : Message) : List UInt32 :=
  m.authority.filterMap fun r => match r.data with
    | .soa _ _ _ _ _ _ minimum => some (min r.ttl minimum)
    | _ => none

/-- Whether a reply answers its question. Reference: `dns/resolver.rs:788`. -/
def positive (m : Message) : Bool :=
  m.answers.any fun r => m.questions.head?.any fun q => r.kind == q.kind

/-- How long a reply is kept, in seconds. Reference: `dns/resolver.rs:789`. -/
def life (m : Message) : Option UInt32 :=
  let life :=
    if rcode m = 0 ∧ positive m = true then (lifetimes m).min?
    else if rcode m = 0 ∨ rcode m = 3 then (negativeLifetimes m).min?
    else none
  (life.map fun ttl => (lifetimes m).min?.elim ttl fun l => min l ttl).filter fun t =>
  decide (t > 0)

/-- The sets of a message: the names, types and classes of its records but OPT. Reference:
`dns/resolver.rs:814`. -/
def recordSets (m : Message) : Nat :=
  let keys := (m.records.filter fun r => r.kind != 41).map fun r => (r.name, r.kind, r.cls)
  max 1 (keys.foldl (fun (s : OrdMap (Name × UInt16 × UInt16) Unit) k => s.insert k ()) .empty).size

/-- The octets that are kept of a reply: the lifetimes of the SOA records of a negative one are cut
down. Reference: `dns/resolver.rs:820`. -/
def keptWire (m : Message) (b : Bytes) (life : UInt32) : Bytes :=
  if positive m then b
  else patchTtls m.spans (m.records.map fun r =>
    if r.kind = 6 then some (min r.ttl life) else none) b

/-- The key of the entry that was used least recently. -/
def oldest : List (Bytes × Cache) → Option (Bytes × Cache)
  | [] => none
  | e :: es => match oldest es with
    | none => some e
    | some e' => some (if e'.2.last < e.2.last then e' else e)

/-- The loop of `store` (`dns/resolver.rs:837`) that makes room; an entry goes in every round. -/
def evict (sets size : Nat) : (fuel : Nat) → Resolver → Resolver
  | 0, r => r
  | fuel + 1, r =>
    if r.cacheSets + sets > maxCacheSets ∨ r.cacheBytes + size > maxBytes then
      match oldest r.cache.entries with
      | none => r
      | some (k, _) => evict sets size fuel { r with cache := r.cache.remove k }
    else r

/-- Reference: `Resolver::store` (`dns/resolver.rs:779`). -/
def store (r : Resolver) (key b : Bytes) (now : Nat) : Except IoError Resolver :=
  match Message.parse b .unicast with
  | none => .error wireInvalid
  | some m => match life m with
    | none => .ok r
    | some life =>
      let sets := recordSets m
      let wire := keptWire m b life
      let size := key.length + wire.length + 128
      if sets > maxCacheSets ∨ size > maxBytes then .ok r
      else
        let r := { r with cache := r.cache.remove key }
        let r := evict sets size r.cache.size r
        let entry : Cache := ⟨wire, now, satAdd now (life.toNat * 1000), now, sets⟩
        .ok { r with cache := r.cache.insert key entry }

/-! ## Finishing an entry -/

/-- The answers to the waiters of an entry of some query, after its reply was stored if it may be.
Reference: `dns/resolver.rs:774`. -/
def answer (r : Resolver) (key : Bytes) (original : Message) (forwardCache : Bool)
    (waiters : List Waiter) (b : Bytes) (now : Nat) : Outcome :=
  let r := { r with finished := r.finished ++ [⟨original, b, now⟩] }
  if forwardCache then match r.store key b now with
    | .error e => (.error e, r)
    | .ok r => (ofWire (waiters.mapM fun w => deliver w b), r)
  else (ofWire (waiters.mapM fun w => deliver w b), r)

/-- Reference: `Resolver::finish` (`dns/resolver.rs:751`). -/
def finish (r : Resolver) (p : Pending) (b : Bytes) (now : Nat) : Outcome :=
  match p.purpose with
  | .client => r.answer p.key p.original p.forwardCache p.waiters b now
  | _ => (.ok [], r)

/-- Reference: `Resolver::finish_discovered` (`dns/resolver/discovery.rs:168`). -/
def finishDiscovered (r : Resolver) (p : Discovered) (b : Bytes) (now : Nat) : Outcome :=
  r.answer p.key p.original p.forwardCache p.waiters b now

/-- The question for the addresses that are to be added to a reply. Reference:
`dns/resolver/discovery.rs:230`. -/
def followUp (original : Message) (question : Question) : Message :=
  { Message.new 0 (0x100 ||| (original.flags &&& 0x10)) with
    questions := [question]
    additional := original.additional }

/-- Reference: `Resolver::continue_additional` (`dns/resolver/discovery.rs:179`). The entry has been
taken out of its table. -/
def continueAdditional (o : Outside) (r : Resolver) (p : Discovered) (question : Question)
    (base : Bytes) (now : Nat) : Outcome :=
  let p := if p.aliases.size = 0 then { p with aliases := p.aliases.insert question.name () } else p
  let fromRegistry := o.records.bind fun records =>
    if records question.name 255 ≠ [] then some (records question.name question.kind) else none
  match fromRegistry with
  | some answers =>
    let answer := { Message.new 0 0x8400 with questions := [question], answers }
    r.finishDiscovered { p with forwardCache := false }
      ((augment base answer question.name).getD base) now
  | none => match o.inventory question with
    | .error e => (.error e, r)
    | .ok (some answer) =>
      r.finishDiscovered { p with forwardCache := false }
        ((augment base answer question.name).getD base) now
    | .ok none =>
      if r.pendingBytes + p.charge + 16 * base.length + 8192 > maxBytes then
        r.finishDiscovered p base now
      else match r.discovery.filter fun d => d.accepts question with
        | some d => match d.start question now with
          | .ok (job, d) =>
            let id := (r.next + 1) % 2 ^ 64
            let p := { p with job, question, base := some base, forwardCache := false }
            (.ok [], { r with
              discovery := some d
              next := r.next + 1
              discovered := r.discovered.insert id p })
          | .error _ => r.finishDiscovered p base now
        | none => match r.upstreams with
          | [] => r.finishDiscovered p base now
          | server :: _ =>
            if inZone question.name serviceArpa || r.localZones.any fun z =>
              inZone question.name z then
              r.finishDiscovered p base now
            else match (followUp p.original question).encode with
              | none => (.error wireInvalid, r)
              | some bytes => match r.makeQuery o bytes server with
                | .error e => (.error e, r)
                | .ok query =>
                  let pending : Pending := {
                    purpose := .client
                    key := p.key
                    original := p.original
                    query
                    question
                    waiters := p.waiters
                    deadline := satAdd now 10000
                    retry := satAdd now 1000
                    attempt := 0
                    base := some base
                    forwardCache := p.forwardCache
                    aliases := p.aliases }
                  (.ok [.upstream query], { r with
                    next := r.next + 1
                    pending := r.pending.insert query.exchange pending })

end Resolver

end SnacMachine.Dns
