import SnacMachine.Router.Pd

/-!
# What the router receives

The embedding of `Router::receive` and of what it calls: the neighbors (`router/nd.rs`), the
router's own addresses (`router/owned.rs`), the admission of advertisements
(`router/lifecycle.rs`), the routes they carry (`router/routes.rs`) and the packets that are only
passed on (`router/forward.rs`).
-/

namespace SnacMachine.Router

open Ip Nat64

/-- The default prefix. -/
def defaultPrefix : Prefix := ⟨.ofValue 0, 0⟩

/-- The group of all nodes, `ff02::1`. -/
def allNodes : Ipv6Addr := .ofValue 0xff020000000000000000000000000001

/-- The group of all routers, `ff02::2`. -/
def allRouters : Ipv6Addr := .ofValue 0xff020000000000000000000000000002

/-- The address that a neighbor message is about. -/
def targetOf (nd : Nd) : Ipv6Addr := octetsAt nd.body 8 16

/-- The option that names the hardware address of a link. -/
def macOption (r : Router) (link : Link) (kind : UInt8) : Bytes :=
  if (r.links.get link).kind = .ethernet then [kind, 1] ++ (r.macOf link).1 else []

/-! ## Neighbors -/

/-- A change of a neighbor. -/
def updateNeighbor (key : RouterKey) (f : Neighbor → Neighbor) : Io Unit :=
  update fun r => { r with neighbors := r.neighbors.modify key f }

/-- Reference: `Router::probe` (`router/nd.rs:31`). -/
def probe (key : RouterKey) (now : Nat) : Io Tx := do
  match (← look).neighbors.get key with
  | none => other "missing neighbor"
  | some n =>
    let destination := if n.mac.isSome then key.2 else key.2.solicitedNode
    updateNeighbor key fun n => { n with
      state := if n.mac.isSome then .probe else .incomplete
      deadline := some (now + 1000)
      probesSent := n.probesSent + 1 }
    let r ← look
    let b := [135, 0, 0, 0, 0, 0, 0, 0] ++ key.2.1 ++ r.macOption key.1 1
    match icmpPacket (r.identity.linkLocal key.1) destination 255 b with
    | .error _ => other "NS encoding"
    | .ok packet => pure ⟨key.1, packet⟩

/-- What one neighbor that failed for long takes with it. Reference: the loop of
`Router::reap_failed_neighbors` (`router/nd.rs:196`). -/
def forget (r : Router) (key : RouterKey) : Router :=
  { r with
    suppliers := r.suppliers.retain fun k _ => k.1 != key
    routes := if key.1 = .ail then r.routes.retain fun k _ => k.1 != key.2 else r.routes
    neighbors := r.neighbors.remove key }

/-- Whether a neighbor has failed for long. -/
def Neighbor.gone (n : Neighbor) (now : Nat) : Bool :=
  n.state == .failed && n.deadline.any fun t => t ≤ now

/-- Reference: `Router::reap_failed_neighbors` (`router/nd.rs:186`). -/
def reapFailedNeighbors (r : Router) (now : Nat) : Router :=
  ((r.neighbors.entries.filter fun e => e.2.gone now).map Prod.fst).foldl forget r

/-- Whether a header is still of use. Reference: `Router::reap_headers`
(`router/lifecycle.rs:56`). -/
def headerUsed (r : Router) (now : Nat) (k : RouterKey) (h : Header) : Bool :=
  (k.1 == .ail && !h.snac && h.headerLifetime.all fun l => l.live now) ||
    (r.suppliers.entries.any fun e => e.1.1 == k && e.2.live now) ||
    (k.1 == .ail && r.routes.entries.any fun e => e.1.1 == k.2 && e.2.valid.live now)

/-- Reference: `Router::reap_headers` (`router/lifecycle.rs:55`). -/
def reapHeaders (r : Router) (now : Nat) : Router :=
  { r with headers := r.headers.retain (r.headerUsed now) }

/-- The number of keys of a link. -/
def countOn {K V : Type} [OrdKey K] (m : OrdMap K V) (p : K → Bool) : Nat :=
  (m.keys.filter p).length

/-! ## Admission -/

/-- The keys that an advertisement is going to leave. Reference: `Router::admit_ra`
(`router/lifecycle.rs:107`). -/
structure Prospect where
  prefixes : OrdMap Prefix Unit
  hints : OrdMap Prefix Unit
  routes : OrdMap (Ipv6Addr × Prefix) Unit
  suppliers : OrdMap (RouterKey × Prefix) Unit

/-- The keys of a map that satisfy a condition, as a set. -/
def keySet {K V : Type} [OrdKey K] (m : OrdMap K V) (p : K → Bool) : OrdMap K Unit :=
  (m.retain fun k _ => p k).mapValues fun _ _ => ()

/-- A set with or without a key. -/
def put {K : Type} [OrdKey K] (m : OrdMap K Unit) (k : K) (present : Bool) : OrdMap K Unit :=
  if present then (m.remove k).insert k () else m.remove k

/-- Whether an option hints at delegation. -/
def Pio.hints (p : Pio) : Bool :=
  p.flags &&& 0x10 != 0 && decide (0 < p.preferred) && decide (p.preferred ≤ p.valid)

/-- Whether a route of an advertisement is taken. Reference: `router/lifecycle.rs:146`. -/
def takesRoute (r : Router) (p : Prefix) : Bool :=
  p.length == 0 || (p.routable && !r.onLink.contains (.stub, p))

namespace Prospect

/-- The keys before the options. Reference: `router/lifecycle.rs:107`. -/
def start (r : Router) (key : RouterKey) (nd : Nd) : Prospect where
  prefixes := (r.onLink.keys.filter fun k => k.1 == key.1).foldl (fun s k => s.insert k.2 ()) .empty
  hints := keySet r.pdHints fun _ => true
  routes :=
    let routes := keySet r.routes fun _ => true
    if key.1 = .ail then put routes (key.2, defaultPrefix) (decide (0 < u16At nd.body 6))
    else routes
  suppliers := keySet r.suppliers fun k => k.1.1 == key.1

/-- The keys after a prefix option. Reference: `router/lifecycle.rs:124`. -/
def pio (key : RouterKey) (s : Prospect) (p : Pio) : Prospect where
  prefixes := if p.onLink && p.prefix_.routable then put s.prefixes p.prefix_ (decide (0 < p.valid))
    else s.prefixes
  suppliers := if p.suitable then s.suppliers.insert (key, p.prefix_) ()
    else if p.onLink then s.suppliers.remove (key, p.prefix_) else s.suppliers
  hints := if key.1 = .ail then put s.hints p.prefix_ (Pio.hints p) else s.hints
  routes := s.routes

/-- The keys after a route option. Reference: `router/lifecycle.rs:144`. -/
def rio (r : Router) (key : RouterKey) (s : Prospect) (o : Rio) : Prospect :=
  if key.1 = .ail ∧ r.takesRoute o.prefix_ then
    { s with routes := put s.routes (key.2, o.prefix_) (decide (0 < o.lifetime)) }
  else s

/-- The keys after an option. -/
def option (r : Router) (key : RouterKey) (s : Prospect) (o : NdOption) : Prospect :=
  let s := match Pio.decode o.bytes with
    | some p => s.pio key p
    | none => s
  match Rio.decode o.bytes with
  | some o => s.rio r key o
  | none => s

/-- The keys after the advertisement. -/
def of (r : Router) (key : RouterKey) (nd : Nd) : Prospect :=
  nd.options.foldl (option r key) (start r key nd)

end Prospect

/-- What is expired is dropped before an advertisement is considered. Reference:
`router/lifecycle.rs:90`. -/
def reclaim (r : Router) (now : Nat) : Router :=
  let r := (r.reapFailedNeighbors now).reapHeaders now
  { r with
    pdHints := r.pdHints.retain fun _ l => l.live now
    onLink := r.onLink.retain fun _ p => p.valid.live now
    routes := r.routes.retain fun _ r => r.valid.live now
    suppliers := r.suppliers.retain fun _ s => s.live now }

/-- Whether an advertisement exceeds a capacity. Reference: `router/lifecycle.rs:156`. -/
def exceeds (r : Router) (key : RouterKey) (nd : Nd) : Bool :=
  let s := Prospect.of r key nd
  decide (countOn r.headers (fun k => k.1 == key.1) +
    (if r.headers.contains key then 0 else 1) > 32 ∨
    countOn r.neighbors (fun k => k.1 == key.1) + (if r.neighbors.contains key then 0 else 1) >
    256 ∨
    s.prefixes.size > 128 ∨ s.hints.size > 128 ∨ s.routes.size > 128 ∨ s.suppliers.size > 128)

/-- Reference: `Router::admit_ra` (`router/lifecycle.rs:72`). -/
def admitRa (link : Link) (e : Envelope) (nd : Nd) (now : Nat) : Io Unit := do
  update fun r => r.reclaim now
  if (← look).exceeds (link, e.source) nd then
    degrade now
    other "router/prefix/route/neighbor capacity exceeded"

/-! ## Routes -/

/-- One route of an advertisement. Reference: the loop of `Router::observe_routes`
(`router/routes.rs:30`). -/
def observeRoute (source : Ipv6Addr) (now : Nat) (r : Router) (o : NdOption) : Router :=
  match Rio.decode o.bytes with
  | none => r
  | some rio =>
    if r.takesRoute rio.prefix_ then
      let existed := r.routes.contains (source, rio.prefix_)
      let r := { r with routes := r.routes.remove (source, rio.prefix_) }
      let r := if rio.prefix_.length > 0 ∧ rio.lifetime = 0 ∧ existed ∧
          !(r.routes.entries.any fun e => e.1.2 == rio.prefix_ && r.usableRoute e.1.1 e.2 now) then
          { r with withdrawals := r.withdrawals.insert (.stub, rio.prefix_) 3 }
        else r
      if rio.lifetime > 0 then
        { r with
          withdrawals := r.withdrawals.remove (.stub, rio.prefix_)
          routes := r.routes.insert (source, rio.prefix_)
            ⟨.fromSecs now rio.lifetime, rio.preference⟩ }
      else r
    else r

/-- The default route of an advertisement. Reference: `router/routes.rs:18`. -/
def observeDefault (source : Ipv6Addr) (nd : Nd) (now : Nat) (r : Router) : Router :=
  let lifetime := u16At nd.body 6
  let preference := (Preference.decode (octet nd.body 5)).getD .medium
  let routes := r.routes.remove (source, defaultPrefix)
  if lifetime > 0 then
    { r with routes := routes.insert (source, defaultPrefix) ⟨.fromSecs now lifetime, preference⟩ }
  else { r with routes }

/-- Reference: `Router::observe_routes` (`router/routes.rs:8`). -/
def observeRoutes (key : RouterKey) (nd : Nd) (now : Nat) : Io Unit := do
  if key.1 ≠ .ail then pure ()
  else
    update fun r => nd.options.foldl (observeRoute key.2 now) (r.observeDefault key.2 nd now)
    changed .stub now

/-- Whether an exported route is gone. -/
def lostRoute (current : List Rio) (r : Rio) : Bool :=
  decide (0 < r.lifetime) && !current.any fun c => c.prefix_ == r.prefix_ && decide (0 < c.lifetime)

/-- Withdrawals to the stub link of some routes. -/
def withdrawAll (routes : List Rio) (r : Router) : Router :=
  { r with withdrawals := routes.foldl (fun w x => w.insert (.stub, x.prefix_) 3) r.withdrawals }

/-- Reference: `Router::reconcile_exports` (`router/routes.rs:142`). -/
def reconcileExports (prior : List Rio) (now : Nat) : Io Unit := do
  let current := (← look).stubRoutes now
  let lost := prior.filter (lostRoute current)
  update (withdrawAll lost)
  if lost ≠ [] then changed .stub now

/-- Reference: `Router::reap_exports` (`router/budget.rs:9`). -/
def reapExports (r : Router) (now : Nat) : Router :=
  let advertisedRoutes := r.advertisedRoutes.retain fun _ v => v.live now
  { r with
    advertisedRoutes
    withdrawals := r.withdrawals.retain fun k _ => advertisedRoutes.contains k }

/-! ## Packets that are passed on -/

/-- Whether a packet of this address is never forwarded as a source. -/
def notForwarded (a : Ipv6Addr) : Bool :=
  a.isUnspecified || a.isMulticast || a.isLoopback || a.linkLocal

/-- Reference: `Router::icmp_error` (`router/forward.rs:299`). -/
def icmpError (link : Link) (e : Envelope) (kind code : UInt8) (value now : Nat) :
    Io (List Tx) := do
  let r ← look
  if r.errorAfter.any (fun t => now < t) || notForwarded e.source ||
      (e.destination.isMulticast && kind != 2 && !(kind == 4 && code == 2)) then pure []
  else if (match transport e with
      | .ok t => t.protocol == 58 && !t.nonInitial && t.bytes.head?.any fun b => b < 128
      | .error _ => false) then pure []
  else
    match r.owned.entries.find? fun x => x.1.1 == link && x.2.state == .ready &&
      !x.1.2.linkLocal with
    | none => pure []
    | some x =>
      update fun r => { r with errorAfter := some (now + 100) }
      match icmpPacket x.1.2 e.source 64 ([kind, code, 0, 0] ++ toBe 4 value ++
          e.packet.take 1232) with
      | .error _ => pure []
      | .ok packet => pure [⟨link, packet⟩]

/-- Whether a live prefix of the stub link holds an address. -/
def onStub (r : Router) (address : Ipv6Addr) (now : Nat) : Bool :=
  r.onLink.iter.any fun e => e.1.1 == .stub && e.1.2.contains address && e.2.valid.live now

/-- The better of two routes. Reference: `max_by_key` (`router/forward.rs:117`). -/
def betterRoute (r : Router) (now : Nat) (a b : (Ipv6Addr × Prefix) × Route) :
    (Ipv6Addr × Prefix) × Route :=
  let rank (x : (Ipv6Addr × Prefix) × Route) : Nat × Nat × Nat :=
    (x.1.2.length.toNat, if r.reachable (.ail, x.1.1) now then 1 else 0,
      match x.2.preference with | .low => 0 | .medium => 1 | .high => 2)
  if OrdKey.code (rank a) < OrdKey.code (rank b) then b
  else if rank a = rank b ∧ OrdKey.code b.1.1 ≤ OrdKey.code a.1.1 then b
  else a

/-- Reference: `Router::egress_next_hop` (`router/forward.rs:94`). -/
def egressNextHop (r : Router) (egress : Link) (destination : Ipv6Addr) (now : Nat) :
    Option Ipv6Addr :=
  if destination.linkLocal || destination.isMulticast || r.onLink.iter.any (fun e =>
      e.1.1 == egress && e.1.2.contains destination && e.2.valid.live now) then some destination
  else if egress = .stub then some destination
  else
    match r.routes.entries.filter fun e => e.1.2.contains destination &&
        r.usableRoute e.1.1 e.2 now with
    | [] => none
    | e :: es => some (es.foldl (r.betterRoute now) e).1.1

/-- Reference: `Router::lookup` (`router/forward.rs:70`). -/
def lookup (r : Router) (ingress : Link) (destination : Ipv6Addr) (now : Nat) :
    Option (Link × Ipv6Addr) :=
  if r.onStub destination now then (if ingress = .ail then some (.stub, destination) else none)
  else if ingress = .ail then none
  else (r.egressNextHop .ail destination now).map fun a => (.ail, a)

/-- Reference: `Router::queue_neighbor` (`router/forward.rs:236`). -/
def queueNeighbor (key : RouterKey) (pending : Pending) (now : Nat) : Io (List Tx) := do
  let r ← look
  if (!r.neighbors.contains key && countOn r.neighbors (fun k => k.1 == key.1) ≥ 256) ||
      ((r.neighbors.get key).all (fun n => n.pending.isNone) &&
        (r.neighbors.values.filter fun n => n.pending.isSome).length ≥ 64) then pure []
  else
    let n := (r.neighbors.get key).getD ⟨none, .incomplete, none, 0, false, none⟩
    update fun r => { r with
      neighbors := r.neighbors.insert key { n with
        pending := some pending
        deadline := if n.probesSent = 0 then some now else n.deadline } }
    if n.probesSent = 0 ∧ r.linkReady key.1 then
      let tx ← probe key now
      pure [tx]
    else pure []

/-- Reference: `Router::forward` (`router/forward.rs:157`). -/
def forward (link : Link) (e : Envelope) (now : Nat) : Io (List Tx) := do
  let r ← look
  if (r.lifecycle == .starting || r.lifecycle.withdrawing) || !r.links.ail.up || !r.links.stub.up ||
      notForwarded e.source || notForwarded e.destination then pure []
  else if link = .stub ∧ r.onStub e.destination now then pure []
  else
    match r.lookup link e.destination now with
    | none => icmpError link e 1 0 0 now
    | some (egress, next) =>
      if e.hopLimit ≤ 1 then icmpError link e 3 0 0 now
      else if e.packet.length > (r.links.get egress).mtu then
        icmpError link e 2 0 (r.links.get egress).mtu now
      else
        update fun r => r.reapFailedNeighbors now
        let r ← look
        let key : RouterKey := (egress, next)
        if (r.links.get egress).kind = .ethernet ∧
            (r.neighbors.get key).all (fun n => n.mac.isNone || n.state == .failed) then
          if (r.neighbors.get key).any fun n => n.state == .failed then icmpError link e 1 3 0 now
          else queueNeighbor key (.transit ⟨link, e.packet⟩) now
        else
          updateNeighbor key fun n =>
            if n.state = .stale then
              { n with state := .delay, deadline := some (now + 5000), probesSent := 0 }
            else n
          pure [⟨egress, e.packet.set 7 (e.hopLimit - 1)⟩]

/-! ## Neighbor messages -/

/-- The hardware address that a message carries. Reference: `router/nd.rs:75`. -/
def messageMac (nd : Nd) (kind : UInt8) : Option Bytes :=
  (nd.options.find? fun o => o.kind == kind && o.bytes.length == 8).map fun o => o.bytes.drop 2

/-- A neighbor after an advertisement of a router. Reference: `router/nd.rs:81`. -/
def seenRouter (mac : Option Bytes) (n : Neighbor) : Neighbor :=
  let n := { n with isRouter := true }
  let n := if mac.isSome ∧ n.mac ≠ mac then { n with mac, state := .stale } else n
  if n.state = .stale ∨ n.state = .failed then { n with probesSent := 0 } else n

/-- A neighbor after an advertisement of its address, and whether more is to be done. Reference:
`router/nd.rs:109`. -/
def seenNeighbor (raw : Bool) (mac : Option Bytes) (flags : UInt8) (now : Nat) (n : Neighbor) :
    Neighbor × Bool :=
  let differs := mac.isSome && n.mac.isSome && mac != n.mac
  if differs && flags &&& 0x20 == 0 then
    (if n.state = .reachable then { n with state := .stale } else n, false)
  else
    let n := if mac.isSome then { n with mac } else n
    let n := if flags &&& 0x40 != 0 && (n.mac.isSome || raw) then
        { n with state := .reachable, deadline := some (now + 60000), probesSent := 0 }
      else if differs then { n with state := .stale } else n
    ({ n with isRouter := flags &&& 0x80 != 0 }, true)

/-- Reference: the part of `Router::observe_neighbor` for advertisements of routers
(`router/nd.rs:80`). -/
def observeRouter (link : Link) (e : Envelope) (nd : Nd) (now : Nat) : Io (List Tx) := do
  let key : RouterKey := (link, e.source)
  let r ← look
  let n := seenRouter (messageMac nd 1)
    ((r.neighbors.get key).getD ⟨none, .stale, none, 0, true, none⟩)
  update fun r => { r with neighbors := r.neighbors.insert key n }
  if n.state = .stale ∨ n.state = .failed then
    if r.linkReady link then
      let tx ← probe key now
      pure [tx]
    else
      updateNeighbor key fun n => { n with deadline := some now }
      pure []
  else pure []

/-- What waits for a neighbor that is reachable now. Reference: `router/nd.rs:135`. -/
def flushPending (key : RouterKey) (now : Nat) : Io (List Tx) := do
  let r ← look
  if r.reachable key now then
    match (r.neighbors.get key).bind fun n => n.pending with
    | none => pure []
    | some pending =>
      updateNeighbor key fun n => { n with pending := none }
      match pending with
      | .output tx => pure [tx]
      | .transit tx =>
        match envelope .rawIpv6 tx.packet with
        | .ok e => forward tx.link e now
        | .error _ => pure []
  else pure []

/-- Reference: `Router::observe_neighbor` (`router/nd.rs:64`). -/
def observeNeighbor (link : Link) (e : Envelope) (nd : Nd) (now : Nat) : Io (List Tx) := do
  if nd.kind = 134 then observeRouter link e nd now
  else if nd.kind = 136 then
    let key : RouterKey := (link, targetOf nd)
    let r ← look
    match r.neighbors.get key with
    | none => flushPending key now
    | some n =>
      let (n, more) := seenNeighbor ((r.links.get link).kind == .rawIpv6) (messageMac nd 2)
        (octet nd.body 4) now n
      update fun r => { r with neighbors := r.neighbors.insert key n }
      if more then flushPending key now else pure []
  else pure []

/-! ## The router's own addresses -/

/-- Reference: `Router::begin_dad` (`router/owned.rs:47`). -/
def beginDad (link : Link) (address : Ipv6Addr) (now : Nat) : Io Tx := do
  if address.linkLocal then
    updateLink link fun s => { s with
      rsCount := 0, rsNext := satAdd now 1000, discoveryEnd := u64Max }
  update fun r => { r with owned := r.owned.insert (link, address) {
    probeSent := true
    prefix_ := if address.linkLocal then none else Prefix.new address 64
    state := .tentative
    deadline := some (now + 1000)
    attempts := 1 } }
  match icmpPacket .unspecified address.solicitedNode 255
    ([135, 0, 0, 0, 0, 0, 0, 0] ++ address.1) with
  | .ok packet => pure ⟨link, packet⟩
  | .error _ => other "DAD encoding"

/-- The neighbors after a solicitation of one of them. Reference: `router/owned.rs:181`. -/
def noteSolicitor (r : Router) (key : RouterKey) (mac : Option Bytes) : Router :=
  { r with neighbors := r.neighbors.insert key (match r.neighbors.get key with
      | some n =>
        if mac.isSome ∧ (n.mac ≠ mac ∨ n.state = .failed) then
          { n with mac, state := .stale, deadline := none, probesSent := 0 }
        else n
      | none => ⟨mac, .stale, none, 0, false, none⟩) }

/-- The answer to a solicitation of an address. Reference: `router/owned.rs:205`. -/
def neighborAnswer (r : Router) (link : Link) (target destination : Ipv6Addr)
    (dad : Bool) : Bytes :=
  let b := [136, 0, 0, 0, if dad then 0xa0 else 0xe0, 0, 0, 0] ++ target.1 ++ r.macOption link 2
  match icmpPacket target destination 255 b with
  | .ok packet => packet
  | .error _ => []

/-! ## Links -/

/-- What is forgotten of a link that comes up. Reference: `router/restart.rs:39`. -/
def forgetLink (link : Link) (r : Router) : Router :=
  { r with
    headers := r.headers.retain fun k _ => k.1 != link
    neighbors := r.neighbors.retain fun k _ => k.1 != link
    suppliers := r.suppliers.retain fun k _ => k.1.1 != link }

/-- The withdrawals when the stub link comes up or goes down. Reference: `router/restart.rs:51`. -/
def flapStub (up : Bool) (now : Nat) (r : Router) : Router :=
  { r with
    withdrawals := r.onLink.iter.foldl (fun w e =>
      if e.1.1 = .stub ∧ e.2.valid.live now then
        (if up then w.remove (.ail, e.1.2) else w.insert (.ail, e.1.2) 3)
      else w) r.withdrawals }

/-- Reference: `Router::set_link` (`router/restart.rs:4`). -/
def setLink (link : Link) (up : Bool) (now : Nat) : Io Unit := do
  let r ← look
  if up && r.owned.entries.any (fun x => x.1.1 == link && x.2.state == .failed) then pure ()
  else if (r.links.get link).up = up then pure ()
  else
    let prior := r.stubRoutes now
    updateLink link fun s => { s with up }
    update fun r => { r with nat64 := r.nat64.linkLost link }
    if link = .ail ∧ (r.lifecycle = .running ∨ r.lifecycle = .ailUnavailable) then
      update fun r => { r with lifecycle := if up then .running else .ailUnavailable }
    if r.lifecycle = .stopping ∧ !up then
      update fun r => { r with finalRas := r.finalRas.set link 0 }
    if up then
      update (forgetLink link)
      updateLink link fun s => { s with state := .unknown, rsCount := 0 }
      let x ← sample 1000
      updateLink link fun s => { s with rsNext := now + x, discoveryEnd := u64Max }
    if link = .stub then
      update (flapStub up now)
      changed .ail now
    if link = .ail then
      if !up then update (withdrawAll (prior.filter fun x => decide (0 < x.lifetime)))
      update fun r => { r with routes := .empty }
      changed .stub now
      if up then
        update fun r => { r with attachment := { r.attachment with
          discovering := true, observed := .empty } }
        PdClient.refresh 6 now

/-! ## Messages about the router's own addresses -/

/-- Reference: `Router::owned_nd` (`router/owned.rs:121`). -/
def ownedNd (link : Link) (e : Envelope) (nd : Nd) (now : Nat) : Io (Option (List Tx)) := do
  if nd.kind ≠ 135 ∧ nd.kind ≠ 136 then pure none
  else
    let target := targetOf nd
    let r ← look
    match r.owned.get (link, target) with
    | none => pure none
    | some own =>
      if own.state = .tentative then
        if own.attempts ≥ 3 then
          update fun r => { r with owned := r.owned.insert (link, target) { own with
            state := .failed
            deadline := none } }
          setLink link false now
          other "DAD conflict after three identities"
        else
          update fun r => { r with owned := r.owned.remove (link, target) }
          let bytes ← fill 8
          let iid := max (ofBe bytes &&& 0xfdffffffffffffff) 1
          if own.prefix_.isNone then
            update fun r => { r with identity := { r.identity with
              iids := r.identity.iids.set link iid } }
          let network := match own.prefix_ with
            | some p => p.address.value
            | none => 0xfe80 <<< 112
          let address : Ipv6Addr := .ofValue (network ||| iid)
          let tx ← beginDad link address now
          update fun r => { r with owned := r.owned.modify (link, address) fun a =>
            { a with attempts := own.attempts + 1 } }
          pure (some [tx])
      else if own.state ≠ .ready ∨ nd.kind ≠ 135 then pure (some [])
      else if e.source.isUnspecified then
        let r ← look
        pure (some [⟨link, r.neighborAnswer link target allNodes true⟩])
      else
        let key : RouterKey := (link, e.source)
        if !r.neighbors.contains key && countOn r.neighbors (fun k => k.1 == link) ≥ 256 then
          degrade now
          other "neighbor capacity exceeded"
        else
          update fun r => (r.reapFailedNeighbors now).noteSolicitor key (messageMac nd 1)
          let r ← look
          pure (some [⟨link, r.neighborAnswer link target e.source false⟩])

/-! ## Advertisements -/

/-- Reference: `Attachment::observe` (`router/attachment.rs:22`). -/
def Attachment.observe (a : Attachment) (identity : Bytes) : Except IoError Attachment :=
  if identity = [] ∨ identity.length > 128 then
    .error ⟨.other, "attachment identity must contain 1..128 bytes"⟩
  else if a.observed.size < 32 then .ok { a with observed := a.observed.insert identity () }
  else .ok a

/-- The hint at delegation of a prefix option. Reference: `router/mod.rs:303`. -/
def observeHint (p : Pio) (now : Nat) : Io Unit := do
  let had := (← look).pdHints.contains p.prefix_
  update fun r => { r with
    pdHints := if Pio.hints p then r.pdHints.insert p.prefix_ (.fromSecs now p.preferred)
      else r.pdHints.remove p.prefix_ }
  let r ← look
  if had ≠ Pio.hints p ∧ r.pdHints.size ≠ 0 ∧
      r.pd.exchange.all (fun e => decide (now - e.started ≥ 1000)) then PdClient.refresh 6 now

/-- A prefix that is on link. Reference: `router/mod.rs:326`. -/
def observeOnLink (link : Link) (p : Pio) (now : Nat) : Io Unit := do
  if link = .ail ∧ p.valid > 0 then
    update fun r => { r with withdrawals := r.withdrawals.remove (.stub, p.prefix_) }
  if link = .stub ∧ !(← look).onLink.contains (link, p.prefix_) ∧ p.valid > 0 then changed .ail now
  update fun r => { r with
    onLink := if p.valid = 0 then r.onLink.remove (link, p.prefix_)
      else r.onLink.insert (link, p.prefix_) ⟨.fromSecs now p.valid, .fromSecs now p.preferred⟩ }

/-- Whether an own prefix yields to another. Reference: `router/mod.rs:354`. -/
def yieldsTo (r : Router) (link : Link) (flags : UInt8) (p : Prefix) : Bool :=
  let own := r.identity.prefix_ link
  r.state link == .advertising && p != own &&
    (link == .ail && flags &&& 2 == 0 ||
      own.ula && (!p.ula || decide (OrdKey.code p < OrdKey.code own)) ||
      link == .stub && !own.ula && !p.ula && decide (OrdKey.code p < OrdKey.code own))

/-- A prefix that another router supplies. Reference: `router/mod.rs:351`. -/
def observeSupplier (key : RouterKey) (flags : UInt8) (p : Pio) (now : Nat) : Io Unit := do
  let link := key.1
  if (← look).yieldsTo link flags p.prefix_ then
    updateLink link fun s => { s with state := .deprecating, deprecateAt := some now }
    changed link now
  update fun r => { r with
    suppliers := r.suppliers.insert (key, p.prefix_)
      ⟨p.flags &&& 0x40 != 0, now, .fromSecs now p.preferred, .fromSecs now p.valid⟩ }
  if (← look).state link = .unknown then
    updateLink link fun s => { s with state := .suitable }
    if (← look).linkReady link then enable link now

/-- One option of an advertisement. Reference: the loop of `Router::receive`
(`router/mod.rs:301`). -/
def observeOption (key : RouterKey) (flags : UInt8) (now : Nat) (o : NdOption) : Io Unit := do
  match Pio.decode o.bytes with
  | none => pure ()
  | some p =>
    if key.1 = .ail then observeHint p now
    if p.onLink && p.prefix_.routable then observeOnLink key.1 p now
    if p.suitable then observeSupplier key flags p now
    else if p.onLink then
      update fun r => { r with suppliers := r.suppliers.remove (key, p.prefix_) }

/-- The header of an advertisement. Reference: `router/mod.rs:286`. -/
def headerOf (link : Link) (nd : Nd) (now : Nat) : Header :=
  let flags := octet nd.body 5
  let life := u16At nd.body 6
  { lastRaAt := now
    snac := flags &&& 2 != 0
    mo := if link = .ail ∧ flags &&& 2 = 0 then flags &&& 0xc0 else 0
    headerLifetime := if life = 0 then none else some (.fromSecs now life) }

/-- What an advertisement changes before its routes and prefixes. Reference:
`router/mod.rs:267`. -/
def observeEvidence (link : Link) (e : Envelope) (nd : Nd) (now : Nat) : Io Unit := do
  let r ← look
  if e.destination = allNodes ∨ r.addressReady link e.destination then
    update fun r => { r with nat64 := (r.nat64.receive link e.packet now).2 }
  if link = .ail ∧ r.attachment.discovering then
    let attachment ← Act.lift (r.attachment.observe e.source.1)
    update fun r => { r with attachment }
  if u16At nd.body 6 > 0 then
    updateLink link fun s => { s with
      rsCount := 3
      discoveryEnd := if s.discoveryEnd = u64Max then satAdd now 9000 else s.discoveryEnd }

/-- An advertisement. Reference: `router/mod.rs:263`. -/
def receiveRa (link : Link) (e : Envelope) (nd : Nd) (now : Nat) : Io Unit := do
  let key : RouterKey := (link, e.source)
  admitRa link e nd now
  observeEvidence link e nd now
  observeRoutes key nd now
  update fun r => { r with headers := r.headers.insert key (headerOf link nd now) }
  nd.options.forM (observeOption key (octet nd.body 5) now)
  syncPd now

/-- A solicitation of routers. Reference: `router/mod.rs:248`. -/
def receiveSolicitation (link : Link) (nd : Nd) (now : Nat) : Io Unit := do
  let r ← look
  if (r.state link = .suitable ∨ r.state link = .deprecating) ∧ !r.confirmedSupplier link now then
    updateLink link fun s => { s with state := .beginAdvertising, deprecateAt := none }
    changed link now
  receiveRs link nd now

/-- A message of a neighbor. Reference: the end of `Router::receive` (`router/mod.rs:241`). -/
def receiveNd (link : Link) (e : Envelope) (nd : Nd) (now : Nat) : Io (List Tx) := do
  let r ← look
  let priorExports := r.stubRoutes now
  let priorDefault := r.defaultLifetime now
  match (← ownedNd link e nd now) with
  | some out => pure out
  | none =>
    if nd.kind = 133 then receiveSolicitation link nd now
    if nd.kind = 134 then receiveRa link e nd now
    let out ← observeNeighbor link e nd now
    reconcileExports priorExports now
    if priorDefault ≠ (← look).defaultLifetime now then changed .stub now
    update fun r => r.reapExports now
    pure out

/-- Whether a packet is an answer to the client for delegated prefixes. Reference:
`router/mod.rs:183`. -/
def isDhcpReply (r : Router) (link : Link) (e : Envelope) : Bool :=
  link == .ail && e.destination == r.identity.linkLocal link &&
    r.addressReady link e.destination &&
    match transport e with
    | .ok t => t.protocol == 17 && !t.fragmented && decide (8 ≤ t.bytes.length) &&
        t.bytes.take 4 == [2, 35, 2, 34]
    | .error _ => false

/-- Whether a prefix may be delegated. Reference: `router/mod.rs:193`. -/
def delegable (r : Router) (now : Nat) (p : Prefix) : Bool :=
  let excluded := ((r.onLink.iter.filter fun e => e.1.1 == .ail && e.2.valid.live now).map
    fun e => e.1.2) ++ [r.identity.prefix_ .ail]
  !excluded.any fun x => x.contains (stubPrefix p).address || (stubPrefix p).contains x.address

/-- An answer to the client for delegated prefixes. Reference: `router/mod.rs:192`. -/
def receiveDhcp (link : Link) (e : Envelope) (now : Nat) : Io (List Tx) := fun w =>
  let r := w.router
  match PdClient.receiveWithPolicy e r.identity.duid.1 now (r.delegable now) w with
  | (.error err, w) => (do degrade now; Act.fail err) w
  | (.ok (), w) => (do
      syncPd now
      let r ← look
      let out ← PdClient.poll now (r.identity.linkLocal link) r.identity.duid.1
      pure (out.map (Tx.mk link))) w

/-- The answer to an echo request. Reference: `router/mod.rs:217`. -/
def echoReply (r : Router) (link : Link) (e : Envelope) (now : Nat) : Option Tx :=
  if r.addressReady link e.destination then
    match transport e with
    | .error _ => none
    | .ok t =>
      if t.protocol = 58 ∧ !t.fragmented ∧ 8 ≤ t.bytes.length ∧ t.bytes.take 2 = [128, 0] ∧
          !e.source.isUnspecified ∧ !e.source.isMulticast ∧ !e.source.isLoopback ∧
          r.errorAfter.all (fun t => decide (t ≤ now)) ∧
          checksum6 e.source e.destination 58 t.bytes = 0 then
        match icmpPacket e.destination e.source 64 (t.bytes.set 0 129) with
        | .ok packet => some ⟨link, packet⟩
        | .error _ => none
      else none
  else none

/-- Reference: `Router::receive` (`router/mod.rs:163`). -/
def receive (link : Link) (packet : Bytes) (now : Nat) : Io (List Tx) := do
  let r ← look
  if r.lifecycle.ending || !(r.links.get link).up then pure []
  else
    match envelope .rawIpv6 packet with
    | .error _ => pure []
    | .ok e =>
      if e.source = r.identity.linkLocal link ∧ r.addressReady link e.source then pure []
      else if r.isDhcpReply link e then receiveDhcp link e now
      else
        match r.echoReply link e now with
        | some tx =>
          update fun r => { r with errorAfter := some (satAdd now 100) }
          pure [tx]
        | none =>
          if !e.destination.isMulticast && !r.owned.contains (link, e.destination) then pure []
          else
            match decodeNd e with
            | .error _ => pure []
            | .ok nd => receiveNd link e nd now

/-! ## Frames -/

/-- Reference: `Selector::blocked` (`nat64/selection.rs:151`). -/
def blocksTo (s : Selector) (destination : Ipv6Addr) : Bool :=
  !s.policy.enabled &&
    (s.local_.contains destination || s.blocked.keys.any fun p => p.contains destination)

/-- Reference: `AilFrames::push` (`io/families.rs:28`). -/
def AilFrames.push (f : AilFrames) (frame : Bytes) : AilFrames :=
  if f.frames.length ≥ 64 ∨ frame.length > 65535 ∨ f.bytes + frame.length > 65535 then f
  else ⟨f.frames ++ [frame], f.bytes + frame.length⟩

/-- Whether a frame is of another family that is kept. Reference: `ethernet_family`
(`io/families.rs:9`). -/
def otherFamily (frame : Bytes) : Bool :=
  decide (14 ≤ frame.length) && (u16At frame 12 == 0x0800 || u16At frame 12 == 0x0806)

/-- Whether a frame of another family is taken in. Reference: `router/forward.rs:21`. -/
def takesFrame (r : Router) (link : Link) (frame : Bytes) : Bool :=
  link == .ail && r.links.ail.up && !r.lifecycle.ending &&
    (frame.drop 6).take 6 != (r.macOf link).1 &&
    (octet frame 0 &&& 1 != 0 || frame.take 6 == (r.macOf link).1)

/-- Whether a frame is the router's own or of another station. Reference:
`router/forward.rs:37`. -/
def foreign (r : Router) (link : Link) (kind : FrameKind) (frame : Bytes) : Bool :=
  kind == .ethernet && ((frame.drop 6).take 6 == (r.macOf link).1 ||
    (octet frame 0 &&& 1 == 0 && frame.take 6 != (r.macOf link).1))

/-- Whether a packet is for the router itself. Reference: `router/forward.rs:61`. -/
def forRouter (r : Router) (link : Link) (e : Envelope) (t : Transport) : Bool :=
  (t.protocol == 58 && !t.nonInitial && t.bytes.head?.any fun v => 133 ≤ v && v ≤ 136) ||
    r.owned.contains (link, e.destination) || e.destination.isMulticast

/-- Reference: `Router::receive_frame` (`router/forward.rs:3`). -/
def receiveFrame (link : Link) (kind : FrameKind) (frame : Bytes) (now : Nat) : Io (List Tx) := do
  let r ← look
  if kind = .ethernet ∧ otherFamily frame then
    if r.takesFrame link frame then
      update fun r => { r with ailFrames := r.ailFrames.push frame }
    pure []
  else
    match envelope kind frame with
    | .error _ => pure []
    | .ok e =>
      if r.foreign link kind frame then pure []
      else
        match hopOptions e with
        | .error _ => pure []
        | .ok (some pointer) =>
          if r.lifecycle = .running ∨ r.lifecycle = .ailUnavailable then
            icmpError link e 4 2 pointer now
          else pure []
        | .ok none =>
          match transport e with
          | .error _ => pure []
          | .ok t =>
            if r.forRouter link e t then receive link e.packet now
            else if blocksTo r.nat64 e.destination then pure []
            else forward link e now

/-- Reference: `Router::resolve_output` (`router/forward.rs:273`). -/
def resolveOutput (tx : Tx) (now : Nat) : Io (List Tx) := do
  update fun r => r.reapFailedNeighbors now
  let r ← look
  match envelope .rawIpv6 tx.packet with
  | .error _ => pure []
  | .ok e =>
    if (r.links.get tx.link).kind = .rawIpv6 ∨ e.destination.isMulticast then pure [tx]
    else
      match r.egressNextHop tx.link e.destination now with
      | none => pure []
      | some next =>
        if (r.neighbors.get (tx.link, next)).any fun n => n.mac.isSome && n.state != .failed then
          pure [tx]
        else queueNeighbor (tx.link, next) (.output tx) now

end SnacMachine.Router
