import SnacMachine.Ip.Dhcp
import SnacMachine.Lib.Act

/-!
# The state of the router

The records of `router/`, and what is read of them without changing them: which addresses are
ready, which routes can be used, and what is exported to the stub link.
-/

namespace SnacMachine.Router

open Ip Nat64

/-- One value for each link, as the source's arrays of two. -/
structure Both (T : Type) where
  ail : T
  stub : T

namespace Both

variable {T : Type}

def get (b : Both T) : Link → T
  | .ail => b.ail
  | .stub => b.stub

def set (b : Both T) : Link → T → Both T
  | .ail, x => { b with ail := x }
  | .stub, x => { b with stub := x }

/-- What is set for a link is got for it. -/
@[simp] theorem get_set_self (b : Both T) (l : Link) (x : T) : (b.set l x).get l = x := by
  cases l <;> rfl

/-- What is got for the other link stays. -/
theorem get_set_ne (b : Both T) {l l' : Link} (x : T) (h : l' ≠ l) :
    (b.set l x).get l' = b.get l' := by
  cases l <;> cases l' <;> first | rfl | exact absurd rfl h

end Both

/-! ## Lifetimes -/

/-- Reference: `Lifetime` (`time.rs:14`). -/
inductive Lifetime
  | until_ (t : Nat)
  | infinite
  deriving DecidableEq

namespace Lifetime

/-- Reference: `Lifetime::from_secs` (`time.rs:19`). -/
def fromSecs (now seconds : Nat) : Lifetime :=
  if seconds = 2 ^ 32 - 1 then .infinite else .until_ (satAdd now (seconds * 1000))

/-- Reference: `Lifetime::remaining` (`time.rs:26`). -/
def remaining (l : Lifetime) (now : Nat) : Nat :=
  match l with
  | .infinite => 2 ^ 32 - 1
  | .until_ t => min ((t - now) / 1000) (2 ^ 32 - 1)

/-- Reference: `Lifetime::live` (`time.rs:32`). -/
def live (l : Lifetime) (now : Nat) : Bool :=
  match l with
  | .infinite => true
  | .until_ t => t > now

/-- Lifetimes in order, the infinite one last. -/
def le : Lifetime → Lifetime → Bool
  | _, .infinite => true
  | .infinite, .until_ _ => false
  | .until_ a, .until_ b => a ≤ b

/-- Reference: `deadline` (`router/services.rs:262`). -/
def deadline : Lifetime → Nat
  | .until_ t => t
  | .infinite => u64Max

end Lifetime

/-! ## Records -/

/-- Reference: `Identity` (`persist.rs:101`). -/
structure Identity where
  attachment : String
  site : Prefix
  iids : Both Nat
  macs : Both (Octets 6)
  duid : Octets 18

namespace Identity

/-- Reference: `Identity::prefix` (`persist.rs:156`). -/
def prefix_ (i : Identity) (link : Link) : Prefix :=
  let index := match link with | .ail => 0 | .stub => 1
  ⟨.ofValue ((i.site.address.value ||| (index + 1) <<< 64) / 2 ^ 64 * 2 ^ 64), 64⟩

/-- Reference: `Identity::address` (`persist.rs:163`). -/
def address (i : Identity) (link : Link) (p : Prefix) : Ipv6Addr :=
  .ofValue (p.address.value ||| i.iids.get link)

/-- Reference: `Identity::link_local` (`persist.rs:166`). -/
def linkLocal (i : Identity) (link : Link) : Ipv6Addr :=
  .ofValue (0xfe80 <<< 112 ||| i.iids.get link)

end Identity

/-- Reference: `RaScheduler` (`scheduler.rs:4`). -/
structure RaScheduler where
  next : Nat
  last : Option Nat
  burst : Nat
  response : Option Nat

namespace RaScheduler

/-- Reference: `RaScheduler::deadline` (`scheduler.rs:25`). -/
def deadline (s : RaScheduler) : Nat :=
  match s.response with
  | some t => min t s.next
  | none => s.next

/-- Reference: `RaScheduler::due` (`scheduler.rs:28`). -/
def due (s : RaScheduler) (now : Nat) : Bool := s.deadline ≤ now

/-- Reference: `RaScheduler::spaced` (`scheduler.rs:31`). -/
def spaced (s : RaScheduler) (t : Nat) : Nat :=
  match s.last with
  | some last => max t (last + 3000)
  | none => t

end RaScheduler

/-- Reference: `AilState` (`router/mod.rs:24`). -/
inductive AilState
  | unknown | suitable | beginAdvertising | advertising | deprecating
  deriving DecidableEq

/-- Reference: `Tx` (`router/mod.rs:32`). -/
structure Tx where
  link : Link
  packet : Bytes
  deriving DecidableEq

/-- Reference: `RouterKey` (`router/mod.rs:37`). -/
abbrev RouterKey := Link × Ipv6Addr

/-- Reference: `Supplier` (`router/mod.rs:42`). -/
structure Supplier where
  autonomous : Bool
  pioAt : Nat
  preferred : Lifetime
  valid : Lifetime

/-- Reference: `LinkState` (`router/mod.rs:48`). -/
structure LinkState where
  mac : Option (Octets 6)
  mtu : Nat
  kind : FrameKind
  up : Bool
  state : AilState
  scheduler : RaScheduler
  rsCount : Nat
  rsNext : Nat
  discoveryEnd : Nat
  lastValid : Lifetime
  deprecateAt : Option Int

/-- Reference: `Header` (`router/mod.rs:62`). -/
structure Header where
  lastRaAt : Nat
  snac : Bool
  mo : UInt8
  headerLifetime : Option Lifetime

/-- Reference: `NeighborState` (`router/nd.rs:3`). -/
inductive NeighborState
  | incomplete | reachable | stale | delay | probe | failed
  deriving DecidableEq

/-- Reference: `Pending` (`router/nd.rs:12`). -/
inductive Pending
  | transit (tx : Tx)
  | output (tx : Tx)

/-- Reference: `Neighbor` (`router/nd.rs:17`). -/
structure Neighbor where
  mac : Option Bytes
  state : NeighborState
  deadline : Option Nat
  probesSent : Nat
  isRouter : Bool
  pending : Option Pending

/-- Reference: `DadState` (`router/owned.rs:4`). -/
inductive DadState
  | tentative | ready | failed
  deriving DecidableEq

/-- Reference: `OwnedAddress` (`router/owned.rs:10`). -/
structure OwnedAddress where
  probeSent : Bool
  prefix_ : Option Prefix
  state : DadState
  deadline : Option Nat
  attempts : Nat

/-- Reference: `Route` (`router/routes.rs:3`). -/
structure Route where
  valid : Lifetime
  preference : Preference

/-- Reference: `Lifecycle` (`router/lifecycle.rs:3`). -/
inductive Lifecycle
  | starting | running | ailUnavailable | degraded | stopping | stopped
  deriving DecidableEq

/-- Reference: `UlaPolicy` (`router/attachment.rs:7`). -/
inductive UlaPolicy
  | rotate | fixed
  deriving DecidableEq

/-- Reference: `Attachment` (`router/attachment.rs:13`). -/
structure Attachment where
  policy : UlaPolicy
  known : OrdMap Bytes Unit
  observed : OrdMap Bytes Unit
  discovering : Bool

/-! ## Prefixes on link -/

/-- Reference: `OnLink` (`router/on_link.rs:5`). -/
structure OnLink where
  valid : Lifetime
  preferred : Lifetime

/-- Reference: `OnLinkTable` (`router/on_link.rs:10`). -/
structure OnLinkTable where
  ail : OrdMap (Link × Prefix) Lifetime
  stub : OrdMap (Link × Prefix) OnLink

namespace OnLinkTable

/-- What is kept of a prefix of the infrastructure link. -/
def ofAil (valid : Lifetime) : OnLink := ⟨valid, .until_ 0⟩

/-- Reference: `OnLinkTable::iter` (`router/on_link.rs:15`). -/
def iter (t : OnLinkTable) : List ((Link × Prefix) × OnLink) :=
  (t.ail.entries.map fun e => (e.1, ofAil e.2)) ++ t.stub.entries

/-- Reference: `OnLinkTable::keys` (`router/on_link.rs:29`). -/
def keys (t : OnLinkTable) : List (Link × Prefix) := t.ail.keys ++ t.stub.keys

/-- Reference: `OnLinkTable::get` (`router/on_link.rs:38`). -/
def get (t : OnLinkTable) (k : Link × Prefix) : Option OnLink :=
  if k.1 = .ail then (t.ail.get k).map ofAil else t.stub.get k

/-- Reference: `OnLinkTable::contains_key` (`router/on_link.rs:48`). -/
def contains (t : OnLinkTable) (k : Link × Prefix) : Bool := (t.get k).isSome

/-- Reference: `OnLinkTable::insert` (`router/on_link.rs:51`). -/
def insert (t : OnLinkTable) (k : Link × Prefix) (v : OnLink) : OnLinkTable :=
  if k.1 = .ail then { t with ail := t.ail.insert k v.valid }
  else { t with stub := t.stub.insert k v }

/-- Reference: `OnLinkTable::remove` (`router/on_link.rs:58`). -/
def remove (t : OnLinkTable) (k : Link × Prefix) : OnLinkTable :=
  if k.1 = .ail then { t with ail := t.ail.remove k } else { t with stub := t.stub.remove k }

/-- Reference: `OnLinkTable::retain` (`router/on_link.rs:65`). -/
def retain (t : OnLinkTable) (f : Link × Prefix → OnLink → Bool) : OnLinkTable :=
  ⟨t.ail.retain fun k v => f k (ofAil v), t.stub.retain f⟩

end OnLinkTable

/-! ## Delegated prefixes -/

/-- Reference: `PdState` (`router/pd.rs:11`). -/
inductive PdState
  | dormant | soliciting | requesting | bound | renewing | rebinding
  deriving DecidableEq

/-- Reference: `Offer` (`router/pd.rs:5`). -/
structure Offer where
  server : Bytes
  preference : UInt8
  delegations : List Dhcp.Delegation

/-- Reference: `Exchange` (`router/pd.rs:20`). -/
structure Exchange where
  kind : UInt8
  xid : Bytes
  started : Nat
  next : Nat
  interval : Nat
  count : Nat
  server : Bytes

/-- Reference: `LeaseKey` (`router/pd.rs:292`). -/
abbrev LeaseKey := Nat × Prefix

/-- Reference: `Lease` (`router/pd.rs:301`), with the fields of its `Association`. -/
structure Lease where
  server : Bytes
  t1 : Lifetime
  t2 : Lifetime
  preferred : Lifetime
  valid : Lifetime
  used : Bool

/-- Reference: `Release` (`router/pd.rs:314`). -/
structure Release where
  exchange : Exchange
  prefixes : List Dhcp.Delegation

/-- Reference: `OwnedPrefix` (`router/pd.rs:319`). -/
structure OwnedPrefix where
  lease : LeaseKey
  deprecateAt : Option Int
  lastValid : Lifetime

/-- Reference: `PdClient` (`router/pd.rs:30`). -/
structure PdClient where
  solMaxRtSeen : Option (Option Nat)
  reservedXid : Option Bytes
  refreshAfter : Nat
  fallbackAt : Option Nat
  leases : OrdMap LeaseKey Lease
  releases : List Release
  offers : List Offer
  requested : List Dhcp.Delegation
  state : PdState
  exchange : Option Exchange
  solMaxRt : Nat

/-- Reference: `PdClient::default` (`router/pd.rs:43`). -/
def PdClient.default : PdClient :=
  ⟨none, none, 0, none, .empty, [], [], [], .dormant, none, 3600000⟩

/-- Reference: `Services` (`router/services.rs:5`). -/
structure Services where
  resolvers : List Ipv6Addr
  dnsHistory : OrdMap Ipv6Addr (Lifetime × Nat)
  ipv4 : Option Nat
  translator : Bool

/-- Reference: `AilFrames` (`io/families.rs:22`). -/
structure AilFrames where
  frames : List Bytes
  bytes : Nat

end Router

/-- Reference: `Router` (`router/mod.rs:68`). -/
structure Router where
  services : Router.Services
  nat64 : Nat64.Selector
  ailFrames : Router.AilFrames
  attachment : Router.Attachment
  retiredUlas : OrdMap (Nat64.Link × Prefix) Router.Lifetime
  lifecycle : Router.Lifecycle
  finalRas : Router.Both Nat
  errorAfter : Option Nat
  pdHints : OrdMap Prefix Router.Lifetime
  pd : Router.PdClient
  pdPrefixes : OrdMap Prefix Router.OwnedPrefix
  withdrawals : OrdMap (Nat64.Link × Prefix) Nat
  advertisedRoutes : OrdMap (Nat64.Link × Prefix) Router.Lifetime
  routes : OrdMap (Ipv6Addr × Prefix) Router.Route
  noStubDefault : Bool
  alwaysAdvertiseAilRoutes : Bool
  owned : OrdMap (Nat64.Link × Ipv6Addr) Router.OwnedAddress
  neighbors : OrdMap Router.RouterKey Router.Neighbor
  headers : OrdMap Router.RouterKey Router.Header
  identity : Router.Identity
  links : Router.Both Router.LinkState
  suppliers : OrdMap (Router.RouterKey × Prefix) Router.Supplier
  onLink : Router.OnLinkTable

namespace Router

open Ip Nat64

/-! ## What is read of the state -/

/-- Reference: `Router::state` (`router/mod.rs:160`). -/
def state (r : Router) (link : Link) : AilState := (r.links.get link).state

/-- Reference: `Router::address_ready` (`router/owned.rs:88`). -/
def addressReady (r : Router) (link : Link) (address : Ipv6Addr) : Bool :=
  (r.owned.get (link, address)).any fun a => a.state == .ready

/-- Whether the router's own address of a link is ready. -/
def linkReady (r : Router) (link : Link) : Bool :=
  r.addressReady link (r.identity.linkLocal link)

/-- The hardware address of a link. -/
def macOf (r : Router) (link : Link) : Octets 6 :=
  (r.links.get link).mac.getD (r.identity.macs.get link)

/-- Reference: `Router::reachable` (`router/nd.rs:26`). -/
def reachable (r : Router) (key : RouterKey) (now : Nat) : Bool :=
  (r.neighbors.get key).any fun n => n.state == .reachable && n.deadline.any fun t => now < t

/-- Whether the evidence of a supplier lasts. Reference: `router/lifecycle.rs:98`. -/
def Supplier.live (s : Supplier) (now : Nat) : Bool :=
  s.valid.live now && s.preferred.live now && now < satAdd s.pioAt 600000

/-- Reference: `Router::confirmed_supplier` (`router/nd.rs:206`). -/
def confirmedSupplier (r : Router) (link : Link) (now : Nat) : Bool :=
  r.suppliers.entries.any fun e =>
    e.1.1.1 == link && now < satAdd e.2.pioAt 600000 && e.2.preferred.live now &&
      e.2.valid.live now && r.reachable e.1.1 now

/-- Reference: `Router::usable_route` (`router/routes.rs:64`). -/
def usableRoute (r : Router) (router : Ipv6Addr) (route : Route) (now : Nat) : Bool :=
  route.valid.live now && (r.neighbors.get (.ail, router)).any fun n =>
    n.isRouter && n.state != .failed

/-- Whether the router withdraws what it exports. -/
def Lifecycle.withdrawing : Lifecycle → Bool
  | .stopping | .stopped | .degraded => true
  | _ => false

/-- Whether the router stops. -/
def Lifecycle.ending : Lifecycle → Bool
  | .stopping | .stopped => true
  | _ => false

/-- Reference: `Router::default_lifetime` (`router/routes.rs:74`). -/
def defaultLifetime (r : Router) (now : Nat) : Nat :=
  if r.lifecycle.withdrawing || !r.links.ail.up || r.noStubDefault then 0
  else
    ((r.routes.entries.filter fun e => e.1.2.length == 0 && r.usableRoute e.1.1 e.2 now).map
      fun e => min (e.2.valid.remaining now) 1800).max?.getD 0

/-- The routes to the prefixes on the infrastructure link. Reference: `router/routes.rs:103`. -/
def linkRoutes (r : Router) (now : Nat) : OrdMap Prefix Nat :=
  if r.defaultLifetime now = 0 || r.alwaysAdvertiseAilRoutes then
    r.onLink.iter.foldl (fun routes e =>
      if e.1.1 = .ail ∧ e.2.valid.live now then
        routes.insert e.1.2 (min (e.2.valid.remaining now) 1800)
      else routes) .empty
  else .empty

/-- The routes after one that was learned. Reference: `router/routes.rs:110`. -/
def addRoute (r : Router) (now : Nat) (routes : OrdMap Prefix Nat)
    (e : (Ipv6Addr × Prefix) × Route) : OrdMap Prefix Nat :=
  if e.1.2.length > 0 && r.usableRoute e.1.1 e.2 now && !r.onLink.contains (.stub, e.1.2) then
    let lifetime := min (e.2.valid.remaining now) 1800
    match routes.get e.1.2 with
    | some l => routes.insert e.1.2 (max l lifetime)
    | none => routes.insert e.1.2 lifetime
  else routes

/-- The routes after one that is withdrawn. Reference: `router/routes.rs:122`. -/
def addWithdrawal (routes : OrdMap Prefix Nat) (k : Link × Prefix) : OrdMap Prefix Nat :=
  if k.1 = .stub ∧ !routes.contains k.2 then routes.insert k.2 0 else routes

/-- Reference: `Router::stub_routes` (`router/routes.rs:90`). -/
def stubRoutes (r : Router) (now : Nat) : List Rio :=
  if !r.links.ail.up then
    (r.withdrawals.keys.filter fun k => k.1 == .stub).map fun k => ⟨k.2, .low, 0⟩
  else
    let routes := r.routes.entries.foldl (r.addRoute now) (r.linkRoutes now)
    let routes := r.withdrawals.keys.foldl addWithdrawal routes
    routes.entries.map fun e => ⟨e.1, .low, e.2⟩

/-- Reference: `deprecation_remaining` (`router/mod.rs:856`). -/
def deprecationRemaining (at_ : Int) (now : Nat) : Nat :=
  (max 0 (min (at_ + 1800000 - now) 1800000)).toNat / 1000

/-! ## Computations -/

/-- The router and the random source of a call, with the number of samples taken. -/
structure World where
  router : Router
  draw : Random
  used : Nat

/-- A call of the router. -/
abbrev Io := Act World IoError

/-- The router as it is. -/
def look : Io Router := fun w => (.ok w.router, w)

/-- A change of the router. -/
def update (f : Router → Router) : Io Unit := fun w => (.ok (), { w with router := f w.router })

/-- Reference: `RandomSource::sample` (`time.rs:41`). -/
def sample (max : Nat) : Io Nat := fun w =>
  (w.draw.sample w.used max, { w with used := w.used + 1 })

/-- Reference: `RandomSource::fill` (`time.rs:40`). -/
def fill (n : Nat) : Io Bytes := do
  let x ← sample (256 ^ n - 1)
  pure (toBe n x)

/-- Failure with a text. Reference: `io::Error::other`. -/
def other {α : Type} (text : String) : Io α := Act.fail ⟨.other, text⟩

/-- A change of the state of a link. -/
def updateLink (link : Link) (f : LinkState → LinkState) : Io Unit :=
  update fun r => { r with links := r.links.set link (f (r.links.get link)) }

/-- A change of the scheduler of a link. -/
def updateScheduler (link : Link) (f : RaScheduler → RaScheduler) : Io Unit :=
  updateLink link fun s => { s with scheduler := f s.scheduler }

/-- Reference: `RaScheduler::enable` (`scheduler.rs:19`). -/
def enable (link : Link) (now : Nat) : Io Unit := do
  updateScheduler link fun s => { s with burst := 3, response := none }
  let x ← sample 16000
  updateScheduler link fun s => { s with next := s.spaced (satAdd now x) }

/-- Reference: `RaScheduler::changed` (`scheduler.rs:34`). -/
def changed (link : Link) (now : Nat) : Io Unit := do
  updateScheduler link fun s => { s with burst := 3 }
  let x ← sample 16000
  updateScheduler link fun s => { s with next := min s.next (s.spaced (now + x)) }

/-- Reference: `RaScheduler::sent` (`scheduler.rs:39`). -/
def sent (link : Link) (now : Nat) : Io Unit := do
  updateScheduler link fun s => { s with response := none, last := some now, burst := s.burst - 1 }
  let burst := ((← look).links.get link).scheduler.burst
  let delay ← if burst > 0 then sample 16000 else (154000 + ·) <$> sample 52000
  updateScheduler link fun s => { s with next := s.spaced (now + delay) }

/-- Reference: `RaScheduler::receive_rs` (`scheduler.rs:55`). -/
def receiveRs (link : Link) (nd : Nd) (now : Nat) : Io Unit := do
  if nd.kind ≠ 133 then other "not RS"
  else if ((← look).links.get link).scheduler.response.isNone then
    let x ← sample 500
    updateScheduler link fun s => { s with response := some (s.spaced (now + x)) }

/-- Reference: `Router::degrade` (`router/lifecycle.rs:50`). -/
def degrade (now : Nat) : Io Unit := do
  update fun r => { r with lifecycle := .degraded }
  changed .ail now
  changed .stub now

end Router

end SnacMachine
