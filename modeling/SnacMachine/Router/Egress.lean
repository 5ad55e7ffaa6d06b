import SnacMachine.Router.Ingress

/-!
# What the router sends

The embedding of `Router::tick` and `Router::transmitted` and of what they call: the contents of an
advertisement (`router/mod.rs:399`), the room for its routes (`router/budget.rs`), the services of
the stub link (`router/services.rs`), the change of attachment (`router/attachment.rs`) and the end
of the router's life (`router/lifecycle.rs`).
-/

namespace SnacMachine.Router

open Ip Nat64

/-! ## The room for routes -/

/-- Reference: `Router::route_budget` (`router/budget.rs:3`). -/
def routeBudget (link : Link) : Nat :=
  1280 - 40 - 16 - 8 - (if link = .ail then 32 else 8 + 17 * 32)

/-- The room that routes take. -/
def sizeOf (routes : List Rio) : Nat := (routes.map fun r => r.encode.length).sum

/-- A withdrawn route. -/
def withdrawn (p : Prefix) : Rio := ⟨p, .low, 0⟩

/-- Routes in order that fit: those taken. Reference: the loops of `Router::budget_ail`
(`router/budget.rs:20`). -/
def fitting : (available : Nat) → List Rio → List Rio
  | _, [] => []
  | available, r :: rs =>
    if r.encode.length ≤ available then r :: fitting (available - r.encode.length) rs
    else fitting available rs

/-- The exported routes of a link that are live. -/
def exports (r : Router) (link : Link) (now : Nat) : List Prefix :=
  (r.advertisedRoutes.entries.filter fun e => e.1.1 == link && e.2.live now).map fun e => e.1.2

/-- The route that is wanted for an exported prefix: itself, or its withdrawal. Reference:
`router/budget.rs:37`. -/
def wanted (desired : OrdMap Prefix Rio) (p : Prefix) : Rio := (desired.get p).getD (withdrawn p)

/-- Reference: `Router::budget_ail` (`router/budget.rs:14`). -/
def budgetAil (r : Router) (candidates : List Rio) (now : Nat) : List Rio :=
  let chosen := fitting (routeBudget .ail)
    (candidates.filter fun x => !r.withdrawals.contains (.ail, x.prefix_))
  let desired : OrdMap Prefix Rio := chosen.foldl (fun m x => m.insert x.prefix_ x) .empty
  let old := (r.exports .ail now).map (wanted desired)
  let new := (desired.retain fun p _ => !(r.exports .ail now).contains p).values
  (old ++ fitting (routeBudget .ail - sizeOf old) new).mergeSort
    fun a b => Advertisement.prefixLe a.prefix_ b.prefix_

/-! ## The contents of an advertisement -/

/-- The options for the router's own prefix. Reference: `router/mod.rs:402`. -/
def ownPios (r : Router) (link : Link) (now : Nat) : List Pio :=
  let s := r.links.get link
  match s.state, s.deprecateAt with
  | .beginAdvertising, _ | .advertising, _ => [⟨r.identity.prefix_ link, 0xc0, 1800, 1800⟩]
  | .deprecating, some at_ =>
    if deprecationRemaining at_ now ≥ 206 then
      [⟨r.identity.prefix_ link, 0xc0, 0, deprecationRemaining at_ now⟩]
    else []
  | _, _ => []

/-- The options for the prefixes of earlier sites. Reference: `router/mod.rs:427`. -/
def retiredPios (r : Router) (link : Link) (now : Nat) : List Pio :=
  (r.retiredUlas.entries.filter fun e => e.1.1 == link && decide (206 ≤ e.2.remaining now)).map
    fun e => ⟨e.1.2, 0xc0, 0, e.2.remaining now⟩

/-- The prefix options of an advertisement. Reference: `router/mod.rs:400`. -/
def pios (r : Router) (link : Link) (now : Nat) : List Pio :=
  let pios := r.ownPios link now ++ r.retiredPios link now
  if link = .stub then
    (pios ++ r.delegatedPios now).mergeSort fun a b => Advertisement.prefixLe a.prefix_ b.prefix_
  else pios

/-- The lifetime that was last sent for a prefix. Reference: `router/mod.rs:500`. -/
def lastSent (r : Router) (link : Link) (now : Nat) (p : Prefix) : Lifetime :=
  if p = r.identity.prefix_ link then (r.links.get link).lastValid
  else ((r.pdPrefixes.get p).map fun p => p.lastValid).getD (.until_ now)

/-- The prefix options of a router that stops. Reference: `router/mod.rs:496`. -/
def finalPios (r : Router) (link : Link) (now : Nat) (pios : List Pio) : List Pio :=
  (pios.map fun p => { p with
    preferred := 0
    valid := min p.valid ((r.lastSent link now p.prefix_).remaining now) }).filter
    fun p => decide (0 < p.valid)

/-- Whether a prefix of the stub link comes before another among the routes: those still preferred
first, then those valid longer, then in order. Reference: `router/mod.rs:457`. -/
def exportLe (now : Nat) (a b : Prefix × OnLink) : Bool :=
  if a.2.preferred.live now ≠ b.2.preferred.live now then a.2.preferred.live now
  else if a.2.valid ≠ b.2.valid then b.2.valid.le a.2.valid
  else Advertisement.prefixLe a.1 b.1

/-- The routes that could be exported to the infrastructure link. Reference:
`router/mod.rs:441`. -/
def ailCandidates (r : Router) (now : Nat) : List Rio :=
  (((r.onLink.iter.filter fun e => r.links.stub.up && e.1.1 == .stub && e.2.valid.live now).map
    fun e => (e.1.2, e.2)).mergeSort (exportLe now)).map
    fun e => ⟨e.1, .low, min (e.2.valid.remaining now) 1800⟩

/-- The routes of an advertisement while the router runs. Reference: `router/mod.rs:441`. -/
def runningRios (r : Router) (link : Link) (now : Nat) : List Rio :=
  let rios := if link = .ail then r.budgetAil (r.ailCandidates now) now else r.stubRoutes now
  let rios := rios.map fun x =>
    if r.withdrawals.contains (link, x.prefix_) then { x with lifetime := 0 } else x
  rios ++ ((r.exports link now).filter fun p => !rios.any fun x => x.prefix_ == p).map withdrawn

/-- The routes of an advertisement. Reference: `router/mod.rs:441`. -/
def rios (r : Router) (link : Link) (now : Nat) : List Rio :=
  if r.lifecycle.withdrawing then (r.exports link now).map withdrawn else r.runningRios link now

/-- The flags of the router that was heard of last. Reference: `router/mod.rs:525`. -/
def moFlags (r : Router) (now : Nat) : UInt8 :=
  match r.headers.entries.filter fun e => e.1.1 == .ail && !e.2.snac &&
      e.2.headerLifetime.all fun l => l.live now with
  | [] => 0
  | e :: es => (es.foldl (fun best e => if best.2.lastRaAt ≤ e.2.lastRaAt then e else best) e).2.mo

/-- Reference: `Router::snapshot` (`router/mod.rs:399`). -/
def snapshot (r : Router) (link : Link) (now : Nat) : Advertisement where
  link
  source := r.identity.linkLocal link
  destination := allNodes
  mac := if (r.links.get link).kind = .ethernet then some (r.macOf link) else none
  mtu := (r.links.get link).mtu
  mo := r.moFlags now
  defaultLifetime := if link = .stub then r.defaultLifetime now else 0
  pios := if r.lifecycle.ending then r.finalPios link now (r.pios link now) else r.pios link now
  rios := r.rios link now

/-! ## Services -/

/-- Whether an address comes before another among the resolvers. -/
def resolverLe (a b : Ipv6Addr) : Bool :=
  if a.linkLocal = b.linkLocal then decide (OrdKey.code a ≤ OrdKey.code b) else !a.linkLocal

/-- Reference: `Router::service_inventory` (`router/services.rs:14`). -/
def serviceInventory (resolvers : List Ipv6Addr) (ipv4 : Option Nat) (translator : Bool)
    (now : Nat) : Io Unit := do
  let r ← look
  let addresses := (Advertisement.dedupBy id ((resolvers.filter fun a =>
    r.addressReady .stub a && !a.isUnspecified && !a.isMulticast && !a.isLoopback).mergeSort
    resolverLe)).take 2
  let differs := r.services.resolvers ≠ addresses ∨ r.services.ipv4 ≠ ipv4 ∨
    r.services.translator ≠ translator
  update fun r => { r with
    services := { r.services with resolvers := addresses, ipv4, translator } }
  if differs then changed .stub now

/-- Reference: `Router::service_until` (`router/services.rs:46`). -/
def serviceUntil (r : Router) (address : Ipv6Addr) (now : Nat) : Option Nat :=
  if !r.links.stub.up || !r.addressReady .stub address || r.lifecycle.withdrawing then none
  else
    let cap := satAdd now 1800000
    if address.linkLocal then some cap
    else ((r.onLink.iter.filter fun e => e.1.1 == .stub && e.1.2.contains address &&
      e.2.valid.live now).map fun e => min e.2.valid.deadline cap).max?

/-- The resolvers of an advertisement. Reference: `router/services.rs:74`. -/
def dnsOptions (r : Router) (now : Nat) : List (Ipv6Addr × Nat) :=
  let life (a : Ipv6Addr) : Nat := ((r.serviceUntil a now).getD now - now) / 1000
  let known := r.services.dnsHistory.keys.map fun a =>
    (a, if r.services.resolvers.contains a then life a else 0)
  let dns : OrdMap Ipv6Addr Nat := known.foldl (fun m e => m.insert e.1 e.2) .empty
  (r.services.resolvers.foldl (fun m a =>
    if m.size = 2 then m
    else match r.serviceUntil a now with
      | some until_ => m.insert a ((until_ - now) / 1000)
      | none => m) dns).entries

/-- How long delegated prefixes back a translator. Reference: `router/services.rs:106`. -/
def pdReady (r : Router) (now : Nat) : Option Nat :=
  (((r.pdPrefixes.entries.filter fun e => r.owned.entries.any fun x =>
      x.1.1 == .stub && x.2.prefix_ == some e.1 && (r.serviceUntil x.1.2 now).isSome).filterMap
    fun e => (r.pd.leases.get e.2.lease).map fun l =>
      min e.2.lastValid.deadline l.valid.deadline).filter fun t => now < t).max?

/-- Reference: `router/services.rs:126`. -/
def readiness (r : Router) (now : Nat) : Readiness where
  pd := r.pdReady now
  ipv4 := r.services.ipv4
  stub := ((r.services.resolvers.filter fun a => !a.linkLocal).filterMap
    fun a => r.serviceUntil a now).max?
  translator := r.services.translator && r.links.ail.up && r.lifecycle == .running

/-- Reference: `router/services.rs:136`. -/
def translationReachable (r : Router) (now : Nat) (link : Link) (address : Ipv6Addr) : Bool :=
  (r.neighbors.get (link, address)).any fun n => n.state == .reachable &&
  n.deadline.any fun t => now < t

/-- Reference: `router/services.rs:144`. -/
def translationRoute (r : Router) (now : Nat) (p : Prefix) : Option Nat :=
  ((r.routes.entries.filter fun e => r.links.ail.up && e.1.2.length ≤ p.length &&
    e.1.2.contains p.address && r.usableRoute e.1.1 e.2 now).map fun e => e.2.valid.deadline).max?

/-- The routes that stay beside the services, in the room that these leave; `none` when what was
exported does not fit. Reference: `router/services.rs:170`. -/
def reserveServices (r : Router) (ad : Advertisement) (nat : List Prefix) : Option (List Rio) :=
  let reserved := 40 + 16 + (if ad.mac.isSome then 8 else 0) + 8 + max ad.pios.length 17 * 32 +
    2 * 24 + 8 * (16 + 24)
  let available := 1280 - reserved
  let rios := ad.rios.filter fun x => !nat.contains x.prefix_
  let old := rios.filter fun x => r.advertisedRoutes.contains (.stub, x.prefix_)
  let new := rios.filter fun x => !r.advertisedRoutes.contains (.stub, x.prefix_)
  if sizeOf old > available then none else some (old ++ fitting (available - sizeOf old) new)

/-- Reference: `Router::encode_services` (`router/services.rs:65`). -/
def encodeServices (ad : Advertisement) (now : Nat) (r : Router) :
    Except WireError Bytes × Router :=
  if ad.link = .ail then (ad.encode, r)
  else
    let r := { r with services := { r.services with
      dnsHistory := r.services.dnsHistory.retain fun _ v => v.1.live now } }
    let dns := r.dnsOptions now
    let (decision, nat64) := r.nat64.select now (r.readiness now) (r.translationReachable now)
      (r.translationRoute now)
    let r := { r with nat64 }
    let kept := if r.services.resolvers ≠ [] ∨ r.services.dnsHistory.size ≠ 0 then
        r.reserveServices ad (decision.routes.map Rio.prefix_)
      else some ad.rios
    match kept with
    | none => (.error .capacity, r)
    | some rios =>
      let rios := decision.routes.foldl (fun rios route =>
        rios.filter (fun x => x.prefix_ != route.prefix_) ++ [route]) rios
      let encoded := ({ ad with rios } : Advertisement).encodeServices dns
        (decision.announcements.map fun a => a.pref64)
      if encoded = .error .capacity then
        (encoded, { r with nat64 := r.nat64.announcementFailed decision.mode now })
      else (encoded, r)

/-- Whose a promise is that an advertisement made. Reference: `router/services.rs:225`. -/
def announcementOf (s : Selector) (p : Pref64) : Announcement :=
  ⟨p, if p.prefix_ = s.local_ then .local_
    else if some p.prefix_ = s.policy.infrastructure then .configured
    else .infrastructure⟩

/-- The resolvers promised after one of them was advertised. Reference: `router/services.rs:245`. -/
def noteResolver (lifetime now : Nat) (history : OrdMap Ipv6Addr (Lifetime × Nat)) (a : Ipv6Addr) :
    OrdMap Ipv6Addr (Lifetime × Nat) :=
  if lifetime > 0 ∧ (history.contains a ∨ history.size < 2) then
    history.insert a (.fromSecs now lifetime, 3)
  else history.modify a fun v => (v.1, v.2 - 1)

/-- The resolvers promised after an option. Reference: `router/services.rs:239`. -/
def noteResolvers (now : Nat) (history : OrdMap Ipv6Addr (Lifetime × Nat)) (o : NdOption) :
    OrdMap Ipv6Addr (Lifetime × Nat) :=
  if o.kind ≠ 25 ∨ o.bytes.length < 24 ∨ o.bytes.length % 16 ≠ 8 then history
  else
    ((List.range ((o.bytes.length - 8) / 16)).map fun i => octetsAt o.bytes (8 + i * 16) 16).foldl
      (noteResolver (u32At o.bytes 4) now) history

/-- Reference: `Router::services_transmitted` (`router/services.rs:212`). -/
def servicesTransmitted (link : Link) (nd : Nd) (now : Nat) : Io Unit := do
  if link ≠ .stub then pure ()
  else
    let r ← look
    let announcements := (nd.options.filterMap fun o => Pref64.decode o.bytes).map
      (announcementOf r.nat64)
    let (result, nat64) := r.nat64.advertised announcements now
    update fun r => { r with nat64 }
    Act.lift result
    update fun r => { r with services := { r.services with
      dnsHistory := (nd.options.foldl (noteResolvers now)
        (r.services.dnsHistory.retain fun _ v => v.1.live now)).retain fun _ v =>
          decide (0 < v.2) } }

/-! ## Attachment -/

/-- Reference: `Attachment::finish` (`router/attachment.rs:33`). -/
def Attachment.finish (a : Attachment) : Bool × Attachment :=
  let a := { a with discovering := false }
  if a.observed.size = 0 then (false, a)
  else
    let moved := a.known.size ≠ 0 ∧ !a.known.keys.any fun k => a.observed.contains k
    (moved && a.policy == .rotate, { a with known := a.observed, observed := .empty })

/-- The prefix of a link that is given up. Reference: `router/attachment.rs:100`. -/
def retirePrefix (link : Link) (now : Nat) (r : Router) : Router :=
  let old := r.identity.prefix_ link
  let valid := (r.links.get link).lastValid
  if valid.live now then
    { r with
      retiredUlas := r.retiredUlas.insert (link, old) valid
      onLink := r.onLink.insert (link, old) ⟨valid, .until_ now⟩ }
  else r

/-- One link of a router that has moved. Reference: `router/attachment.rs:100`. -/
def rotateLink (link : Link) (now : Nat) : Io Unit := do
  update (retirePrefix link now)
  updateLink link fun s => { s with
    lastValid := .until_ now
    deprecateAt := none
    state := .beginAdvertising }
  changed link now

/-- Reference: `Router::rotate_ula` (`router/attachment.rs:79`). -/
def rotateUla (now : Nat) : Io Unit := do
  update fun r => { r with retiredUlas := r.retiredUlas.retain fun _ v => v.live now }
  let r ← look
  let additions := ([Link.ail, .stub].filter fun l => (r.links.get l).lastValid.live now).length
  if r.retiredUlas.size + additions > 16 then other "retiring ULA capacity"
  else
    let random ← fill 5
    let site : Prefix := ⟨.ofValue (ofBe ([0xfd] ++ random) <<< 80), 48⟩
    if site.address.1.take 6 = r.identity.site.address.1.take 6 then
      other "ULA entropy repeated current site"
    else
      let (result, nat64) := r.nat64.rotateLocal site now
      update fun r => { r with nat64 }
      Act.lift result
      rotateLink .ail now
      rotateLink .stub now
      update fun r => { r with identity := { r.identity with site } }
      PdClient.refresh 6 now

/-- Reference: `Router::configure_attachment` (`router/attachment.rs:46`). -/
def configureAttachment (policy : UlaPolicy) (configured : Option String)
    (now : Nat) : Io Unit := do
  update fun r => { r with attachment := { r.attachment with policy } }
  match configured with
  | none => pure ()
  | some id =>
    if id = "" ∨ id.utf8ByteSize > 128 then other "attachment ID must contain 1..128 bytes"
    else
      if (← look).identity.attachment ≠ id ∧ policy = .rotate then rotateUla now
      update fun r => { r with identity := { r.identity with attachment := id } }

/-- Reference: `Router::finish_attachment` (`router/attachment.rs:66`). -/
def finishAttachment (now : Nat) : Io Unit := do
  let r ← look
  if r.attachment.discovering ∧ r.links.ail.discoveryEnd ≤ now then
    let (moved, attachment) := r.attachment.finish
    update fun r => { r with attachment }
    if moved then rotateUla now

/-! ## Ticks -/

/-- Reference: `Router::configure_nat64` (`router/mod.rs:539`). -/
def configureNat64 (policy : Policy) (now : Nat) : Io Unit := do
  let r ← look
  let (result, nat64) := r.nat64.configure policy
  update fun r => { r with nat64 }
  Act.lift result
  if r.nat64.policy ≠ policy then changed .stub now

/-- Reference: `Router::shutdown` (`router/lifecycle.rs:12`). -/
def shutdown (now : Nat) : Io Unit := do
  if (← look).lifecycle.ending then pure ()
  else
    update fun r => { r with lifecycle := .stopping }
    [Link.ail, .stub].forM fun link => do
      update fun r => { r with
        finalRas := r.finalRas.set link (if (r.links.get link).up then 3 else 0) }
      changed link now

/-- One link of a router that stops. Reference: the loop of `Router::stopping_tick`
(`router/lifecycle.rs:25`). -/
def stoppingLink (now : Nat) (link : Link) : Io (List Tx) := do
  let r ← look
  if !(r.links.get link).up || !r.linkReady link then
    update fun r => { r with finalRas := r.finalRas.set link 0 }
    pure []
  else if r.finalRas.get link > 0 ∧ (r.links.get link).scheduler.due now then
    let snap := r.snapshot link now
    if link = .ail ∧ snap.pios = [] ∧ snap.rios = [] then
      update fun r => { r with finalRas := r.finalRas.set .ail 0 }
      pure []
    else
      let (encoded, r) := encodeServices snap now r
      update fun _ => r
      match encoded with
      | .error _ => other "shutdown RA capacity"
      | .ok packet => pure [⟨link, packet⟩]
  else pure []

/-- Reference: `Router::stopping_tick` (`router/lifecycle.rs:23`). -/
def stoppingTick (now : Nat) : Io (List Tx) := do
  let ail ← stoppingLink now .ail
  let stub ← stoppingLink now .stub
  let r ← look
  if r.finalRas.ail = 0 ∧ r.finalRas.stub = 0 then
    update fun r => { r with lifecycle := .stopped }
  pure (ail ++ stub)

/-- One address whose uniqueness is checked. Reference: `Router::tick_dad`
(`router/owned.rs:93`). -/
def tickAddress (r : Router) (now : Nat) (key : Link × Ipv6Addr) (a : OwnedAddress) :
    OwnedAddress :=
  if !(r.links.get key.1).up then a
  else if a.state = .tentative ∧ a.deadline.any (fun t => decide (t ≤ now)) then
    if a.attempts = 0 ∨ !a.probeSent then
      { a with attempts := max a.attempts 1, probeSent := true, deadline := some (now + 1000) }
    else { a with state := .ready, deadline := none }
  else a

/-- The probe that goes out for it. -/
def dadProbe (r : Router) (now : Nat) (e : (Link × Ipv6Addr) × OwnedAddress) : Option Tx :=
  if (r.links.get e.1.1).up ∧ e.2.state = .tentative ∧
      e.2.deadline.any (fun t => decide (t ≤ now)) ∧ (e.2.attempts = 0 ∨ !e.2.probeSent) then
    match icmpPacket .unspecified e.1.2.solicitedNode 255
      ([135, 0, 0, 0, 0, 0, 0, 0] ++ e.1.2.1) with
    | .ok packet => some ⟨e.1.1, packet⟩
    | .error _ => none
  else none

/-- Reference: `Router::tick_dad` (`router/owned.rs:93`). -/
def tickDad (now : Nat) : Io (List Tx) := do
  let r ← look
  update fun r => { r with owned := r.owned.mapValues (r.tickAddress now) }
  pure (r.owned.entries.filterMap (r.dadProbe now))

/-- One neighbor whose deadline has passed. Reference: the loop of `Router::tick_neighbors`
(`router/nd.rs:162`). -/
def tickNeighbor (now : Nat) (key : RouterKey) : Io (List Tx) := do
  match (← look).neighbors.get key with
  | none => pure []
  | some n =>
    let n := if n.state = .reachable then { n with probesSent := 0 } else n
    if n.probesSent ≥ 3 then
      update fun r => { r with neighbors := r.neighbors.insert key { n with
        state := .failed
        deadline := some (satAdd now 30000)
        pending := none } }
      match n.pending with
      | some (.transit tx) =>
        match envelope .rawIpv6 tx.packet with
        | .ok e => icmpError tx.link e 1 3 0 now
        | .error _ => pure []
      | _ => pure []
    else
      update fun r => { r with neighbors := r.neighbors.insert key n }
      let tx ← probe key now
      pure [tx]

/-- Reference: `Router::tick_neighbors` (`router/nd.rs:147`). -/
def tickNeighbors (now : Nat) : Io (List Tx) := do
  update fun r => r.reapFailedNeighbors now
  let r ← look
  let keys := (r.neighbors.entries.filter fun e => (r.links.get e.1.1).up && r.linkReady e.1.1 &&
    e.2.deadline.any (fun t => decide (t ≤ now)) && e.2.state != .failed).map Prod.fst
  let out ← keys.mapM (tickNeighbor now)
  pure out.flatten

/-- What has expired is dropped. Reference: `router/mod.rs:598`. -/
def expire (now : Nat) (r : Router) : Router :=
  let r := { r with
    suppliers := r.suppliers.retain fun _ s => s.live now
    onLink := r.onLink.retain fun _ p => p.valid.live now
    routes := r.routes.retain fun _ x => x.valid.live now }
  let r := r.reapHeaders now
  { r with owned := r.owned.retain fun k a => a.state == .failed || a.prefix_.all fun p =>
      (r.onLink.get (k.1, p)).any fun p => p.valid.live now }

/-- Whether somebody supplies a prefix for a link. Reference: `router/mod.rs:619`. -/
def supplied (r : Router) (link : Link) (now : Nat) : Bool :=
  (link == .stub && (r.pd.selected now) != []) || r.suppliers.entries.any fun e =>
    e.1.1.1 == link && (r.neighbors.get e.1.1).all fun n => n.state != .failed

/-- The return to advertising the own prefix. Reference: `router/mod.rs:628`. -/
def resumeAdvertising (link : Link) (now : Nat) : Io Unit := do
  let r ← look
  if (r.state link = .suitable ∨ r.state link = .deprecating) ∧ (!r.supplied link now ∨
      ((r.links.get link).scheduler.due now ∧ !r.confirmedSupplier link now ∧
        (link ≠ .stub ∨ r.pd.selected now = []))) then
    updateLink link fun s => { s with state := .beginAdvertising, deprecateAt := none }
    changed link now

/-- The solicitation of routers. Reference: `router/mod.rs:646`. -/
def solicitation (r : Router) (link : Link) : Except WireError Bytes :=
  icmpPacket (r.identity.linkLocal link) allRouters 255
    ([133, 0, 0, 0, 0, 0, 0, 0] ++ r.macOption link 1)

/-- The discovery of a link's routers. Reference: `router/mod.rs:641`. -/
def discover (link : Link) (now : Nat) : Io (List Tx) := do
  let r ← look
  let s := r.links.get link
  if s.state = .unknown then
    if s.discoveryEnd ≤ now then
      updateLink link fun s => { s with state := .beginAdvertising }
      enable link now
      pure []
    else if s.rsNext ≤ now ∧ s.rsCount < 3 then
      match r.solicitation link with
      | .ok packet => pure [⟨link, packet⟩]
      | .error _ => other "RS encoding"
    else pure []
  else pure []

/-- The own prefix is on link from the beginning. Reference: `router/mod.rs:665`. -/
def beginOnLink (link : Link) (now : Nat) : Io Unit := do
  let r ← look
  let key := (link, r.identity.prefix_ link)
  if r.state link = .beginAdvertising ∧ !r.onLink.contains key then
    if link = .stub then changed .ail now
    update fun r => { r with
      onLink := r.onLink.insert key ⟨.fromSecs now 1800, .fromSecs now 1800⟩ }

/-- The encoding of an advertisement, or of its withdrawals when it does not fit. Reference:
`router/mod.rs:699`. -/
def encodeOrDegrade (link : Link) (snap : Advertisement) (now : Nat) : Io Bytes := do
  let (encoded, r) := encodeServices snap now (← look)
  update fun _ => r
  match encoded with
  | .ok packet => pure packet
  | .error .capacity =>
    degrade now
    let r ← look
    let (encoded, r) := encodeServices (r.snapshot link now) now r
    update fun _ => r
    match encoded with
    | .ok packet => pure packet
    | .error _ => other "degraded RA capacity"
  | .error _ => other "invalid RA snapshot"

/-- The advertisement of a link. Reference: `router/mod.rs:677`. -/
def advertise (link : Link) (now : Nat) : Io (List Tx) := do
  let r ← look
  if r.state link ≠ .unknown ∧ (r.links.get link).scheduler.due now then
    if (link = .ail ∨ r.services.resolvers = []) ∧
        sizeOf (r.snapshot link now).rios > routeBudget link then degrade now
    let snap := (← look).snapshot link now
    if link = .stub ∨ snap.pios ≠ [] ∨ snap.rios ≠ [] then
      let packet ← encodeOrDegrade link snap now
      pure [⟨link, packet⟩]
    else pure []
  else pure []

/-- One link. Reference: the loop of `Router::tick` (`router/mod.rs:612`). -/
def tickLink (now : Nat) (link : Link) : Io (List Tx) := do
  let r ← look
  if !(r.links.get link).up || !r.linkReady link then pure []
  else
    resumeAdvertising link now
    let solicit ← discover link now
    beginOnLink link now
    let out ← advertise link now
    pure (solicit ++ out)

/-- A link whose own address has become ready. Reference: `router/mod.rs:573`. -/
def enableReady (ready : Both Bool) (now : Nat) (link : Link) : Io Unit := do
  let r ← look
  if !ready.get link && r.linkReady link && r.state link != .unknown then enable link now

/-- The client for delegated prefixes. Reference: `router/mod.rs:715`. -/
def tickPd (now : Nat) : Io (List Tx) := do
  let r ← look
  if r.links.ail.up && r.linkReady .ail && (r.pd.state != .dormant || (r.state .stub).own ||
      r.state .stub == .deprecating) then
    if r.pd.state = .dormant then PdClient.start now
    let out ← PdClient.poll now (r.identity.linkLocal .ail) r.identity.duid.1
    pure (out.map (Tx.mk .ail))
  else pure []

/-- The part of a tick before the links. Reference: `router/mod.rs:561`. -/
def tickState (now : Nat) : Io (List Tx) := do
  if (← look).links.ail.up then
    finishAttachment now
    update fun r => { r with retiredUlas := r.retiredUlas.retain fun _ v => v.live now }
    PdClient.advance now
  update fun r => r.reapExports now
  update fun r => { r with pdHints := r.pdHints.retain fun _ l => l.live now }
  syncPd now
  let r ← look
  let ready : Both Bool := ⟨r.linkReady .ail, r.linkReady .stub⟩
  let dad ← tickDad now
  [Link.ail, .stub].forM (enableReady ready now)
  update fun r => { r with lifecycle :=
    if r.lifecycle = .starting ∧ r.linkReady .ail ∧ r.linkReady .stub then .running
    else r.lifecycle }
  let r ← look
  let priorExports := r.stubRoutes now
  let priorDefault := r.defaultLifetime now
  let out ← tickNeighbors now
  reconcileExports priorExports now
  if priorDefault ≠ (← look).defaultLifetime now then changed .stub now
  update (expire now)
  pure (dad ++ out)

/-- Reference: `Router::tick` (`router/mod.rs:552`). -/
def tick (now : Nat) : Io (List Tx) := do
  update fun r => { r with nat64 := r.nat64.expire now }
  let r ← look
  if r.lifecycle = .stopped then pure []
  else if r.lifecycle = .stopping then stoppingTick now
  else
    let first ← tickState now
    let stub ← tickLink now .stub
    let ail ← tickLink now .ail
    let pd ← tickPd now
    pure (first ++ stub ++ ail ++ pd)

end SnacMachine.Router
