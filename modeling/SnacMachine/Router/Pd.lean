import SnacMachine.Router.State

/-!
# Prefix delegation

The embedding of `router/pd.rs`: the client that asks for delegated prefixes, and how the router
follows the leases that it has.
-/

namespace SnacMachine.Router

open Ip Nat64 Dhcp

/-- A change of the client. -/
def updatePd (f : PdClient → PdClient) : Io Unit := update fun r => { r with pd := f r.pd }

namespace PdClient

/-- Reference: `PdClient::begin` (`router/pd.rs:70`). -/
def begin_ (kind : UInt8) (server : Bytes) (now next : Nat) : Io Unit := do
  updatePd fun p => { p with refreshAfter := satAdd now 1000 }
  let xid ← fill 3
  updatePd fun p => { p with
    exchange := some {
      kind
      xid := if p.reservedXid = some xid then xid.set 2 (octet xid 2 ^^^ 1) else xid
      started := now
      next
      interval := 0
      count := 0
      server } }

/-- Reference: `PdClient::start` (`router/pd.rs:63`). -/
def start (now : Nat) : Io Unit := do
  updatePd fun p => { p with
    offers := []
    solMaxRtSeen := none
    requested := []
    state := .soliciting }
  let x ← sample 1000
  begin_ 1 [] now (now + x)

/-- What an offer delegates that can be used. -/
def usableDelegation (d : Delegation) : Bool :=
  d.prefix_.length ≤ 64 && d.prefix_.routable && decide (1800 ≤ d.preferred)

/-- How an offer ranks: lower comes first. Reference: the key of `PdClient::choose`
(`router/pd.rs:182`). -/
def offerRank (o : Offer) : Nat × Nat × Nat :=
  (255 - o.preference.toNat,
    2 - ([false, true].filter fun ula => o.delegations.any fun d =>
      d.prefix_.ula == ula && usableDelegation d).length,
    2 ^ 32 - ((o.delegations.map fun d => d.preferred).max?.getD 0))

/-- Whether an offer comes before another. -/
def offerLe (a b : Offer) : Bool :=
  OrdKey.code (offerRank a, a.server) ≤ OrdKey.code (offerRank b, b.server)

/-- Reference: `PdClient::choose` (`router/pd.rs:180`). -/
def choose (now : Nat) : Io Unit := do
  match (← look).pd.offers.mergeSort offerLe with
  | [] => pure ()
  | offer :: _ =>
    updatePd fun p => { p with
      offers := []
      requested := offer.delegations.filter usableDelegation
      state := .requesting }
    begin_ 3 offer.server now now

/-- Reference: `retransmission` (`router/pd.rs:770`). -/
def retransmission (e : Exchange) (mrt : Nat) : Io Nat := do
  if e.count = 0 ∧ e.kind = 1 then
    let x ← sample 99
    pure (1001 + x)
  else
    let previous : Int := if e.count = 0 then (if e.kind = 5 ∨ e.kind = 6 then 10000 else 1000)
      else e.interval
    let x ← sample 2000
    let rand : Int := x - 1000
    let base := previous * (if e.count = 0 then 1 else 2)
    let rt := (base * 10000 + previous * rand).tdiv 10000
    let rt := if mrt ≠ 0 ∧ rt > mrt then (mrt * (10000 + rand)).tdiv 10000 else rt
    pure (max 1 (min rt u64Max)).toNat

/-- The elapsed time of an exchange. Reference: `router/pd.rs:133`. -/
def elapsedOption (e : Exchange) (now : Nat) : Bytes :=
  option 8 (toBe 2 (min ((now - e.started) / 10) 65535))

/-- The associations of a request. Reference: `router/pd.rs:138`. -/
def requestOption (p : PdClient) (e : Exchange) (iaid : Nat) : Bytes :=
  let ds := p.requested.filter fun d => d.iaid == iaid
  option 25 (toBe 4 iaid ++ List.replicate 8 0 ++
    if e.kind = 1 ∨ ds = [] then option 26 (List.replicate 8 0 ++ [64] ++ List.replicate 16 0)
    else ds.flatMap delegationOption)

/-- The associations of a release. Reference: `router/pd.rs:520`. -/
def releaseOption (release : Release) (iaid : Nat) : Bytes :=
  let ds := release.prefixes.filter fun d => d.iaid == iaid
  if ds = [] then []
  else option 25 (toBe 4 iaid ++ List.replicate 8 0 ++ ds.flatMap delegationOption)

/-- The address of all servers and relays. -/
def allServers : Ipv6Addr := .ofValue 0xff020000000000000000000000010002

/-- One turn of `PdClient::poll_releases` (`router/pd.rs:500`). -/
def pollRelease (now : Nat) (source : Ipv6Addr) (duid : Bytes) (i : Nat) : Io (List Bytes) := do
  match (← look).pd.releases[i]? with
  | none => pure []
  | some release =>
    let e := release.exchange
    if e.count ≥ 4 ∨ now < e.next then pure []
    else
      let b := [8] ++ e.xid ++ option 1 duid ++ option 2 e.server ++ elapsedOption e now ++
        releaseOption release 1 ++ releaseOption release 2
      match udpPacket source allServers 546 547 b with
      | .error _ => other "Release encoding"
      | .ok packet =>
        let interval ← retransmission e 0
        updatePd fun p => { p with releases := p.releases.set i { release with
          exchange := { e with interval, count := e.count + 1, next := satAdd now interval } } }
        pure [packet]

/-- Reference: `PdClient::poll_releases` (`router/pd.rs:491`). -/
def pollReleases (now : Nat) (source : Ipv6Addr) (duid : Bytes) : Io (List Bytes) := do
  let n := (← look).pd.releases.length
  let out ← (List.range n).mapM (pollRelease now source duid)
  updatePd fun p => { p with
    releases := p.releases.filter fun r => r.exchange.count < 4 || now < r.exchange.next }
  pure out.flatten

/-- Reference: `PdClient::poll` (`router/pd.rs:98`). -/
def poll (now : Nat) (source : Ipv6Addr) (duid : Bytes) : Io (List Bytes) := do
  let p := (← look).pd
  if p.state = .soliciting ∧ p.offers ≠ [] ∧ p.exchange.any (fun e => e.next ≤ now) then choose now
  let p := (← look).pd
  if p.state = .requesting ∧ p.exchange.any (fun e => e.count ≥ 10 && e.next ≤ now) then start now
  let out ← pollReleases now source duid
  let p := (← look).pd
  match p.exchange with
  | none => pure out
  | some e =>
    if now < e.next then pure out
    else
      let b := [e.kind] ++ e.xid ++ option 1 duid ++
        (if e.server = [] then [] else option 2 e.server) ++
        elapsedOption e now ++ option 6 [0, 23, 0, 24, 0, 82] ++ requestOption p e 1 ++
        requestOption p e 2
      match udpPacket source allServers 546 547 b with
      | .error _ => other "DHCP packet capacity"
      | .ok packet =>
        let interval ← retransmission e (if e.kind = 1 then p.solMaxRt
          else if e.kind = 5 ∨ e.kind = 6 then 600000 else 30000)
        let e := { e with interval, next := now + interval, count := min (e.count + 1) 255 }
        updatePd fun p => { p with
          exchange := some e
          fallbackAt := if e.kind = 6 ∧ e.count = 1 then
              some (max e.next (((p.leases.values.map fun l => l.t2.deadline).min?).getD now))
            else p.fallbackAt }
        pure (out ++ [packet])

/-- The better of two leases that `selected` compares. Reference: `max_by_key`
(`router/pd.rs:344`). -/
def betterLease (a b : LeaseKey × Lease) : LeaseKey × Lease :=
  if a.2.preferred = b.2.preferred then (if OrdKey.code a.1 < OrdKey.code b.1 then a else b)
  else if a.2.preferred.le b.2.preferred then b else a

/-- The best lease of one kind of prefix. Reference: `router/pd.rs:332`. -/
def bestLease (p : PdClient) (now : Nat) (ula : Bool) : Option LeaseKey :=
  match p.leases.entries.filter fun e => e.1.2.length ≤ 64 && e.1.2.routable &&
      e.1.2.ula == ula && e.2.valid.live now && e.2.preferred.live now with
  | [] => none
  | e :: es => some (es.foldl betterLease e).1

/-- Reference: `PdClient::selected` (`router/pd.rs:325`). -/
def selected (p : PdClient) (now : Nat) : List LeaseKey :=
  if p.fallbackAt.any fun t => t ≤ now then []
  else (p.bestLease now false).toList ++ (p.bestLease now true).toList

/-- Reference: `PdClient::queue_release` (`router/pd.rs:459`). -/
def queueRelease (server : Bytes) (prefixes : List Delegation) (now : Nat) : Io Unit := do
  if prefixes = [] then pure ()
  else if (← look).pd.releases.length ≥ 16 then other "DHCP Release exchange capacity"
  else
    let xid ← fill 3
    updatePd fun p => { p with
      releases := p.releases ++ [⟨⟨8, xid, now, now, 1000, 0, server⟩, prefixes⟩] }

/-- The leases that a reply leaves. Reference: `router/pd.rs:359`. -/
def acquired (leases : OrdMap LeaseKey Lease) (delegations : List Delegation) :
    OrdMap LeaseKey Unit :=
  delegations.foldl (fun keys d =>
    if d.valid = 0 then keys.remove (d.iaid, d.prefix_) else keys.insert (d.iaid, d.prefix_) ())
    (leases.mapValues fun _ _ => ())

/-- The shortest preferred lifetime of each association. Reference: `router/pd.rs:379`. -/
def shortest (delegations : List Delegation) : OrdMap Nat Nat :=
  delegations.foldl (fun m d =>
    if d.preferred > 0 ∧ d.valid > 0 then
      match m.get d.iaid with
      | some p => m.insert d.iaid (min p d.preferred)
      | none => m.insert d.iaid d.preferred
    else m) .empty

/-- A time derived from a preferred lifetime. Reference: `derived` (`router/pd.rs:397`). -/
def derived (preferred numerator denominator : Nat) : Nat :=
  if preferred = 2 ^ 32 - 1 then 2 ^ 32 - 1 else max (preferred * numerator / denominator) 1

/-- The leases, and the times of each association, after one delegation. Reference: the loop of
`PdClient::install` (`router/pd.rs:388`). -/
def installOne (server : Bytes) (short : OrdMap Nat Nat) (now : Nat)
    (s : OrdMap LeaseKey Lease × OrdMap Nat (Lifetime × Lifetime)) (d : Delegation) :
    OrdMap LeaseKey Lease × OrdMap Nat (Lifetime × Lifetime) :=
  let key := (d.iaid, d.prefix_)
  if d.valid = 0 then (s.1.remove key, s.2)
  else
    let used := (s.1.get key).any fun l => l.used
    let preferred := (short.get d.iaid).getD 1
    let t1 := if d.t1 = 0 then derived preferred 1 2 else d.t1
    let t2 := if d.t2 = 0 then max (derived preferred 4 5) t1 else d.t2
    let times := (s.2.get d.iaid).getD
      (Lifetime.fromSecs now (min t1 t2), Lifetime.fromSecs now t2)
    (s.1.insert key ⟨server, times.1, times.2, .fromSecs now d.preferred,
      .fromSecs now d.valid, used⟩, s.2.insert d.iaid times)

/-- A lease as a delegation to give back. -/
def asDelegation (now : Nat) (e : LeaseKey × Lease) : Delegation :=
  ⟨e.1.1, 0, 0, e.1.2, e.2.preferred.remaining now, e.2.valid.remaining now⟩

/-- Reference: `PdClient::install` (`router/pd.rs:346`). -/
def install (m : Message) (now : Nat) : Io Unit := do
  let p := (← look).pd
  if m.status = 3 ∧ (p.state = .renewing ∨ p.state = .rebinding) then
    updatePd fun p => { p with state := .requesting }
    begin_ 3 m.server now now
  else if m.status = 6 ∧ p.state = .requesting then start now
  else if m.status ≠ 0 then pure ()
  else
    updatePd fun p => { p with leases := p.leases.retain fun _ l => l.valid.live now }
    let p := (← look).pd
    if (acquired p.leases m.delegations).size > 16 then
      queueRelease m.server (m.delegations.filter fun d =>
        d.valid != 0 && !p.leases.contains (d.iaid, d.prefix_)) now
      updatePd fun p => { p with state := .bound, exchange := none }
      other "acquired DHCP prefix capacity"
    else
      updatePd fun p => { p with
        leases := (m.delegations.foldl (installOne m.server (shortest m.delegations) now)
          (p.leases, .empty)).1
        fallbackAt := none }
      updatePd fun p => { p with
        leases := (p.selected now).foldl (fun leases k => leases.modify k fun l =>
          { l with used := true }) p.leases }
      let unused := (← look).pd.leases.entries.filter fun e => !e.2.used
      updatePd fun p => { p with leases := p.leases.retain fun _ l => l.used }
      queueRelease m.server (unused.map (asDelegation now)) now
      updatePd fun p => { p with
        fallbackAt := none
        state := .bound
        exchange := none
        requested := [] }

/-- What an offer says about the longest retransmission time. Reference: `router/pd.rs:252`. -/
def noteSolMaxRt (p : PdClient) (max : Nat) : PdClient :=
  let seen := match p.solMaxRtSeen with
    | none => some max
    | some (some prior) => if prior = max then some max else none
    | some none => none
  { p with
    solMaxRtSeen := some seen
    solMaxRt := (seen.map fun n => n * 1000).getD 3600000 }

/-- Reference: `PdClient::receive_with_policy` (`router/pd.rs:218`). -/
def receiveWithPolicy (e : Envelope) (duid : Bytes) (now : Nat) (allowed : Prefix → Bool) :
    Io Unit := do
  match udpPayload e with
  | .error _ => pure ()
  | .ok b =>
    match decode b with
    | .error _ => pure ()
    | .ok m =>
      if m.kind = 7 ∧ m.client = duid then
        updatePd fun p => { p with releases := p.releases.filter fun r =>
          r.exchange.xid != m.xid || r.exchange.server != m.server }
      let p := (← look).pd
      match p.exchange with
      | none => pure ()
      | some exchange =>
        if m.xid ≠ exchange.xid ∨ m.client ≠ duid then pure ()
        else if m.kind = 7 ∧ (p.state = .requesting ∨ p.state = .renewing ∨ p.state = .rebinding) ∧
            (p.state = .rebinding ∨ m.server = exchange.server) then install m now
        else if p.state = .soliciting ∧ m.kind = 2 then
          let delegations := m.delegations.filter fun d => allowed d.prefix_
          match m.solMaxRt with
          | some max => updatePd fun p => p.noteSolMaxRt max
          | none => pure ()
          if m.status ≠ 0 ∨ !delegations.any usableDelegation then pure ()
          else if (← look).pd.offers.length ≥ 16 then other "DHCP offer capacity"
          else
            updatePd fun p => { p with offers := p.offers ++
              [⟨m.server, m.preference, delegations⟩] }
            if m.preference = 255 then choose now

/-- The lease whose renewal is due first. Reference: `min_by_key` (`router/pd.rs:739`). -/
def firstRenewal (p : PdClient) : Bytes :=
  match p.leases.values with
  | [] => []
  | l :: ls => (ls.foldl (fun best l => if best.t1.le l.t1 then best else l) l).server

/-- Reference: `PdClient::refresh` (`router/pd.rs:732`). -/
def refresh (kind : UInt8) (now : Nat) : Io Unit := do
  let p := (← look).pd
  if p.leases.size = 0 ∨ now < p.refreshAfter then pure ()
  else
    let server := if kind = 5 then p.firstRenewal else []
    updatePd fun p => { p with
      requested := (p.leases.entries.filter fun e => kind == 6 || e.2.server == server).map
        (asDelegation now)
      state := if kind = 5 then .renewing else .rebinding }
    begin_ kind server now now

/-- Reference: `PdClient::advance` (`router/pd.rs:713`). -/
def advance (now : Nat) : Io Unit := do
  updatePd fun p => { p with leases := p.leases.retain fun _ l => l.valid.live now }
  let p := (← look).pd
  if p.leases.size = 0 ∧ (p.state = .bound ∨ p.state = .renewing ∨ p.state = .rebinding) then
    start now
  let p := (← look).pd
  if (p.state = .bound ∨ p.state = .renewing) ∧ p.leases.values.any (fun l => !l.t2.live now) then
    refresh 6 now
  else if p.state = .bound ∧ p.leases.values.any (fun l => !l.t1.live now) then refresh 5 now

end PdClient

/-! ## The router and its leases -/

/-- The prefix of a delegated one that the stub link uses. -/
def stubPrefix (p : Prefix) : Prefix := ⟨.ofValue (p.address.value / 2 ^ 64 * 2 ^ 64), 64⟩

/-- Whether a live prefix of the infrastructure link overlaps. Reference: `router/pd.rs:545`. -/
def overlapsAil (r : Router) (p : Prefix) (now : Nat) : Bool :=
  r.onLink.iter.any fun e => e.1.1 == .ail && e.2.valid.live now &&
    (e.1.2.contains p.address || p.contains e.1.2.address)

/-- Reference: `Router::pd_conflicts` (`router/pd.rs:541`). -/
def pdConflicts (r : Router) (p : Prefix) (now : Nat) : Bool :=
  stubPrefix p == r.identity.prefix_ .ail || r.overlapsAil (stubPrefix p) now

/-- Whether another router of the stub link supplies a prefix. Reference: `router/pd.rs:597`. -/
def Supplier.counts (r : Router) (key : RouterKey) (s : Supplier) (now : Nat) : Bool :=
  key.1 == .stub && s.live now && (r.neighbors.get key).all fun n => n.state != .failed

/-- The leases that the stub link follows. Reference: `router/pd.rs:590`. -/
def followed (r : Router) (now : Nat) : List LeaseKey :=
  (r.pd.selected now).filter fun key =>
    let p := stubPrefix key.2
    !r.suppliers.entries.any fun e => e.1.2.ula == p.ula &&
      decide (OrdKey.code e.1.2 < OrdKey.code p) && e.2.counts r e.1.1 now

/-- A lease that conflicts is given back. Reference: `router/pd.rs:562`. -/
def releaseConflict (now : Nat) (e : LeaseKey × Lease) : Io Unit := do
  PdClient.queueRelease e.2.server [PdClient.asDelegation now e] now
  updatePd fun p => { p with leases := p.leases.remove e.1 }

/-- A lease that is followed is on link; whether this is new. Reference: `router/pd.rs:611`. -/
def follow (now : Nat) (key : LeaseKey) : Io Bool := do
  let r ← look
  let p := stubPrefix key.2
  match r.pd.leases.get key with
  | none => pure false
  | some lease =>
    update fun r => { r with
      pdPrefixes := r.pdPrefixes.insert p (match r.pdPrefixes.get p with
        | some owned => { owned with lease := key, deprecateAt := none }
        | none => ⟨key, none, .until_ now⟩)
      withdrawals := if r.links.stub.up then r.withdrawals.remove (.ail, p) else r.withdrawals
      onLink := r.onLink.insert (.stub, p) ⟨lease.valid, lease.preferred⟩ }
    pure ((r.pdPrefixes.get p).all fun owned => owned.lease != key || owned.deprecateAt.isSome)

/-- An owned prefix whose lease is not followed begins to be deprecated. Reference:
`router/pd.rs:644`. -/
def deprecateUnfollowed (selected : List LeaseKey) (now : Nat) (p : OwnedPrefix) : OwnedPrefix :=
  if !selected.contains p.lease && p.deprecateAt.isNone then { p with deprecateAt := some now }
  else p

/-- An owned prefix whose lease is gone. Reference: `router/pd.rs:663`. -/
def dropPrefix (p : Prefix) : Io Unit :=
  update fun r => { r with
    pdPrefixes := r.pdPrefixes.remove p
    onLink := r.onLink.remove (.stub, p)
    withdrawals := r.withdrawals.insert (.ail, p) 3 }

/-- Whether a delegation keeps clear of the infrastructure link. Reference: `router/pd.rs:577`. -/
def allowedDelegation (r : Router) (now : Nat) (d : Delegation) : Bool :=
  stubPrefix d.prefix_ != r.identity.prefix_ .ail && !r.overlapsAil (stubPrefix d.prefix_) now

/-- The offers without what overlaps the infrastructure link. Reference: `router/pd.rs:575`. -/
def allowedOffers (r : Router) (now : Nat) : List Offer :=
  (r.pd.offers.map fun o =>
    { o with delegations := o.delegations.filter (r.allowedDelegation now) }).filter
    fun o => !o.delegations.isEmpty

/-- Whether a link's prefix is the router's own. -/
def AilState.own : AilState → Bool
  | .advertising | .beginAdvertising => true
  | _ => false

/-- Reference: `Router::sync_pd` (`router/pd.rs:551`). -/
def syncPd (now : Nat) : Io Unit := do
  let r ← look
  (r.pd.leases.entries.filter fun e => r.pdConflicts e.1.2 now).forM (releaseConflict now)
  update fun r => { r with pd := { r.pd with offers := r.allowedOffers now } }
  let r ← look
  let hadPd := r.pdPrefixes.size ≠ 0
  let selected := r.followed now
  let new ← selected.mapM (follow now)
  let r ← look
  let lapsed := r.pdPrefixes.values.any fun p => !selected.contains p.lease && p.deprecateAt.isNone
  update fun r => { r with
    pdPrefixes := r.pdPrefixes.mapValues fun _ => deprecateUnfollowed selected now }
  let r ← look
  let invalid := r.pdPrefixes.entries.filter fun e =>
    !(r.pd.leases.get e.2.lease).any fun l => l.valid.live now
  invalid.forM fun e => dropPrefix e.1
  let r ← look
  let returns := decide (selected = [] ∧ hadPd) &&
    !(r.suppliers.entries.any fun e => e.2.counts r e.1.1 now) && !(r.state .stub).own
  if returns then
    updateLink .stub fun s => { s with state := .beginAdvertising, deprecateAt := none }
  let r ← look
  let yields := decide (selected ≠ []) && (r.state .stub).own
  if yields then
    updateLink .stub fun s => { s with state := .deprecating, deprecateAt := some now }
  if new.any id || lapsed || !invalid.isEmpty || returns || yields then
    changed .ail now
    changed .stub now

/-- One delegated prefix as an option. Reference: `router/pd.rs:689`. -/
def delegatedPio (r : Router) (now : Nat) (e : Prefix × OwnedPrefix) : Option Pio := do
  let l ← r.pd.leases.get e.2.lease
  let valid := min (l.valid.remaining now) 1800
  let valid := match e.2.deprecateAt with
    | some at_ => min valid (deprecationRemaining at_ now)
    | none => valid
  let preferred := if e.2.deprecateAt.isSome then 0 else min (l.preferred.remaining now) valid
  if valid = 0 ∨ (e.2.deprecateAt.isSome ∧ valid < 206) then none
  else some ⟨e.1, 0xc0, preferred, valid⟩

/-- Reference: `Router::delegated_pios` (`router/pd.rs:685`). -/
def delegatedPios (r : Router) (now : Nat) : List Pio :=
  r.pdPrefixes.entries.filterMap (r.delegatedPio now)

end SnacMachine.Router
