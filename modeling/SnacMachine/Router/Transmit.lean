import SnacMachine.Router.Egress

/-!
# What the router is told

The embedding of `Router::new`, of `Router::transmitted`, which tells the router what became of a
packet that it returned, and of the addresses that services ask for (`router/owned.rs:18`). A `Call`
is a call of the router by its driver, with the clock.
-/

namespace SnacMachine.Router

open Ip Nat64

/-! ## The beginning -/

/-- One link at the beginning. Reference: `router/mod.rs:98`. -/
def newLink (now first next : Nat) : LinkState where
  mac := none
  mtu := 1500
  kind := .ethernet
  up := true
  state := .unknown
  scheduler := ⟨now + next, none, 3, none⟩
  rsCount := 0
  rsNext := now + first
  discoveryEnd := u64Max
  lastValid := .until_ now
  deprecateAt := none

/-- The addresses of the links at the beginning. Reference: `router/mod.rs:131`. -/
def newOwned (identity : Identity) : OrdMap (Link × Ipv6Addr) OwnedAddress :=
  [Link.ail, .stub].foldl (fun m l => m.insert (l, identity.linkLocal l) {
    probeSent := true
    prefix_ := none
    state := .ready
    deadline := none
    attempts := 0 }) .empty

/-- A router at the beginning, with its links. Reference: `router/mod.rs:113`. -/
def fresh (identity : Identity) (nat64 : Selector) (ail stub : LinkState) : Router where
  services := ⟨[], .empty, none, false⟩
  nat64
  ailFrames := ⟨[], 0⟩
  attachment := ⟨.rotate, .empty, .empty, true⟩
  retiredUlas := .empty
  lifecycle := .running
  finalRas := ⟨0, 0⟩
  errorAfter := none
  pdHints := .empty
  pd := .default
  pdPrefixes := .empty
  withdrawals := .empty
  advertisedRoutes := .empty
  routes := .empty
  noStubDefault := false
  alwaysAdvertiseAilRoutes := false
  owned := newOwned identity
  neighbors := .empty
  headers := .empty
  identity
  links := ⟨ail, stub⟩
  suppliers := .empty
  onLink := ⟨.empty, .empty⟩

/-- Reference: `Router::new` (`router/mod.rs:96`). -/
def new (identity : Identity) (now : Nat) (draw : Random) : Except IoError Router := do
  let nat64 ← Selector.new identity.site
  let first ← draw.sample 0 1000
  let next ← draw.sample 1 16000
  let first' ← draw.sample 2 1000
  let next' ← draw.sample 3 16000
  .ok (fresh identity nat64 (newLink now first next) (newLink now first' next'))

/-! ## What was sent -/

/-- A probe that could not be sent is sent again. Reference: `router/mod.rs:748`. -/
def unsent (tx : Tx) (now : Nat) (r : Router) : Router :=
  match envelope .rawIpv6 tx.packet with
  | .error _ => r
  | .ok e =>
    match decodeNd e with
    | .error _ => r
    | .ok nd =>
      if e.source.isUnspecified ∧ nd.kind = 135 then
        { r with owned := r.owned.modify (tx.link, targetOf nd) fun a =>
            if a.state = .tentative then
              { a with probeSent := false, deadline := some (satAdd now 1000) }
            else a }
      else r

/-- A solicitation of routers was sent. Reference: `router/mod.rs:769`. -/
def solicited (now : Nat) (s : LinkState) : LinkState :=
  if s.state = .unknown ∧ s.rsCount < 3 then
    { s with
      rsCount := s.rsCount + 1
      rsNext := satAdd now 4000
      discoveryEnd := satAdd now ((3 - (s.rsCount + 1)) * 4000 + 1000) }
  else s

/-- One of the last advertisements was sent. Reference: `router/mod.rs:780`. -/
def finalSent (link : Link) (r : Router) : Router :=
  if r.lifecycle = .stopping then
    let finalRas := r.finalRas.set link (r.finalRas.get link - 1)
    { r with
      finalRas
      lifecycle := if finalRas.ail = 0 ∧ finalRas.stub = 0 then .stopped else r.lifecycle }
  else r

/-- Whether an advertisement has an option for a prefix. -/
def advertises (nd : Nd) (p : Prefix) : Bool :=
  nd.options.any fun o => (Pio.decode o.bytes).any fun x => x.prefix_ == p

/-- The state of a link after an advertisement. Reference: `router/mod.rs:790`. -/
def advertisedState (nd : Nd) (own : Prefix) (s : AilState) : AilState :=
  let s := if s = .beginAdvertising then .advertising else s
  if s = .deprecating ∧ !advertises nd own then .suitable else s

/-- The exported routes after an option. Reference: the loop of `Router::transmitted`
(`router/mod.rs:801`). -/
def noteExport (link : Link) (now : Nat) (r : Router) (o : NdOption) : Router :=
  match Rio.decode o.bytes with
  | none => r
  | some x =>
    let key := (link, x.prefix_)
    if x.lifetime > 0 then
      { r with
        advertisedRoutes := r.advertisedRoutes.insert key (.fromSecs now x.lifetime)
        withdrawals := r.withdrawals.remove key }
    else if r.advertisedRoutes.contains key then
      let count := (r.withdrawals.get key).getD 3 - 1
      { r with
        withdrawals := r.withdrawals.insert key count
        advertisedRoutes := if count = 0 then r.advertisedRoutes.remove key
          else r.advertisedRoutes }
    else r

/-- The address of a prefix that was advertised. Reference: `router/mod.rs:834`. -/
def ownAddress (link : Link) (now : Nat) (p : Prefix) (r : Router) : Router :=
  if r.lifecycle.ending ||
      r.owned.entries.any (fun e => e.1.1 == link && e.2.prefix_ == some p) then r
  else
    let key := (link, r.identity.address link p)
    if r.owned.contains key then r
    else { r with owned := r.owned.insert key {
      probeSent := false
      prefix_ := some p
      state := .tentative
      deadline := some now
      attempts := 0 } }

/-- The prefixes on link after an option. Reference: the last loop of `Router::transmitted`
(`router/mod.rs:819`). -/
def notePrefix (link : Link) (now : Nat) (r : Router) (o : NdOption) : Router :=
  match Pio.decode o.bytes with
  | none => r
  | some p =>
    let valid := Lifetime.fromSecs now p.valid
    let r := if p.prefix_ = r.identity.prefix_ link then
        { r with links := r.links.set link { r.links.get link with lastValid := valid } }
      else { r with pdPrefixes := r.pdPrefixes.modify p.prefix_ fun x =>
        { x with lastValid := valid } }
    let r := { r with
      onLink := r.onLink.insert (link, p.prefix_) ⟨valid, .fromSecs now p.preferred⟩ }
    r.ownAddress link now p.prefix_

/-- An advertisement was sent. Reference: `router/mod.rs:780`. -/
def sentRa (link : Link) (nd : Nd) (now : Nat) : Io Unit := do
  update (finalSent link)
  servicesTransmitted link nd now
  sent link now
  let own := (← look).identity.prefix_ link
  updateLink link fun s => { s with state := advertisedState nd own s.state }
  update fun r =>
    let r := nd.options.foldl (noteExport link now) r
    { r with withdrawals := r.withdrawals.retain fun _ count => decide (0 < count) }
  update fun r => nd.options.foldl (notePrefix link now) r

/-- Reference: `Router::transmitted` (`router/mod.rs:740`). -/
def transmitted (tx : Tx) (now : Nat) (success : Bool) : Io Unit := do
  if !success then update (unsent tx now)
  else
    match envelope .rawIpv6 tx.packet with
    | .error _ => pure ()
    | .ok e =>
      match decodeNd e with
      | .error _ => pure ()
      | .ok nd =>
        if nd.kind = 133 then updateLink tx.link (solicited now)
        if nd.kind = 134 then sentRa tx.link nd now

/-! ## Addresses for services -/

/-- The prefixes that services get an address of. Reference: `router/owned.rs:23`. -/
def servicePrefixes (r : Router) (now : Nat) : OrdMap (Link × Prefix) Unit :=
  (r.suppliers.entries.filter fun e => e.2.autonomous && e.2.valid.live now &&
    (r.links.get e.1.1.1).up && r.linkReady e.1.1.1).foldl
    (fun m e => m.insert (e.1.1.1, e.1.2) ()) .empty

/-- One of these prefixes. Reference: the loop of `Router::prepare_service_addresses`
(`router/owned.rs:34`). -/
def prepareAddress (now : Nat) (k : Link × Prefix) : Io (List Tx) := do
  let r ← look
  if r.owned.entries.any fun e => e.1.1 == k.1 && e.2.prefix_ == some k.2 then pure []
  else if countOn r.owned (fun x => x.1 == k.1) ≥ 32 then
    degrade now
    other "service address capacity"
  else
    let tx ← beginDad k.1 (r.identity.address k.1 k.2) now
    pure [tx]

/-- Reference: `Router::prepare_service_addresses` (`router/owned.rs:18`). -/
def prepareServiceAddresses (now : Nat) : Io (List Tx) := do
  let out ← ((← look).servicePrefixes now).keys.mapM (prepareAddress now)
  pure out.flatten

/-- The router of a driver that starts. Reference: `Driver::start` (`runtime.rs:191`). -/
def start (now : Nat) : Io (List Tx) := do
  update fun r => { r with lifecycle := .starting }
  [Link.ail, .stub].mapM fun l => do beginDad l ((← look).identity.linkLocal l) now

/-! ## Calls -/

/-- A call of the router by its driver. -/
inductive Call
  | receive (link : Link) (packet : Bytes)
  | receiveFrame (link : Link) (kind : FrameKind) (frame : Bytes)
  | resolveOutput (tx : Tx)
  | start
  | tick
  | transmitted (tx : Tx) (success : Bool)
  | setLink (link : Link) (up : Bool)
  | serviceInventory (resolvers : List Ipv6Addr) (ipv4 : Option Nat) (translator : Bool)
  | prepareServiceAddresses
  | configureNat64 (policy : Policy)
  | configureAttachment (policy : UlaPolicy) (configured : Option String)
  | shutdown

/-- What a call does at a time. -/
def Call.act (now : Nat) : Call → Io (List Tx)
  | .receive link packet => Router.receive link packet now
  | .receiveFrame link kind frame => Router.receiveFrame link kind frame now
  | .resolveOutput tx => Router.resolveOutput tx now
  | .start => Router.start now
  | .tick => Router.tick now
  | .transmitted tx success => do
    Router.transmitted tx now success
    pure []
  | .setLink link up => do
    Router.setLink link up now
    pure []
  | .serviceInventory resolvers ipv4 translator => do
    Router.serviceInventory resolvers ipv4 translator now
    pure []
  | .prepareServiceAddresses => Router.prepareServiceAddresses now
  | .configureNat64 policy => do
    Router.configureNat64 policy now
    pure []
  | .configureAttachment policy configured => do
    Router.configureAttachment policy configured now
    pure []
  | .shutdown => do
    Router.shutdown now
    pure []

/-- A call with its clock and its random source. -/
structure Input where
  call : Call
  now : Nat
  draw : Random

/-- The result of a call and the router after it. -/
def run (r : Router) (i : Input) : Except IoError (List Tx) × Router :=
  let (result, w) := i.call.act i.now ⟨r, i.draw, 0⟩
  (result, w.router)

end SnacMachine.Router
