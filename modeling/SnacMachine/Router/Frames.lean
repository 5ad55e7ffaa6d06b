import SnacMachine.Router.Transmit

/-!
# What each call leaves alone

The state of the router is cut into fields. `only S` is the frame of the computations that change
no field outside `S`; each function of the router comes with the fields that it changes. A property
that reads other fields is then kept by the function (`Changes.keeps`).
-/

namespace SnacMachine.Router

open Ip Nat64 Act

/-! ## Fields -/

/-- The parts of the state of a link. -/
inductive Part
  | up | state | scheduler | discovery | deprecateAt | lastValid | device
  deriving DecidableEq

/-- Two states of a link have the same part. -/
def Part.Agree (s s' : LinkState) : Part → Prop
  | .up => s'.up = s.up
  | .state => s'.state = s.state
  | .scheduler => s'.scheduler = s.scheduler
  | .discovery => (s'.rsCount, s'.rsNext, s'.discoveryEnd) = (s.rsCount, s.rsNext, s.discoveryEnd)
  | .deprecateAt => s'.deprecateAt = s.deprecateAt
  | .lastValid => s'.lastValid = s.lastValid
  | .device => (s'.mac, s'.mtu, s'.kind) = (s.mac, s.mtu, s.kind)

/-- A link agrees with itself in every part. -/
theorem Part.Agree.refl (s : LinkState) (p : Part) : Part.Agree s s p := by
  cases p <;> rfl

/-- Links that agree in a part with a third one in between agree. -/
theorem Part.Agree.trans {s s' s'' : LinkState} {p : Part} (h : Part.Agree s s' p)
    (h' : Part.Agree s' s'' p) : Part.Agree s s'' p := by
  cases p <;> exact Eq.trans h' h

/-- The parts of the state of the router. -/
inductive Field
  | services | nat64 | ailFrames | attachment | retiredUlas | lifecycle | finalRas | errorAfter
  | pdHints | pd | pdPrefixes | withdrawals | advertisedRoutes | routes | settings | owned
  | neighbors | headers | site | iids | identity | suppliers | onAil | onStub
  | link (l : Link) (p : Part)
  deriving DecidableEq

/-- Two routers have the same value of a field. -/
def Agree (r r' : Router) : Field → Prop
  | .services => r'.services = r.services
  | .nat64 => r'.nat64 = r.nat64
  | .ailFrames => r'.ailFrames = r.ailFrames
  | .attachment => r'.attachment = r.attachment
  | .retiredUlas => r'.retiredUlas = r.retiredUlas
  | .lifecycle => r'.lifecycle = r.lifecycle
  | .finalRas => r'.finalRas = r.finalRas
  | .errorAfter => r'.errorAfter = r.errorAfter
  | .pdHints => r'.pdHints = r.pdHints
  | .pd => r'.pd = r.pd
  | .pdPrefixes => r'.pdPrefixes = r.pdPrefixes
  | .withdrawals => r'.withdrawals = r.withdrawals
  | .advertisedRoutes => r'.advertisedRoutes = r.advertisedRoutes
  | .routes => r'.routes = r.routes
  | .settings => (r'.noStubDefault, r'.alwaysAdvertiseAilRoutes) =
      (r.noStubDefault, r.alwaysAdvertiseAilRoutes)
  | .owned => r'.owned = r.owned
  | .neighbors => r'.neighbors = r.neighbors
  | .headers => r'.headers = r.headers
  | .site => r'.identity.site = r.identity.site
  | .iids => r'.identity.iids = r.identity.iids
  | .identity => (r'.identity.attachment, r'.identity.macs, r'.identity.duid) =
      (r.identity.attachment, r.identity.macs, r.identity.duid)
  | .suppliers => r'.suppliers = r.suppliers
  | .onAil => r'.onLink.ail = r.onLink.ail
  | .onStub => r'.onLink.stub = r.onLink.stub
  | .link l p => Part.Agree (r.links.get l) (r'.links.get l) p

/-- A router agrees with itself in every field. -/
theorem Agree.refl (r : Router) (a : Field) : Agree r r a := by
  cases a with
  | link l p => exact Part.Agree.refl _ p
  | _ => rfl

/-- Routers that agree in a field with a third one in between agree. -/
theorem Agree.trans {r r' r'' : Router} {a : Field} (h : Agree r r' a) (h' : Agree r' r'' a) :
    Agree r r'' a := by
  cases a with
  | link l p => exact Part.Agree.trans h h'
  | _ => exact Eq.trans h' h

/-- A router with the fields of `S` as they are in another; the links are left. -/
def restore (S : List Field) (r r' : Router) : Router where
  services := if .services ∈ S then r.services else r'.services
  nat64 := if .nat64 ∈ S then r.nat64 else r'.nat64
  ailFrames := if .ailFrames ∈ S then r.ailFrames else r'.ailFrames
  attachment := if .attachment ∈ S then r.attachment else r'.attachment
  retiredUlas := if .retiredUlas ∈ S then r.retiredUlas else r'.retiredUlas
  lifecycle := if .lifecycle ∈ S then r.lifecycle else r'.lifecycle
  finalRas := if .finalRas ∈ S then r.finalRas else r'.finalRas
  errorAfter := if .errorAfter ∈ S then r.errorAfter else r'.errorAfter
  pdHints := if .pdHints ∈ S then r.pdHints else r'.pdHints
  pd := if .pd ∈ S then r.pd else r'.pd
  pdPrefixes := if .pdPrefixes ∈ S then r.pdPrefixes else r'.pdPrefixes
  withdrawals := if .withdrawals ∈ S then r.withdrawals else r'.withdrawals
  advertisedRoutes := if .advertisedRoutes ∈ S then r.advertisedRoutes else r'.advertisedRoutes
  routes := if .routes ∈ S then r.routes else r'.routes
  noStubDefault := if .settings ∈ S then r.noStubDefault else r'.noStubDefault
  alwaysAdvertiseAilRoutes :=
    if .settings ∈ S then r.alwaysAdvertiseAilRoutes else r'.alwaysAdvertiseAilRoutes
  owned := if .owned ∈ S then r.owned else r'.owned
  neighbors := if .neighbors ∈ S then r.neighbors else r'.neighbors
  headers := if .headers ∈ S then r.headers else r'.headers
  identity :=
    { attachment := if .identity ∈ S then r.identity.attachment else r'.identity.attachment
      site := if .site ∈ S then r.identity.site else r'.identity.site
      iids := if .iids ∈ S then r.identity.iids else r'.identity.iids
      macs := if .identity ∈ S then r.identity.macs else r'.identity.macs
      duid := if .identity ∈ S then r.identity.duid else r'.identity.duid }
  links := r'.links
  suppliers := if .suppliers ∈ S then r.suppliers else r'.suppliers
  onLink :=
    { ail := if .onAil ∈ S then r.onLink.ail else r'.onLink.ail
      stub := if .onStub ∈ S then r.onLink.stub else r'.onLink.stub }

/-- A router that differs in fields of `S` alone agrees in the others. Restoring the fields of `S`
gives the router before, so any other field is the same in both. -/
theorem agree_of_restore {S : List Field} {r r' : Router} (h : restore S r r' = r) {a : Field}
    (ha : a ∉ S) : Agree r r' a := by
  have hset : ∀ {T : Type} (x y : T), (if a ∈ S then x else y) = y := fun x y => if_neg ha
  cases a with
  | link l p =>
    have hlinks : (restore S r r').links = r.links := by rw [h]
    show Part.Agree (r.links.get l) (r'.links.get l) p
    rw [← hlinks]
    exact Part.Agree.refl _ p
  | _ =>
    rw [Agree]
    conv_rhs => rw [← h]
    simp only [restore, hset]

/-- A router that differs in one field alone agrees in the others. -/
theorem agree_of_restore_one (x : Field) {a : Field} {r r' : Router} (h : restore [x] r r' = r)
    (ha : a ≠ x) :
    Agree r r' a :=
  agree_of_restore h fun hmem => ha (List.mem_singleton.1 hmem)

/-- No field but those of `S` changes. -/
def only (S : List Field) : Frame World where
  rel w w' := ∀ a, a ∉ S → Agree w.router w'.router a
  refl _ a _ := Agree.refl _ a
  trans h h' a ha := (h a ha).trans (h' a ha)

/-- The prefixes on a link. -/
def Field.onLink : Link → Field
  | .ail => .onAil
  | .stub => .onStub

end SnacMachine.Router

namespace Act

open SnacMachine SnacMachine.Router

variable {α : Type} {S T : List Field} {R : Frame World} {m : Io α}

/-- What changes some fields only changes no others than these and more. -/
theorem Changes.widen (h : Changes (only S) m) (hS : S ⊆ T) : Changes (only T) m :=
  h.mono fun _ _ hr a ha => hr a fun hmem => ha (hS hmem)

/-- A frame that only looks at fields which are left alone. -/
theorem Changes.keeps {F : List Field} (h : Changes (only S) m)
    (hR : ∀ w w', (∀ a ∈ F, Agree w.router w'.router a) → R.rel w w')
    (hF : ∀ a ∈ F, a ∉ S) : Changes R m :=
  h.mono fun w w' hr => hR w w' fun a ha => hr a (hF a ha)

end Act

namespace SnacMachine.Router

open Ip Nat64 Act

section Rules

variable {α : Type} {S : List Field}

/-- Looking passes the router on. -/
@[simp] theorem look_bind_run (f : Router → Io α) (w : World) : (look >>= f) w = f w.router w := rfl

/-- An update passes the updated router on. -/
@[simp] theorem update_bind_run (g : Router → Router) (f : Unit → Io α) (w : World) :
    (update g >>= f) w = f () { w with router := g w.router } := rfl

/-- An update changes the fields that it does not agree in. -/
theorem update_only {f : Router → Router} (h : ∀ r a, a ∉ S → Agree r (f r) a) :
    Changes (only S) (update f) := fun w => h w.router

/-- An update of fields of `S` that is read off its definition. -/
theorem update_restores {f : Router → Router} (h : ∀ r, restore S r (f r) = r) :
    Changes (only S) (update f) :=
  update_only fun r _ ha => agree_of_restore (h r) ha

/-- An update of one link changes parts of this link only. -/
theorem links_agree {P : List Part} {l : Link} {f : LinkState → LinkState}
    (h : ∀ s p, p ∉ P → Part.Agree s (f s) p) (r : Router) {a : Field} (ha : a ∉ P.map (.link l)) :
    Agree r { r with links := r.links.set l (f (r.links.get l)) } a := by
  cases a with
  | link l' p =>
    rcases Decidable.em (l' = l) with rfl | hl
    · have := h (r.links.get l') p fun hp => ha (List.mem_map_of_mem hp)
      simpa only [Agree, Both.get_set_self] using this
    · simpa only [Agree, Both.get_set_ne _ _ hl] using Part.Agree.refl _ p
  | _ => rfl

/-- The computation that updates a link changes parts of this link only. -/
theorem updateLink_only {P : List Part} {l : Link} {f : LinkState → LinkState}
    (h : ∀ s p, p ∉ P → Part.Agree s (f s) p) :
    Changes (only (P.map (.link l))) (updateLink l f) :=
  update_only fun r _ ha => links_agree h r ha

/-- Looking changes nothing. -/
theorem look_only : Changes (only S) look := fun _ a _ => Agree.refl _ a

/-- Drawing a number changes nothing of the router. -/
theorem sample_only (n : Nat) : Changes (only S) (sample n) := fun _ a _ => Agree.refl _ a

/-- Drawing octets changes nothing of the router. -/
theorem fill_only (n : Nat) : Changes (only S) (fill n) := .bind (sample_only _) fun _ => .pure _

/-- Failing changes nothing. -/
theorem other_only (text : String) : Changes (only S) (other text : Io α) := .fail _

end Rules

/-! ## Schedulers -/

section Schedulers

variable (l : Link) (now : Nat)

/-- Changing when a link advertises changes the scheduler of that link only. -/
theorem updateScheduler_only (f : RaScheduler → RaScheduler) :
    Changes (only [.link l .scheduler]) (updateScheduler l f) :=
  updateLink_only (P := [.scheduler]) fun s p hp => by
    cases p <;> first | rfl | exact absurd List.mem_cons_self hp

/-- Enabling the advertisements of a link changes its scheduler only. -/
theorem enable_only : Changes (only [.link l .scheduler]) (enable l now) :=
  .bind (updateScheduler_only l _) fun _ => .bind (sample_only _) fun _ => updateScheduler_only l _

/-- Announcing a change on a link changes its scheduler only. -/
theorem changed_only : Changes (only [.link l .scheduler]) (changed l now) :=
  .bind (updateScheduler_only l _) fun _ => .bind (sample_only _) fun _ => updateScheduler_only l _

/-- Noting that an advertisement was sent changes the scheduler of its link only. -/
theorem sent_only : Changes (only [.link l .scheduler]) (sent l now) := by
  refine .bind (updateScheduler_only l _) fun _ => .bind look_only fun r => ?_
  refine .ite (.bind (sample_only _) fun _ => updateScheduler_only l _) ?_
  exact .bind (.bind (sample_only _) fun _ => .pure _) fun _ => updateScheduler_only l _

/-- A router solicitation changes the scheduler of its link only. -/
theorem receiveRs_only (nd : Nd) : Changes (only [.link l .scheduler]) (receiveRs l nd now) := by
  refine .ite (other_only _) (.bind look_only fun r => .ite ?_ (.pure _))
  exact .bind (sample_only _) fun _ => updateScheduler_only l _

/-- The fields that `degrade` changes. -/
def degradeFields : List Field := [.lifecycle, .link .ail .scheduler, .link .stub .scheduler]

/-- Degrading ends the full service, and announces it on both links. -/
theorem degrade_only : Changes (only degradeFields) (degrade now) := by
  refine .bind (update_only fun r a ha => ?_) fun _ => .bind ?_ fun _ => ?_
  · exact agree_of_restore rfl ha
  · exact (changed_only .ail now).widen (by decide)
  · exact (changed_only .stub now).widen (by decide)

end Schedulers

/-! ## Delegated prefixes -/

section Delegation

variable (now : Nat)

/-- An update of the prefix delegation changes nothing else. -/
theorem updatePd_only (f : PdClient → PdClient) : Changes (only [.pd]) (updatePd f) :=
  update_restores fun _ => rfl

namespace PdClient

/-- Beginning an exchange changes the prefix delegation only. -/
theorem begin_only (kind : UInt8) (server : Bytes) (next : Nat) :
    Changes (only [.pd]) (begin_ kind server now next) :=
  .bind (updatePd_only _) fun _ => .bind (fill_only _) fun _ => updatePd_only _

/-- Starting to solicit changes the prefix delegation only. -/
theorem start_only : Changes (only [.pd]) (start now) :=
  .bind (updatePd_only _) fun _ => .bind (sample_only _) fun _ => begin_only now _ _ _

/-- Choosing an offer changes the prefix delegation only. -/
theorem choose_only : Changes (only [.pd]) (choose now) := by
  refine .bind look_only fun r => ?_
  split
  · exact .pure _
  · exact .bind (updatePd_only _) fun _ => begin_only now _ _ _

/-- Scheduling a retransmission changes the prefix delegation only. -/
theorem retransmission_only (e : Exchange) (mrt : Nat) :
    Changes (only [.pd]) (retransmission e mrt) :=
  .ite (.bind (sample_only _) fun _ => .pure _) (.bind (sample_only _) fun _ => .pure _)

/-- Sending one release changes the prefix delegation only. -/
theorem pollRelease_only (source : Ipv6Addr) (duid : Bytes) (i : Nat) :
    Changes (only [.pd]) (pollRelease now source duid i) := by
  refine .bind look_only fun r => ?_
  split
  · exact .pure _
  · refine .ite (.pure _) ?_
    dsimp only
    split
    · exact other_only _
    · exact .bind (retransmission_only _ _) fun _ => .bind (updatePd_only _) fun _ => .pure _

/-- Sending the releases that are due changes the prefix delegation only. -/
theorem pollReleases_only (source : Ipv6Addr) (duid : Bytes) :
    Changes (only [.pd]) (pollReleases now source duid) := by
  refine .bind look_only fun r => .bind (.mapM fun i _ => pollRelease_only now _ _ i) fun _ => ?_
  exact .bind (updatePd_only _) fun _ => .pure _

/-- Polling changes the prefix delegation only. Step by step, each of which writes that part or
sends a message. -/
theorem poll_only (source : Ipv6Addr) (duid : Bytes) :
    Changes (only [.pd]) (poll now source duid) := by
  refine .bind look_only fun r => .when (choose_only now) fun _ => ?_
  refine .bind look_only fun r => .when (start_only now) fun _ => ?_
  refine .bind (pollReleases_only now _ _) fun _ => .bind look_only fun r => ?_
  dsimp only
  split
  · exact .pure _
  · refine .ite (.pure _) ?_
    split
    · exact other_only _
    · exact .bind (retransmission_only _ _) fun _ => .bind (updatePd_only _) fun _ => .pure _

/-- Queueing a release changes the prefix delegation only. -/
theorem queueRelease_only (server : Bytes) (prefixes : List Dhcp.Delegation) :
    Changes (only [.pd]) (queueRelease server prefixes now) := by
  refine .ite (.pure _) (.bind look_only fun r => .ite (other_only _) ?_)
  exact .bind (fill_only _) fun _ => updatePd_only _

/-- Installing the prefixes of a reply changes the prefix delegation only. -/
theorem install_only (m : Dhcp.Message) : Changes (only [.pd]) (install m now) := by
  refine .bind look_only fun r => .ite ?_ (.ite (start_only now) (.ite (.pure _) ?_))
  · exact .bind (updatePd_only _) fun _ => begin_only now _ _ _
  · refine .bind (updatePd_only _) fun _ => .bind look_only fun r => .ite ?_ ?_
    · exact .bind (queueRelease_only now _ _) fun _ => .bind (updatePd_only _) fun _ => other_only _
    · refine .bind (updatePd_only _) fun _ => .bind (updatePd_only _) fun _ => ?_
      refine .bind look_only fun r => .bind (updatePd_only _) fun _ => ?_
      exact .bind (queueRelease_only now _ _) fun _ => updatePd_only _

/-- A message of a server changes the prefix delegation only, whatever prefixes are allowed. Every
branch of the source is an update of that part or an installation. -/
theorem receiveWithPolicy_only (e : Envelope) (duid : Bytes) (allowed : Prefix → Bool) :
    Changes (only [.pd]) (receiveWithPolicy e duid now allowed) := by
  unfold receiveWithPolicy
  split
  · exact .pure _
  · split
    · exact .pure _
    · refine .when (updatePd_only _) fun _ => .bind look_only fun r => ?_
      dsimp only
      split
      · exact .pure _
      · refine .ite (.pure _) (.ite (install_only now _) (.ite ?_ (.pure _)))
        split
        · refine .bind (updatePd_only _) fun _ => .ite (.pure _) (.bind look_only fun r => ?_)
          refine .ite (other_only _) (.bind (updatePd_only _) fun _ => ?_)
          exact .ite (choose_only now) (.pure _)
        · refine .bind (.pure _) fun _ => .ite (.pure _) (.bind look_only fun r => ?_)
          refine .ite (other_only _) (.bind (updatePd_only _) fun _ => ?_)
          exact .ite (choose_only now) (.pure _)

/-- Refreshing the leases changes the prefix delegation only. -/
theorem refresh_only (kind : UInt8) : Changes (only [.pd]) (refresh kind now) := by
  refine .bind look_only fun r => .ite (.pure _) ?_
  exact .bind (updatePd_only _) fun _ => begin_only now _ _ _

/-- Going on with the leases changes the prefix delegation only. -/
theorem advance_only : Changes (only [.pd]) (advance now) := by
  refine .bind (updatePd_only _) fun _ => .bind look_only fun r =>
    .when (start_only now) fun _ => ?_
  exact .bind look_only fun r => .ite (refresh_only now _) (.ite (refresh_only now _) (.pure _))

end PdClient

end Delegation

section Leases

variable (now : Nat)

/-- Following a lease changes what is made of delegated prefixes: their state, their withdrawals and
what is on the stub link. -/
theorem follow_only (key : LeaseKey) :
    Changes (only [.pdPrefixes, .withdrawals, .onStub]) (follow now key) := by
  refine .bind look_only fun r => ?_
  dsimp only
  split
  · exact .pure _
  · refine .bind (update_only fun r a ha => ?_) fun _ => .pure _
    exact agree_of_restore rfl ha

/-- Dropping a prefix changes the same fields as following it. -/
theorem dropPrefix_only (p : Prefix) :
    Changes (only [.pdPrefixes, .withdrawals, .onStub]) (dropPrefix p) :=
  update_restores fun _ => rfl

/-- Releasing a conflicting lease changes the prefix delegation only. -/
theorem releaseConflict_only (e : LeaseKey × Lease) :
    Changes (only [.pd]) (releaseConflict now e) :=
  .bind (PdClient.queueRelease_only now _ _) fun _ => updatePd_only _

/-- The fields that `syncPd` changes. -/
def syncPdFields : List Field :=
  [.pd, .pdPrefixes, .withdrawals, .onStub, .link .stub .state, .link .stub .deprecateAt,
    .link .ail .scheduler, .link .stub .scheduler]

/-- The state of the stub link may change when the delegated prefixes do. -/
theorem updateStub_only {f : LinkState → LinkState}
    (h : ∀ s p, p ∉ [Part.state, .deprecateAt] → Part.Agree s (f s) p) :
    Changes (only syncPdFields) (updateLink .stub f) :=
  (updateLink_only h).widen (by decide)

/-- Taking over the delegated prefixes changes these fields, and not the state of the infrastructure
link. -/
theorem syncPd_only : Changes (only syncPdFields) (syncPd now) := by
  refine .bind look_only fun r => .bind (.forM fun e _ => ?_) fun _ => ?_
  · exact (releaseConflict_only now e).widen (by decide)
  refine .bind (update_only fun r a ha => ?_) fun _ => .bind look_only fun r => ?_
  · exact agree_of_restore rfl ha
  refine .bind (.mapM fun k _ => (follow_only now k).widen (by decide)) fun _ => ?_
  refine .bind look_only fun r => .bind (update_only fun r a ha => ?_) fun _ => ?_
  · exact agree_of_restore rfl ha
  refine .bind look_only fun r => .bind (.forM fun e _ => ?_) fun _ => ?_
  · exact (dropPrefix_only e.1).widen (by decide)
  refine .bind look_only fun r => .when (updateStub_only fun s p hp => ?_) fun _ => ?_
  · cases p <;> first | rfl | exact absurd (by decide) hp
  refine .bind look_only fun r => .when (updateStub_only fun s p hp => ?_) fun _ => ?_
  · cases p <;> first | rfl | exact absurd (by decide) hp
  refine .ite (.bind ?_ fun _ => ?_) (.pure _)
  · exact (changed_only .ail now).widen (by decide)
  · exact (changed_only .stub now).widen (by decide)

end Leases

/-! ## Neighbors and packets that are passed on -/

section Neighbors

variable (now : Nat)

/-- An update of a neighbor changes the table of neighbors only. -/
theorem updateNeighbor_only (key : RouterKey) (f : Neighbor → Neighbor) :
    Changes (only [.neighbors]) (updateNeighbor key f) :=
  update_restores fun _ => rfl

/-- Probing a neighbor changes the table of neighbors only. -/
theorem probe_only (key : RouterKey) : Changes (only [.neighbors]) (probe key now) := by
  refine .bind look_only fun r => ?_
  split
  · exact other_only _
  · refine .bind (updateNeighbor_only _ _) fun _ => .bind look_only fun r => ?_
    dsimp only
    split
    · exact other_only _
    · exact .pure _

/-- Forgetting a router changes what is known of neighbors, suppliers and routes. -/
theorem forget_agree (r : Router) (key : RouterKey) {a : Field}
    (ha : a ∉ [Field.neighbors, .suppliers, .routes]) : Agree r (r.forget key) a := by
  exact agree_of_restore rfl ha

/-- What every step of a loop agrees in, the loop agrees in. -/
theorem foldl_agree {α : Type} {S : List Field} {f : Router → α → Router}
    (h : ∀ r x a, a ∉ S → Agree r (f r x) a) (l : List α) (r : Router) {a : Field} (ha : a ∉ S) :
    Agree r (l.foldl f r) a := by
  induction l generalizing r with
  | nil => exact .refl r a
  | cons x l ih => exact (h r x a ha).trans (ih (f r x))

/-- Removing failed neighbors changes what is known of neighbors, suppliers and routes. -/
theorem reapFailedNeighbors_agree (r : Router) {a : Field}
    (ha : a ∉ [Field.neighbors, .suppliers, .routes]) : Agree r (r.reapFailedNeighbors now) a :=
  foldl_agree (fun r key _ hb => forget_agree r key hb) _ r ha

/-- The fields that `forward` changes. -/
def forwardFields : List Field := [.neighbors, .suppliers, .routes, .errorAfter]

/-- The computation that removes failed neighbors changes no more than forwarding does. -/
theorem reap_only : Changes (only forwardFields) (update fun r => r.reapFailedNeighbors now) :=
  update_only fun r _ ha => reapFailedNeighbors_agree now r fun hm =>
    ha ((by decide : [Field.neighbors, .suppliers, .routes] ⊆ forwardFields) hm)

/-- Answering with an error changes no more than forwarding does. -/
theorem icmpError_only (l : Link) (e : Envelope) (kind code : UInt8) (value : Nat) :
    Changes (only forwardFields) (icmpError l e kind code value now) := by
  refine .bind look_only fun r => .ite (.pure _) (.ite (.pure _) ?_)
  split
  · exact .pure _
  · refine .bind (update_only fun r a ha => ?_) fun _ => ?_
    · exact agree_of_restore rfl ha
    · split
      · exact .pure _
      · exact .pure _

/-- Queueing a packet for a neighbor changes the table of neighbors only. -/
theorem queueNeighbor_only (key : RouterKey) (pending : Pending) :
    Changes (only [.neighbors]) (queueNeighbor key pending now) := by
  refine .bind look_only fun r => .ite (.pure _) (.bind (update_only fun r a ha => ?_) fun _ => ?_)
  · exact agree_of_restore rfl ha
  · exact .ite (.bind (probe_only now _) fun _ => .pure _) (.pure _)

/-- Forwarding a packet changes what is known of routers, and when errors may be sent. Every branch
drops the packet, answers it with an error, or passes it to a neighbor. -/
theorem forward_only (l : Link) (e : Envelope) :
    Changes (only forwardFields) (forward l e now) := by
  refine .bind look_only fun r => .ite (.pure _) (.ite (.pure _) ?_)
  split
  · exact icmpError_only now l e _ _ _
  · refine .ite (icmpError_only now l e _ _ _) (.ite (icmpError_only now l e _ _ _) ?_)
    refine .bind (reap_only now) fun _ => .bind look_only fun r =>
      .ite (.ite ?_ ?_) (.bind ?_ fun _ => ?_)
    · exact icmpError_only now l e _ _ _
    · exact (queueNeighbor_only now _ _).widen (by decide)
    · exact (updateNeighbor_only _ _).widen (by decide)
    · exact .pure _

/-- Hearing a router changes the table of neighbors only. -/
theorem observeRouter_only (l : Link) (e : Envelope) (nd : Nd) :
    Changes (only [.neighbors]) (observeRouter l e nd now) := by
  refine .bind look_only fun r => .bind (update_only fun r a ha => ?_) fun _ => ?_
  · exact agree_of_restore rfl ha
  · refine .ite (.ite (.bind (probe_only now _) fun _ => .pure _) ?_) (.pure _)
    exact .bind (updateNeighbor_only _ _) fun _ => .pure _

/-- Sending what waited for a neighbor changes no more than forwarding does. -/
theorem flushPending_only (key : RouterKey) :
    Changes (only forwardFields) (flushPending key now) := by
  refine .bind look_only fun r => .ite ?_ (.pure _)
  split
  · exact .pure _
  · refine .bind ((updateNeighbor_only _ _).widen (by decide)) fun _ => ?_
    split
    · exact .pure _
    · split
      · exact forward_only now _ _
      · exact .pure _

/-- Hearing a neighbor changes no more than forwarding does. -/
theorem observeNeighbor_only (l : Link) (e : Envelope) (nd : Nd) :
    Changes (only forwardFields) (observeNeighbor l e nd now) := by
  refine .ite ((observeRouter_only now l e nd).widen (by decide)) (.ite ?_ (.pure _))
  refine .bind look_only fun r => ?_
  split
  · exact flushPending_only now _
  · refine .bind (update_only fun r a ha => ?_) fun _ => .ite (flushPending_only now _) (.pure _)
    exact agree_of_restore rfl ha

end Neighbors

/-! ## Links and own addresses -/

section Links

variable (l : Link) (now : Nat)

/-- The fields that `beginDad` changes. -/
def dadFields : List Field := [.owned, .link l .discovery]

/-- Beginning to check an address changes what is owned, and the discovery of the link. -/
theorem beginDad_only (address : Ipv6Addr) :
    Changes (only (dadFields l)) (beginDad l address now) := by
  refine .when ?_ fun _ => .bind (update_only fun r a ha => ?_) fun _ => ?_
  · refine (updateLink_only (P := [.discovery]) fun s p hp => ?_).widen (by simp [dadFields])
    cases p <;> first | rfl | exact absurd (by decide) hp
  · exact agree_of_restore rfl ha
  · split
    · exact .pure _
    · exact other_only _

/-- The fields that a link that goes down changes. -/
def downFields : List Field :=
  [.link l .up, .nat64, .lifecycle, .finalRas, .withdrawals, .link .ail .scheduler,
    .link .stub .scheduler, .routes]

/-- The other fields that a link that comes up changes. -/
def upFields : List Field :=
  [.headers, .neighbors, .suppliers, .link l .state, .link l .discovery, .attachment, .pd]

/-- A link that comes up or goes down changes the fields of its direction only. Each part of the
function is an update of some of these fields, or a call whose own frame is among them; what is done
only for a link that comes up is within `upFields`. -/
theorem setLink_only {S : List Field} (up : Bool) (hdown : downFields l ⊆ S)
    (hup : up = true → upFields l ⊆ S) : Changes (only S) (setLink l up now) := by
  refine .bind look_only fun r => .ite (.pure _) (.ite (.pure _) (.bind ?_ fun _ => ?_))
  · refine (updateLink_only (P := [.up]) fun s p hp => ?_).widen fun a ha => hdown ?_
    · cases p <;> first | rfl | exact absurd (by decide) hp
    · rw [List.mem_singleton.1 ha]
      exact List.mem_cons_self
  have hquiet {f : Router → Router} (h : ∀ r a, a ∉ downFields l → Agree r (f r) a) :
      Changes (only S) (update f) := (update_only h).widen hdown
  refine .bind (hquiet fun r a ha => ?_) fun _ => .when (hquiet fun r a ha => ?_) fun _ =>
    .when (hquiet fun r a ha => ?_) fun _ => ?_
  · exact agree_of_restore rfl ha
  · exact agree_of_restore rfl ha
  · exact agree_of_restore rfl ha
  refine .branch ?_ fun h hrest => ?_
  · refine .branch ?_ fun _ hrest => .bind (hquiet fun r a ha => ?_) fun _ =>
      .bind ?_ fun _ => hrest
    · refine .ite (.when (hquiet fun r a ha => ?_) fun _ => ?_) (.pure _)
      · exact agree_of_restore rfl ha
      · refine .bind (hquiet fun r a ha => ?_) fun _ => .bind ?_ fun _ =>
          .branch (.pure _) fun h _ => ?_
        · exact agree_of_restore rfl ha
        · exact ((changed_only .stub now).widen (by simp [downFields])).widen hdown
        · refine .bind ((update_only fun r a ha => ?_).widen (hup h)) fun _ => ?_
          · exact agree_of_restore rfl ha
          · exact ((PdClient.refresh_only now 6).widen (by simp [upFields])).widen (hup h)
    · exact agree_of_restore rfl ha
    · exact ((changed_only .ail now).widen (by simp [downFields])).widen hdown
  · refine .bind ((update_only fun r a ha => ?_).widen (hup h)) fun _ => .bind ?_ fun _ =>
      .bind (sample_only _) fun _ => .bind ?_ fun _ => hrest
    · exact agree_of_restore rfl ha
    · refine ((updateLink_only (P := [.state, .discovery]) fun s p hp => ?_).widen
        (by simp [upFields])).widen (hup h)
      cases p <;> first | rfl | exact absurd (by decide) hp
    · refine ((updateLink_only (P := [.discovery]) fun s p hp => ?_).widen
        (by simp [upFields])).widen (hup h)
      cases p <;> first | rfl | exact absurd (by decide) hp

/-- The fields that `ownedNd` changes. -/
def ownedFields : List Field :=
  [.owned, .iids, .neighbors, .suppliers, .link l .discovery] ++ downFields l

/-- A message about an address of the router changes what is owned, and what a link that goes down
changes. -/
theorem ownedNd_only (e : Envelope) (nd : Nd) :
    Changes (only (ownedFields l)) (ownedNd l e nd now) := by
  refine .ite (.pure _) (.bind look_only fun r => ?_)
  split
  · exact .pure _
  · refine .ite (.ite ?_ ?_) (.ite (.pure _) (.ite ?_ (.ite ?_ ?_)))
    · refine .bind (update_only fun r a ha => ?_) fun _ => .bind ?_ fun _ => other_only _
      · exact agree_of_restore rfl ha
      · exact setLink_only l now false (List.subset_append_right _ _) nofun
    · refine .bind (update_only fun r a ha => ?_) fun _ => .bind (fill_only _) fun _ => ?_
      · exact agree_of_restore rfl ha
      refine .when (update_only fun r a ha => ?_) fun _ => .bind ?_ fun _ => ?_
      · exact agree_of_restore rfl ha
      · exact (beginDad_only l now _).widen (by simp [ownedFields, dadFields])
      · refine .bind (update_only fun r a ha => ?_) fun _ => .pure _
        exact agree_of_restore rfl ha
    · exact .bind look_only fun r => .pure _
    · refine .bind ?_ fun _ => other_only _
      exact (degrade_only now).widen (by simp [ownedFields, degradeFields, downFields])
    · refine .bind (update_only fun r a ha => ?_) fun _ => .bind look_only fun r => .pure _
      refine .trans (reapFailedNeighbors_agree now r fun hm => ha ?_) ?_
      · exact (by simp [ownedFields, downFields] : [Field.neighbors, .suppliers, .routes] ⊆
          ownedFields l) hm
      · exact agree_of_restore rfl ha

end Links

/-! ## Advertisements -/

section Advertisements

variable (l : Link) (now : Nat)

/-- The fields that the admission of an advertisement changes. -/
def admitFields : List Field :=
  [.neighbors, .suppliers, .routes, .headers, .pdHints, .onAil, .onStub] ++ degradeFields

/-- Making room for advertisements removes what is oldest, in the fields of admission. -/
theorem reclaim_agree (r : Router) {a : Field} (ha : a ∉ admitFields) :
    Agree r (r.reclaim now) a := by
  refine .trans (reapFailedNeighbors_agree now r fun hm => ha ?_) ?_
  · exact (by decide : [Field.neighbors, .suppliers, .routes] ⊆ admitFields) hm
  · exact agree_of_restore rfl ha

/-- Admitting an advertisement changes the fields of admission only. -/
theorem admitRa_only (e : Envelope) (nd : Nd) :
    Changes (only admitFields) (admitRa l e nd now) := by
  refine .bind (update_only fun r a ha => reclaim_agree now r ha) fun _ =>
    .bind look_only fun r => ?_
  refine .ite (.bind ?_ fun _ => other_only _) (.pure _)
  exact (degrade_only now).widen (by decide)

/-- The fields that the routes of an advertisement change. -/
def routeFields : List Field := [.routes, .withdrawals, .link .stub .scheduler]

/-- A route that is heard changes the routes, and what is withdrawn and announced on the stub
link. -/
theorem observeRoute_agree (source : Ipv6Addr) (r : Router) (o : NdOption) {a : Field}
    (ha : a ∉ routeFields) : Agree r (observeRoute source now r o) a := by
  unfold observeRoute
  split
  · exact .refl r a
  · split
    · dsimp only
      split <;> split <;>
        exact agree_of_restore rfl ha
    · exact .refl r a

/-- A default route that is heard changes the routes, and what is withdrawn and announced on the
stub link. -/
theorem observeDefault_agree (source : Ipv6Addr) (nd : Nd) (r : Router) {a : Field}
    (ha : a ∉ routeFields) : Agree r (r.observeDefault source nd now) a := by
  unfold observeDefault
  dsimp only
  split <;> exact agree_of_restore rfl ha

/-- The routes of an advertisement change the routes, and what is withdrawn and announced on the
stub link. -/
theorem observeRoutes_only (key : RouterKey) (nd : Nd) :
    Changes (only routeFields) (observeRoutes key nd now) := by
  refine .ite (.pure _) (.bind (update_only fun r a ha => ?_) fun _ => ?_)
  · exact (observeDefault_agree now key.2 nd r ha).trans
      (foldl_agree (fun r o _ hb => observeRoute_agree now key.2 r o hb) _ _ ha)
  · exact (changed_only .stub now).widen (by decide)

/-- Changed exports are withdrawn and announced on the stub link. -/
theorem reconcileExports_only (prior : List Rio) :
    Changes (only [.withdrawals, .link .stub .scheduler]) (reconcileExports prior now) := by
  refine .bind look_only fun r => .bind (update_only fun r a ha => ?_) fun _ => .ite ?_ (.pure _)
  · exact agree_of_restore rfl ha
  · exact (changed_only .stub now).widen (by decide)

/-- A hint about a prefix changes the hints, and what is asked of the server. -/
theorem observeHint_only (p : Pio) : Changes (only [.pdHints, .pd]) (observeHint p now) := by
  refine .bind look_only fun r => .bind (update_only fun r a ha => ?_) fun _ =>
    .bind look_only fun r => .ite ?_ (.pure _)
  · exact agree_of_restore rfl ha
  · exact (PdClient.refresh_only now 6).widen (by decide)

/-- The fields that a prefix on link changes. -/
def onLinkFields : List Field := [.withdrawals, .link .ail .scheduler, .onLink l]

/-- A change of the prefixes on one link leaves those on the other. One case for each field, of
which only two are tables of prefixes. -/
theorem onLink_agree {r : Router} {t : OnLinkTable} {a : Field}
    (hail : l = .stub → t.ail = r.onLink.ail) (hstub : l = .ail → t.stub = r.onLink.stub)
    (ha : a ≠ .onLink l) : Agree r { r with onLink := t } a := by
  cases a with
  | onAil =>
    cases l with
    | ail => exact absurd rfl ha
    | stub => exact hail rfl
  | onStub =>
    cases l with
    | ail => exact hstub rfl
    | stub => exact absurd rfl ha
  | link l p => exact Part.Agree.refl _ p
  | _ => rfl

/-- Noting a prefix that is on a link changes that table only. -/
theorem insert_agree (r : Router) (p : Prefix) (v : OnLink) {a : Field} (ha : a ≠ .onLink l) :
    Agree r { r with onLink := r.onLink.insert (l, p) v } a :=
  onLink_agree l (fun h => by subst h; rfl) (fun h => by subst h; rfl) ha

/-- Removing a prefix from a link changes that table only. -/
theorem remove_agree (r : Router) (p : Prefix) {a : Field} (ha : a ≠ .onLink l) :
    Agree r { r with onLink := r.onLink.remove (l, p) } a :=
  onLink_agree l (fun h => by subst h; rfl) (fun h => by subst h; rfl) ha

/-- Hearing that a prefix is on a link changes that table, and what follows from it. -/
theorem observeOnLink_only (p : Pio) : Changes (only (onLinkFields l)) (observeOnLink l p now) := by
  refine .when (update_only fun r a ha => ?_) fun _ => .bind look_only fun r => .when ?_ fun _ =>
    update_only fun r a ha => ?_
  · exact agree_of_restore_one .withdrawals rfl fun h => ha (by simp [onLinkFields, h])
  · exact (changed_only .ail now).widen (by simp [onLinkFields])
  · have hne : a ≠ .onLink l := fun h => ha (by simp [onLinkFields, h])
    split
    · exact remove_agree l r p.prefix_ hne
    · exact insert_agree l r p.prefix_ _ hne

/-- The fields that a supplier changes. -/
def supplierFields : List Field :=
  [.suppliers, .link l .state, .link l .deprecateAt, .link l .scheduler]

/-- The state of a link may change when a supplier is heard. -/
theorem supplierState_only {P : List Part} {f : LinkState → LinkState}
    (hP : P ⊆ [.state, .deprecateAt]) (h : ∀ s p, p ∉ P → Part.Agree s (f s) p) :
    Changes (only (supplierFields l)) (updateLink l f) := by
  refine (updateLink_only h).widen fun a ha => ?_
  obtain ⟨p, hp, rfl⟩ := List.mem_map.1 ha
  have := hP hp
  simp only [List.mem_cons, List.not_mem_nil, or_false] at this
  rcases this with rfl | rfl <;> simp [supplierFields]

/-- Hearing a supplier changes the suppliers, and the state of the link that follows from them. The
states that are written are those of its own link. -/
theorem observeSupplier_only (source : Ipv6Addr) (flags : UInt8) (p : Pio) :
    Changes (only (supplierFields l)) (observeSupplier (l, source) flags p now) := by
  refine .bind look_only fun r => .branch ?_ fun _ hrest => .bind ?_ fun _ =>
    .bind ?_ fun _ => hrest
  · refine .bind (update_only fun r a ha => ?_) fun _ => .bind look_only fun r => .ite ?_ (.pure _)
    · exact agree_of_restore rfl ha
    · refine .bind ?_ fun _ => .bind look_only fun r => .ite ?_ (.pure _)
      · refine supplierState_only l (P := [.state]) (by decide) fun s p hp => ?_
        cases p <;> first | rfl | exact absurd (by decide) hp
      · exact (enable_only l now).widen (by simp [supplierFields])
  · refine supplierState_only l (P := [.state, .deprecateAt]) (by decide) fun s p hp => ?_
    cases p <;> first | rfl | exact absurd (by decide) hp
  · exact (changed_only l now).widen (by simp [supplierFields])

/-- The fields that an option of an advertisement changes. -/
def optionFields : List Field := [.pdHints, .pd] ++ onLinkFields l ++ supplierFields l

/-- A prefix option changes what its parts do: being on the link, supplying it, and hinting. The
fields of each are among those of the whole. -/
theorem observeOption_only (source : Ipv6Addr) (flags : UInt8) (o : NdOption) :
    Changes (only (optionFields l)) (observeOption (l, source) flags now o) := by
  unfold observeOption
  split
  · exact .pure _
  · refine .when ((observeHint_only now _).widen (by simp [optionFields])) fun _ => ?_
    refine .when ((observeOnLink_only l now _).widen (by simp [optionFields, onLinkFields]))
      fun _ => ?_
    refine .ite ((observeSupplier_only l now _ _ _).widen ?_)
      (.ite (update_only fun r a ha => ?_) (.pure _))
    · simp [optionFields, supplierFields]
    · exact agree_of_restore_one .suppliers rfl fun h => ha (by
        simp [optionFields, supplierFields, h])

/-- The fields that the evidence in an advertisement changes. -/
def evidenceFields : List Field := [.nat64, .attachment, .link l .discovery]

/-- Evidence of a router changes what is known of translation prefixes and of the attachment, and
the discovery of the link. -/
theorem observeEvidence_only (e : Envelope) (nd : Nd) :
    Changes (only (evidenceFields l)) (observeEvidence l e nd now) := by
  refine .bind look_only fun r => .when (update_only fun r a ha => ?_) fun _ => ?_
  · exact agree_of_restore rfl ha
  refine .branch ?_ fun _ hrest => .bind (.lift _) fun _ =>
    .bind (update_only fun r a ha => ?_) fun _ => hrest
  · refine .ite ?_ (.pure _)
    refine (updateLink_only (P := [.discovery]) fun s p hp => ?_).widen (by simp [evidenceFields])
    cases p <;> first | rfl | exact absurd (by decide) hp
  · exact agree_of_restore rfl ha

/-- Noting the header of an advertisement changes the headers only. -/
theorem insertHeader_only (key : RouterKey) (h : Header) :
    Changes (only [.headers]) (update fun r => { r with headers := r.headers.insert key h }) :=
  update_restores fun _ => rfl

end Advertisements

/-! ## Packets

A frame that reads only the fields `F` is kept by the parts of `receive` that leave these alone. -/

/-- The relation of a frame is decided by the fields `F`. -/
def Reads (R : Frame World) (F : List Field) : Prop :=
  ∀ w w', (∀ a ∈ F, Agree w.router w'.router a) → R.rel w w'

/-- What is read from some fields is read from these and more. -/
theorem Reads.widen {R : Frame World} {F F' : List Field} (h : Reads R F) (hF : F ⊆ F') :
    Reads R F' := fun w w' hw => h w w' fun a ha => hw a (hF ha)

section Receive

variable {R : Frame World} {F : List Field} (hR : Reads R F) (l : Link) (e : Envelope) (nd : Nd)
  (now : Nat)

include hR

/-- Receiving an advertisement is within a frame if the frame reads nothing of what is noted besides
its options, and its options are within the frame. -/
theorem receiveRa_changes
    (hF : ∀ a ∈ F, a ∉ admitFields ++ evidenceFields l ++ routeFields ++ [.headers] ++ syncPdFields)
    (hopt : ∀ o ∈ nd.options, Changes R (observeOption (l, e.source) (octet nd.body 5) now o)) :
    Changes R (receiveRa l e nd now) := by
  simp only [List.mem_append, not_or] at hF
  refine .bind ((admitRa_only l now e nd).keeps hR fun a ha => (hF a ha).1.1.1.1) fun _ => ?_
  refine .bind ((observeEvidence_only l now e nd).keeps hR fun a ha => (hF a ha).1.1.1.2) fun _ =>
    ?_
  refine .bind ((observeRoutes_only now _ nd).keeps hR fun a ha => (hF a ha).1.1.2) fun _ => ?_
  refine .bind ((insertHeader_only _ _).keeps hR fun a ha => (hF a ha).1.2) fun _ => ?_
  exact .bind (.forM hopt) fun _ => (syncPd_only now).keeps hR fun a ha => (hF a ha).2

/-- Receiving a discovery message is within a frame if the frame reads nothing of what is noted
besides, and solicitations and advertisements are within it. -/
theorem receiveNd_changes
    (hF : ∀ a ∈ F, a ∉ ownedFields l ++ forwardFields ++
      [.withdrawals, .advertisedRoutes, .link .stub .scheduler])
    (hrs : nd.kind = 133 → Changes R (receiveSolicitation l nd now))
    (hra : nd.kind = 134 → Changes R (receiveRa l e nd now)) :
    Changes R (receiveNd l e nd now) := by
  simp only [List.mem_append, not_or] at hF
  have hlast {α : Type} {m : Io α} {S : List Field} (h : Changes (only S) m)
      (hS : S ⊆ [.withdrawals, .advertisedRoutes, .link .stub .scheduler]) : Changes R m :=
    h.keeps hR fun a ha hm => (hF a ha).2 (hS hm)
  refine .bind (hlast (S := []) look_only nofun) fun r => .bind ?_ fun out => ?_
  · exact (ownedNd_only l now e nd).keeps hR fun a ha => (hF a ha).1.1
  dsimp only
  split
  · exact .pure _
  refine .branch (.branch ?_ fun h hrest => .bind (hra h) fun _ => hrest) fun h hrest =>
    .bind (hrs h) fun _ => hrest
  refine .bind ((observeNeighbor_only now l e nd).keeps hR fun a ha => (hF a ha).1.2) fun _ => ?_
  refine .bind (hlast (reconcileExports_only now _) (by decide)) fun _ => ?_
  refine .bind (hlast (S := []) look_only nofun) fun r => .when ?_ fun _ =>
    .bind ?_ fun _ => .pure _
  · exact hlast (changed_only .stub now) (by decide)
  · refine hlast (S := [.withdrawals, .advertisedRoutes]) (update_only fun r a ha => ?_) (by decide)
    exact agree_of_restore rfl ha

/-- The fields that an answer to the client for delegated prefixes changes. -/
def dhcpFields : List Field := .pd :: .lifecycle :: syncPdFields

omit hR in

/-- A packet of a DHCP server changes the prefix delegation, and what is made of it. An error
degrades the router besides. -/
theorem receiveDhcp_only : Changes (only dhcpFields) (receiveDhcp l e now) := by
  intro w
  have hreceive := ((PdClient.receiveWithPolicy_only now e w.router.identity.duid.1
    (w.router.delegable now)).widen (T := dhcpFields) (by decide)) w
  simp only [receiveDhcp]
  split
  · next err w' h =>
    rw [h] at hreceive
    refine (only dhcpFields).trans hreceive ?_
    exact Changes.bind ((degrade_only now).widen (by decide)) (fun _ => .fail err) w'
  · next w' h =>
    rw [h] at hreceive
    refine (only dhcpFields).trans hreceive ?_
    refine Changes.bind ((syncPd_only now).widen (by decide)) (fun _ => ?_) w'
    refine .bind look_only fun r => .bind ((PdClient.poll_only now _ _).widen (by decide)) fun _ =>
      ?_
    exact .pure _

/-- Receiving a packet is within a frame if the frame reads nothing of errors and DHCP, and
discovery messages are within it. -/
theorem receive_changes {packet : Bytes} (hF : ∀ a ∈ F, a ∉ .errorAfter :: dhcpFields)
    (hnd : ∀ e nd, envelope .rawIpv6 packet = .ok e → decodeNd e = .ok nd →
      Changes R (receiveNd l e nd now)) : Changes R (receive l packet now) := by
  refine .bind (look_only.keeps (S := []) hR nofun) fun r => .ite (.pure _) ?_
  split
  · exact .pure _
  · next e he =>
    refine .ite (.pure _) (.ite ?_ ?_)
    · exact (receiveDhcp_only l e now).keeps hR fun a ha hm => hF a ha (List.mem_cons_of_mem _ hm)
    · split
      · refine .bind (Changes.keeps (S := [.errorAfter]) (update_only fun r a ha => ?_) hR
          fun a ha hm => hF a ha ?_) fun _ => .pure _
        · exact agree_of_restore rfl ha
        · rw [List.mem_singleton.1 hm]
          exact List.mem_cons_self
      · refine .ite (.pure _) ?_
        split
        · exact .pure _
        · next nd hnd' => exact hnd e nd he hnd'

end Receive

end SnacMachine.Router
