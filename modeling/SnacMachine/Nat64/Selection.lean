import SnacMachine.Ip.Nd
import SnacMachine.Lib.Total
import SnacMachine.Lib.Word

/-!
# Selection of NAT64 prefixes

The embedding of `nat64/selection.rs` and of the observations of `nat64/mod.rs`. A `Selector` keeps
the prefixes that other routers advertise and those that it has promised itself; `select` decides
what to announce, and `advertised` records what was announced as promised.
-/

namespace SnacMachine.Nat64

open Ip

/-- Reference: `invalid` (`nat64/mod.rs:7`). -/
def invalidEvidence : IoError := ⟨.invalidData, "invalid NAT64 configuration or evidence"⟩

/-- Reference: `usable` (`nat64/mod.rs:13`). -/
def usable (p : Prefix) : Bool :=
  [32, 40, 48, 56, 64, 96].contains p.length && p.routable && !p.address.isIpv4Mapped &&
    Prefix.new p.address p.length == some p

/-- Reference: `Link` (`lib.rs:7`). -/
inductive Link
  | ail
  | stub
  deriving DecidableEq

/-- Links are compared by their index. -/
instance : OrdKey Link := ⟨Nat, inferInstance, fun l => match l with | .ail => 0 | .stub => 1⟩
instance : LawfulOrdKey Link := ⟨fun {a b} h => by cases a <;> cases b <;> first | rfl | cases h⟩

/-! ## Observations -/

/-- Reference: `Observations` (`nat64/mod.rs:20`). -/
structure Observations where
  entries : OrdMap (Link × Ipv6Addr × Prefix) Nat

namespace Observations

/-- Reference: `Observations::expire` (`nat64/mod.rs:33`). -/
def expire (s : Observations) (now : Nat) : Observations :=
  ⟨s.entries.retain fun _ until_ => until_ > now⟩

/-- Reference: `Observations::link_lost` (`nat64/mod.rs:36`). -/
def linkLost (s : Observations) (link : Link) : Observations :=
  ⟨s.entries.retain fun k _ => k.1 != link⟩

/-- The entries after one PREF64 option. Reference: the loop of `Observations::receive`
(`nat64/mod.rs:50`). -/
def observe (link : Link) (source : Ipv6Addr) (now : Nat)
    (next : OrdMap (Link × Ipv6Addr × Prefix) Nat) (o : NdOption) :
    OrdMap (Link × Ipv6Addr × Prefix) Nat :=
  match (Pref64.decode o.bytes).filter fun p => usable p.prefix_ with
  | none => next
  | some p =>
    if p.lifetime = 0 then next.remove (link, source, p.prefix_)
    else next.insert (link, source, p.prefix_) (satAdd now (p.lifetime * 1000))

/-- Reference: `Observations::receive` (`nat64/mod.rs:39`). -/
def receive (s : Observations) (link : Link) (packet : Bytes) (now : Nat) :
    Except IoError Unit × Observations :=
  if packet.length > 4096 then (.error invalidEvidence, s)
  else
    match envelope .rawIpv6 packet with
    | .error _ => (.error invalidEvidence, s)
    | .ok e =>
      match decodeNd e with
      | .error _ => (.error invalidEvidence, s)
      | .ok nd =>
        if nd.kind ≠ 134 ∨ e.packet.length ≠ packet.length then (.error invalidEvidence, s)
        else
          let next := s.entries.retain fun _ until_ => until_ > now
          let next := (nd.options.filter fun o => o.kind == 38).foldl
            (observe link e.source now) next
          if (next.keys.filter fun k => k.1 == link).length > 32 then
            (.error ⟨.wouldBlock, "PREF64 observation capacity"⟩, s)
          else (.ok (), ⟨next⟩)

/-- The live prefixes after one entry. Reference: the loop of `Observations::live`
(`nat64/mod.rs:78`). -/
def liveStep (link : Link) (now : Nat) (reachable : Ipv6Addr → Bool) (prefixes : OrdMap Prefix Nat)
    (e : (Link × Ipv6Addr × Prefix) × Nat) : OrdMap Prefix Nat :=
  if e.1.1 = link ∧ e.2 > now ∧ reachable e.1.2.1 then
    match prefixes.get e.1.2.2 with
    | some v => prefixes.insert e.1.2.2 (max v e.2)
    | none => prefixes.insert e.1.2.2 e.2
  else prefixes

/-- Reference: `Observations::live` (`nat64/mod.rs:71`). -/
def live (s : Observations) (link : Link) (now : Nat) (reachable : Ipv6Addr → Bool) :
    List (Prefix × Nat) :=
  (s.entries.entries.foldl (liveStep link now reachable) .empty).entries

end Observations

/-! ## The selector -/

/-- Reference: `Policy` (`nat64/selection.rs:4`). -/
structure Policy where
  enabled : Bool
  infrastructure : Option Prefix
  allowWithoutPd : Bool
  deriving DecidableEq

/-- Reference: `Policy::default` (`nat64/selection.rs:9`). -/
def Policy.default : Policy := ⟨true, none, false⟩

/-- Reference: `Policy::validate` (`nat64/selection.rs:19`). -/
def Policy.validate (p : Policy) : Except IoError Unit :=
  if p.infrastructure.any fun p => !usable p then .error invalidEvidence else .ok ()

/-- Reference: `Readiness` (`nat64/selection.rs:27`). -/
structure Readiness where
  pd : Option Nat
  ipv4 : Option Nat
  stub : Option Nat
  translator : Bool

/-- Reference: `Mode` (`nat64/selection.rs:34`). -/
inductive Mode
  | disabled | none | local_ | infrastructure | peer
  deriving DecidableEq

/-- Reference: `Source` (`nat64/selection.rs:42`). -/
inductive Source
  | local_ | infrastructure | configured
  deriving DecidableEq

/-- Reference: `Announcement` (`nat64/selection.rs:48`). -/
structure Announcement where
  pref64 : Pref64
  source : Source
  deriving DecidableEq

/-- Reference: `Decision` (`nat64/selection.rs:53`). -/
structure Decision where
  mode : Mode
  announcements : List Announcement
  routes : List Rio
  reason : String

/-- What was promised of a prefix: on whose account, until when, and whether it was withdrawn. -/
structure Promise where
  source : Source
  until_ : Nat
  withdrawn : Bool

/-- Reference: `Selector` (`nat64/selection.rs:59`). -/
structure Selector where
  policy : Policy
  observations : Observations
  local_ : Prefix
  promised : OrdMap Prefix Promise
  suppressed : Bool
  status : Mode × String
  blocked : OrdMap Prefix Unit

/-- Reference: `remaining` (`nat64/selection.rs:422`). -/
def remaining (until_ now : Nat) : Nat := min ((until_ - now) / 1000) 65528 / 8 * 8

namespace Selector

/-- The prefix of the site's own translator. Reference: `Selector::new`
(`nat64/selection.rs:70`). -/
def localOf (site : Prefix) : Except IoError Prefix :=
  if site.length ≠ 48 ∨ !site.ula ∨ Prefix.new site.address 48 ≠ some site then
    .error invalidEvidence
  else
    match Prefix.new (.ofValue (site.address.value ||| 0xffff <<< 64)) 96 with
    | some p => .ok p
    | none => .error invalidEvidence

/-- Reference: `Selector::new` (`nat64/selection.rs:69`). -/
def new (site : Prefix) : Except IoError Selector := do
  let local_ ← localOf site
  .ok ⟨.default, ⟨.empty⟩, local_, .empty, false, (.none, "awaiting service readiness"), .empty⟩

/-- Reference: `Selector::expire` (`nat64/selection.rs:85`). -/
def expire (s : Selector) (now : Nat) : Selector :=
  { s with
    observations := s.observations.expire now
    promised := s.promised.retain fun _ p => p.until_ > now }

/-- Reference: `Selector::rotate_local` (`nat64/selection.rs:89`). -/
def rotateLocal (s : Selector) (site : Prefix) (now : Nat) : Except IoError Unit × Selector :=
  match localOf site with
  | .error e => (.error e, s)
  | .ok local_ =>
    let s := s.expire now
    if local_ ≠ s.local_ ∧ !s.promised.contains local_ ∧ s.promised.size = 8 then
      (.error ⟨.wouldBlock, "NAT64 retirement capacity"⟩, s)
    else (.ok (), { s with local_ })

/-- A set with more prefixes. -/
def extend (set : OrdMap Prefix Unit) (prefixes : List Prefix) : OrdMap Prefix Unit :=
  prefixes.foldl (fun set p => set.insert p ()) set

/-- Reference: `Selector::configure` (`nat64/selection.rs:124`). -/
def configure (s : Selector) (policy : Policy) : Except IoError Unit × Selector :=
  match policy.validate with
  | .error e => (.error e, s)
  | .ok () =>
    if s.policy ≠ policy then
      if !policy.enabled then
        let seen := s.observations.entries.keys.map fun k => k.2.2
        let s := { s with blocked := extend s.blocked seen }
        let blocked := extend s.blocked (seen ++ s.promised.keys ++
          s.policy.infrastructure.toList ++ policy.infrastructure.toList)
        if blocked.size > 74 then
          (.error ⟨.wouldBlock, "disabled NAT64 prefix history capacity"⟩, s)
        else (.ok (), { s with blocked, observations := ⟨.empty⟩, suppressed := false, policy })
      else
        (.ok (), { s with
          blocked := .empty, observations := ⟨.empty⟩, suppressed := false, policy })
    else (.ok (), { s with policy })

/-- Reference: `Selector::receive` (`nat64/selection.rs:183`). -/
def receive (s : Selector) (link : Link) (packet : Bytes) (now : Nat) :
    Except IoError Unit × Selector :=
  if !s.policy.enabled then (.ok (), s)
  else
    let (r, observations) := s.observations.receive link packet now
    (r, { s with observations })

/-- Reference: `Selector::link_lost` (`nat64/selection.rs:189`). -/
def linkLost (s : Selector) (link : Link) : Selector :=
  { s with observations := s.observations.linkLost link }

/-- The promises after one announcement: `none` for a prefix that is not usable. Reference: the loop
of `Selector::advertised` (`nat64/selection.rs:205`). -/
def promise (now : Nat) (next : OrdMap Prefix Promise) (a : Announcement) :
    Option (OrdMap Prefix Promise) :=
  if !usable a.pref64.prefix_ then none
  else if a.pref64.lifetime = 0 then
    match next.get a.pref64.prefix_ with
    | some p => some (next.insert a.pref64.prefix_ { p with withdrawn := true })
    | none => some next
  else
    some (next.insert a.pref64.prefix_
      ⟨a.source, satAdd now (min a.pref64.lifetime 65528 / 8 * 8 * 1000), false⟩)

/-- Reference: `Selector::advertised` (`nat64/selection.rs:199`). -/
def advertised (s : Selector) (announcements : List Announcement) (now : Nat) :
    Except IoError Unit × Selector :=
  if announcements.length > 8 then (.error invalidEvidence, s)
  else
    match announcements.foldlM (promise now) (s.promised.retain fun _ p => p.until_ > now) with
    | none => (.error invalidEvidence, s)
    | some next =>
      if next.size > 8 then (.error ⟨.wouldBlock, "NAT64 advertisement history capacity"⟩, s)
      else (.ok (), { s with promised := next })

/-- Reference: `Selector::announcement_failed` (`nat64/selection.rs:236`). -/
def announcementFailed (s : Selector) (mode : Mode) (now : Nat) : Selector :=
  if mode = .infrastructure ∧ s.observations.live .stub now (fun _ => true) ≠ [] then
    { s with suppressed := true }
  else s

section Select

variable (now : Nat) (ready : Readiness) (reachable : Link → Ipv6Addr → Bool)
  (route : Prefix → Option Nat)

/-- The prefixes of others that may be announced. Reference: `nat64/selection.rs:320`. -/
def candidates (s : Selector) : List (Prefix × Nat × Source) :=
  match s.policy.infrastructure with
  | some p => [(p, u64Max, .configured)]
  | none => (s.observations.live .ail now (reachable .ail)).map fun c => (c.1, c.2, .infrastructure)

/-- How long a candidate is backed: by its route, by the stub path and by the delegated prefix.
Reference: `nat64/selection.rs:336`. -/
def backing (s : Selector) (stub : Nat) (pd : Option Nat) (c : Prefix × Nat × Source) :
    Option Nat := do
  let routed ← route c.1
  let leased ← (if s.policy.allowWithoutPd then some u64Max else pd : Option Nat)
  some (min (min (min c.2.1 routed) stub) leased)

/-- The loop over the candidates: what is announced, and whether one found no slot. Reference: the
iterator of `Selector::select_active` (`nat64/selection.rs:333`). -/
def announceEach (s : Selector) (stub : Nat) (pd : Option Nat) :
    List (Prefix × Nat × Source) → Nat → Nat → Bool → List Announcement × Bool
  | [], _, _, failed => ([], failed)
  | c :: cs, slots, taken, failed =>
    if taken = 8 then ([], failed)
    else
      match s.backing route stub pd c with
      | none => announceEach s stub pd cs slots taken failed
      | some until_ =>
        let lifetime := remaining until_ now
        if lifetime = 0 then announceEach s stub pd cs slots taken failed
        else if s.promised.contains c.1 then
          let rest := announceEach s stub pd cs slots (taken + 1) failed
          (⟨⟨c.1, lifetime⟩, c.2.2⟩ :: rest.1, rest.2)
        else if slots = 0 then announceEach s stub pd cs slots taken true
        else
          let rest := announceEach s stub pd cs (slots - 1) (taken + 1) failed
          (⟨⟨c.1, lifetime⟩, c.2.2⟩ :: rest.1, rest.2)

/-- A decision to announce nothing. -/
def quiet (mode : Mode) (reason : String) : Decision := ⟨mode, [], [], reason⟩

/-- A decision to announce, with a route for each announcement. -/
def announcing (mode : Mode) (announcements : List Announcement) (reason : String) : Decision :=
  ⟨mode, announcements, announcements.map fun a => ⟨a.pref64.prefix_, .medium, a.pref64.lifetime⟩,
    reason⟩

/-- The last part of `select_active`: the site's own translator. Reference:
`nat64/selection.rs:377`. -/
def selectLocal (s : Selector) (stub : Nat) (peer : Bool) : Decision :=
  let active := (s.promised.get s.local_).any fun p =>
    p.source == .local_ && p.until_ > now && !p.withdrawn
  let none_ := quiet .none "no usable translation path or advertisement capacity"
  if peer && !active then quiet .peer "a reachable stub peer already provides NAT64"
  else if ready.translator then
    match ready.ipv4.filter fun t => t > now with
    | none => none_
    | some ipv4 =>
      let lifetime := remaining (min (min ipv4 stub) (satAdd now 1800000)) now
      if lifetime > 0 ∧ (s.promised.contains s.local_ ∨ s.promised.size < 8) then
        announcing .local_ [⟨⟨s.local_, lifetime⟩, .local_⟩]
          "local translator and IPv4 path are ready"
      else none_
  else none_

/-- The part of `select_active` after what has expired is dropped. Reference:
`nat64/selection.rs:305`. -/
def selectCurrent (s : Selector) : Decision × Selector :=
  if !s.policy.enabled then (quiet .disabled "administratively disabled", s)
  else
    match ready.stub.filter fun t => t > now with
    | none => (quiet .none "stub address or return path is not ready", s)
    | some stub =>
      if s.suppressed then
        (quiet .peer
          "announcement admission failed; waiting for all peer advertisements to disappear", s)
      else
        let peer := s.observations.live .stub now (reachable .stub) != []
        let pd := ready.pd.filter fun t => t > now
        if pd.isSome || s.policy.allowWithoutPd then
          let (announcements, failed) := announceEach now route s stub pd
            (s.candidates now reachable) (8 - s.promised.size) 0 false
          let s :=
            if announcements = [] ∧ failed then s.announcementFailed .infrastructure now else s
          if announcements = [] ∧ failed ∧ s.suppressed then
            (quiet .peer
              "infrastructure advertisement history is full; waiting for peers to expire", s)
          else if announcements ≠ [] then
            (announcing .infrastructure announcements
              "usable infrastructure translation with a return route", s)
          else (s.selectLocal now ready stub peer, s)
        else (s.selectLocal now ready stub peer, s)

/-- Reference: `Selector::select_active` (`nat64/selection.rs:280`). -/
def selectActive (s : Selector) : Decision × Selector :=
  let s := s.expire now
  selectCurrent now ready reachable route { s with
    suppressed := if s.observations.live .stub now (fun _ => true) = [] then false
      else s.suppressed }

/-- The decision after one promise: a promise that is not announced is withdrawn, and its route
stays as long as it can be used. Reference: the loop of `Selector::select`
(`nat64/selection.rs:250`). -/
def withdraw (s : Selector) (d : Decision) (e : Prefix × Promise) : Decision :=
  if d.announcements.any fun a => a.pref64.prefix_ == e.1 then d
  else
    let announcements := if !e.2.withdrawn then d.announcements ++ [⟨⟨e.1, 0⟩, e.2.source⟩]
      else d.announcements
    let life := if s.policy.enabled && e.2.source == .local_ && ready.translator then
        (min (min e.2.until_ (ready.ipv4.getD now)) (ready.stub.getD now) - now) / 1000
      else 0
    { d with announcements, routes := d.routes ++ [⟨e.1, .medium, min life (2 ^ 32 - 1)⟩] }

/-- Reference: `Selector::select` (`nat64/selection.rs:243`). -/
def select (s : Selector) : Decision × Selector :=
  let (decision, s) := s.selectActive now ready reachable route
  let decision := s.promised.entries.foldl (s.withdraw now ready) decision
  (decision, { s with status := (decision.mode, decision.reason) })

end Select

end Selector

end SnacMachine.Nat64
