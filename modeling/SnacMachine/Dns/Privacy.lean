import SnacMachine.Dns.Resolver
import SnacMachine.Ip.Nd

/-!
# Encrypted upstream resolvers

The embedding of `dns/privacy.rs` (what a discovery reply designates) and of
`dns/privacy/policy.rs` (the probes that a policy sends, and the route that it gives). For each
origin a policy runs two machines: one probes a designated endpoint over TLS, the other asks the
origin for designations and follows its aliases.
-/

namespace SnacMachine

/-- Socket addresses are compared by address, port, flow and scope. -/
instance : OrdKey SocketAddr :=
  ⟨OrdKey.Code (IpAddr × UInt16 × Nat × Nat), inferInstance,
    fun a => OrdKey.code (a.ip, a.port, a.flow.toNat, a.scope.toNat)⟩
instance : LawfulOrdKey SocketAddr := ⟨fun {a b} h => by
  obtain ⟨hi, h⟩ := Prod.mk.inj (LawfulOrdKey.code_inj (K := IpAddr × UInt16 × Nat × Nat) h)
  obtain ⟨hp, h⟩ := Prod.mk.inj h
  obtain ⟨hf, hs⟩ := Prod.mk.inj h
  cases a
  cases b
  simp_all [UInt32.toNat_inj]⟩

/-! ## Addresses as texts -/

/-- The text of an IPv4 address. Reference: `Display for Ipv4Addr`. -/
def Ipv4Addr.text (a : Ipv4Addr) : String :=
  ".".intercalate (a.1.map fun x => toString x.toNat)

namespace Ipv6Addr

/-- The eight words of an address. -/
def segments (a : Ipv6Addr) : List Nat := (List.range 8).map fun i => Ip.u16At a.1 (2 * i)

/-- The number of zeros at the head of a list. -/
def leadingZeros (l : List Nat) : Nat := (l.takeWhile fun x => x == 0).length

/-- Where the first of the longest runs of zeros begins, and its length. -/
def zeroRun (l : List Nat) : Nat × Nat :=
  (List.range l.length).foldl (fun best i =>
    if leadingZeros (l.drop i) > best.2 then (i, leadingZeros (l.drop i)) else best) (0, 0)

/-- Words in hexadecimal, with colons between them. -/
def wordsText (l : List Nat) : String :=
  ":".intercalate (l.map fun x => String.ofList (Nat.toDigits 16 x))

/-- The text of an IPv6 address. Reference: `Display for Ipv6Addr`. -/
def text (a : Ipv6Addr) : String :=
  if a.isIpv4Mapped then
    "::ffff:" ++ ".".intercalate ((a.1.drop 12).map fun x => toString x.toNat)
  else
    let run := zeroRun a.segments
    if run.2 > 1 then
      wordsText (a.segments.take run.1) ++ "::" ++ wordsText (a.segments.drop (run.1 + run.2))
    else wordsText a.segments

end Ipv6Addr

namespace IpAddr

/-- The text of an address. Reference: `Display for IpAddr`. -/
def text : IpAddr → String
  | .v4 a => a.text
  | .v6 a => a.text

/-- Reference: `local` (`dns/privacy.rs:49`). -/
def local_ : IpAddr → Bool
  | .v4 a =>
    let x := Ip.octet a.1 0
    let y := Ip.octet a.1 1
    (x == 10 || x == 172 && y &&& 0xf0 == 16 || x == 192 && y == 168) ||
      x == 169 && y == 254 || x == 127
  | .v6 a => Ip.octet a.1 0 &&& 0xfe == 0xfc || a.linkLocal || a.isLoopback

end IpAddr

namespace Dns.Privacy

/-! ## Discovery replies -/

/-- Reference: `invalid` (`dns/privacy.rs:22`). -/
def invalid : IoError := ⟨.invalidData, "invalid or excessive DDR response"⟩

/-- Reference: `Discovery` (`dns/privacy.rs:18`). -/
structure Discovery where
  candidates : List Designation
  alias_ : Option (Name × Nat)

/-- The name `resolver.arpa`. -/
def resolverArpa : Name :=
  ⟨[[114, 101, 115, 111, 108, 118, 101, 114], [97, 114, 112, 97]], by decide⟩

/-- The name `_dns.resolver.arpa` that a discovery starts from. -/
def ddrName : Name :=
  ⟨[[95, 100, 110, 115], [114, 101, 115, 111, 108, 118, 101, 114], [97, 114, 112, 97]], by decide⟩

/-- Whether a label is one of a host name. -/
def hostLabel (label : Bytes) : Bool :=
  label.head? != some 45 && label.getLast? != some 45 && label.all fun b =>
    48 ≤ b && b ≤ 57 || 65 ≤ b && b ≤ 90 || 97 ≤ b && b ≤ 122 || b == 45

/-- Reference: `hostname` (`dns/privacy.rs:28`). -/
def hostname (name : Name) : Option String :=
  if name.labels.isEmpty || name == resolverArpa || !name.labels.all hostLabel then none
  else some (".".intercalate (name.labels.map fun l =>
    String.ofList (l.map fun b => Char.ofNat b.toNat)))

/-- The pieces of `n` octets, a shorter last one apart. Reference: `chunks_exact`. -/
def chunksExact (n : Nat) (b : Bytes) : List Bytes :=
  (List.range (b.length / n)).map fun i => (b.drop (i * n)).take n

/-- The priority, target and parameters of a service record. -/
def svcb (r : Record) : Option (UInt16 × Name × List (UInt16 × Bytes)) :=
  match r.data with
  | .svcb priority target params => some (priority, target, params)
  | _ => none

/-- The records that a reply answers with. Reference: `dns/privacy.rs:74`. -/
def replyRecords (m : Message) (name : Name) : List Record :=
  m.answers.filter fun r => r.name == name && r.kind == 64 && r.cls == 1 && r.ttl > 0

/-- The checks of one record. Reference: the first loop of `ddr_candidates`
(`dns/privacy.rs:79`). -/
def checkRecord (r : Record) : Except IoError Unit :=
  match svcb r with
  | none => .error invalid
  | some (priority, _, params) =>
    if params.length > 16 ∨ (params.map fun p => p.2.length).sum > 4096 then .error invalid
    else
      match ({ Message.new 0 0x8000 with answers := [r] } : Message).encode.bind
          fun b => Message.parse b .unicast with
      | none => .error wireInvalid
      | some _ =>
        if priority ≠ 0 ∧ params.any (fun p => p.1 == 4 && p.2.length > 32 ||
            p.1 == 6 && p.2.length > 128) then .error invalid
        else .ok ()

/-- When a record that is processed now runs out. Reference: `deadline` (`dns/privacy.rs:100`). -/
def deadline (now : Nat) (ttl : UInt32) : Nat := satAdd now (min ttl.toNat 86400 * 1000)

/-- Whether a list of protocols has DNS over TLS; `fuel` is the number of octets left. Reference:
`dns/privacy.rs:144`. -/
def hasDot : (fuel : Nat) → Bytes → Bool
  | fuel + 1, n :: rest => rest.take n.toNat == [100, 111, 116] || hasDot fuel (rest.drop n.toNat)
  | _, _ => false

/-- The addresses of the parameters, as kinds and octets. Reference: `dns/privacy.rs:164`. -/
def hints (params : List (UInt16 × Bytes)) : List (Nat × Bytes) :=
  params.flatMap fun p =>
    if p.1 = 4 then (chunksExact 4 p.2).map fun b => (0, b)
    else if p.1 = 6 then (chunksExact 16 p.2).map fun b => (1, b)
    else []

/-- The addresses that a reply adds for a name, with their lifetimes. Reference:
`dns/privacy.rs:180`. -/
def addresses (m : Message) (target : Name) : List (IpAddr × UInt32) :=
  (m.additional.filter fun a => a.name == target && a.cls == 1 && a.ttl > 0).filterMap fun a =>
    match a.data with
    | .a b => some (.v4 b, a.ttl)
    | .aaaa b => some (.v6 b, a.ttl)
    | _ => none

/-- What one record designates. Reference: the second loop of `ddr_candidates`
(`dns/privacy.rs:122`). -/
def candidate (origin : SocketAddr) (m : Message) (now : Nat) (r : Record) :
    Option Designation := do
  let (priority, target, params) ← svcb r
  let serverName ← hostname target
  if params.any (fun p => p.1 == 0 && (chunksExact 2 p.2).any fun v =>
      !([1, 2, 3, 4, 6] : List Nat).contains (ofBe v)) then none
  else
    let alpn ← params.find? fun p => p.1 == 1
    if !hasDot alpn.2.length alpn.2 then none
    else
      let port := ((params.find? fun p => p.1 == 3).map fun p =>
        UInt16.ofNat (ofBe (p.2.take 2))).getD 853
      if port = 0 then none
      else
        let found := addresses m target
        let same := found.filter fun a => a.1 == origin.ip
        if !((hints params).isEmpty && found.isEmpty) &&
            !((hints params).contains origin.ip.octets || !same.isEmpty) then none
        else some ⟨{ origin with port }, serverName, priority,
          same.foldl (fun t a => min t (deadline now a.2)) (deadline now r.ttl)⟩

/-- Whether two designations are of one endpoint and name. -/
def Alike (c d : Designation) : Prop := c.endpoint = d.endpoint ∧ c.serverName = d.serverName

instance (c d : Designation) : Decidable (Alike c d) := inferInstanceAs (Decidable (_ ∧ _))

/-- The first candidate like another, with the lower priority and lifetime of both. -/
def combine (d : Designation) : List Designation → List Designation
  | [] => []
  | c :: cs =>
    if Alike c d then
      { c with priority := min c.priority d.priority, expires := min c.expires d.expires } :: cs
    else c :: combine d cs

/-- The candidates of a reply. Reference: the end of the second loop of `ddr_candidates`
(`dns/privacy.rs:200`). -/
def collect : List Designation → List Designation → Except IoError (List Designation)
  | out, [] => .ok out
  | out, d :: ds =>
    if out.any fun c => Alike c d then collect (combine d out) ds
    else if out.length = 8 then .error ⟨.wouldBlock, "DDR candidate capacity"⟩
    else collect (out ++ [d]) ds

/-- Reference: `ddr_candidates` (`dns/privacy.rs:55`). -/
def ddrCandidates (origin : SocketAddr) (m : Message) (now : Nat) (rng : Random) :
    Except IoError Discovery :=
  match m.questions with
  | [q] =>
    if origin.port = 0 ∨ origin.ip.isUnspecified ∨ origin.ip.isMulticast ∨
        m.flags &&& 0xfa0f ≠ 0x8000 ∨ q.kind ≠ 64 ∨ q.cls ≠ 1 ∨
        m.answers.length + m.authority.length + m.additional.length > 64 then .error invalid
    else do
      let records := replyRecords m q.name
      records.forM checkRecord
      let aliases := records.filter fun r => (svcb r).any fun s => s.1 == 0
      if aliases ≠ [] then
        let i ← rng.sample 0 (aliases.length - 1)
        let r ← ofWire aliases[i]?
        let s ← ofWire (svcb r)
        .ok ⟨[], if !s.2.1.labels.isEmpty && s.2.1 != q.name then
          some (s.2.1, deadline now r.ttl) else none⟩
      else if !origin.ip.local_ then .ok ⟨[], none⟩
      else
        let out ← collect [] (records.filterMap (candidate origin m now))
        .ok ⟨out.mergeSort fun c d => c.priority ≤ d.priority, none⟩
  | _ => .error invalid

/-! ## The policy -/

/-- Reference: `TlsProbe` (`dns/privacy/policy.rs:8`). -/
structure TlsProbe where
  id : Nat
  origin : SocketAddr
  endpoint : SocketAddr
  serverName : String
  expires : Nat

/-- Reference: `DdrProbe` (`dns/privacy/policy.rs:16`). -/
structure DdrProbe where
  id : Nat
  origin : SocketAddr
  name : Name

/-- Reference: `Probe` (`dns/privacy/policy.rs:22`). -/
inductive Probe
  | tls (probe : TlsProbe)
  | ddr (probe : DdrProbe)

/-- Reference: `Route` (`dns/privacy/policy.rs:27`). -/
inductive Route
  | plain (reason : String)
  | tls (target : Designation)

/-- Reference: `TlsState` (`dns/privacy/policy.rs:31`). -/
inductive TlsState
  | due (at_ : Nat)
  | waiting (probe : TlsProbe) (until_ : Nat)
  | idle (until_ : Nat)

/-- Reference: `DdrState` (`dns/privacy/policy.rs:36`). -/
inductive DdrState
  | due (at_ : Nat)
  | waiting (id until_ : Nat)
  | idle (until_ : Nat)

/-- Reference: `Endpoint` (`dns/privacy/policy.rs:41`); the path is never empty, and its names are
kept in the order in which they were followed. -/
structure Endpoint where
  desired : Option Designation
  working : Option Designation
  tls : TlsState
  ddr : DdrState
  path : List Name
  aliasExpires : Nat
  reason : String

namespace Endpoint

/-- Reference: `Endpoint::new` (`dns/privacy/policy.rs:51`). -/
def new (now : Nat) : Endpoint :=
  ⟨none, none, .due now, .due now, [ddrName], u64Max, "probing encrypted DNS"⟩

/-- Reference: `Endpoint::reset_ddr` (`dns/privacy/policy.rs:62`). -/
def resetDdr (e : Endpoint) : Endpoint := { e with path := [ddrName], aliasExpires := u64Max }

/-- The name that the discovery asks for. -/
def asked (e : Endpoint) : Name := e.path.getLastD ddrName

/-- What has run out is dropped. Reference: the head of the loop of `Policy::poll`
(`dns/privacy/policy.rs:159`). -/
def lapse (e : Endpoint) (now : Nat) : Endpoint :=
  let e := { e with desired := e.desired.filter fun t => t.expires > now }
  if e.working.any fun t => t.expires ≤ now then
    { e with working := none, reason := "encrypted designation expired" }
  else e

/-- Reference: the timers of TLS probes in `Policy::poll` (`dns/privacy/policy.rs:166`). -/
def tlsTimer (e : Endpoint) (now : Nat) : Endpoint :=
  match e.tls with
  | .waiting _ until_ =>
    if until_ ≤ now then
      { e with tls := .due (satAdd now 30000), reason := "TLS handshake timeout" }
    else e
  | .idle until_ => if until_ ≤ now then { e with tls := .due now } else e
  | .due _ => e

/-- Reference: the timers of discoveries in `Policy::poll` (`dns/privacy/policy.rs:174`). -/
def ddrTimer (e : Endpoint) (now : Nat) : Endpoint :=
  match e.ddr with
  | .waiting _ until_ =>
    if until_ ≤ now then { e with ddr := .idle (satAdd now 30000) }.resetDdr else e
  | .idle until_ => if until_ ≤ now then { e with ddr := .due now }.resetDdr else e
  | .due _ => e

/-- The designation that a probe tries: the desired one, or the origin's own port for TLS.
Reference: `dns/privacy/policy.rs:186`. -/
def target (e : Endpoint) (origin : SocketAddr) (now : Nat) : Designation :=
  e.desired.getD ⟨{ origin with port := 853 }, origin.ip.text, 65535, satAdd now 300000⟩

/-- The probe of a TLS endpoint. Reference: `dns/privacy/policy.rs:197`. -/
def tlsProbe (e : Endpoint) (origin : SocketAddr) (now id : Nat) : TlsProbe :=
  let t := e.target origin now
  ⟨id, origin, t.endpoint, t.serverName, t.expires⟩

/-- The TLS probe that is due, if there is an id for it: the probes made, the endpoint and the
sequence number. Reference: `dns/privacy/policy.rs:185`. -/
def pollTls (e : Endpoint) (origin : SocketAddr) (now sequence : Nat) :
    Except IoError (List Probe) × Endpoint × Nat :=
  match e.tls with
  | .due at_ =>
    if at_ ≤ now then
      if sequence = u64Max then (.error invalid, e, sequence)
      else
        let probe := e.tlsProbe origin now (sequence + 1)
        (.ok [.tls probe], { e with tls := .waiting probe (min (satAdd now 10000) probe.expires) },
          sequence + 1)
    else (.ok [], e, sequence)
  | _ => (.ok [], e, sequence)

/-- The discovery that is due, if there is an id for it. Reference:
`dns/privacy/policy.rs:210`. -/
def pollDdr (e : Endpoint) (origin : SocketAddr) (now sequence : Nat) :
    Except IoError (List Probe) × Endpoint × Nat :=
  match e.ddr with
  | .due at_ =>
    if at_ ≤ now then
      if sequence = u64Max then (.error invalid, e, sequence)
      else
        (.ok [.ddr ⟨sequence + 1, origin, e.asked⟩],
          { e with ddr := .waiting (sequence + 1) (min (satAdd now 3000) e.aliasExpires) },
          sequence + 1)
    else (.ok [], e, sequence)
  | _ => (.ok [], e, sequence)

/-- One turn of the loop of `Policy::poll`. Reference: `dns/privacy/policy.rs:158`. -/
def poll (e : Endpoint) (origin : SocketAddr) (now sequence : Nat) :
    Except IoError (List Probe) × Endpoint × Nat :=
  match pollTls (((e.lapse now).tlsTimer now).ddrTimer now) origin now sequence with
  | (.error err, e, sequence) => (.error err, e, sequence)
  | (.ok first, e, sequence) =>
    let (r, e, sequence) := pollDdr e origin now sequence
    (r.map (first ++ ·), e, sequence)

end Endpoint

/-- Reference: `Policy` (`dns/privacy/policy.rs:68`). -/
structure Policy where
  endpoints : OrdMap SocketAddr Endpoint
  sequence : Nat
  explicit : Bool

namespace Policy

/-- Reference: `Policy::default` (`dns/privacy/policy.rs:67`). -/
def default : Policy := ⟨.empty, 0, false⟩

/-- An endpoint for an origin that has none. -/
def addOrigin (now : Nat) (endpoints : OrdMap SocketAddr Endpoint) (origin : SocketAddr) :
    OrdMap SocketAddr Endpoint :=
  if endpoints.contains origin then endpoints else endpoints.insert origin (.new now)

/-- Reference: `Policy::sync` (`dns/privacy/policy.rs:77`). -/
def sync (p : Policy) (origins : List SocketAddr) (explicit : Bool) (now : Nat) :
    Except IoError Unit × Policy :=
  if origins.length > 8 ∨
      origins.any fun a => a.port == 0 || a.ip.isUnspecified || a.ip.isMulticast then
    (.error invalid, p)
  else
    let endpoints := if p.explicit ≠ explicit then .empty else p.endpoints
    let endpoints := endpoints.retain fun o _ => origins.contains o
    (.ok (), { p with explicit, endpoints := origins.foldl (addOrigin now) endpoints })

/-- Reference: `Policy::route` (`dns/privacy/policy.rs:114`). -/
def route (p : Policy) (origin : SocketAddr) (now : Nat) : Route :=
  if p.explicit then .plain "explicitly configured DNS service"
  else
    match p.endpoints.get origin with
    | none => .plain "no encrypted resolver evidence"
    | some e =>
      match e.working.filter fun t => t.expires > now with
      | some t => .tls t
      | none => .plain (if e.working.isSome then "encrypted designation expired" else e.reason)

/-- The loop of `Policy::poll` over the origins (`dns/privacy/policy.rs:158`); a turn that fails
ends it, and what the turns before it did stays. -/
def pollLoop (now : Nat) : List SocketAddr → Policy → Except IoError (List Probe) × Policy
  | [], p => (.ok [], p)
  | origin :: origins, p =>
    match p.endpoints.get origin with
    | none => pollLoop now origins p
    | some e =>
      let (r, e, sequence) := e.poll origin now p.sequence
      let p := { p with endpoints := p.endpoints.insert origin e, sequence }
      match r with
      | .error err => (.error err, p)
      | .ok probes =>
        let (r, p) := pollLoop now origins p
        (r.map (probes ++ ·), p)

/-- Reference: `Policy::poll` (`dns/privacy/policy.rs:153`). -/
def poll (p : Policy) (now : Nat) : Except IoError (List Probe) × Policy :=
  if p.explicit then (.ok [], p) else pollLoop now p.endpoints.keys p

/-- Whether an endpoint waits for a TLS probe that may still be reported. -/
def reports (id now : Nat) (e : Endpoint) : Option TlsProbe :=
  match e.tls with
  | .waiting probe until_ =>
    if probe.id ≠ id ∨ until_ ≤ now ∨ probe.expires ≤ now then none else some probe
  | _ => none

/-- Reference: the body of the loop of `Policy::complete_tls` (`dns/privacy/policy.rs:234`). -/
def settle (e : Endpoint) (probe : TlsProbe) (success : Bool) (now : Nat) : Endpoint :=
  if success then
    { e with
      working := some ⟨probe.endpoint, probe.serverName,
        (e.desired.map fun d => d.priority).getD 65535, probe.expires⟩
      tls := .idle probe.expires }
  else { e with tls := .due (satAdd now 30000), reason := "TLS probe failed" }

/-- Reference: `Policy::complete_tls` (`dns/privacy/policy.rs:227`). -/
def completeTls (p : Policy) (id : Nat) (success : Bool) (now : Nat) : Policy :=
  if p.explicit then p
  else
    match p.endpoints.entries.findSome? fun x => (reports id now x.2).map fun probe =>
      (x, probe) with
    | none => p
    | some (x, probe) =>
      { p with endpoints := p.endpoints.insert x.1 (settle x.2 probe success now) }

/-- Reference: `Policy::failed` (`dns/privacy/policy.rs:255`). -/
def failed (p : Policy) (origin endpoint : SocketAddr) (now : Nat) : Policy :=
  match p.endpoints.get origin with
  | none => p
  | some e =>
    if e.working.any fun t => t.endpoint == endpoint then
      { p with endpoints := p.endpoints.insert origin { e with
          working := none
          tls := .due (satAdd now 30000)
          reason := "TLS transport failed; plaintext fallback" } }
    else p

/-- Whether an endpoint waits for a discovery. -/
def awaits (id now : Nat) (e : Endpoint) : Bool :=
  match e.ddr with
  | .waiting token until_ => token == id && now < until_
  | _ => false

/-- What a discovery does to its endpoint. Reference: `Policy::complete_ddr`
(`dns/privacy/policy.rs:284`). -/
def adopt (e : Endpoint) (discovery : Discovery) (now : Nat) : Except IoError Unit × Endpoint :=
  match discovery.alias_ with
  | some (name, expires) =>
    if e.path.length ≥ 17 ∨ e.path.any (· == name) then (.error invalid, e.resetDdr)
    else
      (.ok (), { e with
        path := e.path ++ [name]
        aliasExpires := min e.aliasExpires expires
        ddr := .due now })
  | none =>
    match discovery.candidates.head? with
    | none => (.ok (), e.resetDdr)
    | some target =>
      let target := { target with expires := min target.expires e.aliasExpires }
      let changed := e.desired.all fun old => !decide (Alike old target)
      (.ok (), { e with
        ddr := .idle target.expires
        tls := if changed then .due now else e.tls
        desired := some target }.resetDdr)

/-- What a reply does to the endpoint that waits for it. Reference: `Policy::complete_ddr`
(`dns/privacy/policy.rs:279`). -/
def answer (e : Endpoint) (origin : SocketAddr) (m : Message) (now : Nat) (rng : Random) :
    Except IoError Unit × Endpoint :=
  let e := { e with ddr := .idle (satAdd now 30000) }
  match m.questions with
  | [q] =>
    if q.name != e.asked then (.error invalid, e)
    else
      match ddrCandidates origin m now rng with
      | .error err => (.error err, e)
      | .ok discovery => adopt e discovery now
  | _ => (.error invalid, e)

/-- Reference: `Policy::complete_ddr` (`dns/privacy/policy.rs:265`). -/
def completeDdr (p : Policy) (id : Nat) (m : Message) (now : Nat) (rng : Random) :
    Except IoError Unit × Policy :=
  if p.explicit then (.error invalid, p)
  else
    match p.endpoints.entries.find? fun x => awaits id now x.2 with
    | none => (.error invalid, p)
    | some (origin, e) =>
      let (r, e) := answer e origin m now rng
      (r, { p with endpoints := p.endpoints.insert origin e })

end Policy

end Dns.Privacy

end SnacMachine
