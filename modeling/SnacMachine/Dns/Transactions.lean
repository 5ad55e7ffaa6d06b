import SnacMachine.Dns.Resolver

/-!
# The calls of the resolver

The public operations of the resolver (`dns/resolver.rs`, `dns/resolver/*.rs`) as functions from a
state to an outcome, and the machine that performs them at nondecreasing moments.
-/

namespace SnacMachine.Dns

open Discovery

/-- A call for each of a list, the actions in order; the first error ends it and drops the actions
gathered so far. -/
def each {α : Type} (f : Resolver → α → Outcome) : List α → Resolver → (out : List Action) → Outcome
  | [], r, out => (.ok out, r)
  | x :: xs, r, out => match f r x with
    | (.error e, r) => (.error e, r)
    | (.ok acts, r) => each f xs r (out ++ acts)

/-- How a query is dealt with before the cache is asked. -/
inductive Dispatch
  | done (result : Except IoError (List Action))
  | discover (m : Message) (key : Bytes) (w : Waiter)
  | forward (m : Message) (key : Bytes) (w : Waiter)

/-- A record of an unknown protocol version. Reference: `dns/resolver.rs:523`. -/
def badVersion (m : Message) : Bool := m.additional.any fun r => (r.ttl >>> 16) &&& 255 != 0

/-- Reference: `dns/resolver.rs:524`. -/
def versionReply (m : Message) : Message :=
  { Message.new m.id (0x8080 ||| (m.flags &&& 0x110)) with
    questions := m.questions
    additional := [⟨Name.root, 41, 4096, 0x1000000, .opt []⟩] }

/-- Whether the query asks for the delegation of a name that is not served here. Reference:
`dns/resolver.rs:542`. -/
def dsException (m : Message) (q : Question) : Bool :=
  inZone q.name serviceArpa && q.kind == 43 &&
    m.additional.any fun r => r.kind == 41 && r.ttl &&& 0x8000 != 0

/-- Whether a message is no query that the resolver takes. Reference: `dns/resolver.rs:512`. -/
def notQuery (m : Message) : Bool :=
  m.flags &&& 0xf800 != 0 || m.questions.length != 1 || !m.answers.isEmpty ||
  !m.authority.isEmpty ||
    m.additional.any fun r => r.kind != 41

/-- Whether a client cannot be answered. Reference: `dns/resolver.rs:441`. -/
def Client.refused (c : Client) : Bool :=
  c.address.port == 0 || c.address.ip.isMulticast || c.address.ip.isUnspecified

namespace Resolver

/-- Reference: `Resolver::answer_local` (`dns/resolver.rs:293`). -/
def answerLocal (r : Resolver) (client : Client) (query answer : Bytes)
    (lookup : Question → Option Bytes) : Except IoError (List Action) := do
  let q ← ofWire (Message.parse query .unicast)
  let m ← ofWire (Message.parse answer .unicast)
  match q.questions with
  | [question] =>
    if q.flags &&& 0xf800 != 0 || m.flags &&& 0xf800 != 0x8000 || m.questions != q.questions then
      .error invalid
    else
      let bytes := match additionalQuestion m question r.additionalA with
        | none => answer
        | some aq => match (lookup aq).bind fun b => Message.parse b .unicast with
          | none => answer
          | some a =>
            if a.flags &&& 0xf800 == 0x8000 && a.questions == [aq] then
              (augment answer a aq.name).getD answer
            else answer
      (ofWire (deliver ⟨client, q.id, clientLimit client q⟩ bytes)).map fun action => [action]
  | _ => .error invalid

/-- The answer to a question from the registry or the inventory, if they have one. Reference:
`dns/resolver.rs:540`. -/
def localAnswer (o : Outside) (r : Resolver) (client : Client) (bytes : Bytes) (m : Message)
    (q : Question) : Option (Except IoError (List Action)) :=
  let registered := o.records.bind fun records =>
    if !dsException m q && q.cls == 1 && !(records q.name 255).isEmpty then
      let answer := fun (q : Question) =>
        let a := { Message.new m.id (0x8400 ||| (m.flags &&& 0x100)) with
          questions := [q]
          answers := records q.name q.kind }
        a.encode
      some ((ofWire (answer q)).bind fun b => r.answerLocal client bytes b answer)
    else none
  match registered with
  | some result => some result
  | none =>
    if dsException m q then none
    else match o.inventory q with
      | .error e => some (.error e)
      | .ok none => none
      | .ok (some a) =>
        let a := { a with flags := a.flags ||| (m.flags &&& 0x110) }
        some ((ofWire a.encode).bind fun b => r.answerLocal client bytes b fun q =>
          match o.inventory q with
          | .ok (some a) => a.encode
          | _ => none)

/-- What happens to a query before the cache is asked. Reference: `Resolver::submit`
(`dns/resolver.rs:433`), up to line 606. -/
def dispatch (o : Outside) (r : Resolver) (client : Client) (bytes : Bytes) (now : Nat) :
    Dispatch × Resolver :=
  match Message.parse bytes .unicast with
  | none => (.done (.error wireInvalid), r)
  | some m =>
    if client.refused then (.done (.error invalid), r)
    else match r.admitSource client.address.ip now with
      | (.error e, r) => (.done (.error e), r)
      | (.ok (), r) =>
        if m.flags &&& 0xf800 == 0x2800 then (.done (o.update client bytes), r)
        else if notQuery m then (.done (.error invalid), r)
        else match m.questions with
          | [] => (.done (.error invalid), r)
          | q :: _ =>
            let waiter : Waiter := ⟨client, m.id, clientLimit client m⟩
            let reply := fun (b : Option Bytes) =>
              Dispatch.done ((ofWire (b.bind fun b => deliver waiter b)).map fun action => [action])
            if badVersion m then (reply (versionReply m).encode, r)
            else match r.localAnswer o client bytes m q with
              | some result => (.done result, r)
              | none => match queryKey m with
                | none => (.done (.error wireInvalid), r)
                | some key =>
                  if inZone q.name resolverArpa then (reply (failure m 0), r)
                  else if !dsException m q && (r.discovery.any fun d => d.accepts q) then
                    (.discover m key waiter, r)
                  else if !dsException m q &&
                      (inZone q.name serviceArpa || r.localZones.any fun z => inZone q.name z) then
                    (reply (failure m 3), r)
                  else (.forward m key waiter, r)

/-- Reference: `Resolver::submit_discovery` (`dns/resolver/discovery.rs:54`). -/
def submitDiscovery (r : Resolver) (m : Message) (key : Bytes) (w : Waiter) (now : Nat) : Outcome :=
  if r.full w then (.error capacity, r)
  else match r.discovered.entries.find? fun e => e.2.key == key with
    | some (id, p) =>
      (.ok [], { r with
        discovered := r.discovered.insert id { p with waiters := p.waiters ++ [w] } })
    | none =>
      if r.pendingCount ≥ maxPending then (.error capacity, r)
      else match m.questions, r.discovery with
        | q :: _, some d =>
          let p : Discovered := ⟨key, m, q, 0, [w], none, false, .empty⟩
          if r.pendingBytes + p.charge + 8192 > maxBytes then (.error capacity, r)
          else if r.next % 2 ^ 64 = u64Max then (.error capacity, r)
          else match d.start q now with
            | .error e => (.error e, r)
            | .ok (job, d) =>
              (.ok [], { r with
                discovery := some d
                next := r.next + 1
                discovered := r.discovered.insert ((r.next + 1) % 2 ^ 64) { p with job } })
        | _, _ => (.error invalid, r)

/-- The cache without what has expired. -/
def expireCache (r : Resolver) (now : Nat) : Resolver :=
  { r with cache := r.cache.retain fun _ c => decide (c.expires > now) }

/-- The answer to a query from the cache. Reference: `dns/resolver.rs:608`. -/
def answerCached (r : Resolver) (key : Bytes) (c : Cache) (w : Waiter) (now : Nat) : Outcome :=
  (ofWire ((decay c.wire ((now - c.inserted) / 1000)).bind fun b =>
      (deliver w b).map fun action => [action]),
    { r with cache := r.cache.insert key { c with last := now } })

/-- A query that is new to the upstream servers. Reference: `dns/resolver.rs:623`. -/
def enqueue (o : Outside) (r : Resolver) (m : Message) (key : Bytes) (w : Waiter) (bytes : Bytes)
    (now : Nat) : Outcome :=
  if r.full w then (.error capacity, r)
  else match r.pending.entries.find? fun e => e.2.key == key with
    | some (id, p) =>
      (.ok [], { r with pending := r.pending.insert id { p with waiters := p.waiters ++ [w] } })
    | none => match r.upstreams, m.questions with
      | server :: _, q :: _ =>
        if r.pendingCount ≥ maxPending then (.error capacity, r)
        else match r.makeQuery o bytes server with
          | .error e => (.error e, r)
          | .ok query =>
            let r := { r with next := r.next + 1 }
            let p : Pending := {
              purpose := .client
              key
              original := m
              query
              question := q
              waiters := [w]
              deadline := satAdd now 10000
              retry := satAdd now 1000
              attempt := 0
              base := none
              forwardCache := true
              aliases := .empty }
            if r.pendingBytes + p.charge > maxBytes then (.error capacity, r)
            else
              (.ok [.upstream query], { r with pending := r.pending.insert query.exchange p })
      | _, _ =>
        (ofWire ((failure m 2).bind fun b => (deliver w b).map fun action => [action]), r)

/-- Reference: `Resolver::submit` (`dns/resolver.rs:433`). -/
def submit (o : Outside) (r : Resolver) (client : Client) (bytes : Bytes) (now : Nat) : Outcome :=
  match r.dispatch o client bytes now with
  | (.done result, r) => (result, r)
  | (.discover m key w, r) => r.submitDiscovery m key w now
  | (.forward m key w, r) =>
    let r := r.expireCache now
    match r.cache.get key with
    | some c => r.answerCached key c w now
    | none => r.enqueue o m key w bytes now

/-- The query, its key, its waiter and the entry of the cache, if a query is answered from it. -/
def hit (o : Outside) (r : Resolver) (client : Client) (bytes : Bytes) (now : Nat) :
    Option (Message × Bytes × Waiter × Cache) :=
  match r.dispatch o client bytes now with
  | (.forward m key w, r) => ((r.expireCache now).cache.get key).map fun c => (m, key, w, c)
  | _ => none

/-- Whether a reply of an upstream server is one that the entry waits for. Reference:
`dns/resolver.rs:704`. -/
def expected (o : Outside) (r : Resolver) (p : Pending) (server : SocketAddr) (port : UInt16)
    (tcp : Bool) (now : Nat) : Bool :=
  !((r.privacy && !r.upstreams.contains p.query.origin) ||
    (p.query.tls.any fun t =>
      !(r.privacy && o.liveTls p.query.origin p.query.server t.serverName)) ||
    server != p.query.server || port != p.query.sourcePort || tcp != p.query.tcp ||
    decide (now ≥ p.deadline))

/-- Reference: `Resolver::receive` (`dns/resolver.rs:691`). -/
def receive (o : Outside) (r : Resolver) (exchange : Nat) (server : SocketAddr) (port : UInt16)
    (tcp : Bool) (bytes : Bytes) (now : Nat) : Outcome :=
  match r.pending.get exchange with
  | none => (.ok [], r)
  | some p =>
    if !r.expected o p server port tcp now then (.ok [], r)
    else match Message.parse bytes .unicast with
      | none => (.ok [], r)
      | some m =>
        if m.flags &&& 0xf800 != 0x8000 || m.id != u16At p.query.bytes 0 ||
            m.questions != [p.question] then (.ok [], r)
        else if m.flags &&& 0x200 != 0 then
          if tcp then (.ok [], r)
          else
            let query := { p.query with tcp := true }
            (.ok [.upstream query], { r with
              pending := r.pending.insert exchange { p with query, retry := p.deadline } })
        else
          let r := { r with pending := r.pending.remove exchange }
          match p.base with
          | some base =>
            let p := { p with base := none }
            match additionalAlias m p.question p.aliases with
            | (some next, aliases) =>
              r.continueAdditional o (.fromPending { p with aliases }) next base now
            | (none, aliases) =>
              r.finish { p with aliases } ((augment base m p.question.name).getD base) now
          | none => match additionalQuestion m p.question r.additionalA with
            | some aq => r.continueAdditional o (.fromPending p) aq bytes now
            | none => r.finish p bytes now

/-- What a client is told that gets no other answer. Reference: `dns/resolver.rs:878`. -/
def lastReply (p : Pending) : Option Bytes :=
  match p.base with
  | some b => some b
  | none => failure p.original 2

/-- Reference: `Resolver::fail_upstream` (`dns/resolver/privacy.rs:100`). -/
def failUpstream (o : Outside) (r : Resolver) (exchange : Nat) (now : Nat) : Outcome :=
  match r.pending.get exchange with
  | none => (.ok [], r)
  | some p =>
    let r := { r with pending := r.pending.remove exchange }
    match r.upstreams with
    | first :: _ =>
      if now ≥ p.deadline ∨ p.purpose ≠ .client then match lastReply p with
        | none => (.error wireInvalid, r)
        | some b => r.finish { p with base := none } b now
      else
        let origin := if r.upstreams.contains p.query.origin then p.query.origin else first
        match r.makeQuery o p.query.bytes origin with
        | .error e => (.error e, r)
        | .ok query =>
          let p := { p with query, retry := min (satAdd now 1000) p.deadline }
          (.ok [.upstream query], { r with
            next := r.next + 1
            pending := r.pending.insert query.exchange p })
    | [] => match lastReply p with
      | none => (.error wireInvalid, r)
      | some b => r.finish { p with base := none } b now

/-- One round of the loop of `tick` (`dns/resolver.rs:871`). -/
def tickOne (o : Outside) (now : Nat) (r : Resolver) (id : Nat) : Outcome :=
  match r.pending.get id with
  | none => (.ok [], r)
  | some p =>
    if r.privacy && !r.upstreams.contains p.query.origin then r.failUpstream o id now
    else
      let r := { r with pending := r.pending.remove id }
      if now ≥ p.deadline then match lastReply p with
        | none => (.error wireInvalid, r)
        | some b => r.finish { p with base := none } b now
      else if now ≥ p.retry ∧ p.query.tcp = false then
        let attempt := p.attempt + 1
        let server := r.upstreams.getD (attempt % max r.upstreams.length 1) p.query.server
        match r.makeQuery o p.query.bytes server with
        | .error e => (.error e, r)
        | .ok query =>
          let retry := min (satAdd now (1000 * 2 ^ min attempt 3)) p.deadline
          let p := { p with query, attempt, retry }
          (.ok [.upstream query], { r with
            next := r.next + 1
            pending := r.pending.insert query.exchange p })
      else (.ok [], { r with pending := r.pending.insert p.query.exchange p })

/-- Reference: `Resolver::tick` (`dns/resolver.rs:863`). -/
def tick (o : Outside) (r : Resolver) (now : Nat) : Outcome :=
  let r := { r with rates := r.rates.retain fun _ e => decide (e.1 > now) }
  let r := r.expireCache now
  each (tickOne o now) r.pending.keys r []

/-- A question that the resolver asks for itself, of an upstream server, until some moment. -/
structure Probe where
  purpose : Purpose
  question : Question
  origin : SocketAddr
  until_ : Nat
  plain : Bool

/-- One question of `poll_privacy` (`dns/resolver/privacy.rs:43`), which is sent in the clear
(`plain`), or of `poll_browsing` (`dns/resolver/browse.rs:12`). -/
def probeOne (o : Outside) (r : Resolver) (probe : Probe) : Outcome :=
  if r.pendingCount ≥ maxPending ∨ r.pendingBytes + 16384 > maxBytes then (.ok [], r)
  else
    let message := { Message.new 0 0x100 with questions := [probe.question] }
    match message.encode with
    | none => (.error wireInvalid, r)
    | some bytes => match r.makeQuery o bytes probe.origin, Message.parse bytes .unicast with
      | .error e, _ => (.error e, r)
      | .ok _, none => (.error wireInvalid, { r with next := r.next + 1 })
      | .ok query, some original =>
        let query := if probe.plain then
            { query with server := probe.origin, tls := none, tcp := false }
          else query
        let r := { r with next := r.next + 1 }
        let p : Pending := {
          purpose := probe.purpose
          key := []
          original
          query
          question := probe.question
          waiters := []
          deadline := probe.until_
          retry := probe.until_
          attempt := 0
          base := none
          forwardCache := false
          aliases := .empty }
        if r.pendingBytes + p.charge ≤ maxBytes then
          (.ok [], { r with pending := r.pending.insert query.exchange p })
        else (.ok [], r)

/-- The DDR questions of `poll_privacy` (`dns/resolver/privacy.rs:29`): the identifier, the name and
the server of each. -/
def pollPrivacy (o : Outside) (r : Resolver) (probes : List (Nat × Name × SocketAddr)) (now : Nat) :
    Outcome :=
  if r.privacy then
    each (probeOne o) (probes.map fun p =>
      ⟨.ddr p.1, ⟨p.2.1, 64, 1⟩, p.2.2, satAdd now 3000, true⟩) r []
  else (.ok [], r)

/-- The questions of `poll_browsing` (`dns/resolver/browse.rs:11`): the identifier, the question,
the server and the end of each. -/
def pollBrowsing (o : Outside) (r : Resolver) (probes : List (Nat × Question × SocketAddr × Nat)) :
    Outcome :=
  each (probeOne o) (probes.map fun p => ⟨.browse p.1, p.2.1, p.2.2.1, p.2.2.2, false⟩) r []

/-- An answer of the Discovery Proxy as the answer to a query. Reference:
`dns/resolver/discovery.rs:143`. -/
def answerTo (done : Completion) (original : Message) : Message :=
  { done.answer with
    id := original.id
    flags := done.answer.flags ||| (original.flags &&& 0x110) }

/-- An entry whose job is done. Reference: `dns/resolver/discovery.rs:141`. -/
def discoverOne (o : Outside) (now : Nat) (done : Completion) (r : Resolver) (id : Nat) : Outcome :=
  match r.discovered.get id with
  | none => (.ok [], r)
  | some p =>
    let r := { r with discovered := r.discovered.remove id }
    let answer := answerTo done p.original
    match p.base with
    | some base =>
      let p := { p with base := none }
      match additionalAlias answer p.question p.aliases with
      | (some next, aliases) => r.continueAdditional o { p with aliases } next base now
      | (none, aliases) =>
        r.finishDiscovered { p with aliases } ((augment base answer p.question.name).getD base) now
    | none => match answer.encode with
      | none => (.error wireInvalid, r)
      | some bytes => match additionalQuestion answer p.question r.additionalA with
        | some aq => r.continueAdditional o p aq bytes now
        | none => r.finishDiscovered p bytes now

/-- The entries of a job that is done. Reference: `dns/resolver/discovery.rs:136`. -/
def discoverDone (o : Outside) (now : Nat) (r : Resolver) (done : Completion) : Outcome :=
  each (discoverOne o now done)
    ((r.discovered.entries.filter fun e => e.2.job == done.id).map Prod.fst) r []

/-- Reference: `Resolver::poll_discovery_with_source` (`dns/resolver/discovery.rs:106`). That the
publisher's projections are read without an error is `ready`. -/
def pollDiscovery (o : Outside) (r : Resolver) (ready : Except IoError Unit)
    (answer : Nat → Except IoError (Option Found)) (started : Nat → Started)
    (now : Nat) : Outcome :=
  match r.discovery, ready with
  | none, _ => (.ok [], r)
  | some _, .error e => (.error e, r)
  | some d, .ok () => match d.poll answer started with
    | (.error e, d) => (.error e, { r with discovery := some d })
    | (.ok completed, d) => each (discoverDone o now) completed { r with discovery := some d } []

/-! ## Configuration -/

/-- Reference: `Resolver::cancel_unused_discovery` (`dns/resolver/discovery.rs:49`). -/
def cancelUnusedDiscovery (r : Resolver) : Resolver :=
  { r with discovery := r.discovery.map fun d =>
      d.retainJobs fun id => r.discovered.values.any fun p => p.job == id }

/-- Reference: `Resolver::cancel_connection` (`dns/resolver.rs:356`). -/
def cancelConnection (r : Resolver) (id : Nat) : Resolver :=
  let stays := fun (w : Waiter) => w.client.connection != some id
  let pending := r.pending.mapValues fun _ p => { p with waiters := p.waiters.filter stays }
  let discovered := r.discovered.mapValues fun _ p => { p with waiters := p.waiters.filter stays }
  let r := { r with
    pending := pending.retain fun _ p => !p.waiters.isEmpty || p.purpose != Purpose.client
    discovered := discovered.retain fun _ p => !p.waiters.isEmpty }
  r.cancelUnusedDiscovery

/-- The list without repetitions, in the order of the first occurrences. -/
def unique : (seen : List SocketAddr) → List SocketAddr → List SocketAddr
  | seen, [] => seen
  | seen, a :: as => if seen.contains a then unique seen as else unique (seen ++ [a]) as

/-- Reference: `Resolver::set_upstreams` (`dns/resolver.rs:333`). -/
def setUpstreams (r : Resolver) (endpoints : List SocketAddr) : Outcome :=
  if endpoints.length > 8 ∨
      endpoints.any fun a => a.port == 0 || a.ip.isUnspecified || a.ip.isMulticast then
    (.error invalid, r)
  else
    let upstreams := unique [] endpoints
    (.ok [], { r with
      upstreams
      cache := if upstreams ≠ r.upstreams then .empty else r.cache })

/-- Reference: `Resolver::configure_upstream_privacy` (`dns/resolver/privacy.rs:4`). Whether the
browser takes the origins and which of its questions are live then is given, and whether the policy
takes them. -/
def configureUpstreamPrivacy (r : Resolver) (origins : List SocketAddr) (explicit : Bool)
    (browser : Except IoError (Nat → Bool)) (policy : Except IoError Unit) : Outcome :=
  match r.setUpstreams origins with
  | (.error e, r) => (.error e, r)
  | (.ok _, r) => match browser with
    | .error e => (.error e, r)
    | .ok live =>
      let r := { r with
        privacy := true
        pending := r.pending.retain fun _ p => match p.purpose with
          | .client => true
          | .ddr _ => !explicit && origins.contains p.query.origin
          | .browse id => live id }
      (policy.map fun _ => [], r)

/-- Reference: `Resolver::configure_browsing` (`dns/resolver/browse.rs:3`). -/
def configureBrowsing (r : Resolver) (browser : Except IoError (Nat → Bool)) : Outcome :=
  match browser with
  | .error e => (.error e, r)
  | .ok live =>
    (.ok [], { r with pending := r.pending.retain fun _ p => match p.purpose with
      | .browse id => live id
      | _ => true })

/-- Reference: `Resolver::set_additional_a` (`dns/resolver.rs:326`). -/
def setAdditionalA (r : Resolver) (enabled : Bool) : Resolver :=
  { r with
    additionalA := enabled
    cache := if r.additionalA ≠ enabled then .empty else r.cache }

/-- Reference: `Resolver::set_local_zones` (`dns/resolver.rs:284`). -/
def setLocalZones (r : Resolver) (zones : List Name) : Outcome :=
  if zones.length > 8 ∨ zones.any fun z => z.labels.isEmpty then (.error invalid, r)
  else (.ok [], { r with localZones := zones, cache := .empty })

/-- Reference: `Resolver::enable_discovery` (`dns/resolver/discovery.rs:35`). -/
def enableDiscovery (r : Resolver) (zone : Zone) : Outcome :=
  match r.discovery with
  | some _ => (.error ⟨.other, "Discovery Proxy already configured"⟩, r)
  | none => (.ok [], { r with discovery := some ⟨zone, .empty, 0, false⟩, cache := .empty })

/-- The replacement of the Discovery Proxy and of the local zones by `configure_zones`
(`dns/resolver.rs:149`), after the zones were checked. -/
def configureZones (r : Resolver) (zone : Zone) (zones : List Name) : Outcome :=
  if r.pendingCount ≠ 0 ∨ r.discovery.any fun d => d.jobs.size != 0 then
    (.error ⟨.other, "cannot change active DNS namespaces"⟩, r)
  else match r.setLocalZones zones with
    | (.error e, r) => (.error e, r)
    | (.ok out, r) => (.ok out, { r with discovery := some ⟨zone, .empty, 0, false⟩ })

/-! ## The machine -/

/-- The calls of the resolver. -/
inductive Call
  | submit (client : Client) (bytes : Bytes)
  | receive (exchange : Nat) (server : SocketAddr) (port : UInt16) (tcp : Bool) (bytes : Bytes)
  | tick
  | failUpstream (exchange : Nat)
  | pollPrivacy (probes : List (Nat × Name × SocketAddr))
  | pollBrowsing (probes : List (Nat × Question × SocketAddr × Nat))
  | pollDiscovery (ready : Except IoError Unit) (answer : Nat → Except IoError (Option Found))
      (started : Nat → Started)
  | cancelConnection (id : Nat)
  | setUpstreams (endpoints : List SocketAddr)
  | configureUpstreamPrivacy (origins : List SocketAddr) (explicit : Bool)
      (browser : Except IoError (Nat → Bool)) (policy : Except IoError Unit)
  | configureBrowsing (browser : Except IoError (Nat → Bool))
  | setAdditionalA (enabled : Bool)
  | setLocalZones (zones : List Name)
  | enableDiscovery (zone : Zone)
  | configureZones (zone : Zone) (zones : List Name)
  | enableSrp

/-- A call, what its surroundings answer and its moment. -/
structure Op where
  call : Call
  outside : Outside
  time : Nat

/-- What an operation does. -/
def step (r : Resolver) (op : Op) : Outcome :=
  match op.call with
  | .submit client bytes => r.submit op.outside client bytes op.time
  | .receive exchange server port tcp bytes =>
    r.receive op.outside exchange server port tcp bytes op.time
  | .tick => r.tick op.outside op.time
  | .failUpstream exchange => r.failUpstream op.outside exchange op.time
  | .pollPrivacy probes => r.pollPrivacy op.outside probes op.time
  | .pollBrowsing probes => r.pollBrowsing op.outside probes
  | .pollDiscovery ready answer started => r.pollDiscovery op.outside ready answer started op.time
  | .cancelConnection id => (.ok [], r.cancelConnection id)
  | .setUpstreams endpoints => r.setUpstreams endpoints
  | .configureUpstreamPrivacy origins explicit browser policy =>
    r.configureUpstreamPrivacy origins explicit browser policy
  | .configureBrowsing browser => r.configureBrowsing browser
  | .setAdditionalA enabled => (.ok [], r.setAdditionalA enabled)
  | .setLocalZones zones => r.setLocalZones zones
  | .enableDiscovery zone => r.enableDiscovery zone
  | .configureZones zone zones => r.configureZones zone zones
  | .enableSrp => (.ok [], { r with cache := .empty })

/-- The resolver as a machine, its callers promising what `legal` says. -/
def machine (legal : Resolver → Op → Prop) : Machine Resolver Op (Except IoError (List Action)) :=
  ⟨fun r op => let out := r.step op; (out.2, out.1), Op.time, legal⟩

/-- The state after some operations. -/
def after (r : Resolver) : List Op → Resolver
  | [] => r
  | op :: ops => after (r.step op).2 ops

/-- A run of no operations leaves the state. -/
theorem after_nil (r : Resolver) : r.after [] = r := rfl

/-- A run is its first operation and the rest. -/
theorem after_cons (r : Resolver) (op : Op) (ops : List Op) :
    r.after (op :: ops) = after (r.step op).2 ops := rfl

/-- The step of a query is the call that receives it. -/
theorem step_submit (r : Resolver) (client : Client) (bytes : Bytes) (o : Outside) (t : Nat) :
    r.step ⟨.submit client bytes, o, t⟩ = r.submit o client bytes t := rfl

/-- The step of an answer is the call that receives it. -/
theorem step_receive (r : Resolver) (exchange : Nat) (server : SocketAddr)
    (port : UInt16) (tcp : Bool) (bytes : Bytes) (o : Outside) (t : Nat) :
    r.step ⟨.receive exchange server port tcp bytes, o, t⟩ =
      r.receive o exchange server port tcp bytes t := rfl

/-- Operations at nondecreasing moments, the first one not before `t`. -/
def Ordered : (t : Nat) → List Op → Prop
  | _, [] => True
  | t, op :: ops => t ≤ op.time ∧ Ordered op.time ops

/-- The moment of the last operation. -/
def lastTime : (t : Nat) → List Op → Nat
  | t, [] => t
  | _, op :: ops => lastTime op.time ops

/-- Operations at nondecreasing moments, each of them legal, are a run. -/
theorem run_after {legal : Resolver → Op → Prop} {r₀ : Resolver} {t₀ : Nat} (ops : List Op) :
    ∀ {es : List (Op × Except IoError (List Action))} {r : Resolver} {t : Nat},
      (machine legal).Run r₀ t₀ es r t → Ordered t ops →
      (∀ n op, ops[n]? = some op → legal (r.after (ops.take n)) op) →
      ∃ es', (machine legal).Run r₀ t₀ es' (r.after ops) (lastTime t ops) := by
  induction ops with
  | nil => exact fun run _ _ => ⟨_, run⟩
  | cons op ops ih =>
    intro es r t run hordered hlegal
    exact ih (run.snoc op hordered.1 (hlegal 0 op rfl)) hordered.2 fun n op' h =>
      hlegal (n + 1) op' h

end Resolver

end SnacMachine.Dns
