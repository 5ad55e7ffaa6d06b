import SnacMachine.Dns.Caching

/-!
# Padded queries

A client may fill a query up to any length with an option that nobody knows. The queries of `padded`
are of every length; how they are encoded and read, and what the resolver makes of one that it
forwards (`submit_padded`), is computed once for all of them.
-/

namespace SnacMachine.Dns

/-- An OPT record of `n` octets of an unknown option. -/
def padding (n : Nat) : Record := ⟨Name.root, 41, 4096, 0, .opt [(65001, List.replicate n 0)]⟩

/-- A query with a padding. -/
def padded (id : UInt16) (q : Question) (n : Nat) : Message :=
  { Message.new id 0x100 with
    questions := [q]
    additional := [padding n] }

/-- The padding record takes 15 octets besides its data. -/
theorem length_recordWire_padding (n : Nat) : (recordWire (padding n)).length = n + 15 := by
  simp only [recordWire, padding, dataWire, optionsWire, List.flatMap_cons, List.flatMap_nil,
    List.append_nil, List.length_append, length_toBe, List.length_replicate]
  have : Name.root.wire.length = 1 := by decide
  omega

/-- How long a padded query is; the sample queries choose `n` by it. -/
theorem length_padded (id : UInt16) (q : Question) (n : Nat) :
    (padded id q n).plain.length = 31 + q.name.wire.length + n := by
  have hrecords : (padded id q n).records = [padding n] := rfl
  have hquestions : (padded id q n).questions = [q] := rfl
  simp only [Message.plain, hrecords, hquestions, List.flatMap_cons, List.flatMap_nil,
    List.append_nil, List.length_append, length_header, questionWire, length_toBe,
    length_recordWire_padding]
  omega

/-- A padded query is well formed. Its only record is the option record, whose one option fits into
its field. -/
theorem padded_wellFormed {id : UInt16} {q : Question} {n : Nat} (h : n ≤ 65535) :
    (padded id q n).WellFormed where
  count := show 1 + 0 + 0 + 1 ≤ maxRecords by decide
  fits r hr := by
    obtain rfl : r = padding n := List.mem_singleton.1 hr
    refine .inr ⟨fun o ho => ?_, fun he => ?_⟩
    · obtain rfl := List.mem_singleton.1 ho
      rw [List.length_replicate]
      exact h
    · cases he
  answers := trivial
  authority := trivial
  additional := ⟨fun _ => ⟨rfl, rfl, rfl⟩, trivial⟩

/-- A padded query is encoded as it stands, with nothing to compress. -/
theorem padded_encode {id : UInt16} {q : Question} {n : Nat}
    (h : 31 + q.name.wire.length + n ≤ 65535) :
    (padded id q n).encode = some (padded id q n).plain := by
  refine encode_plain (padded_wellFormed (by omega)) (fun r hr => ?_) ?_
  · obtain rfl : r = padding n := List.mem_singleton.1 hr
    rfl
  · rw [length_padded]
    exact h

/-- What a padded query is read as. -/
structure PaddedAs (q : Question) (n : Nat) (m : Message) : Prop where
  parsed : Message.parse (padded 1 q n).plain .unicast = some m
  same : m.Same (padded 1 q n)
  original : m.original = (padded 1 q n).plain

/-- A padded query is read back as it is. -/
theorem padded_parse {q : Question} {n : Nat} (h : 31 + q.name.wire.length + n ≤ 65535) :
    ∃ m, PaddedAs q n m := by
  have hencode : (padded 1 q n).encode = some (padded 1 q n).plain := padded_encode h
  obtain ⟨m, hm, hsame⟩ := encodeContext_parse (padded_wellFormed (by omega)) hencode
  obtain ⟨_, _, _, _, _, _, _, _, _, _, _, hs⟩ := parse_eq_some.1 hm
  exact ⟨m, hm, hsame, hs.original⟩

/-! ## Forwarding a padded query -/

/-- A resolver with a server, without anything else configured or cached. -/
structure Bare (server : SocketAddr) (r : Resolver) : Prop where
  privacy : r.privacy = false
  zones : r.localZones = []
  upstreams : r.upstreams = [server]
  discovery : r.discovery = none
  cache : r.cache = .empty

/-- The question as it stands in the key of a query. -/
def Question.lower (q : Question) : Question := { q with name := q.name.lower }

/-- The entry of a padded query, read as `m`. -/
def paddedEntry (server : SocketAddr) (client : Client) (q : Question) (n : Nat) (m : Message)
    (exchange : Nat) (port : UInt16) (now : Nat) : Pending where
  purpose := .client
  key := (padded 0 q.lower n).plain
  original := m
  query := {
    exchange
    origin := server
    tls := none
    server
    sourcePort := port
    tcp := decide ((padded 1 q n).plain.length > 4096)
    bytes := Resolver.queryBytes 7 (padded 1 q n).plain }
  question := q
  waiters := [⟨client, 1, clientLimit client m⟩]
  deadline := satAdd now 10000
  retry := satAdd now 1000
  attempt := 0
  base := none
  forwardCache := true
  aliases := .empty

/-- The key of a padded query is the query itself, in lower case and with no identifier. -/
theorem queryKey_padded {m : Message} {q : Question} {n : Nat} (h : PaddedAs q n m)
    (hlen : 31 + q.lower.name.wire.length + n ≤ 65535) :
    queryKey m = some (padded 0 q.lower n).plain := by
  have hquestions : m.questions = [q] := h.same.questions
  have hflags : m.flags = 0x100 := h.same.flags
  have hadditional : m.additional = [padding n] := h.same.additional
  rw [queryKey, hquestions]
  simp only [hflags, hadditional]
  exact padded_encode hlen

/-- A padded query is one that the resolver takes. It has one question, no answers, and options of
version zero. -/
theorem notQuery_padded {m : Message} {q : Question} {n : Nat} (h : PaddedAs q n m) :
    notQuery m = false ∧ badVersion m = false := by
  have hquestions : m.questions = [q] := h.same.questions
  have hflags : m.flags = 0x100 := h.same.flags
  have hadditional : m.additional = [padding n] := h.same.additional
  have hanswers : m.answers = [] := h.same.answers
  have hauthority : m.authority = [] := h.same.authority
  constructor
  · rw [notQuery, hquestions, hflags, hadditional, hanswers, hauthority]
    rfl
  · have hzero : ((0 : UInt32) >>> 16 &&& 255 != 0) = false := by decide
    rw [badVersion, hadditional, List.any_cons, List.any_nil, Bool.or_false]
    exact hzero

variable {r r' : Resolver} {server : SocketAddr} {client : Client} {q : Question} {n now : Nat}

/-- A padded query that no local zone serves is forwarded under its key. Every test before it fails
by hypothesis, and the key differs from the query in the number and the case of the name. -/
theorem dispatch_padded (hr : Bare server r') (hclient : client.refused = false)
    (hrated : r.admitSource client.address.ip now = (.ok (), r'))
    (hlocal : inZone q.name serviceArpa = false) (hresolver : inZone q.name resolverArpa = false)
    {m : Message} (hm : PaddedAs q n m) (hlen : 31 + q.lower.name.wire.length + n ≤ 65535) :
    r.dispatch quiet client (padded 1 q n).plain now =
      (.forward m (padded 0 q.lower n).plain ⟨client, 1, clientLimit client m⟩, r') := by
  have hquestions : m.questions = [q] := hm.same.questions
  have hflags : m.flags = 0x100 := hm.same.flags
  have hid : m.id = 1 := hm.same.id
  have hds : dsException m q = false := by
    rw [dsException, hlocal]
    rfl
  have hanswer : r'.localAnswer quiet client (padded 1 q n).plain m q = none := by
    unfold Resolver.localAnswer
    simp only [quiet, hds, Option.bind_none, Bool.false_eq_true, if_false]
  obtain ⟨hquery, hversion⟩ := notQuery_padded hm
  unfold Resolver.dispatch
  simp only [hm.parsed, hclient, hrated, hflags, hquery, hversion, hquestions, hanswer,
    queryKey_padded hm hlen, hds, hr.discovery, hr.zones, hlocal, hresolver, hid]
  rfl

/-- A padded query is forwarded, if there is room for it. Each check of `submit` is passed in turn
under its hypothesis, and the entry that is left holds the query under its own number, with the
octets in lower case as its key. -/
theorem submit_padded (hr : Bare server r') (hclient : client.refused = false)
    (hrated : r.admitSource client.address.ip now = (.ok (), r'))
    (hlocal : inZone q.name serviceArpa = false) (hresolver : inZone q.name resolverArpa = false)
    {m : Message} (hm : PaddedAs q n m) (hlen : 31 + q.lower.name.wire.length + n ≤ 65535)
    {port : UInt16} (hport : r'.sourcePort 0 = some port)
    (hfull : r'.full ⟨client, 1, clientLimit client m⟩ = false)
    (hcount : r'.pendingCount < maxPending)
    (hkey : ∀ e ∈ r'.pending.entries, e.2.key ≠ (padded 0 q.lower n).plain)
    (hbytes : r'.pendingBytes +
      (paddedEntry server client q n m ((r'.next + 1) % 2 ^ 64) port now).charge ≤ maxBytes) :
    (r.submit quiet client (padded 1 q n).plain now).2 = { r' with
      next := r'.next + 1
      pending := r'.pending.insert ((r'.next + 1) % 2 ^ 64)
        (paddedEntry server client q n m ((r'.next + 1) % 2 ^ 64) port now) } := by
  have hquestions : m.questions = [q] := hm.same.questions
  have hfind : (r'.pending.entries.find? fun e => e.2.key == (padded 0 q.lower n).plain) = none :=
    List.find?_eq_none.2 fun e he => by
      rw [beq_iff_eq]
      exact hkey e he
  have hmake : r'.makeQuery quiet (padded 1 q n).plain server =
      .ok (paddedEntry server client q n m ((r'.next + 1) % 2 ^ 64) port now).query := by
    unfold Resolver.makeQuery
    simp only [hr.privacy, quiet, hport, Bool.false_eq_true, if_false]
    rfl
  have hdispatch := dispatch_padded hr hclient hrated hlocal hresolver hm hlen
  unfold Resolver.submit
  rw [hdispatch]
  obtain ⟨hprivacy, hzones, hupstreams, hdiscovery, hcache⟩ := hr
  obtain ⟨_, _, _, _, _, _, _, _, _, _, _⟩ := r'
  simp only at hprivacy hzones hupstreams hdiscovery hcache
  subst hprivacy hzones hupstreams hdiscovery hcache
  have hexpired : ∀ r : Resolver, r.cache = .empty → r.expireCache now = r := by
    rintro ⟨_, _, _, _, _, _, _, _, _, _, _⟩ rfl
    rfl
  simp only
  rw [hexpired _ rfl, OrdMap.get_empty]
  unfold Resolver.enqueue
  simp only [hfull, hfind, hquestions, hmake]
  rw [if_neg (by decide), if_neg (Nat.not_le.2 hcount)]
  exact congrArg Prod.snd (if_neg (Nat.not_lt.2 hbytes))

/-! ## Following up a padded query -/

/-- The identifier is the first two octets, whatever follows. -/
theorem u16At_queryBytes : ∀ {b : Bytes}, 4 ≤ b.length → u16At (Resolver.queryBytes 7 b) 0 = 7
  | _ :: _ :: _ :: _ :: _, _ => rfl

/-- What follows up a padded query has the same padding. -/
theorem followUp_padded {m : Message} (hm : PaddedAs q n m) (q' : Question) :
    Resolver.followUp m q' = padded 0 q' n := by
  have hflags : m.flags = 0x100 := hm.same.flags
  have hadditional : m.additional = [padding n] := hm.same.additional
  rw [Resolver.followUp, hflags, hadditional]
  rfl

/-- A reply to a padded query that leaves its addresses open: it is the answer to the question of
the entry, is not truncated, and names an alias whose addresses are to be asked for. -/
theorem receive_padded (hr : Bare server r) {m reply : Message} {x t : Nat}
    {port : UInt16} {b : Bytes}
    (hp : r.pending.get x = some (paddedEntry server client q n m x port t))
    (ht : now < satAdd t 10000) (hparse : Message.parse b .unicast = some reply)
    (hflags : reply.flags &&& 0xf800 = 0x8000) (hwhole : reply.flags &&& 0x200 = 0)
    (hid : reply.id = 7) (hquestions : (reply.questions == [q]) = true) {aq : Question}
    (haq : additionalQuestion reply q r.additionalA = some aq) :
    r.receive quiet x server port (decide ((padded 1 q n).plain.length > 4096)) b now =
      Resolver.continueAdditional quiet { r with pending := r.pending.remove x }
        (.fromPending (paddedEntry server client q n m x port t)) aq b now := by
  have hexpected : r.expected quiet (paddedEntry server client q n m x port t) server port
      (decide ((padded 1 q n).plain.length > 4096)) now = true := by
    simp only [Resolver.expected, hr.privacy, paddedEntry, Option.any_none, bne_self_eq_false,
      Bool.false_and, Bool.or_self, Bool.false_or, Bool.not_eq_true']
    exact decide_eq_false (Nat.not_le.2 ht)
  have hquery : u16At (paddedEntry server client q n m x port t).query.bytes 0 = 7 := by
    refine u16At_queryBytes ?_
    rw [length_padded]
    omega
  have hsame :
      (reply.questions != [(paddedEntry server client q n m x port t).question]) = false := by
    rw [bne, show (paddedEntry server client q n m x port t).question = q from rfl, hquestions]
    rfl
  unfold Resolver.receive
  simp only [hp, hexpected, hparse, hflags, hwhole, hid, hquery, hsame, bne_self_eq_false,
    Bool.not_true, Bool.false_eq_true, if_false, Bool.or_self]
  simp only [paddedEntry, haq]

/-- The follow-up question to a padded query, which may be as long as the query: the message is
rebuilt with all of the client's additional records, so the padding is sent once more with every
follow-up. -/
theorem continueAdditional_padded (hr : Bare server r) {m : Message} {x t : Nat} {port : UInt16}
    {aq : Question} {base : Bytes} (hm : PaddedAs q n m)
    (hroom : r.pendingBytes + (5120 + (31 + q.lower.name.wire.length + n) +
      16 * (31 + q.name.wire.length + n) + 16 * base.length +
      aliasCharge (OrdMap.empty.insert aq.name ())) + 8192 ≤ maxBytes)
    (hlocal : inZone aq.name serviceArpa = false) :
    Resolver.continueAdditional quiet r (.fromPending (paddedEntry server client q n m x port t))
    aq base
      now = match (padded 0 aq n).encode with
        | none => (.error wireInvalid, r)
        | some b => match r.makeQuery quiet b server with
          | .error e => (.error e, r)
          | .ok query => (.ok [.upstream query], { r with
              next := r.next + 1
              pending := r.pending.insert query.exchange
                { paddedEntry server client q n m x port t with
                  query
                  question := aq
                  deadline := satAdd now 10000
                  retry := satAdd now 1000
                  base := some base
                  aliases := OrdMap.empty.insert aq.name () } }) := by
  have hsize :
      (Discovered.fromPending (paddedEntry server client q n m x port t)).aliases.size = 0 := rfl
  have hfollow : Resolver.followUp (Discovered.fromPending
      (paddedEntry server client q n m x port t)).original aq =
      padded 0 aq n := followUp_padded hm aq
  have hrecords : quiet.records = none := rfl
  have hinventory : quiet.inventory aq = .ok none := rfl
  unfold Resolver.continueAdditional
  rw [if_pos hsize]
  simp only [hrecords, hinventory, Option.bind_none, hr.discovery, hr.upstreams,
    hr.zones, hlocal, Option.filter_none, List.any_nil, Bool.or_self, Bool.false_eq_true,
    if_false, hfollow]
  rw [if_neg]
  · cases (padded 0 aq n).encode with
    | none => rfl
    | some b =>
      generalize r.makeQuery quiet b server = made
      cases made with
      | error e => rfl
      | ok query => rfl
  · simp only [Discovered.charge, Discovered.fromPending, paddedEntry, Option.elim,
      List.length_singleton, length_padded, hm.original]
    omega

/-! ## A resolver with a server -/

/-- What a padded query is charged for: it is held as a key, and as what waits for the reply. -/
theorem charge_paddedEntry {m : Message} {x : Nat} {port : UInt16}
    (hm : PaddedAs q n m) : (paddedEntry server client q n m x port now).charge =
      2048 + (31 + q.lower.name.wire.length + n) + 32 * (31 + q.name.wire.length + n) := by
  have hlong : 4 ≤ (padded 1 q n).plain.length := by
    rw [length_padded]
    omega
  simp only [Pending.charge, paddedEntry, hm.original, length_queryBytes 7 hlong,
    length_padded, Option.elim, aliasCharge, OrdMap.total_empty, List.length_singleton]
  omega

/-- What the follow-up of a padded query is charged for; nothing more is charged for its own
length. -/
theorem charge_followed {m : Message} {x deadline retry : Nat} {port : UInt16}
    {query : UpstreamQuery} {aq : Question} {base : Bytes} {aliases : OrdMap Name Unit}
    (hm : PaddedAs q n m) :
    Pending.charge { paddedEntry server client q n m x port now with
      query
      question := aq
      deadline
      retry
      base := some base
      aliases } = 2048 + (31 + q.lower.name.wire.length + n) + 16 * (31 + q.name.wire.length + n) +
        16 * query.bytes.length + 16 * base.length + aliasCharge aliases := by
  simp only [Pending.charge, paddedEntry, hm.original, length_padded, Option.elim,
    List.length_singleton]
  omega

/-- There is room while there are few waiters. -/
theorem full_eq_false (w : Waiter) (hwaiters : r.waiters.length < 8)
    (hbytes : r.pendingBytes + 1024 ≤ maxBytes) : r.full w = false := by
  simp only [Resolver.full, Bool.or_eq_false_iff, decide_eq_false_iff_not]
  refine ⟨⟨?_, ?_⟩, Nat.not_lt.2 hbytes⟩
  · exact Nat.not_le.2 (Nat.lt_trans hwaiters (by decide))
  · exact Nat.not_le.2 (Nat.lt_of_le_of_lt (List.length_filter_le _ _) hwaiters)

/-- With no exchange open, the first port is taken. -/
theorem sourcePort_empty (hr : r.pending.entries = []) : r.sourcePort 0 = some 49152 := by
  unfold Resolver.sourcePort Resolver.freePort
  rw [OrdMap.values, hr]
  rfl

/-- The port of the only entry is not free. The search begins with the first port, so it finds that
one or the next. -/
theorem sourcePort_single {k : Nat} {p : Pending} (hr : r.pending.entries = [(k, p)]) :
    r.sourcePort 0 = some (if p.query.sourcePort = 49152 then 49153 else 49152) := by
  have hused : (fun port => r.pending.values.any fun p => p.query.sourcePort == port) =
      fun port => p.query.sourcePort == port := by
    funext port
    rw [OrdMap.values, hr, List.map_cons, List.map_nil, List.any_cons, List.any_nil, Bool.or_false]
  unfold Resolver.sourcePort
  rw [hused]
  by_cases hp : p.query.sourcePort = 49152
  · rw [if_pos hp, hp]
    decide +kernel
  · rw [if_neg hp]
    simp [Resolver.freePort, hp]

/-- A question for addresses of `a`. -/
def sampleQuestion (kind : UInt16) : Question := ⟨⟨[ascii "a"], by decide⟩, kind, 1⟩

/-- A client that keeps a connection. -/
def connectedClient : Client := ⟨sampleAddr 1 4000, some 1, none⟩

/-- A resolver with a server: the number of the last exchange, how many queries of the client were
admitted, and the entries. -/
def serving (next count : Nat) (pending : OrdMap Nat Pending) : Resolver :=
  { Resolver.new true with
    upstreams := [sampleServer]
    next
    pending
    rates := if count = 0 then .empty
      else OrdMap.empty.insert connectedClient.address.ip (1000, count) }

/-- The states of the sample run meet what these lemmas ask for. -/
theorem serving_bare (next count : Nat) (pending : OrdMap Nat Pending) :
    Bare sampleServer (serving next count pending) := ⟨rfl, rfl, rfl, rfl, rfl⟩

/-- What the states of the sample run are charged for. -/
theorem serving_bytes (next count : Nat) (pending : OrdMap Nat Pending) :
    (serving next count pending).pendingBytes = pending.total fun _ p => p.charge := rfl

/-- The sample run starts by setting its upstream server. -/
theorem serving_start (t : Nat) :
    ((Resolver.new true).step ⟨.setUpstreams [sampleServer], quiet, t⟩).2 = serving 0 0 .empty :=
  rfl

end SnacMachine.Dns
