import SnacMachine.Nat64.System

/-!
# Live mappings are stable

From the moment a session is there until it runs out, its key keeps its external port in every run,
whatever else happens in its own table and in those that share the registry, and the calls of the
session are served (`stability`). The one call that may be refused is an inbound SYN of a session
that has not kept the head of a SYN yet, while that head does not fit into the table's charge.
-/

namespace SnacMachine.Nat64

/-- A session has not run out: an established one has a further transitory time. -/
def Session.live (s : Session) (now : Nat) : Prop :=
  now < s.expires ∨ (s.tcp = some .established ∧ now < satAdd s.expires Tcp.transitory)

/-- A session is live if its time is not over, even after it is relaxed. -/
theorem Session.live_iff {s : Session} {now : Nat} : s.live now ↔ now < (s.relax now).expires := by
  unfold live relax
  split
  · next he => exact ⟨fun h => h.elim (fun h => absurd h (by omega)) And.right,
      fun h => .inr ⟨he.2, h⟩⟩
  · next he =>
    refine ⟨fun h => h.elim id fun h => ?_, .inl⟩
    by_contra hle
    exact he ⟨Nat.not_lt.1 hle, h.1⟩

/-- An outbound call of a session. -/
def Call.outboundOf (n : SessionKey) : Call → Prop
  | .udpOut source port remote _ _ => n = (⟨17, source, port, n.1.domain⟩, remote)
  | .tcpOut source port remote _ _ => n = (⟨6, source, port, n.1.domain⟩, remote)
  | .icmpOut source id remote _ => n = (⟨1, source, id, n.1.domain⟩, ⟨remote, 0⟩)
  | _ => False

/-- An inbound call to a port from a remote. -/
def Call.inboundTo (x : PortKey) (remote : SocketAddrV4) : Call → Prop
  | .udpIn port r => x = (17, port) ∧ r = remote
  | .tcpIn port r _ => x = (6, port) ∧ r = remote
  | .tcpInPacket port r _ _ => x = (6, port) ∧ r = remote
  | .icmpIn id r => x = (1, id) ∧ ⟨r, 0⟩ = remote
  | _ => False

namespace Bindings

variable {b b' : Bindings} {n : SessionKey} {p : UInt16}

/-- A session is there, under a port. -/
structure Holds (b : Bindings) (n : SessionKey) (p : UInt16) : Prop where
  session : ∃ s, b.sessions.get n = some s
  place : ∃ l, b.place n.1 = some (p, l)

/-- The ports in use do not matter for what is held. -/
theorem Holds.setPorts (h : b.Holds n p) (ports : Ports) :
    ({ b with ports } : Bindings).Holds n p := ⟨h.session, h.place⟩

/-- A live session is still there, under its port, when the others have expired. -/
theorem Expired.holds {now : Nat} (h : b.Expired now b') (hn : b.Holds n p)
    (hlive : ∀ s, b.sessions.get n = some s → s.live now) : b'.Holds n p := by
  obtain ⟨⟨s, hs⟩, l, hl⟩ := hn
  have hs' : b'.sessions.get n = some (s.relax now) := by
    rw [h.sessions, hs, Option.map_some, Option.filter_some,
      if_pos (decide_eq_true (Session.live_iff.1 (hlive s hs)))]
  refine ⟨⟨_, hs'⟩, l, h.reduced.kept _ _ hl ?_⟩
  exact OrdMap.total_pos.2 ⟨n, _, hs', ofKey_pos.2 rfl⟩

/-- Opening a session keeps what is held. -/
theorem Opened.holds {key : Key} {remote : SocketAddrV4} {port : UInt16} {s : Session}
    (h : b.Opened key remote port s b') (hn : b.Holds n p) : b'.Holds n p := by
  obtain ⟨hs, l, hl⟩ := hn
  refine ⟨?_, l, h.kept _ _ hl⟩
  rw [h.sessions]
  split
  · exact ⟨_, rfl⟩
  · exact hs

/-- What changes nothing in the table keeps what is held. -/
theorem Quiet.holds (h : b.Quiet b') (hn : b.Holds n p) : b'.Holds n p := by
  obtain ⟨⟨s, hs⟩, l, hl⟩ := hn
  refine ⟨?_, l, (h.place n.1).trans hl⟩
  have := h.sessions n
  rw [hs, Option.map_some] at this
  exact (Option.map_eq_some_iff.1 this).imp fun _ h => h.1

/-- A call that does not end the session's domain keeps the session and its port. -/
theorem Did.holds {now : Nat} {c : Call} {a : Answer} (h : b.Did now c a b') (hn : b.Holds n p)
    (hlive : ∀ s, b.sessions.get n = some s → s.live now) (hdrop : ¬ c.drops n.1.domain) :
    b'.Holds n p := by
  cases h with
  | quiet hq _ _ => exact hq.holds hn
  | expired he _ => exact he.holds hn hlive
  | dropped hred _ hsessions =>
    obtain ⟨⟨s, hs⟩, l, hl⟩ := hn
    have hs' : b'.sessions.get n = some s := (hsessions n s).2 ⟨hs, hdrop⟩
    exact ⟨⟨s, hs'⟩, l, hred.kept _ _ hl (OrdMap.total_pos.2 ⟨n, s, hs', ofKey_pos.2 rfl⟩)⟩
  | opened he ho _ _ _ => exact ho.holds (he.holds hn hlive)

/-! ## Served calls -/

/-- What is held is found from its port. -/
theorem Holds.reverse (h : b.Inv) (hn : b.Holds n p) :
    b.reverse.get (n.1.protocol, p) = some n.1 := by
  obtain ⟨-, l, hl⟩ := hn
  exact (h.counts.placed.reverse _ n.1).2 ⟨_, hl, rfl⟩

/-- An outbound call of a session that is there gets its port. -/
theorem OutEnds.served {now : Nat} {s : Bindings → Session} {r : Except IoError UInt16}
    (h : b.OutEnds now n.1 n.2 s r b') (hn : b.Holds n p)
    (hlive : ∀ s, b.sessions.get n = some s → s.live now) : r = .ok p := by
  obtain ⟨b₁, he, hends⟩ := h
  obtain ⟨⟨s, hs⟩, l, hl⟩ := he.holds hn hlive
  rcases hends with ⟨e, -, -, hnone⟩ | ⟨port, rfl, ho⟩
  · rw [hs] at hnone
    cases hnone
  · obtain ⟨l', hl'⟩ := ho.place
    rw [ho.kept _ _ hl, Option.some.injEq, Prod.mk.injEq] at hl'
    rw [hl'.1]

/-- An inbound call of a session that is there gets its host. The session is live, so it survives
the expiry, and its port belongs to its key. -/
theorem InEnds.served {now : Nat} {passes : Bindings → Key → Prop} {s : Bindings → Key → Session}
    {r : Except IoError (Option (Ipv6Addr × UInt16))}
    (h : b.InEnds now (n.1.protocol, p) n.2 passes s r b') (hn : b.Holds n p)
    (hlive : ∀ s, b.sessions.get n = some s → s.live now) :
    r = .ok (some (n.1.host, n.1.port)) := by
  obtain ⟨b₁, he, hends⟩ := h
  have hn₁ := he.holds hn hlive
  have hr := hn₁.reverse he.inv
  rcases hends with ⟨-, -, hnone⟩ | ⟨key, hr', -, rfl, -⟩
  · obtain ⟨⟨s, hs⟩, -⟩ := hn₁
    have := hnone n.1 hr
    rw [hs] at this
    cases this
  · rw [Option.some.inj (hr'.symm.trans hr)]

/-- Every outbound call of a live session succeeds with its port. One case for each call, with the
lemma that says how it ends; the session is there, so the call cannot be refused. -/
theorem outbound_served (h : b.Inv) {now : Nat} {c : Call} (hn : b.Holds n p)
    (hlive : ∀ s, b.sessions.get n = some s → s.live now) (hdomain : b.domain = n.1.domain)
    (hc : c.outboundOf n) : ∃ b', b.call now c = some (.external (.ok (some p)), b') := by
  cases c <;> try exact hc.elim
  case udpOut source port remote rng occupied =>
    obtain ⟨r, b', hr, hends⟩ := udpOut_spec h source port remote now rng occupied
    rw [hdomain] at hends
    have hc : n = (⟨17, source, port, n.1.domain⟩, remote) := hc
    obtain rfl := OutEnds.served (n := (⟨17, source, port, n.1.domain⟩, remote)) hends
      (hc ▸ hn) (hc ▸ hlive)
    exact ⟨b', by rw [call, hr]; rfl⟩
  case tcpOut source port remote flags rng =>
    obtain ⟨r, b', hr, hends⟩ := tcpOut_spec h source port remote flags now rng
    rw [hdomain] at hends
    have hc : n = (⟨6, source, port, n.1.domain⟩, remote) := hc
    rcases hends with ⟨b₁, he, -, -, hnone, -⟩ | ⟨r', rfl, hends, -⟩
    · obtain ⟨⟨s, hs⟩, -⟩ := he.holds hn hlive
      rw [hc] at hs
      exact absurd (hs.symm.trans hnone) (by simp)
    · obtain rfl := OutEnds.served (n := (⟨6, source, port, n.1.domain⟩, remote)) hends
        (hc ▸ hn) (hc ▸ hlive)
      exact ⟨b', by rw [call, hr]; rfl⟩
  case icmpOut source id remote rng =>
    obtain ⟨r, b', hr, hends⟩ := icmpOut_spec h source id remote now rng
    rw [hdomain] at hends
    have hc : n = (⟨1, source, id, n.1.domain⟩, ⟨remote, 0⟩) := hc
    obtain rfl := OutEnds.served (n := (⟨1, source, id, n.1.domain⟩, ⟨remote, 0⟩)) hends
      (hc ▸ hn) (hc ▸ hlive)
    exact ⟨b', by rw [call, hr]; rfl⟩

/-- A call brings the head of a SYN for a session that keeps none yet, and the table, without what
has run out, cannot be charged for it. -/
def QuoteRefused (b : Bindings) (n : SessionKey) (now : Nat) : Call → Prop
  | .tcpInPacket _ _ flags packet => flags &&& 2 ≠ 0 ∧ ∃ released b₁ s,
    b.expire now = some (released, b₁) ∧ b₁.sessions.get n = some s ∧ s.tcp = some .v4Init ∧
      s.synQuote = [] ∧ b₁.chargedBytes + quoteLength packet > maxCharge
  | _ => False

/-- Every inbound call of a live session finds its host, unless the head of a SYN does not fit. One
case for each call of the table, with the lemma that says how it ends; only the call that keeps the
head of a SYN can be refused. -/
theorem inbound_served (h : b.Inv) {now : Nat} {c : Call} (hp : c.Promised) (hn : b.Holds n p)
    (hlive : ∀ s, b.sessions.get n = some s → s.live now)
    (hc : c.inboundTo (n.1.protocol, p) n.2) :
    ∃ r b', b.call now c = some (.internal r, b') ∧
      ((b.QuoteRefused n now c ∧ r = .error full) ∨
        (¬ b.QuoteRefused n now c ∧ r = .ok (some (n.1.host, n.1.port)))) := by
  cases c <;> try exact hc.elim
  case udpIn port remote =>
    obtain ⟨hx, rfl⟩ := hc
    obtain ⟨r, b', hr, hends⟩ := udpIn_spec h port n.2 now
    rw [← hx] at hends
    exact ⟨r, b', by rw [call, hr]; rfl, .inr ⟨id, hends.served hn hlive⟩⟩
  case tcpIn port remote flags =>
    obtain ⟨hx, rfl⟩ := hc
    obtain ⟨r, b', hr, hends, -⟩ := tcpIn_spec h port n.2 flags now
    rw [← hx] at hends
    exact ⟨r, b', by rw [call, hr]; rfl, .inr ⟨id, hends.served hn hlive⟩⟩
  case icmpIn id remote =>
    obtain ⟨hx, hremote⟩ := hc
    obtain ⟨r, b', hr, hends⟩ := icmpIn_spec h id remote now
    rw [← hx, hremote] at hends
    exact ⟨r, b', by rw [call, hr]; rfl, .inr ⟨fun h => h, hends.served hn hlive⟩⟩
  case tcpInPacket port remote flags packet =>
    obtain ⟨hx, rfl⟩ := hc
    obtain ⟨r, b', hr, hends⟩ := tcpInPacket_spec h port n.2 flags now hp
    refine ⟨r, b', by rw [call, hr]; rfl, ?_⟩
    rcases hends with ⟨b₁, key, he, hr₁, rfl, -, hneeds, hover⟩ | hends
    · refine .inl ⟨?_, rfl⟩
      have hn₁ := he.holds hn hlive
      obtain rfl : n.1 = key := Option.some.inj ((hn₁.reverse he.inv).symm.trans (hx ▸ hr₁))
      obtain ⟨⟨s, hs⟩, -⟩ := hn₁
      obtain ⟨released, hexp⟩ := he.result
      unfold needsQuote at hneeds
      have hs' : b₁.sessions.get (n.1, n.2) = some s := hs
      rw [hs', Bool.and_eq_true, decide_eq_true_eq, Option.all_some, decide_eq_true_eq] at hneeds
      rw [if_pos (OrdMap.contains_iff.2 ⟨s, hs'⟩)] at hover
      exact ⟨hneeds.1, released, b₁, s, hexp, hs, hneeds.2.1, hneeds.2.2, hover⟩
    · rw [← hx] at hends
      refine .inr ⟨?_, hends.served hn hlive⟩
      rintro ⟨hsyn, released, b₁, s, hexp, hs, hstate, hquote, hover⟩
      obtain ⟨b₂, he, hends⟩ := hends
      obtain ⟨released', hexp'⟩ := he.result
      obtain rfl : b₁ = b₂ := (Prod.mk.inj (Option.some.inj (hexp.symm.trans hexp'))).2
      have hr₁ := (he.holds hn hlive).reverse he.inv
      rcases hends with ⟨-, -, hnone⟩ | ⟨key, hr₂, ⟨-, hfits⟩, -, -⟩
      · exact absurd (hs.symm.trans (hnone n.1 hr₁)) (by simp)
      · obtain rfl : n.1 = key := Option.some.inj (hr₁.symm.trans hr₂)
        have hs' : b₁.sessions.get (n.1, n.2) = some s := hs
        have hneeds : b₁.needsQuote n.1 n.2 flags = true := by
          unfold needsQuote
          rw [hs', Bool.and_eq_true, decide_eq_true_eq, Option.all_some, decide_eq_true_eq]
          exact ⟨hsyn, hstate, hquote⟩
        have hfits := hfits hneeds
        rw [if_pos (OrdMap.contains_iff.2 ⟨s, hs'⟩)] at hfits
        omega

end Bindings

/-! ## Runs -/

namespace System

variable {s : System} {i : Nat} {n : SessionKey} {p : UInt16}

/-- The session is live when the operation happens, and the operation does not end its domain. -/
def Spares (i : Nat) (n : SessionKey) (s : System) (o : Op) : Prop :=
  (∀ b x, s.table i = some b → b.sessions.get n = some x → x.live o.now) ∧
    ∀ now c, o = .call i now c → ¬ c.drops n.1.domain

/-- A table holds a session under a port. -/
def Holds (s : System) (i : Nat) (n : SessionKey) (p : UInt16) : Prop :=
  ∃ b, s.table i = some b ∧ b.Holds n p

/-- Operations that spare a session keep it and its port. -/
theorem Ok.step_holds (h : s.Ok) (hn : s.Holds i n p) {o : Op} (hp : o.Promised)
    (hspares : Spares i n s o) : (s.step o).1.Holds i n p := by
  obtain ⟨b, hb, hn⟩ := hn
  obtain ⟨b', hb', ⟨he, -⟩ | ⟨now, c, a, rfl, -, -, hdid⟩⟩ := h.step_table hp hb
  · refine ⟨b', hb', ?_⟩
    rw [he]
    exact hn.setPorts _
  · exact ⟨b', hb', hdid.holds hn (fun x hx => hspares.1 b x hb hx) (hspares.2 now c rfl)⟩

/-- A session keeps its port in every run that spares it. -/
theorem Ok.run_holds (h : s.Ok) (hn : s.Holds i n p) {t₀ t : Nat} {es : List (Op × Answer)}
    {s' : System} (run : (machine (Spares i n)).Run s t₀ es s' t) : s'.Ok ∧ s'.Holds i n p := by
  refine run.invariant (I := fun s _ => s.Ok ∧ s.Holds i n p) ⟨h, hn⟩ fun s t o ih _ hl => ?_
  exact ⟨(ih.1.step o hl.1).1, ih.1.step_holds ih.2 hl.1 hl.2⟩

end System

/-- What a live session can rely on: its calls are served, and its port is its key's alone. -/
structure Stable (s : System) (i : Nat) (n : SessionKey) (p : UInt16) (b : Bindings) : Prop where
  outbound : ∀ x now c, b.sessions.get n = some x → x.live now → b.domain = n.1.domain →
    c.outboundOf n → ∃ b', b.call now c = some (.external (.ok (some p)), b')
  reverse : b.reverse.get (n.1.protocol, p) = some n.1
  inbound : ∀ x now c, b.sessions.get n = some x → x.live now → c.Promised →
    c.inboundTo (n.1.protocol, p) n.2 → ∃ r b', b.call now c = some (.internal r, b') ∧
      ((b.QuoteRefused n now c ∧ r = .error full) ∨
        (¬ b.QuoteRefused n now c ∧ r = .ok (some (n.1.host, n.1.port))))
  keys : ∀ k x, b.bindings.get k = some x → k.protocol = n.1.protocol → x.port = p → k = n.1
  tables : ∀ j b', s.table j = some b' → i ≠ j → b'.reverse.get (n.1.protocol, p) = none
  leases : ∀ l ∈ s.leases, l.key ≠ (n.1.protocol, p)

/-- In every run, from the call that starts a session until it runs out, the session's key keeps its
port, alone among all holders of ports, and the session's calls are served. -/
theorem stability {legal : System → Op → Prop} {m t₀ t₁ t : Nat} {es es' : List (Op × Answer)}
    {s₁ s : System} (run : (System.machine legal).Run (.start m) t₀ es s₁ t₁) {i : Nat}
    {n : SessionKey} {b₁ : Bindings} {x : Session} (hb : s₁.table i = some b₁)
    (hs : b₁.sessions.get n = some x)
    (run' : (System.machine (System.Spares i n)).Run s₁ t₁ es' s t) :
    ∃ p, b₁.reverse.get (n.1.protocol, p) = some n.1 ∧
      ∃ b, s.table i = some b ∧ (∃ x, b.sessions.get n = some x) ∧ Stable s i n p b := by
  obtain ⟨hok₁, -⟩ := System.run_ok run
  obtain ⟨⟨p, l⟩, hl⟩ := (hok₁.tables i b₁ hb).counts.owned n x hs
  have hn₁ : b₁.Holds n p := ⟨⟨x, hs⟩, l, hl⟩
  obtain ⟨hok, b, hb, hn⟩ := hok₁.run_holds ⟨b₁, hb, hn₁⟩ run'
  have hinv := hok.tables i b hb
  have hr := hn.reverse hinv
  have hlive : ∀ {x now}, b.sessions.get n = some x → x.live now →
      ∀ y, b.sessions.get n = some y → y.live now := by
    intro x now hx hlive y hy
    obtain rfl := Option.some.inj (hx.symm.trans hy)
    exact hlive
  refine ⟨p, hn₁.reverse (hok₁.tables i b₁ ‹_›), b, hb, hn.session,
    fun x now c hx hl hd hc => ?_, hr, fun x now c hx hl hp hc => ?_, fun k x hk hproto hport => ?_,
    fun j b' hb' hne => ?_,
    fun l hl he => ?_⟩
  · exact Bindings.outbound_served hinv hn (hlive hx hl) hd hc
  · exact Bindings.inbound_served hinv hp hn (hlive hx hl) hc
  · have hk : b.reverse.get (k.protocol, p) = some k :=
      (hinv.counts.placed.reverse _ k).2 ⟨_, Bindings.place_eq_some.2 ⟨x, hk, rfl⟩, by rw [hport]⟩
    rw [hproto] at hk
    exact Option.some.inj (hk.symm.trans hr)
  · exact hok.apart i j b b' hb hb' hne _ _ hr
  · have := hok.free l hl i b hb
    rw [he, hr] at this
    cases this

/-- The session of the sample datagram. -/
def sampleSession : SessionKey :=
  (⟨17, .localhost, 5000, .unspecified⟩, ⟨.new 192 0 2 1, 53⟩)

/-- The state after the sample datagram. -/
def sampled : System := ((System.start 1).step sampleOut).1

/-- Another host sends from the same port to the same server. -/
def sampleOther : Op :=
  .call 0 1500 (.udpOut ⟨List.replicate 15 0 ++ [2], rfl⟩ 5000 ⟨.new 192 0 2 1, 53⟩
    (fun _ _ => .ok 0) fun _ => false)

/-- The server answers the sample datagram. -/
def sampleReply : Op := .call 0 2000 (.udpIn 5000 ⟨.new 192 0 2 1, 53⟩)

/-- The state after both. -/
def sampledOn : System := ((sampled.step sampleOther).1.step sampleReply).1

/-- Whether the session of the sample datagram is live at some moment. -/
def liveSample (s : System) (now : Nat) : Bool :=
  ((s.table 0).bind fun b => b.sessions.get sampleSession).any fun x => decide (now < x.expires)

/-- A sample operation spares the session if it comes in time and does not clear the domain. -/
theorem liveSample_spares {s : System} {o : Op} (h : liveSample s o.now = true)
    (hdrops : ∀ now c, o = .call 0 now c → ¬ c.drops sampleSession.1.domain) :
    System.Spares 0 sampleSession s o := by
  refine ⟨fun b x hb hx => .inl ?_, hdrops⟩
  rw [liveSample, hb, Option.bind_some, hx] at h
  exact of_decide_eq_true h

/-- The port of a sample datagram is stable while another host uses the table and the server
answers. -/
theorem stability_sampleOut :
    ∃ es, (System.machine (System.Spares 0 sampleSession)).Run sampled 1000 es
      sampledOn 2000 ∧ es.length = 2 ∧
    ∃ b, sampledOn.table 0 = some b ∧ b.bindings.size = 2 ∧
      (∃ x, b.sessions.get sampleSession = some x) ∧ Stable sampledOn 0 sampleSession 5000 b := by
  have hsession : ((sampled.table 0).bind fun b =>
      (b.sessions.get sampleSession).bind fun _ => b.reverse.get (17, 5000)) =
        some sampleSession.1 := by
    decide +kernel
  obtain ⟨b, hb, hsession⟩ := Option.bind_eq_some_iff.1 hsession
  obtain ⟨x, hx, hr⟩ := Option.bind_eq_some_iff.1 hsession
  have run : (System.machine fun _ _ => True).Run (.start 1) 0
      [(sampleOut, ((System.start 1).step sampleOut).2)] sampled 1000 :=
    .snoc sampleOut .nil (Nat.zero_le _) ⟨trivial, trivial⟩
  have hother : System.Spares 0 sampleSession sampled sampleOther := by
    refine liveSample_spares (by decide +kernel) fun now c ho => ?_
    cases ho
    exact fun h => h
  have hreply : System.Spares 0 sampleSession (sampled.step sampleOther).1 sampleReply := by
    refine liveSample_spares (by decide +kernel) fun now c ho => ?_
    cases ho
    exact fun h => h
  have hlater : 1000 ≤ sampleOther.now := Nat.le_add_right 1000 500
  have hlast : sampleOther.now ≤ sampleReply.now := Nat.le_add_right 1500 500
  have hnil :
      (System.machine (System.Spares 0 sampleSession)).Run sampled 1000 [] sampled 1000 := .nil
  have run' := (hnil.snoc sampleOther hlater ⟨trivial, hother⟩).snoc sampleReply hlast
    ⟨trivial, hreply⟩
  have hsize : ((sampledOn.table 0).map fun b => b.bindings.size) = some 2 := by
    decide +kernel
  obtain ⟨b₂, hb₂, htwo⟩ := Option.map_eq_some_iff.1 hsize
  obtain ⟨p, hp, b', hb', hsome, hstable⟩ := stability run hb hx run'
  obtain rfl : b₂ = b' := Option.some.inj (hb₂.symm.trans hb')
  have hinv := (System.run_ok run).1.tables 0 b hb
  obtain rfl : p = 5000 := by
    obtain ⟨q, hq, hpq⟩ := (hinv.counts.placed.reverse _ _).1 hp
    obtain ⟨q', hq', hpq'⟩ := (hinv.counts.placed.reverse _ _).1 hr
    obtain rfl := Option.some.inj (hq.symm.trans hq')
    exact (Prod.mk.inj hpq).2.trans (Prod.mk.inj hpq').2.symm
  exact ⟨_, run', rfl, b₂, hb₂, htwo, hsome, hstable⟩

end SnacMachine.Nat64
