import SnacMachine.Lib.Run
import SnacMachine.Nat64.Calls

/-!
# Runs of binding tables

Any number of binding tables and local listeners share one registry of ports. In every run of their
calls the indexes and counters of every table agree, its limits hold and nothing panics
(`table_invariant`), and no port is held twice (`System.Ok`).
-/

namespace SnacMachine.Nat64

/-- The calls on a table. -/
inductive Call
  | udpOut (source : Ipv6Addr) (port : UInt16) (remote : SocketAddrV4) (rng : Random)
      (occupied : UInt16 → Bool)
  | udpIn (port : UInt16) (remote : SocketAddrV4)
  | tcpOut (source : Ipv6Addr) (port : UInt16) (remote : SocketAddrV4) (flags : UInt8)
      (rng : Random)
  | tcpIn (port : UInt16) (remote : SocketAddrV4) (flags : UInt8)
  | tcpInPacket (port : UInt16) (remote : SocketAddrV4) (flags : UInt8) (packet : Bytes)
  | icmpOut (source : Ipv6Addr) (id : UInt16) (remote : Ipv4Addr) (rng : Random)
  | icmpIn (id : UInt16) (remote : Ipv4Addr)
  | errorIn (protocol : UInt8) (port : UInt16) (remote : SocketAddrV4)
  | errorOut (protocol : UInt8) (host : Ipv6Addr) (port : UInt16) (remote : SocketAddrV4)
  | expire
  | clear
  | retainDomains (domains : List Prefix)
  | takeTcpProbes (limit : Nat)
  | takeTcpTimeouts (limit : Nat)
  | setUdpFiltering (filtering : UdpFiltering)
  | setUdpTimeout (seconds : UInt32)
  | setIcmpTimeout (seconds : UInt32)
  | setDomain (domain : Ipv6Addr)

/-- What a call returns. -/
inductive Answer
  | external (r : Except IoError (Option UInt16))
  | internal (r : Except IoError (Option (Ipv6Addr × UInt16)))
  | foundHost (r : Option (Ipv6Addr × UInt16))
  | foundPort (r : Option UInt16)
  | released (ports : List PortKey)
  | probes (out : List (Ipv6Addr × UInt16 × UInt16 × SocketAddrV4))
  | timeouts (out : List Bytes)
  | claimed (r : Except IoError Lease)
  | done (r : Except IoError Unit)
  | panicked

namespace Bindings

/-- One call on a table; `none` where the code would panic. -/
def call (b : Bindings) (now : Nat) : Call → Option (Answer × Bindings)
  | .udpOut source port remote rng occupied =>
    (b.udpOut source port remote now rng occupied).map fun r => (.external (r.1.map some), r.2)
  | .udpIn port remote => (b.udpIn port remote now).map fun r => (.internal r.1, r.2)
  | .tcpOut source port remote flags rng =>
    (b.tcpOut source port remote flags now rng).map fun r => (.external r.1, r.2)
  | .tcpIn port remote flags => (b.tcpIn port remote flags now).map fun r => (.internal r.1, r.2)
  | .tcpInPacket port remote flags packet =>
    (b.tcpInPacket port remote flags now packet).map fun r => (.internal r.1, r.2)
  | .icmpOut source id remote rng =>
    (b.icmpOut source id remote now rng).map fun r => (.external (r.1.map some), r.2)
  | .icmpIn id remote => (b.icmpIn id remote now).map fun r => (.internal r.1, r.2)
  | .errorIn protocol port remote => some (.foundHost (b.errorIn protocol port remote now), b)
  | .errorOut protocol host port remote =>
    some (.foundPort (b.errorOut protocol host port remote now), b)
  | .expire => (b.expire now).map fun r => (.released r.1, r.2)
  | .clear => b.clear.map fun r => (.released r.1, r.2)
  | .retainDomains domains => (b.retainDomains domains).map fun b => (.done (.ok ()), b)
  | .takeTcpProbes limit => (b.takeTcpProbes limit).map fun r => (.probes r.1, r.2)
  | .takeTcpTimeouts limit =>
    some (.timeouts (b.takeTcpTimeouts limit).1, (b.takeTcpTimeouts limit).2)
  | .setUdpFiltering filtering => some (.done (.ok ()), { b with udpFiltering := filtering })
  | .setUdpTimeout seconds => some (.done (b.setUdpTimeout seconds).1, (b.setUdpTimeout seconds).2)
  | .setIcmpTimeout seconds =>
    some (.done (b.setIcmpTimeout seconds).1, (b.setIcmpTimeout seconds).2)
  | .setDomain domain => some (.done (.ok ()), { b with domain })

end Bindings

/-- What the callers of a table promise: a segment comes with its packet. -/
def Call.Promised : Call → Prop
  | .tcpInPacket _ _ _ packet => packet ≠ []
  | _ => True

/-- A call that ends every session of a domain. -/
def Call.drops (domain : Ipv6Addr) : Call → Prop
  | .clear => True
  | .retainDomains domains => (domains.any fun p => p.address == domain) = false
  | _ => False

/-- Calls of the inside. -/
def Call.outbound : Call → Prop
  | .udpOut .. => True
  | .tcpOut .. => True
  | .icmpOut .. => True
  | _ => False

/-- How long a session without TCP state lasts. -/
def Bindings.lifetime (b : Bindings) (key : Key) : Nat :=
  (if key.protocol = 17 then b.udpSeconds else b.icmpSeconds) * 1000

/-- A call for a key with an address was accepted, under an external port; the tables are those
before and after the call. -/
def Call.Accepts (key : Key) (ip : Ipv4Addr) (p : UInt16) (b b' : Bindings) : Call → Answer → Prop
  | .udpOut source port remote _ _, .external (.ok (some q)) =>
    key = ⟨17, source, port, b.domain⟩ ∧ remote.ip = ip ∧ q = p
  | .icmpOut source id remote _, .external (.ok (some q)) =>
    key = ⟨1, source, id, b.domain⟩ ∧ remote = ip ∧ q = p
  | .udpIn port remote, .internal (.ok (some x)) =>
    x = (key.host, key.port) ∧ remote.ip = ip ∧ port = p ∧ b'.reverse.get (17, p) = some key
  | .icmpIn id remote, .internal (.ok (some x)) =>
    x = (key.host, key.port) ∧ remote = ip ∧ id = p ∧ b'.reverse.get (1, p) = some key
  | _, _ => False

/-- The calls that may give a key a binding. -/
def Bindings.Binds (b : Bindings) (key : Key) : Call → Prop
  | .udpOut source port _ _ _ => key = ⟨17, source, port, b.domain⟩
  | .tcpOut source port _ flags _ => key = ⟨6, source, port, b.domain⟩ ∧ flags &&& 2 ≠ 0
  | .icmpOut source id _ _ => key = ⟨1, source, id, b.domain⟩
  | _ => False

/-- The tables and the other holders of ports of one interface. -/
structure System where
  ports : Ports
  tables : List Bindings
  leases : List Lease

/-- What happens in a system, and when. -/
inductive Op
  | call (i now : Nat) (c : Call)
  | claim (now : Nat) (protocol : UInt8) (port : UInt16) (owner : Owner)
  | drop (now i : Nat)

namespace Op

/-- When an operation happens. -/
def now : Op → Nat
  | .call _ now _ => now
  | .claim now _ _ _ => now
  | .drop now _ => now

/-- What the callers promise. -/
def Promised : Op → Prop
  | .call _ _ c => c.Promised
  | _ => True

end Op

namespace System

/-- A number of empty tables. -/
def start (n : Nat) : System := ⟨.default, List.replicate n (.withPorts .default), []⟩

/-- A table, with the registry as it stands. -/
def table (s : System) (i : Nat) : Option Bindings :=
  (s.tables[i]?).map fun b => { b with ports := s.ports }

/-- One operation. -/
def step (s : System) : Op → System × Answer
  | .call i now c =>
    match s.table i with
    | none => (s, .done (.ok ()))
    | some b =>
      match b.call now c with
      | none => (s, .panicked)
      | some (a, b') => ({ s with ports := b'.ports, tables := s.tables.set i b' }, a)
  | .claim _ protocol port owner =>
    match s.ports.claim protocol port owner with
    | .error e => (s, .claimed (.error e))
    | .ok (l, ports) => ({ s with ports, leases := s.leases ++ [l] }, .claimed (.ok l))
  | .drop _ i =>
    match s.leases[i]? with
    | none => (s, .done (.ok ()))
    | some l =>
      match s.ports.release l with
      | none => (s, .panicked)
      | some ports => ({ s with ports, leases := s.leases.eraseIdx i }, .done (.ok ()))

/-- Systems, as machines. -/
def machine (legal : System → Op → Prop) : Machine System Op Answer :=
  ⟨step, Op.now, fun s o => o.Promised ∧ legal s o⟩

end System

namespace Bindings

variable {b : Bindings}

/-- What a call does to a table: nothing that concerns its sessions, or it drops what has run out,
or it ends the sessions of some domains, or it drops what has run out and enters one session. -/
inductive Did (b : Bindings) (now : Nat) (c : Call) (a : Answer) : Bindings → Prop
  | quiet {b' : Bindings} (quiet : b.Quiet b') (drops : ∀ d, ¬ c.drops d)
      (filtering : b'.udpFiltering = b.udpFiltering ∨ c = .setUdpFiltering b'.udpFiltering) :
      Did b now c a b'
  | expired {b' : Bindings} (expired : b.Expired now b')
      (drops : ∀ d, ¬ c.drops d) : Did b now c a b'
  | dropped {b' : Bindings} (reduced : b.Reduced b') (inv : b'.Inv)
      (sessions : ∀ n s, b'.sessions.get n = some s ↔
        b.sessions.get n = some s ∧ ¬ c.drops n.1.domain) : Did b now c a b'
  | opened {b₁ b' : Bindings} {key : Key} {remote : SocketAddrV4} {port : UInt16} {s : Session}
      (expired : b.Expired now b₁) (opened : b₁.Opened key remote port s b')
      (drops : ∀ d, ¬ c.drops d) (binds : b₁.place key = none → b.Binds key c)
      (plain : key.protocol ≠ 6 → s.expires = satAdd now (b.lifetime key) ∧
        c.Accepts key remote.ip port b b' a ∧ (c.outbound ∨
          (b.udpFiltering = .addressDependent →
            ∃ r x, b₁.sessions.get (key, r) = some x ∧ r.ip = remote.ip))) :
      Did b now c a b'

section Did

variable {now : Nat} {c : Call} {a : Answer} {b' : Bindings}

/-- How a packet from the stub link ends is one of the ways that a call does. The hypotheses say how
the protocol of the call counts and lives. -/
theorem OutEnds.did {key : Key} {remote : SocketAddrV4} {s : Bindings → Session}
    {r : Except IoError UInt16} (h : b.OutEnds now key remote s r b') (drops : ∀ d, ¬ c.drops d)
    (binds : ∀ b₁, b.Expired now b₁ → b₁.sessions.get (key, remote) = none → b.Binds key c)
    (plain : ∀ b₁ port, r = .ok port → key.protocol ≠ 6 →
      (s b₁).expires = satAdd now (b.lifetime key) ∧ c.Accepts key remote.ip port b b' a ∧
        c.outbound) : b.Did now c a b' := by
  obtain ⟨b₁, he, ⟨e, -, rfl, -⟩ | ⟨port, rfl, ho⟩⟩ := h
  · exact .expired he drops
  · refine .opened he ho drops (fun hnone => binds b₁ he ?_) fun hproto => ?_
    · cases hs : b₁.sessions.get (key, remote) with
      | none => rfl
      | some x =>
        obtain ⟨q, hq⟩ := he.inv.counts.owned _ x hs
        rw [hnone] at hq
        cases hq
    · obtain ⟨h₁, h₂, h₃⟩ := plain b₁ port rfl hproto
      exact ⟨h₁, h₂, .inl h₃⟩

/-- How a packet to a port ends is one of the ways that a call does. The hypotheses say which
packets the protocol of the call lets pass. -/
theorem InEnds.did {y : PortKey} {remote : SocketAddrV4} {passes : Bindings → Key → Prop}
    {s : Bindings → Key → Session} {r : Except IoError (Option (Ipv6Addr × UInt16))}
    (h : b.InEnds now y remote passes s r b') (drops : ∀ d, ¬ c.drops d)
    (plain : ∀ b₁ key, b.Expired now b₁ → passes b₁ key → y.1 = key.protocol →
      r = .ok (some (key.host, key.port)) → b'.reverse.get y = some key → key.protocol ≠ 6 →
      (s b₁ key).expires = satAdd now (b.lifetime key) ∧ c.Accepts key remote.ip y.2 b b' a ∧
        (b.udpFiltering = .addressDependent →
          ∃ r x, b₁.sessions.get (key, r) = some x ∧ r.ip = remote.ip)) :
    b.Did now c a b' := by
  obtain ⟨b₁, he, ⟨rfl, -, -⟩ | ⟨key, hr, hpass, hres, -, ho⟩⟩ := h
  · exact .expired he drops
  · obtain ⟨hy, l, hl⟩ := place_of_reverse he.inv.counts hr
    refine .opened he ho drops (fun hnone => ?_) fun hproto => ?_
    · rw [hnone] at hl
      cases hl
    · have hrev : b'.reverse.get y = some key :=
        (ho.inv.counts.placed.reverse _ key).2 ⟨_, ho.kept _ _ hl, Prod.ext hy rfl⟩
      obtain ⟨h₁, h₂, h₃⟩ := plain b₁ key he hpass hy hres hrev hproto
      exact ⟨h₁, h₂, .inr h₃⟩

end Did

/-- Every call returns, and does one of four things. One case for each call, with the lemma that
says how it ends; none of them panics. -/
theorem call_did (h : b.Inv) (now : Nat) (c : Call) (hc : c.Promised) :
    ∃ a b', b.call now c = some (a, b') ∧ a ≠ .panicked ∧ b.Did now c a b' := by
  cases c with
  | udpOut source port remote rng occupied =>
    obtain ⟨r, b', hr, hends⟩ := udpOut_spec h source port remote now rng occupied
    refine ⟨_, b', by rw [call, hr]; rfl, by simp, hends.did (fun _ => id) (fun _ _ _ => rfl) ?_⟩
    rintro b₁ port rfl -
    exact ⟨rfl, ⟨rfl, rfl, rfl⟩, trivial⟩
  | udpIn port remote =>
    obtain ⟨r, b', hr, hends⟩ := udpIn_spec h port remote now
    refine ⟨_, b', by rw [call, hr]; rfl, by simp, hends.did (fun _ => id) ?_⟩
    rintro b₁ key - hpass hy rfl hrev -
    refine ⟨?_, ⟨rfl, rfl, rfl, hrev⟩, fun hf => addressKnown_iff.1 (hpass hf)⟩
    rw [lifetime, if_pos hy.symm]
  | tcpOut source port remote flags rng =>
    obtain ⟨r, b', hr, hends⟩ := tcpOut_spec h source port remote flags now rng
    refine ⟨_, b', by rw [call, hr]; rfl, by simp, ?_⟩
    rcases hends with ⟨b₁, he, -, rfl, -, -⟩ | ⟨r', -, hends, hsyn⟩
    · exact .expired he fun _ => id
    · exact hends.did (fun _ => id) (fun b₁ he hnone => ⟨rfl, hsyn b₁ he hnone⟩)
        fun _ _ _ hproto => absurd rfl hproto
  | tcpIn port remote flags =>
    obtain ⟨r, b', hr, hends, -⟩ := tcpIn_spec h port remote flags now
    exact ⟨_, b', by rw [call, hr]; rfl, by simp, hends.did (fun _ => id)
      fun _ _ _ _ hy _ _ hproto => absurd hy.symm hproto⟩
  | tcpInPacket port remote flags packet =>
    obtain ⟨r, b', hr, hends⟩ := tcpInPacket_spec h port remote flags now hc
    refine ⟨_, b', by rw [call, hr]; rfl, by simp, ?_⟩
    rcases hends with ⟨b₁, key, he, -, -, rfl, -, -⟩ | hends
    · exact .expired he fun _ => id
    · exact hends.did (fun _ => id) fun _ _ _ _ hy _ _ hproto => absurd hy.symm hproto
  | icmpOut source id remote rng =>
    obtain ⟨r, b', hr, hends⟩ := icmpOut_spec h source id remote now rng
    refine ⟨_, b', by rw [call, hr]; rfl, by simp, hends.did (fun _ h => h) (fun _ _ _ => rfl) ?_⟩
    rintro b₁ port rfl -
    exact ⟨rfl, ⟨rfl, rfl, rfl⟩, trivial⟩
  | icmpIn id remote =>
    obtain ⟨r, b', hr, hends⟩ := icmpIn_spec h id remote now
    refine ⟨_, b', by rw [call, hr]; rfl, by simp, hends.did (fun _ h => h) ?_⟩
    rintro b₁ key - ⟨x, hx⟩ hy rfl hrev -
    refine ⟨?_, ⟨rfl, rfl, rfl, hrev⟩, fun _ => ⟨_, x, hx, rfl⟩⟩
    have hy : (1 : UInt8) = key.protocol := hy
    rw [lifetime, ← hy, if_neg (show (1 : UInt8) ≠ 17 by decide)]
  | errorIn protocol port remote =>
    exact ⟨_, b, rfl, by simp, .quiet (.refl h) (fun _ => id) (.inl rfl)⟩
  | errorOut protocol host port remote =>
    exact ⟨_, b, rfl, by simp, .quiet (.refl h) (fun _ => id) (.inl rfl)⟩
  | expire =>
    obtain ⟨released, b', hr, he⟩ := h.expire now
    exact ⟨_, b', by rw [call, hr]; rfl, by simp, .expired he fun _ => id⟩
  | clear =>
    obtain ⟨b', hr, hred, hnext, hsessions⟩ := clear_spec h.counts
    refine ⟨_, b', by rw [call, hr]; rfl, by simp, .dropped hred (h.reduced hred hnext) ?_⟩
    intro n s
    rw [hsessions, OrdMap.get_empty]
    exact ⟨fun hs => (nomatch hs), fun hs => absurd trivial hs.2⟩
  | retainDomains domains =>
    obtain ⟨b', hr, hred, hnext, hsessions⟩ := retainDomains_spec h.counts domains
    refine ⟨_, b', by rw [call, hr]; rfl, by simp, .dropped hred (h.reduced hred hnext) ?_⟩
    intro n s
    rw [hsessions, Option.filter_eq_some_iff]
    exact and_congr_right fun _ => ⟨fun hk hd => Bool.noConfusion (hk.symm.trans hd),
      Bool.eq_true_of_not_eq_false⟩
  | takeTcpProbes limit =>
    obtain ⟨r, b', hr, hq, hf⟩ := takeTcpProbes_spec h limit
    exact ⟨_, b', by rw [call, hr]; rfl, by simp, .quiet hq (fun _ => id) (.inl hf)⟩
  | takeTcpTimeouts limit =>
    exact ⟨_, _, rfl, by simp, .quiet (takeTcpTimeouts_spec h limit) (fun _ => id) (.inl rfl)⟩
  | setUdpFiltering filtering =>
    exact ⟨_, _, rfl, by simp, .quiet (h.configure b.domain filtering b.udpSeconds b.icmpSeconds)
      (fun _ => id) (.inr rfl)⟩
  | setUdpTimeout seconds =>
    obtain ⟨hq, hf⟩ := setUdpTimeout_spec h seconds
    exact ⟨_, _, rfl, by simp, .quiet hq (fun _ => id) (.inl hf)⟩
  | setIcmpTimeout seconds =>
    obtain ⟨hq, hf⟩ := setIcmpTimeout_spec h seconds
    exact ⟨_, _, rfl, by simp, .quiet hq (fun _ => id) (.inl hf)⟩
  | setDomain domain =>
    exact ⟨_, _, rfl, by simp,
      .quiet (h.configure domain b.udpFiltering b.udpSeconds b.icmpSeconds) (fun _ =>
        id) (.inl rfl)⟩

/-- Every call keeps the invariant. -/
theorem Did.inv {now : Nat} {c : Call} {a : Answer} {b' : Bindings} (h : b.Did now c a b') :
    b'.Inv := by
  cases h with
  | quiet hq _ _ => exact hq.inv
  | expired he _ => exact he.inv
  | dropped _ hinv _ => exact hinv
  | opened _ ho _ _ _ => exact ho.inv

/-- Every call leaves the entries of the registry that are not of this table. -/
theorem Did.moves {now : Nat} {c : Call} {a : Answer} {b' : Bindings} (h : b.Did now c a b') :
    b.Moves b' := by
  cases h with
  | quiet hq _ _ => exact hq.moves
  | expired he _ => exact he.reduced.moves
  | dropped hred _ _ => exact hred.moves
  | opened he ho _ _ _ => exact he.reduced.moves.trans ho.moves

/-- What a call that has returned did. -/
theorem did_of_call (h : b.Inv) {now : Nat} {c : Call} {a : Answer} {b' : Bindings}
    (hc : c.Promised) (hcall : b.call now c = some (a, b')) : b.Did now c a b' := by
  obtain ⟨a₁, b₁, hcall₁, -, hdid⟩ := call_did h now c hc
  rw [hcall] at hcall₁
  obtain ⟨rfl, rfl⟩ := Prod.mk.inj (Option.some.inj hcall₁)
  exact hdid

/-- A table does not notice changes of the registry outside its own ports. Only the leases of its
keys are looked up in the registry. -/
theorem Inv.setPorts (h : b.Inv) {ports : Ports} (hok : ports.Ok)
    (hkept : ∀ x k v, b.reverse.get x = some k → b.ports.entries.get x = some v →
      ports.entries.get x = some v) : ({ b with ports } : Bindings).Inv := by
  have hplaced : Placed b.reverse b.place ports := by
    refine ⟨hok, h.counts.placed.reverse, fun k q hq => ?_⟩
    obtain ⟨hl, hv⟩ := h.counts.placed.leases k q hq
    refine ⟨hl, hkept _ k _ ?_ hv⟩
    rw [hl]
    exact (h.counts.placed.reverse _ k).2 ⟨q, hq, rfl⟩
  exact ⟨⟨hplaced, h.counts.counter, h.counts.owned, h.counts.hosts, h.counts.sessions,
    h.counts.quoteBytes⟩, h.bound, ⟨h.capacity.bindings, h.capacity.sessions,
      h.capacity.hostBindings, h.capacity.hostSessions, h.capacity.charge, h.capacity.timeouts⟩,
    ⟨h.next.none_iff, h.next.le⟩⟩

/-- The registry knows every port of a table. -/
theorem Inv.entry (h : b.Inv) {x : PortKey} {k : Key} (hr : b.reverse.get x = some k) :
    ∃ id, b.ports.entries.get x = some (id, .translation) := by
  obtain ⟨q, hq, hx⟩ := (h.counts.placed.reverse x k).1 hr
  obtain ⟨hl, hv⟩ := h.counts.placed.leases k q hq
  rw [hl, ← hx] at hv
  exact ⟨_, hv⟩

/-- An empty table keeps the invariant. It has no keys and no sessions, so there is nothing to show
but that the counts are zero. -/
theorem withPorts_inv {ports : Ports} (hok : ports.Ok) : (withPorts ports).Inv := by
  refine ⟨⟨⟨hok, fun x k => ?_, fun k q hq => ?_⟩, fun k x hk => ?_, fun n s hn => ?_, fun a => rfl,
    fun n s hn => ?_, rfl⟩, fun k q hq => ?_, ⟨Nat.zero_le _, Nat.zero_le _, fun a => Nat.zero_le _,
      fun a => Nat.zero_le _, by simp [chargedBytes, withPorts], Nat.zero_le _⟩,
      ⟨by simp [withPorts], fun t ht => ?_⟩⟩
  · simp [withPorts, place, placeIn]
  · cases hq
  · cases hk
  · cases hn
  · cases hn
  · cases hq
  · cases ht

end Bindings

namespace System

variable {s : System}

/-- Every table satisfies its invariant, and no port is held twice. -/
structure Ok (s : System) : Prop where
  ports : s.ports.Ok
  tables : ∀ i b, s.table i = some b → b.Inv
  apart : ∀ i j b b', s.table i = some b → s.table j = some b' → i ≠ j →
    ∀ x k, b.reverse.get x = some k → b'.reverse.get x = none
  leases : ∀ l ∈ s.leases, ∃ o, s.ports.entries.get l.key = some (l.id, o)
  free : ∀ l ∈ s.leases, ∀ i b, s.table i = some b → b.reverse.get l.key = none
  distinct : s.leases.Pairwise fun l l' => l.key ≠ l'.key

/-- The start of a system is in order. All tables are empty, and no port is taken. -/
theorem start_ok (n : Nat) : (start n).Ok := by
  have htable : ∀ i b, (start n).table i = some b → b = .withPorts .default := by
    intro i b hb
    obtain ⟨b₀, hb₀, rfl⟩ := Option.map_eq_some_iff.1 hb
    rw [List.eq_of_mem_replicate (List.mem_of_getElem? hb₀)]
    rfl
  refine ⟨Ports.default_ok, fun i b hb => ?_, fun i j b b' hb hb' _ x k hr => ?_, by simp [start],
    by simp [start], by simp [start]⟩
  · rw [htable i b hb]
    exact Bindings.withPorts_inv Ports.default_ok
  · rw [htable j b' hb']
    rfl

/-- A registry that has changed outside the ports of the tables keeps the invariant, if the leases
that are held are entered in it. -/
theorem Ok.setPorts (h : s.Ok) {ports : Ports} {leases : List Lease} (hok : ports.Ok)
    (hkept : ∀ i b x k v, s.table i = some b → b.reverse.get x = some k →
      s.ports.entries.get x = some v → ports.entries.get x = some v)
    (hleases : ∀ l ∈ leases, ∃ o, ports.entries.get l.key = some (l.id, o))
    (hfree : ∀ l ∈ leases, ∀ i b, s.table i = some b → b.reverse.get l.key = none)
    (hdistinct : leases.Pairwise fun l l' => l.key ≠ l'.key) :
    ({ s with ports, leases } : System).Ok := by
  have htable : ∀ i b, ({ s with ports, leases } : System).table i = some b →
      ∃ b₀, s.table i = some b₀ ∧ b = { b₀ with ports } := by
    intro i b hb
    obtain ⟨b₀, hb₀, rfl⟩ := Option.map_eq_some_iff.1 hb
    exact ⟨{ b₀ with ports := s.ports }, by rw [table, hb₀]; rfl, rfl⟩
  refine ⟨hok, fun i b hb => ?_, fun i j b b' hb hb' hne x k hr => ?_, hleases,
    fun l hl i b hb => ?_, hdistinct⟩
  · obtain ⟨b₀, hb₀, rfl⟩ := htable i b hb
    have hports : b₀.ports = s.ports := by
      obtain ⟨_, -, rfl⟩ := Option.map_eq_some_iff.1 hb₀
      rfl
    exact (h.tables i b₀ hb₀).setPorts hok fun x k v hx hv => hkept i b₀ x k v hb₀ hx (hports ▸ hv)
  · obtain ⟨b₀, hb₀, rfl⟩ := htable i b hb
    obtain ⟨b₁, hb₁, rfl⟩ := htable j b' hb'
    exact h.apart i j b₀ b₁ hb₀ hb₁ hne x k hr
  · obtain ⟨b₀, hb₀, rfl⟩ := htable i b hb
    exact hfree l hl i b₀ hb₀

/-- All tables see the same ports. -/
theorem table_ports {i : Nat} {b : Bindings} (h : s.table i = some b) : b.ports = s.ports := by
  obtain ⟨_, -, rfl⟩ := Option.map_eq_some_iff.1 h
  rfl

/-- The tables after a call on one of them. -/
theorem table_set {i j : Nat} {b b' : Bindings} (h : s.table i = some b) :
    ({ s with ports := b'.ports, tables := s.tables.set i b' } : System).table j =
      if i = j then some b' else (s.table j).map fun x => { x with ports := b'.ports } := by
  obtain ⟨b₀, hb₀, -⟩ := Option.map_eq_some_iff.1 h
  unfold table
  simp only [List.getElem?_set]
  split
  · have hlt : i < s.tables.length := (List.getElem?_eq_some_iff.1 hb₀).1
    rw [if_pos hlt]
    rfl
  · cases s.tables[j]? <;> rfl

/-- A call that keeps its table's invariant and the ports of others keeps the system's. The other
tables change in the shared ports only, where their own entries stay as they were (`hother`). -/
theorem Ok.call (h : s.Ok) {i : Nat} {b b' : Bindings} (hb : s.table i = some b) (hinv : b'.Inv)
    (hmoves : b.Moves b') :
    ({ s with ports := b'.ports, tables := s.tables.set i b' } : System).Ok := by
  have hports := table_ports hb
  have hother : ∀ j c x k v, s.table j = some c → i ≠ j → c.reverse.get x = some k →
      s.ports.entries.get x = some v →
      b'.ports.entries.get x = some v ∧ b'.reverse.get x = none := by
    intro j c x k v hc hne hr hv
    exact hmoves x v (hports ▸ hv) (h.apart j i c b hc hb hne.symm x k hr)
  have htable :
      ∀ j c, ({ s with ports := b'.ports, tables := s.tables.set i b' } : System).table j =
      some c → (j = i ∧ c = b') ∨
        (i ≠ j ∧ ∃ c₀, s.table j = some c₀ ∧ c = { c₀ with ports := b'.ports }) := by
    intro j c hc
    rw [table_set hb] at hc
    split at hc
    · next he => exact .inl ⟨he.symm, (Option.some.inj hc).symm⟩
    · next hne =>
      obtain ⟨c₀, hc₀, rfl⟩ := Option.map_eq_some_iff.1 hc
      exact .inr ⟨hne, c₀, hc₀, rfl⟩
  have hentry : ∀ j c x k, s.table j = some c → c.reverse.get x = some k →
      ∃ v, s.ports.entries.get x = some v := by
    intro j c x k hc hr
    obtain ⟨id, hv⟩ := (h.tables j c hc).entry hr
    exact ⟨_, table_ports hc ▸ hv⟩
  refine ⟨hinv.counts.placed.ok, fun j c hc => ?_, fun j j' c c' hc hc' hne x k hr => ?_,
    fun l hl => ?_, fun l hl j c hc => ?_, h.distinct⟩
  · rcases htable j c hc with ⟨-, rfl⟩ | ⟨hij, c₀, hc₀, rfl⟩
    · exact hinv
    · refine (h.tables j c₀ hc₀).setPorts hinv.counts.placed.ok fun x k v hx hv => ?_
      exact (hother j c₀ x k v hc₀ hij hx (table_ports hc₀ ▸ hv)).1
  · rcases htable j c hc with ⟨rfl, rfl⟩ | ⟨hij, c₀, hc₀, rfl⟩
    · rcases htable j' c' hc' with ⟨rfl, -⟩ | ⟨hij, c₀, hc₀, rfl⟩
      · exact absurd rfl hne
      · show c₀.reverse.get x = none
        cases hx : c₀.reverse.get x with
        | none => rfl
        | some k' =>
          obtain ⟨v, hv⟩ := hentry j' c₀ x k' hc₀ hx
          rw [(hother j' c₀ x k' v hc₀ hij hx hv).2] at hr
          cases hr
    · have hr : c₀.reverse.get x = some k := hr
      rcases htable j' c' hc' with ⟨rfl, rfl⟩ | ⟨-, c₁, hc₁, rfl⟩
      · obtain ⟨v, hv⟩ := hentry j c₀ x k hc₀ hr
        exact (hother j c₀ x k v hc₀ hij hr hv).2
      · exact h.apart j j' c₀ c₁ hc₀ hc₁ hne x k hr
  · obtain ⟨o, ho⟩ := h.leases l hl
    exact ⟨o, (hmoves _ _ (hports ▸ ho) (h.free l hl i b hb)).1⟩
  · rcases htable j c hc with ⟨-, rfl⟩ | ⟨-, c₀, hc₀, rfl⟩
    · obtain ⟨o, ho⟩ := h.leases l hl
      exact (hmoves _ _ (hports ▸ ho) (h.free l hl i b hb)).2
    · exact h.free l hl j c₀ hc₀

/-- Every operation keeps the invariant and returns. One case for each operation: a call on a table
(`Ok.call`), and claims and drops of ports, which leave the tables alone. -/
theorem Ok.step (h : s.Ok) (o : Op) (hp : o.Promised) :
    (s.step o).1.Ok ∧ (s.step o).2 ≠ .panicked := by
  cases o with
  | call i now c =>
    cases hb : s.table i with
    | none =>
      simp only [System.step, hb]
      exact ⟨h, by simp⟩
    | some b =>
      obtain ⟨a, b', hcall, ha, hdid⟩ := Bindings.call_did (h.tables i b hb) now c hp
      simp only [System.step, hb, hcall]
      exact ⟨h.call hb hdid.inv hdid.moves, ha⟩
  | claim now protocol port owner =>
    cases hclaim : s.ports.claim protocol port owner with
    | error e =>
      simp only [System.step, hclaim]
      exact ⟨h, by simp⟩
    | ok r =>
      obtain ⟨l, ports⟩ := r
      simp only [System.step, hclaim]
      obtain ⟨hok, hkey, hnone, hentries⟩ := Ports.claim_ok hclaim h.ports
      have hkept : ∀ x v, s.ports.entries.get x = some v → ports.entries.get x = some v := by
        intro x v hv
        have hne : l.key ≠ x := by
          intro he
          rw [he, hv] at hnone
          cases hnone
        rw [hentries, OrdMap.get_insert_eq, if_neg hne]
        exact hv
      refine ⟨h.setPorts hok (fun i b x k v _ _ hv => hkept x v hv) (fun l' hl => ?_)
        (fun l' hl i b hb => ?_) ?_, by simp⟩
      · rcases List.mem_append.1 hl with hl | hl
        · exact (h.leases l' hl).imp fun o ho => hkept _ _ ho
        · rw [List.mem_singleton.1 hl, hentries]
          exact ⟨owner, OrdMap.get_insert_self _ _ _⟩
      · rcases List.mem_append.1 hl with hl | hl
        · exact h.free l' hl i b hb
        · rw [List.mem_singleton.1 hl]
          cases hx : b.reverse.get l.key with
          | none => rfl
          | some k =>
            obtain ⟨id, hv⟩ := (h.tables i b hb).entry hx
            rw [table_ports hb, hnone] at hv
            cases hv
      · refine List.pairwise_append.2 ⟨h.distinct, List.pairwise_singleton _ _,
          fun l₁ h₁ l₂ h₂ => ?_⟩
        rw [List.mem_singleton.1 h₂]
        intro he
        obtain ⟨o, ho⟩ := h.leases l₁ h₁
        rw [he, hnone] at ho
        cases ho
  | drop now i =>
    cases hl : s.leases[i]? with
    | none =>
      simp only [System.step, hl]
      exact ⟨h, by simp⟩
    | some l =>
      have hmem : l ∈ s.leases := List.mem_of_getElem? hl
      obtain ⟨o, ho⟩ := h.leases l hmem
      obtain ⟨ports, hrel, hok, hentries⟩ := Ports.release_ok h.ports ho
      simp only [System.step, hl, hrel]
      have hkept : ∀ x v, x ≠ l.key → s.ports.entries.get x = some v →
          ports.entries.get x = some v := by
        intro x v hne hv
        rw [hentries, OrdMap.get_remove_eq, if_neg hne]
        exact hv
      have hrest : ∀ l' ∈ s.leases.eraseIdx i, l' ∈ s.leases ∧ l'.key ≠ l.key := by
        intro l' hl'
        obtain ⟨j, hj, hne, rfl⟩ := List.mem_eraseIdx_iff_getElem.1 hl'
        obtain ⟨hi, rfl⟩ := List.getElem?_eq_some_iff.1 hl
        refine ⟨List.getElem_mem _, ?_⟩
        rcases Nat.lt_or_gt_of_ne hne with hlt | hlt
        · exact List.pairwise_iff_getElem.1 h.distinct j i hj hi hlt
        · exact (List.pairwise_iff_getElem.1 h.distinct i j hi hj hlt).symm
      refine ⟨h.setPorts hok (fun j b x k v hb hx hv => hkept x v ?_ hv) (fun l' hl' => ?_)
        (fun l' hl' j b hb => h.free l' (hrest l' hl').1 j b hb) (h.distinct.sublist
          (List.eraseIdx_sublist _ _)), by simp⟩
      · intro he
        rw [he, h.free l hmem j b hb] at hx
        cases hx
      · obtain ⟨hm, hne⟩ := hrest l' hl'
        exact (h.leases l' hm).imp fun o ho => hkept _ _ hne ho

/-- An operation on a table that is not there, or elsewhere, leaves a table alone: no operation
changes the number of tables. -/
theorem step_table_none (o : Op) {i : Nat} (h : s.table i = none) :
    (s.step o).1.table i = none := by
  have hlength : (s.step o).1.tables.length = s.tables.length := by
    cases o with
    | call j now c =>
      simp only [System.step]
      split
      · rfl
      · split
        · rfl
        · exact List.length_set ..
    | claim now protocol port owner =>
      simp only [System.step]
      split <;> rfl
    | drop now j =>
      simp only [System.step]
      split
      · rfl
      · split <;> rfl
  have hout : s.tables.length ≤ i := List.getElem?_eq_none_iff.1 (Option.map_eq_none_iff.1 h)
  rw [table, List.getElem?_eq_none (hlength ▸ hout)]
  rfl

/-- What an operation does to a table: a call on it does what it does, and nothing else touches more
than the registry. -/
theorem Ok.step_table (h : s.Ok) {o : Op} (hp : o.Promised) {i : Nat} {b : Bindings}
    (hb : s.table i = some b) : ∃ b', (s.step o).1.table i = some b' ∧
      ((b' = { b with ports := b'.ports } ∧ ∀ now c, o ≠ .call i now c) ∨
        ∃ now c a, o = .call i now c ∧ b.call now c = some (a, b') ∧ (s.step o).2 = a ∧
          b.Did now c a b') := by
  have hports :
      ∀ s' : System, s'.tables = s.tables → s'.table i = some { b with ports := s'.ports } := by
    intro s' htables
    obtain ⟨b₀, hb₀, rfl⟩ := Option.map_eq_some_iff.1 hb
    rw [table, htables, hb₀]
    rfl
  cases o with
  | call j now c =>
    by_cases he : j = i
    · subst he
      obtain ⟨a, b', hcall, -, hdid⟩ := Bindings.call_did (h.tables j b hb) now c hp
      simp only [System.step, hb, hcall]
      exact ⟨b', by rw [table_set hb, if_pos rfl], .inr ⟨now, c, a, rfl, hcall, rfl, hdid⟩⟩
    · have hne : ∀ now' c', Op.call j now c ≠ .call i now' c' := by
        intro now' c' hc
        cases hc
        exact he rfl
      cases hj : s.table j with
      | none =>
        simp only [System.step, hj]
        exact ⟨b, hb, .inl ⟨rfl, hne⟩⟩
      | some b₁ =>
        obtain ⟨a, b', hcall, -, -⟩ := Bindings.call_did (h.tables j b₁ hj) now c hp
        simp only [System.step, hj, hcall]
        exact ⟨{ b with ports := b'.ports }, by rw [table_set hj, if_neg he, hb]; rfl,
          .inl ⟨rfl, hne⟩⟩
  | claim now protocol port owner =>
    refine ⟨_, hports _ ?_, .inl ⟨rfl, fun _ _ => by simp⟩⟩
    simp only [System.step]
    split <;> rfl
  | drop now j =>
    refine ⟨_, hports _ ?_, .inl ⟨rfl, fun _ _ => by simp⟩⟩
    simp only [System.step]
    split
    · rfl
    · split <;> rfl

/-- Every run from empty tables is sound, and nothing in it panics. -/
theorem run_ok {legal : System → Op → Prop} {n t₀ t : Nat} {es : List (Op × Answer)}
    (run : (machine legal).Run (start n) t₀ es s t) : s.Ok ∧ ∀ e ∈ es, e.2 ≠ .panicked := by
  refine run.history (I := fun es s _ => s.Ok ∧ ∀ e ∈ es, e.2 ≠ .panicked)
    ⟨start_ok n, by simp⟩ fun es s t o _ ih _ hl => ?_
  obtain ⟨hok, hne⟩ := ih.1.step o hl.1
  refine ⟨hok, fun e he => ?_⟩
  rcases List.mem_append.1 he with he | he
  · exact ih.2 e he
  · rw [List.mem_singleton.1 he]
    exact hne

end System

/-- What the indexes, counters and limits of a table promise. -/
structure Bindings.TableOk (b : Bindings) : Prop where
  reverse : ∀ k p, (∃ x, b.bindings.get k = some x ∧ x.port = p) ↔
    b.reverse.get (k.protocol, p) = some k
  counter : ∀ k x, b.bindings.get k = some x →
    x.sessions = (b.sessions.keys.countP fun n => decide (n.1 = k)) ∧ 1 ≤ x.sessions
  owned : ∀ n s, b.sessions.get n = some s → ∃ x, b.bindings.get n.1 = some x
  hosts : ∀ a m n, b.hosts.get a = some (m, n) →
    m = (b.bindings.keys.countP fun k => decide (k.host = a)) ∧
      n = (b.sessions.keys.countP fun k => decide (k.1.host = a)) ∧ 1 ≤ m ∧ 1 ≤ n
  hostless : ∀ a, b.hosts.get a = none →
    (b.bindings.keys.countP fun k => decide (k.host = a)) = 0 ∧
      (b.sessions.keys.countP fun k => decide (k.1.host = a)) = 0
  tcp : ∀ n s, b.sessions.get n = some s → (s.tcp.isSome = true ↔ n.1.protocol = 6)
  quoteBytes : b.tcpQuoteBytes = (b.sessions.values.map fun s => s.synQuote.length).sum
  next : ∀ t, b.next = some t → ∀ n s, b.sessions.get n = some s → t ≤ s.expires
  nextNone : b.next = none ↔ b.sessions.size = 0
  bindings : b.bindings.size ≤ 4096
  sessions : b.sessions.size ≤ 8192
  hostBindings : ∀ a, (b.bindings.keys.countP fun k => decide (k.host = a)) ≤ 128
  hostSessions : ∀ a, (b.sessions.keys.countP fun n => decide (n.1.host = a)) ≤ 256
  charge : b.chargedBytes ≤ 4 * 1024 * 1024

/-- The invariant says what is claimed of a table. The counts of the claim are those of lists of
keys, and are turned into the totals of the invariant first. -/
theorem Bindings.Inv.tableOk {b : Bindings} (h : b.Inv) : b.TableOk := by
  have hkey :
      ∀ k, (b.sessions.keys.countP fun n => decide (n.1 = k)) = b.sessions.total (ofKey k) :=
    fun k => OrdMap.countP_keys b.sessions fun n => n.1 = k
  have hbinding : ∀ a, (b.bindings.keys.countP fun k => decide (k.host = a)) =
      b.bindings.total (bindingOf a) := fun a => OrdMap.countP_keys b.bindings fun k => k.host = a
  have hsession : ∀ a, (b.sessions.keys.countP fun n => decide (n.1.host = a)) =
      b.sessions.total (ofHost a) := fun a => OrdMap.countP_keys b.sessions fun n => n.1.host = a
  refine ⟨fun k p => ?_, fun k x hk => ?_, fun n s hn => ?_, fun a m n ha => ?_, fun a ha => ?_,
    fun n s hn => (h.counts.sessions n s hn).tcp, ?_, h.next.le, ?_, h.capacity.bindings,
    h.capacity.sessions, fun a => ?_, fun a => ?_, h.capacity.charge⟩
  · rw [h.counts.placed.reverse]
    constructor
    · rintro ⟨x, hx, rfl⟩
      exact ⟨_, Bindings.place_eq_some.2 ⟨x, hx, rfl⟩, rfl⟩
    · rintro ⟨q, hq, he⟩
      obtain ⟨x, hx, rfl⟩ := Bindings.place_eq_some.1 hq
      exact ⟨x, hx, (Prod.mk.inj he).2.symm⟩
  · have hpos := h.bound k _ (Bindings.place_eq_some.2 ⟨x, hk, rfl⟩)
    rw [hkey, h.counts.counter k x hk]
    exact ⟨rfl, hpos⟩
  · obtain ⟨q, hq⟩ := h.counts.owned n s hn
    exact (Bindings.place_eq_some.1 hq).imp fun _ hx => hx.1
  · rw [h.counts.hosts, Bindings.hostEntry] at ha
    split at ha
    · cases ha
    · next hne =>
      cases ha
      rw [hbinding, hsession]
      refine ⟨rfl, rfl, Nat.pos_of_ne_zero hne, ?_⟩
      obtain ⟨k, x, hk, hw⟩ := OrdMap.total_pos.1 (Nat.pos_of_ne_zero hne)
      have hpos := h.bound k _ (Bindings.place_eq_some.2 ⟨x, hk, rfl⟩)
      obtain ⟨n, s, hn, hw'⟩ := OrdMap.total_pos.1 hpos
      refine OrdMap.total_pos.2 ⟨n, s, hn, Bindings.ofHost_pos.2 ?_⟩
      rw [Bindings.ofKey_pos.1 hw']
      by_contra hh
      simp [bindingOf, hh] at hw
  · rw [h.counts.hosts, Bindings.hostEntry] at ha
    split at ha
    · next hz =>
      rw [hbinding, hsession]
      exact ⟨hz, Bindings.sessions_of_host h.counts.owned hz⟩
    · cases ha
  · rw [h.counts.quoteBytes]
    unfold OrdMap.total OrdMap.values
    rw [List.map_map]
    rfl
  · rw [h.next.none_iff, OrdMap.size, List.length_eq_zero_iff]
  · rw [hbinding]
    exact h.capacity.hostBindings a
  · rw [hsession]
    exact h.capacity.hostSessions a

/-- In every run the indexes and counters of every table agree, its limits hold, and no call
panics. -/
theorem table_invariant {legal : System → Op → Prop} {n t₀ t : Nat} {es : List (Op × Answer)}
    {s : System} (run : (System.machine legal).Run (.start n) t₀ es s t) :
    (∀ i b, s.table i = some b → b.TableOk) ∧ ∀ e ∈ es, e.2 ≠ .panicked := by
  obtain ⟨hok, hno⟩ := System.run_ok run
  exact ⟨fun i b hb => (hok.tables i b hb).tableOk, hno⟩

/-- A host sends a datagram through the first table. -/
def sampleOut : Op :=
  .call 0 1000 (.udpOut .localhost 5000 ⟨.new 192 0 2 1, 53⟩
    (fun _ _ => .ok 0) fun _ => false)

/-- The theorem applied to the table after a datagram, which has one binding. -/
theorem table_invariant_sampleOut : ∃ b, (((System.start 1).step sampleOut).1.table 0) = some b ∧
    b.bindings.size = 1 ∧ b.TableOk := by
  have hsize :
      ((((System.start 1).step sampleOut).1.table 0).map fun b => b.bindings.size) = some 1 := by
    decide +kernel
  obtain ⟨b, hb, hone⟩ := Option.map_eq_some_iff.1 hsize
  have run : (System.machine fun _ _ => True).Run (.start 1) 0
      [(sampleOut, ((System.start 1).step sampleOut).2)] ((System.start 1).step sampleOut).1 1000 :=
    .snoc sampleOut .nil (Nat.zero_le _) ⟨trivial, trivial⟩
  exact ⟨b, hb, hone, (table_invariant run).1 0 b hb⟩

end SnacMachine.Nat64
