import SnacMachine.Nat64.Entry

/-!
# The calls of a binding table

What each call on a table that satisfies the invariant does, in terms of two changes: what has run
out is dropped (`Bindings.Expired`), and then at most one session is entered (`Bindings.Opened`). No
call panics.
-/

namespace SnacMachine.Nat64

namespace Bindings

variable {b : Bindings}

/-- What has run out is gone, and all the rest is there. -/
structure Expired (b : Bindings) (now : Nat) (b' : Bindings) : Prop where
  result : ∃ released, b.expire now = some (released, b')
  inv : b'.Inv
  done : b'.next.all (fun t => decide (now < t)) = true
  reduced : b.Reduced b'
  sessions : ∀ n, b'.sessions.get n =
    ((b.sessions.get n).map (Session.relax now)).filter fun s => decide (now < s.expires)

/-- Expiry succeeds, since every expired session is in the tables that it is removed from. -/
theorem Inv.expire (h : b.Inv) (now : Nat) :
    ∃ released b', b.expire now = some (released, b') ∧ b.Expired now b' := by
  obtain ⟨released, b', he, hred, hnext, hdone, hsessions⟩ := expire_spec h.counts h.next now
  exact ⟨released, b', he, ⟨released, he⟩, h.reduced hred hnext, hdone, hred, hsessions⟩

/-- What has expired is gone, so that a second expiry at the same time does nothing. -/
theorem Expired.again {now : Nat} {b₁ b₂ : Bindings} (h : b.Expired now b₁)
    (h' : b₁.Expired now b₂) : b₂ = b₁ := by
  obtain ⟨released, hexp⟩ := h'.result
  unfold expire at hexp
  rw [if_pos h.done] at hexp
  cases hexp
  rfl

/-- What expires is determined by the table and the time. -/
theorem Expired.unique {now : Nat} {b₁ b₂ : Bindings} (h : b.Expired now b₁)
    (h' : b.Expired now b₂) : b₁ = b₂ := by
  obtain ⟨released, hexp⟩ := h.result
  obtain ⟨released', hexp'⟩ := h'.result
  exact (Prod.mk.inj (Option.some.inj (hexp.symm.trans hexp'))).2

/-- Expiry does not change the domain of a table. -/
theorem Expired.domain {now : Nat} {b' : Bindings} (h : b.Expired now b') : b'.domain = b.domain :=
  congrArg Prod.fst h.reduced.settings

/-- A session has been entered, under a binding that was there or is new. -/
structure Opened (b : Bindings) (key : Key) (remote : SocketAddrV4) (port : UInt16) (s : Session)
    (b' : Bindings) : Prop where
  inv : b'.Inv
  place : ∃ l, b'.place key = some (port, l)
  kept : ∀ k q, b.place k = some q → b'.place k = some q
  placed : ∀ k q, b'.place k = some q → b.place k = some q ∨ (k = key ∧ b.place key = none)
  sessions : ∀ n, b'.sessions.get n = if n = (key, remote) then some s else b.sessions.get n
  timers : b'.settings.2 = b.settings.2
  moves : b.Moves b'

section Opened

variable {key : Key} {remote : SocketAddrV4} {port : UInt16} {s : Session} {b₁ b₂ : Bindings}

/-- A session is opened by assigning a port to its key and entering it. -/
theorem Opened.of_assigned (ha : b.Assigned key port b₁) (he : b₁.Entered key remote s b₂) :
    b.Opened key remote port s b₂ := by
  obtain ⟨l, hl⟩ := ha.place
  refine ⟨he.inv, ⟨l, (he.place key).trans hl⟩, fun k q hk => (he.place k).trans (ha.kept k q hk),
    fun k q hk => ha.placed k q ((he.place k).symm.trans hk), fun n => ?_, ?_, ?_⟩
  · rw [he.sessions, ha.sessions]
  · rw [he.settings, ha.settings]
  · exact ha.moves.trans (.of_eq he.ports he.reverse)

/-- The table after an inbound packet: its domain is that of the key. The domain is no part of the
invariant, so it may be set after the session was entered. -/
theorem Opened.of_entered {l : Lease} (hplace : b.place key = some (port, l))
    (he : b.Entered key remote s b₁) (domain : Ipv6Addr) :
    b.Opened key remote port s { b₁ with domain } := by
  have hc := he.inv.counts
  have hcap := he.inv.capacity
  refine ⟨⟨⟨hc.placed, hc.counter, hc.owned, hc.hosts, hc.sessions, hc.quoteBytes⟩, he.inv.bound,
    ⟨hcap.bindings, hcap.sessions, hcap.hostBindings, hcap.hostSessions, hcap.charge,
     hcap.timeouts⟩,
    ⟨he.inv.next.none_iff, he.inv.next.le⟩⟩, ⟨l, (he.place key).trans hplace⟩,
    fun k q hk => (he.place k).trans hk, fun k q hk =>
    .inl ((he.place k).symm.trans hk), he.sessions,
    ?_, .of_eq he.ports he.reverse⟩
  have hsettings : b₁.settings.2 = b.settings.2 := congrArg Prod.snd he.settings
  exact hsettings

end Opened

/-! ## Outbound calls -/

/-- How an outbound call ends: refused, or with a session under the key's port. -/
def OutEnds (b : Bindings) (now : Nat) (key : Key) (remote : SocketAddrV4) (s : Bindings → Session)
    (r : Except IoError UInt16) (b' : Bindings) : Prop :=
  ∃ b₁, b.Expired now b₁ ∧
    ((∃ e, r = .error e ∧ b' = b₁ ∧ b₁.sessions.get (key, remote) = none) ∨
      ∃ port, r = .ok port ∧ b₁.Opened key remote port (s b₁) b')

variable {now : Nat} {remote : SocketAddrV4} {rng : Random} {occupied : UInt16 → Bool}

/-- An entry that is not refused assigns a port; a live session is never refused. A session has its
place in the table, which both `admits` and `assign` find before they check anything. -/
theorem admits_assign (h : b.Inv) (key : Key) (remote : SocketAddrV4) (rng : Random)
    (occupied : UInt16 → Bool) :
    (∃ e, b.admits key remote = .error e ∧ b.sessions.get (key, remote) = none) ∨
      b.admits key remote = .ok () ∧
        ((∃ e, b.assign key rng occupied = .error e ∧ b.sessions.get (key, remote) = none) ∨
          ∃ port b', b.assign key rng occupied = .ok (port, b') ∧ b.Assigned key port b' ∧
            b'.Ready key remote) := by
  cases ha : b.admits key remote with
  | error e =>
    refine .inl ⟨e, rfl, ?_⟩
    cases hs : b.sessions.get (key, remote) with
    | none => rfl
    | some s =>
      rw [admits_of_session h hs] at ha
      cases ha
  | ok u =>
    refine .inr ⟨rfl, ?_⟩
    cases hassign : b.assign key rng occupied with
    | error e =>
      refine .inl ⟨e, rfl, ?_⟩
      cases hs : b.sessions.get (key, remote) with
      | none => rfl
      | some s =>
        obtain ⟨q, hq⟩ := h.counts.owned _ s hs
        obtain ⟨x, hx, -⟩ := place_eq_some.1 hq
        unfold assign at hassign
        rw [hx] at hassign
        cases hassign
    | ok r =>
      obtain ⟨port, b'⟩ := r
      obtain ⟨hassigned, hroom⟩ := assign_spec h ha hassign
      exact .inr ⟨port, b', rfl, hassigned, hassigned.ready h hroom⟩

/-- How a UDP packet from the stub link ends. The table expires first, then a session is found or
made; the new one has no TCP state and keeps no quote. -/
theorem udpOut_spec (h : b.Inv) (source : Ipv6Addr) (port : UInt16) (remote : SocketAddrV4)
    (now : Nat) (rng : Random) (occupied : UInt16 → Bool) :
    ∃ r b', b.udpOut source port remote now rng occupied = some (r, b') ∧
      b.OutEnds now ⟨17, source, port, b.domain⟩ remote
        (fun _ => ⟨satAdd now (b.udpSeconds * 1000), none, false, []⟩) r b' := by
  obtain ⟨released, b₁, hexp, he⟩ := h.expire now
  simp only [udpOut, hexp, Option.bind_eq_bind, Option.bind_some, he.domain]
  rcases admits_assign he.inv ⟨17, source, port, b.domain⟩ remote rng occupied with
    ⟨e, ha, hs⟩ | ⟨ha, ⟨e, hassign, hs⟩ | ⟨assigned, b₂, hassign, hassigned, hready⟩⟩
  · rw [ha]
    exact ⟨_, _, rfl, b₁, he, .inl ⟨e, rfl, rfl, hs⟩⟩
  · rw [ha, hassign]
    exact ⟨_, _, rfl, b₁, he, .inl ⟨e, rfl, rfl, hs⟩⟩
  · have hsec : b₂.udpSeconds = b.udpSeconds :=
      congrArg (fun x => x.2.2.1) (hassigned.settings.trans he.reduced.settings)
    obtain ⟨b₃, hsession, hentered⟩ := plainSession_spec hready
      (show (17 : UInt8) ≠ 6 by decide) (satAdd now (b.udpSeconds * 1000))
    rw [ha, hassign]
    simp only [udpSession, hsec, hsession, Option.bind_some]
    exact ⟨_, _, rfl, b₁, he, .inr ⟨assigned, rfl, .of_assigned hassigned hentered⟩⟩

/-- How an ICMP packet from the stub link ends. The remote port is zero, and the rest is as for UDP
with the time of ICMP. -/
theorem icmpOut_spec (h : b.Inv) (source : Ipv6Addr) (id : UInt16) (remote : Ipv4Addr) (now : Nat)
    (rng : Random) :
    ∃ r b', b.icmpOut source id remote now rng = some (r, b') ∧
      b.OutEnds now ⟨1, source, id, b.domain⟩ ⟨remote, 0⟩
        (fun _ => ⟨satAdd now (b.icmpSeconds * 1000), none, false, []⟩) r b' := by
  obtain ⟨released, b₁, hexp, he⟩ := h.expire now
  simp only [icmpOut, hexp, Option.bind_eq_bind, Option.bind_some, he.domain]
  rcases admits_assign he.inv ⟨1, source, id, b.domain⟩ ⟨remote, 0⟩ rng fun _ => false with
    ⟨e, ha, hs⟩ | ⟨ha, ⟨e, hassign, hs⟩ | ⟨assigned, b₂, hassign, hassigned, hready⟩⟩
  · rw [ha]
    exact ⟨_, _, rfl, b₁, he, .inl ⟨e, rfl, rfl, hs⟩⟩
  · rw [ha, hassign]
    exact ⟨_, _, rfl, b₁, he, .inl ⟨e, rfl, rfl, hs⟩⟩
  · have hsec : b₂.icmpSeconds = b.icmpSeconds :=
      congrArg (fun x => x.2.2.2) (hassigned.settings.trans he.reduced.settings)
    obtain ⟨b₃, hsession, hentered⟩ := plainSession_spec hready
      (show (1 : UInt8) ≠ 6 by decide) (satAdd now (b.icmpSeconds * 1000))
    rw [ha, hassign]
    simp only [icmpSession, hsec, hsession, Option.bind_some]
    exact ⟨_, _, rfl, b₁, he, .inr ⟨assigned, rfl, .of_assigned hassigned hentered⟩⟩

/-- An outbound segment without SYN opens nothing. With a session or a SYN the call ends as every
outbound call does (`OutEnds`), with the next state of the session from `tcp_next`. -/
theorem tcpOut_spec (h : b.Inv) (source : Ipv6Addr) (port : UInt16) (remote : SocketAddrV4)
    (flags : UInt8) (now : Nat) (rng : Random) :
    ∃ r b', b.tcpOut source port remote flags now rng = some (r, b') ∧
      ((∃ b₁, b.Expired now b₁ ∧ r = .ok none ∧ b' = b₁ ∧
          b₁.sessions.get (⟨6, source, port, b.domain⟩, remote) = none ∧ flags &&& 2 = 0) ∨
        (∃ r', r = r'.map some ∧ b.OutEnds now ⟨6, source, port, b.domain⟩ remote
          (fun b₁ => tcpNext (b₁.sessions.get (⟨6, source, port, b.domain⟩, remote)) true flags now)
          r' b' ∧ ∀ b₁, b.Expired now b₁ →
            b₁.sessions.get (⟨6, source, port, b.domain⟩, remote) = none → flags &&& 2 ≠ 0)) := by
  obtain ⟨released, b₁, hexp, he⟩ := h.expire now
  simp only [tcpOut, hexp, Option.bind_eq_bind, Option.bind_some, he.domain]
  split
  · next hno =>
    exact ⟨_, _, rfl, .inl ⟨b₁, he, rfl, rfl, OrdMap.contains_eq_false_iff.1 hno.1, hno.2⟩⟩
  · next hsyn =>
    have hsyn : ∀ b₂, b.Expired now b₂ →
        b₂.sessions.get (⟨6, source, port, b.domain⟩, remote) = none → flags &&& 2 ≠ 0 := by
      intro b₂ h₂ hnone hflags
      rw [h₂.unique he] at hnone
      exact hsyn ⟨OrdMap.contains_eq_false_iff.2 hnone, hflags⟩
    rcases admits_assign he.inv ⟨6, source, port, b.domain⟩ remote rng fun _ => false with
      ⟨e, ha, hs⟩ | ⟨ha, ⟨e, hassign, hs⟩ | ⟨assigned, b₂, hassign, hassigned, hready⟩⟩
    · rw [ha]
      exact ⟨_, _, rfl, .inr ⟨.error e, rfl, ⟨b₁, he, .inl ⟨e, rfl, rfl, hs⟩⟩, hsyn⟩⟩
    · rw [ha, hassign]
      exact ⟨_, _, rfl, .inr ⟨.error e, rfl, ⟨b₁, he, .inl ⟨e, rfl, rfl, hs⟩⟩, hsyn⟩⟩
    · obtain ⟨b₃, hsession, hentered⟩ := tcpSession_spec hready rfl true flags now
      rw [ha, hassign]
      simp only [hsession, Option.bind_some]
      rw [hassigned.sessions] at hentered
      exact ⟨_, _, rfl, .inr ⟨.ok assigned, rfl, ⟨b₁, he,
        .inr ⟨assigned, rfl, .of_assigned hassigned hentered⟩⟩, hsyn⟩⟩

/-! ## Inbound calls -/

/-- How an inbound call ends: with no host, refused, or with a session of the port's key, whose
domain the table turns to. A session that is live is found. -/
def InEnds (b : Bindings) (now : Nat) (x : PortKey) (remote : SocketAddrV4)
    (passes : Bindings → Key → Prop) (s : Bindings → Key → Session)
    (r : Except IoError (Option (Ipv6Addr × UInt16))) (b' : Bindings) : Prop :=
  ∃ b₁, b.Expired now b₁ ∧
    ((b' = b₁ ∧ (∀ a, r ≠ .ok (some a)) ∧
        ∀ key, b₁.reverse.get x = some key → b₁.sessions.get (key, remote) = none) ∨
      ∃ key, b₁.reverse.get x = some key ∧ passes b₁ key ∧ r = .ok (some (key.host, key.port)) ∧
        b'.domain = key.domain ∧ b₁.Opened key remote x.2 (s b₁ key) b')

/-- The key of a port has that port. -/
theorem place_of_reverse (h : b.Counts) {x : PortKey} {key : Key}
    (hr : b.reverse.get x = some key) :
    x.1 = key.protocol ∧ ∃ l, b.place key = some (x.2, l) := by
  obtain ⟨q, hq, hx⟩ := (h.placed.reverse x key).1 hr
  rw [hx]
  exact ⟨rfl, q.2, hq⟩

/-- A remote address is known to a key that has a session with it, from any port. -/
theorem addressKnown_iff {key : Key} :
    b.addressKnown key remote = true ↔
      ∃ r s, b.sessions.get (key, r) = some s ∧ r.ip = remote.ip := by
  unfold addressKnown OrdMap.keys
  simp only [List.any_eq_true, List.mem_map, Bool.and_eq_true, decide_eq_true_eq]
  constructor
  · rintro ⟨n, ⟨e, he, rfl⟩, rfl, hip⟩
    exact ⟨e.1.2, e.2, OrdMap.mem_iff_get.1 he, hip⟩
  · rintro ⟨r, s, hs, hip⟩
    exact ⟨(key, r), ⟨((key, r), s), OrdMap.mem_iff_get.2 hs, rfl⟩, rfl, hip⟩

/-- How a UDP packet to a port ends: nothing is found at the port, the filter refuses the remote
address, or the session is opened or renewed. The settings of the table are those of before the
expiry. -/
theorem udpIn_spec (h : b.Inv) (port : UInt16) (remote : SocketAddrV4) (now : Nat) :
    ∃ r b', b.udpIn port remote now = some (r, b') ∧
      b.InEnds now (17, port) remote
        (fun b₁ key => b.udpFiltering = .addressDependent → b₁.addressKnown key remote = true)
        (fun _ _ => ⟨satAdd now (b.udpSeconds * 1000), none, false, []⟩) r b' := by
  obtain ⟨released, b₁, hexp, he⟩ := h.expire now
  simp only [udpIn, hexp, Option.bind_eq_bind, Option.bind_some]
  cases hr : b₁.reverse.get (17, port) with
  | none => exact ⟨_, _, rfl, b₁, he, .inl ⟨rfl, by simp, fun key hk => by rw [hr] at hk; cases hk⟩⟩
  | some key =>
    simp only
    obtain ⟨hproto, l, hplace⟩ := place_of_reverse he.inv.counts hr
    have hfilter : b₁.udpFiltering = b.udpFiltering := congrArg (fun x => x.2.1) he.reduced.settings
    have hsec : b₁.udpSeconds = b.udpSeconds := congrArg (fun x => x.2.2.1) he.reduced.settings
    split
    · next hno =>
      refine ⟨_, _, rfl, b₁, he, .inl ⟨rfl, by simp, fun key' hk => ?_⟩⟩
      rw [hr, Option.some.injEq] at hk
      subst hk
      cases hs : b₁.sessions.get (key, remote) with
      | none => rfl
      | some s =>
        rw [addressKnown_iff.2 ⟨remote, s, hs, rfl⟩] at hno
        cases hno.2
    · next hpass =>
      cases ha : b₁.admits key remote with
      | error e =>
        refine ⟨_, _, rfl, b₁, he, .inl ⟨rfl, by simp, fun key' hk => ?_⟩⟩
        rw [hr, Option.some.injEq] at hk
        subst hk
        cases hs : b₁.sessions.get (key, remote) with
        | none => rfl
        | some s =>
          rw [admits_of_session he.inv hs] at ha
          cases ha
      | ok u =>
        obtain ⟨x, hx, -⟩ := place_eq_some.1 hplace
        obtain ⟨b₂, hsession, hentered⟩ := plainSession_spec
          (he.inv.ready hplace (room_of_admits he.inv hx ha))
          (fun h6 => absurd (hproto.trans h6) (show (17 : UInt8) ≠ 6 by decide))
          (satAdd now (b.udpSeconds * 1000))
        simp only [udpSession, hsec, hsession, Option.bind_some]
        refine ⟨_, _, rfl, b₁, he, .inr ⟨key, hr, fun hf => ?_, rfl, rfl,
          .of_entered hplace hentered _⟩⟩
        by_contra hk
        exact hpass ⟨hfilter.trans hf, Bool.eq_false_iff.2 hk⟩

/-- How an ICMP packet to a port ends: nothing is found at the port, there is no session with the
remote address, or that session is renewed. -/
theorem icmpIn_spec (h : b.Inv) (id : UInt16) (remote : Ipv4Addr) (now : Nat) :
    ∃ r b', b.icmpIn id remote now = some (r, b') ∧
      b.InEnds now (1, id) ⟨remote, 0⟩
        (fun b₁ key => ∃ s, b₁.sessions.get (key, ⟨remote, 0⟩) = some s)
        (fun _ _ => ⟨satAdd now (b.icmpSeconds * 1000), none, false, []⟩) r b' := by
  obtain ⟨released, b₁, hexp, he⟩ := h.expire now
  simp only [icmpIn, hexp, Option.bind_eq_bind, Option.bind_some]
  cases hr : b₁.reverse.get (1, id) with
  | none => exact ⟨_, _, rfl, b₁, he, .inl ⟨rfl, by simp, fun key hk => by rw [hr] at hk; cases hk⟩⟩
  | some key =>
    simp only
    obtain ⟨hproto, l, hplace⟩ := place_of_reverse he.inv.counts hr
    have hsec : b₁.icmpSeconds = b.icmpSeconds := congrArg (fun x => x.2.2.2) he.reduced.settings
    cases hs : b₁.sessions.get (key, ⟨remote, 0⟩) with
    | none =>
      rw [if_pos (OrdMap.contains_eq_false_iff.2 hs)]
      refine ⟨_, _, rfl, b₁, he, .inl ⟨rfl, by simp, fun key' hk => ?_⟩⟩
      rw [hr, Option.some.injEq] at hk
      subst hk
      exact hs
    | some s =>
      rw [if_neg (by rw [OrdMap.contains_iff.2 ⟨s, hs⟩]; simp)]
      obtain ⟨b₂, hsession, hentered⟩ := plainSession_spec
        (he.inv.ready hplace (room_of_session he.inv hs))
        (fun h6 => absurd (hproto.trans h6) (show (1 : UInt8) ≠ 6 by decide))
        (satAdd now (b.icmpSeconds * 1000))
      simp only [icmpSession, hsec, hsession, Option.bind_some]
      exact ⟨_, _, rfl, b₁, he, .inr ⟨key, hr, ⟨s, hs⟩, rfl, rfl, .of_entered hplace hentered _⟩⟩

/-- How a TCP segment to a port ends; the call also says how much more the table is charged, which
is one session if there was none for this remote address. -/
theorem tcpIn_spec (h : b.Inv) (port : UInt16) (remote : SocketAddrV4) (flags : UInt8) (now : Nat) :
    ∃ r b', b.tcpIn port remote flags now = some (r, b') ∧
      b.InEnds now (6, port) remote
        (fun b₁ key => b₁.sessions.get (key, remote) = none → flags &&& 2 ≠ 0)
        (fun b₁ key => tcpNext (b₁.sessions.get (key, remote)) false flags now) r b' ∧
      ∀ b₁ key, b.Expired now b₁ → b₁.reverse.get (6, port) = some key →
        b'.chargedBytes ≤
          b₁.chargedBytes + if b₁.sessions.contains (key, remote) then 0 else 256 := by
  obtain ⟨released, b₁, hexp, he⟩ := h.expire now
  have hone : ∀ b₂, b.Expired now b₂ → b₂ = b₁ := fun b₂ h₂ => h₂.unique he
  simp only [tcpIn, hexp, Option.bind_eq_bind, Option.bind_some]
  cases hr : b₁.reverse.get (6, port) with
  | none =>
    refine ⟨_, _, rfl, ⟨b₁, he, .inl ⟨rfl, by simp, fun key hk => ?_⟩⟩, fun b₂ key h₂ hk => ?_⟩
    · rw [hr] at hk
      cases hk
    · rw [hone b₂ h₂, hr] at hk
      cases hk
  | some key =>
    simp only
    obtain ⟨hproto, l, hplace⟩ := place_of_reverse he.inv.counts hr
    have hkey : ∀ key', b₁.reverse.get (6, port) = some key' → key' = key := by
      intro key' hk
      rw [hr] at hk
      exact (Option.some.inj hk).symm
    have hsame : ∀ b₂ key', b.Expired now b₂ → b₂.reverse.get (6, port) = some key' →
        b₁.chargedBytes ≤
          b₂.chargedBytes + if b₂.sessions.contains (key', remote) then 0 else 256 := by
      intro b₂ key' h₂ _
      rw [hone b₂ h₂]
      exact Nat.le_add_right _ _
    split
    · next hno =>
      refine ⟨_, _, rfl, ⟨b₁, he, .inl ⟨rfl, by simp, fun key' hk => ?_⟩⟩, hsame⟩
      rw [hkey key' hk]
      exact OrdMap.contains_eq_false_iff.1 hno.1
    · next hpass =>
      cases ha : b₁.admits key remote with
      | error e =>
        refine ⟨_, _, rfl, ⟨b₁, he, .inl ⟨rfl, by simp, fun key' hk => ?_⟩⟩, hsame⟩
        rw [hkey key' hk]
        cases hs : b₁.sessions.get (key, remote) with
        | none => rfl
        | some s =>
          rw [admits_of_session he.inv hs] at ha
          cases ha
      | ok u =>
        obtain ⟨x, hx, -⟩ := place_eq_some.1 hplace
        obtain ⟨b₂, hsession, hentered⟩ := tcpSession_spec
          (he.inv.ready hplace (room_of_admits he.inv hx ha)) hproto.symm false flags now
        simp only [hsession, Option.bind_some]
        refine ⟨_, _, rfl, ⟨b₁, he, .inr ⟨key, hr, fun hnone hf => ?_, rfl, rfl,
          .of_entered hplace hentered _⟩⟩, fun b₃ key' h₃ hk => ?_⟩
        · exact hpass ⟨OrdMap.contains_eq_false_iff.2 hnone, hf⟩
        · rw [hone b₃ h₃] at hk ⊢
          rw [hkey key' hk]
          exact hentered.charge

/-- The head of a SYN is kept with its session. -/
def keepQuote (packet : Bytes) (s : Session) : Session :=
  if s.tcp = some .v4Init ∧ s.synQuote = [] then
    { s with synQuote := packet.take (quoteLength packet) }
  else s

/-- A quote is as long as it is said to be. -/
theorem length_quote (packet : Bytes) :
    (packet.take (quoteLength packet)).length = quoteLength packet := by
  unfold quoteLength
  rw [List.length_take]
  omega

/-- Remembering a SYN keeps its quote in the session, and charges for it. Nothing changes if the
session has a quote or needs none; otherwise its octets are added to the count, which stays within
the limit. -/
theorem rememberTcpSyn_spec {key : Key} {port port' : UInt16} {s : Session} {packet : Bytes}
    {b' : Bindings} (h : b.Opened key remote port' s b') (hr : b'.reverse.get (6, port) = some key)
    (hpacket : packet ≠ []) (hcharge : b'.chargedBytes + quoteLength packet ≤ maxCharge) :
    ∃ b'', b'.rememberTcpSyn port remote packet = some b'' ∧ b''.domain = b'.domain ∧
      b.Opened key remote port' (keepQuote packet s) b'' := by
  have hs : b'.sessions.get (key, remote) = some s := by
    rw [h.sessions, if_pos rfl]
  unfold rememberTcpSyn keepQuote
  simp only [hr, hs]
  split
  · next hquote =>
    have hok := h.inv.counts.sessions _ s hs
    have hlen := length_quote packet
    have hinv := h.inv
    have hc := hinv.capacity
    have hnew : SessionOk (key, remote) { s with synQuote := packet.take (quoteLength packet) } :=
      ⟨hok.tcp, fun _ => hquote.1⟩
    have hbytes : b'.tcpQuoteBytes + (packet.take (quoteLength packet)).length + s.synQuote.length =
        b'.tcpQuoteBytes + (packet.take (quoteLength packet)).length := by
      rw [hquote.2]
      simp
    have hcounts := hinv.counts.renew hs hnew hbytes
    have htotal : ∀ w : SessionKey → Nat, (b'.sessions.insert (key, remote)
        { s with synQuote := packet.take (quoteLength packet) }).total (fun n _ => w n) =
          b'.sessions.total fun n _ => w n := by
      intro w
      have := OrdMap.total_insert_of_some (f := fun n _ => w n)
        (v := { s with synQuote := packet.take (quoteLength packet) }) hs
      omega
    have hsize := OrdMap.size_insert_of_contains
      ({ s with synQuote := packet.take (quoteLength packet) } : Session)
      (OrdMap.contains_iff.2 ⟨s, hs⟩)
    refine ⟨_, rfl, rfl, ⟨⟨hcounts, fun k q hk => ?_, ⟨hc.bindings, hsize.trans_le hc.sessions,
      hc.hostBindings, fun a => ?_, ?_, hc.timeouts⟩, ⟨?_, fun t ht n s₁ hn => ?_⟩⟩,
      h.place, h.kept,
      h.placed, fun n => ?_, h.timers, h.moves⟩⟩
    · exact Nat.lt_of_lt_of_eq (hinv.bound k q hk) (htotal fun n => if n.1 = k then 1 else 0).symm
    · exact (htotal fun n => if n.1.host = a then 1 else 0).trans_le (hc.hostSessions a)
    · unfold chargedBytes at hcharge ⊢
      simp only [hsize]
      omega
    · refine ⟨fun hn => ?_, fun hn => ?_⟩
      · exact absurd (hinv.next.none_iff.1 hn) (OrdMap.entries_ne_nil hs)
      · exact absurd hn (OrdMap.entries_ne_nil (OrdMap.get_insert_self _ _ _))
    · simp only [OrdMap.get_insert_eq] at hn
      split at hn
      · obtain rfl := Option.some.inj hn
        exact hinv.next.le t ht _ s hs
      · exact hinv.next.le t ht n s₁ hn
    · simp only [OrdMap.get_insert_eq, eq_comm, h.sessions]
      split <;> rfl
  · exact ⟨b', rfl, rfl, h⟩

/-- How a TCP packet to a port ends, if the packet is at hand; a SYN that cannot be quoted is
refused. -/
theorem tcpInPacket_spec (h : b.Inv) (port : UInt16) (remote : SocketAddrV4) (flags : UInt8)
    (now : Nat) {packet : Bytes} (hpacket : packet ≠ []) :
    ∃ r b', b.tcpInPacket port remote flags now packet = some (r, b') ∧
      ((∃ b₁ key, b.Expired now b₁ ∧ b₁.reverse.get (6, port) = some key ∧ r = .error full ∧
          b' = b₁ ∧ b₁.needsQuote key remote flags = true ∧
          b₁.chargedBytes + (quoteLength packet +
            if b₁.sessions.contains (key, remote) then 0 else 256) > maxCharge) ∨
        b.InEnds now (6, port) remote
          (fun b₁ key => (b₁.sessions.get (key, remote) = none → flags &&& 2 ≠ 0) ∧
            (b₁.needsQuote key remote flags = true → b₁.chargedBytes + (quoteLength packet +
              if b₁.sessions.contains (key, remote) then 0 else 256) ≤ maxCharge))
          (fun b₁ key =>
            let s := tcpNext (b₁.sessions.get (key, remote)) false flags now
            if b₁.needsQuote key remote flags then keepQuote packet s else s) r b') := by
  obtain ⟨released, b₁, hexp, he⟩ := h.expire now
  simp only [tcpInPacket, hexp, Option.bind_eq_bind, Option.bind_some]
  cases hr : b₁.reverse.get (6, port) with
  | none =>
    refine ⟨_, _, rfl, .inr ⟨b₁, he, .inl ⟨rfl, by simp, fun key hk => ?_⟩⟩⟩
    rw [hr] at hk
    cases hk
  | some key =>
    simp only
    rw [if_neg fun hn => hpacket hn.2]
    by_cases hover : b₁.needsQuote key remote flags = true ∧ b₁.chargedBytes + (quoteLength packet +
      if b₁.sessions.contains (key, remote) then 0 else 256) > maxCharge
    · rw [if_pos hover]
      exact ⟨_, _, rfl, .inl ⟨b₁, key, he, hr, rfl, rfl, hover⟩⟩
    · rw [if_neg hover]
      obtain ⟨r, b₂, htcp, ⟨b₁', he', hends⟩, hcharge⟩ := tcpIn_spec he.inv port remote flags now
      obtain rfl := he.again he'
      have hcharge := hcharge b₁' key he' hr
      simp only [htcp, Option.bind_some]
      rcases hends with ⟨rfl, hnot, hnone⟩ | ⟨key', hr', hpass, rfl, hdomain, hopened⟩
      · refine ⟨r, b₂, ?_, .inr ⟨b₂, he, .inl ⟨rfl, hnot, hnone⟩⟩⟩
        cases r with
        | error e => rfl
        | ok a =>
          cases a with
          | none => rfl
          | some a => exact absurd rfl (hnot a)
      · obtain rfl : key' = key := Option.some.inj (hr'.symm.trans hr)
        have hfits : b₁'.needsQuote key' remote flags = true → b₁'.chargedBytes +
            (quoteLength packet + if b₁'.sessions.contains (key', remote) then 0 else 256) ≤
              maxCharge := fun hneeds => Nat.not_lt.1 fun hlt => hover ⟨hneeds, hlt⟩
        simp only
        by_cases hneeds : b₁'.needsQuote key' remote flags = true
        · have hfit := hfits hneeds
          obtain ⟨l, hl⟩ := hopened.place
          have hproto := (place_of_reverse he.inv.counts hr).1
          have hr₂ : b₂.reverse.get (6, port) = some key' :=
            (hopened.inv.counts.placed.reverse _ key').2 ⟨_, hl, Prod.ext hproto rfl⟩
          obtain ⟨b₃, hremember, hkept, hopened₃⟩ :=
            rememberTcpSyn_spec hopened hr₂ hpacket (by omega)
          rw [if_pos hneeds, hremember]
          refine ⟨_, _, rfl, .inr ⟨b₁', he, .inr ⟨key', hr, ⟨hpass, hfits⟩, rfl,
            hkept.trans hdomain, ?_⟩⟩⟩
          simp only [if_pos hneeds]
          exact hopened₃
        · rw [if_neg hneeds]
          refine ⟨_, _, rfl, .inr ⟨b₁', he, .inr ⟨key', hr, ⟨hpass, hfits⟩, rfl, hdomain, ?_⟩⟩⟩
          simp only [if_neg hneeds]
          exact hopened

/-! ## Other calls -/

/-- A session without its probe mark. -/
def core (s : Session) : Session := { s with probe := false }

/-- Nothing has changed but marks, queues and settings. -/
structure Quiet (b b' : Bindings) : Prop where
  inv : b'.Inv
  place : ∀ k, b'.place k = b.place k
  sessions : ∀ n, (b'.sessions.get n).map core = (b.sessions.get n).map core
  moves : b.Moves b'

/-- Nothing changed is nothing that matters. -/
theorem Quiet.refl (h : b.Inv) : b.Quiet b := ⟨h, fun _ => rfl, fun _ => rfl, .refl b⟩

/-- A change of settings. -/
theorem Inv.configure (h : b.Inv) (domain : Ipv6Addr) (filtering : UdpFiltering) (udp icmp : Nat) :
    b.Quiet { b with
      domain, udpFiltering := filtering, udpSeconds := udp, icmpSeconds := icmp } :=
  ⟨⟨⟨h.counts.placed, h.counts.counter, h.counts.owned, h.counts.hosts, h.counts.sessions,
      h.counts.quoteBytes⟩, h.bound,
    ⟨h.capacity.bindings, h.capacity.sessions, h.capacity.hostBindings, h.capacity.hostSessions,
      h.capacity.charge, h.capacity.timeouts⟩, ⟨h.next.none_iff, h.next.le⟩⟩,
    fun _ => rfl, fun _ => rfl, .of_eq rfl rfl⟩

/-- A new lifetime of UDP sessions changes nothing in the table. -/
theorem setUdpTimeout_spec (h : b.Inv) (seconds : UInt32) :
    b.Quiet (b.setUdpTimeout seconds).2 ∧
      (b.setUdpTimeout seconds).2.udpFiltering = b.udpFiltering := by
  unfold setUdpTimeout
  split
  · exact ⟨.refl h, rfl⟩
  · exact ⟨h.configure b.domain b.udpFiltering seconds.toNat b.icmpSeconds, rfl⟩

/-- A new lifetime of ICMP sessions changes nothing in the table. -/
theorem setIcmpTimeout_spec (h : b.Inv) (seconds : UInt32) :
    b.Quiet (b.setIcmpTimeout seconds).2 ∧
      (b.setIcmpTimeout seconds).2.udpFiltering = b.udpFiltering := by
  unfold setIcmpTimeout
  split
  · exact ⟨.refl h, rfl⟩
  · exact ⟨h.configure b.domain b.udpFiltering b.udpSeconds seconds.toNat, rfl⟩

/-- Taking the timeouts that are due changes nothing in the table. The queue is not part of what the
other invariants speak of, and it only gets shorter. -/
theorem takeTcpTimeouts_spec (h : b.Inv) (limit : Nat) : b.Quiet (b.takeTcpTimeouts limit).2 := by
  have hlen : (b.tcpTimeouts.drop (min (min limit 32) b.tcpTimeouts.length)).length ≤
      b.tcpTimeouts.length := by
    rw [List.length_drop]
    omega
  refine ⟨⟨⟨h.counts.placed, h.counts.counter, h.counts.owned, h.counts.hosts, h.counts.sessions,
    h.counts.quoteBytes⟩, h.bound, ⟨h.capacity.bindings, h.capacity.sessions,
      h.capacity.hostBindings, h.capacity.hostSessions, ?_, hlen.trans h.capacity.timeouts⟩,
    ⟨h.next.none_iff, h.next.le⟩⟩, fun _ => rfl, fun _ => rfl, .of_eq rfl rfl⟩
  have hcharge := h.capacity.charge
  unfold chargedBytes at hcharge ⊢
  simp only [takeTcpTimeouts]
  omega

/-- Taking probes succeeds, since every session has a port. By induction on the sessions, as far as
the limit allows. -/
theorem takeProbes_some {bindings : OrdMap Key Binding} (limit : Nat)
    {l : List (SessionKey × Session)} (h : ∀ e ∈ l, ∃ x, bindings.get e.1.1 = some x) :
    ∃ r, takeProbes bindings limit l = some r := by
  induction l generalizing limit with
  | nil => exact ⟨_, rfl⟩
  | cons e l ih =>
    have hl := fun e he => h e (List.mem_cons_of_mem _ he)
    cases limit with
    | zero => exact ⟨_, rfl⟩
    | succ n =>
      unfold takeProbes
      split
      · obtain ⟨x, hx⟩ := h e List.mem_cons_self
        obtain ⟨r, hr⟩ := ih n hl
        simp only [hx, hr, Option.bind_eq_bind, Option.bind_some]
        exact ⟨_, rfl⟩
      · exact ih (n + 1) hl

/-- Taking probes changes nothing but that they are taken. The sessions are mapped, with all that
the invariant reads of them as it was (`Reduced.mapSessions`). -/
theorem takeTcpProbes_spec (h : b.Inv) (limit : Nat) :
    ∃ r b', b.takeTcpProbes limit = some (r, b') ∧ b.Quiet b' ∧
    b'.udpFiltering = b.udpFiltering := by
  obtain ⟨⟨out, taken⟩, hr⟩ := takeProbes_some (min limit 32) (l := b.sessions.entries)
    fun e he => by
      obtain ⟨q, hq⟩ := h.counts.owned e.1 e.2 (OrdMap.mem_iff_get.1 he)
      exact (place_eq_some.1 hq).imp fun _ hx => hx.1
  simp only [takeTcpProbes, hr, Option.bind_eq_bind, Option.bind_some]
  have hget : ∀ n, (b.sessions.mapValues fun k s =>
      if k ∈ taken then { s with probe := false } else s).get n = (b.sessions.get n).map fun s =>
        if n ∈ taken then { s with probe := false } else s :=
    OrdMap.get_mapValues_eq _ _
  have hred := Reduced.mapSessions h.counts
    (f := fun k s => if k ∈ taken then { s with probe := false } else s)
    (fun n s hs => by
      have hok := h.counts.sessions n s hs
      split
      · exact ⟨hok.tcp, hok.quote⟩
      · exact hok) fun n s => by split <;> rfl
  refine ⟨_, _, rfl, ⟨h.reduced hred ⟨?_, fun t ht n s hn => ?_⟩, fun _ => rfl, fun n => ?_,
    .of_eq rfl rfl⟩, rfl⟩
  · refine h.next.none_iff.trans ?_
    simp [OrdMap.mapValues]
  · simp only [hget] at hn
    obtain ⟨s₀, hs₀, rfl⟩ := Option.map_eq_some_iff.1 hn
    have := h.next.le t ht n s₀ hs₀
    split <;> exact this
  · simp only [hget, Option.map_map]
    refine congrArg (fun f => (b.sessions.get n).map f) (funext fun s => ?_)
    simp only [Function.comp, core]
    split <;> rfl

end Bindings

end SnacMachine.Nat64
