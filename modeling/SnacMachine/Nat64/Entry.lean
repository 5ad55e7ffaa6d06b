import SnacMachine.Nat64.Removal

/-!
# Entries into the table

The invariant of a table (`Bindings.Inv`), and what an admitted entry does to it: the key gets a
port if it has none (`assign_spec`), then the session starts or is renewed (`Entered`). A live
session is always admitted (`admits_of_session`), however full the table is.
-/

namespace SnacMachine.Nat64

namespace Bindings

variable {b : Bindings}

/-- The invariant of a table between calls. -/
structure Inv (b : Bindings) : Prop where
  counts : b.Counts
  bound : b.Bound
  capacity : b.Capacity
  next : b.NextOk

/-- Removing sessions and bindings keeps the invariant, if the next moment of expiry is set
accordingly. -/
theorem Inv.reduced {b' : Bindings} (h : b.Inv) (hred : b.Reduced b')
    (hnext : b'.NextOk) : b'.Inv :=
  ⟨hred.counts, hred.bound h.bound, hred.capacity h.capacity, hnext⟩

/-- There is room for a session. -/
structure Room (b : Bindings) (key : Key) (remote : SocketAddrV4) : Prop where
  capacity : b.Capacity
  fresh : b.sessions.get (key, remote) = none →
    b.sessions.size + 1 ≤ 8192 ∧ b.sessions.total (ofHost key.host) + 1 ≤ 256 ∧
      b.chargedBytes + 256 ≤ maxCharge

/-- A key has a port if it has a binding. -/
theorem place_eq_some {k : Key} {q : UInt16 × Lease} :
    b.place k = some q ↔ ∃ x, b.bindings.get k = some x ∧ (x.port, x.lease) = q :=
  Option.map_eq_some_iff

/-- A key has no port if it has no binding. -/
theorem place_eq_none {k : Key} : b.place k = none ↔ b.bindings.get k = none :=
  Option.map_eq_none_iff

/-- A host's counters, as `admits` reads them. -/
theorem Counts.hostCounts (h : b.Counts) (a : Ipv6Addr) :
    (b.hosts.get a).getD (0, 0) =
      (b.bindings.total (bindingOf a), b.sessions.total (ofHost a)) := by
  rw [h.hosts a, hostEntry]
  split
  · next hz => rw [hz, sessions_of_host h.owned hz]; rfl
  · rfl

/-- When a packet is admitted: its session, its binding and its host are charged for unless they are
there, and the limits leave room for them. -/
theorem admits_eq_ok {key : Key} {remote : SocketAddrV4} (h : b.Counts) :
    b.admits key remote = .ok () ↔
      b.chargedBytes + ((if b.bindings.contains key then 0 else 288) +
        (if b.hosts.contains key.host then 0 else 128) +
        (if b.sessions.contains (key, remote) then 0 else 256)) ≤ maxCharge ∧
      (b.bindings.contains key = false →
        b.bindings.size < 4096 ∧ b.bindings.total (bindingOf key.host) < 128) ∧
      (b.sessions.contains (key, remote) = false →
        b.sessions.size < 8192 ∧ b.sessions.total (ofHost key.host) < 256) := by
  unfold admits
  simp only [h.hostCounts]
  cases b.bindings.contains key <;> cases b.hosts.contains key.host <;>
    cases b.sessions.contains (key, remote) <;> simp

/-- A live session is admitted, whatever the table holds. -/
theorem admits_of_session (h : b.Inv) {key : Key} {remote : SocketAddrV4} {s : Session}
    (hs : b.sessions.get (key, remote) = some s) : b.admits key remote = .ok () := by
  obtain ⟨q, hq⟩ := h.counts.owned _ s hs
  obtain ⟨x, hx, -⟩ := place_eq_some.1 hq
  rw [admits_eq_ok h.counts, OrdMap.contains_iff.2 ⟨s, hs⟩, OrdMap.contains_iff.2 ⟨x, hx⟩,
    OrdMap.contains_iff.2 ⟨_, (h.counts.host hx).1⟩]
  simpa using h.capacity.charge

/-- An admitted entry under a binding has room. -/
theorem room_of_admits (h : b.Inv) {key : Key} {remote : SocketAddrV4} {x : Binding}
    (hx : b.bindings.get key = some x) (ha : b.admits key remote = .ok ()) : b.Room key remote := by
  obtain ⟨hcharge, -, hsession⟩ := (admits_eq_ok h.counts).1 ha
  refine ⟨h.capacity, fun hnone => ?_⟩
  rw [OrdMap.contains_iff.2 ⟨x, hx⟩, OrdMap.contains_iff.2 ⟨_, (h.counts.host hx).1⟩,
    OrdMap.contains_eq_false_iff.2 hnone] at hcharge
  obtain ⟨h₁, h₂⟩ := hsession (OrdMap.contains_eq_false_iff.2 hnone)
  simp only [if_true, Bool.false_eq_true, if_false] at hcharge
  exact ⟨h₁, h₂, by omega⟩

/-- A live session has room. -/
theorem room_of_session (h : b.Inv) {key : Key} {remote : SocketAddrV4} {s : Session}
    (hs : b.sessions.get (key, remote) = some s) : b.Room key remote :=
  ⟨h.capacity, fun hnone => by rw [hs] at hnone; cases hnone⟩

/-! ## Ports -/

/-- The result of giving a key its port: every other key keeps its own. -/
structure Assigned (b : Bindings) (key : Key) (port : UInt16) (b' : Bindings) : Prop where
  counts : b'.Counts
  place : ∃ l, b'.place key = some (port, l)
  kept : ∀ k q, b.place k = some q → b'.place k = some q
  placed : ∀ k q, b'.place k = some q → b.place k = some q ∨ (k = key ∧ b.place key = none)
  sessions : b'.sessions = b.sessions
  next : b'.next = b.next
  settings : b'.settings = b.settings
  moves : b.Moves b'

/-- An assigned key has a port and room for its session. A key that has its place keeps its port; a
new one claims a free port, for which the check before has left room in the counts. -/
theorem assign_spec (h : b.Inv) {key : Key} {remote : SocketAddrV4} {rng : Random}
    {occupied : UInt16 → Bool} {port : UInt16} {b' : Bindings}
    (ha : b.admits key remote = .ok ()) (hassign : b.assign key rng occupied = .ok (port, b')) :
    b.Assigned key port b' ∧ b'.Room key remote := by
  unfold assign at hassign
  split at hassign
  · next x hx =>
    obtain ⟨rfl, rfl⟩ := Prod.mk.inj (Except.ok.inj hassign)
    refine ⟨⟨h.counts, ⟨x.lease, place_eq_some.2 ⟨x, hx, rfl⟩⟩, fun _ _ h => h, fun _ _ h => .inl h,
      rfl, rfl, rfl, .refl b⟩, room_of_admits h hx ha⟩
  · next hnone =>
    simp only [bind, Except.bind, pure, Except.pure] at hassign
    split at hassign
    · cases hassign
    next port' hport =>
    split at hassign
    · cases hassign
    next claimed hclaim =>
    obtain ⟨l, ports⟩ := claimed
    simp only [Except.ok.injEq, Prod.mk.injEq] at hassign
    obtain ⟨rfl, rfl⟩ := hassign
    obtain ⟨-, hkey, hfree, hentries⟩ := Ports.claim_ok hclaim h.counts.placed.ok
    obtain ⟨hcharge, hbinding, hsession⟩ := (admits_eq_ok h.counts).1 ha
    rw [OrdMap.contains_eq_false_iff.2 hnone] at hcharge
    have hbinding := hbinding (OrdMap.contains_eq_false_iff.2 hnone)
    have hplace : ∀ k, placeIn (b.bindings.insert key ⟨l, port', 0⟩) k =
        if k = key then some (port', l) else b.place k := fun k => placeIn_insert _ _ _ _
    have hplacenone : b.place key = none := place_eq_none.2 hnone
    have hrnone : b.reverse.get (key.protocol, port') = none := by
      cases hr : b.reverse.get (key.protocol, port') with
      | none => rfl
      | some k =>
        obtain ⟨q, hq, hx⟩ := (h.counts.placed.reverse _ k).1 hr
        obtain ⟨hl, hv⟩ := h.counts.placed.leases k q hq
        rw [hl, ← hx, ← hkey, hfree] at hv
        cases hv
    refine ⟨⟨h.counts.bind hnone hclaim, ⟨l, (hplace key).trans (if_pos rfl)⟩, fun k q hk => ?_,
      fun k q hk => ?_, rfl, rfl, rfl, fun x v hx hr => ?_⟩, ?_⟩
    · refine (hplace k).trans ?_
      rw [if_neg]
      · exact hk
      · intro he
        rw [he, hplacenone] at hk
        cases hk
    · have hk := (hplace k).symm.trans hk
      split at hk
      · next he => exact .inr ⟨he, hplacenone⟩
      · exact .inl hk
    · have hne : (key.protocol, port') ≠ x := by
        intro he
        rw [← he, ← hkey, hfree] at hx
        cases hx
      refine ⟨?_, ?_⟩
      · show ports.entries.get x = some v
        rw [hentries, OrdMap.get_insert_eq, hkey, if_neg hne]
        exact hx
      · show (b.reverse.insert _ key).get x = none
        rw [OrdMap.get_insert_eq, if_neg hne]
        exact hr
    · have hc := h.capacity
      have h₁ := OrdMap.size_insert_of_get_none (⟨l, port', 0⟩ : Binding) hnone
      have h₂ := OrdMap.size_insert_of_get_none key hrnone
      have h₃ : (countBinding b.hosts key).size =
          b.hosts.size + if b.hosts.contains key.host then 0 else 1 := by
        unfold countBinding
        simp only
        split
        · next hh => exact OrdMap.size_insert_of_contains _ hh
        · next hh =>
          exact OrdMap.size_insert_of_get_none _
            (OrdMap.contains_eq_false_iff.1 (by simpa using hh))
      have hcharge' : chargedBytes { b with
          ports
          bindings := b.bindings.insert key ⟨l, port', 0⟩
          reverse := b.reverse.insert (key.protocol, port') key
          hosts := countBinding b.hosts key } + (if b.sessions.contains (key, remote) then 0
          else 256) ≤
          maxCharge := by
        unfold chargedBytes at hcharge ⊢
        simp only [h₁, h₂, h₃]
        simp only [Bool.false_eq_true, if_false] at hcharge
        have hhost : (if b.hosts.contains key.host then 0 else 128) =
            (if b.hosts.contains key.host then 0 else 1) * 128 := by
          split <;> rfl
        omega
      refine ⟨⟨?_, hc.sessions, fun a => ?_, hc.hostSessions, (Nat.le_add_right _ _).trans hcharge',
        hc.timeouts⟩, fun hs => ?_⟩
      · show (b.bindings.insert key _).size ≤ 4096
        omega
      · show (b.bindings.insert key _).total (bindingOf a) ≤ 128
        rw [OrdMap.total_insert_of_none hnone, bindingOf]
        split
        · next he =>
          rw [← he]
          omega
        · exact hc.hostBindings a
      · have hs := OrdMap.contains_eq_false_iff.2 hs
        obtain ⟨h₄, h₅⟩ := hsession hs
        refine ⟨h₄, h₅, ?_⟩
        have hs' : b.sessions.contains (key, remote) = false := hs
        rw [hs'] at hcharge'
        exact hcharge'

/-! ## Sessions -/

/-- A table that is about to enter a session: only the session's own binding may have none yet. -/
structure Ready (b : Bindings) (key : Key) (remote : SocketAddrV4) : Prop where
  counts : b.Counts
  room : b.Room key remote
  placed : ∃ q, b.place key = some q
  bound : ∀ k q, b.place k = some q → k ≠ key → 0 < b.sessions.total (ofKey k)
  next : b.NextOk

/-- A key with a port is ready for a session if there is room. -/
theorem Inv.ready (h : b.Inv) {key : Key} {remote : SocketAddrV4} {q : UInt16 × Lease}
    (hq : b.place key = some q) (hroom : b.Room key remote) : b.Ready key remote :=
  ⟨h.counts, hroom, ⟨q, hq⟩, fun k q hk _ => h.bound k q hk, h.next⟩

/-- A key that was assigned a port is ready for a session if there is room. The port is its place,
and the sessions are as before. -/
theorem Assigned.ready (h : b.Inv) {key : Key} {remote : SocketAddrV4} {port : UInt16}
    {b' : Bindings} (ha : b.Assigned key port b') (hroom : b'.Room key remote) :
    b'.Ready key remote := by
  obtain ⟨l, hl⟩ := ha.place
  refine ⟨ha.counts, hroom, ⟨_, hl⟩, fun k q hk hne => ?_, ?_⟩
  · rw [ha.sessions]
    rcases ha.placed k q hk with hk | ⟨he, -⟩
    · exact h.bound k q hk
    · exact absurd he hne
  · refine ⟨?_, ?_⟩
    · rw [ha.next, ha.sessions]
      exact h.next.none_iff
    · rw [ha.next, ha.sessions]
      exact h.next.le

/-- A session has been entered, and nothing else has changed. -/
structure Entered (b : Bindings) (key : Key) (remote : SocketAddrV4) (s : Session) (b' : Bindings) :
    Prop where
  inv : b'.Inv
  place : ∀ k, b'.place k = b.place k
  sessions : ∀ n, b'.sessions.get n = if n = (key, remote) then some s else b.sessions.get n
  settings : b'.settings = b.settings
  ports : b'.ports = b.ports
  reverse : b'.reverse = b.reverse
  charge : b'.chargedBytes ≤
    b.chargedBytes + if b.sessions.contains (key, remote) then 0 else 256

/-- The next moment of expiry is brought forward by a session that expires earlier, so that it is
still no later than any session's. -/
theorem nextOk_soonest {b' : Bindings} (h : b.NextOk) {n : SessionKey} {s : Session}
    (hs : b'.sessions = b.sessions.insert n s) (hnext : b'.next = soonest b.next s.expires) :
    b'.NextOk := by
  have hget : b'.sessions.get n = some s := by
    rw [hs]
    exact OrdMap.get_insert_self _ _ _
  refine ⟨⟨fun h => ?_, fun h => ?_⟩, fun t ht n' s' hn' => ?_⟩
  · rw [hnext] at h
    cases h
  · exact absurd h (OrdMap.entries_ne_nil hget)
  · rw [hnext, soonest, Option.some.injEq] at ht
    rw [hs, OrdMap.get_insert_eq] at hn'
    cases hold : b.next with
    | none =>
      rw [hold, Option.elim_none] at ht
      split at hn'
      · obtain rfl := Option.some.inj hn'
        exact ht.ge
      · exact absurd (h.none_iff.1 hold) (OrdMap.entries_ne_nil hn')
    | some old =>
      rw [hold, Option.elim_some] at ht
      split at hn'
      · obtain rfl := Option.some.inj hn'
        omega
      · have := h.le old hold n' s' hn'
        omega

section Enter

variable {key : Key} {remote : SocketAddrV4} {s s' : Session}

/-- A session starts. It is added without a quote, so that the charge grows by one session, for
which there is room, and the counts of its binding and its host grow by one. -/
theorem Ready.start (h : b.Ready key remote) (hnew : b.sessions.get (key, remote) = none)
    (hok : SessionOk (key, remote) s') (hquote : s'.synQuote = []) :
    ∃ b', addSession { b with sessions := b.sessions.insert (key, remote) s' } key = some b' ∧
      b'.next = b.next ∧
      b.Entered key remote s' { b' with next := soonest b.next s'.expires } := by
  obtain ⟨q, hq⟩ := h.placed
  obtain ⟨x, hx, -⟩ := place_eq_some.1 hq
  obtain ⟨host, hhost, hcounts⟩ := h.counts.start hx hnew hok hquote
  obtain ⟨hsize, hsession, hcharge⟩ := h.room.fresh hnew
  have hc := h.room.capacity
  have hplace : placeIn (b.bindings.insert key { x with sessions := x.sessions + 1 }) = b.place :=
    placeIn_recount hx _
  have htotal : ∀ f : SessionKey → Session → Nat,
      (b.sessions.insert (key, remote) s').total f = b.sessions.total f + f (key, remote) s' :=
    fun f => OrdMap.total_insert_of_none hnew
  have h₁ := OrdMap.size_insert_of_contains ({ x with sessions := x.sessions + 1 } : Binding)
    (OrdMap.contains_iff.2 ⟨x, hx⟩)
  have h₂ := OrdMap.size_insert_of_contains (host.1, host.2 + 1)
    (OrdMap.contains_iff.2 ⟨host, hhost⟩)
  have h₃ := OrdMap.size_insert_of_get_none s' hnew
  refine ⟨{ b with
    sessions := b.sessions.insert (key, remote) s'
    bindings := b.bindings.insert key { x with sessions := x.sessions + 1 }
    hosts := b.hosts.insert key.host (host.1, host.2 + 1) }, ?_, rfl, ⟨⟨hcounts.setNext _,
    fun k q hk => ?_, ?_, nextOk_soonest h.next rfl rfl⟩, congrFun hplace, fun n => ?_,
    rfl, rfl, rfl,
    ?_⟩⟩
  · simp only [addSession, hx, hhost, Option.bind_eq_bind, Option.bind_some]
    rfl
  · show 0 < (b.sessions.insert (key, remote) s').total (ofKey k)
    rw [htotal]
    by_cases he : k = key
    · rw [he, ofKey, if_pos rfl]
      omega
    · have := h.bound k q ((congrFun hplace k).symm.trans hk) he
      omega
  · refine ⟨h₁.trans_le hc.bindings, h₃.trans_le hsize, fun a => ?_, fun a => ?_, ?_, hc.timeouts⟩
    · exact (total_recount hx _ a).trans_le (hc.hostBindings a)
    · show (b.sessions.insert (key, remote) s').total (ofHost a) ≤ 256
      rw [htotal, ofHost]
      split
      · next he =>
        rw [← he]
        exact hsession
      · exact hc.hostSessions a
    · unfold chargedBytes at hcharge ⊢
      simp only [h₁, h₂, h₃]
      omega
  · simp only [OrdMap.get_insert_eq, eq_comm]
  · rw [OrdMap.contains_eq_false_iff.2 hnew]
    unfold chargedBytes
    simp only [h₁, h₂, h₃, Bool.false_eq_true, if_false]
    omega

/-- A session is renewed: its expiry and its TCP state may change, and its quote only shrinks. So no
count grows, and the charge stays within the limit. -/
theorem Ready.renew (h : b.Ready key remote) (hold : b.sessions.get (key, remote) = some s)
    (hok : SessionOk (key, remote) s') {bytes : Nat}
    (hbytes : bytes + s.synQuote.length = b.tcpQuoteBytes + s'.synQuote.length)
    (hle : s'.synQuote.length ≤ s.synQuote.length) :
    b.Entered key remote s' { b with
      sessions := b.sessions.insert (key, remote) s'
      tcpQuoteBytes := bytes
      next := soonest b.next s'.expires } := by
  have hcounts := h.counts.renew hold hok hbytes
  have hc := h.room.capacity
  have htotal :
      ∀ w : SessionKey → Nat, (b.sessions.insert (key, remote) s').total (fun n _ => w n) =
      b.sessions.total fun n _ => w n := by
    intro w
    have := OrdMap.total_insert_of_some (f := fun n _ => w n) (v := s') hold
    omega
  have hsize := OrdMap.size_insert_of_contains s' (OrdMap.contains_iff.2 ⟨s, hold⟩)
  refine ⟨⟨hcounts.setNext _, fun k q hk => ?_, ?_, nextOk_soonest h.next rfl rfl⟩, fun _ => rfl,
    fun n => ?_, rfl, rfl, rfl, ?_⟩
  · refine Nat.lt_of_lt_of_eq ?_ (htotal fun n => if n.1 = k then 1 else 0).symm
    by_cases he : k = key
    · exact OrdMap.total_pos.2 ⟨(key, remote), s, hold, by simp [he]⟩
    · exact h.bound k q hk he
  · refine ⟨hc.bindings, hsize.trans_le hc.sessions, hc.hostBindings, fun a => ?_, ?_, hc.timeouts⟩
    · exact (htotal fun n => if n.1.host = a then 1 else 0).trans_le (hc.hostSessions a)
    · have := hc.charge
      unfold chargedBytes at this ⊢
      simp only [hsize]
      omega
  · simp only [OrdMap.get_insert_eq, eq_comm]
  · unfold chargedBytes
    simp only [hsize]
    omega

/-- A session without TCP state is entered: it starts, or is renewed with the new expiry. It has no
quote, since only TCP sessions do. -/
theorem plainSession_spec (h : b.Ready key remote) (hproto : key.protocol ≠ 6) (expires : Nat) :
    ∃ b', b.plainSession key remote expires = some b' ∧
      b.Entered key remote ⟨expires, none, false, []⟩ b' := by
  have hok : SessionOk (key, remote) ⟨expires, none, false, []⟩ :=
    ⟨by simpa using hproto, fun hq => absurd rfl hq⟩
  unfold plainSession
  cases hold : b.sessions.get (key, remote) with
  | none =>
    obtain ⟨b', hadd, hnext, hentered⟩ := h.start hold hok rfl
    refine ⟨_, ?_, hentered⟩
    simp only [OrdMap.contains_eq_false_iff.2 hold, Bool.not_false, if_true, hadd, hnext,
      Option.bind_eq_bind, Option.bind_some]
    rfl
  | some s =>
    have hquote : s.synQuote = [] := by
      by_contra hne
      have hv4 := (h.counts.sessions _ s hold).quote hne
      exact hproto ((h.counts.sessions _ s hold).tcp.1 (by rw [hv4]; rfl))
    have hbytes : b.tcpQuoteBytes + s.synQuote.length = b.tcpQuoteBytes + ([] : Bytes).length := by
      rw [hquote]
    refine ⟨_, ?_, h.renew hold hok hbytes (Nat.zero_le _)⟩
    simp only [OrdMap.contains_iff.2 ⟨s, hold⟩, Bool.not_true, Bool.false_eq_true, if_false,
      Option.bind_eq_bind, Option.bind_some]
    rfl

/-- The session after a TCP segment. -/
def tcpNext (old : Option Session) (v6 : Bool) (flags : UInt8) (now : Nat) : Session :=
  match old with
  | some s =>
    let (state, expires) := (s.tcp.getD .v4Init).packet v6 flags s.expires now
    ⟨expires, some state, false, if state ≠ .v4Init then [] else s.synQuote⟩
  | none => ⟨satAdd now Tcp.transitory, some (if v6 then .v6Init else .v4Init), false, []⟩

/-- A session with TCP state is entered. Without an old session it starts (`Ready.start`), without a
quote; otherwise it is renewed (`Ready.renew`), and keeps its quote unless its state is past the
need for it. -/
theorem tcpSession_spec (h : b.Ready key remote) (hproto : key.protocol = 6) (v6 : Bool)
    (flags : UInt8) (now : Nat) :
    ∃ b', b.tcpSession key remote v6 flags now = some b' ∧
      b.Entered key remote (tcpNext (b.sessions.get (key, remote)) v6 flags now) b' := by
  unfold tcpSession
  cases hold : b.sessions.get (key, remote) with
  | none =>
    have hok : SessionOk (key, remote) (tcpNext none v6 flags now) :=
      ⟨by simp [tcpNext, hproto], fun hq => absurd rfl hq⟩
    obtain ⟨b', hadd, hnext, hentered⟩ := h.start hold hok rfl
    refine ⟨_, ?_, hentered⟩
    simp only [tcpNext] at hadd
    simp only [hadd, hnext, Option.bind_eq_bind, Option.bind_some]
    rfl
  | some s =>
    have hs := h.counts.sessions _ s hold
    obtain ⟨state, hstate⟩ := Option.isSome_iff_exists.1 (hs.tcp.2 hproto)
    have hle : s.synQuote.length ≤ b.tcpQuoteBytes := by
      rw [h.counts.quoteBytes]
      exact OrdMap.le_total (f := quoteOf) hold
    have hnew : tcpNext (some s) v6 flags now = ⟨(state.packet v6 flags s.expires now).2,
        some (state.packet v6 flags s.expires now).1, false,
        if (state.packet v6 flags s.expires now).1 ≠ .v4Init then [] else s.synQuote⟩ := by
      simp only [tcpNext, hstate, Option.getD_some]
    rw [hnew]
    simp only [hstate, Option.bind_eq_bind, Option.bind_some]
    generalize state.packet v6 flags s.expires now = next
    obtain ⟨state', expires⟩ := next
    simp only
    rw [if_neg fun hlt => Nat.not_lt.2 hle hlt.2]
    refine ⟨_, rfl, h.renew hold ⟨by simp [hproto], fun hq => ?_⟩ ?_ ?_⟩
    · by_contra hne
      refine hq (if_pos fun he => hne ?_)
      rw [he]
    · simp only
      split
      · simp only [List.length_nil]
        omega
      · rfl
    · simp only
      split
      · exact Nat.zero_le _
      · exact Nat.le_refl _

end Enter

end Bindings

end SnacMachine.Nat64
