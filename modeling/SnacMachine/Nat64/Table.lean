import SnacMachine.Nat64.Bindings

/-!
# The table's redundant indexes

What the indexes and counters of a binding table say about each other (`Bindings.Counts`), and that
each elementary change keeps it: a binding is made (`Counts.bind`), a session starts
(`Counts.start`) or is rewritten (`Counts.renew`, `Counts.mapSessions`).
-/

namespace SnacMachine.Nat64

/-- The weight of a session under a key. -/
def ofKey (k : Key) (n : SessionKey) (_ : Session) : Nat := if n.1 = k then 1 else 0

/-- The weight of a session of a host. -/
def ofHost (h : Ipv6Addr) (n : SessionKey) (_ : Session) : Nat := if n.1.host = h then 1 else 0

/-- The weight of a binding of a host. -/
def bindingOf (h : Ipv6Addr) (k : Key) (_ : Binding) : Nat := if k.host = h then 1 else 0

/-- The weight of a session's kept SYN. -/
def quoteOf (_ : SessionKey) (s : Session) : Nat := s.synQuote.length

/-- What a single session satisfies. -/
structure SessionOk (n : SessionKey) (s : Session) : Prop where
  tcp : s.tcp.isSome = true ↔ n.1.protocol = 6
  quote : s.synQuote ≠ [] → s.tcp = some .v4Init

namespace Bindings

/-- The external port of a key and the lease that holds it, in a map of bindings. -/
def placeIn (m : OrdMap Key Binding) (k : Key) : Option (UInt16 × Lease) :=
  (m.get k).map fun x => (x.port, x.lease)

/-- The external port of a key and the lease that holds it. -/
def place (b : Bindings) (k : Key) : Option (UInt16 × Lease) := placeIn b.bindings k

/-- A host's entry: its bindings and its sessions, if it has a binding. -/
def hostEntry (bindings sessions : Nat) : Option (Nat × Nat) :=
  if bindings = 0 then none else some (bindings, sessions)

/-- The reverse index inverts the bindings, and the registry knows their leases. -/
structure Placed (reverse : OrdMap PortKey Key) (place : Key → Option (UInt16 × Lease))
    (ports : Ports) : Prop where
  ok : ports.Ok
  reverse : ∀ x k, reverse.get x = some k ↔ ∃ q, place k = some q ∧ x = (k.protocol, q.1)
  leases : ∀ k q, place k = some q →
    q.2.key = (k.protocol, q.1) ∧ ports.entries.get q.2.key = some (q.2.id, .translation)

/-- The indexes and the counters agree. -/
structure Counts (b : Bindings) : Prop where
  placed : Placed b.reverse b.place b.ports
  counter : ∀ k x, b.bindings.get k = some x → x.sessions = b.sessions.total (ofKey k)
  owned : ∀ n s, b.sessions.get n = some s → ∃ q, b.place n.1 = some q
  hosts : ∀ h, b.hosts.get h =
    hostEntry (b.bindings.total (bindingOf h)) (b.sessions.total (ofHost h))
  sessions : ∀ n s, b.sessions.get n = some s → SessionOk n s
  quoteBytes : b.tcpQuoteBytes = b.sessions.total quoteOf

/-! ## Places -/

section Placed

variable {reverse : OrdMap PortKey Key} {place place' : Key → Option (UInt16 × Lease)}
  {ports ports' : Ports}

/-- No two keys share a port of a protocol. -/
theorem Placed.inj (h : Placed reverse place ports) {k k' : Key} {q q' : UInt16 × Lease}
    (hk : place k = some q) (hk' : place k' = some q')
    (he : (k.protocol, q.1) = (k'.protocol, q'.1)) : k = k' := by
  have h₁ := (h.reverse _ k).2 ⟨q, hk, rfl⟩
  have h₂ := (h.reverse _ k').2 ⟨q', hk', rfl⟩
  rw [he, h₂] at h₁
  exact (Option.some.inj h₁).symm

/-- A claimed port is placed at a key without one. The port was free, so no other key has it, and
looking it up finds the new key. -/
theorem Placed.bind (h : Placed reverse place ports) {k : Key} {port : UInt16} {l : Lease}
    (hk : place k = none) (hclaim : ports.claim k.protocol port .translation = .ok (l, ports'))
    (hplace : ∀ k', place' k' = if k' = k then some (port, l) else place k') :
    Placed (reverse.insert (k.protocol, port) k) place' ports' := by
  obtain ⟨hok, hkey, hnone, hentries⟩ := Ports.claim_ok hclaim h.ok
  have hfresh : ∀ k' q, place k' = some q → (k.protocol, port) ≠ (k'.protocol, q.1) := by
    intro k' q hq he
    obtain ⟨hl, hv⟩ := h.leases k' q hq
    rw [hl, ← he, ← hkey, hnone] at hv
    cases hv
  refine ⟨hok, fun x k' => ?_, fun k' q hq => ?_⟩
  · rw [OrdMap.get_insert_eq, hplace]
    by_cases hx : (k.protocol, port) = x
    · rw [if_pos hx]
      constructor
      · intro he
        obtain rfl := Option.some.inj he
        exact ⟨_, if_pos rfl, hx.symm⟩
      · rintro ⟨q, hq, hx'⟩
        split at hq
        · next hk' => rw [hk']
        · exact absurd (hx.trans hx') (hfresh k' q hq)
    · rw [if_neg hx, h.reverse]
      by_cases hk' : k' = k
      · subst hk'
        rw [hk, if_pos rfl]
        constructor
        · rintro ⟨q, hq, -⟩
          cases hq
        · rintro ⟨q, hq, hx'⟩
          obtain rfl := Option.some.inj hq
          exact absurd hx'.symm hx
      · rw [if_neg hk']
  · rw [hplace] at hq
    rw [hentries, OrdMap.get_insert_eq]
    split at hq
    · next hk' =>
      obtain rfl := Option.some.inj hq
      rw [hk', hkey]
      exact ⟨rfl, if_pos rfl⟩
    · obtain ⟨hl, hv⟩ := h.leases k' q hq
      refine ⟨hl, ?_⟩
      rw [if_neg (by rw [hkey, hl]; exact hfresh k' q hq)]
      exact hv

/-- A place is given up: its port is released and found at no key, and the other keys keep theirs,
since no two of them share a port. -/
theorem Placed.unbind (h : Placed reverse place ports) {k : Key} {q : UInt16 × Lease}
    (hk : place k = some q) (hplace : ∀ k', place' k' = if k' = k then none else place k') :
    ∃ ports', ports.release q.2 = some ports' ∧
      Placed (reverse.remove (k.protocol, q.1)) place' ports' ∧
      ports'.entries = ports.entries.remove (k.protocol, q.1) := by
  obtain ⟨hl, hv⟩ := h.leases k q hk
  obtain ⟨ports', hrel, hok, hentries⟩ := Ports.release_ok h.ok hv
  rw [hl] at hentries
  refine ⟨ports', hrel, ⟨hok, fun x k' => ?_, fun k' q' hq => ?_⟩, hentries⟩
  · rw [OrdMap.get_remove_eq, hplace]
    by_cases hk' : k' = k
    · subst hk'
      rw [if_pos rfl]
      constructor
      · intro hr
        split at hr
        · cases hr
        · next hx =>
          obtain ⟨q', hq', hx'⟩ := (h.reverse x k').1 hr
          rw [hk] at hq'
          obtain rfl := Option.some.inj hq'
          exact absurd hx' hx
      · rintro ⟨q', hq', -⟩
        cases hq'
    · rw [if_neg hk']
      constructor
      · intro hr
        split at hr
        · cases hr
        · exact (h.reverse x k').1 hr
      · rintro ⟨q', hq', hx⟩
        rw [if_neg fun he => hk' (h.inj hq' hk (hx.symm.trans he))]
        exact (h.reverse x k').2 ⟨q', hq', hx⟩
  · rw [hplace] at hq
    split at hq
    · cases hq
    · next hk' =>
      obtain ⟨hl', hv'⟩ := h.leases k' q' hq
      refine ⟨hl', ?_⟩
      rw [hentries, OrdMap.get_remove_eq,
        if_neg fun he => hk' (h.inj hq hk (hl'.symm.trans he))]
      exact hv'

end Placed

/-- A new binding is found under its key. -/
theorem placeIn_insert (m : OrdMap Key Binding) (k k' : Key) (x : Binding) :
    placeIn (m.insert k x) k' = if k' = k then some (x.port, x.lease) else placeIn m k' := by
  unfold placeIn
  rw [OrdMap.get_insert_eq]
  by_cases h : k = k'
  · rw [if_pos h, if_pos h.symm]
    rfl
  · rw [if_neg h, if_neg fun h' => h h'.symm]

/-- A removed binding is not found any more. -/
theorem placeIn_remove (m : OrdMap Key Binding) (k k' : Key) :
    placeIn (m.remove k) k' = if k' = k then none else placeIn m k' := by
  unfold placeIn
  rw [OrdMap.get_remove_eq]
  split <;> rfl

/-- A new count of sessions moves no binding. -/
theorem placeIn_recount {m : OrdMap Key Binding} {k : Key} {x : Binding} (h : m.get k = some x)
    (n : Nat) : placeIn (m.insert k { x with sessions := n }) = placeIn m := by
  funext k'
  rw [placeIn_insert]
  split
  · next hk =>
    unfold placeIn
    rw [hk, h]
    rfl
  · rfl

/-- Recounting the sessions of a binding does not change how many bindings a host has. -/
theorem total_recount {m : OrdMap Key Binding} {k : Key} {x : Binding} (h : m.get k = some x)
    (n : Nat) (a : Ipv6Addr) :
    (m.insert k { x with sessions := n }).total (bindingOf a) = m.total (bindingOf a) := by
  have := OrdMap.total_insert_of_some (f := bindingOf a) (v := { x with sessions := n }) h
  simp only [bindingOf] at this ⊢
  omega

variable {b : Bindings}

/-- A binding's host has an entry that counts it. -/
theorem Counts.host (h : b.Counts) {k : Key} {x : Binding} (hk : b.bindings.get k = some x) :
    b.hosts.get k.host = some
      (b.bindings.total (bindingOf k.host), b.sessions.total (ofHost k.host)) ∧
    0 < b.bindings.total (bindingOf k.host) := by
  have hpos : 0 < b.bindings.total (bindingOf k.host) :=
    OrdMap.total_pos.2 ⟨k, x, hk, by simp [bindingOf]⟩
  rw [h.hosts, hostEntry, if_neg (by omega)]
  exact ⟨rfl, hpos⟩

/-- A session counts for its own key. -/
theorem ofKey_pos {k : Key} {n : SessionKey} {s : Session} : 0 < ofKey k n s ↔ n.1 = k := by
  unfold ofKey
  split <;> simp_all

/-- A session counts for its own host. -/
theorem ofHost_pos {a : Ipv6Addr} {n : SessionKey} {s : Session} :
    0 < ofHost a n s ↔ n.1.host = a := by
  unfold ofHost
  split <;> simp_all

/-- A key without a binding has no sessions. -/
theorem Counts.sessions_of_key (h : b.Counts) {k : Key} (hk : b.bindings.get k = none) :
    b.sessions.total (ofKey k) = 0 := by
  by_contra hpos
  obtain ⟨n, s, hn, hw⟩ := OrdMap.total_pos.1 (Nat.pos_of_ne_zero hpos)
  obtain ⟨q, hq⟩ := h.owned n s hn
  obtain ⟨x, hx, -⟩ := Option.map_eq_some_iff.1 hq
  rw [ofKey_pos.1 hw, hk] at hx
  cases hx

/-- A host without bindings has no sessions. -/
theorem sessions_of_host {bindings : OrdMap Key Binding} {sessions : OrdMap SessionKey Session}
    (h : ∀ n s, sessions.get n = some s → ∃ q, placeIn bindings n.1 = some q) {a : Ipv6Addr}
    (ha : bindings.total (bindingOf a) = 0) : sessions.total (ofHost a) = 0 := by
  by_contra hpos
  obtain ⟨n, s, hn, hw⟩ := OrdMap.total_pos.1 (Nat.pos_of_ne_zero hpos)
  obtain ⟨q, hq⟩ := h n s hn
  obtain ⟨x, hx, -⟩ := Option.map_eq_some_iff.1 hq
  have hle := OrdMap.le_total (f := bindingOf a) hx
  rw [ha, bindingOf, if_pos (ofHost_pos.1 hw)] at hle
  omega

/-! ## Elementary changes -/

/-- The next moment of expiry is no part of the counts. -/
theorem Counts.setNext (h : b.Counts) (next : Option Nat) : ({ b with next } : Bindings).Counts :=
  ⟨h.placed, h.counter, h.owned, h.hosts, h.sessions, h.quoteBytes⟩

/-- Sessions are rewritten without a change of their kind or of their quotes. Every count is a sum
over the sessions that the rewriting does not change. -/
theorem Counts.mapSessions (h : b.Counts) {f : SessionKey → Session → Session}
    (hok : ∀ n s, b.sessions.get n = some s → SessionOk n (f n s))
    (hquote : ∀ n s, (f n s).synQuote = s.synQuote) :
    ({ b with sessions := b.sessions.mapValues f } : Bindings).Counts := by
  refine ⟨h.placed, fun k x hk => ?_, fun n s hn => ?_, fun a => ?_, fun n s hn => ?_, ?_⟩
  · rw [OrdMap.total_mapValues]
    exact h.counter k x hk
  · rw [OrdMap.get_mapValues_eq] at hn
    obtain ⟨s₀, hs₀, -⟩ := Option.map_eq_some_iff.1 hn
    exact h.owned n s₀ hs₀
  · rw [OrdMap.total_mapValues]
    exact h.hosts a
  · rw [OrdMap.get_mapValues_eq] at hn
    obtain ⟨s₀, hs₀, rfl⟩ := Option.map_eq_some_iff.1 hn
    exact hok n s₀ hs₀
  · rw [OrdMap.total_mapValues]
    refine h.quoteBytes.trans (OrdMap.total_congr fun n s _ => ?_)
    unfold quoteOf
    rw [hquote]

/-- One session is rewritten: every total that does not read sessions stays, and the octets of the
quotes are exchanged. -/
theorem Counts.renew (h : b.Counts) {n : SessionKey} {s s' : Session} {bytes : Nat}
    (hn : b.sessions.get n = some s) (hok : SessionOk n s')
    (hbytes : bytes + s.synQuote.length = b.tcpQuoteBytes + s'.synQuote.length) :
    ({ b with sessions := b.sessions.insert n s', tcpQuoteBytes := bytes } : Bindings).Counts := by
  have htotal : ∀ (w : SessionKey → Nat),
      (b.sessions.insert n s').total (fun k _ => w k) = b.sessions.total fun k _ => w k := by
    intro w
    have := OrdMap.total_insert_of_some (f := fun k _ => w k) (v := s') hn
    omega
  refine ⟨h.placed, fun k x hk => ?_, fun n' s₁ hn' => ?_, fun a => ?_, fun n' s₁ hn' => ?_, ?_⟩
  · exact (h.counter k x hk).trans (htotal fun n => if n.1 = k then 1 else 0).symm
  · rw [OrdMap.get_insert_eq] at hn'
    split at hn'
    · next he => exact he ▸ h.owned n s hn
    · exact h.owned n' s₁ hn'
  · refine (h.hosts a).trans ?_
    exact congrArg _ (htotal fun n => if n.1.host = a then 1 else 0).symm
  · rw [OrdMap.get_insert_eq] at hn'
    split at hn'
    · next he =>
      obtain rfl := Option.some.inj hn'
      exact he ▸ hok
    · exact h.sessions n' s₁ hn'
  · have := OrdMap.total_insert_of_some (f := quoteOf) (v := s') hn
    have hq := h.quoteBytes
    simp only [quoteOf] at this hq ⊢
    omega

/-- A session starts under a binding: it is counted once, at its key and at its host, and has no
quote to be counted. -/
theorem Counts.start (h : b.Counts) {k : Key} {r : SocketAddrV4} {x : Binding} {s : Session}
    (hk : b.bindings.get k = some x) (hnew : b.sessions.get (k, r) = none)
    (hok : SessionOk (k, r) s) (hquote : s.synQuote = []) :
    ∃ host, b.hosts.get k.host = some host ∧
      ({ b with
        sessions := b.sessions.insert (k, r) s
        bindings := b.bindings.insert k { x with sessions := x.sessions + 1 }
        hosts := b.hosts.insert k.host (host.1, host.2 + 1) } : Bindings).Counts := by
  obtain ⟨hhost, hpos⟩ := h.host hk
  refine ⟨_, hhost, ?_⟩
  have hplace := placeIn_recount hk (x.sessions + 1)
  have htotal : ∀ f : SessionKey → Session → Nat,
      (b.sessions.insert (k, r) s).total f = b.sessions.total f + f (k, r) s :=
    fun f => OrdMap.total_insert_of_none hnew
  refine ⟨?_, fun k' x' hk' => ?_, fun n s₁ hn => ?_, fun a => ?_, fun n s₁ hn => ?_, ?_⟩
  · unfold place
    rw [hplace]
    exact h.placed
  · simp only [OrdMap.get_insert_eq] at hk'
    rw [htotal]
    split at hk'
    · next he =>
      obtain rfl := Option.some.inj hk'
      subst he
      simp only [ofKey, if_true, h.counter k x hk]
    · next he =>
      rw [h.counter k' x' hk']
      simp only [ofKey, if_neg he, Nat.add_zero]
  · show ∃ q, placeIn (b.bindings.insert k _) n.1 = some q
    rw [hplace]
    simp only [OrdMap.get_insert_eq] at hn
    split at hn
    · next he =>
      rw [← he]
      exact ⟨_, by unfold placeIn; rw [hk]; rfl⟩
    · exact h.owned n s₁ hn
  · simp only [OrdMap.get_insert_eq, htotal, total_recount hk]
    split
    · next he =>
      subst he
      simp only [ofHost, if_true]
      rw [hostEntry, if_neg (by omega)]
    · next he =>
      simp only [ofHost, if_neg he, Nat.add_zero]
      exact h.hosts a
  · simp only [OrdMap.get_insert_eq] at hn
    split at hn
    · next he =>
      obtain rfl := Option.some.inj hn
      exact he ▸ hok
    · exact h.sessions n s₁ hn
  · rw [htotal]
    simp only [quoteOf, hquote, List.length_nil, Nat.add_zero]
    exact h.quoteBytes

/-- A binding without sessions is made at a claimed port. Its key has no sessions yet, so that its
own count is right, and its host has one binding more. -/
theorem Counts.bind (h : b.Counts) {k : Key} {port : UInt16} {l : Lease} {ports : Ports}
    (hk : b.bindings.get k = none)
    (hclaim : b.ports.claim k.protocol port .translation = .ok (l, ports)) :
    ({ b with
      ports
      bindings := b.bindings.insert k ⟨l, port, 0⟩
      reverse := b.reverse.insert (k.protocol, port) k
      hosts := countBinding b.hosts k } : Bindings).Counts := by
  have hnone : b.place k = none := by
    unfold place placeIn
    rw [hk]
    rfl
  refine ⟨h.placed.bind hnone hclaim fun k' => placeIn_insert _ _ _ _, fun k' x hk' => ?_,
    fun n s hn => ?_, fun a => ?_, h.sessions, h.quoteBytes⟩
  · simp only [OrdMap.get_insert_eq] at hk'
    split at hk'
    · next he =>
      obtain rfl := Option.some.inj hk'
      rw [← he, h.sessions_of_key hk]
    · exact h.counter k' x hk'
  · obtain ⟨q, hq⟩ := h.owned n s hn
    unfold place
    rw [placeIn_insert]
    split
    · exact ⟨_, rfl⟩
    · exact ⟨q, hq⟩
  · simp only [countBinding, OrdMap.get_insert_eq, OrdMap.total_insert_of_none hk]
    split
    · next he =>
      subst he
      rw [h.hosts k.host, show bindingOf k.host k ⟨l, port, 0⟩ = 1 from if_pos rfl]
      by_cases hb : b.bindings.total (bindingOf k.host) = 0
      · rw [hb, sessions_of_host h.owned hb]
        rfl
      · rw [hostEntry, if_neg hb, hostEntry, if_neg (Nat.succ_ne_zero _)]
        rfl
    · next he =>
      simp only [bindingOf, if_neg he, Nat.add_zero]
      exact h.hosts a

end Bindings

end SnacMachine.Nat64
