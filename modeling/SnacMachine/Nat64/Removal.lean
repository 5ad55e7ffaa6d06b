import SnacMachine.Nat64.Table

/-!
# Removals from the table

What every removal has in common (`Bindings.Reduced`): the indexes agree, the limits hold, the
shared registry changes only where the table held a port, and a binding stays exactly while it has a
session. Sessions end one by one when they run out (`expire_spec`), and all at once under domains
that are given up (`retainDomains_spec`) and when the table is cleared (`clear_spec`).
-/

namespace SnacMachine.Nat64

namespace Bindings

variable {b : Bindings}

/-- Entries of the registry that a table does not hold stay, and stay out of its hands. -/
def Moves (b b' : Bindings) : Prop :=
  ∀ x v, b.ports.entries.get x = some v → b.reverse.get x = none →
    b'.ports.entries.get x = some v ∧ b'.reverse.get x = none

/-- A table that does nothing moves no entry. -/
theorem Moves.refl (b : Bindings) : b.Moves b := fun _ _ h h' => ⟨h, h'⟩

/-- Entries that are left alone in two steps are so in both. -/
theorem Moves.trans {a b c : Bindings} (h : a.Moves b) (h' : b.Moves c) : a.Moves c := by
  intro x v hx hr
  obtain ⟨hx, hr⟩ := h x v hx hr
  exact h' x v hx hr

/-- A table that holds the same ports in the same registry has moved nothing. -/
theorem Moves.of_eq {b b' : Bindings} (hp : b'.ports = b.ports) (hr : b'.reverse = b.reverse) :
    b.Moves b' := by
  intro x v hx h
  rw [hp, hr]
  exact ⟨hx, h⟩

/-- Every binding has a session. -/
def Bound (b : Bindings) : Prop := ∀ k q, b.place k = some q → 0 < b.sessions.total (ofKey k)

/-- The limits of a table. -/
structure Capacity (b : Bindings) : Prop where
  bindings : b.bindings.size ≤ 4096
  sessions : b.sessions.size ≤ 8192
  hostBindings : ∀ a, b.bindings.total (bindingOf a) ≤ 128
  hostSessions : ∀ a, b.sessions.total (ofHost a) ≤ 256
  charge : b.chargedBytes ≤ maxCharge
  timeouts : b.tcpTimeouts.length ≤ 32

/-- What a table is configured with. -/
def settings (b : Bindings) : Ipv6Addr × UdpFiltering × Nat × Nat :=
  (b.domain, b.udpFiltering, b.udpSeconds, b.icmpSeconds)

/-- Sessions have ended, and bindings with their last sessions. -/
structure Reduced (b b' : Bindings) : Prop where
  counts : b'.Counts
  bound : b.Bound → b'.Bound
  capacity : b.Capacity → b'.Capacity
  settings : b'.settings = b.settings
  moves : b.Moves b'
  placed : ∀ k q, b'.place k = some q → b.place k = some q
  kept : ∀ k q, b.place k = some q → 0 < b'.sessions.total (ofKey k) → b'.place k = some q
  sessions : ∀ k, b'.sessions.total (ofKey k) ≤ b.sessions.total (ofKey k)

/-- A table that does nothing ends no session. -/
theorem Reduced.refl (h : b.Counts) : b.Reduced b :=
  ⟨h, id, id, rfl, .refl b, fun _ _ h => h, fun _ _ h _ => h, fun _ => Nat.le_refl _⟩

/-- Sessions may end in two steps. -/
theorem Reduced.trans {a b c : Bindings} (h : a.Reduced b) (h' : b.Reduced c) : a.Reduced c :=
  ⟨h'.counts, fun ha => h'.bound (h.bound ha), fun ha => h'.capacity (h.capacity ha),
    h'.settings.trans h.settings, h.moves.trans h'.moves, fun k q hq =>
    h.placed k q (h'.placed k q hq),
    fun k q hq hk => h'.kept k q (h.kept k q hq (hk.trans_le (h'.sessions k))) hk,
    fun k => (h'.sessions k).trans (h.sessions k)⟩

section Drop

variable {n : SessionKey} {s : Session} {x : Binding}

/-- What is true of the sessions after one of them has ended. The others are as they were, and the
quotes lose the octets of the one. -/
theorem Counts.remaining (h : b.Counts) (hn : b.sessions.get n = some s) :
    (∀ n' s', (b.sessions.remove n).get n' = some s' → b.sessions.get n' = some s') ∧
      b.tcpQuoteBytes - s.synQuote.length = (b.sessions.remove n).total quoteOf ∧
      s.synQuote.length ≤ b.tcpQuoteBytes := by
  refine ⟨fun n' s' hn' => ?_, ?_⟩
  · rw [OrdMap.get_remove_eq] at hn'
    split at hn'
    · cases hn'
    · exact hn'
  · have := OrdMap.total_remove (f := quoteOf) hn
    have hq := h.quoteBytes
    have hs : quoteOf n s = s.synQuote.length := rfl
    omega

/-- Removing a session takes it off the count of its key. -/
theorem total_remove_key (hn : b.sessions.get n = some s) (k : Key) :
    b.sessions.total (ofKey k) =
      (b.sessions.remove n).total (ofKey k) + if n.1 = k then 1 else 0 :=
  (OrdMap.total_remove (f := ofKey k) hn).symm

/-- Removing a session takes it off the count of its host. -/
theorem total_remove_host (hn : b.sessions.get n = some s) (a : Ipv6Addr) :
    b.sessions.total (ofHost a) =
      (b.sessions.remove n).total (ofHost a) + if n.1.host = a then 1 else 0 :=
  (OrdMap.total_remove (f := ofHost a) hn).symm

/-- The binding of the last session ends with it: its port is free again, its lease is returned, and
its host goes if it has no other binding. -/
theorem Counts.endLast (h : b.Counts) (hn : b.sessions.get n = some s)
    (hx : b.bindings.get n.1 = some x) (hlast : x.sessions - 1 = 0) (timeouts : List Bytes) :
    let bindings := b.bindings.total (bindingOf n.1.host)
    let sessions := b.sessions.total (ofHost n.1.host)
    ∃ ports, b.ports.release x.lease = some ports ∧
      ports.entries = b.ports.entries.remove (n.1.protocol, x.port) ∧
      ({ b with
        ports
        sessions := b.sessions.remove n
        tcpQuoteBytes := b.tcpQuoteBytes - s.synQuote.length
        tcpTimeouts := timeouts
        bindings := b.bindings.remove n.1
        reverse := b.reverse.remove (n.1.protocol, x.port)
        hosts :=
          if bindings - 1 = 0 then b.hosts.remove n.1.host
          else b.hosts.insert n.1.host (bindings - 1, sessions - 1) } : Bindings).Counts := by
  intro bindings sessions
  have hplace : b.place n.1 = some (x.port, x.lease) := by
    unfold place placeIn
    rw [hx]
    rfl
  obtain ⟨ports, hrel, hplaced, hentries⟩ :=
    h.placed.unbind hplace fun k' => placeIn_remove b.bindings n.1 k'
  obtain ⟨hsub, hquote, -⟩ := h.remaining hn
  have hcounter := h.counter n.1 x hx
  have hkey := total_remove_key hn n.1
  rw [if_pos rfl] at hkey
  have hbinding := OrdMap.total_remove (f := bindingOf n.1.host) hx
  rw [bindingOf, if_pos rfl] at hbinding
  have hhost := total_remove_host hn n.1.host
  rw [if_pos rfl] at hhost
  refine ⟨ports, hrel, hentries, hplaced, fun k' x' hk' => ?_, fun n' s' hn' => ?_, fun a => ?_,
    fun n' s' hn' => h.sessions n' s' (hsub n' s' hn'), hquote⟩
  · rw [OrdMap.get_remove_eq] at hk'
    split at hk'
    · cases hk'
    · next hne =>
      have := total_remove_key hn k'
      rw [if_neg fun he => hne he.symm] at this
      rw [h.counter k' x' hk', this, Nat.add_zero]
  · obtain ⟨q, hq⟩ := h.owned n' s' (hsub n' s' hn')
    refine ⟨q, ?_⟩
    unfold place
    rw [placeIn_remove, if_neg]
    · exact hq
    · intro he
      have : ofKey n.1 n' s' ≤ (b.sessions.remove n).total (ofKey n.1) := OrdMap.le_total hn'
      rw [ofKey, if_pos he] at this
      omega
  · by_cases he : n.1.host = a
    · subst he
      have hb : (b.bindings.remove n.1).total (bindingOf n.1.host) = bindings - 1 := by omega
      have hs : (b.sessions.remove n).total (ofHost n.1.host) = sessions - 1 := by omega
      simp only [hb, hs, hostEntry]
      split
      · exact OrdMap.get_remove_self _ _
      · exact OrdMap.get_insert_self _ _ _
    · have hb := OrdMap.total_remove (f := bindingOf a) hx
      have hs := total_remove_host hn a
      rw [bindingOf, if_neg he, Nat.add_zero] at hb
      rw [if_neg he, Nat.add_zero] at hs
      simp only [hb, ← hs, ← h.hosts a]
      split
      · rw [OrdMap.get_remove_eq, if_neg fun h' => he h'.symm]
      · rw [OrdMap.get_insert_eq, if_neg he]

/-- The binding of another session stays, with one session less, and so does its host. -/
theorem Counts.endOne (h : b.Counts) (hn : b.sessions.get n = some s)
    (hx : b.bindings.get n.1 = some x) (timeouts : List Bytes) :
    let bindings := b.bindings.total (bindingOf n.1.host)
    let sessions := b.sessions.total (ofHost n.1.host)
    ({ b with
      sessions := b.sessions.remove n
      tcpQuoteBytes := b.tcpQuoteBytes - s.synQuote.length
      tcpTimeouts := timeouts
      bindings := b.bindings.insert n.1 { x with sessions := x.sessions - 1 }
      hosts :=
        if bindings = 0 then b.hosts.remove n.1.host
        else b.hosts.insert n.1.host (bindings, sessions - 1) } : Bindings).Counts := by
  intro bindings sessions
  obtain ⟨hsub, hquote, -⟩ := h.remaining hn
  have hrecount := placeIn_recount hx (x.sessions - 1)
  have hcounter := h.counter n.1 x hx
  refine ⟨?_, fun k' x' hk' => ?_, fun n' s' hn' => ?_, fun a => ?_,
    fun n' s' hn' => h.sessions n' s' (hsub n' s' hn'), hquote⟩
  · unfold place
    rw [hrecount]
    exact h.placed
  · simp only [OrdMap.get_insert_eq] at hk'
    have hkey := total_remove_key hn k'
    split at hk'
    · next he =>
      obtain rfl := Option.some.inj hk'
      rw [if_pos he] at hkey
      subst he
      simp only
      omega
    · next he =>
      rw [if_neg he] at hkey
      rw [h.counter k' x' hk', hkey, Nat.add_zero]
  · unfold place
    rw [hrecount]
    exact h.owned n' s' (hsub n' s' hn')
  · have hhost := total_remove_host hn a
    rw [total_recount hx]
    by_cases he : n.1.host = a
    · subst he
      rw [if_pos rfl] at hhost
      have hs : (b.sessions.remove n).total (ofHost n.1.host) = sessions - 1 := by omega
      simp only [hs, hostEntry]
      split
      · exact OrdMap.get_remove_self _ _
      · exact OrdMap.get_insert_self _ _ _
    · rw [if_neg he, Nat.add_zero] at hhost
      simp only [← hhost, ← h.hosts a]
      split
      · rw [OrdMap.get_remove_eq, if_neg fun h' => he h'.symm]
      · rw [OrdMap.get_insert_eq, if_neg he]

/-- The limits hold after a session has ended: every size and total is at most what it was, and at
most one packet is queued for a timeout, in place of the session. -/
theorem Capacity.drop {b' : Bindings} (h : b.Capacity) (hn : b.sessions.get n = some s)
    (hsessions : b'.sessions = b.sessions.remove n) (hbindings : b'.bindings.size ≤ b.bindings.size)
    (hreverse : b'.reverse.size ≤ b.reverse.size) (hhosts : b'.hosts.size ≤ b.hosts.size)
    (hof : ∀ a, b'.bindings.total (bindingOf a) ≤ b.bindings.total (bindingOf a))
    (htimeouts : b'.tcpTimeouts =
      if s.tcp = some .v4Init ∧ s.synQuote ≠ [] ∧ b.tcpTimeouts.length < 32 then
        b.tcpTimeouts ++ [s.synQuote] else b.tcpTimeouts)
    (hquote : b'.tcpQuoteBytes ≤ b.tcpQuoteBytes) : b'.Capacity := by
  have hsize := OrdMap.size_remove hn
  have hlen : b'.tcpTimeouts.length ≤ 32 ∧ b'.tcpTimeouts.length ≤ b.tcpTimeouts.length + 1 := by
    have := h.timeouts
    rw [htimeouts]
    split
    · rw [List.length_append, List.length_singleton]
      omega
    · omega
  have h₁ := h.bindings
  have h₂ := h.sessions
  have h₃ := h.charge
  refine ⟨by omega, by rw [hsessions]; omega,
    fun a => (hof a).trans (h.hostBindings a), fun a => ?_, ?_, hlen.1⟩
  · have := total_remove_host hn a
    have := h.hostSessions a
    rw [hsessions]
    omega
  · unfold chargedBytes at h₃ ⊢
    rw [hsessions]
    omega

/-- A session that ends takes its binding along if it is the last one. All the counters that the
source subtracts from are at least one, since the session is counted in each of them, so that the
call does not panic. -/
theorem dropSession_spec (h : b.Counts) (hn : b.sessions.get n = some s) :
    ∃ released b', b.dropSession n = some (released, b') ∧ b.Reduced b' ∧
      b'.sessions = b.sessions.remove n ∧ b'.next = b.next := by
  obtain ⟨q, hq⟩ := h.owned n s hn
  obtain ⟨x, hx, rfl⟩ := Option.map_eq_some_iff.1 hq
  obtain ⟨hhost, hbindings⟩ := h.host hx
  obtain ⟨-, -, hquote⟩ := h.remaining hn
  have hcounter := h.counter n.1 x hx
  have hkey := total_remove_key hn n.1
  have hsession := total_remove_host hn n.1.host
  rw [if_pos rfl] at hkey hsession
  have hother :
      ∀ k, k ≠ n.1 → (b.sessions.remove n).total (ofKey k) = b.sessions.total (ofKey k) := by
    intro k hk
    have := total_remove_key hn k
    rw [if_neg fun he => hk he.symm] at this
    omega
  have hle : ∀ k, (b.sessions.remove n).total (ofKey k) ≤ b.sessions.total (ofKey k) := by
    intro k
    have := total_remove_key hn k
    omega
  unfold dropSession
  simp only [hn, hx, hhost, Option.bind_eq_bind, Option.bind_some]
  rw [if_neg (Nat.not_lt.2 hquote), if_neg (by omega), if_neg (by omega)]
  split
  · next hlast =>
    obtain ⟨ports, hrel, hentries, hcounts⟩ := h.endLast hn hx hlast
      (if s.tcp = some .v4Init ∧ s.synQuote ≠ [] ∧ b.tcpTimeouts.length < 32 then
        b.tcpTimeouts ++ [s.synQuote] else b.tcpTimeouts)
    rw [if_neg (by omega)]
    simp only [hrel, Option.bind_some]
    have hgone : ∀ k, placeIn (b.bindings.remove n.1) k = if k = n.1 then none else b.place k :=
      placeIn_remove b.bindings n.1
    refine ⟨_, _, rfl, ⟨hcounts, fun hb k q hk => ?_, fun hc => ?_, rfl, fun y v hy hr => ?_,
      fun k q hk => ?_, fun k q hk hpos => ?_, hle⟩, rfl, rfl⟩
    · have hk := (hgone k).symm.trans hk
      split at hk
      · cases hk
      · next hne => exact (hb k q hk).trans_eq (hother k hne).symm
    · refine hc.drop hn rfl (OrdMap.size_retain_le _ _) (OrdMap.size_retain_le _ _) ?_
        (fun a => ?_) rfl (Nat.sub_le _ _)
      · simp only
        split
        · exact OrdMap.size_retain_le _ _
        · exact (OrdMap.size_insert_of_contains _ (OrdMap.contains_iff.2 ⟨_, hhost⟩)).le
      · have := OrdMap.total_remove (f := bindingOf a) hx
        simp only
        omega
    · have hne : y ≠ (n.1.protocol, x.port) := by
        intro he
        rw [he, (h.placed.reverse _ n.1).2 ⟨_, hq, rfl⟩] at hr
        cases hr
      refine ⟨?_, ?_⟩
      · show ports.entries.get y = some v
        rw [hentries, OrdMap.get_remove_eq, if_neg hne]
        exact hy
      · show (b.reverse.remove _).get y = none
        rw [OrdMap.get_remove_eq, if_neg hne]
        exact hr
    · have hk := (hgone k).symm.trans hk
      split at hk
      · cases hk
      · exact hk
    · refine (hgone k).trans ?_
      rw [if_neg]
      · exact hk
      · intro he
        have hpos : 0 < (b.sessions.remove n).total (ofKey k) := hpos
        rw [he] at hpos
        omega
  · next hmore =>
    have hcounts := h.endOne hn hx
      (if s.tcp = some .v4Init ∧ s.synQuote ≠ [] ∧ b.tcpTimeouts.length < 32 then
        b.tcpTimeouts ++ [s.synQuote] else b.tcpTimeouts)
    have hsame : placeIn (b.bindings.insert n.1 { x with sessions := x.sessions - 1 }) = b.place :=
      placeIn_recount hx _
    refine ⟨_, _, rfl, ⟨hcounts, fun hb k q hk => ?_, fun hc => ?_, rfl, .of_eq rfl rfl,
      fun k q hk => ?_, fun k q hk _ => ?_, hle⟩, rfl, rfl⟩
    · show 0 < (b.sessions.remove n).total (ofKey k)
      by_cases he : k = n.1
      · rw [he]
        omega
      · rw [hother k he]
        exact hb k q ((congrFun hsame k).symm.trans hk)
    · refine hc.drop hn rfl ?_ (Nat.le_refl _) ?_ (fun a => (total_recount hx _ a).le) rfl
        (Nat.sub_le _ _)
      · exact (OrdMap.size_insert_of_contains _ (OrdMap.contains_iff.2 ⟨_, hx⟩)).le
      · simp only
        split
        · exact OrdMap.size_retain_le _ _
        · exact (OrdMap.size_insert_of_contains _ (OrdMap.contains_iff.2 ⟨_, hhost⟩)).le
    · exact (congrFun hsame k).symm.trans hk
    · exact (congrFun hsame k).trans hk

end Drop

/-- Sessions end one after the other. By induction on their keys, which are different, so that the
others are still there. -/
theorem dropSessions_spec (h : b.Counts) {old : List SessionKey}
    (hold : ∀ n ∈ old, ∃ s, b.sessions.get n = some s) (hnodup : old.Nodup) :
    ∃ released b', b.dropSessions old = some (released, b') ∧ b.Reduced b' ∧
      (∀ n, b'.sessions.get n = if n ∈ old then none else b.sessions.get n) ∧ b'.next = b.next := by
  induction old generalizing b with
  | nil => exact ⟨[], b, rfl, .refl h, fun n => by simp, rfl⟩
  | cons n rest ih =>
    obtain ⟨s, hs⟩ := hold n List.mem_cons_self
    obtain ⟨hnot, hrest⟩ := List.nodup_cons.1 hnodup
    obtain ⟨ports, b₁, hdrop, hred, hsessions, hnext⟩ := dropSession_spec h hs
    have hold₁ : ∀ m ∈ rest, ∃ s, b₁.sessions.get m = some s := by
      intro m hm
      have hne : m ≠ n := fun he => hnot (he ▸ hm)
      rw [hsessions, OrdMap.get_remove_eq, if_neg hne]
      exact hold m (List.mem_cons_of_mem _ hm)
    obtain ⟨more, b₂, hdrops, hred₂, hget, hnext₂⟩ := ih hred.counts hold₁ hrest
    refine ⟨ports ++ more, b₂, ?_, hred.trans hred₂, fun m => ?_, hnext₂.trans hnext⟩
    · simp only [dropSessions, hdrop, hdrops, Option.bind_eq_bind, Option.bind_some]
      rfl
    · rw [hget, hsessions, OrdMap.get_remove_eq]
      simp only [List.mem_cons]
      by_cases hm : m = n
      · simp [hm]
      · simp [hm]

/-! ## Expiry -/

/-- The next deadline bounds the expiries from below, and is there while there is a session. -/
structure NextOk (b : Bindings) : Prop where
  none_iff : b.next = none ↔ b.sessions.entries = []
  le : ∀ t, b.next = some t → ∀ n s, b.sessions.get n = some s → t ≤ s.expires

/-- The earliest moment of the sessions is one that nothing expires before. -/
theorem nextOk_earliest (h : b.next = earliest b.sessions) : b.NextOk := by
  refine ⟨?_, fun t ht n s hs => ?_⟩
  · rw [h, earliest, List.min?_eq_none_iff, List.map_eq_nil_iff, OrdMap.values, List.map_eq_nil_iff]
  · rw [h] at ht
    refine (List.min?_eq_some_iff.1 ht).2 _ (List.mem_map.2 ⟨s, ?_, rfl⟩)
    exact List.mem_map.2 ⟨(n, s), OrdMap.mem_iff_get.2 hs, rfl⟩

/-- Relaxing a session keeps it in order. -/
theorem relax_ok {now : Nat} {n : SessionKey} {s : Session} (h : SessionOk n s) :
    SessionOk n (s.relax now) := by
  unfold Session.relax
  split
  · next he =>
    refine ⟨?_, fun hq => ?_⟩
    · rw [← h.tcp, he.2]
      rfl
    · exact absurd (h.quote hq) (by rw [he.2]; simp)
  · exact h

/-- Relaxing a session keeps its quote. -/
@[simp] theorem relax_synQuote (now : Nat) (s : Session) : (s.relax now).synQuote = s.synQuote := by
  unfold Session.relax
  split <;> rfl

/-- A session that is not due is not relaxed. -/
theorem relax_of_lt {now : Nat} {s : Session} (h : now < s.expires) : s.relax now = s := by
  unfold Session.relax
  rw [if_neg fun he => absurd he.1 (by omega)]

/-- Sessions that change in place, and keep their quotes, are none removed and none added. All the
sums are taken over the same keys. -/
theorem Reduced.mapSessions (h : b.Counts) {f : SessionKey → Session → Session}
    (hok : ∀ n s, b.sessions.get n = some s → SessionOk n (f n s))
    (hquote : ∀ n s, (f n s).synQuote = s.synQuote) :
    b.Reduced { b with sessions := b.sessions.mapValues f } := by
  have htotal : ∀ k, (b.sessions.mapValues f).total (ofKey k) = b.sessions.total (ofKey k) :=
    fun k => OrdMap.total_mapValues _ _ _
  refine ⟨h.mapSessions hok hquote, fun hb k q hk => ?_, fun hc => ?_, rfl, .of_eq rfl rfl,
    fun _ _ h => h, fun _ _ h _ => h, fun k => (htotal k).le⟩
  · exact (hb k q hk).trans_eq (htotal k).symm
  · refine ⟨hc.bindings, ?_, hc.hostBindings, fun a => ?_, ?_, hc.timeouts⟩
    · rw [OrdMap.size_mapValues]
      exact hc.sessions
    · rw [OrdMap.total_mapValues]
      exact hc.hostSessions a
    · unfold chargedBytes
      rw [OrdMap.size_mapValues]
      exact hc.charge

/-- The next moment of expiry is no part of what is counted. -/
theorem Reduced.setNext {b' : Bindings} (h : b.Reduced b') (next : Option Nat) :
    b.Reduced { b' with next } :=
  ⟨h.counts.setNext next, h.bound,
    fun hc => ⟨(h.capacity hc).bindings, (h.capacity hc).sessions, (h.capacity hc).hostBindings,
      (h.capacity hc).hostSessions, (h.capacity hc).charge, (h.capacity hc).timeouts⟩,
    h.settings, h.moves, h.placed, h.kept, h.sessions⟩

/-- What has run out is gone afterwards, and all the rest is there. Before the earliest expiry
nothing is done, since no session is over (`NextOk`); otherwise TCP sessions are relaxed first, and
then those that are over are dropped. -/
theorem expire_spec (h : b.Counts) (hnext : b.NextOk) (now : Nat) :
    ∃ released b', b.expire now = some (released, b') ∧ b.Reduced b' ∧ b'.NextOk ∧
      b'.next.all (fun t => decide (now < t)) = true ∧
      ∀ n, b'.sessions.get n =
        ((b.sessions.get n).map (Session.relax now)).filter fun s => decide (now < s.expires) := by
  unfold expire
  split
  · next hall =>
    refine ⟨_, _, rfl, .refl h, hnext, hall, fun n => ?_⟩
    cases hs : b.sessions.get n with
    | none => rfl
    | some s =>
      have hlt : now < s.expires := by
        cases ht : b.next with
        | none => exact absurd (hnext.none_iff.1 ht) (OrdMap.entries_ne_nil hs)
        | some t =>
          rw [ht] at hall
          have hle := hnext.le t ht n s hs
          have hlt : now < t := of_decide_eq_true hall
          omega
      rw [Option.map_some, relax_of_lt hlt, Option.filter_some, if_pos (decide_eq_true hlt)]
  · have hred := Reduced.mapSessions h (f := fun _ => Session.relax now)
      (fun n s hs => relax_ok (h.sessions n s hs)) fun _ s => relax_synQuote now s
    set b₁ : Bindings :=
      { b with sessions := b.sessions.mapValues fun _ => Session.relax now } with hb₁
    have hkeys : ∀ n, n ∈ (b₁.sessions.retain fun _ s => decide (s.expires ≤ now)).keys ↔
        ∃ s, b₁.sessions.get n = some s ∧ s.expires ≤ now := by
      intro n
      simp only [OrdMap.keys, List.mem_map, OrdMap.mem_entries_retain, decide_eq_true_eq]
      constructor
      · rintro ⟨e, ⟨he, hle⟩, rfl⟩
        exact ⟨e.2, OrdMap.mem_iff_get.1 he, hle⟩
      · rintro ⟨s, hs, hle⟩
        exact ⟨(n, s), ⟨OrdMap.mem_iff_get.2 hs, hle⟩, rfl⟩
    obtain ⟨released, b₂, hdrops, hred₂, hget, -⟩ := dropSessions_spec hred.counts
      (fun n hn => ((hkeys n).1 hn).imp fun _ h => h.1)
      (OrdMap.keys_nodup (b₁.sessions.retain fun _ s => decide (s.expires ≤ now)))
    have hsessions : ∀ n, b₂.sessions.get n =
        ((b.sessions.get n).map (Session.relax now)).filter fun s => decide (now < s.expires) := by
      intro n
      rw [hget]
      have hmap : b₁.sessions.get n = (b.sessions.get n).map (Session.relax now) :=
        OrdMap.get_mapValues_values _ _ _
      simp only [hkeys, ← hmap]
      cases b₁.sessions.get n with
      | none => simp
      | some s =>
        by_cases hle : s.expires ≤ now
        · simp [Option.filter_some, hle, Nat.not_lt.2 hle]
        · simp [Option.filter_some, hle, Nat.not_le.1 hle]
    refine ⟨released, { b₂ with next := earliest b₂.sessions }, ?_, (hred.trans hred₂).setNext _,
      nextOk_earliest rfl, ?_, hsessions⟩
    · simp only [Option.bind_eq_bind, hdrops, Option.bind_some]
      rfl
    · show (earliest b₂.sessions).all _ = true
      cases ht : earliest b₂.sessions with
      | none => rfl
      | some t =>
        obtain ⟨s, hs, rfl⟩ := List.mem_map.1 (List.min?_eq_some_iff.1 ht).1
        obtain ⟨e, he, rfl⟩ := List.mem_map.1 hs
        have hlive := OrdMap.mem_iff_get.1 he
        rw [hsessions] at hlive
        exact (Option.filter_eq_some_iff.1 hlive).2

/-! ## Bulk removals -/

/-- The ports of several bindings are given back. By induction on the bindings, which have different
keys: giving one up leaves the places of the others. -/
theorem releaseAll_spec {reverse : OrdMap PortKey Key} {place : Key → Option (UInt16 × Lease)}
    {ports : Ports} (h : Placed reverse place ports) {l : List (Key × Binding)}
    (hl : ∀ e ∈ l, place e.1 = some (e.2.port, e.2.lease)) (hnodup : (l.map Prod.fst).Nodup) :
    ∃ ports' reverse', releaseAll ports (l.map Prod.snd) = some ports' ∧
      Placed reverse' (fun k => if k ∈ l.map Prod.fst then none else place k) ports' ∧
      ∀ x v, ports.entries.get x = some v → reverse.get x = none →
        ports'.entries.get x = some v := by
  induction l generalizing reverse place ports with
  | nil => exact ⟨ports, reverse, rfl, by simpa using h, fun x v hx _ => hx⟩
  | cons e l ih =>
    obtain ⟨hnot, hrest⟩ := List.nodup_cons.1 hnodup
    have hplace : ∀ k, (fun k => if k = e.1 then none else place k) k =
        if k = e.1 then none else place k := fun _ => rfl
    obtain ⟨ports₁, hrel, hplaced, hentries⟩ := h.unbind (hl e List.mem_cons_self) hplace
    have hl₁ : ∀ y ∈ l, (if y.1 = e.1 then none else place y.1) = some (y.2.port, y.2.lease) := by
      intro y hy
      have hne : y.1 ≠ e.1 := fun he => hnot (he ▸ List.mem_map.2 ⟨y, hy, rfl⟩)
      rw [if_neg hne]
      exact hl y (List.mem_cons_of_mem _ hy)
    obtain ⟨ports₂, reverse₂, hall, hplaced₂, hkept⟩ := ih hplaced hl₁ hrest
    refine ⟨ports₂, reverse₂, ?_, ?_, fun x v hx hr => ?_⟩
    · unfold releaseAll at hall ⊢
      rw [List.map_cons, List.foldlM_cons, hrel]
      exact hall
    · have hsame : (fun k => if k ∈ (e :: l).map Prod.fst then none else place k) = fun k =>
          if k ∈ l.map Prod.fst then none else if k = e.1 then none else place k := by
        funext k
        by_cases hk : k = e.1
        · simp [hk]
        · simp only [List.map_cons, List.mem_cons, hk, false_or, if_false]
      rw [hsame]
      exact hplaced₂
    · have hne : x ≠ (e.1.protocol, e.2.port) := by
        intro he
        rw [he, (h.reverse _ e.1).2 ⟨_, hl e List.mem_cons_self, rfl⟩] at hr
        cases hr
      refine hkept x v ?_ ?_
      · rw [hentries, OrdMap.get_remove_eq, if_neg hne]
        exact hx
      · rw [OrdMap.get_remove_eq, if_neg hne]
        exact hr

/-- How many keys of a list have a host. -/
def hostKeys (a : Ipv6Addr) (ks : List Key) : Nat :=
  (ks.map fun k => if k.host = a then 1 else 0).sum

/-- Counting a binding adds one for its host. -/
theorem countBinding_get (m : OrdMap Ipv6Addr (Nat × Nat)) (k : Key) (a : Ipv6Addr) :
    (countBinding m k).get a = if k.host = a then
      some (((m.get a).getD (0, 0)).1 + 1, ((m.get a).getD (0, 0)).2) else m.get a := by
  unfold countBinding
  simp only [OrdMap.get_insert_eq]
  split
  · next h => rw [h]
  · rfl

/-- Counting a session adds one for its host. -/
theorem countSession_get (m : OrdMap Ipv6Addr (Nat × Nat)) (k : SessionKey) (a : Ipv6Addr) :
    (countSession m k).get a = if k.1.host = a then
      some (((m.get a).getD (0, 0)).1, ((m.get a).getD (0, 0)).2 + 1) else m.get a := by
  unfold countSession
  simp only [OrdMap.get_insert_eq]
  split
  · next h => rw [h]
  · rfl

/-- A fold that adds one for the host of each item adds so many for each host as it has items. By
induction on the items; a host without items keeps the count that it had. -/
theorem foldl_count {α : Type}
    {step : OrdMap Ipv6Addr (Nat × Nat) → α → OrdMap Ipv6Addr (Nat × Nat)} (key : α → Key)
    (add : Nat × Nat → Nat → Nat × Nat) (hadd : ∀ x i j, add (add x i) j = add x (i + j))
    (hstep : ∀ m k a, (step m k).get a =
      if (key k).host = a then some (add ((m.get a).getD (0, 0)) 1) else m.get a)
    (ks : List α) (m : OrdMap Ipv6Addr (Nat × Nat)) (a : Ipv6Addr) :
    (ks.foldl step m).get a = if hostKeys a (ks.map key) = 0 then m.get a else
      some (add ((m.get a).getD (0, 0)) (hostKeys a (ks.map key))) := by
  induction ks generalizing m with
  | nil => simp [hostKeys]
  | cons k ks ih =>
    have hcons : hostKeys a ((k :: ks).map key) =
        (if (key k).host = a then 1 else 0) + hostKeys a (ks.map key) := by
      simp [hostKeys]
    rw [List.foldl_cons, ih, hstep, hcons]
    by_cases hk : (key k).host = a
    · simp only [if_pos hk, Option.getD_some]
      by_cases hz : hostKeys a (ks.map key) = 0
      · simp [hz]
      · simp [hz, hadd]
    · simp only [if_neg hk, Nat.zero_add]

/-- Counting bindings adds so many for each host as it has. -/
theorem foldl_countBinding (ks : List Key) (m : OrdMap Ipv6Addr (Nat × Nat)) (a : Ipv6Addr) :
    (ks.foldl countBinding m).get a = if hostKeys a ks = 0 then m.get a else
      some (((m.get a).getD (0, 0)).1 + hostKeys a ks, ((m.get a).getD (0, 0)).2) := by
  have h := foldl_count id (fun x i => (x.1 + i, x.2)) (fun x i j => by rw [Nat.add_assoc])
    countBinding_get ks m a
  rwa [List.map_id] at h

/-- Counting sessions adds so many for each host as it has. -/
theorem foldl_countSession (ks : List SessionKey) (m : OrdMap Ipv6Addr (Nat × Nat)) (a : Ipv6Addr) :
    (ks.foldl countSession m).get a = if hostKeys a (ks.map Prod.fst) = 0 then m.get a else
      some (((m.get a).getD (0, 0)).1,
        ((m.get a).getD (0, 0)).2 + hostKeys a (ks.map Prod.fst)) :=
  foldl_count Prod.fst (fun x i => (x.1, x.2 + i)) (fun x i j => by rw [Nat.add_assoc])
    countSession_get ks m a

/-- The bindings of a host, counted by keys. -/
theorem hostKeys_bindings (m : OrdMap Key Binding) (a : Ipv6Addr) :
    hostKeys a m.keys = m.total (bindingOf a) := by
  unfold hostKeys OrdMap.keys OrdMap.total
  rw [List.map_map]
  rfl

/-- The sessions of a host, counted by keys. -/
theorem hostKeys_sessions (m : OrdMap SessionKey Session) (a : Ipv6Addr) :
    hostKeys a (m.keys.map Prod.fst) = m.total (ofHost a) := by
  unfold hostKeys OrdMap.keys OrdMap.total
  rw [List.map_map, List.map_map]
  rfl

/-- Everything under keys that do not satisfy a predicate ends. Sessions and bindings are filtered
by the key, and the counters of the hosts are built anew from what is left, as the source does. -/
theorem Counts.retain (h : b.Counts) (keep : Key → Bool) (timeouts : List Bytes)
    (htimeouts : timeouts.length ≤ b.tcpTimeouts.length) {sessions : OrdMap SessionKey Session}
    (hsessions : sessions = b.sessions.retain fun n _ => keep n.1) {bindings : OrdMap Key Binding}
    (hbindings : bindings = b.bindings.retain fun k _ => keep k) :
    ∃ ports, releaseAll b.ports (b.bindings.retain fun k _ => !keep k).values = some ports ∧
      b.Reduced { b with
        ports, sessions, bindings
        reverse := b.reverse.retain fun _ k => keep k
        hosts := sessions.keys.foldl countSession (bindings.keys.foldl countBinding .empty)
        tcpQuoteBytes := sessions.total quoteOf
        tcpTimeouts := timeouts
        next := earliest sessions } := by
  have hs : ∀ n, sessions.get n = (b.sessions.get n).filter fun _ => keep n.1 := by
    intro n
    rw [hsessions, OrdMap.get_retain_lawful]
  have hsub : ∀ n s, sessions.get n = some s → b.sessions.get n = some s ∧ keep n.1 = true := by
    intro n s hn
    rw [hs] at hn
    exact Option.filter_eq_some_iff.1 hn
  have hplace : ∀ k, placeIn bindings k = if keep k then b.place k else none := by
    intro k
    unfold place placeIn
    rw [hbindings, OrdMap.get_retain_lawful]
    cases b.bindings.get k <;> cases keep k <;> rfl
  have hkey : ∀ k, sessions.total (ofKey k) = if keep k then b.sessions.total (ofKey k) else 0 := by
    intro k
    rw [hsessions, OrdMap.total_retain]
    split
    · next hk =>
      refine OrdMap.total_congr fun n s _ => ?_
      by_cases hn : n.1 = k
      · rw [hn, if_pos hk]
      · simp [ofKey, hn]
    · next hk =>
      refine (OrdMap.total_congr (g := fun _ _ => 0) fun n s _ => ?_).trans (by simp [OrdMap.total])
      by_cases hn : n.1 = k
      · rw [hn, if_neg hk]
      · simp [ofKey, hn]
  have hle : ∀ f : SessionKey → Session → Nat, sessions.total f ≤ b.sessions.total f := by
    intro f
    rw [hsessions]
    exact OrdMap.total_retain_le _ _ _
  have hleb : ∀ f : Key → Binding → Nat, bindings.total f ≤ b.bindings.total f := by
    intro f
    rw [hbindings]
    exact OrdMap.total_retain_le _ _ _
  obtain ⟨ports, reverse', hrel, hplaced, hkept⟩ := releaseAll_spec h.placed
    (l := (b.bindings.retain fun k _ => !keep k).entries)
    (fun e he => by
      unfold place placeIn
      rw [OrdMap.mem_iff_get.1 (OrdMap.mem_entries_retain.1 he).1]
      rfl) (OrdMap.keys_nodup _)
  have hplace' : (fun k => if k ∈ (b.bindings.retain fun k _ => !keep k).entries.map Prod.fst
      then none else b.place k) = placeIn bindings := by
    funext k
    rw [hplace]
    cases hk : keep k with
    | true =>
      rw [if_pos rfl, if_neg]
      intro hmem
      obtain ⟨e, he, rfl⟩ := List.mem_map.1 hmem
      have := (OrdMap.mem_entries_retain.1 he).2
      rw [hk] at this
      cases this
    | false =>
      rw [if_neg Bool.false_ne_true]
      split
      · rfl
      · next hmem =>
        cases hx : b.bindings.get k with
        | none =>
          unfold place placeIn
          rw [hx]
          rfl
        | some x =>
          refine absurd (List.mem_map.2 ⟨(k, x), ?_, rfl⟩) hmem
          exact OrdMap.mem_entries_retain.2 ⟨OrdMap.mem_iff_get.2 hx, by rw [hk]; rfl⟩
  rw [hplace'] at hplaced
  have hcounts : ({ b with
      ports, sessions, bindings
      reverse := b.reverse.retain fun _ k => keep k
      hosts := sessions.keys.foldl countSession (bindings.keys.foldl countBinding .empty)
      tcpQuoteBytes := sessions.total quoteOf
      tcpTimeouts := timeouts
      next := earliest sessions } : Bindings).Counts := by
    have howned : ∀ n s, sessions.get n = some s → ∃ q, placeIn bindings n.1 = some q := by
      intro n s hn
      obtain ⟨hn, hk⟩ := hsub n s hn
      rw [hplace, if_pos hk]
      exact h.owned n s hn
    refine ⟨⟨hplaced.ok, fun x k => ?_, hplaced.leases⟩, fun k x hx => ?_, howned, fun a => ?_,
      fun n s hn => h.sessions n s (hsub n s hn).1, rfl⟩
    · show (b.reverse.retain fun _ k => keep k).get x = some k ↔
        ∃ q, placeIn bindings k = some q ∧ _
      rw [OrdMap.get_retain_values, Option.filter_eq_some_iff, h.placed.reverse, hplace]
      cases keep k <;> simp
    · have hx : bindings.get k = some x := hx
      rw [hbindings, OrdMap.get_retain_lawful, Option.filter_eq_some_iff] at hx
      show x.sessions = sessions.total (ofKey k)
      rw [hkey, if_pos hx.2]
      exact h.counter k x hx.1
    · show (sessions.keys.foldl countSession (bindings.keys.foldl countBinding .empty)).get a = _
      rw [foldl_countSession, foldl_countBinding, hostKeys_bindings, hostKeys_sessions, hostEntry]
      by_cases hb : bindings.total (bindingOf a) = 0
      · rw [if_pos hb, if_pos (sessions_of_host howned hb), if_pos hb]
        rfl
      · rw [if_neg hb, if_neg hb]
        split
        · next hz => simp [hz]
        · simp
  refine ⟨ports, hrel, hcounts, fun hb k q hk => ?_, fun hc => ?_, rfl, fun x v hx hr => ?_,
    fun k q hk => ?_, fun k q hk hpos => ?_, fun k => hle _⟩
  · have hk := (hplace k).symm.trans hk
    show 0 < sessions.total (ofKey k)
    rw [hkey]
    split at hk
    · next hkeep =>
      rw [if_pos hkeep]
      exact hb k q hk
    · cases hk
  · have hhosts :
        (sessions.keys.foldl countSession (bindings.keys.foldl countBinding .empty)).size ≤
        b.hosts.size := by
      refine OrdMap.size_le_of_get fun a v hv => ?_
      have hv := (hcounts.hosts a).symm.trans hv
      rw [h.hosts a]
      have hnb : bindings.total (bindingOf a) ≤ b.bindings.total (bindingOf a) := hleb _
      unfold hostEntry at hv ⊢
      split at hv
      · cases hv
      · next hne =>
        have hne' : b.bindings.total (bindingOf a) ≠ 0 := fun hz => hne (Nat.le_zero.1 (hz ▸ hnb))
        rw [if_neg hne']
        exact ⟨_, rfl⟩
    have hbsize : bindings.size ≤ b.bindings.size := hbindings ▸ OrdMap.size_retain_le _ _
    have hssize : sessions.size ≤ b.sessions.size := hsessions ▸ OrdMap.size_retain_le _ _
    have hrsize := OrdMap.size_retain_le b.reverse fun _ k => keep k
    have hquote := (hle quoteOf).trans_eq h.quoteBytes.symm
    have hcharge := hc.charge
    refine ⟨hbsize.trans hc.bindings, hssize.trans hc.sessions,
      fun a => (hleb _).trans (hc.hostBindings a), fun a => (hle _).trans (hc.hostSessions a), ?_,
      htimeouts.trans hc.timeouts⟩
    unfold chargedBytes at hcharge ⊢
    simp only
    omega
  · refine ⟨hkept x v hx hr, ?_⟩
    show (b.reverse.retain fun _ k => keep k).get x = none
    rw [OrdMap.get_retain_values, hr]
    rfl
  · have hk := (hplace k).symm.trans hk
    split at hk
    · exact hk
    · cases hk
  · refine (hplace k).trans ?_
    have hpos : 0 < sessions.total (ofKey k) := hpos
    rw [hkey] at hpos
    split at hpos
    · next hkeep =>
      rw [if_pos hkeep]
      exact hk
    · omega

/-- The domains that are kept keep their sessions. -/
theorem retainDomains_spec (h : b.Counts) (domains : List Prefix) :
    ∃ b', b.retainDomains domains = some b' ∧ b.Reduced b' ∧ b'.NextOk ∧
      ∀ n, b'.sessions.get n =
        (b.sessions.get n).filter fun _ => domains.any fun p => p.address == n.1.domain := by
  obtain ⟨ports, hrel, hred⟩ := h.retain (fun k => domains.any fun p => p.address == k.domain)
    b.tcpTimeouts (Nat.le_refl _) rfl rfl
  refine ⟨_, ?_, hred, nextOk_earliest rfl, fun n => OrdMap.get_retain_lawful _ _ _⟩
  simp only [retainDomains, hrel, Option.bind_eq_bind, Option.bind_some]
  rfl

/-- A cleared table is empty. -/
theorem clear_spec (h : b.Counts) :
    ∃ b', b.clear = some (b.reverse.keys, b') ∧ b.Reduced b' ∧ b'.NextOk ∧
    b'.sessions = .empty := by
  obtain ⟨ports, hrel, hred⟩ := h.retain (fun _ => false) [] (Nat.zero_le _) rfl rfl
  simp only [Bool.not_false, OrdMap.retain_true, OrdMap.retain_false] at hrel hred
  refine ⟨_, ?_, hred, nextOk_earliest rfl, rfl⟩
  simp only [clear, hrel, Option.bind_eq_bind, Option.bind_some]
  rfl

end Bindings

end SnacMachine.Nat64
