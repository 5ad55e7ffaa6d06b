import SnacMachine.Nat64.Stability

/-!
# A table that is full

A run that fills a table up to its charge: a crowd of hosts opens a connection each, a remote
answers every one of them with a SYN of its own, the first connections run out, and a further remote
sends SYNs until the table has no room for another head of a SYN. A live session that has not kept
its head yet is then refused its next SYN (`refused_syn`).
-/

namespace SnacMachine.Nat64

/-- A host of the crowd. -/
def crowdHost (h : Nat) : Ipv6Addr :=
  ⟨List.replicate 14 0 ++ [UInt8.ofNat (h / 256), UInt8.ofNat (h % 256)], rfl⟩

/-- The port that a host of the crowd uses. -/
def crowdPort (h : Nat) : UInt16 := UInt16.ofNat (1024 + h)

/-- The key of a host of the crowd. -/
def crowdKey (h : Nat) : Key := ⟨6, crowdHost h, crowdPort h, .unspecified⟩

/-- The remotes that the crowd hears of. -/
def crowdRemote (r : Fin 4) : SocketAddrV4 := ⟨⟨[192, 0, 2, UInt8.ofNat r], rfl⟩, 80⟩

/-- A SYN in a packet with a header of 52 octets. -/
def synPacket : Bytes := 0x4d :: List.replicate 71 0

/-- So much of the SYN is quoted. -/
theorem quoteLength_synPacket : quoteLength synPacket = 60 := by decide +kernel

section Crowd

variable {h h' : Nat} {r r' : Fin 4}

/-- The hosts of the crowd are different. -/
theorem crowdHost_inj (hh : h < 4096) (hh' : h' < 4096)
    (he : crowdHost h = crowdHost h') : h = h' := by
  have hbytes := List.append_cancel_left (congrArg Subtype.val he)
  simp only [List.cons.injEq, and_true] at hbytes
  have h₁ := congrArg UInt8.toNat hbytes.1
  have h₂ := congrArg UInt8.toNat hbytes.2
  simp only [UInt8.toNat_ofNat'] at h₁ h₂
  omega

/-- The ports of the crowd are as they are numbered. -/
theorem crowdPort_toNat (hh : h < 4096) : (crowdPort h).toNat = 1024 + h := by
  unfold crowdPort
  rw [UInt16.toNat_ofNat']
  omega

/-- The ports of the crowd are different. -/
theorem crowdPort_inj (hh : h < 4096) (hh' : h' < 4096)
    (he : crowdPort h = crowdPort h') : h = h' := by
  have := congrArg UInt16.toNat he
  rw [crowdPort_toNat hh, crowdPort_toNat hh'] at this
  omega

/-- No port of the crowd is zero. -/
theorem crowdPort_ne_zero (hh : h < 4096) : crowdPort h ≠ 0 := by
  intro he
  have := congrArg UInt16.toNat he
  rw [crowdPort_toNat hh] at this
  simp at this

/-- The keys of the crowd are different. -/
theorem crowdKey_inj (hh : h < 4096) (hh' : h' < 4096) (he : crowdKey h = crowdKey h') : h = h' :=
  crowdHost_inj hh hh' (congrArg Key.host he)

/-- The remote hosts are different. -/
theorem crowdRemote_inj (he : crowdRemote r = crowdRemote r') : r = r' := by
  revert r r'
  decide

end Crowd

/-! ## Reachable tables -/

/-- A table that the only table of a system can become. -/
def Reached (legal : System → Op → Prop) (s₀ : System) (t₀ : Nat) (b : Bindings) (t : Nat) : Prop :=
  ∃ es s t', (System.machine legal).Run s₀ t₀ es s t' ∧ t' ≤ t ∧ s.table 0 = some b

section Reached

variable {legal : System → Op → Prop} {s₀ : System} {t₀ t now : Nat} {b b' : Bindings}

/-- What is reached stays reached as time goes by. -/
theorem Reached.later (h : Reached legal s₀ t₀ b t) (ht : t ≤ now) : Reached legal s₀ t₀ b now := by
  obtain ⟨es, s, t', run, hle, hb⟩ := h
  exact ⟨es, s, t', run, hle.trans ht, hb⟩

/-- A call on a reached table reaches the next one. -/
theorem Reached.call (h : Reached legal s₀ t₀ b t) {c : Call} {a : Answer} (ht : t ≤ now)
    (hc : c.Promised) (hlegal : ∀ s, s.table 0 = some b → legal s (.call 0 now c))
    (hcall : b.call now c = some (a, b')) : Reached legal s₀ t₀ b' now := by
  obtain ⟨es, s, t', run, hle, hb⟩ := h
  let o : Op := .call 0 now c
  refine ⟨_, _, _, .snoc o run (hle.trans ht) ⟨hc, hlegal s hb⟩, Nat.le_refl now, ?_⟩
  show (s.step o).1.table 0 = some b'
  simp only [System.step, o, hb, hcall]
  rw [System.table_set hb, if_pos rfl]

end Reached

namespace Bindings

variable {b b' : Bindings} {now : Nat}

/-- A table in which nothing has run out. -/
theorem expire_of_done (h : b.next.all (fun t => decide (now < t)) = true) :
    b.expire now = some ([], b) := by
  unfold expire
  rw [if_pos h]

/-! ## Steps of the crowd -/

/-- What a connection from a host that is new to the table changes. -/
structure Joined (b : Bindings) (key : Key) (remote : SocketAddrV4) (now : Nat) (b' : Bindings) :
    Prop where
  domain : b'.domain = b.domain
  next : b'.next = soonest b.next (satAdd now Tcp.transitory)
  timeouts : b'.tcpTimeouts = b.tcpTimeouts
  quoteBytes : b'.tcpQuoteBytes = b.tcpQuoteBytes
  sessions : b'.sessions = b.sessions.insert (key, remote)
    ⟨satAdd now Tcp.transitory, some .v6Init, false, []⟩
  bindings : ∀ k, k ≠ key → b'.bindings.get k = b.bindings.get k
  bindingCount : b'.bindings.size = b.bindings.size + 1
  reverse : b'.reverse = b.reverse.insert (6, key.port) key
  hosts : ∀ a, a ≠ key.host → b'.hosts.get a = b.hosts.get a
  hostCount : b'.hosts.size = b.hosts.size + 1
  entries : ∃ v, b'.ports.entries = b.ports.entries.insert (6, key.port) v
  generation : b'.ports.next = b.ports.next + 1
  claims : b'.ports.translationCount = b.ports.translationCount + 1

/-- A SYN from a host that is new to the table, with room for it, opens a connection. Each check of
the call is passed under one of the hypotheses, and the source port is free, so that it is kept. -/
theorem tcpOut_joined (key : Key) (remote : SocketAddrV4) (now : Nat) (rng : Random)
    (hdone : b.next.all (fun t => decide (now < t)) = true) (hproto : key.protocol = 6)
    (hdomain : key.domain = b.domain) (hport : key.port ≠ 0)
    (hbinding : b.bindings.get key = none) (hsession : b.sessions.get (key, remote) = none)
    (hhost : b.hosts.get key.host = none) (hreverse : b.reverse.get (6, key.port) = none)
    (hentry : b.ports.entries.get (6, key.port) = none) (hclaims : b.ports.translationCount < 4096)
    (hnext : b.ports.next < 4096) (hbindings : b.bindings.size < 4096)
    (hsessions : b.sessions.size < 8192) (hcharge : b.chargedBytes + 672 ≤ maxCharge) :
    ∃ b', b.tcpOut key.host key.port remote 2 now rng = some (.ok (some key.port), b') ∧
      b.Joined key remote now b' := by
  obtain ⟨protocol, host, port, domain⟩ := key
  obtain rfl : protocol = 6 := hproto
  obtain rfl : domain = b.domain := hdomain
  have hfree : b.free 6 (fun _ => false) port = true := by
    simp [free, Ports.occupied, OrdMap.contains_eq_false_iff.2 hreverse,
      OrdMap.contains_eq_false_iff.2 hentry]
  have hadmits : b.admits ⟨6, host, port, b.domain⟩ remote = .ok () := by
    unfold admits
    rw [hhost, OrdMap.contains_eq_false_iff.2 hbinding, OrdMap.contains_eq_false_iff.2 hsession,
      OrdMap.contains_eq_false_iff.2 hhost]
    rw [if_neg]
    simp
    omega
  have hclaim : b.ports.claim 6 port .translation =
      .ok (⟨(6, port), b.ports.next + 1⟩, ⟨b.ports.entries.insert (6, port)
        (b.ports.next + 1, .translation), b.ports.localCount, b.ports.translationCount + 1,
          b.ports.next + 1⟩) := by
    unfold Ports.claim
    rw [if_neg (by simpa using hport), if_neg, if_neg]
    · rfl
    · unfold u64Max
      omega
    · rw [OrdMap.contains_eq_false_iff.2 hentry]
      simpa [Ports.count, Ports.limit] using hclaims
  have hassign : b.assign ⟨6, host, port, b.domain⟩ rng (fun _ => false) = .ok (port, { b with
      ports := ⟨b.ports.entries.insert (6, port) (b.ports.next + 1, .translation),
        b.ports.localCount, b.ports.translationCount + 1, b.ports.next + 1⟩
      bindings := b.bindings.insert ⟨6, host, port, b.domain⟩
        ⟨⟨(6, port), b.ports.next + 1⟩, port, 0⟩
      reverse := b.reverse.insert (6, port) ⟨6, host, port, b.domain⟩
      hosts := countBinding b.hosts ⟨6, host, port, b.domain⟩ }) := by
    unfold assign
    simp only [hbinding, allocate]
    rw [if_pos ⟨.inl hport, hfree⟩]
    simp only [bind, Except.bind, hclaim]
    rfl
  have hcount : ∀ a, (countBinding b.hosts ⟨6, host, port, b.domain⟩).get a =
      if host = a then some (1, 0) else b.hosts.get a := by
    intro a
    unfold countBinding
    simp only [hhost, Option.getD_none, OrdMap.get_insert_eq]
  have hsyn : ¬ (b.sessions.contains (⟨6, host, port, b.domain⟩, remote) = false ∧
      (2 : UInt8) &&& 2 = 0) := fun hno => absurd hno.2 (by decide)
  simp only [tcpOut, expire_of_done hdone, Option.bind_eq_bind, Option.bind_some,
    if_neg hsyn, hadmits, hassign, tcpSession, hsession, addSession, OrdMap.get_insert_self,
    hcount, if_true]
  refine ⟨_, rfl, rfl, rfl, rfl, rfl, rfl, fun k hk => ?_, ?_, rfl, fun a ha => ?_,
    ?_, ⟨_, rfl⟩, rfl, rfl⟩
  · simp only [OrdMap.get_insert_eq, if_neg hk.symm]
  · have hkey := OrdMap.get_insert_self b.bindings ⟨6, host, port, b.domain⟩
      (⟨⟨(6, port), b.ports.next + 1⟩, port, 0⟩ : Binding)
    exact (OrdMap.size_insert_of_contains _ (OrdMap.contains_iff.2 ⟨_, hkey⟩)).trans
      (OrdMap.size_insert_of_get_none _ hbinding)
  · simp only [OrdMap.get_insert_eq, if_neg ha.symm, hcount]
  · refine (OrdMap.size_insert_of_contains _ (OrdMap.contains_iff.2 ⟨(1, 0), ?_⟩)).trans
      (OrdMap.size_insert_of_get_none _ hhost)
    rw [hcount, if_pos rfl]

/-- The table after the first hosts of the crowd have opened a connection. -/
structure Crowd (n : Nat) (b : Bindings) : Prop where
  inv : b.Inv
  domain : b.domain = .unspecified
  next : ∀ t, b.next = some t → t = 240000
  timeouts : b.tcpTimeouts = []
  quoteBytes : b.tcpQuoteBytes = 0
  sessions : ∀ m s, b.sessions.get m = some s →
    s = ⟨240000, some .v6Init, false, []⟩ ∧ ∃ h < n, m = (crowdKey h, crowdRemote 0)
  sessionCount : b.sessions.size = n
  reverse : ∀ h < 4096, b.reverse.get (6, crowdPort h) = if h < n then some (crowdKey h) else none
  reverseCount : b.reverse.size = n
  bindings : ∀ h < 4096, n ≤ h → b.bindings.get (crowdKey h) = none
  bindingCount : b.bindings.size = n
  hosts : ∀ h < 4096, n ≤ h → b.hosts.get (crowdHost h) = none
  hostCount : b.hosts.size = n
  entries : ∀ h < 4096, n ≤ h → b.ports.entries.get (6, crowdPort h) = none
  generation : b.ports.next = n
  claims : b.ports.translationCount = n

/-- An empty table holds no crowd. -/
theorem crowd_zero : Crowd 0 (withPorts .default) :=
  ⟨withPorts_inv Ports.default_ok, rfl, fun _ h => (nomatch h), rfl, rfl,
   fun _ _ h => (nomatch h), rfl,
    fun h _ => by rw [if_neg (Nat.not_lt_zero h)]; rfl, rfl, fun _ _ _ => rfl, rfl,
    fun _ _ _ => rfl,
    rfl, fun _ _ _ => rfl, rfl, rfl⟩

/-- The first remote is called by a host of the crowd. -/
def joinCall (h : Nat) : Call :=
  .tcpOut (crowdHost h) (crowdPort h) (crowdRemote 0) 2 fun _ _ => .ok 0

/-- The next host of the crowd joins: it is new to the table, its port is free, and by the counts of
`Crowd` there is room for it. -/
theorem Crowd.join {n : Nat} (h : Crowd n b) (hn : n < 4096) :
    ∃ a b', b.call 0 (joinCall n) = some (a, b') ∧ Crowd (n + 1) b' := by
  have hdone : b.next.all (fun t => decide (0 < t)) = true := by
    cases hnext : b.next with
    | none => rfl
    | some t => simp [h.next t hnext]
  have hfresh : b.sessions.get (crowdKey n, crowdRemote 0) = none := by
    cases hs : b.sessions.get (crowdKey n, crowdRemote 0) with
    | none => rfl
    | some s =>
      obtain ⟨-, k, hk, he⟩ := h.sessions _ s hs
      have := crowdKey_inj hn (by omega) (Prod.mk.inj he).1
      omega
  have hreverse : b.reverse.get (6, (crowdKey n).port) = none := by
    rw [show (crowdKey n).port = crowdPort n from rfl, h.reverse n hn, if_neg (Nat.lt_irrefl n)]
  have hcharge : b.chargedBytes = 672 * n := by
    unfold chargedBytes
    rw [h.bindingCount, h.reverseCount, h.sessionCount, h.hostCount, h.timeouts, h.quoteBytes,
      List.length_nil]
    omega
  obtain ⟨b', hout, hj⟩ := tcpOut_joined (crowdKey n) (crowdRemote 0) 0 (fun _ _ => .ok 0) hdone
    rfl h.domain.symm (crowdPort_ne_zero hn) (h.bindings n hn (Nat.le_refl n)) hfresh
      (h.hosts n hn (Nat.le_refl n)) hreverse (h.entries n hn (Nat.le_refl n))
    (by rw [h.claims]; exact hn) (by rw [h.generation]; exact hn) (by rw [h.bindingCount]; exact hn)
    (by rw [h.sessionCount]; omega) (by rw [hcharge]; unfold maxCharge; omega)
  have hcall : b.call 0 (joinCall n) = some (.external (.ok (some (crowdPort n))), b') := by
    rw [joinCall, call]
    exact congrArg (Option.map _) hout
  obtain ⟨v, hv⟩ := hj.entries
  have hinv := (did_of_call h.inv (c := joinCall n) trivial hcall).inv
  refine ⟨_, b', hcall, hinv, hj.domain.trans h.domain, fun t ht => ?_,
    hj.timeouts.trans h.timeouts, hj.quoteBytes.trans h.quoteBytes, fun m s hs => ?_, ?_,
    fun k hk => ?_, ?_, fun k hk hle => ?_, ?_, fun k hk hle => ?_, ?_, fun k hk hle => ?_, ?_, ?_⟩
  · rw [hj.next, soonest, Option.some.injEq] at ht
    rw [← ht]
    cases hnext : b.next with
    | none => rfl
    | some t => rw [h.next t hnext]; rfl
  · rw [hj.sessions, OrdMap.get_insert_eq] at hs
    split at hs
    · next he => exact ⟨(Option.some.inj hs).symm, n, Nat.lt_succ_self n, he.symm⟩
    · obtain ⟨hs, k, hk, hm⟩ := h.sessions m s hs
      exact ⟨hs, k, by omega, hm⟩
  · rw [hj.sessions, OrdMap.size_insert_of_get_none _ hfresh, h.sessionCount]
  · rw [hj.reverse, OrdMap.get_insert_eq, h.reverse k hk]
    by_cases he : n = k
    · subst he
      rw [if_pos (Nat.lt_succ_self n)]
      exact if_pos rfl
    · have hne : ((6 : UInt8), (crowdKey n).port) ≠ (6, crowdPort k) := fun hx =>
        he (crowdPort_inj hn hk (Prod.mk.inj hx).2)
      rw [if_neg hne]
      simp only [show k < n + 1 ↔ k < n by omega]
  · rw [hj.reverse, OrdMap.size_insert_of_get_none _ hreverse, h.reverseCount]
  · rw [hj.bindings _ fun he => by have := crowdKey_inj hk hn he; omega]
    exact h.bindings k hk (by omega)
  · rw [hj.bindingCount, h.bindingCount]
  · rw [hj.hosts _ fun he => by have := crowdHost_inj hk hn he; omega]
    exact h.hosts k hk (by omega)
  · rw [hj.hostCount, h.hostCount]
  · have hne : ((6 : UInt8), (crowdKey n).port) ≠ (6, crowdPort k) := fun hx => by
      have := crowdPort_inj hn hk (Prod.mk.inj hx).2
      omega
    rw [hv, OrdMap.get_insert_eq, if_neg hne]
    exact h.entries k hk (by omega)
  · rw [hj.generation, h.generation]
  · rw [hj.claims, h.claims]

/-- A full crowd is reached; the induction is on its members, one call for each. -/
theorem reached_crowd {n : Nat} (hn : n ≤ 4096) :
    ∃ b, Reached (fun _ _ => True) (.start 1) 0 b 0 ∧ Crowd n b := by
  induction n with
  | zero => exact ⟨_, ⟨_, _, _, .nil, Nat.le_refl 0, rfl⟩, crowd_zero⟩
  | succ n ih =>
    obtain ⟨b, hreached, hcrowd⟩ := ih (by omega)
    obtain ⟨a, b', hcall, hcrowd'⟩ := hcrowd.join (by omega)
    exact ⟨b', hreached.call (c := joinCall n) (Nat.le_refl 0) trivial (fun _ _ => trivial) hcall,
      hcrowd'⟩

/-! ## Remotes that answer -/

/-- A table with the whole crowd, at a moment at which nothing has run out. -/
structure Crowded (b : Bindings) (now : Nat) : Prop where
  inv : b.Inv
  domain : b.domain = .unspecified
  done : b.next.all (fun t => decide (now < t)) = true
  timeouts : b.tcpTimeouts = []
  reverse : ∀ h < 4096, b.reverse.get (6, crowdPort h) = some (crowdKey h)
  sessions : ∀ m s, b.sessions.get m = some s → ∃ h < 4096, ∃ r, m = (crowdKey h, crowdRemote r)
  bindingCount : b.bindings.size = 4096
  reverseCount : b.reverse.size = 4096
  hostCount : b.hosts.size = 4096

/-- What a crowded table is charged for. -/
theorem Crowded.charge (h : b.Crowded now) :
    b.chargedBytes = 4096 * 416 + b.sessions.size * 256 + b.tcpQuoteBytes := by
  unfold chargedBytes
  rw [h.bindingCount, h.reverseCount, h.hostCount, h.timeouts, List.length_nil]
  omega

/-- A host of the crowd has a session with each remote at most. The sessions of the host are among
those keys, of which there are four. -/
theorem Crowded.load (h : b.Crowded now) {k : Nat} (hk : k < 4096) :
    b.sessions.total (ofHost (crowdHost k)) ≤ 4 := by
  have hcount : (b.sessions.keys.countP fun n => decide (n.1.host = crowdHost k)) =
      b.sessions.total (ofHost (crowdHost k)) :=
    OrdMap.countP_keys b.sessions fun n => n.1.host = crowdHost k
  rw [← hcount, List.countP_eq_length_filter]
  have hsub : (b.sessions.keys.filter fun n => decide (n.1.host = crowdHost k)) ⊆
      (List.finRange 4).map fun r => (crowdKey k, crowdRemote r) := by
    intro m hm
    obtain ⟨hm, hhost⟩ := List.mem_filter.1 hm
    obtain ⟨e, he, rfl⟩ := List.mem_map.1 hm
    obtain ⟨k', hk', r, hr⟩ := h.sessions e.1 e.2 (OrdMap.mem_iff_get.1 he)
    rw [hr] at hhost ⊢
    rw [crowdHost_inj hk' hk (of_decide_eq_true hhost)]
    exact List.mem_map.2 ⟨r, List.mem_finRange r, rfl⟩
  exact (List.subperm_of_subset (b.sessions.keys_nodup.filter _) hsub).length_le.trans (by simp)

/-- What a SYN from a remote that is new to a key changes. -/
structure Answered (b : Bindings) (key : Key) (remote : SocketAddrV4) (now : Nat) (quote : Bytes)
    (b' : Bindings) : Prop where
  domain : b'.domain = key.domain
  next : b'.next = soonest b.next (satAdd now Tcp.transitory)
  timeouts : b'.tcpTimeouts = b.tcpTimeouts
  quoteBytes : b'.tcpQuoteBytes = b.tcpQuoteBytes + quote.length
  reverse : b'.reverse = b.reverse
  sessions : ∀ m, b'.sessions.get m = if m = (key, remote) then
    some ⟨satAdd now Tcp.transitory, some .v4Init, false, quote⟩ else b.sessions.get m
  sessionCount : b'.sessions.size = b.sessions.size + 1
  bindingCount : b'.bindings.size = b.bindings.size
  hostCount : b'.hosts.size = b.hosts.size

/-- A SYN to a port is let in. Nothing is to be expired yet, and the session is admitted under the
key that the port belongs to. -/
theorem tcpIn_answered {key : Key} {port : UInt16} (remote : SocketAddrV4) (h : b.Inv)
    (hdone : b.next.all (fun t => decide (now < t)) = true)
    (hr : b.reverse.get (6, port) = some key) (hs : b.sessions.get (key, remote) = none)
    (hadmits : b.admits key remote = .ok ()) :
    ∃ b', b.tcpIn port remote 2 now = some (.ok (some (key.host, key.port)), b') ∧
      b.Answered key remote now [] b' := by
  obtain ⟨-, l, hl⟩ := place_of_reverse h.counts hr
  obtain ⟨x, hx, -⟩ := place_eq_some.1 hl
  have hhost := (h.counts.host hx).1
  have hsyn : ¬ (b.sessions.contains (key, remote) = false ∧ (2 : UInt8) &&& 2 = 0) :=
    fun hno => absurd hno.2 (by decide)
  simp only [tcpIn, expire_of_done hdone, Option.bind_eq_bind, Option.bind_some, hr, if_neg hsyn,
    hadmits, tcpSession, hs, addSession, hx, hhost]
  refine ⟨_, rfl, rfl, rfl, rfl, rfl, rfl, fun m => ?_, OrdMap.size_insert_of_get_none _ hs,
    OrdMap.size_insert_of_contains _ (OrdMap.contains_iff.2 ⟨x, hx⟩),
    OrdMap.size_insert_of_contains _ (OrdMap.contains_iff.2 ⟨_, hhost⟩)⟩
  simp only [OrdMap.get_insert_eq, eq_comm]
  rfl

/-- A SYN to a port is let in and quoted while there is room for the quote. The call checks the
charge first, opens the session (`tcpIn_answered`), and remembers the SYN in it. -/
theorem tcpInPacket_answered {key : Key} {port : UInt16} {remote : SocketAddrV4} {packet : Bytes}
    (h : b.Inv) (hdone : b.next.all (fun t => decide (now < t)) = true)
    (hr : b.reverse.get (6, port) = some key) (hs : b.sessions.get (key, remote) = none)
    (hadmits : b.admits key remote = .ok ()) (hpacket : packet ≠ [])
    (hcharge : b.chargedBytes + (quoteLength packet + 256) ≤ maxCharge) :
    ∃ b', b.tcpInPacket port remote 2 now packet = some (.ok (some (key.host, key.port)), b') ∧
      b.Answered key remote now (packet.take (quoteLength packet)) b' := by
  obtain ⟨b₁, hin, ha⟩ := tcpIn_answered remote h hdone hr hs hadmits
  have hneeds : b.needsQuote key remote 2 = true := by
    unfold needsQuote
    rw [hs]
    rfl
  have hover : ¬ (b.needsQuote key remote 2 = true ∧ b.chargedBytes + (quoteLength packet +
      if b.sessions.contains (key, remote) then 0 else 256) > maxCharge) := by
    rw [OrdMap.contains_eq_false_iff.2 hs]
    exact fun hno => Nat.not_lt.2 hcharge hno.2
  have hs₁ := ha.sessions (key, remote)
  rw [if_pos rfl] at hs₁
  have hremember : b₁.rememberTcpSyn port remote packet = some { b₁ with
      sessions := b₁.sessions.insert (key, remote)
        ⟨satAdd now Tcp.transitory, some .v4Init, false, packet.take (quoteLength packet)⟩
      tcpQuoteBytes := b₁.tcpQuoteBytes + (packet.take (quoteLength packet)).length } := by
    unfold rememberTcpSyn
    simp only [ha.reverse, hr, hs₁]
    rw [if_pos (by simp), if_neg hpacket]
  simp only [tcpInPacket, expire_of_done hdone, Option.bind_eq_bind, Option.bind_some, hr]
  rw [if_neg fun hno => hpacket hno.2, if_neg hover]
  simp only [hin, Option.bind_some, hneeds, if_true, hremember]
  refine ⟨_, rfl, ha.domain, ha.next, ha.timeouts, ?_, ha.reverse, fun m => ?_, ?_, ha.bindingCount,
    ha.hostCount⟩
  · simp only [ha.quoteBytes, List.length_nil, Nat.add_zero]
  · simp only [OrdMap.get_insert_eq, eq_comm, ha.sessions]
    split <;> rfl
  · exact (OrdMap.size_insert_of_contains _ (OrdMap.contains_iff.2 ⟨_, hs₁⟩)).trans ha.sessionCount

/-- A remote that is new to a host of the crowd is admitted while there is room. The host has four
sessions at most, and the table and the octets have room by hypothesis. -/
theorem Crowded.admits (h : b.Crowded now) {k : Nat} (hk : k < 4096) {remote : SocketAddrV4}
    (hsize : b.sessions.size < 8192) (hcharge : b.chargedBytes + 256 ≤ maxCharge) :
    b.admits (crowdKey k) remote = .ok () := by
  obtain ⟨-, l, hl⟩ := place_of_reverse h.inv.counts (h.reverse k hk)
  obtain ⟨x, hx, -⟩ := place_eq_some.1 hl
  have hhost : b.hosts.contains (crowdKey k).host = true :=
    OrdMap.contains_iff.2 ⟨_, (h.inv.counts.host hx).1⟩
  have hload : b.sessions.total (ofHost (crowdKey k).host) ≤ 4 := h.load hk
  rw [admits_eq_ok h.inv.counts, OrdMap.contains_iff.2 ⟨x, hx⟩, hhost]
  refine ⟨?_, fun hno => Bool.noConfusion hno, fun _ => ⟨hsize, by omega⟩⟩
  simp only [if_true, Nat.zero_add]
  split
  · exact h.inv.capacity.charge
  · exact hcharge

/-- The crowd is still there after a remote has answered one of it: bindings and hosts stay, and the
new session expires later than the present. -/
theorem Crowded.answered (h : b.Crowded now) {k : Nat} (hk : k < 4096) {r : Fin 4} {quote : Bytes}
    (ha : b.Answered (crowdKey k) (crowdRemote r) now quote b') (hinv : b'.Inv)
    (hnow : now < 1000000) :
    b'.Crowded now := by
  refine ⟨hinv, ha.domain, ?_, ha.timeouts.trans h.timeouts, fun j hj => ?_, fun m s hs => ?_,
    ha.bindingCount.trans h.bindingCount, ?_, ha.hostCount.trans h.hostCount⟩
  · have hlater : now < satAdd now Tcp.transitory := by
      unfold satAdd Tcp.transitory u64Max
      omega
    have hdone := h.done
    rw [ha.next, soonest, Option.all_some, decide_eq_true_eq]
    cases hnext : b.next with
    | none =>
      rw [Option.elim_none]
      exact hlater
    | some t =>
      rw [hnext, Option.all_some, decide_eq_true_eq] at hdone
      rw [Option.elim_some]
      exact Nat.lt_min.2 ⟨hdone, hlater⟩
  · rw [ha.reverse]
    exact h.reverse j hj
  · rw [ha.sessions] at hs
    split at hs
    · next he => exact ⟨k, hk, r, he⟩
    · exact h.sessions m s hs
  · rw [ha.reverse]
    exact h.reverseCount

/-- A remote sends a SYN to a host of the crowd. -/
def synCall (r : Fin 4) (h : Nat) : Call := .tcpInPacket (crowdPort h) (crowdRemote r) 2 synPacket

/-- What a remote's SYNs to the first hosts of the crowd change. -/
structure Filled (b : Bindings) (r : Fin 4) (now m : Nat) (b' : Bindings) : Prop where
  crowded : b'.Crowded now
  sessionCount : b'.sessions.size = b.sessions.size + m
  quoteBytes : b'.tcpQuoteBytes = b.tcpQuoteBytes + 60 * m
  kept : ∀ n, n.2 ≠ crowdRemote r → b'.sessions.get n = b.sessions.get n
  added : ∀ h < m, b'.sessions.get (crowdKey h, crowdRemote r) = some ⟨satAdd now Tcp.transitory,
    some .v4Init, false, synPacket.take 60⟩
  only : ∀ n s, n.2 = crowdRemote r → b'.sessions.get n = some s → ∃ h < m, n.1 = crowdKey h

/-- A remote fills the table. By induction on the number of sessions: each SYN goes to the next host
of the crowd, which has no session with this remote yet, and adds 316 octets to the charge. -/
theorem Crowded.fill (h : b.Crowded now) {r : Fin 4} (hnow : now < 1000000)
    (hfresh : ∀ n, n.2 = crowdRemote r → b.sessions.get n = none) {m : Nat} (hm : m ≤ 4096)
    (hsize : b.sessions.size + m ≤ 8192) (hcharge : b.chargedBytes + 316 * m ≤ maxCharge)
    {legal : System → Op → Prop} {s₀ : System} {t₀ : Nat} (hreached : Reached legal s₀ t₀ b now)
    (hlegal : ∀ k < m, ∀ s b', b.Filled r now k b' → s.table 0 = some b' →
      legal s (.call 0 now (synCall r k))) :
    ∃ b', Reached legal s₀ t₀ b' now ∧ b.Filled r now m b' := by
  induction m with
  | zero =>
    refine ⟨b, hreached, h, rfl, rfl, fun _ _ => rfl, fun k hk => absurd hk (Nat.not_lt_zero k),
      fun n s hn hs => ?_⟩
    rw [hfresh n hn] at hs
    cases hs
  | succ m ih =>
    obtain ⟨b₁, hreached₁, hf⟩ := ih (by omega) (by omega) (by omega)
      fun k hk => hlegal k (by omega)
    have hcharge₁ : b₁.chargedBytes = b.chargedBytes + 316 * m := by
      rw [hf.crowded.charge, h.charge, hf.sessionCount, hf.quoteBytes]
      omega
    have hnone : b₁.sessions.get (crowdKey m, crowdRemote r) = none := by
      cases hs : b₁.sessions.get (crowdKey m, crowdRemote r) with
      | none => rfl
      | some s =>
        obtain ⟨k, hk, he⟩ := hf.only _ s rfl hs
        have := crowdKey_inj (by omega) (by omega) he
        omega
    have hroom : b₁.chargedBytes + (60 + 256) ≤ maxCharge := by
      refine Nat.le_trans (Nat.le_of_eq ?_) hcharge
      omega
    have hless : b₁.chargedBytes + 256 ≤ maxCharge :=
      Nat.le_trans (Nat.add_le_add_left (show 256 ≤ 60 + 256 by decide) _) hroom
    have hadmits : b₁.admits (crowdKey m) (crowdRemote r) = .ok () :=
      hf.crowded.admits (by omega) (by rw [hf.sessionCount]; omega) hless
    have hpacket : synPacket ≠ [] := List.cons_ne_nil _ _
    obtain ⟨b₂, hin, ha⟩ := tcpInPacket_answered hf.crowded.inv hf.crowded.done
      (hf.crowded.reverse m (by omega)) hnone hadmits hpacket (quoteLength_synPacket ▸ hroom)
    have hcall : b₁.call now (synCall r m) =
        some (.internal (.ok (some ((crowdKey m).host, (crowdKey m).port))), b₂) := by
      rw [synCall, call, hin]
      rfl
    have hpromised : (synCall r m).Promised := hpacket
    rw [quoteLength_synPacket] at ha
    refine ⟨b₂, hreached₁.call (Nat.le_refl now) hpromised
      (fun s hs => hlegal m (Nat.lt_succ_self m) s b₁ hf hs) hcall,
      hf.crowded.answered (by omega) ha (did_of_call hf.crowded.inv hpromised hcall).inv hnow,
      ?_, ?_,
      fun n hn => ?_, fun k hk => ?_, fun n s hn hs => ?_⟩
    · rw [ha.sessionCount, hf.sessionCount]
      omega
    · rw [ha.quoteBytes, hf.quoteBytes, show (synPacket.take 60).length = 60 from rfl]
      omega
    · have hne : n ≠ (crowdKey m, crowdRemote r) := fun he => hn (by rw [he])
      rw [ha.sessions, if_neg hne]
      exact hf.kept n hn
    · rw [ha.sessions]
      split
      · rfl
      · next hne =>
        refine hf.added k (Nat.lt_of_le_of_ne (by omega) fun he => hne ?_)
        rw [he]
    · rw [ha.sessions] at hs
      split at hs
      · next he => exact ⟨m, Nat.lt_succ_self m, by rw [he]⟩
      · obtain ⟨k, hk, he⟩ := hf.only n s hn hs
        exact ⟨k, by omega, he⟩

/-! ## The first connections run out -/

/-- Tables that hold the same ports are of the same size, sessions apart. Each binding, each port
and each host of the one is found in the other. -/
theorem sizes_le (h : b.Inv) (h' : b'.Inv) (hp : ∀ k q, b.place k = some q → b'.place k = some q) :
    b.bindings.size ≤ b'.bindings.size ∧ b.reverse.size ≤ b'.reverse.size ∧
      b.hosts.size ≤ b'.hosts.size := by
  have hbinding : ∀ k x, b.bindings.get k = some x → ∃ x', b'.bindings.get k = some x' := by
    intro k x hk
    obtain ⟨x', hx', -⟩ := place_eq_some.1 (hp k _ (place_eq_some.2 ⟨x, hk, rfl⟩))
    exact ⟨x', hx'⟩
  refine ⟨OrdMap.size_le_of_get hbinding, OrdMap.size_le_of_get fun x k hx => ?_,
    OrdMap.size_le_of_get fun a v ha => ?_⟩
  · obtain ⟨q, hq, he⟩ := (h.counts.placed.reverse x k).1 hx
    exact ⟨k, (h'.counts.placed.reverse x k).2 ⟨q, hp k q hq, he⟩⟩
  · rw [h.counts.hosts, hostEntry] at ha
    split at ha
    · cases ha
    · next hne =>
      obtain ⟨k, x, hk, hw⟩ := OrdMap.total_pos.1 (Nat.pos_of_ne_zero hne)
      obtain ⟨x', hx'⟩ := hbinding k x hk
      have hhost : k.host = a := by
        by_contra hh
        simp [bindingOf, hh] at hw
      exact ⟨_, hhost ▸ (h'.counts.host hx').1⟩

/-- The table in the middle of the run: every host of the crowd has a session with the second
remote, and its first session is about to run out. -/
structure Halfway (b : Bindings) : Prop where
  crowded : b.Crowded 1
  first : ∀ n s, n.2 ≠ crowdRemote 1 → b.sessions.get n = some s →
    s = ⟨240000, some .v6Init, false, []⟩
  second : ∀ h < 4096, b.sessions.get (crowdKey h, crowdRemote 1) =
    some ⟨240001, some .v4Init, false, synPacket.take 60⟩

/-- The table in the middle of the run is reached: the crowd is called by the second remote, once
each. -/
theorem reached_halfway : ∃ b, Reached (fun _ _ => True) (.start 1) 0 b 1 ∧ b.Halfway := by
  obtain ⟨b, hreached, h⟩ := reached_crowd (Nat.le_refl 4096)
  have hcrowded : b.Crowded 1 := by
    refine ⟨h.inv, h.domain, ?_, h.timeouts, fun k hk => ?_, fun m s hs => ?_, h.bindingCount,
      h.reverseCount, h.hostCount⟩
    · cases hnext : b.next with
      | none => rfl
      | some t => simp [h.next t hnext]
    · rw [h.reverse k hk, if_pos hk]
    · obtain ⟨-, k, hk, he⟩ := h.sessions m s hs
      exact ⟨k, hk, 0, he⟩
  have hfresh : ∀ n : SessionKey, n.2 = crowdRemote 1 → b.sessions.get n = none := by
    intro n hn
    cases hs : b.sessions.get n with
    | none => rfl
    | some s =>
      obtain ⟨-, k, -, he⟩ := h.sessions n s hs
      rw [he] at hn
      exact absurd (crowdRemote_inj hn) (by decide)
  obtain ⟨b', hreached', hf⟩ := hcrowded.fill (r := 1) (by omega) hfresh (Nat.le_refl 4096)
    (by rw [h.sessionCount]) (by rw [hcrowded.charge, h.sessionCount, h.quoteBytes]; decide)
    (hreached.later (Nat.zero_le 1)) fun _ _ _ _ _ _ => trivial
  refine ⟨b', hreached', hf.crowded, fun n s hn hs => ?_, hf.added⟩
  rw [hf.kept n hn] at hs
  exact (h.sessions n s hs).1

section Halfway

variable {b₁ : Bindings}

/-- When the first sessions run out, those with the second remote are all that is left. The sessions
with the other remotes end before that moment, and those with the second one a little after it. -/
theorem Halfway.sessions (h : b.Halfway) (he : b.Expired 240000 b₁) (n : SessionKey) (s : Session) :
    b₁.sessions.get n = some s ↔ s = ⟨240001, some .v4Init, false, synPacket.take 60⟩ ∧
      ∃ k < 4096, n = (crowdKey k, crowdRemote 1) := by
  rw [he.sessions]
  constructor
  · intro hs
    obtain ⟨hs, hlt⟩ := Option.filter_eq_some_iff.1 hs
    obtain ⟨s₀, hs₀, rfl⟩ := Option.map_eq_some_iff.1 hs
    obtain ⟨k, hk, r, rfl⟩ := h.crowded.sessions n s₀ hs₀
    by_cases hr : crowdRemote r = crowdRemote 1
    · rw [hr] at hs₀ ⊢
      have := (h.second k hk).symm.trans hs₀
      obtain rfl := Option.some.inj this
      exact ⟨rfl, k, hk, rfl⟩
    · rw [h.first _ s₀ hr hs₀] at hlt
      exact absurd hlt (by decide)
  · rintro ⟨rfl, k, hk, rfl⟩
    rw [h.second k hk]
    rfl

/-- The bindings of the crowd survive the expiry. -/
theorem Halfway.place (h : b.Halfway) (he : b.Expired 240000 b₁) {k : Key} {q : UInt16 × Lease}
    (hk : b.place k = some q) : b₁.place k = some q := by
  refine he.reduced.kept k q hk ?_
  obtain ⟨n, s, hn, hw⟩ := OrdMap.total_pos.1 (h.crowded.inv.bound k q hk)
  obtain ⟨j, hj, r, rfl⟩ := h.crowded.sessions n s hn
  have hkey : crowdKey j = k := ofKey_pos.1 hw
  exact OrdMap.total_pos.2 ⟨(crowdKey j, crowdRemote 1), _,
    (h.sessions he _ _).2 ⟨rfl, j, hj, rfl⟩, ofKey_pos.2 hkey⟩

/-- The table after that, with its queue drained. The ports are those of before, so the sizes agree
in both directions (`sizes_le`). -/
theorem Halfway.drained (h : b.Halfway) (he : b.Expired 240000 b₁) :
    (b₁.takeTcpTimeouts 32).2.Crowded 240000 := by
  have hq := takeTcpTimeouts_spec he.inv 32
  obtain ⟨h₁, h₂, h₃⟩ := sizes_le h.crowded.inv he.inv fun k q => h.place he
  obtain ⟨h₄, h₅, h₆⟩ := sizes_le he.inv h.crowded.inv he.reduced.placed
  refine ⟨hq.inv, he.domain.trans h.crowded.domain, he.done, ?_, fun k hk => ?_, fun n s hn => ?_,
    (h₄.antisymm h₁).trans h.crowded.bindingCount, (h₅.antisymm h₂).trans h.crowded.reverseCount,
    (h₆.antisymm h₃).trans h.crowded.hostCount⟩
  · have := he.inv.capacity.timeouts
    refine List.drop_eq_nil_of_le ?_
    omega
  · obtain ⟨q, hq, hx⟩ := (h.crowded.inv.counts.placed.reverse _ _).1 (h.crowded.reverse k hk)
    exact (he.inv.counts.placed.reverse _ _).2 ⟨q, h.place he hq, hx⟩
  · obtain ⟨-, k, hk, hn⟩ := (h.sessions he n s).1 hn
    exact ⟨k, hk, 1, hn⟩

/-- One session of each host survives the expiry. The keys of the sessions that are left are those
with the second remote, one for each host. -/
theorem Halfway.sessionCount (h : b.Halfway) (he : b.Expired 240000 b₁) :
    b₁.sessions.size = 4096 := by
  have hnodup : ((List.range 4096).map fun k => (crowdKey k, crowdRemote 1)).Nodup := by
    refine List.pairwise_map.2 (List.nodup_range.imp_of_mem fun hj hk hne hjk => hne ?_)
    exact crowdKey_inj (List.mem_range.1 hj) (List.mem_range.1 hk) (Prod.mk.inj hjk).1
  rw [OrdMap.size_eq_length hnodup fun n => ?_, List.length_map, List.length_range]
  rw [List.mem_map]
  constructor
  · rintro ⟨s, hs⟩
    obtain ⟨-, k, hk, rfl⟩ := (h.sessions he n s).1 hs
    exact ⟨k, List.mem_range.2 hk, rfl⟩
  · rintro ⟨k, hk, rfl⟩
    exact ⟨_, (h.sessions he _ _).2 ⟨rfl, k, List.mem_range.1 hk, rfl⟩⟩

/-- The quotes of the second remote survive the expiry. -/
theorem Halfway.quoteBytes (h : b.Halfway) (he : b.Expired 240000 b₁) :
    b₁.tcpQuoteBytes = 60 * 4096 := by
  rw [he.inv.counts.quoteBytes, ← h.sessionCount he]
  refine OrdMap.total_const fun e hmem => ?_
  rw [((h.sessions he e.1 e.2).1 (OrdMap.mem_iff_get.1 hmem)).1]
  rfl

end Halfway

end Bindings

/-- The table when the first connections have run out. -/
structure Thinned (b : Bindings) : Prop where
  crowded : b.Crowded 240000
  sessionCount : b.sessions.size = 4096
  quoteBytes : b.tcpQuoteBytes = 60 * 4096
  only : ∀ n s, b.sessions.get n = some s → n.2 = crowdRemote 1

/-- The table is reached when the first connections have run out: the run to the table before is
continued with an expiry and a drained queue. -/
theorem reached_thinned : ∃ b, Reached (fun _ _ => True) (.start 1) 0 b 240000 ∧ Thinned b := by
  obtain ⟨b, hreached, h⟩ := Bindings.reached_halfway
  obtain ⟨released, b₁, hexp, he⟩ := h.crowded.inv.expire 240000
  have hexpire : b.call 240000 .expire = some (.released released, b₁) := by
    rw [Bindings.call, hexp]
    rfl
  have hreached₁ := hreached.call (c := .expire) (show 1 ≤ 240000 by decide) trivial
    (fun _ _ => trivial) hexpire
  have hreached₂ := hreached₁.call (c := .takeTcpTimeouts 32) (Nat.le_refl 240000) trivial
    (fun _ _ => trivial) rfl
  have hsize := h.sessionCount he
  have hquote := h.quoteBytes he
  refine ⟨_, hreached₂, h.drained he, hsize, hquote, fun n s hs => ?_⟩
  obtain ⟨-, k, -, rfl⟩ := (h.sessions he n s).1 hs
  rfl

/-- A session of the crowd with a remote that sends its SYN without a packet. -/
def bareSession : SessionKey := (crowdKey 0, crowdRemote 3)

/-- The session as it starts. -/
def bareStart : Session := ⟨480000, some .v4Init, false, []⟩

/-- The table with that session, before the last remote fills it. -/
structure Bare (b : Bindings) : Prop where
  crowded : b.Crowded 240000
  sessionCount : b.sessions.size = 4097
  quoteBytes : b.tcpQuoteBytes = 60 * 4096
  session : b.sessions.get bareSession = some bareStart
  fresh : ∀ n : SessionKey, n.2 = crowdRemote 2 → b.sessions.get n = none

/-- The table with the session that has no quote is reached: there is room for the session itself,
but not for its quote, so that the internal call opens the session without one. -/
theorem reached_bare : ∃ b, Reached (fun _ _ => True) (.start 1) 0 b 240000 ∧ Bare b := by
  obtain ⟨b, hreached, h⟩ := reached_thinned
  have hfresh : ∀ (r : Fin 4) (n : SessionKey), r ≠ 1 → n.2 = crowdRemote r →
      b.sessions.get n = none := by
    intro r n hr hn
    cases hs : b.sessions.get n with
    | none => rfl
    | some s => exact absurd (crowdRemote_inj (hn.symm.trans (h.only n s hs))) hr
  have hroom : b.chargedBytes + 256 ≤ maxCharge := by
    rw [h.crowded.charge, h.sessionCount, h.quoteBytes]
    decide
  have hadmits : b.admits (crowdKey 0) (crowdRemote 3) = .ok () :=
    h.crowded.admits (by decide) (by rw [h.sessionCount]; decide) hroom
  obtain ⟨b', hin, ha⟩ := Bindings.tcpIn_answered (crowdRemote 3) h.crowded.inv h.crowded.done
    (h.crowded.reverse 0 (by decide)) (hfresh 3 _ (by decide) rfl) hadmits
  have hcall : b.call 240000 (.tcpIn (crowdPort 0) (crowdRemote 3) 2) =
      some (.internal (.ok (some ((crowdKey 0).host, (crowdKey 0).port))), b') := by
    rw [Bindings.call, hin]
    rfl
  have hinv := (Bindings.did_of_call h.crowded.inv
    (c := .tcpIn (crowdPort 0) (crowdRemote 3) 2) trivial hcall).inv
  refine ⟨b', hreached.call (c := .tcpIn (crowdPort 0) (crowdRemote 3) 2) (Nat.le_refl 240000)
    trivial (fun _ _ => trivial) hcall, h.crowded.answered (by decide) ha hinv (by decide),
      ?_, ?_, ?_,
    fun n hn => ?_⟩
  · rw [ha.sessionCount, h.sessionCount]
  · rw [ha.quoteBytes, h.quoteBytes, List.length_nil]
  · rw [bareSession, ha.sessions, if_pos rfl]
    rfl
  · have hne : n ≠ (crowdKey 0, crowdRemote 3) := by
      rintro rfl
      exact absurd (crowdRemote_inj hn) (by decide)
    rw [ha.sessions, if_neg hne]
    exact hfresh 2 n (by decide) hn

/-- A SYN of a session that has kept no head is refused where the head does not fit. The session is
found, and the charge is tested before the head is kept. -/
theorem Bindings.tcpInPacket_refused {b : Bindings} {key : Key} {port : UInt16}
    {remote : SocketAddrV4} {packet : Bytes} {now : Nat} {x : Session}
    (hdone : b.next.all (fun t => decide (now < t)) = true)
    (hr : b.reverse.get (6, port) = some key) (hs : b.sessions.get (key, remote) = some x)
    (hx : x.tcp = some .v4Init ∧ x.synQuote = []) (hpacket : packet ≠ [])
    (hcharge : maxCharge < b.chargedBytes + quoteLength packet) :
    b.tcpInPacket port remote 2 now packet = some (.error full, b) := by
  have hneeds : b.needsQuote key remote 2 = true := by
    unfold needsQuote
    rw [hs, Option.all_some, decide_eq_true hx]
    rfl
  simp only [tcpInPacket, expire_of_done hdone, Option.bind_eq_bind, Option.bind_some, hr]
  rw [if_neg fun hno => hpacket hno.2, if_pos]
  · rfl
  · rw [OrdMap.contains_iff.2 ⟨x, hs⟩]
    exact ⟨hneeds, hcharge⟩

/-- A table without room for another head of a SYN is reachable: a live session that has kept none
is refused its SYN. -/
theorem refused_syn : ∃ es s₁ t₁ es' s t now n p b x c,
    (System.machine fun _ _ => True).Run (.start 1) 0 es s₁ t₁ ∧
    (∃ b₁, s₁.table 0 = some b₁ ∧ b₁.reverse.get (n.1.protocol, p) = some n.1 ∧
      b₁.sessions.get n = some x) ∧
    (System.machine (System.Spares 0 n)).Run s₁ t₁ es' s t ∧ t ≤ now ∧ s.table 0 = some b ∧
    b.sessions.get n = some x ∧ x.live now ∧ c.Promised ∧ c.inboundTo (n.1.protocol, p) n.2 ∧
    b.call now c = some (.internal (.error full), b) := by
  obtain ⟨b₁, ⟨es, s₁, t₁, run, ht₁, hb₁⟩, h⟩ := reached_bare
  have hlive : bareStart.live 240000 := .inl (by decide)
  have hbare : ∀ {k b}, b₁.Filled 2 240000 k b → b.sessions.get bareSession = some bareStart := by
    intro k b hf
    rw [hf.kept bareSession fun he => absurd (crowdRemote_inj he) (by decide)]
    exact h.session
  have hcharge₁ : b₁.chargedBytes = 2998528 := by
    rw [h.crowded.charge, h.sessionCount, h.quoteBytes]
  have hreached₁ : Reached (System.Spares 0 bareSession) s₁ t₁ b₁ 240000 :=
    ⟨[], s₁, t₁, .nil, ht₁, hb₁⟩
  obtain ⟨b, ⟨es', s, t, run', ht, hb⟩, hf⟩ := h.crowded.fill (by decide) h.fresh
    (show 3784 ≤ 4096 by decide) (by rw [h.sessionCount]; decide)
    (by rw [hcharge₁]; decide) hreached₁
    fun k _ s b hf hb => by
      refine ⟨fun b' x hb' hx => ?_, fun now c hc => ?_⟩
      · obtain rfl : b = b' := Option.some.inj (hb.symm.trans hb')
        obtain rfl : bareStart = x := Option.some.inj ((hbare hf).symm.trans hx)
        exact hlive
      · cases hc
        exact id
  have hcharge : b.chargedBytes = 4194272 := by
    rw [hf.crowded.charge, hf.sessionCount, hf.quoteBytes, h.sessionCount, h.quoteBytes]
  have hpacket : synPacket ≠ [] := List.cons_ne_nil _ _
  have hover : maxCharge < b.chargedBytes + quoteLength synPacket := by
    rw [hcharge, quoteLength_synPacket]
    decide
  have hrefused := Bindings.tcpInPacket_refused hf.crowded.done (hf.crowded.reverse 0 (by decide))
    (hbare hf) ⟨rfl, rfl⟩ hpacket hover
  refine ⟨es, s₁, t₁, es', s, t, 240000, bareSession, crowdPort 0, b, bareStart,
    Bindings.synCall 3 0, run,
    ⟨b₁, hb₁, h.crowded.reverse 0 (by decide), h.session⟩, run', ht, hb, hbare hf, hlive,
    hpacket, ⟨rfl, rfl⟩, ?_⟩
  rw [Bindings.synCall, Bindings.call, hrefused]
  rfl

end SnacMachine.Nat64
