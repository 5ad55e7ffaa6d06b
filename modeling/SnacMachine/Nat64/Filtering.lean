import SnacMachine.Nat64.Stability

/-!
# Inbound filtering

What an inbound packet that is let through proves about the past of its table. Every session without
TCP state goes back to an outbound call of its key to its address, over a chain of accepted calls
each made before the deadline that the one before it had set (`System.Chain`); that is the invariant
behind `filtering`.
-/

namespace SnacMachine.Nat64

namespace Bindings

variable {b b₁ b' : Bindings} {now : Nat} {c : Call} {a : Answer} {n : SessionKey} {x : Session}
  {p : UInt16} {l : Lease}

/-- Where a session comes from: it was there, or the call has entered it. -/
def Origin (b : Bindings) (now : Nat) (c : Call) (a : Answer) (b' : Bindings) (n : SessionKey)
    (x : Session) (p : UInt16) : Prop :=
  (∃ y l, b.sessions.get n = some y ∧ y.expires = x.expires ∧ b.place n.1 = some (p, l) ∧
      ¬ c.drops n.1.domain) ∨
    (x.expires = satAdd now (b.lifetime n.1) ∧ c.Accepts n.1 n.2.ip p b b' a ∧
      (c.outbound ∨ ∃ r y l, b.sessions.get (n.1, r) = some y ∧ r.ip = n.2.ip ∧ now < y.expires ∧
        b.place n.1 = some (p, l)))

/-- A session without TCP state that has not run out is as it was. An expiry changes only sessions
that are established. -/
theorem Expired.plain (he : b.Expired now b₁) (h : b.Inv) (hn : b₁.sessions.get n = some x)
    (hproto : n.1.protocol ≠ 6) : b.sessions.get n = some x ∧ now < x.expires := by
  rw [he.sessions] at hn
  obtain ⟨hn, hlt⟩ := Option.filter_eq_some_iff.1 hn
  obtain ⟨y, hy, rfl⟩ := Option.map_eq_some_iff.1 hn
  have hnone : y.tcp ≠ some .established := by
    intro hs
    exact hproto ((h.counts.sessions n y hy).tcp.1 (by rw [hs]; rfl))
  have hsame : y.relax now = y := by
    unfold Session.relax
    rw [if_neg fun hr => hnone hr.2]
  rw [hsame] at hlt ⊢
  exact ⟨hy, of_decide_eq_true hlt⟩

/-- A session that survives the expiry of a call that drops nothing has its origin in the table
before. -/
theorem Expired.origin (he : b.Expired now b₁) (h : b.Inv) (hn : b₁.sessions.get n = some x)
    (hproto : n.1.protocol ≠ 6) (hp : b₁.place n.1 = some (p, l)) (hdrops : ¬ c.drops n.1.domain) :
    b.Origin now c a b' n x p :=
  .inl ⟨x, l, (he.plain h hn hproto).1, rfl, he.reduced.placed _ _ hp, hdrops⟩

/-- A session that an entry has left alone keeps its place. -/
theorem Opened.placed_of_session {key : Key} {remote : SocketAddrV4} {port : UInt16} {s : Session}
    (ho : b₁.Opened key remote port s b') (h : b₁.Inv) (hn : b₁.sessions.get n = some x)
    (hp : b'.place n.1 = some (p, l)) : b₁.place n.1 = some (p, l) := by
  obtain ⟨q, hq⟩ := h.counts.owned n x hn
  rcases ho.placed _ _ hp with hp | ⟨he, hnone⟩
  · exact hp
  · rw [he, hnone] at hq
    cases hq

/-- Every session without TCP state was there before a call or has been entered by it. One case for
each way a call ends: quiet calls and expiry keep or drop sessions, and a call that opens one has
been let in under the filter of the remote address. -/
theorem Did.origin (hd : b.Did now c a b') (h : b.Inv)
    (hfilter : b.udpFiltering = .addressDependent) (hn : b'.sessions.get n = some x)
    (hproto : n.1.protocol ≠ 6) (hp : b'.place n.1 = some (p, l)) :
    b.Origin now c a b' n x p := by
  cases hd with
  | quiet hq hdrops _ =>
    have hsame := hq.sessions n
    rw [hn, Option.map_some] at hsame
    obtain ⟨y, hy, hcore⟩ := Option.map_eq_some_iff.1 hsame.symm
    have hexpires : (core y).expires = (core x).expires := congrArg Session.expires hcore
    exact .inl ⟨y, l, hy, hexpires, (hq.place n.1).symm.trans hp, hdrops _⟩
  | expired he hdrops => exact he.origin h hn hproto hp (hdrops _)
  | dropped hred _ hsessions =>
    obtain ⟨hn, hdrops⟩ := (hsessions n x).1 hn
    exact .inl ⟨x, l, hn, rfl, hred.placed _ _ hp, hdrops⟩
  | opened he ho hdrops hbinds hplain =>
    next b₁ key remote port s =>
    have hn' := hn
    rw [ho.sessions] at hn'
    split at hn'
    · next hkey =>
      subst hkey
      obtain rfl := Option.some.inj hn'
      obtain ⟨l', hl'⟩ := ho.place
      obtain ⟨rfl, -⟩ := Prod.mk.inj (Option.some.inj (hl'.symm.trans hp))
      obtain ⟨hexpires, haccepts, hout | hknown⟩ := hplain hproto
      · exact .inr ⟨hexpires, haccepts, .inl hout⟩
      · obtain ⟨r, y, hy, hip⟩ := hknown hfilter
        obtain ⟨hy', hlt⟩ := he.plain h hy hproto
        have hplace := he.reduced.placed _ _ (ho.placed_of_session he.inv hy hp)
        exact .inr ⟨hexpires, haccepts, .inr ⟨r, y, l, hy', hip, hlt, hplace⟩⟩
    · exact he.origin h hn' hproto (ho.placed_of_session he.inv hn' hp) (hdrops _)

/-- The filter changes with its own call only. By the cases of what a call does, most of which only
remove sessions. -/
theorem Did.keepsFilter (hd : b.Did now c a b') (hfilter : b.udpFiltering = .addressDependent)
    (hset : ∀ f, c = .setUdpFiltering f → f = .addressDependent) :
    b'.udpFiltering = .addressDependent := by
  have hreduced : ∀ {b'}, b.Reduced b' → b'.udpFiltering = .addressDependent := fun hred =>
    (congrArg (fun x => x.2.1) hred.settings).trans hfilter
  cases hd with
  | quiet _ _ hf =>
    rcases hf with hf | hf
    · exact hf.trans hfilter
    · exact hset _ hf
  | expired he _ => exact hreduced he.reduced
  | dropped hred _ _ => exact hreduced hred
  | opened he ho _ _ _ => exact (congrArg (fun x => x.1) ho.timers).trans (hreduced he.reduced)

/-- Only outbound calls give keys bindings, and only SYNs among segments. -/
theorem Did.binds (hd : b.Did now c a b') {k : Key} {q : UInt16 × Lease}
    (hk : b'.place k = some q) : b.place k = some q ∨ b.Binds k c := by
  cases hd with
  | quiet hq _ _ => exact .inl ((hq.place k).symm.trans hk)
  | expired he _ => exact .inl (he.reduced.placed k q hk)
  | dropped hred _ _ => exact .inl (hred.placed k q hk)
  | opened he ho _ hbinds _ =>
    rcases ho.placed k q hk with hk | ⟨rfl, hnone⟩
    · exact .inl (he.reduced.placed k q hk)
    · exact .inr (hbinds hnone)

end Bindings

namespace System

/-- The system after some events. -/
def after (s : System) (es : List (Op × Answer)) : System := es.foldl (fun s e => (s.step e.1).1) s

/-- A chain of accepted calls for a key with an address, in the events of a table from a first state
on, and the deadline it has come to: it starts with an outbound call that got the port, every
further call was made before the deadline of the one before it, and the domain has not been given up
since. -/
inductive Chain (s₀ : System) (i : Nat) (key : Key) (ip : Ipv4Addr) (p : UInt16) :
    List (Op × Answer) → Nat → Prop
  | first {es : List (Op × Answer)} {now : Nat} {c : Call} {a : Answer} {b b' : Bindings}
      (table : (s₀.after es).table i = some b) (call : b.call now c = some (a, b'))
      (outbound : c.outbound) (accepts : c.Accepts key ip p b b' a) :
      Chain s₀ i key ip p (es ++ [(.call i now c, a)]) (satAdd now (b.lifetime key))
  | next {es : List (Op × Answer)} {expires now : Nat} {c : Call} {a : Answer} {b b' : Bindings}
      (chain : Chain s₀ i key ip p es expires) (before : now < expires)
      (table : (s₀.after es).table i = some b) (call : b.call now c = some (a, b'))
      (accepts : c.Accepts key ip p b b' a) :
      Chain s₀ i key ip p (es ++ [(.call i now c, a)]) (satAdd now (b.lifetime key))
  | skip {es : List (Op × Answer)} {expires : Nat} {o : Op} {a : Answer}
      (chain : Chain s₀ i key ip p es expires)
      (keeps : ∀ now c, o = .call i now c → ¬ c.drops key.domain) :
      Chain s₀ i key ip p (es ++ [(o, a)]) expires

/-- Every session without TCP state of a table goes back to a chain. -/
def Sourced (s₀ : System) (i : Nat) (es : List (Op × Answer)) (b : Bindings) : Prop :=
  ∀ n x p l, b.sessions.get n = some x → n.1.protocol ≠ 6 → b.place n.1 = some (p, l) →
    Chain s₀ i n.1 n.2.ip p es x.expires

variable {s s₀ : System} {i : Nat} {es : List (Op × Answer)} {b b' : Bindings}

/-- The state after one more operation. -/
theorem after_snoc (es : List (Op × Answer)) (e : Op × Answer) :
    s₀.after (es ++ [e]) = ((s₀.after es).step e.1).1 := List.foldl_concat ..

/-- An operation on another table keeps the sources of the sessions. -/
theorem Sourced.skip (h : Sourced s₀ i es b) {o : Op} {a : Answer}
    (ho : ∀ now c, o ≠ .call i now c) :
    Sourced s₀ i (es ++ [(o, a)]) b := fun n x p l hn hproto hp =>
  .skip (h n x p l hn hproto hp) fun now c he => absurd he (ho now c)

/-- The ports in use are no part of what the sessions have their sources in. -/
theorem Sourced.setPorts (h : Sourced s₀ i es b) (ports : Ports) :
    Sourced s₀ i es { b with ports } := h

/-- A call on the table adds to its chains. A session that is new begins one, or is added to the
chain of its binding; the others are kept. -/
theorem Sourced.call (h : Sourced s₀ i es b) {now : Nat} {c : Call} {a : Answer}
    (hb : (s₀.after es).table i = some b) (hinv : b.Inv)
    (hfilter : b.udpFiltering = .addressDependent) (hcall : b.call now c = some (a, b'))
    (hdid : b.Did now c a b') : Sourced s₀ i (es ++ [(.call i now c, a)]) b' := by
  intro n x p l hn hproto hp
  rcases hdid.origin hinv hfilter hn hproto hp with ⟨y, l', hy, he, hl', hkeeps⟩ |
    ⟨he, haccepts, hout | ⟨r, y, l', hy, hip, hlt, hl'⟩⟩
  · rw [← he]
    refine .skip (h n y p l' hy hproto hl') fun now' c' hc => ?_
    cases hc
    exact hkeeps
  · rw [he]
    exact .first hb hcall hout haccepts
  · rw [he]
    refine .next ?_ hlt hb hcall haccepts
    rw [← hip]
    exact h (n.1, r) y p l' hy hproto hl'

/-- No table is told to filter less. -/
def AddressDependent (_ : System) (o : Op) : Prop :=
  ∀ j now f, o = .call j now (.setUdpFiltering f) → f = .addressDependent

/-- In every run with the filter in place, every session goes back to a chain. By induction on the
run: a session after a step was there before, or was entered by this step from one that was
there. -/
theorem run_sourced {m t₀ t : Nat} (run : (machine AddressDependent).Run (.start m) t₀ es s t)
    (hb : s.table i = some b) :
    b.udpFiltering = .addressDependent ∧ Sourced (.start m) i es b := by
  suffices h : s = (start m).after es ∧ s.Ok ∧ ∀ b, s.table i = some b →
      b.udpFiltering = .addressDependent ∧ Sourced (.start m) i es b from h.2.2 b hb
  refine run.history (I := fun es s _ => s = (start m).after es ∧ s.Ok ∧ ∀ b, s.table i = some b →
    b.udpFiltering = .addressDependent ∧ Sourced (.start m) i es b) ⟨rfl, start_ok m,
      fun b hb => ?_⟩
    fun es s t o _ ih _ hl => ?_
  · obtain ⟨b₀, hb₀, rfl⟩ := Option.map_eq_some_iff.1 hb
    rw [List.eq_of_mem_replicate (List.mem_of_getElem? hb₀)]
    exact ⟨rfl, fun n x p l hn => nomatch hn⟩
  · obtain ⟨hs, hok, hsourced⟩ := ih
    refine ⟨?_, (hok.step o hl.1).1, fun b' hb' => ?_⟩
    · rw [after_snoc, ← hs]
      rfl
    cases hb : s.table i with
    | none =>
      exact absurd ((step_table_none o hb).symm.trans hb') (by simp)
    | some b =>
      obtain ⟨hf, hsrc⟩ := hsourced b hb
      obtain ⟨b₁, hb₁, hends⟩ := hok.step_table hl.1 hb
      obtain rfl : b₁ = b' := Option.some.inj (hb₁.symm.trans hb')
      rcases hends with ⟨he, ho⟩ | ⟨now, c, a, rfl, hcall, ha, hdid⟩
      · rw [he]
        exact ⟨hf, (hsrc.skip ho).setPorts _⟩
      · refine ⟨hdid.keepsFilter hf fun f hc => hl.2 i now f (by rw [hc]), ?_⟩
        subst ha
        exact hsrc.call (hs ▸ hb) (hok.tables i b hb) hf hcall hdid

/-! ## Calls that only look -/

/-- Calls for the errors of others, which look a session up. -/
def looks : Op → Bool
  | .call _ _ (.errorIn ..) => true
  | .call _ _ (.errorOut ..) => true
  | _ => false

/-- The answers of a sequence of operations. -/
def answers (s : System) : List Op → List (Op × Answer)
  | [] => []
  | o :: os => (o, (s.step o).2) :: answers (s.step o).1 os

/-- Systems that answer alike: the same registry and the same tables over it. -/
structure Alike (s s' : System) : Prop where
  ports : s.ports = s'.ports
  leases : s.leases = s'.leases
  tables : ∀ i, s.table i = s'.table i

/-- Setting the ports in use sets them in every table. -/
theorem table_setPorts (s : System) (ports : Ports) (leases : List Lease) (i : Nat) :
    ({ s with ports, leases } : System).table i = (s.table i).map fun b => { b with ports } := by
  unfold table
  cases s.tables[i]? <;> rfl

/-- Systems that are alike stay so with the same ports in use. -/
theorem Alike.setPorts {s' : System} (h : Alike s s') (ports : Ports) (leases : List Lease) :
    Alike { s with ports, leases } { s' with ports, leases } := by
  refine ⟨rfl, rfl, fun i => ?_⟩
  exact (table_setPorts s ports leases i).trans
    ((congrArg (Option.map _) (h.tables i)).trans (table_setPorts s' ports leases i).symm)

/-- Systems that are alike answer alike and stay alike. One case for each operation; all that a step
reads of the system is the same in both. -/
theorem Alike.step {s' : System} (h : Alike s s') (o : Op) :
    (s.step o).2 = (s'.step o).2 ∧ Alike (s.step o).1 (s'.step o).1 := by
  cases o with
  | call i now c =>
    have hi := h.tables i
    cases hb : s.table i with
    | none =>
      simp only [System.step, hb, hi ▸ hb]
      exact ⟨trivial, h⟩
    | some b =>
      have hb' := hi ▸ hb
      cases hcall : b.call now c with
      | none =>
        simp only [System.step, hb, hb', hcall]
        exact ⟨trivial, h⟩
      | some r =>
        simp only [System.step, hb, hb', hcall]
        refine ⟨trivial, rfl, h.leases, fun j => ?_⟩
        rw [table_set hb, table_set hb', h.tables j]
  | claim now protocol port owner =>
    simp only [System.step, h.ports]
    split
    · exact ⟨rfl, h⟩
    · exact ⟨rfl, h.leases ▸ h.setPorts _ _⟩
  | drop now i =>
    simp only [System.step, h.ports, h.leases]
    split
    · exact ⟨rfl, h⟩
    · split
      · exact ⟨rfl, h⟩
      · exact ⟨rfl, h.setPorts _ _⟩

/-- Putting a table back where it was leaves a system that is alike. The table with the number is
the same, and the others are not touched. -/
theorem Alike.of_table (hb : s.table i = some b) :
    Alike { s with ports := b.ports, tables := s.tables.set i b } s := by
  refine ⟨table_ports hb, rfl, fun j => ?_⟩
  rw [table_set hb]
  split
  · next he => rw [← he, hb]
  · rw [table_ports hb]
    cases hj : s.table j with
    | none => rfl
    | some b' =>
      rw [← table_ports hj]
      rfl

/-- Looking leaves a system that is alike. One case for each call that looks, whether or not there
is a table with the number. -/
theorem Alike.of_looks {o : Op} (ho : looks o = true) : Alike (s.step o).1 s := by
  unfold looks at ho
  split at ho
  · next i now protocol port remote =>
    cases hb : s.table i with
    | none =>
      simp only [System.step, hb]
      exact ⟨rfl, rfl, fun _ => rfl⟩
    | some b =>
      simp only [System.step, hb, Bindings.call]
      exact .of_table hb
  · next i now protocol host port remote =>
    cases hb : s.table i with
    | none =>
      simp only [System.step, hb]
      exact ⟨rfl, rfl, fun _ => rfl⟩
    | some b =>
      simp only [System.step, hb, Bindings.call]
      exact .of_table hb
  · cases ho

/-- The answers to the other operations do not depend on those that look. By induction on the
operations, from systems that are alike. -/
theorem answers_filter {s' : System} (h : Alike s s') (os : List Op) :
    (s.answers os).filter (fun e => !looks e.1) = s'.answers (os.filter fun o => !looks o) := by
  induction os generalizing s s' with
  | nil => rfl
  | cons o os ih =>
    cases ho : looks o with
    | true =>
      obtain ⟨hports, hleases, htables⟩ := Alike.of_looks (s := s) ho
      simp only [answers, List.filter_cons, ho, Bool.not_true, Bool.false_eq_true, if_false]
      exact ih ⟨hports.trans h.ports, hleases.trans h.leases,
        fun j => (htables j).trans (h.tables j)⟩
    | false =>
      obtain ⟨ha, hs⟩ := h.step o
      simp only [answers, List.filter_cons, ho, Bool.not_false, if_true, ha]
      rw [ih hs]

end System

/-- What the inbound calls that are answered with a host prove about the past of their table, and
what no call but the outbound ones can do. -/
structure Filters (s₀ s : System) (i : Nat) (es : List (Op × Answer)) (b : Bindings) (now : Nat) :
    Prop where
  udp : ∀ p remote h q b', b.udpIn p remote now = some (.ok (some (h, q)), b') →
    ∃ key e, key.protocol = 17 ∧ key.host = h ∧ key.port = q ∧
      System.Chain s₀ i key remote.ip p es e ∧ now < e
  icmp : ∀ id remote h q b', b.icmpIn id remote now = some (.ok (some (h, q)), b') →
    ∃ key e, key.protocol = 1 ∧ key.host = h ∧ key.port = q ∧
      System.Chain s₀ i key remote id es e ∧ now < e
  tcp : ∀ p remote flags h q b', (b.tcpIn p remote flags now = some (.ok (some (h, q)), b') ∨
      ∃ packet, packet ≠ [] ∧
        b.tcpInPacket p remote flags now packet = some (.ok (some (h, q)), b')) →
    ∃ key, b.reverse.get (6, p) = some key ∧ key.host = h ∧ key.port = q ∧
      ((∃ x, b.sessions.get (key, remote) = some x ∧ x.live now) ∨
        (flags &&& 2 ≠ 0 ∧ ∃ r x, b.sessions.get (key, r) = some x ∧ x.live now))
  binds : ∀ c a b' k x, c.Promised → b.call now c = some (a, b') → b'.bindings.get k = some x →
    (∃ y, b.bindings.get k = some y) ∨ b.Binds k c
  looks : ∀ os, (s.answers os).filter (fun e => !System.looks e.1) =
    s.answers (os.filter fun o => !System.looks o)

namespace Bindings

variable {b b₁ b' : Bindings} {now : Nat}

/-- A session that is there when the others have expired was live. -/
theorem Expired.live (he : b.Expired now b₁) {n : SessionKey} {x : Session}
    (hn : b₁.sessions.get n = some x) : ∃ y, b.sessions.get n = some y ∧ y.live now := by
  rw [he.sessions] at hn
  obtain ⟨hn, hlt⟩ := Option.filter_eq_some_iff.1 hn
  obtain ⟨y, hy, rfl⟩ := Option.map_eq_some_iff.1 hn
  exact ⟨y, hy, Session.live_iff.2 (of_decide_eq_true hlt)⟩

/-- An inbound call that finds a host finds it under the port's key. -/
theorem InEnds.found {y : PortKey} {remote : SocketAddrV4} {passes : Bindings → Key → Prop}
    {s : Bindings → Key → Session} {h : Ipv6Addr} {q : UInt16}
    (hends : b.InEnds now y remote passes s (.ok (some (h, q))) b') :
    ∃ b₁ key l, b.Expired now b₁ ∧ passes b₁ key ∧ key.protocol = y.1 ∧ key.host = h ∧
    key.port = q ∧
      b₁.place key = some (y.2, l) := by
  obtain ⟨b₁, he, ⟨-, hnot, -⟩ | ⟨key, hr, hpass, hres, -⟩⟩ := hends
  · exact absurd rfl (hnot (h, q))
  · obtain ⟨hy, l, hl⟩ := place_of_reverse he.inv.counts hr
    obtain ⟨hhost, hport⟩ := Prod.mk.inj (Option.some.inj (Except.ok.inj hres))
    exact ⟨b₁, key, l, he, hpass, hy.symm, hhost.symm, hport.symm, hl⟩

/-- A segment that is let through belongs to a live session or is a SYN to a live binding. A binding
lives on only with a session that has not run out. -/
theorem Expired.admitted (he : b.Expired now b₁) (h : b.Inv) {key : Key} {p : UInt16} {l : Lease}
    (hproto : key.protocol = 6) (hl : b₁.place key = some (p, l)) {remote : SocketAddrV4}
    {flags : UInt8} (hpass : b₁.sessions.get (key, remote) = none → flags &&& 2 ≠ 0) :
    b.reverse.get (6, p) = some key ∧ ((∃ x, b.sessions.get (key, remote) = some x ∧ x.live now) ∨
      (flags &&& 2 ≠ 0 ∧ ∃ r x, b.sessions.get (key, r) = some x ∧ x.live now)) := by
  refine ⟨(h.counts.placed.reverse _ key).2 ⟨_, he.reduced.placed _ _ hl, by rw [hproto]⟩, ?_⟩
  cases hs : b₁.sessions.get (key, remote) with
  | some x => exact .inl (he.live hs)
  | none =>
    obtain ⟨n, x, hn, hw⟩ := OrdMap.total_pos.1 (he.inv.bound key _ hl)
    obtain ⟨k, r⟩ := n
    obtain rfl : k = key := ofKey_pos.1 hw
    obtain ⟨y, hy, hlive⟩ := he.live hn
    exact .inr ⟨hpass hs, r, y, hy, hlive⟩

end Bindings

/-- In every run with the filter in place, inbound packets pass only on the strength of what the
inside has sent. -/
theorem filtering {m t₀ t : Nat} {es : List (Op × Answer)} {s : System}
    (run : (System.machine System.AddressDependent).Run (.start m) t₀ es s t) {i : Nat}
    {b : Bindings} (hb : s.table i = some b) (now : Nat) : Filters (.start m) s i es b now := by
  have hinv := (System.run_ok run).1.tables i b hb
  obtain ⟨hfilter, hsourced⟩ := System.run_sourced run hb
  refine ⟨fun p remote h q b' hin => ?_, fun id remote h q b' hin => ?_,
    fun p remote flags h q b' hin => ?_, fun c a b' k x hc hcall hx => ?_,
    System.answers_filter ⟨rfl, rfl, fun _ => rfl⟩⟩
  · obtain ⟨r, c, hr, hends⟩ := Bindings.udpIn_spec hinv p remote now
    rw [hin] at hr
    cases hr
    obtain ⟨b₁, key, l, he, hpass, hproto, hhost, hport, hl⟩ := hends.found
    obtain ⟨r, x, hx, hip⟩ := Bindings.addressKnown_iff.1 (hpass hfilter)
    have h6 : key.protocol ≠ 6 := hproto ▸ show (17 : UInt8) ≠ 6 by decide
    obtain ⟨hx', hlt⟩ := he.plain hinv hx h6
    have hchain := hsourced (key, r) x p l hx' h6 (he.reduced.placed _ _ hl)
    exact ⟨key, x.expires, hproto, hhost, hport, hip ▸ hchain, hlt⟩
  · obtain ⟨r, c, hr, hends⟩ := Bindings.icmpIn_spec hinv id remote now
    rw [hin] at hr
    cases hr
    obtain ⟨b₁, key, l, he, ⟨x, hx⟩, hproto, hhost, hport, hl⟩ := hends.found
    have h6 : key.protocol ≠ 6 := hproto ▸ show (1 : UInt8) ≠ 6 by decide
    obtain ⟨hx', hlt⟩ := he.plain hinv hx h6
    have hchain := hsourced (key, ⟨remote, 0⟩) x id l hx' h6 (he.reduced.placed _ _ hl)
    exact ⟨key, x.expires, hproto, hhost, hport, hchain, hlt⟩
  · rcases hin with hin | ⟨packet, hpacket, hin⟩
    · obtain ⟨r, c, hr, hends, -⟩ := Bindings.tcpIn_spec hinv p remote flags now
      rw [hin] at hr
      cases hr
      obtain ⟨b₁, key, l, he, hpass, hproto, hhost, hport, hl⟩ := hends.found
      obtain ⟨hrev, hlive⟩ := he.admitted hinv hproto hl hpass
      exact ⟨key, hrev, hhost, hport, hlive⟩
    · obtain ⟨r, c, hr, hends⟩ := Bindings.tcpInPacket_spec hinv p remote flags now hpacket
      rw [hin] at hr
      cases hr
      rcases hends with ⟨_, _, -, -, he, -⟩ | hends
      · cases he
      · obtain ⟨b₁, key, l, he, ⟨hpass, -⟩, hproto, hhost, hport, hl⟩ := hends.found
        obtain ⟨hrev, hlive⟩ := he.admitted hinv hproto hl hpass
        exact ⟨key, hrev, hhost, hport, hlive⟩
  · have hplace : b'.place k = some (x.port, x.lease) := Bindings.place_eq_some.2 ⟨x, hx, rfl⟩
    rcases (Bindings.did_of_call hinv hc hcall).binds hplace with hk | hk
    · obtain ⟨y, hy, -⟩ := Bindings.place_eq_some.1 hk
      exact .inl ⟨y, hy⟩
    · exact .inr hk

/-- The theorem applied to the sample datagram: a reply from another port of the same address
passes. -/
theorem filtering_sampleOut : ∃ b, ((System.start 1).step sampleOut).1.table 0 = some b ∧
    ((b.udpIn 5000 ⟨⟨[192, 0, 2, 1], rfl⟩, 99⟩ 2000).bind fun r => r.1.toOption) =
      some (some (⟨List.replicate 15 0 ++ [1], rfl⟩, 5000)) ∧
    Filters (.start 1) ((System.start 1).step sampleOut).1 0
      [(sampleOut, ((System.start 1).step sampleOut).2)] b 2000 := by
  have hreply : ((((System.start 1).step sampleOut).1.table 0).bind fun b =>
      (b.udpIn 5000 ⟨⟨[192, 0, 2, 1], rfl⟩, 99⟩ 2000).bind fun r => r.1.toOption) =
        some (some (⟨List.replicate 15 0 ++ [1], rfl⟩, 5000)) := by
    decide +kernel
  obtain ⟨b, hb, hreply⟩ := Option.bind_eq_some_iff.1 hreply
  have run : (System.machine System.AddressDependent).Run (.start 1) 0
      [(sampleOut, ((System.start 1).step sampleOut).2)]
      ((System.start 1).step sampleOut).1 1000 := by
    refine .snoc sampleOut .nil (Nat.zero_le _) ⟨trivial, ?_⟩
    intro _ _ _ ho
    cases ho
  exact ⟨b, hb, hreply, filtering run hb 2000⟩

end SnacMachine.Nat64
