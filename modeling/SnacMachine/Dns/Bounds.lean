import SnacMachine.Dns.Padded

/-!
# Bounds of the resolver

The limits that the resolver sets itself: entries, waiters, waiters of one client and rated clients
(`Limited`), and the octets that all of it is charged for (`Bounded`). Before a follow-up question
is asked, a fixed credit is set aside for it. The numbers are limited in every run, and so are the
octets while the credit covers what it is for (`Modest`), as `modest_bounded` says.
-/

namespace SnacMachine.Dns

open Discovery

/-- Whether a waiter is of a client. -/
def Waiter.of (ip : IpAddr) (w : Waiter) : Bool := w.client.address.ip == ip

/-- The limits of the numbers that the resolver keeps. -/
structure Limited (r : Resolver) : Prop where
  count : r.pendingCount ≤ 128
  waiters : r.waiters.length ≤ 256
  clients : ∀ ip, (r.waiters.filter (Waiter.of ip)).length ≤ 8
  rates : r.rates.size ≤ 32

/-- All the limits of the resolver. -/
structure Bounded (r : Resolver) : Prop extends Limited r where
  bytes : r.pendingBytes ≤ 4 * 1024 * 1024

/-- The octets of the additional section of a query, which has no record but OPT. -/
def optOctets (m : Message) : Nat := (m.additional.flatMap recordWire).length

/-- The question that the Discovery Proxy of a zone would ask for another. -/
def translated (zone : Option Zone) (q : Question) : Option TranslatedQuestion :=
  zone.bind fun z => (z.question q).join

/-- What follows up a query is within the credit that is set aside for it: a job of the Discovery
Proxy weighs at most 8192 octets, and a query to an upstream server is at most 704 octets long. -/
def Affordable (zone : Option Zone) (original : Message) (q : Question) : Prop :=
  match translated zone q with
  | some tq => jobBytes tq ≤ 8192
  | none => 16 + q.name.wire.length + optOctets original ≤ 704

/-- The zone of the Discovery Proxy. -/
def Resolver.zone (r : Resolver) : Option Zone := r.discovery.map Proxy.zone

/-- The condition on a call and the state before it under which the credit is enough: the query that
is submitted for the Discovery Proxy is a cheap job, and so is what follows up the entry that is
replied to, or an entry whose job the Discovery Proxy finishes. -/
structure Modest (r : Resolver) (op : Resolver.Op) : Prop where
  submit : ∀ client bytes m q tq, op.call = .submit client bytes →
    Message.parse bytes .unicast = some m → m.questions.head? = some q →
    translated r.zone q = some tq → jobBytes tq ≤ 8192
  receive : ∀ exchange server port tcp bytes p m q,
    op.call = .receive exchange server port tcp bytes → r.pending.get exchange = some p →
    Message.parse bytes .unicast = some m → p.nextQuestion r.additionalA m = some q →
    Affordable r.zone p.original q
  discovery : ∀ ready answer started d done id p q,
    op.call = .pollDiscovery ready answer started → r.discovery = some d →
    Proxy.Completes answer d done → r.discovered.get id = some p → p.job = done.id →
    p.nextQuestion r.additionalA (Resolver.answerTo done p.original) = some q →
    Affordable r.zone p.original q

/-! ## Waiters as totals -/

/-- The waiters of a kind are those of both tables. -/
theorem waiters_filter (r : Resolver) (f : Waiter → Bool) :
    (r.waiters.filter f).length =
      (r.pending.total fun _ p => (p.waiters.filter f).length) +
        r.discovered.total fun _ p => (p.waiters.filter f).length := by
  unfold Resolver.waiters OrdMap.values OrdMap.total
  rw [List.filter_append, List.length_append, List.filter_flatMap, List.filter_flatMap,
    List.length_flatMap, List.length_flatMap, List.map_map, List.map_map]
  rfl

/-! ## Follow-up queries -/

/-- A follow-up has a header, its question and the option record of the query, whatever else the
query had. -/
theorem length_followUp_plain (m : Message) (q : Question) :
    (Resolver.followUp m q).plain.length = 16 + q.name.wire.length + optOctets m := by
  have hrecords : (Resolver.followUp m q).records = m.additional := rfl
  rw [Message.plain, hrecords]
  simp only [Resolver.followUp, List.flatMap_cons, List.flatMap_nil, List.append_nil,
    List.length_append, length_header, questionWire, length_toBe, optOctets]
  omega

/-- So long is a follow-up also once it is encoded, since it is written without compression
gains. -/
theorem length_followUp {m : Message} {q : Question} {b : Bytes}
    (h : (Resolver.followUp m q).encode = some b) :
    b.length = 16 + q.name.wire.length + optOctets m := by
  rw [(encode_eq_plain h).1, length_followUp_plain]

/-! ## What an entry weighs -/

/-- A state without one of the entries of another. -/
structure Taken (r r' : Resolver) (h : Hand) : Prop where
  count : r'.pendingCount + 1 = r.pendingCount
  waiters :
    ∀ f, (r'.waiters.filter f).length + (h.waiters.filter f).length = (r.waiters.filter f).length
  bytes : r'.pendingBytes + h.charge = r.pendingBytes

/-- A state with one more entry, or one in the place of another. -/
structure Given (r r' : Resolver) (h : Hand) : Prop where
  count : r'.pendingCount ≤ r.pendingCount + 1
  waiters : ∀ f,
    (r'.waiters.filter f).length ≤ (r.waiters.filter f).length + (h.waiters.filter f).length
  bytes : r'.pendingBytes ≤ r.pendingBytes + h.charge

/-- What a table adds to the numbers of a state, besides what the rest of the state does. -/
structure Weighs {V : Type} (r : Resolver) (m : OrdMap Nat V) (hand : V → Hand) (count : Nat)
    (waiters : (Waiter → Bool) → Nat) (bytes : Nat) : Prop where
  count : r.pendingCount = m.size + count
  waiters : ∀ f, (r.waiters.filter f).length =
    (m.total fun _ v => ((hand v).waiters.filter f).length) + waiters f
  bytes : r.pendingBytes = (m.total fun _ v => (hand v).charge) + bytes

namespace Weighs

variable {V : Type} {r r' : Resolver} {m : OrdMap Nat V} {hand : V → Hand} {count bytes : Nat}
  {waiters : (Waiter → Bool) → Nat}

/-- Taking an entry out of a table takes away just what it weighs. Each of the three sums loses the
term of the entry (`OrdMap.total_remove`). -/
theorem taken {id : Nat} {v : V} (h : Weighs r m hand count waiters bytes)
    (h' : Weighs r' (m.remove id) hand count waiters bytes) (hv : m.get id = some v) :
    Taken r r' (hand v) := by
  refine ⟨?_, fun f => ?_, ?_⟩
  · have := OrdMap.size_remove hv
    rw [h.count, h'.count]
    omega
  · have := OrdMap.total_remove (f := fun _ v => ((hand v).waiters.filter f).length) hv
    rw [h.waiters, h'.waiters]
    omega
  · have := OrdMap.total_remove (f := fun _ v => (hand v).charge) hv
    rw [h.bytes, h'.bytes]
    omega

/-- Putting an entry into a table adds at most what it weighs; less, if it replaces another one. The
same holds of each of the three sums (`OrdMap.total_insert_le`). -/
theorem given {k : Nat} {v : V} (h : Weighs r m hand count waiters bytes)
    (h' : Weighs r' (m.insert k v) hand count waiters bytes) : Given r r' (hand v) := by
  refine ⟨?_, fun f => ?_, ?_⟩
  · have := OrdMap.size_insert_le m k v
    rw [h.count, h'.count]
    omega
  · have := OrdMap.total_insert_le (m := m) (f := fun _ v => ((hand v).waiters.filter f).length) k v
    rw [h.waiters, h'.waiters]
    omega
  · have := OrdMap.total_insert_le (m := m) (f := fun _ v => (hand v).charge) k v
    rw [h.bytes, h'.bytes]
    omega

end Weighs

/-- The entries that wait for upstream servers, beside those that wait for the Discovery Proxy. -/
theorem weighs_pending (r : Resolver) (next : Nat) (m : OrdMap Nat Pending) :
    Weighs { r with next, pending := m } m Pending.hand r.discovered.size
      (fun f => r.discovered.total fun _ p => (p.waiters.filter f).length)
      ((r.discovered.total fun _ p => p.charge) + r.discovery.elim 0 fun d => d.bytes) where
  count := rfl
  waiters f := waiters_filter _ f
  bytes := Nat.add_assoc _ _ _

/-- The entries that wait for the Discovery Proxy, beside those that wait for upstream servers. -/
theorem weighs_discovered (r : Resolver) (m : OrdMap Nat Discovered) :
    Weighs { r with discovered := m } m Discovered.hand r.pending.size
      (fun f => r.pending.total fun _ p => (p.waiters.filter f).length)
      ((r.pending.total fun _ p => p.charge) + r.discovery.elim 0 fun d => d.bytes) where
  count := Nat.add_comm _ _
  waiters f := (waiters_filter _ f).trans (Nat.add_comm _ _)
  bytes := (Nat.add_right_comm _ _ _).trans (Nat.add_comm _ _)

/-- An entry that waited for an upstream server, taken out. -/
theorem taken_pending {r : Resolver} {id : Nat} {p : Pending} (hp : r.pending.get id = some p) :
    Taken r { r with pending := r.pending.remove id } p.hand :=
  (weighs_pending r r.next r.pending).taken (weighs_pending r r.next _) hp

/-- An entry that waited for the Discovery Proxy, taken out. -/
theorem taken_discovered {r : Resolver} {id : Nat} {p : Discovered}
    (hp : r.discovered.get id = some p) :
    Taken r { r with discovered := r.discovered.remove id } p.hand :=
  (weighs_discovered r r.discovered).taken (weighs_discovered r _) hp

/-- An entry that waits for an upstream server, put in. -/
theorem given_pending (r : Resolver) (k next : Nat) (p : Pending) :
    Given r { r with next, pending := r.pending.insert k p } p.hand :=
  (weighs_pending r r.next r.pending).given (weighs_pending r next _)

/-- An entry that waits for the Discovery Proxy, put in. -/
theorem given_discovered (r : Resolver) (k : Nat) (p : Discovered) :
    Given r { r with discovered := r.discovered.insert k p } p.hand :=
  (weighs_discovered r r.discovered).given (weighs_discovered r _)

/-! ## What every state keeps -/

/-- What the limits rest on besides: few rated clients, queries with a header, and numbered jobs. -/
structure Sound (r : Resolver) : Prop where
  rates : r.rates.size ≤ 32
  queries : ∀ id p, r.pending.get id = some p → 4 ≤ p.query.bytes.length
  jobs : ∀ d, r.discovery = some d → d.Numbered

/-- What every state of a run keeps; the octets, while the run is `modest`. -/
structure BoundsInv (modest : Prop) (r : Resolver) : Prop extends Sound r where
  count : r.pendingCount ≤ 128
  waiters : (r.waiters.filter fun _ => true).length ≤ 256
  clients : ∀ ip, (r.waiters.filter (Waiter.of ip)).length ≤ 8
  bytes : modest → r.pendingBytes ≤ maxBytes

/-- What holds of a state that an entry is put into: it is sound, and there is room for the
entry. -/
structure Room (modest : Prop) (r : Resolver) (h : Hand) : Prop extends Sound r where
  count : r.pendingCount + 1 ≤ 128
  waiters : (r.waiters.filter fun _ => true).length + (h.waiters.filter fun _ => true).length ≤ 256
  clients : ∀ ip,
    (r.waiters.filter (Waiter.of ip)).length + (h.waiters.filter (Waiter.of ip)).length ≤ 8
  bytes : modest → r.pendingBytes + h.charge ≤ maxBytes

section
variable {modest : Prop} {r r' : Resolver} {h : Hand}

/-- A state with room for one more entry is within the limits without it. -/
theorem Room.bounds (hr : Room modest r h) : BoundsInv modest r where
  toSound := hr.toSound
  count := Nat.le_of_succ_le hr.count
  waiters := Nat.le_trans (Nat.le_add_right _ _) hr.waiters
  clients ip := Nat.le_trans (Nat.le_add_right _ _) (hr.clients ip)
  bytes hm := Nat.le_trans (Nat.le_add_right _ _) (hr.bytes hm)

/-- Of what every state keeps, these limits do not depend on any credit. -/
theorem BoundsInv.limited (hr : BoundsInv modest r) : Limited r where
  count := hr.count
  waiters := by simpa only [List.filter_true] using hr.waiters
  clients := hr.clients
  rates := hr.rates

/-- Where an entry was taken out, there is room for it to come back. -/
theorem Taken.room (ht : Taken r r' h) (hr : BoundsInv modest r) (hs : Sound r') :
    Room modest r' h where
  toSound := hs
  count := ht.count.trans_le hr.count
  waiters := (ht.waiters _).trans_le hr.waiters
  clients ip := (ht.waiters _).trans_le (hr.clients ip)
  bytes hm := ht.bytes.trans_le (hr.bytes hm)

/-- Where there was room for an entry, the limits hold with it. -/
theorem Given.bounds (hg : Given r r' h) (hr : Room modest r h) (hs : Sound r') :
    BoundsInv modest r' where
  toSound := hs
  count := Nat.le_trans hg.count hr.count
  waiters := Nat.le_trans (hg.waiters _) hr.waiters
  clients ip := Nat.le_trans (hg.waiters _) (hr.clients ip)
  bytes hm := Nat.le_trans hg.bytes (hr.bytes hm)

end

namespace Sound

variable {r : Resolver}

/-- Removing an entry leaves the others sound. -/
theorem removePending (h : Sound r) (id : Nat) :
    Sound { r with pending := r.pending.remove id } := by
  refine { h with queries := fun id' q hq => ?_ }
  rw [OrdMap.get_remove_eq] at hq
  split at hq
  · cases hq
  · exact h.queries id' q hq

/-- Removing an entry that waits for the Discovery Proxy leaves the others sound. -/
theorem removeDiscovered (h : Sound r) (id : Nat) :
    Sound { r with discovered := r.discovered.remove id } :=
  { h with }

/-- A proxy that has no job without a number. -/
theorem setDiscovery (h : Sound r) {d' : Proxy} (hd' : d'.Numbered) :
    Sound { r with discovery := some d' } :=
  { h with
    jobs := fun d hd => by
      cases hd
      exact hd' }

/-- An entry with a query that has a header is a sound one. -/
theorem insertPending (h : Sound r) {k next : Nat} {p : Pending}
    (hquery : 4 ≤ p.query.bytes.length) :
    Sound { r with next, pending := r.pending.insert k p } := by
  refine { h with queries := fun id q hq => ?_ }
  rw [OrdMap.get_insert_eq] at hq
  split at hq
  · obtain rfl := Option.some.inj hq
    exact hquery
  · exact h.queries id q hq

end Sound

/-! ## What the calls keep -/

/-- A follow-up question that the Discovery Proxy does not take. The zone of the proxy refuses it as
well, so there is nothing to translate. -/
theorem translated_eq_none {r : Resolver} {q : Question}
    (h : (r.discovery.filter fun d => d.accepts q) = none) : translated r.zone q = none := by
  unfold translated Resolver.zone
  cases hd : r.discovery with
  | none => rfl
  | some d =>
    rw [hd, Option.filter_some] at h
    split at h
    · cases h
    · next hno =>
      unfold Proxy.accepts at hno
      simp only [Option.map_some, Option.bind_some]
      split at hno
      · exact absurd rfl hno
      · next hq => cases hz : d.zone.question q with
        | none => rfl
        | some tq =>
          cases tq with
          | none => rfl
          | some tq => exact absurd hz (hq tq)

/-- A job that is started is one for the question translated. -/
theorem translated_start {r : Resolver} {d d' : Proxy} {q : Question} {id : Nat}
    (hd : r.discovery = some d) (h : Proxy.StartedAs d q id d') :
    ∃ tq, translated r.zone q = some tq ∧ d'.bytes ≤ d.bytes + jobBytes tq := by
  obtain ⟨tq, hq, hbytes⟩ := h.weight
  refine ⟨tq, ?_, hbytes⟩
  simp only [translated, Resolver.zone, hd, Option.map_some, Option.bind_some, hq, Option.join_some]

/-- A job of the Discovery Proxy and the entry that waits for it. -/
theorem given_start {r : Resolver} {d d' : Proxy} {p : Discovered} {n : Nat} (k next : Nat)
    (hd : r.discovery = some d) (hbytes : d'.bytes ≤ d.bytes + n) :
    Given r { r with discovery := some d', next, discovered := r.discovered.insert k p }
      { p.hand with charge := p.charge + n } := by
  obtain ⟨hcount, hwaiters, hcharge⟩ := given_discovered r k p
  refine ⟨hcount, hwaiters, ?_⟩
  unfold Resolver.pendingBytes at hcharge ⊢
  simp only [Discovered.hand, hd, Option.elim] at hcharge ⊢
  omega

namespace Room

variable {modest : Prop} {r : Resolver} {h : Hand}

/-- Room for an entry is room for one with the same waiters, if the octets suffice. -/
theorem swap (hr : Room modest r h) {h' : Hand} (hwaiters : h'.waiters = h.waiters)
    (hbytes : modest → r.pendingBytes + h'.charge ≤ maxBytes) : Room modest r h' :=
  { hr with
    waiters := by
      rw [hwaiters]
      exact hr.waiters
    clients := by
      rw [hwaiters]
      exact hr.clients
    bytes := hbytes }

/-- An entry that was taken out and dealt with leaves the limits kept. By the cases of `Handled`: an
entry that is answered or dropped is gone, one that waits again is put back with octets of the same
length, and one that goes on with a follow-up question was admitted with its credit. -/
theorem handled {ask : Question → Prop} {got : Message → Prop} {o : Outside} {now id : Nat}
    {out : Outcome} (hr : Room modest r h) (hd : Handled ask got o now r id h out)
    (hquery : ∀ q, h.query = some q → 4 ≤ q.1.length)
    (hask : modest → ∀ q, ask q → Affordable r.zone h.original q) : BoundsInv modest out.2 := by
  cases hd with
  | @answered b c _ _ =>
    obtain ⟨finished, cache, heq⟩ := r.answer_state h.key h.original c h.waiters b now
    rw [heq]
    exact { hr.bounds with }
  | own _ => exact hr.bounds
  | lost _ => exact hr.bounds
  | @waits p query acts retry attempt next k hp _ hnext =>
    have hold := hquery (p.query.bytes, p.query.exchange) (by rw [← hp]; rfl)
    have hlength : query.bytes.length = p.query.bytes.length := by
      rcases hnext with ⟨-, hbytes, -⟩ | ⟨-, -, -, i, hbytes⟩
      · rw [hbytes]
      · rw [hbytes, length_queryBytes i hold]
    refine (given_pending r k next { p with query, retry, attempt }).bounds
      (hr.swap ?_ fun hm => ?_) (hr.insertPending ?_)
    · rw [← hp]
      rfl
    · have := hr.bytes hm
      rw [← hp] at this
      simp only [Pending.hand, Pending.charge, hlength] at this ⊢
      exact this
    · exact hold.trans_eq hlength.symm
  | @asks p q b base i hq _ hno hb hp hroom =>
    have hlong : 4 ≤ b.length := by
      rw [length_followUp hb]
      omega
    simp only [Pending.hand, Hand.mk.injEq, Option.some.injEq, Prod.mk.injEq] at hp
    obtain ⟨-, -, -, -, hwaiters, -, -, -, hbytes, -⟩ := hp
    rw [hbytes, length_queryBytes i hlong] at hroom
    refine (given_pending r _ _ p).bounds (hr.swap hwaiters fun hm => ?_) (hr.insertPending ?_)
    · have hafford := hask hm q hq
      rw [Affordable, translated_eq_none hno, ← length_followUp hb] at hafford
      simp only [Pending.hand]
      omega
    · rw [hbytes, length_queryBytes i hlong]
      exact hlong
  | @discovers p q base d d' hq _ hp hroom hd hstart =>
    have hstart := Proxy.start_eq_ok hstart
    obtain ⟨tq, htq, hbytes⟩ := translated_start hd hstart
    simp only [Discovered.hand, Hand.mk.injEq] at hp
    obtain ⟨-, -, -, -, hwaiters, -⟩ := hp
    refine (given_start (p := p) _ _ hd hbytes).bounds (hr.swap hwaiters fun hm => ?_)
      { hr.toSound.setDiscovery (hstart.numbered (hr.jobs d hd)) with }
    have hafford := hask hm q hq
    rw [Affordable, htq] at hafford
    simp only at hafford ⊢
    omega

end Room

namespace BoundsInv

variable {modest : Prop} {r : Resolver}

/-- A call that deals with at most one entry. The entry is taken out, which gives room, and
`handled` says what may be put back into it. -/
theorem handles {ask : Hand → Question → Prop} {got : Hand → Message → Prop} {o : Outside}
    {now : Nat} {out : Outcome} (hi : BoundsInv modest r) (hd : Handles ask got o now r out)
    (hask : modest → ∀ h q, ask h q → Affordable r.zone h.original q) :
    BoundsInv modest out.2 := by
  cases hd with
  | still => exact hi
  | @pending id p _ hp hd =>
    refine ((taken_pending hp).room hi (hi.removePending id)).handled hd (fun q hq => ?_)
      fun hm => hask hm _
    obtain rfl := Option.some.inj hq
    exact hi.queries id p hp
  | @discovered id p _ hp hd =>
    exact ((taken_discovered hp).room hi (hi.removeDiscovered id)).handled hd
      (fun q hq => nomatch hq) fun hm => hask hm _

/-- One more waiter, where there is room for it, among those of some kind. The source tests all
three limits at once (`full`). -/
theorem oneMore (hi : BoundsInv modest r) {w : Waiter} (hfull : r.full w = false) :
    (r.waiters.filter fun _ => true).length + 1 ≤ 256 ∧
      (∀ ip, (r.waiters.filter (Waiter.of ip)).length + ([w].filter (Waiter.of ip)).length ≤ 8) ∧
      r.pendingBytes + 1024 ≤ maxBytes := by
  simp only [Resolver.full, Bool.or_eq_false_iff, decide_eq_false_iff_not, Nat.not_le,
    Nat.not_lt] at hfull
  refine ⟨?_, fun ip => ?_, hfull.2⟩
  · rw [List.filter_true]
    exact hfull.1.1
  · by_cases hip : Waiter.of ip w = true
    · rw [List.filter_cons_of_pos hip]
      obtain rfl : w.client.address.ip = ip := eq_of_beq hip
      exact hfull.1.2
    · rw [List.filter_cons_of_neg hip]
      exact hi.clients ip

/-- Room for the entry of a waiter. -/
theorem room (hi : BoundsInv modest r) {w : Waiter} {h : Hand} (hfull : r.full w = false)
    (hcount : r.pendingCount < maxPending) (hwaiters : h.waiters = [w])
    (hbytes : modest → r.pendingBytes + h.charge ≤ maxBytes) : Room modest r h := by
  obtain ⟨hall, hclients, -⟩ := hi.oneMore hfull
  refine { hi.toSound with count := hcount, waiters := ?_, clients := ?_, bytes := hbytes }
  · rw [hwaiters]
    exact hall
  · rw [hwaiters]
    exact hclients

/-- Room for an entry with one more waiter. The room was tested with the waiter's charge (`full`),
and the entry that is taken out gives back what it had. -/
theorem roomJoined (hi : BoundsInv modest r) {r' : Resolver} {w : Waiter} {h h' : Hand}
    (hfull : r.full w = false) (ht : Taken r r' h) (hs : Sound r')
    (hwaiters : h'.waiters = h.waiters ++ [w]) (hcharge : h'.charge = h.charge + 1024) :
    Room modest r' h' := by
  obtain ⟨hall, hclients, hbytes⟩ := hi.oneMore hfull
  refine { hs with
    count := ht.count.trans_le hi.count, waiters := ?_, clients := fun ip => ?_,
      bytes := fun _ => ?_ }
  · have := ht.waiters fun _ => true
    rw [hwaiters, List.filter_append, List.length_append, List.filter_true (l := [w])]
    simp only [List.length_singleton]
    omega
  · have := ht.waiters (Waiter.of ip)
    have := hclients ip
    rw [hwaiters, List.filter_append, List.length_append]
    omega
  · have := ht.bytes
    omega

/-- An admitted query keeps the limits: they were checked before it was put in, and the job of the
Discovery Proxy that it starts is within the credit. -/
theorem admitted {now : Nat} {m : Message} {key bytes : Bytes} {w : Waiter} {out : Outcome}
    (hi : BoundsInv modest r) (ha : Admitted now r m key w bytes out) (hlong : 4 ≤ bytes.length)
    (hcheap : modest → ∀ q tq, m.questions.head? = some q → translated r.zone q = some tq →
      jobBytes tq ≤ 8192) : BoundsInv modest out.2 := by
  cases ha with
  | refused _ => exact { hi with }
  | failed => exact hi
  | @joins id p hfull hp _ =>
    rw [← OrdMap.insert_remove hp]
    refine (given_pending { r with pending := r.pending.remove id } id r.next
      { p with waiters := p.waiters ++ [w] }).bounds ?_ ?_
    · refine hi.roomJoined hfull (taken_pending hp) (hi.removePending id) rfl ?_
      simp only [Pending.hand, Pending.charge, List.length_append, List.length_singleton]
      omega
    · exact (hi.removePending id).insertPending (hi.queries id p hp)
  | @joinsDiscovered id p hfull hp _ =>
    rw [← OrdMap.insert_remove hp]
    refine (given_discovered { r with discovered := r.discovered.remove id } id
      { p with waiters := p.waiters ++ [w] }).bounds ?_ { hi.toSound with }
    refine hi.roomJoined hfull (taken_discovered hp) (hi.removeDiscovered id) rfl ?_
    simp only [Discovered.hand, Discovered.charge, List.length_append, List.length_singleton]
    omega
  | @asks p q i hfull hcount _ hp hroom =>
    simp only [Pending.hand, Hand.mk.injEq, Option.some.injEq, Prod.mk.injEq] at hp
    obtain ⟨-, -, -, -, hwaiters, -, -, -, hbytes, -⟩ := hp
    refine (given_pending r _ _ p).bounds (hi.room hfull hcount hwaiters fun _ => hroom)
      (hi.insertPending ?_)
    rw [hbytes, length_queryBytes i hlong]
    exact hlong
  | @discovers p q d d' hfull hcount hq hp hroom _ hd hstart =>
    have hstart := Proxy.start_eq_ok hstart
    obtain ⟨tq, htq, hbytes⟩ := translated_start hd hstart
    simp only [Discovered.hand, Hand.mk.injEq] at hp
    obtain ⟨-, -, -, -, hwaiters, -⟩ := hp
    refine (given_start (p := p) _ _ hd hbytes).bounds
      (hi.room hfull hcount hwaiters fun hm => ?_)
      { hi.toSound.setDiscovery (hstart.numbered (hi.jobs d hd)) with }
    have hcheap := hcheap hm q tq hq htq
    simp only at hcheap ⊢
    omega

/-- Resolver discovery asks within the limits, or not at all. The query is admitted only if both
tables and the octets leave room, which are the conditions of `Probed.asks`. -/
theorem probed {out : Outcome} (hi : BoundsInv modest r) (hp : Probed r out) :
    BoundsInv modest out.2 := by
  cases hp with
  | skipped _ _ => exact { hi with }
  | @asks p b i hcount hwaiters _ hparse _ hbytes _ hroom =>
    have hlong : 4 ≤ b.length := Nat.le_trans (by decide : 4 ≤ 12) (parse_length hparse)
    have hgiven := given_pending r p.query.exchange (r.next + 1) p
    refine hgiven.bounds { hi.toSound with
      count := hcount, waiters := ?_, clients := fun ip => ?_, bytes := fun _ => hroom }
      (hi.insertPending ?_)
    · rw [show p.hand.waiters = [] from hwaiters]
      exact hi.waiters
    · rw [show p.hand.waiters = [] from hwaiters]
      exact hi.clients ip
    · rw [hbytes, length_queryBytes i hlong]
      exact hlong

/-- A query of a client keeps the limits if its own job is within the credit. Until the cache is
asked only the rates change (`dispatch_spec`); what is admitted then is one entry (`admitted`),
whether the query is forwarded or given to the Discovery Proxy. -/
theorem submit (hi : BoundsInv modest r) (o : Outside) (client : Client) (bytes : Bytes) (now : Nat)
    (hcheap : modest → ∀ m q tq, Message.parse bytes .unicast = some m →
      m.questions.head? = some q → translated r.zone q = some tq → jobBytes tq ≤ 8192) :
    BoundsInv modest (r.submit o client bytes now).2 := by
  obtain ⟨⟨rates, hrates, hsize⟩, hdispatched⟩ := r.dispatch_spec o client bytes now
  have hr : BoundsInv modest (r.dispatch o client bytes now).2 := by
    rw [hrates]
    exact { hi with rates := hsize hi.rates }
  have hzone : (r.dispatch o client bytes now).2.zone = r.zone := by
    rw [hrates]
    rfl
  have hlong : ∀ m key w, Resolver.Dispatched client bytes m key w → 4 ≤ bytes.length :=
    fun m key w hd => Nat.le_trans (by decide : 4 ≤ 12) (parse_length hd.parsed)
  unfold Resolver.submit
  split
  · next heq =>
    rw [heq] at hr
    exact hr
  · next m key w r' heq =>
    rw [heq] at hr hdispatched hzone
    have hd := hdispatched m key w (.inr rfl)
    refine hr.admitted (r'.submitDiscovery_admitted m key w bytes now) (hlong m key w hd)
      fun hm q tq hq htq => hcheap hm m q tq hd.parsed hq ?_
    rw [← hzone]
    exact htq
  · next m key w r' heq =>
    rw [heq] at hr hdispatched hzone
    have hd := hdispatched m key w (.inl rfl)
    have hexpired : BoundsInv modest (r'.expireCache now) := { hr with }
    simp only
    split
    · exact { hexpired with }
    · refine hexpired.admitted (Resolver.enqueue_admitted o _ m key w bytes now) (hlong m key w hd)
        fun hm q tq hq htq => hcheap hm m q tq hd.parsed hq ?_
      rw [← hzone]
      exact htq

end BoundsInv

/-! ## Polling the Discovery Proxy -/

/-- What dealing with an entry leaves: the settings, the jobs that are gone, and entries for the
Discovery Proxy that were there before or follow up, with the property `ask`, the one that was dealt
with. The job of such a follow-up is none that is gone. -/
structure Onward (ask : Message → Question → Prop) (r r' : Resolver) : Prop where
  zone : r'.zone = r.zone
  additionalA : r'.additionalA = r.additionalA
  gone : ∀ d', r'.discovery = some d' → ∃ d, r.discovery = some d ∧ ∀ i, d.Gone i → d'.Gone i
  entries : ∀ k p, r'.discovered.get k = some p → r.discovered.get k = some p ∨
    ask p.original p.question ∧ p.base.isSome = true ∧
      ∃ d, r.discovery = some d ∧ ∀ i, d.Gone i → p.job ≠ i

/-- A state with the same settings, and some of the entries for the Discovery Proxy. -/
theorem Onward.still {ask : Message → Question → Prop} {r r' : Resolver}
    (hdiscovery : r'.discovery = r.discovery) (hadditional : r'.additionalA = r.additionalA)
    (hentries : ∀ k p, r'.discovered.get k = some p → r.discovered.get k = some p) :
    Onward ask r r' where
  zone := by rw [Resolver.zone, hdiscovery, Resolver.zone]
  additionalA := hadditional
  gone d' hd' := ⟨d', hdiscovery ▸ hd', fun _ h => h⟩
  entries k p hp := .inl (hentries k p hp)

/-- Handling an answer leaves the tables as they were, but for a follow-up that waits for a job of
its own. -/
theorem Handled.onward {ask : Question → Prop} {got : Message → Prop} {o : Outside} {now id : Nat}
    {r : Resolver} {h : Hand} {out : Outcome} (hd : Handled ask got o now r id h out) :
    Onward (fun m q => m = h.original ∧ ask q) r out.2 := by
  cases hd with
  | @answered b c _ _ =>
    obtain ⟨finished, cache, heq⟩ := r.answer_state h.key h.original c h.waiters b now
    rw [heq]
    exact .still rfl rfl fun _ _ h => h
  | own | lost | waits | asks => exact .still rfl rfl fun _ _ h => h
  | @discovers p q base d d' hq _ hhand _ hd hstart =>
    have hstart := Proxy.start_eq_ok hstart
    simp only [Discovered.hand, Hand.mk.injEq] at hhand
    obtain ⟨-, -, horiginal, rfl, -, hbase, -⟩ := hhand
    refine ⟨?_, rfl, fun e he => ?_, fun k p' hp' => ?_⟩
    · simp only [Resolver.zone, hd, Option.map_some, hstart.zone]
    · cases he
      exact ⟨d, hd, fun i hi => (hstart.gone i hi).2⟩
    · simp only [OrdMap.get_insert_eq] at hp'
      split at hp'
      · obtain rfl := Option.some.inj hp'
        exact .inr ⟨⟨horiginal, hq⟩, by rw [hbase]; rfl, d, hd, fun i hi => (hstart.gone i hi).1⟩
      · exact .inl hp'

/-- So does handling an entry that was found in one of the tables. The entry is taken out first, and
what is put back comes from it. -/
theorem Handles.onward {ask : Hand → Question → Prop} {got : Hand → Message → Prop} {o : Outside}
    {now : Nat} {r : Resolver} {out : Outcome} (hd : Handles ask got o now r out) :
    Onward (fun m q => ∃ h, m = h.original ∧ ask h q) r out.2 := by
  cases hd with
  | still => exact .still rfl rfl fun _ _ h => h
  | @pending id p _ hp hd =>
    obtain ⟨hzone, hadditional, hgone, hentries⟩ := hd.onward
    exact ⟨hzone, hadditional, hgone, fun k p' hp' =>
      (hentries k p' hp').imp_right fun ⟨hask, hnew⟩ => ⟨⟨p.hand, hask⟩, hnew⟩⟩
  | @discovered id p _ hp hd =>
    obtain ⟨hzone, hadditional, hgone, hentries⟩ := hd.onward
    refine ⟨hzone, hadditional, hgone, fun k p' hp' =>
      (hentries k p' hp').imp (fun hold => ?_) fun ⟨hask, hnew⟩ => ⟨⟨p.hand, hask⟩, hnew⟩⟩
    simp only [OrdMap.get_remove_eq] at hold
    split at hold
    · cases hold
    · exact hold

/-- What a poll keeps of the state before it while it goes through the completed jobs: an entry was
there before, or it waits for none of them. -/
structure PollInv (modest : Prop) (before : Resolver) (completed : List Completion) (r : Resolver) :
    Prop extends BoundsInv modest r where
  zone : r.zone = before.zone
  additionalA : r.additionalA = before.additionalA
  gone : ∀ d, r.discovery = some d → ∀ done ∈ completed, d.Gone done.id
  entries : ∀ k p, r.discovered.get k = some p →
    before.discovered.get k = some p ∨ ∀ done ∈ completed, p.job ≠ done.id

/-- The entries of some numbers waited for a job before the poll, or its answer leads no further
from them. -/
def Due (before : Resolver) (done : Completion) (ids : List Nat) (r : Resolver) : Prop :=
  ∀ id ∈ ids, ∀ p, r.discovered.get id = some p →
    (before.discovered.get id = some p ∧ p.job = done.id) ∨
      p.nextQuestion before.additionalA (Resolver.answerTo done p.original) = none

/-- What follows up the entries that wait for a job is within the credit. -/
def Cheap (before : Resolver) (done : Completion) : Prop :=
  ∀ id p q, before.discovered.get id = some p → p.job = done.id →
    p.nextQuestion before.additionalA (Resolver.answerTo done p.original) = some q →
    Affordable before.zone p.original q

namespace PollInv

variable {modest : Prop} {before r : Resolver} {completed : List Completion} {done : Completion}

/-- An entry whose job is done. What follows it up waits for another job, and where it takes the
number of an entry that is still to come, the same answer leads no further. -/
theorem discoverOne (hi : PollInv modest before completed r) (o : Outside) (now : Nat)
    (hcheap : modest → Cheap before done) {ids : List Nat} (hdue : Due before done ids r) {id : Nat}
    (hid : id ∈ ids) :
    PollInv modest before completed (Resolver.discoverOne o now done r id).2 ∧
      Due before done ids (Resolver.discoverOne o now done r id).2 := by
  have hd := Resolver.discoverOne_handles o now done r id
  generalize Resolver.discoverOne o now done r id = out at hd
  have hbounds : BoundsInv modest out.2 := by
    refine hi.handles hd fun hm h q hq => ?_
    obtain ⟨p, rfl, hp, hq⟩ := hq
    rw [hi.additionalA] at hq
    rw [hi.zone]
    rcases hdue id hid p hp with ⟨hold, hjob⟩ | hnone
    · exact hcheap hm id p q hold hjob hq
    · rw [hnone] at hq
      cases hq
  obtain ⟨hzone, hadditional, hgone, hentries⟩ := hd.onward
  refine ⟨⟨hbounds, hzone.trans hi.zone, hadditional.trans hi.additionalA, fun d' hd' x hx => ?_,
    fun k p hp => ?_⟩, fun k hk p hp => ?_⟩
  · obtain ⟨d, hd, hkeep⟩ := hgone d' hd'
    exact hkeep _ (hi.gone d hd x hx)
  · rcases hentries k p hp with hold | ⟨-, -, d, hd, hjob⟩
    · exact hi.entries k p hold
    · exact .inr fun x hx => hjob _ (hi.gone d hd x hx)
  · rcases hentries k p hp with hold | ⟨⟨h, horiginal, p', rfl, -, hq⟩, hbase, -⟩
    · exact hdue k hk p hold
    · obtain ⟨base, hbase⟩ := Option.isSome_iff_exists.1 hbase
      refine .inr ?_
      rw [Discovered.nextQuestion, hbase, horiginal]
      exact additionalAlias_eq_none (Discovered.nextQuestion_ends hq) _

/-- Completing one job keeps the limits, for all the entries that waited for it. The entries are
found before any of them is dealt with, so the induction is on their numbers. -/
theorem discoverDone (hi : PollInv modest before completed r) (o : Outside) (now : Nat)
    (hdone : done ∈ completed) (hcheap : modest → Cheap before done) :
    PollInv modest before completed (Resolver.discoverDone o now r done).2 := by
  unfold Resolver.discoverDone
  generalize hids : (r.discovered.entries.filter fun e => e.2.job == done.id).map Prod.fst = ids
  have hdue : Due before done ids r := by
    rw [← hids]
    intro id hid p hp
    obtain ⟨⟨k, p'⟩, he, rfl⟩ := List.mem_map.1 hid
    obtain ⟨hmem, hjob⟩ := List.mem_filter.1 he
    obtain rfl := Option.some.inj ((OrdMap.mem_iff_get.1 hmem).symm.trans hp)
    have hjob : p'.job = done.id := eq_of_beq hjob
    exact (hi.entries k p' hp).elim (fun hold => .inl ⟨hold, hjob⟩) fun h =>
      absurd hjob (h done hdone)
  exact (each_invariant (I := fun r => PollInv modest before completed r ∧
    Due before done ids r) ids
    (fun r' id hid h => h.1.discoverOne o now hcheap h.2 hid) [] ⟨hi, hdue⟩).1

end PollInv

/-- Polling the Discovery Proxy keeps the limits if the follow-ups of the finished jobs are within
the credit; other follow-ups do not arise. -/
theorem BoundsInv.pollDiscovery {modest : Prop} {r : Resolver}
    (hi : BoundsInv modest r) (o : Outside) (ready : Except IoError Unit)
    (answer : Nat → Except IoError (Option Found)) (started : Nat → Started) (now : Nat)
    (hcheap : modest → ∀ d done, r.discovery = some d → Proxy.Completes answer d done →
     Cheap r done) :
    BoundsInv modest (r.pollDiscovery o ready answer started now).2 := by
  unfold Resolver.pollDiscovery
  split
  · exact hi
  · exact hi
  · next d hd =>
    have hpoll := d.poll_polled answer started
    have hspent := Proxy.poll_spent (hi.jobs d hd) answer started
    have hstart : BoundsInv modest { r with discovery := some (d.poll answer started).2 } := by
      refine { hi.toSound.setDiscovery hspent.1 with
        count := hi.count, waiters := hi.waiters, clients := hi.clients
        bytes := fun hm => Nat.le_trans ?_ (hi.bytes hm) }
      have := hpoll.bytes
      simp only [Resolver.pendingBytes, hd, Option.elim]
      omega
    split
    · next heq =>
      rw [heq] at hstart
      exact hstart
    · next completed d' heq =>
      have hcompletes := Proxy.poll_completes (congrArg Prod.fst heq)
      rw [heq] at hstart hspent hpoll
      have hpollInv : PollInv modest r completed { r with discovery := some d' } := by
        refine ⟨hstart, ?_, rfl, fun e he done hdone => ?_, fun k p hp => .inl hp⟩
        · simp only [Resolver.zone, hd, Option.map_some]
          rw [show d'.zone = d.zone from hpoll.zone]
        · cases he
          exact (hspent.2 completed rfl).2 done hdone
      exact (each_invariant completed (fun r' done hdone hr' => hr'.discoverDone o now hdone
        fun hm => hcheap hm d done hd (hcompletes done hdone)) [] hpollInv).toBoundsInv

namespace BoundsInv

variable {modest : Prop} {r r' : Resolver}

/-- A state with fewer entries, waiters and octets. -/
theorem lighter (hi : BoundsInv modest r) (hcount : r'.pendingCount ≤ r.pendingCount)
    (hwaiters : ∀ f, (r'.waiters.filter f).length ≤ (r.waiters.filter f).length)
    (hbytes : r'.pendingBytes ≤ r.pendingBytes) (hs : Sound r') : BoundsInv modest r' where
  toSound := hs
  count := Nat.le_trans hcount hi.count
  waiters := Nat.le_trans (hwaiters _) hi.waiters
  clients ip := Nat.le_trans (hwaiters _) (hi.clients ip)
  bytes hm := Nat.le_trans hbytes (hi.bytes hm)

/-- Dropping entries keeps the limits. The entries that stay are some of those before, so no sum
grows. -/
theorem retainPending (hi : BoundsInv modest r) (p : Pending → Bool) :
    BoundsInv modest { r with pending := r.pending.retain fun _ x => p x } := by
  refine hi.lighter ?_ (fun f => ?_) ?_ { hi.toSound with queries := fun id q hq => ?_ }
  · exact Nat.add_le_add_right (OrdMap.size_retain_le _ _) _
  · have := OrdMap.total_retain_le r.pending (fun _ x => p x) fun _ p => (p.waiters.filter f).length
    rw [waiters_filter, waiters_filter]
    simp only
    omega
  · have := OrdMap.total_retain_le r.pending (fun _ x => p x) fun _ p => p.charge
    unfold Resolver.pendingBytes
    simp only
    omega
  · rw [OrdMap.get_retain_values] at hq
    exact hi.queries id q (Option.filter_eq_some_iff.1 hq).1

/-- Entries that were changed to weigh no more, and of which only some are kept. -/
theorem total_retain_mapValues_le {K V : Type} [OrdKey K] {m : OrdMap K V} {f : V → Nat} (c : V → V)
    (p : V → Bool) (h : ∀ v, f (c v) ≤ f v) :
    (((m.mapValues fun _ v => c v).retain fun _ v => p v).total fun _ v => f v) ≤
      m.total fun _ v => f v := by
  refine Nat.le_trans (OrdMap.total_retain_le _ _ _) ?_
  rw [OrdMap.total_mapValues]
  exact OrdMap.total_mono fun _ v => h v

/-- Dropping waiters, and the entries that have none left, keeps the limits. Entries are dropped or
mapped to lighter ones, so that each total of the invariant only falls
(`total_retain_mapValues_le`). -/
theorem cancelConnection (hi : BoundsInv modest r) (id : Nat) :
    BoundsInv modest (r.cancelConnection id) := by
  have hfewer : ∀ ws : List Waiter,
      (ws.filter fun w => w.client.connection != some id).length ≤ ws.length :=
    fun ws => List.length_filter_le _ ws
  unfold Resolver.cancelConnection Resolver.cancelUnusedDiscovery
  refine hi.lighter ?_ (fun f => ?_) ?_
    { rates := hi.rates, queries := fun k q hq => ?_, jobs := fun d hd => ?_ }
  · unfold Resolver.pendingCount
    rw [OrdMap.size_eq_total, OrdMap.size_eq_total, OrdMap.size_eq_total, OrdMap.size_eq_total]
    exact Nat.add_le_add (total_retain_mapValues_le (f := fun _ => 1) _ _ fun _ => Nat.le_refl _)
      (total_retain_mapValues_le (f := fun _ => 1) _ _ fun _ => Nat.le_refl _)
  · rw [waiters_filter, waiters_filter]
    exact Nat.add_le_add
      (total_retain_mapValues_le (f := fun (p : Pending) => (p.waiters.filter f).length) _ _
        fun p => (List.filter_sublist.filter f).length_le)
      (total_retain_mapValues_le (f := fun (p : Discovered) => (p.waiters.filter f).length) _ _
        fun p => (List.filter_sublist.filter f).length_le)
  · unfold Resolver.pendingBytes
    refine Nat.add_le_add (Nat.add_le_add ?_ ?_) ?_
    · refine total_retain_mapValues_le (f := Pending.charge) _ _ fun p => ?_
      have := hfewer p.waiters
      simp only [Pending.charge]
      omega
    · refine total_retain_mapValues_le (f := Discovered.charge) _ _ fun p => ?_
      have := hfewer p.waiters
      simp only [Discovered.charge]
      omega
    · cases r.discovery with
      | none => exact Nat.le_refl _
      | some d => exact Nat.le_of_eq (d.bytes_retainJobs _)
  · simp only [OrdMap.get_retain_values, OrdMap.get_mapValues_values, Option.filter_eq_some_iff,
      Option.map_eq_some_iff] at hq
    obtain ⟨⟨p, hp, rfl⟩, -⟩ := hq
    exact hi.queries k p hp
  · obtain ⟨e, he, rfl⟩ := Option.map_eq_some_iff.1 hd
    exact (hi.jobs e he).retainJobs _

/-- New upstream servers keep the limits, since the old exchanges end. -/
theorem setUpstreams (hi : BoundsInv modest r) (endpoints : List SocketAddr) :
    BoundsInv modest (r.setUpstreams endpoints).2 := by
  unfold Resolver.setUpstreams
  split
  · exact hi
  · exact { hi with }

/-- New local zones keep the limits. -/
theorem setLocalZones (hi : BoundsInv modest r) (zones : List Name) :
    BoundsInv modest (r.setLocalZones zones).2 := by
  unfold Resolver.setLocalZones
  split
  · exact hi
  · exact { hi with }

/-- A Discovery Proxy that has no jobs yet. -/
theorem newProxy (hi : BoundsInv modest r) (zone : Zone) :
    BoundsInv modest { r with discovery := some ⟨zone, .empty, 0, false⟩ } := by
  refine hi.lighter (Nat.le_refl _) (fun f => Nat.le_refl _) ?_
    (hi.toSound.setDiscovery fun id job h => nomatch h)
  exact Nat.add_le_add_left (Nat.zero_le _) _

/-- Every operation keeps the limits; that of the octets, if what follows it up is within the
credit. -/
theorem step (hi : BoundsInv modest r) {op : Resolver.Op} (hm : modest → Modest r op) :
    BoundsInv modest (r.step op).2 := by
  unfold Resolver.step
  split
  · next client bytes hcall =>
    exact hi.submit _ _ _ _ fun h m q tq => (hm h).submit client bytes m q tq hcall
  · next exchange server port tcp bytes hcall =>
    refine hi.handles (r.receive_handles _ exchange server port tcp bytes _) fun h _ q hq => ?_
    obtain ⟨p, m, rfl, hp, hparse, hnext⟩ := hq
    exact (hm h).receive exchange server port tcp bytes p m q hcall hp hparse hnext
  · unfold Resolver.tick
    refine each_invariant _ (fun r x _ hr => ?_) [] ?_
    · exact hr.handles (Resolver.tickOne_handles _ _ r x) fun _ _ _ hq => hq.elim
    · exact { hi with rates := Nat.le_trans (OrdMap.size_retain_le _ _) hi.rates }
  · exact hi.handles (r.failUpstream_handles _ _ _) fun _ _ _ hq => hq.elim
  · unfold Resolver.pollPrivacy
    split
    · exact each_invariant _ (fun r x _ hr => hr.probed (Resolver.probeOne_probed _ r x)) [] hi
    · exact hi
  · exact each_invariant _ (fun r x _ hr => hr.probed (Resolver.probeOne_probed _ r x)) [] hi
  · next ready answer started hcall =>
    exact hi.pollDiscovery _ _ _ _ _ fun h d done hd hdone id p q =>
      (hm h).discovery ready answer started d done id p q hcall hd hdone
  · exact hi.cancelConnection _
  · exact hi.setUpstreams _
  · next origins explicit browser policy _ =>
    have hset := hi.setUpstreams origins
    unfold Resolver.configureUpstreamPrivacy
    split
    · next heq =>
      rw [heq] at hset
      exact hset
    · next heq =>
      rw [heq] at hset
      split
      · exact hset
      · exact { hset.retainPending _ with }
  · unfold Resolver.configureBrowsing
    split
    · exact hi
    · exact hi.retainPending _
  · exact { hi with }
  · exact hi.setLocalZones _
  · unfold Resolver.enableDiscovery
    split
    · exact hi
    · exact { hi.newProxy _ with }
  · next zone zones _ =>
    have hset := hi.setLocalZones zones
    unfold Resolver.configureZones
    split
    · exact hi
    · split
      · next heq =>
        rw [heq] at hset
        exact hset
      · next heq =>
        rw [heq] at hset
        exact hset.newProxy zone
  · exact { hi with }

end BoundsInv

/-- In every run, whatever operations are `allowed`, the numbers that the resolver keeps are
limited; and so are the octets, where only operations are allowed whose follow-up questions are
within the credit that is set aside for them. -/
theorem modest_bounded {a : Bool} {allowed : Resolver → Resolver.Op → Prop}
    {es : List (Resolver.Op × Except IoError (List Action))} {r : Resolver} {t : Nat}
    (run : (Resolver.machine allowed).Run (Resolver.new a) 0 es r t) :
    Limited r ∧ ((∀ r op, allowed r op → Modest r op) → Bounded r) := by
  have hinv : BoundsInv (∀ r op, allowed r op → Modest r op) r := by
    refine run.invariant (I := fun r _ => BoundsInv (∀ r op, allowed r op → Modest r op) r) ?_
      fun r t op hi _ hop => hi.step fun hm => hm r op hop
    refine ⟨⟨Nat.zero_le _, fun id p hp => ?_, fun d hd => ?_⟩, Nat.zero_le _, Nat.zero_le _,
      fun _ => Nat.zero_le _, fun _ => Nat.zero_le _⟩
    · cases hp
    · cases hd
  exact ⟨hinv.limited, fun hm => ⟨hinv.limited, hinv.bytes hm⟩⟩

/-- An answer that there is no address of that type for `a`. -/
def openReply : Bytes := [0, 7, 129, 128, 0, 1, 0, 0, 0, 0, 0, 0, 1, 97, 0, 0, 28, 0, 1]

/-- Without a Discovery Proxy, small OPT records are enough: nothing is translated, so that no job
is charged, and what a follow-up question takes along fits the credit. -/
theorem modest_of_small {r : Resolver} (hzone : r.discovery.isNone = true)
    (hdiscovered : r.discovered.entries.isEmpty = true)
    (hopt : (r.pending.values.all fun p => decide (optOctets p.original ≤ 433)) = true)
    (op : Resolver.Op) : Modest r op := by
  have hzone : r.zone = none := by
    rw [Resolver.zone, Option.isNone_iff_eq_none.1 hzone]
    rfl
  have htranslated : ∀ q, translated r.zone q = none := fun q => by
    rw [hzone]
    rfl
  refine ⟨fun _ _ _ q _ _ _ _ htq => ?_, fun _ _ _ _ _ p _ q _ hp _ _ => ?_,
    fun _ _ _ _ _ id p _ _ _ _ hp => ?_⟩
  · rw [htranslated q] at htq
    cases htq
  · rw [Affordable, htranslated q]
    have hname := q.name.length_wire_le
    have hsmall := List.all_eq_true.1 hopt p
      (List.mem_map.2 ⟨_, OrdMap.mem_iff_get.2 hp, rfl⟩)
    simp only [decide_eq_true_eq] at hsmall
    simp only
    omega
  · have hmem := OrdMap.mem_iff_get.2 hp
    rw [List.isEmpty_iff.1 hdiscovered] at hmem
    cases hmem

/-- A question for an IPv6 address is asked, and its reply makes the resolver ask for an IPv4
address. -/
def followedOps : List Resolver.Op :=
  [⟨.setUpstreams [sampleServer], quiet, 0⟩,
    ⟨.submit sampleClient [0, 1, 1, 0, 0, 1, 0, 0, 0, 0, 0, 0, 1, 97, 0, 0, 28, 0, 1], quiet, 0⟩,
    ⟨.receive 1 sampleServer 49152 false openReply, quiet, 10⟩]

/-- The theorem applied to a run in which a query is followed up, and the follow-up waits: the
conditions on its steps are met, and the limits are kept. -/
theorem modest_bounded_followed :
    ∃ es, (Resolver.machine Modest).Run (Resolver.new true) 0 es
    ((Resolver.new true).after followedOps)
        10 ∧ ((Resolver.new true).after followedOps).pending.keys = [2] ∧
      Bounded ((Resolver.new true).after followedOps) := by
  have hmodest : ∀ n, n < followedOps.length →
      ∀ op, Modest ((Resolver.new true).after (followedOps.take n)) op := by
    intro n hn
    have hn : n = 0 ∨ n = 1 ∨ n = 2 := by
      rw [show followedOps.length = 3 from rfl] at hn
      omega
    rcases hn with rfl | rfl | rfl
    all_goals exact modest_of_small (by decide +kernel) (by decide +kernel) (by decide +kernel)
  obtain ⟨es, run⟩ := Resolver.run_after followedOps
    (.nil : (Resolver.machine Modest).Run (Resolver.new true) 0 [] (Resolver.new true) 0)
    ⟨by decide, by decide, by decide, trivial⟩
    fun n op hop => hmodest n (List.getElem?_eq_some_iff.1 hop).1 op
  exact ⟨es, run, by decide +kernel, (modest_bounded run).2 fun _ _ h => h⟩

/-! ## A follow-up that is not within its credit -/

/-- The entry of the first of two queries that fill the tables. -/
def firstEntry (m : Message) : Pending :=
  paddedEntry sampleServer connectedClient (sampleQuestion 28) 63453 m 1 49152 0

/-- The entry of the second one. -/
def secondEntry (m : Message) : Pending :=
  paddedEntry sampleServer connectedClient (sampleQuestion 1) 63455 m 2 49153 0

/-- Two queries of a client fill the tables, and the first one is answered without an address. -/
def crowdedOps : List Resolver.Op :=
  [⟨.setUpstreams [sampleServer], quiet, 0⟩,
    ⟨.submit connectedClient (padded 1 (sampleQuestion 28) 63453).plain, quiet, 0⟩,
    ⟨.submit connectedClient (padded 1 (sampleQuestion 1) 63455).plain, quiet, 0⟩,
    ⟨.receive 1 sampleServer 49152 true openReply, quiet, 10⟩]

section

variable {m₁ m₂ : Message}

/-- What the first query is charged for. -/
theorem charge_firstEntry (h : PaddedAs (sampleQuestion 28) 63453 m₁) :
    (firstEntry m₁).charge = 2097119 :=
  charge_paddedEntry h

/-- What the second query is charged for. -/
theorem charge_secondEntry (h : PaddedAs (sampleQuestion 1) 63455 m₂) :
    (secondEntry m₂).charge = 2097185 :=
  charge_paddedEntry h

/-- The first query is admitted and waits for the upstream server. -/
theorem firstSubmit (h : PaddedAs (sampleQuestion 28) 63453 m₁) :
    (Resolver.submit quiet (serving 0 0 .empty) connectedClient
      (padded 1 (sampleQuestion 28) 63453).plain 0).2 =
        serving 1 1 (OrdMap.empty.insert 1 (firstEntry m₁)) := by
  refine submit_padded (serving_bare 0 1 .empty) rfl rfl rfl rfl h (by decide)
    (sourcePort_empty rfl)
    (full_eq_false _ (by decide) (by decide)) (by decide) (fun e he => nomatch he) ?_
  rw [charge_paddedEntry h]
  decide

/-- The two queries take the whole of what may be taken: the second one is admitted, since what is
charged for both is still within the limit. -/
theorem secondSubmit (h₁ : PaddedAs (sampleQuestion 28) 63453 m₁)
    (h₂ : PaddedAs (sampleQuestion 1) 63455 m₂) :
    (Resolver.submit quiet (serving 1 1 (OrdMap.empty.insert 1 (firstEntry m₁))) connectedClient
      (padded 1 (sampleQuestion 1) 63455).plain 0).2 =
        serving 2 2 ((OrdMap.empty.insert 1 (firstEntry m₁)).insert 2 (secondEntry m₂)) := by
  have htotal : (OrdMap.empty.insert 1 (firstEntry m₁) : OrdMap Nat Pending).total
      (fun _ p => p.charge) = 2097119 := by
    rw [OrdMap.total_insert_of_none rfl, charge_firstEntry h₁]
    rfl
  refine submit_padded (serving_bare 1 2 (OrdMap.empty.insert 1 (firstEntry m₁))) rfl rfl rfl rfl h₂
    (by decide) ((sourcePort_single rfl).trans rfl) (full_eq_false _ (by decide : 1 < 8) ?_)
    (by decide : 1 < 128) (fun e he hkey => ?_) ?_
  · rw [serving_bytes, htotal]
    decide
  · obtain rfl := List.mem_singleton.1 he
    have hlength := congrArg List.length hkey
    simp only [firstEntry, paddedEntry, length_padded] at hlength
    exact absurd hlength (by decide)
  · rw [serving_bytes, htotal, charge_paddedEntry h₂]
    decide

/-- The reply makes the resolver ask for the other addresses of `a`. The octets of the reply are
parsed by evaluation; from there on the branches of `receive` are followed. -/
theorem thirdReceive (m₁ m₂ : Message) : ∃ aq : Question,
    aq.name = (sampleQuestion 1).name ∧
      Resolver.receive quiet (serving 2 2 ((OrdMap.empty.insert 1 (firstEntry m₁)).insert 2
        (secondEntry m₂))) 1 sampleServer 49152 true openReply 10 =
      Resolver.continueAdditional quiet (serving 2 2 (OrdMap.empty.insert 2 (secondEntry m₂)))
        (.fromPending (firstEntry m₁)) aq openReply 10 := by
  have hreply : (Message.parse openReply .unicast).any (fun m => m.flags == 0x8180 && m.id == 7 &&
      m.questions == [sampleQuestion 28] &&
      (additionalQuestion m (sampleQuestion 28) true).any fun aq =>
        aq.name.labels == (sampleQuestion 1).name.labels) = true := by
    decide +kernel
  obtain ⟨reply, hparse, hchecks⟩ := (Option.any_eq_true _ _).1 hreply
  simp only [Bool.and_eq_true, beq_iff_eq, Option.any_eq_true] at hchecks
  obtain ⟨⟨⟨hflags, hid⟩, hquestions⟩, aq, haq, hlabels⟩ := hchecks
  have hlong : (padded 1 (sampleQuestion 28) 63453).plain.length > 4096 := by
    rw [length_padded]
    decide
  have hname : aq.name = (sampleQuestion 1).name := by
    obtain ⟨⟨labels, ok⟩, _, _⟩ := aq
    simp only at hlabels
    subst hlabels
    rfl
  refine ⟨aq, hname, ?_⟩
  rw [← decide_eq_true hlong]
  exact receive_padded (serving_bare 2 2 _) (x := 1) (t := 0) (m := m₁) rfl (by decide) hparse
    (by rw [hflags]; decide) (by rw [hflags]; decide) hid hquestions haq

end

/-- With two queries of 63487 and 63489 octets that wait, a reply of 19 octets brings the charge of
the tables to 4195251 octets. -/
theorem crowded_unbounded : (∃ es, (Resolver.machine fun _ _ => True).Run (Resolver.new true) 0 es
    ((Resolver.new true).after crowdedOps) 10) ∧
      ¬ Bounded ((Resolver.new true).after crowdedOps) := by
  constructor
  · exact Resolver.run_after crowdedOps
      (.nil : (Resolver.machine fun _ _ => True).Run (Resolver.new true) 0 [] (Resolver.new true) 0)
      ⟨by decide, by decide, by decide, by decide, trivial⟩ fun _ _ _ => trivial
  obtain ⟨m₁, h₁⟩ := padded_parse (q := sampleQuestion 28) (n := 63453) (by decide)
  obtain ⟨m₂, h₂⟩ := padded_parse (q := sampleQuestion 1) (n := 63455) (by decide)
  obtain ⟨aq, haq, hthird⟩ := thirdReceive m₁ m₂
  have hafter : (Resolver.new true).after crowdedOps = (Resolver.continueAdditional quiet
      (serving 2 2 (OrdMap.empty.insert 2 (secondEntry m₂))) (.fromPending (firstEntry m₁)) aq
        openReply 10).2 := by
    rw [crowdedOps, Resolver.after_cons, serving_start, Resolver.after_cons, Resolver.step_submit,
      firstSubmit h₁, Resolver.after_cons, Resolver.step_submit, secondSubmit h₁ h₂,
      Resolver.after_cons,
      Resolver.step_receive, hthird, Resolver.after_nil]
  have htotal : (OrdMap.empty.insert 2 (secondEntry m₂) : OrdMap Nat Pending).total
      (fun _ p => p.charge) = 2097185 := by
    rw [OrdMap.total_insert_of_none rfl, charge_secondEntry h₂]
    rfl
  have halias : aliasCharge (OrdMap.empty.insert aq.name ()) = 643 := by
    rw [haq]
    decide +kernel
  have hmade :
      ∃ query, Resolver.makeQuery quiet (serving 2 2 (OrdMap.empty.insert 2 (secondEntry m₂)))
      (padded 0 aq 63453).plain sampleServer = .ok query := by
    have hport := sourcePort_single (r := serving 2 2 (OrdMap.empty.insert 2 (secondEntry m₂))) rfl
    unfold Resolver.makeQuery
    simp only [quiet, hport]
    exact ⟨_, rfl⟩
  obtain ⟨query, hquery⟩ := hmade
  obtain ⟨hexchange, i, hbytes⟩ := Resolver.makeQuery_eq_ok hquery
  have hfourth :
      Resolver.continueAdditional quiet (serving 2 2 (OrdMap.empty.insert 2 (secondEntry m₂)))
      (.fromPending (firstEntry m₁)) aq openReply 10 = _ :=
    continueAdditional_padded (serving_bare 2 2 (OrdMap.empty.insert 2 (secondEntry m₂))) h₁
      (by rw [serving_bytes, htotal, halias]; decide) (by rw [haq]; decide)
  rw [padded_encode (by rw [haq]; decide)] at hfourth
  simp only [hquery] at hfourth
  have hlength : query.bytes.length = 63487 := by
    rw [hbytes, length_queryBytes i (by rw [length_padded]; omega), length_padded, haq]
    rfl
  have hpending : (serving 2 2 (OrdMap.empty.insert 2 (secondEntry m₂))).pending =
      OrdMap.empty.insert 2 (secondEntry m₂) := rfl
  rw [hafter, hfourth]
  intro hbounded
  have hover := Nat.le_trans (Nat.le_add_right _ _)
    (Nat.le_trans (Nat.le_add_right _ _) hbounded.bytes)
  simp only at hover
  rw [hpending, OrdMap.total_insert_of_none (by rw [hexchange]; rfl), htotal,
    charge_followed h₁, hlength, halias] at hover
  exact absurd hover (by decide)

end SnacMachine.Dns
