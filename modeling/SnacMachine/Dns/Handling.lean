import SnacMachine.Dns.Transactions

/-!
# What the resolver does with an entry

Every call of the resolver that answers, repeats or follows up a query takes an entry out of one of
its two tables and deals with it. `Handled` says once what can become of an entry: it is answered,
it is lost to an error, it waits on under a new exchange, or it goes on with a follow-up question in
either table. The calls are brought to this form by `receive_handles`, `failUpstream_handles`,
`tickOne_handles` and `discoverOne_handles`, and what a property of states needs of a call is then
read off the five cases.
-/

namespace SnacMachine.Dns

open Discovery

/-- What of an entry matters once it is out of its table; an entry of the Discovery Proxy has no
query and no exchange. -/
structure Hand where
  purpose : Purpose
  key : Bytes
  original : Message
  question : Question
  waiters : List Waiter
  base : Option Bytes
  forwardCache : Bool
  charge : Nat
  query : Option (Bytes × Nat)

def Pending.hand (p : Pending) : Hand :=
  ⟨p.purpose, p.key, p.original, p.question, p.waiters, p.base, p.forwardCache, p.charge,
    some (p.query.bytes, p.query.exchange)⟩

def Discovered.hand (p : Discovered) : Hand :=
  ⟨.client, p.key, p.original, p.question, p.waiters, p.base, p.forwardCache, p.charge, none⟩

/-- Where the octets come from that an entry is answered with, if the Discovery Proxy's answers to
it have the property `got`. -/
inductive Source (got : Message → Prop) (h : Hand) : Bytes → Prop
  | base {b : Bytes} (hb : h.base = some b) : Source got h b
  | received {b : Bytes} {m : Message} (hp : Message.parse b .unicast = some m)
      (hq : (m.questions == [h.question]) = true) (hb : h.base = none) : Source got h b
  | completed {b : Bytes} {m : Message} (hg : got m) (he : m.encode = some b) (hb : h.base = none) :
      Source got h b
  | failure {b : Bytes} (hf : failure h.original 2 = some b) : Source got h b
  | augmented {b b' : Bytes} {a : Message} {n : Name} (hs : Source got h b)
      (ha : augment b a n = some b') : Source got h b'

/-- A reply with appended addresses is still made of the reply that came. -/
theorem Source.augment_getD {got : Message → Prop} {h : Hand} {b : Bytes} (hs : Source got h b)
    (a : Message) (n : Name) :
    Source got h ((augment b a n).getD b) := by
  cases ha : augment b a n with
  | none => exact hs
  | some b' => exact .augmented hs ha

/-- Why an entry can be lost. -/
inductive Lost (ask : Question → Prop) (got : Message → Prop) (o : Outside)
    (r : Resolver) (h : Hand) :
    IoError → Prop
  | inventory {q : Question} {e : IoError} (he : o.inventory q = .error e) : Lost ask got o r h e
  | followUp {q : Question} (hq : ask q) (hno : (r.discovery.filter fun d => d.accepts q) = none)
      (he : (Resolver.followUp h.original q).encode = none) : Lost ask got o r h wireInvalid
  | query {b : Bytes} {origin : SocketAddr} {e : IoError} (he : r.makeQuery o b origin = .error e) :
      Lost ask got o r h e
  | failure (he : failure h.original 2 = none) (hb : h.base = none) : Lost ask got o r h wireInvalid
  | completed {m : Message} (hg : got m) (he : m.encode = none) (hb : h.base = none) :
      Lost ask got o r h wireInvalid

/-- What becomes of an entry that was taken out of the state, where it had the number `id`, if
follow-up questions have the property `ask` and the Discovery Proxy's answers to it the property
`got`. -/
inductive Handled (ask : Question → Prop) (got : Message → Prop) (o : Outside)
    (now : Nat) (r : Resolver) (id : Nat) (h : Hand) : Outcome → Prop
  /-- It is answered, and its reply stored only if it could be before. -/
  | answered {b : Bytes} {c : Bool} (hs : Source got h b) (hc : c = true → h.forwardCache = true) :
      Handled ask got o now r id h (r.answer h.key h.original c h.waiters b now)
  /-- It was a question of the resolver's own. -/
  | own (hp : h.purpose ≠ .client) : Handled ask got o now r id h (.ok [], r)
  /-- An error leaves it out. -/
  | lost {e : IoError} (why : Lost ask got o r h e) : Handled ask got o now r id h (.error e, r)
  /-- It waits on, with the same question. -/
  | waits {p : Pending} {query : UpstreamQuery} {acts : List Action} {retry attempt next k : Nat}
      (hp : p.hand = h) (hacts : acts = [] ∨ acts = [.upstream query])
      (hnext : (next = r.next ∧ query.bytes = p.query.bytes ∧ query.exchange = p.query.exchange ∧
          (k = id ∨ k = p.query.exchange)) ∨
        (next = r.next + 1 ∧ k = (r.next + 1) % 2 ^ 64 ∧ query.exchange = k ∧
          ∃ i, query.bytes = Resolver.queryBytes i p.query.bytes)) :
      Handled ask got o now r id h (.ok acts, { r with
        next
        pending := r.pending.insert k { p with query, retry, attempt } })
  /-- It goes on with a question for an upstream server. -/
  | asks {p : Pending} {q : Question} {b base : Bytes} {i : UInt16} (hq : ask q)
      (hs : Source got h base) (hno : (r.discovery.filter fun d => d.accepts q) = none)
      (hb : (Resolver.followUp h.original q).encode = some b)
      (hp : p.hand = ⟨.client, h.key, h.original, q, h.waiters, some base, h.forwardCache, p.charge,
        some (Resolver.queryBytes i b, (r.next + 1) % 2 ^ 64)⟩)
      (hroom : r.pendingBytes + p.charge + 11264 ≤ maxBytes + 16 * p.query.bytes.length) :
      Handled ask got o now r id h (.ok [.upstream p.query], { r with
        next := r.next + 1
        pending := r.pending.insert p.query.exchange p })
  /-- It goes on with a question for the Discovery Proxy. -/
  | discovers {p : Discovered} {q : Question} {base : Bytes} {d d' : Proxy} (hq : ask q)
      (hs : Source got h base)
      (hp : p.hand = ⟨.client, h.key, h.original, q, h.waiters, some base, false, p.charge, none⟩)
      (hroom : r.pendingBytes + p.charge + 8192 ≤ maxBytes) (hd : r.discovery = some d)
      (hstart : d.start q now = .ok (p.job, d')) :
      Handled ask got o now r id h (.ok [], { r with
        discovery := some d'
        next := r.next + 1
        discovered := r.discovered.insert ((r.next + 1) % 2 ^ 64) p })

/-! ## Where aliases end -/

/-- The end of a chain of aliases is no alias itself. -/
theorem ChainEnd.ends {m : Message} {start n : Name} (h : ChainEnd m start n) :
    cnameTargets m n = [] := by
  induction h with
  | done h => exact h
  | «alias» _ _ ih => exact ih

/-- The walk along the aliases ends at a name that is no alias; the fuel bounds the number of
steps. -/
theorem aliasLoop_ends {m : Message} :
    ∀ {fuel : Nat} {seen seen' : OrdMap Name Unit} {name n : Name},
    aliasLoop m fuel seen name = (some n, seen') → cnameTargets m n = [] := by
  intro fuel
  induction fuel with
  | zero =>
    intro seen seen' name n h
    unfold aliasLoop at h
    split at h
    · next hnil =>
      cases h
      exact hnil
    · split at h <;> cases h
  | succ fuel ih =>
    intro seen seen' name n h
    unfold aliasLoop at h
    split at h
    · next hnil =>
      cases h
      exact hnil
    · split at h
      · cases h
      · exact ih h

/-- The follow-up question of a reply without a base is for a name that the reply has no alias
of. -/
theorem additionalQuestion_ends {m : Message} {q aq : Question} {enabled : Bool}
    (h : additionalQuestion m q enabled = some aq) : cnameTargets m aq.name = [] := by
  unfold additionalQuestion at h
  split at h
  · cases h
  · obtain ⟨n, hn, rfl⟩ := Option.map_eq_some_iff.1 h
    exact (canonicalLoop_chainEnd hn).ends

/-- So is the follow-up question of a reply that leads on along aliases. It is the name at which the
loop over the aliases has stopped. -/
theorem additionalAlias_ends {m : Message} {q next : Question} {seen seen' : OrdMap Name Unit}
    (h : additionalAlias m q seen = (some next, seen')) : cnameTargets m next.name = [] := by
  unfold additionalAlias at h
  split at h
  · cases h
  · split at h
    · cases h
    · next hloop =>
      split at h
      · cases h
        exact aliasLoop_ends hloop
      · cases h

/-- Where the aliases of a message end, it leads on to no question. -/
theorem additionalAlias_eq_none {m : Message} {q : Question} (h : cnameTargets m q.name = [])
    (seen : OrdMap Name Unit) : (additionalAlias m q seen).1 = none := by
  have hloop : aliasLoop m 17 seen q.name = (some q.name, seen) := by
    unfold aliasLoop
    rw [h]
  unfold additionalAlias
  split
  · rfl
  · rw [hloop]
    simp only [bne, BEq.rfl, Bool.not_true, Bool.false_and, Bool.false_eq_true, if_false]

/-- What every round keeps, the whole keeps. By induction on the items; an error ends the loop, and
the invariant holds of the state that it leaves. -/
theorem each_invariant {α : Type} {f : Resolver → α → Outcome} {I : Resolver → Prop} (xs : List α)
    (hf : ∀ r, ∀ x ∈ xs, I r → I (f r x).2) {r : Resolver} (out : List Action) (h : I r) :
    I (each f xs r out).2 := by
  induction xs generalizing r out with
  | nil => exact h
  | cons x xs ih =>
    have hx := hf r x List.mem_cons_self h
    unfold each
    split
    · next heq => rwa [heq] at hx
    · next heq =>
      rw [heq] at hx
      exact ih (fun r x hx => hf r x (List.mem_cons_of_mem _ hx)) _ hx

namespace Resolver

/-- A query that is made has the next number and the octets that were asked for. Only the identifier
of the octets is drawn. -/
theorem makeQuery_eq_ok {o : Outside} {r : Resolver} {b : Bytes} {origin : SocketAddr}
    {q : UpstreamQuery} (h : r.makeQuery o b origin = .ok q) :
    q.exchange = (r.next + 1) % 2 ^ 64 ∧ ∃ i, q.bytes = queryBytes i b := by
  unfold makeQuery at h
  generalize (if r.privacy then o.route origin else none) = tls at h
  simp only at h
  split at h
  · cases h
  · split at h
    · cases h
    · cases h
      exact ⟨rfl, _, rfl⟩

/-- Eviction changes the cache only. By induction on the fuel, each turn of which removes one entry
from the cache. -/
theorem evict_state (sets size : Nat) : ∀ (fuel : Nat) (r : Resolver),
    ∃ cache, evict sets size fuel r = { r with cache } := by
  intro fuel
  induction fuel with
  | zero => exact fun r => ⟨r.cache, rfl⟩
  | succ fuel ih =>
    intro r
    unfold evict
    split
    · split
      · exact ⟨r.cache, rfl⟩
      · next k _ _ => exact ih { r with cache := r.cache.remove k }
    · exact ⟨r.cache, rfl⟩

/-- Storing a reply changes the cache only. The ends of the function either return the resolver as
it was or with another cache. -/
theorem store_state {r r' : Resolver} {key b : Bytes} {now : Nat} (h : r.store key b now = .ok r') :
    ∃ cache, r' = { r with cache } := by
  unfold store at h
  split at h
  · cases h
  · next m _ =>
    split at h
    · exact ⟨r.cache, (Except.ok.inj h).symm⟩
    · next life _ =>
      simp only at h
      split at h
      · exact ⟨r.cache, (Except.ok.inj h).symm⟩
      · obtain ⟨cache, heq⟩ := evict_state (recordSets m)
          (key.length + (keptWire m b life).length + 128)
          (r.cache.remove key).size { r with cache := r.cache.remove key }
        rw [heq] at h
        exact ⟨_, (Except.ok.inj h).symm⟩

/-- Answering an entry changes neither table. The answer is stored in the cache if it may be, and
given to the waiters. -/
theorem answer_state (r : Resolver) (key : Bytes) (original : Message) (c : Bool)
    (waiters : List Waiter) (b : Bytes) (now : Nat) :
    ∃ finished cache, (r.answer key original c waiters b now).2 = { r with finished, cache } := by
  unfold answer
  simp only
  split
  · split
    · exact ⟨_, _, rfl⟩
    · next heq =>
      obtain ⟨cache, rfl⟩ := store_state heq
      exact ⟨_, _, rfl⟩
  · exact ⟨_, _, rfl⟩

/-- A follow-up question, as `continueAdditional` deals with it: the entry is answered as it is when
the chain of names is at its end, too long or a cycle, and goes on with a new query otherwise. Every
branch is one of the cases of `Handled`. -/
theorem continueAdditional_handled {ask : Question → Prop} {got : Message → Prop}
    (o : Outside) (r : Resolver) {p : Discovered} {h : Hand} {question : Question}
    {base : Bytes} (now id : Nat) (hq : ask question) (hkey : h.key = p.key)
    (horiginal : h.original = p.original) (hwaiters : h.waiters = p.waiters)
    (hforward : h.forwardCache = p.forwardCache) (hbase : p.base = none) (hs : Source got h base) :
    Handled ask got o now r id h (r.continueAdditional o p question base now) := by
  unfold continueAdditional
  -- The names seen are the only thing that the first line of the function changes.
  generalize hal : (if p.aliases.size = 0 then
    { p with aliases := p.aliases.insert question.name () } else p) = p'
  obtain ⟨al, rfl⟩ : ∃ al, p' = { p with aliases := al } := by
    split at hal
    · exact ⟨_, hal.symm⟩
    · exact ⟨p.aliases, hal.symm⟩
  clear hal
  have answered : ∀ b c, Source got h b → (c = true → h.forwardCache = true) →
      Handled ask got o now r id h
      (r.finishDiscovered { p with aliases := al, forwardCache := c } b now) := by
    intro b c hb hc
    unfold finishDiscovered
    simp only [← hkey, ← horiginal, ← hwaiters]
    exact .answered hb hc
  have asis : Handled ask got o now r id h (r.finishDiscovered { p with aliases := al } base now) :=
    answered base p.forwardCache hs (fun hc => hforward.trans hc)
  simp only
  split
  · exact answered _ false (hs.augment_getD _ _) (fun hc => nomatch hc)
  · split
    · next e he => exact .lost (.inventory he)
    · exact answered _ false (hs.augment_getD _ _) (fun hc => nomatch hc)
    · split
      · exact asis
      · next hroom =>
        have hroom := Nat.le_of_not_lt hroom
        split
        · next d hd =>
          have hd : r.discovery = some d := (Option.filter_eq_some_iff.1 hd).1
          split
          · next job d' hstart =>
            refine .discovers (p := { p with
              aliases := al, job, question, base := some base, forwardCache := false }) hq hs ?_ ?_
              hd hstart
            · simp only [Discovered.hand, hkey, horiginal, hwaiters]
            · simp only [Discovered.charge, hbase, Option.elim] at hroom ⊢
              omega
          · exact asis
        · next hno =>
          split
          · exact asis
          · split
            · exact asis
            · split
              · next he => exact .lost (.followUp hq hno (by rw [horiginal]; exact he))
              · next bytes he =>
                split
                · next e hm => exact .lost (.query hm)
                · next query hm =>
                  obtain ⟨hx, i, hbytes⟩ := makeQuery_eq_ok hm
                  refine .asks (p := ⟨.client, p.key, p.original, query, question, p.waiters,
                    satAdd now 10000, satAdd now 1000, 0, some base, p.forwardCache, al⟩)
                    (q := question) (b := bytes) (i := i) hq hs hno ?_ ?_ ?_
                  · rw [horiginal]
                    exact he
                  · simp only [Pending.hand, hkey, horiginal, hwaiters, hforward, hx, hbytes]
                  · simp only [Discovered.charge, Pending.charge, hbase, Option.elim] at hroom ⊢
                    omega

/-- The end of an entry without another answer: it is answered with the reply that it has kept, or
with a failure, or is dropped if even that cannot be encoded. -/
theorem lastReply_handled {ask : Question → Prop} {got : Message → Prop} (o : Outside)
    (r : Resolver) (p : Pending) (now id : Nat) :
    Handled ask got o now r id p.hand (match lastReply p with
      | none => (.error wireInvalid, r)
      | some b => r.finish { p with base := none } b now) := by
  have hsource : ∀ b, lastReply p = some b → Source got p.hand b := by
    intro b hb
    unfold lastReply at hb
    split at hb
    · next b' hbase =>
      obtain rfl := Option.some.inj hb
      exact .base hbase
    · exact .failure hb
  split
  · next hnone =>
    unfold lastReply at hnone
    split at hnone
    · cases hnone
    · next hbase => exact .lost (.failure hnone hbase)
  · next b hb =>
    unfold finish
    split
    · exact .answered (h := p.hand) (c := p.forwardCache) (hsource b hb) fun hc => hc
    · next hp => exact .own hp

/-- Finishing an exchange hands the reply to all that waited, and keeps it in the cache if it may be
kept. -/
theorem finish_handled {ask : Question → Prop} {got : Message → Prop} (o : Outside)
    (r : Resolver) {p : Pending} {h : Hand} {b : Bytes} (now id : Nat)
    (hpurpose : h.purpose = p.purpose) (hkey : h.key = p.key) (horiginal : h.original = p.original)
    (hwaiters : h.waiters = p.waiters) (hforward : h.forwardCache = p.forwardCache)
    (hs : Source got h b) : Handled ask got o now r id h (r.finish p b now) := by
  unfold finish
  split
  · simp only [← hkey, ← horiginal, ← hwaiters, ← hforward]
    exact .answered hs fun hc => hc
  · next hp => exact .own (hpurpose ▸ hp)

end Resolver

/-- The follow-up question that the reply to an entry leads to. Reference: `dns/resolver.rs:730`. -/
def Pending.nextQuestion (p : Pending) (enabled : Bool) (m : Message) : Option Question :=
  match p.base with
  | some _ => (additionalAlias m p.question p.aliases).1
  | none => additionalQuestion m p.question enabled

/-- The follow-up question that a finished answer to an entry leads to. Reference:
`dns/resolver/discovery.rs:145`. -/
def Discovered.nextQuestion (p : Discovered) (enabled : Bool) (m : Message) : Option Question :=
  match p.base with
  | some _ => (additionalAlias m p.question p.aliases).1
  | none => additionalQuestion m p.question enabled

/-- What leads on to a question leads no further from it. -/
theorem Discovered.nextQuestion_ends {p : Discovered} {enabled : Bool} {m : Message} {q : Question}
    (h : p.nextQuestion enabled m = some q) : cnameTargets m q.name = [] := by
  unfold Discovered.nextQuestion at h
  split at h
  · exact additionalAlias_ends (Prod.ext h rfl)
  · exact additionalQuestion_ends h

/-- What a call can do to the tables that deals with at most one entry. -/
inductive Handles (ask : Hand → Question → Prop) (got : Hand → Message → Prop)
    (o : Outside) (now : Nat) (r : Resolver) : Outcome → Prop
  | still : Handles ask got o now r (.ok [], r)
  | pending {id : Nat} {p : Pending} {out : Outcome} (hp : r.pending.get id = some p)
      (h : Handled (ask p.hand) (got p.hand) o now { r with pending := r.pending.remove id }
       id p.hand out) :
      Handles ask got o now r out
  | discovered {id : Nat} {p : Discovered} {out : Outcome} (hp : r.discovered.get id = some p)
      (h : Handled (ask p.hand) (got p.hand) o now { r with discovered := r.discovered.remove id }
       id p.hand out) :
      Handles ask got o now r out

namespace Resolver

/-- An answer of an upstream server is handled for the entry that waits for it, or ignored. It is
ignored unless it comes from the server of the entry and repeats its question; a truncated one is
asked again over TCP. -/
theorem receive_handles (o : Outside) (r : Resolver) (exchange : Nat) (server : SocketAddr)
    (port : UInt16) (tcp : Bool) (bytes : Bytes) (now : Nat) :
    Handles (fun h q => ∃ p m, p.hand = h ∧ r.pending.get exchange = some p ∧
      Message.parse bytes .unicast = some m ∧ p.nextQuestion r.additionalA m = some q)
      (fun _ _ => False) o now r (r.receive o exchange server port tcp bytes now) := by
  unfold receive
  split
  · exact .still
  · next p hp =>
    split
    · exact .still
    · split
      · exact .still
      · next m hm =>
        split
        · exact .still
        · next hreply =>
          have hq : (m.questions == [p.question]) = true := by
            simp only [Bool.or_eq_true, not_or, bne, Bool.not_eq_true', Bool.not_eq_false] at hreply
            exact hreply.2
          split
          · split
            · exact .still
            · refine .pending hp ?_
              simp only
              rw [← OrdMap.insert_remove hp]
              exact .waits (p := p) rfl (.inr rfl)
                (.inl ⟨rfl, rfl, rfl, .inl rfl⟩)
          · refine .pending hp ?_
            simp only
            split
            · next base hbase =>
              split
              · next next _ hnext =>
                refine continueAdditional_handled o _ now exchange ⟨p, m, rfl, hp, hm,
                  ?_⟩ rfl rfl rfl rfl
                  rfl (.base hbase)
                rw [Pending.nextQuestion, hbase]
                exact congrArg Prod.fst hnext
              · exact finish_handled o _ now exchange rfl rfl rfl rfl rfl
                  (Source.augment_getD (.base hbase) _ _)
            · next hbase =>
              split
              · next aq haq =>
                refine continueAdditional_handled o _ now exchange ⟨p, m, rfl, hp, hm,
                  ?_⟩ rfl rfl rfl rfl
                  hbase (.received hm hq hbase)
                rw [Pending.nextQuestion, hbase]
                exact haq
              · exact finish_handled o _ now exchange rfl rfl rfl rfl rfl (.received hm hq hbase)

/-- A failed upstream server is handled for the entry that waits for it. The entry ends with its
last reply, or its query goes out again. -/
theorem failUpstream_handles (o : Outside) (r : Resolver) (exchange now : Nat) :
    Handles (fun _ _ => False) (fun _ _ => False) o now r (r.failUpstream o exchange now) := by
  unfold failUpstream
  split
  · exact .still
  · next p hp =>
    refine .pending hp ?_
    simp only
    split
    · split
      · exact lastReply_handled o _ p now exchange
      · split
        · next e he => exact .lost (.query he)
        · next query hm =>
          obtain ⟨hx, hbytes⟩ := makeQuery_eq_ok hm
          exact .waits (p := p) rfl (.inr rfl) (.inr ⟨rfl, hx, rfl, hbytes⟩)
    · exact lastReply_handled o _ p now exchange

/-- Time that runs out is handled for the entry that it runs out for. The entry fails over, ends
with its last reply, asks again or is put back as it was. -/
theorem tickOne_handles (o : Outside) (now : Nat) (r : Resolver) (id : Nat) :
    Handles (fun _ _ => False) (fun _ _ => False) o now r (tickOne o now r id) := by
  unfold tickOne
  split
  · exact .still
  · next p hp =>
    split
    · exact failUpstream_handles o r id now
    · refine .pending hp ?_
      simp only
      split
      · exact lastReply_handled o _ p now id
      · split
        · split
          · next e he => exact .lost (.query he)
          · next query hm =>
            obtain ⟨hx, hbytes⟩ := makeQuery_eq_ok hm
            exact .waits (p := p) rfl (.inr rfl) (.inr ⟨rfl, hx, rfl, hbytes⟩)
        · exact .waits (p := p) rfl (.inl rfl) (.inl ⟨rfl, rfl, rfl, .inr rfl⟩)

/-- A completed job of the Discovery Proxy is handled for the entries that wait for it, one at a
time. -/
theorem discoverOne_handles (o : Outside) (now : Nat) (done : Completion)
    (r : Resolver) (id : Nat) :
    Handles (fun h q => ∃ p, p.hand = h ∧ r.discovered.get id = some p ∧
      p.nextQuestion r.additionalA (answerTo done p.original) = some q)
      (fun h m => ∃ p, p.hand = h ∧ r.discovered.get id = some p ∧ m = answerTo done p.original)
      o now r (discoverOne o now done r id) := by
  unfold discoverOne
  split
  · exact .still
  · next p hp =>
    refine .discovered hp ?_
    have finished : ∀ {ask got} al b, Source got p.hand b →
        Handled ask got o now { r with discovered := r.discovered.remove id } id p.hand
          (finishDiscovered { r with discovered := r.discovered.remove id }
            { p with base := none, aliases := al } b now) := fun al b hb =>
      .answered (h := p.hand) (c := p.forwardCache) hb fun hc => hc
    simp only
    split
    · next base hbase =>
      split
      · next next _ hnext =>
        refine continueAdditional_handled o _ now id ⟨p, rfl, hp, ?_⟩ rfl rfl rfl rfl rfl
          (.base hbase)
        rw [Discovered.nextQuestion, hbase]
        exact congrArg Prod.fst hnext
      · exact finished _ _ (Source.augment_getD (.base hbase) _ _)
    · next hbase =>
      split
      · next he => exact .lost (.completed ⟨p, rfl, hp, rfl⟩ he hbase)
      · next bytes he =>
        split
        · next aq haq =>
          refine continueAdditional_handled o _ now id ⟨p, rfl, hp, ?_⟩ rfl rfl rfl rfl hbase
            (.completed ⟨p, rfl, hp, rfl⟩ he hbase)
          rw [Discovered.nextQuestion, hbase]
          exact haq
        · exact finished p.aliases _ (.completed ⟨p, rfl, hp, rfl⟩ he hbase)

end Resolver

/-! ## New entries -/

/-- What becomes of a query that is neither answered here nor from the cache. -/
inductive Admitted (now : Nat) (r : Resolver) (m : Message) (key : Bytes) (w : Waiter)
    (bytes : Bytes) :
    Outcome → Prop
  | refused {e : IoError} {next : Nat} (hnext : next = r.next ∨ next = r.next + 1) :
      Admitted now r m key w bytes (.error e, { r with next })
  | failed : Admitted now r m key w bytes
      (ofWire ((failure m 2).bind fun b => (deliver w b).map fun action => [action]), r)
  | joins {id : Nat} {p : Pending} (hfull : r.full w = false) (hp : r.pending.get id = some p)
      (hkey : p.key = key) : Admitted now r m key w bytes (.ok [], { r with
        pending := r.pending.insert id { p with waiters := p.waiters ++ [w] } })
  | joinsDiscovered {id : Nat} {p : Discovered} (hfull : r.full w = false)
      (hp : r.discovered.get id = some p) (hkey : p.key = key) :
      Admitted now r m key w bytes (.ok [], { r with
        discovered := r.discovered.insert id { p with waiters := p.waiters ++ [w] } })
  | asks {p : Pending} {q : Question} {i : UInt16} (hfull : r.full w = false)
      (hcount : r.pendingCount < maxPending) (hq : m.questions.head? = some q)
      (hp : p.hand = ⟨.client, key, m, q, [w], none, true, p.charge,
        some (Resolver.queryBytes i bytes, (r.next + 1) % 2 ^ 64)⟩)
      (hroom : r.pendingBytes + p.charge ≤ maxBytes) :
      Admitted now r m key w bytes (.ok [.upstream p.query], { r with
        next := r.next + 1
        pending := r.pending.insert p.query.exchange p })
  | discovers {p : Discovered} {q : Question} {d d' : Proxy} (hfull : r.full w = false)
      (hcount : r.pendingCount < maxPending) (hq : m.questions.head? = some q)
      (hp : p.hand = ⟨.client, key, m, q, [w], none, false, p.charge, none⟩)
      (hroom : r.pendingBytes + p.charge + 8192 ≤ maxBytes) (hnext : r.next % 2 ^ 64 ≠ u64Max)
      (hd : r.discovery = some d) (hstart : d.start q now = .ok (p.job, d')) :
      Admitted now r m key w bytes (.ok [], { r with
        discovery := some d'
        next := r.next + 1
        discovered := r.discovered.insert ((r.next + 1) % 2 ^ 64) p })

/-- What becomes of a question of the resolver's own. -/
inductive Probed (r : Resolver) : Outcome → Prop
  | skipped {result : Except IoError (List Action)} {next : Nat}
      (hresult : result = .ok [] ∨ ∃ e, result = .error e)
      (hnext : next = r.next ∨ next = r.next + 1) : Probed r (result, { r with next })
  | asks {p : Pending} {b : Bytes} {i : UInt16} (hcount : r.pendingCount < maxPending)
      (hwaiters : p.waiters = []) (hforward : p.forwardCache = false)
      (hparse : Message.parse b .unicast = some p.original) (hopt : p.original.additional = [])
      (hbytes : p.query.bytes = Resolver.queryBytes i b)
      (hexchange : p.query.exchange = (r.next + 1) % 2 ^ 64)
      (hroom : r.pendingBytes + p.charge ≤ maxBytes) :
      Probed r (.ok [], { r with
        next := r.next + 1
        pending := r.pending.insert p.query.exchange p })

namespace Resolver

/-- A query for an upstream server is admitted within the limits, or refused: it joins an entry with
the same question, or is entered if there is room for it. One branch of the source for each case of
`Admitted`. -/
theorem enqueue_admitted (o : Outside) (r : Resolver) (m : Message) (key : Bytes) (w : Waiter)
    (bytes : Bytes) (now : Nat) :
    Admitted now r m key w bytes (r.enqueue o m key w bytes now) := by
  unfold enqueue
  split
  · exact .refused (.inl rfl)
  · next hfull =>
    have hfull := Bool.eq_false_iff.2 hfull
    split
    · next id p hfind =>
      exact .joins hfull (OrdMap.mem_iff_get.1 (List.mem_of_find?_eq_some hfind))
        (by simpa using List.find?_some hfind)
    · split
      · next q _ _ hquestions =>
        split
        · exact .refused (.inl rfl)
        · next hcount =>
          split
          · exact .refused (.inl rfl)
          · next query hm =>
            obtain ⟨hx, i, hbytes⟩ := makeQuery_eq_ok hm
            simp only
            split
            · exact .refused (.inr rfl)
            · next hroom =>
              refine .asks (p := ⟨.client, key, m, query, q, [w], satAdd now 10000,
                satAdd now 1000, 0, none, true, .empty⟩) (i := i) hfull (Nat.lt_of_not_le hcount)
                (by rw [hquestions]; rfl) ?_ (Nat.le_of_not_lt hroom)
              simp only [Pending.hand, hx, hbytes]
      · exact .failed

/-- A query for the Discovery Proxy is admitted within the limits, or refused: it joins an entry
with the same question, or starts a job if there is room for it. One branch of the source for each
case of `Admitted`. -/
theorem submitDiscovery_admitted (r : Resolver) (m : Message) (key : Bytes) (w : Waiter)
    (bytes : Bytes) (now : Nat) :
    Admitted now r m key w bytes (r.submitDiscovery m key w now) := by
  unfold submitDiscovery
  split
  · exact .refused (.inl rfl)
  · next hfull =>
    have hfull := Bool.eq_false_iff.2 hfull
    split
    · next id p hfind =>
      exact .joinsDiscovered hfull (OrdMap.mem_iff_get.1 (List.mem_of_find?_eq_some hfind))
        (by simpa using List.find?_some hfind)
    · split
      · exact .refused (.inl rfl)
      · next hcount =>
        split
        · next q qs d hquestions hd =>
          simp only
          split
          · exact .refused (.inl rfl)
          · next hroom =>
            split
            · exact .refused (.inl rfl)
            · next hnext =>
              split
              · exact .refused (.inl rfl)
              · next job d' hstart =>
                exact .discovers (p := ⟨key, m, q, job, [w], none, false, .empty⟩) hfull
                  (Nat.lt_of_not_le hcount) (by rw [hquestions]; rfl) rfl (Nat.le_of_not_lt hroom)
                  hnext hd hstart
        · exact .refused (.inl rfl)

/-- A message with nothing but a question is well formed. -/
theorem questionOnly_wellFormed (q : Question) :
    Message.WellFormed { Message.new 0 0x100 with questions := [q] } :=
  ⟨show 1 ≤ maxRecords by decide, fun _ hr => absurd hr List.not_mem_nil, trivial, trivial, trivial⟩

/-- A query of resolver discovery is admitted within the limits, or dropped. What is kept as the
entry's question is the query as it was encoded (`encodeContext_parse`), and neither a plain nor an
encrypted route changes its octets. -/
theorem probeOne_probed (o : Outside) (r : Resolver) (probe : Probe) :
    Probed r (probeOne o r probe) := by
  unfold probeOne
  split
  · exact .skipped (.inl rfl) (.inl rfl)
  · next hfree =>
    simp only
    split
    · exact .skipped (.inr ⟨_, rfl⟩) (.inl rfl)
    · next bytes he =>
      split
      · exact .skipped (.inr ⟨_, rfl⟩) (.inl rfl)
      · next query hm _ => exact .skipped (.inr ⟨_, rfl⟩) (.inr rfl)
      · next query original hm hparse =>
        obtain ⟨hx, i, hbytes⟩ := makeQuery_eq_ok hm
        obtain ⟨m', hm', hsame⟩ := encodeContext_parse (questionOnly_wellFormed probe.question) he
        obtain rfl := Option.some.inj (hparse.symm.trans hm')
        -- A plain question changes the route of the query and neither its number nor its octets.
        generalize hq : (if probe.plain then
          { query with server := probe.origin, tls := none, tcp := false } else query) = query'
        obtain ⟨hx', hbytes'⟩ : query'.exchange = query.exchange ∧ query'.bytes = query.bytes := by
          split at hq
          · subst hq
            exact ⟨rfl, rfl⟩
          · subst hq
            exact ⟨rfl, rfl⟩
        rw [hx] at hx'
        split
        · next hroom =>
          refine .asks (p := ⟨probe.purpose, [], original, query', probe.question, [], probe.until_,
            probe.until_, 0, none, false, .empty⟩) (i := i) ?_ rfl rfl hparse
            hsame.additional (hbytes'.trans hbytes) hx' hroom
          omega
        · exact .skipped (.inl rfl) (.inr rfl)

/-! ## Queries before the cache -/

/-- A query that goes on to the cache or to the Discovery Proxy. -/
structure Dispatched (client : Client) (bytes : Bytes) (m : Message) (key : Bytes) (w : Waiter) :
    Prop where
  parsed : Message.parse bytes .unicast = some m
  query : notQuery m = false
  key : queryKey m = some key
  waiter : w = ⟨client, m.id, clientLimit client m⟩

/-- Counting a source changes the table of sources only, and no source is added beyond the limit.
Sources whose time is over are dropped first, so that a table that is full is one of live
sources. -/
theorem admit_state (r : Resolver) (source : IpAddr) (now : Nat) :
    ∃ rates, (r.admitSource source now).2 = { r with rates } ∧
      (r.rates.size ≤ 32 → rates.size ≤ 32) := by
  unfold admitSource
  have hretain := OrdMap.size_retain_le r.rates fun _ e => decide (e.1 > now)
  simp only
  split
  · exact ⟨_, rfl, fun h => Nat.le_trans hretain h⟩
  · next hnew =>
    generalize ((r.rates.retain fun _ e => decide (e.1 > now)).get source).getD
      (satAdd now 1000, 0) = e
    obtain ⟨until_, count⟩ := e
    simp only
    split
    · exact ⟨_, rfl, fun h => Nat.le_trans hretain h⟩
    · refine ⟨_, rfl, fun h => ?_⟩
      cases hc : (r.rates.retain fun _ e => decide (e.1 > now)).contains source with
      | true =>
        rw [OrdMap.size_insert_of_contains _ hc]
        exact Nat.le_trans hretain h
      | false =>
        have := OrdMap.size_insert_le (r.rates.retain fun _ e => decide (e.1 > now)) source
          (until_, count + 1)
        have : ¬ 32 ≤ (r.rates.retain fun _ e => decide (e.1 > now)).size := fun hle =>
          hnew ⟨hc, hle⟩
        omega

/-- Until the cache is asked, a query changes the rates only. The checks come in the order of the
source, each of which answers or drops the query at once; what passes all of them is `Dispatched`,
to the Discovery Proxy or to an upstream server. -/
theorem dispatch_spec (o : Outside) (r : Resolver) (client : Client) (bytes : Bytes) (now : Nat) :
    (∃ rates, (r.dispatch o client bytes now).2 = { r with rates } ∧
      (r.rates.size ≤ 32 → rates.size ≤ 32)) ∧
      ∀ m key w, ((r.dispatch o client bytes now).1 = .forward m key w ∨
        (r.dispatch o client bytes now).1 = .discover m key w) →
        Dispatched client bytes m key w := by
  unfold dispatch
  split
  · exact ⟨⟨r.rates, rfl, fun h => h⟩, by simp⟩
  · next m hm =>
    split
    · exact ⟨⟨r.rates, rfl, fun h => h⟩, by simp⟩
    · obtain ⟨rates, hrates, hsize⟩ := r.admit_state client.address.ip now
      split
      · next heq =>
        rw [heq] at hrates
        exact ⟨⟨rates, hrates, hsize⟩, by simp⟩
      · next r' heq =>
        rw [heq] at hrates
        have state : ∃ rates, r' = { r with rates } ∧ (r.rates.size ≤ 32 → rates.size ≤ 32) :=
          ⟨rates, hrates, hsize⟩
        split
        · exact ⟨state, by simp⟩
        · split
          · exact ⟨state, by simp⟩
          · next hquery =>
            have hone := Bool.eq_false_iff.2 hquery
            split
            · exact ⟨state, by simp⟩
            · simp only
              split
              · exact ⟨state, by simp⟩
              · split
                · exact ⟨state, by simp⟩
                · split
                  · exact ⟨state, by simp⟩
                  · next key hkey =>
                    split
                    · exact ⟨state, by simp⟩
                    · split
                      · refine ⟨state, fun m' key' w' h => ?_⟩
                        simp only [reduceCtorEq, false_or, Dispatch.discover.injEq] at h
                        obtain ⟨rfl, rfl, rfl⟩ := h
                        exact ⟨hm, hone, hkey, rfl⟩
                      · split
                        · exact ⟨state, by simp⟩
                        · refine ⟨state, fun m' key' w' h => ?_⟩
                          simp only [reduceCtorEq, or_false, Dispatch.forward.injEq] at h
                          obtain ⟨rfl, rfl, rfl⟩ := h
                          exact ⟨hm, hone, hkey, rfl⟩

end Resolver

end SnacMachine.Dns
