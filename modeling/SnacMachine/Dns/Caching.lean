import SnacMachine.Dns.Handling
import SnacMachine.Dns.Delivery

/-!
# The cache of replies

What the cache holds in every run of the resolver: each entry was made of a reply that a query with
the same key was finished with (`Kept`), and the cache stays within its two limits. So a query that
is answered from the cache gets what an equal query was answered with, aged by the time gone by, and
before any of its lifetimes ends (`cache_sound`).
-/

namespace SnacMachine.Dns

open Discovery

/-- An entry of the cache as it is made of a reply. -/
structure Kept (b : Bytes) (c : Cache) (m : Message) (seconds : UInt32) : Prop where
  parsed : Message.parse b .unicast = some m
  life : Resolver.life m = some seconds
  wire : c.wire = Resolver.keptWire m b seconds
  expires : c.expires = satAdd c.inserted (seconds.toNat * 1000)
  sets : c.sets = Resolver.recordSets m

/-- Both limits of the cache. -/
def CacheFits (cache : OrdMap Bytes Cache) : Prop :=
  (cache.total fun _ c => c.sets) ≤ maxCacheSets ∧
    (cache.total fun k c => k.length + c.wire.length + 128) ≤ maxBytes

/-- The entries of one cache are those of another. -/
def Within (cache cache' : OrdMap Bytes Cache) : Prop :=
  ∀ k c, cache.get k = some c → cache'.get k = some c

namespace Resolver

/-! ## Making room -/

/-- The set to be evicted is one of the sets. -/
theorem oldest_mem : ∀ {l : List (Bytes × Cache)} {e : Bytes × Cache}, oldest l = some e → e ∈ l
  | e' :: es, e, h => by
    unfold oldest at h
    split at h
    · obtain rfl := Option.some.inj h
      exact List.mem_cons_self
    · next x hx =>
      obtain rfl := Option.some.inj h
      split
      · exact List.mem_cons_of_mem _ (oldest_mem hx)
      · exact List.mem_cons_self

/-- There is no set to evict only if there are no sets. -/
theorem oldest_eq_none {l : List (Bytes × Cache)} (h : oldest l = none) : l = [] := by
  cases l with
  | nil => rfl
  | cons e es =>
    unfold oldest at h
    split at h <;> cases h

/-- Making room drops entries only, until the new one fits or nothing is left. By induction on the
fuel, which is the size of the cache: each turn removes the oldest entry, and an empty cache has
room for anything within the limits. -/
theorem evict_spec {sets size : Nat} (hsets : sets ≤ maxCacheSets) (hsize : size ≤ maxBytes) :
    ∀ (fuel : Nat) (r : Resolver), r.cache.size ≤ fuel →
      ∃ cache, evict sets size fuel r = { r with cache } ∧ Within cache r.cache ∧
        (cache.total fun _ c => c.sets) + sets ≤ maxCacheSets ∧
        (cache.total fun k c => k.length + c.wire.length + 128) + size ≤ maxBytes := by
  intro fuel
  induction fuel with
  | zero =>
    intro r hr
    have hnil : r.cache.entries = [] := List.length_eq_zero_iff.1 (Nat.le_zero.1 hr)
    refine ⟨r.cache, rfl, fun _ _ h => h, ?_, ?_⟩
    all_goals simpa [OrdMap.total, hnil]
  | succ fuel ih =>
    intro r hr
    unfold evict
    split
    · split
      · next hnone =>
        have hnil := oldest_eq_none hnone
        refine ⟨r.cache, rfl, fun _ _ h => h, ?_, ?_⟩
        all_goals simpa [OrdMap.total, hnil]
      · next k c hold =>
        have hget := OrdMap.mem_iff_get.1 (oldest_mem hold)
        have hless := OrdMap.size_remove hget
        obtain ⟨cache, heq, hwithin, h₁, h₂⟩ := ih { r with cache := r.cache.remove k } (by
          simp only
          omega)
        refine ⟨cache, heq, fun k' c' h => ?_, h₁, h₂⟩
        have := hwithin k' c' h
        rw [OrdMap.get_remove_eq] at this
        split at this
        · cases this
        · exact this
    · next hfits =>
      unfold cacheSets cacheBytes at hfits
      exact ⟨r.cache, rfl, fun _ _ h => h, by omega, by omega⟩

/-- What storing a reply does: nothing, or it enters a new entry and drops others. A reply is left
out when it cannot be cached or is too large for an empty cache; otherwise `evict_spec` makes room
for it. -/
theorem store_eq_ok {r r' : Resolver} {key b : Bytes} {now : Nat} (h : r.store key b now = .ok r')
    (hfits : CacheFits r.cache) :
    ∃ cache, r' = { r with cache } ∧ CacheFits cache ∧ ∀ k c, cache.get k = some c →
      r.cache.get k = some c ∨
        k = key ∧ c.inserted = now ∧ c.last = now ∧ ∃ m seconds, Kept b c m seconds := by
  unfold store at h
  split at h
  · cases h
  · next m hm =>
    split at h
    · obtain rfl := Except.ok.inj h
      exact ⟨r.cache, rfl, hfits, fun _ _ hk => .inl hk⟩
    · next life hlife =>
      simp only at h
      split at h
      · obtain rfl := Except.ok.inj h
        exact ⟨r.cache, rfl, hfits, fun _ _ hk => .inl hk⟩
      · next hsmall =>
        have hsets : recordSets m ≤ maxCacheSets := by omega
        have hsize : key.length + (keptWire m b life).length + 128 ≤ maxBytes := by omega
        obtain ⟨cache, heq, hwithin, h₁, h₂⟩ := evict_spec hsets hsize
          (r.cache.remove key).size { r with cache := r.cache.remove key } (Nat.le_refl _)
        rw [heq] at h
        obtain rfl := Except.ok.inj h
        have hnew : cache.get key = none := by
          cases hget : cache.get key with
          | none => rfl
          | some c =>
            have := hwithin key c hget
            rw [OrdMap.get_remove_self] at this
            cases this
        refine ⟨_, rfl, ⟨?_, ?_⟩, fun k c hk => ?_⟩
        · rw [OrdMap.total_insert_of_none hnew]
          exact h₁
        · rw [OrdMap.total_insert_of_none hnew]
          exact h₂
        · rw [OrdMap.get_insert_eq] at hk
          split at hk
          · next heq =>
            obtain rfl := Option.some.inj hk
            exact .inr ⟨heq.symm, rfl, rfl, m, life, hm, hlife, rfl, rfl, rfl⟩
          · have := hwithin k c hk
            rw [OrdMap.get_remove_eq] at this
            split at this
            · cases this
            · exact .inl this

/-! ## Lifetimes -/

/-- A reply is kept for some time, which no lifetime of its records falls short of, and neither, if
it is a negative one, the minimum of a SOA record of its authority section. -/
theorem life_spec {m : Message} {seconds : UInt32} (h : life m = some seconds) :
    0 < seconds.toNat ∧ (∀ r ∈ m.records, r.kind ≠ 41 → seconds ≤ r.ttl) ∧
      (¬ (rcode m = 0 ∧ positive m = true) → ∀ r ∈ m.authority, ∀ a b c d e f minimum,
        r.data = .soa a b c d e f minimum → seconds ≤ minimum) := by
  unfold life at h
  obtain ⟨h, hpos⟩ := Option.filter_eq_some_iff.1 h
  obtain ⟨first, hfirst, hmin⟩ := Option.map_eq_some_iff.1 h
  have hle : seconds ≤ first := by
    rw [← hmin]
    cases (lifetimes m).min? with
    | none => exact Std.le_refl _
    | some l => exact Std.min_le_right
  refine ⟨?_, fun r hr hkind => ?_, fun hneg r hr a b c d e f minimum hdata => ?_⟩
  · exact UInt32.lt_iff_toNat_lt.1 (of_decide_eq_true hpos)
  · have hmem : r.ttl ∈ lifetimes m := by
      refine List.mem_map.2 ⟨r, List.mem_filter.2 ⟨hr, ?_⟩, rfl⟩
      simpa using hkind
    obtain ⟨l, hl⟩ := Option.isSome_iff_exists.1
      (List.isSome_min?_of_mem hmem)
    rw [hl] at hmin
    have := (List.min?_eq_some_iff.1 hl).2 _ hmem
    exact Std.le_trans (by rw [← hmin]; exact Std.min_le_left) this
  · rw [if_neg hneg] at hfirst
    split at hfirst
    · have hmem : min r.ttl minimum ∈ negativeLifetimes m :=
        List.mem_filterMap.2 ⟨r, hr, by rw [hdata]⟩
      have := (List.min?_eq_some_iff.1 hfirst).2 _ hmem
      exact Std.le_trans hle (Std.le_trans this Std.min_le_right)
    · cases hfirst

/-- The lifetime that a record is stored with, if it is changed. -/
def storedTtl (m : Message) (seconds : UInt32) (r : Record) : Option UInt32 :=
  if positive m = false ∧ r.kind = 6 then some (min r.ttl seconds) else none

/-- Without new lifetimes there is nothing to patch. -/
theorem patchTtls_none : ∀ (spans : List RecordSpan) {ts : List (Option UInt32)} (b : Bytes),
    (∀ t ∈ ts, t = none) → patchTtls spans ts b = b
  | [], _, _, _ => rfl
  | _ :: _, [], _, _ => rfl
  | s :: ss, none :: ts, b, h =>
    patchTtls_none ss b fun t ht => h t (List.mem_cons_of_mem _ ht)
  | _ :: _, some t :: _, _, h => absurd (h (some t) List.mem_cons_self) (by simp)

/-- The octets that are kept are those of the reply with the lifetimes that are stored. A reply that
keeps its lifetimes is the one with nothing to patch. -/
theorem keptWire_eq (m : Message) (b : Bytes) (seconds : UInt32) :
    keptWire m b seconds = patchTtls m.spans (m.records.map (storedTtl m seconds)) b := by
  unfold keptWire
  split
  · next hpos =>
    refine (patchTtls_none _ _ fun t ht => ?_).symm
    obtain ⟨r, -, rfl⟩ := List.mem_map.1 ht
    simp [storedTtl, hpos]
  · next hneg =>
    congr 1
    refine List.map_congr_left fun r _ => ?_
    simp [storedTtl, hneg]

end Resolver

/-- A reply as the cache keeps it: the lifetimes of the SOA records of a negative one are cut
down. -/
def storedReply (m : Message) (seconds : UInt32) (b : Bytes) : Message :=
  { m.setTtls (m.records.map (Resolver.storedTtl m seconds)) with original := b }

/-- The octets of an entry of the cache are read as the reply it was made of, with the lifetimes it
was stored with. -/
theorem Kept.parse {b : Bytes} {c : Cache} {m : Message} {seconds : UInt32}
    (h : Kept b c m seconds) :
    Message.parse c.wire .unicast = some (storedReply m seconds c.wire) := by
  have hts : (m.records.map (Resolver.storedTtl m seconds)).length = m.records.length :=
    List.length_map _
  obtain ⟨hpatched, hid, hflags, hret⟩ := parse_patchTtls h.parsed hts
  rw [h.wire, Resolver.keptWire_eq, parse_setTtls h.parsed hpatched hts hret, hid, hflags]
  rfl

/-- The records of a message with new lifetimes. -/
theorem Message.records_setTtls {m : Message} (f : Record → Option UInt32) :
    (m.setTtls (m.records.map f)).records = m.records.map fun r => r.setTtl (f r) := by
  have hsections := m.sections_zipWith Record.setTtl (Nat.le_of_eq (List.length_map f).symm)
  rw [Message.records, List.append_assoc]
  refine hsections.symm.trans ?_
  rw [List.zipWith_map_right, List.zipWith_self]

/-- No lifetime of a stored reply is shorter than the time it is kept. -/
theorem Kept.le_ttl {b : Bytes} {c : Cache} {m : Message} {seconds : UInt32}
    (h : Kept b c m seconds) {r : Record} (hr : r ∈ (storedReply m seconds c.wire).records)
    (hkind : r.kind ≠ 41) : seconds ≤ r.ttl := by
  have hr : r ∈ (m.setTtls (m.records.map (Resolver.storedTtl m seconds))).records := hr
  rw [Message.records_setTtls] at hr
  obtain ⟨r, hmem, rfl⟩ := List.mem_map.1 hr
  have hle := (Resolver.life_spec h.life).2.1 r hmem hkind
  unfold Record.setTtl Resolver.storedTtl
  split
  · exact Std.le_min_iff.2 ⟨hle, Std.le_refl _⟩
  · exact hle

/-! ## What the cache holds along a run -/

/-- The events of a run. -/
abbrev Events := List (Resolver.Op × Except IoError (List Action))

/-- A message was submitted as a query. -/
def Asked (es : Events) (m : Message) : Prop :=
  ∃ e ∈ es, ∃ client bytes, e.1.call = .submit client bytes ∧ Message.parse bytes .unicast = some m

/-- What was asked stays asked as the run goes on. -/
theorem Asked.mono {es : Events} {m : Message} (h : Asked es m) (e) : Asked (es ++ [e]) m := by
  obtain ⟨e', he, hcall⟩ := h
  exact ⟨e', List.mem_append_left _ he, hcall⟩

/-- A message was submitted as a query with a key. -/
structure AskedUnder (es : Events) (m : Message) (key : Bytes) : Prop where
  asked : Asked es m
  query : notQuery m = false
  key : queryKey m = some key

/-- An entry whose reply may be stored under its key belongs to a query with that key. -/
def KeyOk (es : Events) (key : Bytes) (original : Message) (forwardCache : Bool) : Prop :=
  forwardCache = true → AskedUnder es original key

/-- What holds of the tables and the cache after a run with the events `es`, at the moment `t`. -/
structure CacheInv (es : Events) (r : Resolver) (t : Nat) : Prop where
  pending : ∀ id p, r.pending.get id = some p → KeyOk es p.key p.original p.forwardCache
  discovered : ∀ id p, r.discovered.get id = some p → KeyOk es p.key p.original p.forwardCache
  cached : ∀ k c, r.cache.get k = some c → ∃ f ∈ r.finished, f.time = c.inserted ∧
    AskedUnder es f.original k ∧ ∃ m seconds, Kept f.reply c m seconds
  times : ∀ f ∈ r.finished, f.time ≤ t
  fits : CacheFits r.cache

namespace CacheInv

variable {es : Events} {r : Resolver} {t now : Nat}

/-- One more event takes nothing away from what the cache rests on. -/
theorem mono (h : CacheInv es r t) (e) : CacheInv (es ++ [e]) r t where
  pending id p hp hc := { h.pending id p hp hc with asked := (h.pending id p hp hc).asked.mono e }
  discovered id p hp hc :=
    { h.discovered id p hp hc with asked := (h.discovered id p hp hc).asked.mono e }
  cached k c hc := by
    obtain ⟨f, hf, htime, hasked, hrest⟩ := h.cached k c hc
    exact ⟨f, hf, htime, { hasked with asked := hasked.asked.mono e }, hrest⟩
  times := h.times
  fits := h.fits

/-- Time that goes by takes nothing away from what the cache rests on. -/
theorem later (h : CacheInv es r t) (hle : t ≤ now) : CacheInv es r now :=
  { h with times := fun f hf => Nat.le_trans (h.times f hf) hle }

/-- Entries that were there, or that belong to their keys, may be in the tables. The rest of the
invariant speaks of the cache and of what is finished, which stay. -/
theorem tables (h : CacheInv es r t) {r' : Resolver} (hcache : r'.cache = r.cache)
    (hfinished : r'.finished = r.finished)
    (hpending : ∀ id p, r'.pending.get id = some p → KeyOk es p.key p.original p.forwardCache)
    (hdiscovered : ∀ id p, r'.discovered.get id = some p →
      KeyOk es p.key p.original p.forwardCache) : CacheInv es r' t where
  pending := hpending
  discovered := hdiscovered
  cached := by
    rw [hcache, hfinished]
    exact h.cached
  times := by
    rw [hfinished]
    exact h.times
  fits := by
    rw [hcache]
    exact h.fits

/-- Fewer entries of the cache. -/
theorem forget (h : CacheInv es r t) {cache : OrdMap Bytes Cache} (hwithin : Within cache r.cache)
    (hfits : CacheFits cache) : CacheInv es { r with cache } t :=
  { h with cached := fun k c hc => h.cached k c (hwithin k c hc), fits := hfits }

/-- An empty cache rests on nothing. -/
theorem clear (h : CacheInv es r t) : CacheInv es { r with cache := .empty } t :=
  h.forget (fun k c hc => by simp at hc) ⟨by simp, by simp⟩

/-- Dropping what has expired leaves sound entries. -/
theorem expireCache (h : CacheInv es r t) (now : Nat) : CacheInv es (r.expireCache now) t := by
  refine h.forget (fun k c hc => ?_) ⟨?_, ?_⟩
  · rw [OrdMap.get_retain_values] at hc
    exact (Option.filter_eq_some_iff.1 hc).1
  · exact Nat.le_trans (OrdMap.total_retain_le _ _ _) h.fits.1
  · exact Nat.le_trans (OrdMap.total_retain_le _ _ _) h.fits.2

/-- An entry that is answered, its reply stored if it may be. The answer is logged first, and what
is stored was answered under the key of the entry, at this time. -/
theorem answer (h : CacheInv es r t) {key b : Bytes} {original : Message} {c : Bool}
    {waiters : List Waiter} (hkey : KeyOk es key original c) (hle : t ≤ now) :
    CacheInv es (r.answer key original c waiters b now).2 now := by
  have hnow := h.later hle
  have hlog : CacheInv es { r with finished := r.finished ++ [⟨original, b, now⟩] } now :=
    { hnow with
      cached := fun k c hc => by
        obtain ⟨f, hf, hrest⟩ := hnow.cached k c hc
        exact ⟨f, List.mem_append_left _ hf, hrest⟩
      times := fun f hf => by
        rcases List.mem_append.1 hf with hf | hf
        · exact hnow.times f hf
        · rw [List.mem_singleton.1 hf] }
  unfold Resolver.answer
  simp only
  split
  · next hc =>
    split
    · exact hlog
    · next r' hstore =>
      obtain ⟨cache, rfl, hfits, hentries⟩ := Resolver.store_eq_ok hstore hlog.fits
      refine { hlog with cached := fun k c hk => ?_, fits := hfits }
      rcases hentries k c hk with hold | ⟨rfl, htime, -, hkept⟩
      · exact hlog.cached k c hold
      · exact ⟨_, List.mem_append_right _ (List.mem_singleton.2 rfl), htime.symm, hkey hc, hkept⟩
  · exact hlog

/-- The entries still belong to the queries that were asked, if the new one does. -/
theorem insertPending (h : CacheInv es r t) {k : Nat} {p : Pending}
    (hp : KeyOk es p.key p.original p.forwardCache) (id : Nat) (q : Pending)
    (hq : (r.pending.insert k p).get id = some q) : KeyOk es q.key q.original q.forwardCache := by
  rw [OrdMap.get_insert_eq] at hq
  split at hq
  · obtain rfl := Option.some.inj hq
    exact hp
  · exact h.pending id q hq

/-- The entries still belong to the queries that were asked, if the new one that waits for the
Discovery Proxy does. -/
theorem insertDiscovered (h : CacheInv es r t) {k : Nat} {p : Discovered}
    (hp : KeyOk es p.key p.original p.forwardCache) (id : Nat) (q : Discovered)
    (hq : (r.discovered.insert k p).get id = some q) :
    KeyOk es q.key q.original q.forwardCache := by
  rw [OrdMap.get_insert_eq] at hq
  split at hq
  · obtain rfl := Option.some.inj hq
    exact hp
  · exact h.discovered id q hq

/-- Removing an entry leaves the others, each with the query it belongs to. -/
theorem removePending (h : CacheInv es r t) (k : Nat) :
    CacheInv es { r with pending := r.pending.remove k } t := by
  refine h.tables rfl rfl (fun id q hq => ?_) h.discovered
  rw [OrdMap.get_remove_eq] at hq
  split at hq
  · cases hq
  · exact h.pending id q hq

/-- Removing an entry that waits for the Discovery Proxy leaves the others. -/
theorem removeDiscovered (h : CacheInv es r t) (k : Nat) :
    CacheInv es { r with discovered := r.discovered.remove k } t := by
  refine h.tables rfl rfl h.pending fun id q hq => ?_
  rw [OrdMap.get_remove_eq] at hq
  split at hq
  · cases hq
  · exact h.discovered id q hq

/-- An entry that was taken out and dealt with leaves the invariant: it is answered, dropped, or put
back under the key that it had. -/
theorem handled (h : CacheInv es r t) {ask : Question → Prop} {got : Message → Prop}
    {o : Outside} {id : Nat} {hand : Hand} {out : Outcome}
    (hd : Handled ask got o now r id hand out)
    (hkey : KeyOk es hand.key hand.original hand.forwardCache) (hle : t ≤ now) :
    CacheInv es out.2 now := by
  have hnow := h.later hle
  cases hd with
  | answered _ hc => exact h.answer (fun h => hkey (hc h)) hle
  | own _ => exact hnow
  | lost _ => exact hnow
  | waits hp _ _ =>
    subst hp
    exact hnow.tables rfl rfl (h.insertPending hkey) hnow.discovered
  | asks _ _ _ _ hp _ =>
    simp only [Pending.hand, Hand.mk.injEq] at hp
    obtain ⟨-, hk, ho, -, -, -, hf, -⟩ := hp
    refine hnow.tables rfl rfl (h.insertPending ?_) hnow.discovered
    rw [hk, ho, hf]
    exact hkey
  | discovers _ _ hp _ _ _ =>
    simp only [Discovered.hand, Hand.mk.injEq] at hp
    obtain ⟨-, -, -, -, -, -, hf, -⟩ := hp
    refine hnow.tables rfl rfl hnow.pending (h.insertDiscovered fun hc => ?_)
    rw [hf] at hc
    cases hc

/-- A call that deals with at most one entry. -/
theorem handles (h : CacheInv es r t) {ask : Hand → Question → Prop} {got : Hand → Message → Prop}
    {o : Outside} {out : Outcome} (hd : Handles ask got o now r out) (hle : t ≤ now) :
    CacheInv es out.2 now := by
  cases hd with
  | still => exact h.later hle
  | @pending id p _ hp hd => exact (h.removePending id).handled hd (h.pending id p hp) hle
  | @discovered id p _ hp hd => exact (h.removeDiscovered id).handled hd (h.discovered id p hp) hle

/-- A query that is new, or joins an entry with its key, leaves the invariant: a new entry has the
key of the query, and an entry that is joined keeps its own. -/
theorem admitted (h : CacheInv es r t) {m : Message} {key bytes : Bytes} {w : Waiter}
    {out : Outcome} (ha : Admitted now r m key w bytes out) (hkey : KeyOk es key m true) :
    CacheInv es out.2 t := by
  cases ha with
  | refused _ => exact h.tables rfl rfl h.pending h.discovered
  | failed => exact h
  | joins _ hp _ =>
    have hold := h.pending _ _ hp
    exact h.tables rfl rfl (h.insertPending hold) h.discovered
  | joinsDiscovered _ hp _ =>
    have hold := h.discovered _ _ hp
    exact h.tables rfl rfl h.pending (h.insertDiscovered hold)
  | asks _ _ _ hp _ =>
    simp only [Pending.hand, Hand.mk.injEq] at hp
    obtain ⟨-, hk, ho, -⟩ := hp
    refine h.tables rfl rfl (h.insertPending fun _ => ?_) h.discovered
    rw [hk, ho]
    exact hkey rfl
  | discovers _ _ _ hp _ _ _ _ =>
    simp only [Discovered.hand, Hand.mk.injEq] at hp
    obtain ⟨-, -, -, -, -, -, hf, -⟩ := hp
    refine h.tables rfl rfl h.pending (h.insertDiscovered fun hc => ?_)
    rw [hf] at hc
    cases hc

/-- A hit marks the entry as used, and changes nothing else of it, so that what it was stored from
stays. -/
theorem answerCached (h : CacheInv es r t) {key : Bytes} {c : Cache} {w : Waiter}
    (hc : r.cache.get key = some c) : CacheInv es (r.answerCached key c w now).2 t := by
  unfold Resolver.answerCached
  refine { h with cached := fun k c' hk => ?_, fits := ⟨?_, ?_⟩ }
  · rw [OrdMap.get_insert_eq] at hk
    split at hk
    · next heq =>
      subst heq
      obtain rfl := Option.some.inj hk
      obtain ⟨f, hf, htime, hasked, m, seconds, hkept⟩ := h.cached key c hc
      exact ⟨f, hf, htime, hasked, m, seconds, hkept.parsed, hkept.life, hkept.wire,
        hkept.expires, hkept.sets⟩
    · exact h.cached k c' hk
  · have := OrdMap.total_insert_of_some (v := { c with last := now }) (f := fun _ c => c.sets) hc
    have := h.fits.1
    simp only at *
    omega
  · have := OrdMap.total_insert_of_some (v := { c with last := now })
      (f := fun k c => k.length + c.wire.length + 128) hc
    have := h.fits.2
    simp only at *
    omega

/-- Resolver discovery keeps the cache as it is. -/
theorem probed (h : CacheInv es r t) {out : Outcome} (hp : Probed r out) : CacheInv es out.2 t := by
  cases hp with
  | skipped _ _ => exact h.tables rfl rfl h.pending h.discovered
  | asks _ _ hf _ _ _ _ =>
    refine h.tables rfl rfl (h.insertPending fun hc => ?_) h.discovered
    rw [hf] at hc
    cases hc

/-- A query of a client is answered from the cache or waits under its own key; both keep what the
cache rests on. -/
theorem submit (h : CacheInv es r t) (o : Outside) {client : Client} {bytes : Bytes}
    (hasked : ∀ m, Message.parse bytes .unicast = some m → Asked es m) :
    CacheInv es (r.submit o client bytes now).2 t := by
  obtain ⟨⟨rates, hrates, -⟩, hdispatched⟩ := r.dispatch_spec o client bytes now
  have hr : CacheInv es (r.dispatch o client bytes now).2 t := by
    rw [hrates]
    exact h.tables rfl rfl h.pending h.discovered
  have hkey : ∀ m key w, Resolver.Dispatched client bytes m key w → KeyOk es key m true :=
    fun m key w hd _ =>
    ⟨hasked m hd.parsed, hd.query, hd.key⟩
  unfold Resolver.submit
  split
  · next heq =>
    rw [heq] at hr
    exact hr
  · next m key w r' heq =>
    rw [heq] at hr hdispatched
    exact hr.admitted (r'.submitDiscovery_admitted m key w bytes now)
      (hkey m key w (hdispatched m key w (.inr rfl)))
  · next m key w r' heq =>
    rw [heq] at hr hdispatched
    have hexpired := hr.expireCache now
    simp only
    split
    · next c hc => exact hexpired.answerCached hc
    · exact hexpired.admitted (Resolver.enqueue_admitted o _ m key w bytes now)
        (hkey m key w (hdispatched m key w (.inl rfl)))

/-- New upstream servers empty the cache. -/
theorem setUpstreams (h : CacheInv es r t) (endpoints : List SocketAddr) :
    CacheInv es (r.setUpstreams endpoints).2 t := by
  unfold Resolver.setUpstreams
  split
  · exact h
  · simp only
    split
    · exact h.clear.tables rfl rfl h.pending h.discovered
    · exact h.tables rfl rfl h.pending h.discovered

/-- New local zones empty the cache. -/
theorem setLocalZones (h : CacheInv es r t) (zones : List Name) :
    CacheInv es (r.setLocalZones zones).2 t := by
  unfold Resolver.setLocalZones
  split
  · exact h
  · exact h.clear.tables rfl rfl h.pending h.discovered

/-- A client that goes away leaves the cache as it is. -/
theorem cancelConnection (h : CacheInv es r t) (id : Nat) :
    CacheInv es (r.cancelConnection id) t := by
  refine h.tables rfl rfl (fun k p hp => ?_) fun k p hp => ?_
  all_goals
    simp only [Resolver.cancelConnection, Resolver.cancelUnusedDiscovery, OrdMap.get_retain_values,
      OrdMap.get_mapValues_values, Option.filter_eq_some_iff, Option.map_eq_some_iff] at hp
    obtain ⟨⟨q, hq, rfl⟩, -⟩ := hp
  · exact h.pending k q hq
  · exact h.discovered k q hq

/-- Dropping entries leaves the cache as it is. -/
theorem retainPending (h : CacheInv es r t) (p : Pending → Bool) :
    CacheInv es { r with pending := r.pending.retain fun _ x => p x } t := by
  refine h.tables rfl rfl (fun id q hq => ?_) h.discovered
  rw [OrdMap.get_retain_values] at hq
  exact h.pending id q (Option.filter_eq_some_iff.1 hq).1

/-- Every operation keeps what holds of the cache. One case for each operation of the resolver;
where an operation deals with many entries in turn, the invariant is kept by each of them
(`each_invariant`). -/
theorem step (h : CacheInv es r t) (op : Resolver.Op) (hle : t ≤ op.time) :
    CacheInv (es ++ [(op, (r.step op).1)]) (r.step op).2 op.time := by
  generalize he : (op, (r.step op).1) = e
  have hmono := h.mono e
  have hnow := hmono.later hle
  have hpoll : ∀ {r o done ids}, CacheInv (es ++ [e]) r op.time →
      CacheInv (es ++ [e]) (each (Resolver.discoverOne o op.time done) ids r []).2 op.time :=
    fun hr => each_invariant (I := fun r => CacheInv (es ++ [e]) r op.time) _
      (fun r x _ hr => hr.handles (Resolver.discoverOne_handles _ _ _ r x) (Nat.le_refl _)) _ hr
  unfold Resolver.step
  split
  · next client bytes hcall =>
    refine hnow.submit _ fun m hm => ⟨e, List.mem_append_right _ (List.mem_singleton.2 rfl),
      client, bytes, ?_, hm⟩
    rw [← he]
    exact hcall
  · exact hmono.handles (Resolver.receive_handles _ _ _ _ _ _ _ _) hle
  · unfold Resolver.tick
    refine each_invariant (I := fun r => CacheInv (es ++ [e]) r op.time) _
      (fun r x _ hr => hr.handles (Resolver.tickOne_handles _ _ r x) (Nat.le_refl _)) _ ?_
    have hrates : CacheInv (es ++ [e]) { r with
        rates := r.rates.retain fun _ e => decide (e.1 > op.time) } op.time :=
      hnow.tables rfl rfl hnow.pending hnow.discovered
    exact hrates.expireCache _
  · exact hmono.handles (Resolver.failUpstream_handles _ _ _ _) hle
  · unfold Resolver.pollPrivacy
    split
    · exact each_invariant (I := fun r => CacheInv (es ++ [e]) r op.time) _
        (fun r x _ hr => hr.probed (Resolver.probeOne_probed _ r x)) _ hnow
    · exact hnow
  · exact each_invariant (I := fun r => CacheInv (es ++ [e]) r op.time) _
      (fun r x _ hr => hr.probed (Resolver.probeOne_probed _ r x)) _ hnow
  · unfold Resolver.pollDiscovery
    split
    · exact hnow
    · exact hnow
    · split
      · exact hnow.tables rfl rfl hnow.pending hnow.discovered
      · refine each_invariant (I := fun r => CacheInv (es ++ [e]) r op.time) _
          (fun r x _ hr => ?_) _
          (hnow.tables rfl rfl hnow.pending hnow.discovered)
        exact hpoll hr
  · exact hnow.cancelConnection _
  · exact hnow.setUpstreams _
  · next origins explicit browser policy _ =>
    have hset := hnow.setUpstreams origins
    unfold Resolver.configureUpstreamPrivacy
    split
    · next heq =>
      rw [heq] at hset
      exact hset
    · next heq =>
      rw [heq] at hset
      split
      · exact hset
      · refine hset.tables rfl rfl (fun id q hq => ?_) hset.discovered
        exact (hset.retainPending _).pending id q hq
  · unfold Resolver.configureBrowsing
    split
    · exact hnow
    · exact hnow.retainPending _
  · unfold Resolver.setAdditionalA
    split
    · exact hnow.clear.tables rfl rfl hnow.pending hnow.discovered
    · exact hnow.tables rfl rfl hnow.pending hnow.discovered
  · exact hnow.setLocalZones _
  · unfold Resolver.enableDiscovery
    split
    · exact hnow
    · exact hnow.clear.tables rfl rfl hnow.pending hnow.discovered
  · next zone zones _ =>
    have hset := hnow.setLocalZones zones
    unfold Resolver.configureZones
    split
    · exact hnow
    · split
      · next heq =>
        rw [heq] at hset
        exact hset
      · next heq =>
        rw [heq] at hset
        exact hset.tables rfl rfl hset.pending hset.discovered
  · exact hnow.clear

/-- What holds of the cache after every run. At the start nothing is stored, and `step` keeps the
invariant. -/
theorem run {a : Bool} (h : (Resolver.machine fun _ _ => True).Run (Resolver.new a) 0 es r t) :
    CacheInv es r t := by
  refine h.history (I := CacheInv) ⟨?_, ?_, ?_, ?_, ?_⟩ fun es s t op _ hi hle _ => hi.step op hle
  · intro id p hp
    cases hp
  · intro id p hp
    cases hp
  · intro k c hc
    cases hc
  · intro f hf
    cases hf
  · exact ⟨Nat.zero_le _, Nat.zero_le _⟩

end CacheInv

/-! ## Queries with one key -/

/-- Two queries that ask the same: their questions agree when lower-cased, and so do the RD and CD
bits and the OPT records. -/
structure SameQuery (m m' : Message) : Prop where
  question : ∃ q q', m.questions = [q] ∧ m'.questions = [q'] ∧ q.name.lower = q'.name.lower ∧
    q.kind = q'.kind ∧ q.cls = q'.cls
  flags : m.flags &&& 0x110 = m'.flags &&& 0x110
  opt : m.additional = m'.additional

/-- The message whose octets are the key of a query. -/
def keyMessage (m : Message) (q : Question) : Message :=
  { Message.new 0 (m.flags &&& 0x110) with
    questions := [{ q with name := q.name.lower }]
    additional := m.additional }

/-- What a query must look like to be looked up: the opcode of a query, one question, and no
answers. -/
theorem notQuery_eq_false {m : Message} (h : notQuery m = false) :
    m.flags &&& 0xf800 = 0 ∧ (∃ q, m.questions = [q]) ∧ m.answers = [] ∧ m.authority = [] := by
  simp only [notQuery, Bool.or_eq_false_iff, bne_eq_false_iff_eq, Bool.not_eq_false',
    List.isEmpty_iff] at h
  exact ⟨h.1.1.1.1, List.length_eq_one_iff.1 h.1.1.1.2, h.1.1.2, h.1.2⟩

/-- A message with the opcode of a query is not an update. -/
theorem isUpdate_query {flags : UInt16} (h : flags &&& 0xf800 = 0) : isUpdate flags = false := by
  have hshift : (flags >>> 11) &&& 31 = 0 := by
    have := congrArg (fun x : UInt16 => x >>> 11) h
    rw [UInt16.shiftRight_and] at this
    exact this
  have hmask : (flags >>> 11) &&& 15 = 0 := by
    have := congrArg (fun x : UInt16 => x &&& 15) hshift
    rw [UInt16.and_assoc] at this
    exact this
  rw [isUpdate, hmask]
  rfl

/-- The flags that make up a key never say that a message is an update. -/
theorem isUpdate_key (flags : UInt16) : isUpdate (flags &&& 0x110) = false := by
  refine isUpdate_query ?_
  rw [UInt16.and_assoc]
  exact UInt16.and_zero

/-- The message that a key is made of is well formed, since its query was read from octets. It has
the question and the additional records of the query, and nothing else. -/
theorem keyMessage_wellFormed {b : Bytes} {m : Message} {q : Question}
    (hp : Message.parse b .unicast = some m) (hq : notQuery m = false) :
    (keyMessage m q).WellFormed := by
  obtain ⟨hflags, ⟨q', hquestions⟩, hanswers, hauthority⟩ := notQuery_eq_false hq
  have hwf := parse_wellFormed hp
  refine ⟨?_, fun r hr => ?_, trivial, trivial, ?_⟩
  · have := hwf.count
    simp only [hquestions, List.length_singleton] at this
    simp only [keyMessage, Message.new, List.length_singleton, List.length_nil]
    omega
  · have hr : r ∈ m.additional := by
      simpa [keyMessage, Message.records, Message.new] using hr
    have hfit := hwf.fits r (by simp only [Message.records]; exact List.mem_append_right _ hr)
    rw [isUpdate_query hflags] at hfit
    simp only [keyMessage, Message.new, isUpdate_key]
    exact hfit
  · have := hwf.additional
    rw [hanswers, hauthority] at this
    exact this

/-- Queries with one key ask the same. The key is the encoded query with its name in lower case, and
the parser gives the encoded message back. -/
theorem queryKey_inj {b b' key : Bytes} {m m' : Message} (hp : Message.parse b .unicast = some m)
    (hp' : Message.parse b' .unicast = some m') (hq : notQuery m = false)
    (hq' : notQuery m' = false) (hk : queryKey m = some key) (hk' : queryKey m' = some key) :
    SameQuery m m' := by
  obtain ⟨-, ⟨q, hquestions⟩, -, -⟩ := notQuery_eq_false hq
  obtain ⟨-, ⟨q', hquestions'⟩, -, -⟩ := notQuery_eq_false hq'
  have he : (keyMessage m q).encodeContext .unicast = some key := by
    rw [queryKey, hquestions] at hk
    exact hk
  have he' : (keyMessage m' q').encodeContext .unicast = some key := by
    rw [queryKey, hquestions'] at hk'
    exact hk'
  obtain ⟨x, hx, hsame⟩ := encodeContext_parse (keyMessage_wellFormed hp hq) he
  obtain ⟨x', hx', hsame'⟩ := encodeContext_parse (keyMessage_wellFormed hp' hq') he'
  obtain rfl := Option.some.inj (hx.symm.trans hx')
  have hqs := hsame.questions.symm.trans hsame'.questions
  simp only [keyMessage, List.cons.injEq, Question.mk.injEq, and_true] at hqs
  exact ⟨⟨q, q', hquestions, hquestions', hqs.1, hqs.2.1, hqs.2.2⟩,
    hsame.flags.symm.trans hsame'.flags, hsame.additional.symm.trans hsame'.additional⟩

/-! ## Answers from the cache -/

/-- How a query `m` of the waiter `w` is answered at the moment `now` from an entry of the cache
that was made of a finished reply and that is read as the message `kept`. -/
structure FromCache (es : Events) (now : Nat) (m : Message) (w : Waiter) (c : Cache) (f : Finished)
    (reply kept : Message) (result : Except IoError (List Action)) : Prop where
  /-- The reply was finished before, for a query that asked the same. -/
  asked : Asked es f.original
  same : SameQuery f.original m
  earlier : f.time ≤ now
  parsed : Message.parse f.reply .unicast = some reply
  /-- The cache keeps that reply; a negative one with the lifetimes of its SOA records cut down. -/
  stored :
    Message.parse c.wire .unicast = some kept ∧ ∃ seconds, kept = storedReply reply seconds c.wire
  /-- No lifetime is over, as it was received or as it was stored. -/
  fresh : ∀ x, x ∈ reply.records ∨ x ∈ kept.records → x.kind ≠ 41 →
    now < f.time + 1000 * x.ttl.toNat
  negative : ¬ (rcode reply = 0 ∧ Resolver.positive reply = true) → ∀ x ∈ reply.authority,
    ∀ a b c d e g minimum, x.data = .soa a b c d e g minimum →
      now < f.time + 1000 * minimum.toNat
  /-- What is left of a lifetime is at least a second. -/
  left : ∀ x ∈ kept.records, x.kind ≠ 41 → (now - f.time) / 1000 + 1 ≤ x.ttl.toNat
  /-- The client is sent the stored reply with its lifetimes aged, or its question if that is too
  long. -/
  answer : ∀ acts, result = .ok acts → ∃ aged b', acts = [.reply w.client b'] ∧
    aged.length = c.wire.length ∧
    Delivered w aged { kept.setTtls (kept.records.map (agedTtl ((now - f.time) / 1000))) with
      original := aged } b'

/-- Aging a reply changes none of its lengths. -/
theorem decay_length {b b' : Bytes} {elapsed : Nat} (h : decay b elapsed = some b') :
    b'.length = b.length := by
  unfold decay at h
  obtain ⟨m, hm, rfl⟩ : ∃ m, Message.parse b .unicast = some m ∧
      patchTtls m.spans (m.records.map (agedTtl elapsed)) b = b' := by
    simpa [Option.bind_eq_some_iff] using h
  exact (parse_patchTtls hm (List.length_map _)).1.length

/-- What a hit in the cache is answered with: the entry under the key of the query, aged, and cut to
what the client takes. -/
theorem Resolver.submit_hit {o : Outside} {r : Resolver} {client : Client} {bytes key : Bytes}
    {now : Nat} {m : Message} {w : Waiter} {c : Cache}
    (h : r.hit o client bytes now = some (m, key, w, c)) :
    Dispatched client bytes m key w ∧ r.cache.get key = some c ∧ now < c.expires ∧
      (r.submit o client bytes now).1 =
      ofWire ((decay c.wire ((now - c.inserted) / 1000)).bind fun b =>
        (deliver w b).map fun action => [action]) := by
  obtain ⟨⟨rates, hrates, -⟩, hdispatched⟩ := r.dispatch_spec o client bytes now
  unfold hit at h
  unfold submit
  split at h
  · next m' key' w' r' heq =>
    rw [heq] at hrates hdispatched
    simp only [heq]
    obtain ⟨c', hc, he⟩ := Option.map_eq_some_iff.1 h
    simp only [Prod.mk.injEq] at he
    obtain ⟨rfl, rfl, rfl, rfl⟩ := he
    simp only at hrates
    subst hrates
    refine ⟨hdispatched _ _ _ (.inl rfl), ?_, ?_, ?_⟩
    · simp only [expireCache, OrdMap.get_retain_values, Option.filter_eq_some_iff] at hc
      exact hc.1
    · simp only [expireCache, OrdMap.get_retain_values, Option.filter_eq_some_iff,
        decide_eq_true_eq] at hc
      exact hc.2
    · rw [hc]
      rfl
  · cases h

/-- The cache is sound. In every run it stays within its limits; and a query that is answered from
it is answered with a reply that was finished before, for a query that asked the same, aged by the
time gone by, while none of its lifetimes is over. -/
theorem cache_sound {a : Bool} {es : Events} {r : Resolver} {t : Nat}
    (run : (Resolver.machine fun _ _ => True).Run (Resolver.new a) 0 es r t) :
    r.cacheSets ≤ 1024 ∧ r.cacheBytes ≤ 4 * 1024 * 1024 ∧
      ∀ o client bytes now m key w c, t ≤ now → r.hit o client bytes now = some (m, key, w, c) →
        ∃ f ∈ r.finished, ∃ reply kept,
          FromCache es now m w c f reply kept (r.submit o client bytes now).1 := by
  have hinv := CacheInv.run run
  refine ⟨hinv.fits.1, hinv.fits.2, fun o client bytes now m key w c hle hhit => ?_⟩
  obtain ⟨hdispatched, hget, hbefore, hsubmit⟩ := Resolver.submit_hit hhit
  obtain ⟨f, hf, htime, hunder, reply, seconds, hkept⟩ := hinv.cached key c hget
  obtain ⟨e, he, client', bytes', -, hparsed'⟩ := hunder.asked
  obtain ⟨hpos, hfresh, hnegative⟩ := Resolver.life_spec hkept.life
  have hbefore : now < f.time + 1000 * seconds.toNat := by
    have := satAdd_le c.inserted (seconds.toNat * 1000)
    rw [hkept.expires] at hbefore
    omega
  refine ⟨f, hf, reply, storedReply reply seconds c.wire, hunder.asked,
    queryKey_inj hparsed' hdispatched.parsed hunder.query hdispatched.query hunder.key
    hdispatched.key,
    Nat.le_trans (hinv.times f hf) hle, hkept.parsed, ⟨hkept.parse, seconds, rfl⟩,
    fun x hx hkind => ?_, fun hneg x hx a b c d e g minimum hdata => ?_, fun x hx hkind => ?_,
    fun acts hacts => ?_⟩
  · have hle : seconds ≤ x.ttl :=
      hx.elim (fun h => hfresh x h hkind) (fun h => hkept.le_ttl h hkind)
    have := UInt32.le_iff_toNat_le.1 hle
    omega
  · have := UInt32.le_iff_toNat_le.1 (hnegative hneg x hx a b c d e g minimum hdata)
    omega
  · have := UInt32.le_iff_toNat_le.1 (hkept.le_ttl hx hkind)
    omega
  · obtain ⟨aged, haged, hparse⟩ := decay_parse hkept.parse ((now - c.inserted) / 1000)
    rw [hsubmit, haged, Option.bind_some] at hacts
    cases hd : deliver w aged with
    | none =>
      rw [hd] at hacts
      cases hacts
    | some action =>
      rw [hd] at hacts
      obtain rfl := Except.ok.inj hacts
      obtain ⟨b', rfl, hdelivered⟩ := deliver_eq_some hparse hd
      refine ⟨aged, b', rfl, ?_, ?_⟩
      · exact decay_length haged
      · rw [htime]
        exact hdelivered

/-! ## A run with a hit -/

/-- Surroundings without a registry, an inventory or a privacy policy. -/
def quiet : Outside where
  random _ := .ok (7, 0)
  records := none
  inventory _ := .ok none
  route _ := none
  liveTls _ _ _ := false
  update _ _ := .error invalid

/-- An address of the documentation range and a port. -/
def sampleAddr (host : UInt8) (port : UInt16) : SocketAddr :=
  ⟨.v4 ⟨[192, 0, 2, host], rfl⟩, port, 0, 0⟩

def sampleServer : SocketAddr := sampleAddr 53 53
def sampleClient : Client := ⟨sampleAddr 1 4000, none, none⟩

/-- A query for the address of `a`. -/
def sampleQuery : Bytes := [0, 1, 1, 0, 0, 1, 0, 0, 0, 0, 0, 0, 1, 97, 0, 0, 1, 0, 1]

/-- Its answer, with a lifetime of a minute. -/
def sampleAddress : Bytes :=
  [0, 7, 129, 128, 0, 1, 0, 1, 0, 0, 0, 0, 1, 97, 0, 0, 1, 0, 1,
    192, 12, 0, 1, 0, 1, 0, 0, 0, 60, 0, 4, 192, 0, 2, 99]

/-- A server is configured, asked and answers. -/
def sampleOps : List Resolver.Op :=
  [⟨.setUpstreams [sampleServer], quiet, 0⟩, ⟨.submit sampleClient sampleQuery, quiet, 0⟩,
    ⟨.receive 1 sampleServer 49152 false sampleAddress, quiet, 10⟩]

/-- The theorem applied to a query that is asked again two seconds after it was answered: the answer
comes from the cache. -/
theorem cache_sound_again : ∃ es,
    (Resolver.machine fun _ _ => True).Run (Resolver.new false) 0 es
        ((Resolver.new false).after sampleOps) 10 ∧
      ∃ m key w c f reply kept,
        ((Resolver.new false).after sampleOps).hit quiet sampleClient sampleQuery 2010 =
          some (m, key, w, c) ∧
        FromCache es 2010 m w c f reply kept
          (((Resolver.new false).after sampleOps).submit quiet sampleClient
           sampleQuery 2010).1 := by
  obtain ⟨es, run⟩ := Resolver.run_after sampleOps
    (.nil : (Resolver.machine fun _ _ => True).Run (Resolver.new false) 0 [] (Resolver.new false) 0)
    ⟨by decide, by decide, by decide, trivial⟩ fun _ _ _ => trivial
  have hhit : (((Resolver.new false).after sampleOps).hit quiet sampleClient sampleQuery
      2010).isSome = true := by decide +kernel
  obtain ⟨⟨m, key, w, c⟩, hhit⟩ := Option.isSome_iff_exists.1 hhit
  obtain ⟨f, -, reply, kept, hfrom⟩ :=
    (cache_sound run).2.2 quiet sampleClient sampleQuery 2010 m key w c (by decide) hhit
  exact ⟨es, run, m, key, w, c, f, reply, kept, hhit, hfrom⟩

end SnacMachine.Dns
