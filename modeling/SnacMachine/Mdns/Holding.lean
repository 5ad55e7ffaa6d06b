import SnacMachine.Lib.Pointwise
import SnacMachine.Lib.Run
import SnacMachine.Lib.Total
import SnacMachine.Mdns.Learned

/-!
# What a cache holds

The bounds of the learned records of a link (`mdns/cache.rs`). In every state that messages and
upkeep lead to (`Cache.machine`), the octets charged are those of the records held, there are at
most 1024 sets, every record is where its owner, type and class put it and is there once, and the
records fit into what is not reserved for others, but for a single record (`Cache.holding`).
-/

namespace SnacMachine.Mdns

open Dns

namespace Cache

/-! ## The machine -/

/-- What is done with a cache. -/
inductive Op
  | receive (m : Message) (code : UInt16) (rng : Random)
  | expire
  | removeOwner (name : Name)
  | clear
  | reserve (bytes : Nat)
  | answers (q : Question)
  | known (q : Question)
  | refreshed (q : Question)
  | suspect (q : Question)
  | observeQuestion (q : Question) (known : List Record)

/-- A cache after an operation. -/
def perform (c : Cache) (now : Nat) : Op → Cache
  | .receive m code rng => (c.receive m code now rng).2
  | .expire => c.expire now
  | .removeOwner name => c.removeOwner name
  | .clear => c.clear
  | .reserve bytes => c.reserve bytes
  | .answers q => c.touch (fun e => e.deadline > now && matches_ q e.record) now
  | .known q => c.touch (isKnown q now) now
  | .refreshed q => c.refreshed q now
  | .suspect q => c.suspect q now
  | .observeQuestion q known => c.observeQuestion q known now

/-- A cache in use: operations and their moments. -/
def machine : Machine Cache (Op × Nat) Unit where
  step c o := (c.perform o.2 o.1, ())
  time o := o.2
  legal _ _ := True

/-! ## What holds -/

/-- What holds of a learned record. -/
structure Entry.Sound (e : Entry) : Prop where
  cacheable : cacheable e.record = true
  ttl : 0 < e.record.ttl.toNat ∧ e.record.ttl.toNat ≤ 0x7fffffff
  charge : 1024 ≤ e.charge ∧ e.charge ≤ 4194304
  refresh : e.refresh.length = 4
  refreshed : e.refreshed ≤ 4

/-- What holds of the records under a key. -/
structure Set.Sound (k : Name × UInt16 × UInt16) (s : Set) : Prop where
  keys : ∀ e ∈ s.records, SameKey (key e.record) k
  nonempty : s.records ≠ []
  distinct : s.records.Pairwise fun a b => same a.record b.record = false
  entries : ∀ e ∈ s.records, e.Sound

/-- What holds of a cache while room is made. -/
structure Held (c : Cache) : Prop where
  bytes : c.bytes = c.sets.total fun _ s => s.charge
  sets : ∀ e ∈ c.sets.entries, Set.Sound e.1 e.2
  size : c.sets.size ≤ 1024

/-- What holds of a cache. -/
structure Sound (c : Cache) : Prop extends Held c where
  room : c.bytes + c.reserved ≤ 4194304 ∨ c.entries.length ≤ 1

/-! ## Charges -/

/-- The records are counted set by set. -/
theorem length_entries (c : Cache) :
    c.entries.length = c.sets.total fun _ s => s.records.length := by
  simp [entries, OrdMap.values, OrdMap.total, List.length_flatMap, Function.comp_def]

/-- A record is in the cache if one of the sets has it. -/
theorem mem_entries {c : Cache} {e : Entry} :
    e ∈ c.entries ↔ ∃ x ∈ c.sets.entries, e ∈ x.2.records := by
  rw [entries, OrdMap.values, List.mem_flatMap]
  simp only [List.mem_map, exists_exists_and_eq_and]

/-- A sound cache holds at most 4096 records. Each record is charged with 1024 octets at least, and
the cache with 4 MiB at most. -/
theorem Sound.length_le {c : Cache} (h : c.Sound) : c.entries.length ≤ 4096 := by
  have hset : ∀ x ∈ c.sets.entries, x.2.records.length * 1024 ≤ x.2.charge := by
    intro x hx
    have hentries := (h.sets x hx).entries
    unfold Set.charge
    generalize x.2.records = l at hentries
    induction l with
    | nil => exact Nat.le_refl _
    | cons e l ih =>
      have hl := ih fun e he => hentries e (List.mem_cons_of_mem _ he)
      have he := (hentries e List.mem_cons_self).charge.1
      rw [List.length_cons, List.map_cons, List.sum_cons, Nat.succ_mul, Nat.add_comm]
      exact Nat.add_le_add he hl
  have hcharge : c.entries.length * 1024 ≤ c.bytes := by
    rw [h.bytes, length_entries, ← OrdMap.total_mul]
    exact OrdMap.total_le_total hset
  rcases h.room with hroom | hroom
  · omega
  · omega

/-! ## Records rewritten in place -/

/-- A record under the same identity. -/
structure Alike (a b : Record) : Prop where
  name : b.name = a.name
  kind : b.kind = a.kind
  data : b.data = a.data
  cls : b.cls &&& 0x7fff = a.cls &&& 0x7fff

/-- A record is like itself. -/
theorem Alike.refl (a : Record) : Alike a a := ⟨rfl, rfl, rfl, rfl⟩

/-- Records that are like two others are the same if those are. -/
theorem Alike.same {a a' b b' : Record} (ha : Alike a a') (hb : Alike b b') :
    same a' b' = same a b := by
  simp only [Mdns.same, ha.name, ha.kind, ha.data, ha.cls, hb.name, hb.kind, hb.data, hb.cls]

/-- Records that are alike have the same key. -/
theorem Alike.key {a b : Record} (h : Alike a b) : Cache.key b = Cache.key a := by
  simp only [Cache.key, h.name, h.kind, h.cls]

/-- A learned record that was rewritten. -/
structure Entry.Becomes (a b : Entry) : Prop where
  alike : Alike a.record b.record
  sound : a.Sound → b.Sound
  charge : b.charge = a.charge

/-- An entry that does not change becomes itself. -/
theorem Entry.Becomes.refl (e : Entry) : Entry.Becomes e e := ⟨.refl _, fun h => h, rfl⟩

/-- A set stays sound if each of its records becomes another one like it. Keys, charges and the
number of records carry over one by one (`List.Forall₂`). -/
theorem Set.Sound.becomes {k : Name × UInt16 × UInt16} {s : Set} {records : List Entry}
    (h : Set.Sound k s) (hr : List.Forall₂ Entry.Becomes s.records records) (used : Nat) :
    Set.Sound k ⟨records, used⟩ where
  keys := by
    intro e he
    obtain ⟨x, hx, hxe⟩ := hr.of_mem_right he
    rw [hxe.alike.key]
    exact h.keys x hx
  nonempty := by
    intro hnil
    have hlen := hr.length_eq
    rw [show records = [] from hnil] at hlen
    exact h.nonempty (List.length_eq_zero_iff.1 hlen)
  distinct := hr.pairwise (fun ha hb hab => (ha.alike.same hb.alike).trans hab) h.distinct
  entries := by
    intro e he
    obtain ⟨x, hx, hxe⟩ := hr.of_mem_right he
    exact hxe.sound (h.entries x hx)

/-- Sets rewritten in place. Each record becomes one with the same charge, so neither the sum of the
charges nor the number of sets changes. -/
theorem Held.mapSets {c : Cache} (h : c.Held) {f : Name × UInt16 × UInt16 → Set → Set}
    (hf : ∀ e ∈ c.sets.entries, List.Forall₂ Entry.Becomes e.2.records (f e.1 e.2).records) :
    Held { c with sets := c.sets.mapValues f } where
  bytes := by
    show c.bytes = _
    rw [OrdMap.total_mapValues, h.bytes]
    refine Nat.le_antisymm (OrdMap.total_le_total fun e he => ?_)
      (OrdMap.total_le_total fun e he => ?_)
    · exact Nat.le_of_eq ((hf e he).sum_map fun hab => hab.charge).symm
    · exact Nat.le_of_eq ((hf e he).sum_map fun hab => hab.charge)
  sets := by
    intro e he
    obtain ⟨s, hs, heq⟩ := OrdMap.mem_entries_mapValues.1 he
    rw [heq]
    exact (h.sets _ hs).becomes (hf _ hs) _
  size := by
    show (c.sets.entries.map _).length ≤ 1024
    rw [List.length_map]
    exact h.size

/-- Changing the records in place neither adds nor removes any. -/
theorem length_entries_mapSets {c : Cache} {f : Name × UInt16 × UInt16 → Set → Set}
    (hf : ∀ e ∈ c.sets.entries, List.Forall₂ Entry.Becomes e.2.records (f e.1 e.2).records) :
    (entries { c with sets := c.sets.mapValues f }).length = c.entries.length := by
  rw [length_entries, length_entries]
  show (c.sets.mapValues f).total _ = _
  rw [OrdMap.total_mapValues]
  refine Nat.le_antisymm (OrdMap.total_le_total fun e he => ?_)
    (OrdMap.total_le_total fun e he => ?_)
  · exact Nat.le_of_eq (hf e he).length_eq.symm
  · exact Nat.le_of_eq (hf e he).length_eq

/-- The cache stays sound if its records change in place. -/
theorem Sound.mapSets {c : Cache} (h : c.Sound) {f : Name × UInt16 × UInt16 → Set → Set}
    (hf : ∀ e ∈ c.sets.entries, List.Forall₂ Entry.Becomes e.2.records (f e.1 e.2).records) :
    Sound { c with sets := c.sets.mapValues f } where
  toHeld := h.toHeld.mapSets hf
  room := by
    rw [length_entries_mapSets hf]
    exact h.room

/-- A change of every entry is a change of the entries in place. -/
theorem Entry.becomes_map {f : Entry → Entry} (hf : ∀ e, Entry.Becomes e (f e)) (l : List Entry) :
    List.Forall₂ Entry.Becomes l (l.map f) :=
  List.forall₂_map_right_iff.2 (List.forall₂_same.2 fun e _ => hf e)

/-- The cache stays sound if every record changes in place. -/
theorem Sound.mapRecords {c : Cache} (h : c.Sound) {f : Entry → Entry}
    (hf : ∀ e, Entry.Becomes e (f e)) : (c.mapRecords f).Sound :=
  h.mapSets fun _ _ => Entry.becomes_map hf _

/-- Noting a use leaves the cache sound. -/
theorem Sound.touch {c : Cache} (h : c.Sound) (p : Entry → Bool) (now : Nat) :
    (c.touch p now).Sound := by
  refine h.mapSets fun e _ => ?_
  split
  · exact List.forall₂_same.2 fun e _ => .refl e
  · exact List.forall₂_same.2 fun e _ => .refl e

/-- A record of which only the lifetime or the failures changed. -/
theorem Entry.becomes_of_eq {a b : Entry} (hrecord : b.record = a.record)
    (hcharge : b.charge = a.charge) (hrefresh : b.refresh = a.refresh)
    (hrefreshed : b.refreshed = a.refreshed) : Entry.Becomes a b where
  alike := by
    rw [hrecord]
    exact .refl _
  sound h := ⟨hrecord ▸ h.cacheable, hrecord ▸ h.ttl, hcharge ▸ h.charge, hrefresh ▸ h.refresh,
    hrefreshed ▸ h.refreshed⟩
  charge := hcharge

/-- An entry that ends soon is the same entry with less time. -/
theorem Entry.becomes_endSoon (now : Nat) (e : Entry) : Entry.Becomes e (e.endSoon now) :=
  Entry.becomes_of_eq rfl rfl rfl rfl

/-- An entry that others asked about is the same entry. -/
theorem Entry.becomes_questioned (now : Nat) (e : Entry) : Entry.Becomes e (e.questioned now) := by
  unfold Entry.questioned
  split
  · exact Entry.becomes_of_eq rfl rfl rfl rfl
  · split
    · exact Entry.becomes_of_eq rfl rfl rfl rfl
    · exact .refl e

/-- An entry that was asked for again is the same entry. -/
theorem Entry.becomes_pass (now : Nat) (e : Entry) : Entry.Becomes e (e.pass now) where
  alike := .refl _
  charge := rfl
  sound h := by
    refine ⟨h.cacheable, h.ttl, h.charge, h.refresh, ?_⟩
    have hlen : ((e.refresh.drop e.refreshed).takeWhile fun t => decide (t ≤ now)).length ≤
        (e.refresh.drop e.refreshed).length := (List.takeWhile_prefix _).length_le
    have hrefreshed := h.refreshed
    rw [List.length_drop, h.refresh] at hlen
    show e.refreshed + _ ≤ 4
    omega

/-- Noting what was asked for again leaves the cache sound. -/
theorem Sound.refreshed {c : Cache} (h : c.Sound) (q : Question) (now : Nat) :
    (c.refreshed q now).Sound := by
  refine h.mapRecords fun e => ?_
  split
  · exact Entry.becomes_pass now e
  · exact .refl e

/-- Doubting records leaves the cache sound. -/
theorem Sound.suspect {c : Cache} (h : c.Sound) (q : Question) (now : Nat) :
    (c.suspect q now).Sound := by
  refine h.mapRecords fun e => ?_
  split
  · exact Entry.becomes_of_eq rfl rfl rfl rfl
  · exact .refl e

/-- Noting a question of another host leaves the cache sound. -/
theorem Sound.observeQuestion {c : Cache} (h : c.Sound) (q : Question) (known : List Record)
    (now : Nat) : (c.observeQuestion q known now).Sound := by
  unfold Cache.observeQuestion
  split
  · exact h
  · refine h.mapRecords fun e => ?_
    split
    · exact .refl e
    · exact Entry.becomes_questioned now e

/-! ## Records removed -/

/-- Removing a set returns what was charged for it. The sum of the charges loses just the term of
that set (`OrdMap.total_remove_of_mem`). -/
theorem Held.remove {c : Cache} (h : c.Held) {e : (Name × UInt16 × UInt16) × Set}
    (he : e ∈ c.sets.entries) :
    Held { c with sets := c.sets.remove e.1, bytes := c.bytes - e.2.charge } where
  bytes := by
    have htotal := OrdMap.total_remove_of_mem (f := fun _ (s : Set) => s.charge) he
    show c.bytes - e.2.charge = (c.sets.remove e.1).total fun _ s => s.charge
    rw [h.bytes, ← htotal, Nat.add_sub_cancel]
  sets := by
    intro x hx
    exact h.sets x (OrdMap.mem_entries_remove.1 hx).1
  size := by
    have hsize := OrdMap.size_remove_of_mem he
    have hle := h.size
    show (c.sets.remove e.1).size ≤ 1024
    omega

/-- The oldest set is one of the sets. By induction on the sets, with the comparison of the source
at each. -/
theorem oldest_mem {l : List ((Name × UInt16 × UInt16) × Set)} {e : (Name × UInt16 × UInt16) × Set}
    (h : oldest l = some e) : e ∈ l := by
  induction l generalizing e with
  | nil => cases h
  | cons x l ih =>
    unfold oldest at h
    split at h
    · cases h
      exact List.mem_cons_self
    · next e' he' =>
      cases h
      split
      · exact List.mem_cons_of_mem _ (ih he')
      · exact List.mem_cons_self

/-- There is no oldest set only if there are no sets. -/
theorem oldest_eq_none {l : List ((Name × UInt16 × UInt16) × Set)}
    (h : oldest l = none) : l = [] := by
  cases l with
  | nil => rfl
  | cons x l =>
    unfold oldest at h
    split at h
    · cases h
    · cases h

/-- Removing sets adds none: every set that is left was there before, with the same records. By
induction on the fuel of the rounds. -/
theorem subset_shed {full : Cache → Prop} [DecidablePred full] {fuel : Nat} {c : Cache} :
    ∀ x ∈ (shed full fuel c).sets.entries, x ∈ c.sets.entries := by
  induction fuel generalizing c with
  | zero => exact fun x hx => hx
  | succ fuel ih =>
    intro x hx
    unfold shed at hx
    split at hx
    · split at hx
      · exact hx
      · exact (OrdMap.mem_entries_remove.1 (ih x hx)).1
    · exact hx

/-- Removing a set does not add records. -/
theorem length_entries_remove_le {c : Cache} {e : (Name × UInt16 × UInt16) × Set} {bytes : Nat} :
    (entries { c with sets := c.sets.remove e.1, bytes }).length ≤ c.entries.length := by
  rw [length_entries, length_entries]
  exact OrdMap.total_retain_le c.sets (fun k' _ => !decide (SameKey k' e.1)) _

/-- What is left once sets were removed: the accounts still hold, nothing grew, and unless the
cache is empty it is not full any more. -/
structure Left (full : Cache → Prop) (c c' : Cache) : Prop where
  held : c'.Held
  reserved : c'.reserved = c.reserved
  bytes : c'.bytes ≤ c.bytes
  length : c'.entries.length ≤ c.entries.length
  room : c'.sets.entries = [] ∨ ¬ full c'

/-- One round for each set is enough: what has no sets cannot be made smaller. By induction on the
fuel, since each round takes one set away. -/
theorem shed_left {full : Cache → Prop} [DecidablePred full] {fuel : Nat} {c : Cache}
    (h : c.Held) (hfuel : c.sets.size ≤ fuel) : Left full c (shed full fuel c) := by
  induction fuel generalizing c with
  | zero =>
    have hnil : c.sets.entries = [] := List.length_eq_zero_iff.1 (Nat.le_zero.1 hfuel)
    exact ⟨h, rfl, Nat.le_refl _, Nat.le_refl _, .inl hnil⟩
  | succ fuel ih =>
    unfold shed
    split
    · split
      · next hnone => exact ⟨h, rfl, Nat.le_refl _, Nat.le_refl _, .inl (oldest_eq_none hnone)⟩
      · next e he =>
        have hmem := oldest_mem he
        have hsize := OrdMap.size_remove_of_mem hmem
        have hrest := ih (h.remove hmem) (show (c.sets.remove e.1).size ≤ fuel by omega)
        refine ⟨hrest.held, hrest.reserved, ?_, ?_, hrest.room⟩
        · exact hrest.bytes.trans (Nat.sub_le _ _)
        · exact hrest.length.trans length_entries_remove_le
    · next hroom => exact ⟨h, rfl, Nat.le_refl _, Nat.le_refl _, .inr hroom⟩

/-- What making room for a record leaves. -/
structure Evicted (c : Cache) (k : Name × UInt16 × UInt16) (cost : Nat) (c' : Cache) : Prop where
  held : c'.Held
  reserved : c'.reserved = c.reserved
  bytes : c'.bytes ≤ c.bytes
  length : c'.entries.length ≤ c.entries.length
  room : c'.sets.entries = [] ∨ c'.bytes + c'.reserved + cost ≤ 4194304 ∧
    (c'.sets.contains k = true ∨ c'.sets.size < 1024)

/-- There is room for a record after eviction, unless the cache is empty: `full` says just when
there is none. -/
theorem evict_evicted {k : Name × UInt16 × UInt16} {cost : Nat} {fuel : Nat} {c : Cache}
    (h : c.Held) (hfuel : c.sets.size ≤ fuel) : Evicted c k cost (evict k cost fuel c) := by
  have hleft : Left _ c (evict k cost fuel c) := shed_left h hfuel
  refine ⟨hleft.held, hleft.reserved, hleft.bytes, hleft.length, ?_⟩
  refine hleft.room.imp_right fun hroom => ?_
  obtain ⟨hbytes, hsets⟩ := not_or.1 hroom
  refine ⟨Nat.le_of_not_gt hbytes, ?_⟩
  cases hk : (evict k cost fuel c).sets.contains k with
  | true => exact .inl rfl
  | false =>
    have hne : (evict k cost fuel c).sets.size ≠ 1024 := fun heq => hsets ⟨hk, heq⟩
    have hle := hleft.held.size
    exact .inr (by omega)

/-- The cache keeps to its limit with what is reserved, unless it is empty. -/
theorem shrink_sound {fuel : Nat} {c : Cache} (h : c.Held) (hfuel : c.sets.size ≤ fuel) :
    (shrink fuel c).Sound := by
  have hleft : Left _ c (shrink fuel c) := shed_left h hfuel
  rcases hleft.room with hnil | hroom
  · refine ⟨hleft.held, .inr ?_⟩
    rw [length_entries, OrdMap.total, hnil]
    exact Nat.zero_le 1
  · exact ⟨hleft.held, .inl (Nat.le_of_not_gt hroom)⟩

/-- Reserving octets leaves the cache sound. -/
theorem Sound.reserve {c : Cache} (h : c.Sound) (bytes : Nat) : (c.reserve bytes).Sound :=
  shrink_sound ⟨h.bytes, h.sets, h.size⟩ (Nat.le_refl _)

/-- An empty cache is sound. -/
theorem sound_clear (c : Cache) : c.clear.Sound where
  bytes := rfl
  sets := by
    intro e he
    exact absurd he List.not_mem_nil
  size := Nat.zero_le _
  room := .inr (Nat.zero_le 1)

/-- What holds of a cache with fewer records. -/
theorem Sound.of_le {c c' : Cache} (h : c.Sound) (h' : c'.Held) (hbytes : c'.bytes ≤ c.bytes)
    (hreserved : c'.reserved = c.reserved) (hlength : c'.entries.length ≤ c.entries.length) :
    c'.Sound := by
  refine ⟨h', ?_⟩
  rcases h.room with hroom | hroom
  · exact .inl (by omega)
  · exact .inr (hlength.trans hroom)

/-- Removing what an owner has leaves the cache sound. What is kept and what is removed add up to
the charge before (`total_retain_add`). -/
theorem Sound.removeOwner {c : Cache} (h : c.Sound) (name : Name) : (c.removeOwner name).Sound := by
  have htotal := OrdMap.total_retain_add c.sets (fun k _ => !(k.1 == name)) fun _ s => s.charge
  simp only [Bool.not_not] at htotal
  have hbytes : (c.removeOwner name).bytes =
      (c.sets.retain fun k _ => !(k.1 == name)).total fun _ s => s.charge := by
    show c.bytes - _ = _
    rw [h.bytes, ← htotal, Nat.add_sub_cancel]
  refine h.of_le ⟨hbytes, ?_, ?_⟩ (Nat.sub_le _ _) rfl ?_
  · intro e he
    exact h.sets e (OrdMap.mem_entries_retain.1 he).1
  · exact (OrdMap.size_retain_le _ _).trans h.size
  · rw [length_entries, length_entries]
    exact OrdMap.total_retain_le c.sets (fun k _ => !(k.1 == name)) _

/-- The records of a set that are alive. -/
def Set.live (now : Nat) (s : Set) : Set :=
  { s with records := s.records.filter fun e => e.deadline > now }

/-- What is charged for live records and what is charged for the others add up. The sum of each set
is split (`OrdMap.sum_filter_add`), and the sets are added up. -/
theorem total_live (c : Cache) (now : Nat) :
    (c.sets.total fun _ s => (s.live now).charge) +
      ((c.entries.filter fun e => decide (e.deadline ≤ now)).map fun e => e.charge).sum =
      c.sets.total fun _ s => s.charge := by
  have hdead :
      (fun e : Entry => decide (e.deadline ≤ now)) = fun e => !decide (e.deadline > now) := by
    funext e
    rw [← decide_not]
    exact decide_eq_decide.2 Nat.not_lt.symm
  unfold OrdMap.total entries OrdMap.values
  rw [hdead]
  induction c.sets.entries with
  | nil => rfl
  | cons x l ih =>
    have hx := OrdMap.sum_filter_add x.2.records (fun e => decide (e.deadline > now))
      fun e => e.charge
    simp only [List.map_cons, List.sum_cons, List.flatMap_cons, List.filter_append, List.map_append,
      List.sum_append, Set.live, Set.charge] at ih hx ⊢
    omega

/-- Dropping what has expired leaves the cache sound. Sets are emptied first and then dropped, which
changes no total, and the octets given back are those of the entries that were dropped
(`total_live`). -/
theorem Sound.expire {c : Cache} (h : c.Sound) (now : Nat) : (c.expire now).Sound := by
  have hkept : ((c.sets.mapValues fun _ s => s.live now).retain
      fun _ s => !s.records.isEmpty).total (fun _ s => s.charge) =
      c.sets.total fun _ s => (s.live now).charge := by
    rw [OrdMap.total_retain, OrdMap.total_mapValues]
    refine congrArg List.sum (List.map_congr_left fun e _ => ?_)
    cases hrecords : (e.2.live now).records with
    | nil => simp [Set.charge, hrecords]
    | cons x l => simp [hrecords]
  have hsets : ∀ e ∈ (c.expire now).sets.entries, ∃ s, (e.1, s) ∈ c.sets.entries ∧
      e.2 = s.live now ∧ e.2.records ≠ [] := by
    intro e he
    obtain ⟨hmem, hne⟩ := OrdMap.mem_entries_retain.1 he
    obtain ⟨s, hs, heq⟩ := OrdMap.mem_entries_mapValues.1 hmem
    refine ⟨s, hs, heq, ?_⟩
    intro hnil
    rw [hnil] at hne
    cases hne
  refine h.of_le ⟨?_, ?_, ?_⟩ (Nat.sub_le _ _) rfl ?_
  · have htotal := total_live c now
    show c.bytes - _ = OrdMap.total _ _
    rw [h.bytes, ← htotal, Nat.add_sub_cancel]
    exact hkept.symm
  · intro e he
    obtain ⟨s, hs, heq, hne⟩ := hsets e he
    have hsound := h.sets _ hs
    have hsub : e.2.records.Sublist s.records := by
      rw [heq]
      exact List.filter_sublist
    exact ⟨fun x hx => hsound.keys x (hsub.subset hx), hne, hsound.distinct.sublist hsub,
      fun x hx => hsound.entries x (hsub.subset hx)⟩
  · refine Nat.le_trans (OrdMap.size_retain_le _ _) ?_
    show (c.sets.entries.map _).length ≤ 1024
    rw [List.length_map]
    exact h.size
  · rw [length_entries, length_entries]
    show ((c.sets.mapValues fun _ s => s.live now).retain fun _ s => !s.records.isEmpty).total _ ≤ _
    refine Nat.le_trans (OrdMap.total_retain_le _ _ _) ?_
    rw [OrdMap.total_mapValues]
    exact OrdMap.total_mono fun _ _ => List.length_filter_le _ _

/-! ## Records stored -/

/-- Whether a record may be cached depends on what it is. -/
theorem Alike.cacheable {a b : Record} (h : Alike a b) :
    Mdns.cacheable b = Mdns.cacheable a := by
  simp only [Mdns.cacheable, h.kind, h.data, h.cls]

/-- Records that are the same are of one class, but for the flag. -/
theorem cls_of_same {a b : Record} (h : Mdns.same a b = true) :
    b.cls &&& 0x7fff = a.cls &&& 0x7fff := by
  simp only [Mdns.same, Bool.and_eq_true, beq_iff_eq] at h
  exact h.1.2.symm

/-- Renewing a record changes one entry in place. -/
theorem renew_becomes {r : Record} {f : Entry → Entry} {l : List Entry}
    (hf : ∀ e, same e.record r = true → Entry.Becomes e (f e)) :
    List.Forall₂ Entry.Becomes l (renew r f l) := by
  induction l with
  | nil => exact .nil
  | cons e l ih =>
    unfold renew
    split
    · next hsame => exact .cons (hf e hsame) (List.forall₂_same.2 fun x _ => .refl x)
    · exact .cons (.refl e) ih

/-- What is charged for a record is within the limit, and not less than the least. -/
theorem charge_bounds {r : Record} {cost : Nat}
    (h : (Mdns.charge r).filter (fun n => decide (n ≤ 4194304)) = some cost) :
    1024 ≤ cost ∧ cost ≤ 4194304 := by
  obtain ⟨hcharge, hle⟩ := Option.filter_eq_some_iff.1 h
  unfold Mdns.charge at hcharge
  obtain ⟨b, -, rfl⟩ := Option.map_eq_some_iff.1 hcharge
  exact ⟨by omega, of_decide_eq_true hle⟩

/-- A lifetime that is kept is positive and within the greatest one. -/
theorem ttl_bounds {ttl : UInt32} (h : ttl ≠ 0) :
    0 < (min ttl 0x7fffffff).toNat ∧ (min ttl 0x7fffffff).toNat ≤ 0x7fffffff := by
  have hpos : 0 < ttl.toNat := Nat.pos_of_ne_zero fun h0 => h (UInt32.toNat_inj.1 h0)
  show 0 < (if ttl ≤ 0x7fffffff then ttl else 0x7fffffff).toNat ∧
    (if ttl ≤ 0x7fffffff then ttl else 0x7fffffff).toNat ≤ 0x7fffffff
  split
  · next hle => exact ⟨hpos, UInt32.le_iff_toNat_le.1 hle⟩
  · decide

/-- What the record that is stored is like. -/
structure Storable (r : Record) (cost : Nat) (refresh : List Nat) : Prop where
  cacheable : cacheable r = true
  ttl : r.ttl ≠ 0
  charge : 1024 ≤ cost ∧ cost ≤ 4194304
  refresh : refresh.length = 4

/-- What a map holds after one value was changed is what it held, or the changed value. -/
theorem mem_modify {m : OrdMap (Name × UInt16 × UInt16) Set} {k : Name × UInt16 × UInt16}
    {f : Set → Set} {e : (Name × UInt16 × UInt16) × Set} (h : e ∈ (m.modify k f).entries) :
    ∃ s, (e.1, s) ∈ m.entries ∧ (e.2 = f s ∨ e.2 = s) := by
  obtain ⟨s, hs, heq⟩ := OrdMap.mem_entries_mapValues.1 h
  refine ⟨s, hs, ?_⟩
  rw [heq]
  split
  · exact .inl rfl
  · exact .inr rfl

/-- A set rewritten in place. -/
theorem Sound.modify {c : Cache} (h : c.Sound) (k : Name × UInt16 × UInt16) {f : Set → Set}
    (hf : ∀ s, List.Forall₂ Entry.Becomes s.records (f s).records) :
    Sound { c with sets := c.sets.modify k f } := by
  refine h.mapSets fun e _ => ?_
  split
  · exact hf e.2
  · exact List.forall₂_same.2 fun x _ => .refl x

/-- A record is added to what eviction leaves, and the cache is sound: eviction has made room for
it, and no entry of its set is the same record. -/
theorem Evicted.insert {c c' : Cache} {r : Record} {cost : Nat} {refresh : List Nat}
    (h : Evicted c (key r) cost c') (hsub : ∀ x ∈ c'.sets.entries, x ∈ c.sets.entries)
    (hr : Storable r cost refresh)
    (hnew : ∀ s, c.sets.get (key r) = some s → ∀ e ∈ s.records, same e.record r = false)
    (now expires : Nat) (stamp : Option Stamp) :
    Sound { c' with
      sets := c'.sets.insert (key r) ⟨(c'.sets.get (key r)).elim [] (fun s => s.records) ++
        [⟨{ r with ttl := min r.ttl 0x7fffffff }, now, expires, cost, stamp, refresh, 0, none⟩],
        now⟩
      bytes := c'.bytes + cost } := by
  have hentry : Entry.Sound ⟨{ r with ttl := min r.ttl 0x7fffffff }, now, expires, cost, stamp,
      refresh, 0, none⟩ := ⟨hr.cacheable, ttl_bounds hr.ttl, hr.charge, hr.refresh, Nat.zero_le _⟩
  have hadd := OrdMap.total_insert_add (w := Set.charge) c'.sets (key r)
    ⟨(c'.sets.get (key r)).elim [] (fun s => s.records) ++
      [⟨{ r with ttl := min r.ttl 0x7fffffff }, now, expires, cost, stamp, refresh, 0, none⟩], now⟩
  have hlen := OrdMap.total_insert_add (w := fun s => s.records.length) c'.sets (key r)
    ⟨(c'.sets.get (key r)).elim [] (fun s => s.records) ++
      [⟨{ r with ttl := min r.ttl 0x7fffffff }, now, expires, cost, stamp, refresh, 0, none⟩], now⟩
  refine ⟨⟨?_, ?_, ?_⟩, ?_⟩
  · show c'.bytes + cost = _
    rw [h.held.bytes]
    cases hget : c'.sets.get (key r) with
    | none =>
      simp only [hget, Option.elim_none, Set.charge, List.nil_append, List.map_cons, List.map_nil,
        List.sum_cons, List.sum_nil] at hadd ⊢
      omega
    | some s =>
      simp only [hget, Option.elim_some, Set.charge, List.map_append, List.sum_append,
        List.map_cons, List.map_nil, List.sum_cons, List.sum_nil] at hadd ⊢
      omega
  · intro e he
    rcases OrdMap.mem_entries_insert he with ⟨hold, -⟩ | ⟨hkey, heq⟩
    · exact h.held.sets e hold
    · rw [heq]
      cases hget : c'.sets.get (key r) with
      | none =>
        refine ⟨?_, List.cons_ne_nil _ _, List.pairwise_singleton _ _, ?_⟩
        · intro x hx
          rw [List.mem_singleton.1 hx]
          exact hkey.symm
        · intro x hx
          rw [List.mem_singleton.1 hx]
          exact hentry
      | some s =>
        obtain ⟨k', hk', hmem⟩ := OrdMap.get_eq_some_iff.1 hget
        have hs := h.held.sets _ hmem
        have hbefore : c.sets.get (key r) = some s :=
          OrdMap.get_eq_some_iff.2 ⟨k', hk', hsub _ hmem⟩
        refine ⟨?_, by simp, ?_, ?_⟩
        · intro x hx
          rcases List.mem_append.1 hx with hx | hx
          · exact (hs.keys x hx).trans (hk'.trans hkey.symm)
          · rw [List.mem_singleton.1 hx]
            exact hkey.symm
        · refine List.pairwise_append.2 ⟨hs.distinct, List.pairwise_singleton _ _, ?_⟩
          intro x hx y hy
          rw [List.mem_singleton.1 hy]
          exact hnew s hbefore x hx
        · intro x hx
          rcases List.mem_append.1 hx with hx | hx
          · exact hs.entries x hx
          · rw [List.mem_singleton.1 hx]
            exact hentry
  · show (c'.sets.insert _ _).size ≤ 1024
    rcases h.room with hnil | ⟨-, hcontains | hsize⟩
    · have hle := OrdMap.size_insert_le c'.sets (key r)
        ⟨(c'.sets.get (key r)).elim [] (fun s => s.records) ++
          [⟨{ r with ttl := min r.ttl 0x7fffffff }, now, expires, cost, stamp, refresh, 0, none⟩],
          now⟩
      have hzero : c'.sets.size = 0 := by rw [OrdMap.size, hnil]; rfl
      omega
    · rw [OrdMap.size_insert_of_contains _ hcontains]
      exact h.held.size
    · exact (OrdMap.size_insert_le _ _ _).trans hsize
  · rcases h.room with hnil | ⟨hroom, -⟩
    · right
      rw [length_entries]
      show (c'.sets.insert _ _).total _ ≤ 1
      have hget : c'.sets.get (key r) = none := by
        refine OrdMap.get_eq_none_iff.2 fun e he => ?_
        rw [hnil] at he
        exact absurd he List.not_mem_nil
      have hzero : (c'.sets.total fun _ s => s.records.length) = 0 := by
        rw [OrdMap.total, hnil]
        rfl
      rw [hget] at hlen ⊢
      simp only [Option.elim_none, List.nil_append, List.length_singleton] at hlen ⊢
      omega
    · left
      show c'.bytes + cost + c'.reserved ≤ 4194304
      omega

/-- The sets before a record is stored: a unique record ends the older ones of its set soon. -/
def flush (c : Cache) (now : Nat) (r : Record) : Cache :=
  { c with sets := if r.cls &&& 0x8000 ≠ 0 then
      c.sets.modify (key r) fun s => { s with
        records := s.records.map fun e => if now - e.received > 1000 then e.endSoon now else e }
    else c.sets }

/-- Flushing what a record replaces leaves the cache sound. -/
theorem Sound.flush {c : Cache} (h : c.Sound) (now : Nat) (r : Record) : (c.flush now r).Sound := by
  unfold Cache.flush
  split
  · refine h.modify (key r) fun s => Entry.becomes_map (fun e => ?_) s.records
    split
    · exact Entry.becomes_endSoon now e
    · exact .refl e
  · exact h

/-- Flushing removes no set. -/
theorem size_flush (c : Cache) (now : Nat) (r : Record) :
    (c.flush now r).sets.size = c.sets.size := by
  unfold Cache.flush
  split
  · exact List.length_map _
  · rfl

/-- Storing a record leaves the cache sound, since room was made for it. A record that is there is
renewed in place, and any other is added to what eviction has left. -/
theorem Sound.store {c : Cache} (h : c.Sound) {r : Record} {cost : Nat} {refresh : List Nat}
    (hr : Storable r cost refresh) (now : Nat) (stamp : Option Stamp) :
    (c.store now stamp r cost refresh).Sound := by
  have hflush := h.flush now r
  refine iteInduction (motive := Sound) (fun _ => ?_) fun hfound => ?_
  · refine hflush.modify (key r) fun s => renew_becomes fun e hsame => ?_
    have hcls := cls_of_same hsame
    have halike : Alike e.record { e.record with ttl := min r.ttl 0x7fffffff, cls := r.cls } :=
      ⟨rfl, rfl, rfl, hcls⟩
    refine ⟨halike, fun he => ⟨?_, ttl_bounds hr.ttl, he.charge, hr.refresh, Nat.zero_le _⟩, rfl⟩
    rw [halike.cacheable]
    exact he.cacheable
  · have hevicted : Evicted (c.flush now r) (key r) cost
        (evict (key r) cost c.sets.size (c.flush now r)) :=
      evict_evicted hflush.toHeld (Nat.le_of_eq (size_flush c now r))
    refine hevicted.insert subset_shed hr (fun s hs e he => ?_) now _ stamp
    cases hsame : same e.record r with
    | false => rfl
    | true =>
      unfold Cache.flush at hs
      rw [hs] at hfound
      exact absurd (List.any_eq_true.2 ⟨e, he, hsame⟩) hfound

/-- What loops over a message keep: by induction on its records, each of which is stored, ends
entries early, or is left out. -/
theorem Sound.storeAll {m : Message} {s : Selection} {now : Nat} {rng : Random}
    {rs : List (Record × Nat)} {n : Nat} {c : Cache} (h : c.Sound) :
    (storeAll m s now rng rs n c).2.Sound := by
  induction rs generalizing n c with
  | nil => exact h
  | cons r rs ih =>
    unfold Cache.storeAll
    split
    · exact ih h
    · next hskip =>
      split
      · refine ih (h.modify (key r.1) fun s => Entry.becomes_map (fun e => ?_) s.records)
        split
        · exact Entry.becomes_endSoon now e
        · exact .refl e
      · next httl =>
        split
        · exact ih h
        · next cost hcost =>
          dsimp only
          split
          · exact h
          · next jitter _ =>
            refine ih (h.store ⟨?_, httl, charge_bounds hcost, rfl⟩ now _)
            cases hc : cacheable r.1 with
            | true => rfl
            | false => simp [hc] at hskip

/-- Deciding on an owner leaves the cache sound. Only the branches that remove what the owner has
change the cache. -/
theorem Sound.owner {m : Message} {stamps : OrdMap Name Stamp} {now : Nat} {s : Selection}
    (h : s.cache.Sound) (e : Record × Nat) : (s.owner m stamps now e).cache.Sound := by
  unfold Selection.owner
  split
  · exact h
  · dsimp only
    split
    · exact h
    · split
      · exact h
      · exact h.removeOwner _
      · exact h.removeOwner _
      · exact h
      · exact h

/-- Deciding on all owners leaves the cache sound. -/
theorem Sound.foldl_owner {m : Message} {stamps : OrdMap Name Stamp} {now : Nat}
    {es : List (Record × Nat)} {s : Selection} (h : s.cache.Sound) :
    (es.foldl (Selection.owner m stamps now) s).cache.Sound := by
  induction es generalizing s with
  | nil => exact h
  | cons e es ih => exact ih (h.owner e)

/-- Receiving a message leaves the cache sound, wherever it fails. -/
theorem Sound.receive {c : Cache} (h : c.Sound) (m : Message) (code : UInt16) (now : Nat)
    (rng : Random) : (c.receive m code now rng).2.Sound := by
  unfold Cache.receive
  split
  · exact h
  · dsimp only
    split
    · exact h.expire now
    · next stamps _ =>
      exact Sound.storeAll (Sound.foldl_owner (h.expire now))

/-! ## Runs -/

/-- Every operation leaves the cache sound. One case for each operation; the questions change at
most what the sets were used for. -/
theorem Sound.perform {c : Cache} (h : c.Sound) (now : Nat) (o : Op) : (c.perform now o).Sound := by
  cases o with
  | receive m code rng => exact h.receive m code now rng
  | expire => exact h.expire now
  | removeOwner name => exact h.removeOwner name
  | clear => exact sound_clear c
  | reserve bytes => exact h.reserve bytes
  | answers q => exact h.touch _ now
  | known q => exact h.touch _ now
  | refreshed q => exact h.refreshed q now
  | suspect q => exact h.suspect q now
  | observeQuestion q known => exact h.observeQuestion q known now

/-- A new cache is sound. -/
theorem sound_new : new.Sound := sound_clear new

/-- In every run the cache is sound. -/
theorem Sound.run {es : List ((Op × Nat) × Unit)} {c : Cache} {t₀ t : Nat}
    (h : machine.Run new t₀ es c t) : c.Sound :=
  h.invariant (I := fun c _ => c.Sound) sound_new fun _ _ o hs _ _ => hs.perform o.2 o.1

/-- Records that are the same are in one set. -/
theorem key_of_same {a b : Record} (h : Mdns.same a b = true) : SameKey (key a) (key b) := by
  simp only [Mdns.same, Bool.and_eq_true, beq_iff_eq] at h
  obtain ⟨⟨⟨hname, hkind⟩, hcls⟩, -⟩ := h
  refine sameKey_pair.2 ⟨Name.beq_iff_sameKey.1 hname, sameKey_pair.2 ⟨?_, ?_⟩⟩
  · exact congrArg OrdKey.code hkind
  · exact congrArg OrdKey.code hcls

/-- Records of different sets are not the same. Within a set they differ by its invariant, and
between sets by their keys. -/
theorem Held.distinct {c : Cache} (h : c.Held) :
    c.entries.Pairwise fun a b => same a.record b.record = false := by
  unfold entries OrdMap.values
  refine List.pairwise_flatMap.2 ⟨?_, ?_⟩
  · intro s hs
    obtain ⟨e, he, rfl⟩ := List.mem_map.1 hs
    exact (h.sets e he).distinct
  · refine List.pairwise_map.2 (c.sets.sorted.imp_of_mem fun hx hy hlt a ha b hb => ?_)
    cases hsame : same a.record b.record with
    | false => rfl
    | true =>
      have hkey := (((h.sets _ hx).keys a ha).symm.trans (key_of_same hsame)).trans
        ((h.sets _ hy).keys b hb)
      exact absurd hkey hlt.ne

/-- What is charged for the records is charged set by set. -/
theorem charge_entries (c : Cache) :
    (c.entries.map fun e => e.charge).sum = c.sets.total fun _ s => s.charge := by
  unfold entries OrdMap.values OrdMap.total
  induction c.sets.entries with
  | nil => rfl
  | cons e l ih =>
    rw [List.map_cons, List.flatMap_cons, List.map_append, List.sum_append, ih, List.map_cons,
      List.sum_cons]
    rfl

/-- After every run: the octets charged are those of the records, of which there are at most 4096 in
at most 1024 sets; they fit into what is not reserved, but for a single record; and a record is held
once, where its owner, type and class put it. -/
theorem holding {es : List ((Op × Nat) × Unit)} {c : Cache} {t₀ t : Nat}
    (h : machine.Run new t₀ es c t) :
    c.bytes = (c.entries.map fun e => e.charge).sum ∧ c.sets.size ≤ 1024 ∧
      c.entries.length ≤ 4096 ∧ (c.bytes + c.reserved ≤ 4194304 ∨ c.entries.length ≤ 1) ∧
      (c.entries.Pairwise fun a b => same a.record b.record = false) ∧
      ∀ x ∈ c.sets.entries, ∀ e ∈ x.2.records,
        SameKey (key e.record) x.1 ∧ cacheable e.record = true := by
  have hsound := Sound.run h
  refine ⟨hsound.bytes.trans (charge_entries c).symm, hsound.size, hsound.length_le, hsound.room,
    hsound.distinct, ?_⟩
  intro x hx e he
  exact ⟨(hsound.sets x hx).keys e he, ((hsound.sets x hx).entries e he).cacheable⟩

/-- The name of a host. -/
def hostName : Name := ⟨[ascii "a", ascii "local"], by decide⟩

/-- An address that a host announces. -/
def hostAnnouncement : Message :=
  { Message.new 0 0x8400 with
    answers := [⟨hostName, 1, 0x8001, 120, .a (Ipv4Addr.new 192 0 2 1)⟩] }

/-- What a printer announces, with the address of the host once more. -/
def printerAnnouncement : Message :=
  { Message.new 0 0x8400 with
    answers := [⟨⟨[ascii "p", ascii "local"], by decide⟩, 1, 0x8001, 120,
      .a (Ipv4Addr.new 192 0 2 2)⟩,
      ⟨⟨[ascii "p", ascii "local"], by decide⟩, 1, 0x8001, 120, .a (Ipv4Addr.new 192 0 2 3)⟩,
      ⟨hostName, 1, 0x8001, 60, .a (Ipv4Addr.new 192 0 2 1)⟩] }

/-- A host and a printer are heard, while some of the octets are reserved; the three records are
held in two sets. -/
theorem holding_host : ∃ es c, machine.Run new 0 es c 9000 ∧ c.entries.length = 3 ∧
    c.sets.size = 2 ∧ c.bytes = (c.entries.map fun e => e.charge).sum ∧
    c.bytes + c.reserved ≤ 4194304 ∧
    c.entries.Pairwise fun a b => same a.record b.record = false := by
  have hnil : machine.Run new 0 [] new 0 := .nil
  have hheard := hnil.snoc (.receive hostAnnouncement 65002 fun _ _ => .ok 0, 5)
    (Nat.zero_le 5) trivial
  have hboth := hheard.snoc (.receive printerAnnouncement 65002 fun _ _ => .ok 0, 4000)
    (Nat.le_add_right 5 3995) trivial
  have hreserved := hboth.snoc (.reserve 1000000, 4000) (Nat.le_refl 4000) trivial
  have hrun : machine.Run new 0 _ _ 9000 :=
    hreserved.snoc (.expire, 9000) (Nat.le_add_right 4000 5000) trivial
  have hheld := holding hrun
  refine ⟨_, _, hrun, by decide +kernel, by decide +kernel, hheld.1,
    hheld.2.2.2.1.resolve_right (by decide +kernel), hheld.2.2.2.2.1⟩

end Cache

end SnacMachine.Mdns
