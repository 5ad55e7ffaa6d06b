import SnacMachine.Dns.Identity
import SnacMachine.Mdns.Holding

/-!
# Owners and their keys

A name in the cache belongs to one key at a time. `Cache::receive_with_code` (`mdns/cache.rs:114`)
compares the stamp of every owner in a message with that of the records it holds: the message is
ignored for an owner whose records are newer, and an owner whose records are older, or belong to
another key, is forgotten. In every state of a cache the records of an owner have stamps of one key,
or none has a stamp (`Cache.owners`).
-/

namespace SnacMachine.Mdns

open Dns

namespace Cache

/-- The checksum of the key that a record's owner was registered under. -/
def Entry.signer (e : Entry) : Option UInt32 := e.stamp.map fun s => s.keyChecksum

/-- The records of an owner are signed alike. -/
def Owned (c : Cache) : Prop :=
  ∀ a ∈ c.entries, ∀ b ∈ c.entries, a.record.name == b.record.name → a.signer = b.signer

/-- The records of the owners for which a stamp was chosen are signed like it. -/
def Chosen (s : Selection) (c : Cache) : Prop :=
  ∀ e ∈ c.entries, ∀ stamp, s.selected.get e.record.name = some stamp →
    e.signer = stamp.map fun s => s.keyChecksum

/-! ## Records that were there -/

/-- A record that only aged. -/
structure Entry.Aged (a b : Entry) : Prop where
  record : b.record = a.record
  stamp : b.stamp = a.stamp
  received : b.received = a.received
  expires : b.expires ≤ a.expires

/-- An entry has aged, at least not at all. -/
theorem Entry.Aged.refl (e : Entry) : e.Aged e := ⟨rfl, rfl, rfl, Nat.le_refl _⟩

/-- An entry that ages again has aged. -/
theorem Entry.Aged.trans {a b c : Entry} (h : a.Aged b) (h' : b.Aged c) : a.Aged c :=
  ⟨h'.record.trans h.record, h'.stamp.trans h.stamp, h'.received.trans h.received,
    Nat.le_trans h'.expires h.expires⟩

/-- Every record was there before. -/
def Traced (c c' : Cache) : Prop := ∀ b ∈ c'.entries, ∃ a ∈ c.entries, a.Aged b

/-- Every cache is traced to itself. -/
theorem Traced.refl (c : Cache) : Traced c c := fun b hb => ⟨b, hb, .refl b⟩

/-- Traces are joined. -/
theorem Traced.trans {c c' c'' : Cache} (h : Traced c c') (h' : Traced c' c'') : Traced c c'' := by
  intro b hb
  obtain ⟨x, hx, hxb⟩ := h' b hb
  obtain ⟨a, ha, hax⟩ := h x hx
  exact ⟨a, ha, hax.trans hxb⟩

/-- What is owned stays owned where entries only age or go. -/
theorem Traced.owned {c c' : Cache} (h : Traced c c') (hc : c.Owned) : c'.Owned := by
  intro x hx y hy hname
  obtain ⟨a, ha, hax⟩ := h x hx
  obtain ⟨b, hb, hby⟩ := h y hy
  rw [hax.record, hby.record] at hname
  unfold Entry.signer
  rw [hax.stamp, hby.stamp]
  exact hc a ha b hb hname

/-- What was chosen for an owner stays so where entries only age or go. -/
theorem Traced.chosen {s : Selection} {c c' : Cache} (h : Traced c c') (hc : Chosen s c) :
    Chosen s c' := by
  intro x hx stamp hstamp
  obtain ⟨a, ha, hax⟩ := h x hx
  rw [hax.record] at hstamp
  unfold Entry.signer
  rw [hax.stamp]
  exact hc a ha stamp hstamp

/-- Sets of which each holds only records that were under its key. -/
theorem traced_of_sets {c c' : Cache}
    (h : ∀ x ∈ c'.sets.entries, ∃ y ∈ c.sets.entries, ∀ b ∈ x.2.records,
     ∃ a ∈ y.2.records, a.Aged b) :
    Traced c c' := by
  intro b hb
  obtain ⟨x, hx, hbx⟩ := mem_entries.1 hb
  obtain ⟨y, hy, hxy⟩ := h x hx
  obtain ⟨a, ha, hab⟩ := hxy b hbx
  exact ⟨a, mem_entries.2 ⟨y, hy, ha⟩, hab⟩

/-- A cache with fewer sets is traced to the one before. -/
theorem traced_subset {c c' : Cache} (h : ∀ x ∈ c'.sets.entries, x ∈ c.sets.entries) :
    Traced c c' :=
  traced_of_sets fun x hx => ⟨x, h x hx, fun b hb => ⟨b, hb, .refl b⟩⟩

/-- A cache whose sets hold aged entries is traced to the one before. -/
theorem traced_mapSets (c : Cache) {f : Name × UInt16 × UInt16 → Set → Set}
    (hf : ∀ k s, ∀ b ∈ (f k s).records, ∃ a ∈ s.records, a.Aged b) :
    Traced c { c with sets := c.sets.mapValues f } := by
  refine traced_of_sets fun x hx => ?_
  obtain ⟨s, hs, heq⟩ := OrdMap.mem_entries_mapValues.1 hx
  refine ⟨(x.1, s), hs, ?_⟩
  rw [heq]
  exact hf x.1 s

/-- A change that ages every entry of a list. -/
theorem traced_map {f : Entry → Entry} (hf : ∀ e : Entry, e.Aged (f e)) (l : List Entry) :
    ∀ b ∈ l.map f, ∃ a ∈ l, a.Aged b := by
  intro b hb
  obtain ⟨a, ha, rfl⟩ := List.mem_map.1 hb
  exact ⟨a, ha, hf a⟩

/-- A change that ages every entry of the cache. -/
theorem traced_mapRecords (c : Cache) {f : Entry → Entry} (hf : ∀ e : Entry, e.Aged (f e)) :
    Traced c (c.mapRecords f) :=
  traced_mapSets c fun _ s => traced_map hf s.records

/-- A change that ages the entries of one set. -/
theorem traced_modify (c : Cache) (k : Name × UInt16 × UInt16) {f : Set → Set}
    (hf : ∀ s, ∀ b ∈ (f s).records, ∃ a ∈ s.records, a.Aged b) :
    Traced c { c with sets := c.sets.modify k f } := by
  refine traced_mapSets c fun k' s => ?_
  split
  · exact hf s
  · exact fun b hb => ⟨b, hb, .refl b⟩

/-- Noting a use changes no entry. -/
theorem traced_touch (c : Cache) (p : Entry → Bool) (now : Nat) : Traced c (c.touch p now) := by
  refine traced_mapSets c fun _ s => ?_
  split
  · exact fun b hb => ⟨b, hb, .refl b⟩
  · exact fun b hb => ⟨b, hb, .refl b⟩

/-- Dropping what has expired adds no entry. -/
theorem traced_expire (c : Cache) (now : Nat) : Traced c (c.expire now) := by
  refine traced_of_sets fun x hx => ?_
  obtain ⟨hmem, -⟩ := OrdMap.mem_entries_retain.1 hx
  obtain ⟨s, hs, heq⟩ := OrdMap.mem_entries_mapValues.1 hmem
  refine ⟨(x.1, s), hs, fun b hb => ?_⟩
  rw [heq] at hb
  exact ⟨b, (List.mem_filter.1 hb).1, .refl b⟩

/-- Removing what an owner has adds no entry. -/
theorem traced_removeOwner (c : Cache) (name : Name) : Traced c (c.removeOwner name) :=
  traced_subset fun _ hx => (OrdMap.mem_entries_retain.1 hx).1

/-- An entry that ends soon has aged. -/
theorem aged_endSoon (now : Nat) (e : Entry) : e.Aged (e.endSoon now) :=
  ⟨rfl, rfl, rfl, Nat.min_le_left _ _⟩

/-- An entry that others asked about has aged. -/
theorem aged_questioned (now : Nat) (e : Entry) : e.Aged (e.questioned now) := by
  unfold Entry.questioned
  split
  · exact ⟨rfl, rfl, rfl, Nat.le_refl _⟩
  · split
    · exact ⟨rfl, rfl, rfl, Nat.le_refl _⟩
    · exact .refl e

/-- Noting what was asked for again adds no entry. -/
theorem traced_refreshed (c : Cache) (q : Question) (now : Nat) : Traced c (c.refreshed q now) := by
  refine traced_mapRecords c fun e => ?_
  split
  · exact ⟨rfl, rfl, rfl, Nat.le_refl _⟩
  · exact .refl e

/-- Doubting records adds no entry. -/
theorem traced_suspect (c : Cache) (q : Question) (now : Nat) : Traced c (c.suspect q now) := by
  refine traced_mapRecords c fun e => ?_
  split
  · exact ⟨rfl, rfl, rfl, Nat.min_le_left _ _⟩
  · exact .refl e

/-- Noting a question of another host adds no entry. -/
theorem traced_observeQuestion (c : Cache) (q : Question) (known : List Record) (now : Nat) :
    Traced c (c.observeQuestion q known now) := by
  unfold observeQuestion
  split
  · exact .refl c
  · refine traced_mapRecords c fun e => ?_
    split
    · exact .refl e
    · exact aged_questioned now e

/-- Reserving octets adds no entry. -/
theorem traced_reserve (c : Cache) (bytes : Nat) : Traced c (c.reserve bytes) := by
  have htraced : Traced { c with reserved := bytes } (c.reserve bytes) := traced_subset subset_shed
  exact htraced

/-! ## Receiving -/

/-- Records that are the same have one name. -/
theorem name_of_same {a b : Record} (h : Mdns.same a b = true) : (a.name == b.name) = true := by
  simp only [Mdns.same, Bool.and_eq_true] at h
  exact h.1.1.1

/-- Renewing a record changes the entry of that record only. By induction on the entries, up to the
first of the record. -/
theorem mem_renew {r : Record} {f : Entry → Entry} {l : List Entry} {b : Entry}
    (h : b ∈ renew r f l) : b ∈ l ∨ ∃ a ∈ l, same a.record r = true ∧ b = f a := by
  induction l with
  | nil => exact absurd h List.not_mem_nil
  | cons e l ih =>
    unfold renew at h
    split at h
    · next hsame =>
      rcases List.mem_cons.1 h with rfl | h
      · exact .inr ⟨e, List.mem_cons_self, hsame, rfl⟩
      · exact .inl (List.mem_cons_of_mem _ h)
    · rcases List.mem_cons.1 h with rfl | h
      · exact .inl List.mem_cons_self
      · rcases ih h with h | ⟨a, ha, hb⟩
        · exact .inl (List.mem_cons_of_mem _ h)
        · exact .inr ⟨a, List.mem_cons_of_mem _ ha, hb⟩

/-- Flushing what a record replaces ages its set. -/
theorem traced_flush (c : Cache) (now : Nat) (r : Record) : Traced c (c.flush now r) := by
  unfold flush
  split
  · refine traced_modify c (key r) fun s => traced_map (fun e => ?_) s.records
    split
    · exact aged_endSoon now e
    · exact .refl e
  · exact .refl c

/-- A goodbye ages the set of its record. -/
theorem traced_goodbye (c : Cache) (now : Nat) (r : Record) :
    Traced c { c with sets := c.sets.modify (key r) fun set => { set with
      records := set.records.map fun e => if same e.record r then e.endSoon now else e } } := by
  refine traced_modify c (key r) fun set => traced_map (fun e => ?_) set.records
  split
  · exact aged_endSoon now e
  · exact .refl e

/-- A record as it is stored. -/
structure Entry.Stored (now : Nat) (stamp : Option Stamp) (r : Record) (e : Entry) : Prop where
  same : same e.record r = true
  stamp : e.stamp = stamp
  received : e.received = now
  ttl : e.record.ttl = min r.ttl 0x7fffffff
  expires : e.expires = satAdd now ((min r.ttl 0x7fffffff).toNat * 1000)

/-- A record is the same as itself. -/
theorem same_refl (r : Record) : Mdns.same r r = true := by
  simp only [Mdns.same, BEq.rfl, Bool.and_self]

/-- What is the same as a record is the same as each record like it. -/
theorem same_of_alike {a b r : Record} (h : Alike a b) (hsame : Mdns.same a r = true) :
    Mdns.same b r = true :=
  (h.same (Alike.refl r)).trans hsame

/-- The records after one was stored: those that were there, and the one stored. Flushing and
eviction only drop or age entries; the record then renews the entry that is the same, or is added as
a new one. -/
theorem mem_store {c : Cache} {now : Nat} {stamp : Option Stamp} {r : Record} {cost : Nat}
    {refresh : List Nat} : ∀ b ∈ (c.store now stamp r cost refresh).entries,
      (∃ a ∈ c.entries, a.Aged b) ∨ b.Stored now stamp r := by
  have hflush := traced_flush c now r
  refine iteInduction (motive := fun c' : Cache => ∀ b ∈ c'.entries,
    (∃ a ∈ c.entries, a.Aged b) ∨ b.Stored now stamp r) (fun _ b hb => ?_) fun _ b hb => ?_
  · obtain ⟨x, hx, hbx⟩ := mem_entries.1 hb
    obtain ⟨s, hs, heq⟩ := mem_modify hx
    rcases heq with heq | heq
    · rw [heq] at hbx
      rcases mem_renew hbx with hold | ⟨a, -, hsame, rfl⟩
      · exact .inl (hflush b (mem_entries.2 ⟨_, hs, hold⟩))
      · have hcls := cls_of_same hsame
        have halike : Alike a.record { a.record with ttl := min r.ttl 0x7fffffff, cls := r.cls } :=
          ⟨rfl, rfl, rfl, hcls⟩
        exact .inr ⟨same_of_alike halike hsame, rfl, rfl, rfl, rfl⟩
    · rw [heq] at hbx
      exact .inl (hflush b (mem_entries.2 ⟨_, hs, hbx⟩))
  · have hevict : Traced c (evict (key r) cost c.sets.size (c.flush now r)) :=
      hflush.trans (traced_subset subset_shed)
    obtain ⟨x, hx, hbx⟩ := mem_entries.1 hb
    rcases OrdMap.mem_entries_insert hx with ⟨hold, -⟩ | ⟨-, heq⟩
    · exact .inl (hevict b (mem_entries.2 ⟨x, hold, hbx⟩))
    · rw [heq] at hbx
      rcases List.mem_append.1 hbx with hold | hnew
      · refine .inl (hevict b ?_)
        cases hget : (evict (key r) cost c.sets.size (c.flush now r)).sets.get (key r) with
        | none =>
          unfold flush at hget
          rw [hget] at hold
          exact absurd hold List.not_mem_nil
        | some s =>
          obtain ⟨k', -, hmem⟩ := OrdMap.get_eq_some_iff.1 hget
          unfold flush at hget
          rw [hget] at hold
          exact mem_entries.2 ⟨_, hmem, hold⟩
      · rw [List.mem_singleton.1 hnew]
        exact .inr ⟨same_of_alike ⟨rfl, rfl, rfl, rfl⟩ (same_refl r), rfl, rfl, rfl, rfl⟩

/-- A record that is stored with the stamp chosen for its owner leaves one signer to each name: the
stamp is the one that the entries of that name have, by the choice. -/
theorem store_chosen {s : Selection} {c : Cache} {now : Nat} {stamp : Option Stamp} {r : Record}
    {cost : Nat} {refresh : List Nat} (hc : c.Owned) (hs : Chosen s c)
    (hstamp : s.selected.get r.name = some stamp) :
    (c.store now stamp r cost refresh).Owned ∧ Chosen s (c.store now stamp r cost refresh) := by
  have hsigner : ∀ b ∈ (c.store now stamp r cost refresh).entries,
      (b.record.name == r.name) = true → b.signer = stamp.map fun s => s.keyChecksum := by
    intro b hb hname
    unfold Entry.signer
    rcases mem_store b hb with ⟨a, ha, hab⟩ | hnew
    · have hget : s.selected.get a.record.name = some stamp := by
        rw [← hstamp, ← hab.record]
        exact OrdMap.get_congr _ (Name.beq_iff_sameKey.1 hname)
      rw [hab.stamp]
      exact hs a ha stamp hget
    · rw [hnew.stamp]
  constructor
  · intro x hx y hy hname
    rcases mem_store x hx with ⟨a, ha, hax⟩ | hnew
    · rcases mem_store y hy with ⟨b, hb, hby⟩ | hnew
      · rw [hax.record, hby.record] at hname
        unfold Entry.signer
        rw [hax.stamp, hby.stamp]
        exact hc a ha b hb hname
      · have hyname := name_of_same hnew.same
        rw [hsigner y hy hyname]
        exact hsigner x hx (PartialEquivBEq.trans hname hyname)
    · have hxname := name_of_same hnew.same
      rw [hsigner x hx hxname]
      exact (hsigner y hy (PartialEquivBEq.trans (PartialEquivBEq.symm hname) hxname)).symm
  · intro x hx stamp' hstamp'
    rcases mem_store x hx with ⟨a, ha, hax⟩ | hnew
    · rw [hax.record] at hstamp'
      unfold Entry.signer
      rw [hax.stamp]
      exact hs a ha stamp' hstamp'
    · have hxname := name_of_same hnew.same
      have hget : s.selected.get x.record.name = some stamp := by
        rw [← hstamp]
        exact OrdMap.get_congr _ (Name.beq_iff_sameKey.1 hxname)
      cases hget.symm.trans hstamp'
      exact hsigner x hx hxname

/-- Whether the second loop passes over a record. -/
def skipped (m : Message) (e : Record × Nat) : Bool :=
  !cacheable e.1 ||
    (m.flags &&& 0x8000 == 0 && decide (e.2 < m.answers.length + m.authority.length))

/-- Storing the records of a message leaves those of each name signed alike, since the choice was
made for all of them before. -/
theorem storeAll_owned {m : Message} {s : Selection} {now : Nat} {rng : Random}
    {rs : List (Record × Nat)} {n : Nat} {c : Cache} (hc : c.Owned) (hs : Chosen s c)
    (hrs : ∀ e ∈ rs, skipped m e = false →
      s.selected.contains e.1.name = true ∨ s.ignored.contains e.1.name = true) :
    (storeAll m s now rng rs n c).2.Owned := by
  induction rs generalizing n c with
  | nil => exact hc
  | cons r rs ih =>
    obtain ⟨hr, hrs⟩ := List.forall_mem_cons.1 hrs
    unfold storeAll
    split
    · exact ih hc hs hrs
    · next hskip =>
      split
      · have htraced := traced_goodbye c now r.1
        exact ih (htraced.owned hc) (htraced.chosen hs) hrs
      · split
        · exact ih hc hs hrs
        · dsimp only
          split
          · exact hc
          · have hselected : s.selected.contains r.1.name = true := by
              simp only [Bool.or_eq_true, not_or, Bool.not_eq_true] at hskip
              obtain ⟨⟨hcacheable, hignored⟩, hquery⟩ := hskip
              have hnot : skipped m r = false := by
                unfold skipped
                rw [hcacheable, hquery]
                rfl
              rcases hr hnot with h | h
              · exact h
              · rw [hignored] at h
                cases h
            obtain ⟨stamp, hstamp⟩ := OrdMap.contains_iff.1 hselected
            rw [hstamp]
            obtain ⟨howned, hchosen⟩ := store_chosen hc hs hstamp
            exact ih howned hchosen hrs

/-! ## Choosing stamps -/

/-- What holds while stamps are chosen: the records are alive, those of an owner are signed alike,
and those of an owner with a choice are signed like it. -/
structure Selecting (now : Nat) (s : Selection) : Prop where
  owned : s.cache.Owned
  chosen : Chosen s s.cache
  live : ∀ e ∈ s.cache.entries, e.deadline > now

/-- A choice for an owner whose records are signed like it. The choices for other names are as
before, and nothing of the cache changes. -/
theorem Selecting.choose {now : Nat} {s : Selection} (h : Selecting now s) {name : Name}
    {stamp : Option Stamp}
    (hsigned : ∀ e ∈ s.cache.entries, (e.record.name == name) = true →
      e.signer = stamp.map fun s => s.keyChecksum) :
    Selecting now { s with selected := s.selected.insert name stamp } where
  owned := h.owned
  live := h.live
  chosen := by
    intro e he stamp' hstamp'
    rw [OrdMap.get_insert] at hstamp'
    split at hstamp'
    · next hkey =>
      cases hstamp'
      exact hsigned e he (Name.beq_iff_sameKey.2 hkey.symm)
    · exact h.chosen e he stamp' hstamp'

/-- The owner is forgotten. -/
theorem Selecting.forget {now : Nat} {s : Selection} (h : Selecting now s) (name : Name) :
    Selecting now { s with cache := s.cache.removeOwner name } where
  owned := (traced_removeOwner s.cache name).owned h.owned
  chosen := (traced_removeOwner s.cache name).chosen h.chosen
  live := by
    intro e he
    obtain ⟨x, hx, hex⟩ := mem_entries.1 he
    exact h.live e (mem_entries.2 ⟨x, (OrdMap.mem_entries_retain.1 hx).1, hex⟩)

/-- What an owner had is gone from under its name. The sets that stay have other names, and a record
has the name of its set. -/
theorem name_ne_of_removeOwner {c : Cache} (hc : c.Held) {name : Name} {e : Entry}
    (he : e ∈ (c.removeOwner name).entries) : (e.record.name == name) = false := by
  obtain ⟨x, hx, hex⟩ := mem_entries.1 he
  obtain ⟨hmem, hname⟩ := OrdMap.mem_entries_retain.1 hx
  have hkey := (sameKey_pair.1 ((hc.sets x hmem).keys e hex)).1
  cases h : e.record.name == name with
  | false => rfl
  | true =>
    have hsame : (x.1.1 == name) = true :=
      PartialEquivBEq.trans (PartialEquivBEq.symm (Name.beq_iff_sameKey.2 hkey)) h
    rw [hsame] at hname
    cases hname

/-- The stamp of an owner is that of all of its records. -/
theorem Selecting.signer {now : Nat} {s : Selection} (h : Selecting now s) {name : Name}
    {mine : Option Stamp} (hmine : s.cache.ownerStamp name now = some mine) {e : Entry}
    (he : e ∈ s.cache.entries) (hname : (e.record.name == name) = true) :
    e.signer = mine.map fun s => s.keyChecksum := by
  obtain ⟨x, hfind, rfl⟩ := Option.map_eq_some_iff.1 hmine
  have hx := List.find?_some hfind
  rw [Bool.and_eq_true] at hx
  exact h.owned e he x (List.mem_of_find?_eq_some hfind)
    (PartialEquivBEq.trans hname (PartialEquivBEq.symm hx.1))

/-- An owner without a stamp to compare has no records. -/
theorem Selecting.unknown {now : Nat} {s : Selection} (h : Selecting now s) {name : Name}
    (hnone : s.cache.ownerStamp name now = none) {e : Entry} (he : e ∈ s.cache.entries) :
    (e.record.name == name) = false := by
  have hfind := List.find?_eq_none.1 (Option.map_eq_none_iff.1 hnone) e he
  cases hname : e.record.name == name with
  | false => rfl
  | true =>
    have hlive := decide_eq_true (h.live e he)
    exact absurd (by rw [hname, hlive]; rfl) hfind

/-- Stamps that compare as equal have the same key. One case for each side; the comparison of two
stamps looks at the keys first. -/
theorem compare_equal {a b : Option Stamp} (h : compare a b = .equal) :
    ∃ x y, a = some x ∧ b = some y ∧ x.keyChecksum = y.keyChecksum := by
  cases a with
  | none =>
    cases b with
    | none => cases h
    | some y => cases h
  | some x =>
    cases b with
    | none => cases h
    | some y =>
      simp only [compare] at h
      split at h
      · next hkey => exact ⟨x, y, rfl, rfl, hkey⟩
      · cases h

/-- Without a stamp on either side there is nothing to compare. One case for each side; two stamps
are always compared. -/
theorem compare_unstamped {a b : Option Stamp} (h : compare a b = .unstamped) : a = b := by
  cases a with
  | none =>
    cases b with
    | none => rfl
    | some y => cases h
  | some x =>
    cases b with
    | none => cases h
    | some y =>
      simp only [compare] at h
      split at h
      · split at h
        · cases h
        · split at h
          · cases h
          · cases h
      · cases h

/-- Deciding on the owner of one more record keeps the choices that were made. Where the owner is
unknown, its stamp is chosen as it is; otherwise the stamps are compared, and the entries are
forgotten, kept or ignored. -/
theorem Selecting.owner {m : Message} {stamps : OrdMap Name Stamp} {now : Nat} {s : Selection}
    (h : Selecting now s) (hs : s.cache.Sound) (e : Record × Nat) :
    Selecting now (s.owner m stamps now e) := by
  have forgotten : Selecting now { s with
      cache := s.cache.removeOwner e.1.name
      selected := s.selected.insert e.1.name (stamps.get e.1.name) } := by
    refine (h.forget e.1.name).choose fun x hx hname => ?_
    rw [name_ne_of_removeOwner hs.toHeld hx] at hname
    cases hname
  unfold Selection.owner
  split
  · exact h
  · dsimp only
    split
    · next hnone =>
      refine h.choose fun x hx hname => ?_
      rw [h.unknown hnone hx] at hname
      cases hname
    · next mine hmine =>
      split
      · exact ⟨h.owned, h.chosen, h.live⟩
      · exact forgotten
      · exact forgotten
      · next hcompare =>
        obtain ⟨a, b, rfl, hb, hkey⟩ := compare_equal hcompare
        rw [hb]
        refine h.choose fun x hx hname => ?_
        rw [h.signer hmine hx hname]
        exact congrArg some hkey
      · next hcompare =>
        rw [← compare_unstamped hcompare]
        exact h.choose fun x hx hname => h.signer hmine hx hname

/-- Whether the first loop passes over a record. -/
def passed (m : Message) (e : Record × Nat) : Bool :=
  !cacheable e.1 || (m.flags &&& 0x8000 == 0 && decide (e.2 < m.answers.length))

/-- What a choice leaves of the choices before: an owner that was selected or ignored stays so,
since each branch only adds to one of the two sets. -/
theorem Selection.owner_keeps (m : Message) (stamps : OrdMap Name Stamp) (now : Nat) (s : Selection)
    (e : Record × Nat) {name : Name}
    (h : s.selected.contains name = true ∨ s.ignored.contains name = true) :
    (s.owner m stamps now e).selected.contains name = true ∨
      (s.owner m stamps now e).ignored.contains name = true := by
  have hinsert : ∀ stamp, (s.selected.insert e.1.name stamp).contains name = true ∨
      s.ignored.contains name = true := by
    intro stamp
    refine h.imp_left fun hs => ?_
    obtain ⟨v, hv⟩ := OrdMap.contains_iff.1 hs
    rw [OrdMap.contains_iff, OrdMap.get_insert]
    split
    · exact ⟨_, rfl⟩
    · exact ⟨v, hv⟩
  unfold Selection.owner
  split
  · exact h
  · dsimp only
    split
    · exact hinsert _
    · split
      · refine h.imp_right fun hs => ?_
        obtain ⟨v, hv⟩ := OrdMap.contains_iff.1 hs
        rw [OrdMap.contains_iff, OrdMap.get_insert]
        split
        · exact ⟨_, rfl⟩
        · exact ⟨v, hv⟩
      · exact hinsert _
      · exact hinsert _
      · exact hinsert _
      · exact hinsert _

/-- Every record that is not passed over has an owner that was chosen or is ignored. The owner was
decided before, or is now inserted into one of the two sets. -/
theorem Selection.owner_decides (m : Message) (stamps : OrdMap Name Stamp) (now : Nat)
    (s : Selection) {e : Record × Nat} (h : passed m e = false) :
    (s.owner m stamps now e).selected.contains e.1.name = true ∨
      (s.owner m stamps now e).ignored.contains e.1.name = true := by
  have hinsert : ∀ stamp, (s.selected.insert e.1.name stamp).contains e.1.name = true :=
    fun stamp => OrdMap.contains_iff.2 ⟨stamp, OrdMap.get_insert_self _ _ _⟩
  unfold Selection.owner
  split
  · next hskip =>
    rw [show (!cacheable e.1 || (m.flags &&& 0x8000 == 0 && decide (e.2 < m.answers.length))) = _
      from h] at hskip
    simpa using hskip
  · dsimp only
    split
    · exact .inl (hinsert _)
    · split
      · exact .inr (OrdMap.contains_iff.2 ⟨(), OrdMap.get_insert_self _ _ _⟩)
      · exact .inl (hinsert _)
      · exact .inl (hinsert _)
      · exact .inl (hinsert _)
      · exact .inl (hinsert _)

/-- The choices for a message. -/
theorem selecting_foldl {m : Message} {stamps : OrdMap Name Stamp} {now : Nat}
    {es : List (Record × Nat)} {s : Selection} (h : Selecting now s) (hs : s.cache.Sound) :
    Selecting now (es.foldl (Selection.owner m stamps now) s) := by
  induction es generalizing s with
  | nil => exact h
  | cons e es ih => exact ih (h.owner hs e) (hs.owner e)

/-- After all decisions every owner of the message is chosen or ignored. By induction on the
records: a decision is made for each (`owner_decides`) and never taken back. -/
theorem decided_foldl {m : Message} {stamps : OrdMap Name Stamp} {now : Nat}
    {es : List (Record × Nat)} {s : Selection} :
    ∀ e ∈ es, passed m e = false →
      (es.foldl (Selection.owner m stamps now) s).selected.contains e.1.name = true ∨
      (es.foldl (Selection.owner m stamps now) s).ignored.contains e.1.name = true := by
  have hkeeps : ∀ (es : List (Record × Nat)) (s : Selection) (name : Name),
      s.selected.contains name = true ∨ s.ignored.contains name = true →
      (es.foldl (Selection.owner m stamps now) s).selected.contains name = true ∨
      (es.foldl (Selection.owner m stamps now) s).ignored.contains name = true := by
    intro es
    induction es with
    | nil => exact fun _ _ h => h
    | cons e es ih => exact fun s name h => ih _ name (s.owner_keeps m stamps now e h)
  induction es generalizing s with
  | nil => exact fun e he => absurd he List.not_mem_nil
  | cons x es ih =>
    intro e he hpassed
    rcases List.mem_cons.1 he with rfl | he
    · exact hkeeps es _ _ (s.owner_decides m stamps now hpassed)
    · exact ih e he hpassed

/-- A record that is stored was decided on. -/
theorem passed_of_skipped {m : Message} {e : Record × Nat} (h : skipped m e = false) :
    passed m e = false := by
  unfold skipped at h
  unfold passed
  rw [Bool.or_eq_false_iff] at h ⊢
  refine ⟨h.1, ?_⟩
  have hquery := h.2
  rw [Bool.and_eq_false_iff] at hquery ⊢
  refine hquery.imp_right fun hindex => ?_
  have hle := of_decide_eq_false hindex
  exact decide_eq_false fun hlt => hle (Nat.lt_of_lt_of_le hlt (Nat.le_add_right _ _))

/-- Receiving a message leaves the records of each name signed alike. The owners are decided on
first, and then every record is stored with the stamp that was chosen for its owner. -/
theorem receive_owned {c : Cache} (hc : c.Owned) (hs : c.Sound) (m : Message) (code : UInt16)
    (now : Nat) (rng : Random) : (c.receive m code now rng).2.Owned := by
  have hexpire := (traced_expire c now).owned hc
  unfold Cache.receive
  split
  · exact hc
  · dsimp only
    split
    · exact hexpire
    · next stamps _ =>
      have hstart : Selecting now ⟨c.expire now, .empty, .empty⟩ := by
        refine ⟨hexpire, ?_, ?_⟩
        · intro e _ stamp hstamp
          cases hstamp
        · intro e he
          obtain ⟨x, hx, hex⟩ := mem_entries.1 he
          obtain ⟨hmem, -⟩ := OrdMap.mem_entries_retain.1 hx
          obtain ⟨s, -, heq⟩ := OrdMap.mem_entries_mapValues.1 hmem
          rw [heq] at hex
          exact of_decide_eq_true (List.mem_filter.1 hex).2
      have hselecting : Selecting now
          (m.records.zipIdx.foldl (Selection.owner m stamps now) ⟨c.expire now, .empty, .empty⟩) :=
        selecting_foldl hstart (hs.expire now)
      exact storeAll_owned hselecting.owned hselecting.chosen fun e he hskip =>
        decided_foldl e he (passed_of_skipped hskip)

/-! ## Runs -/

/-- Every operation leaves the records of each name signed alike. Only a message adds records; every
other operation leaves some of those that were there. -/
theorem perform_owned {c : Cache} (hc : c.Owned) (hs : c.Sound) (now : Nat) (o : Op) :
    (c.perform now o).Owned := by
  cases o with
  | receive m code rng => exact receive_owned hc hs m code now rng
  | expire => exact (traced_expire c now).owned hc
  | removeOwner name => exact (traced_removeOwner c name).owned hc
  | clear =>
    intro a ha
    exact absurd ha List.not_mem_nil
  | reserve bytes => exact (traced_reserve c bytes).owned hc
  | answers q => exact (traced_touch c _ now).owned hc
  | known q => exact (traced_touch c _ now).owned hc
  | refreshed q => exact (traced_refreshed c q now).owned hc
  | suspect q => exact (traced_suspect c q now).owned hc
  | observeQuestion q known => exact (traced_observeQuestion c q known now).owned hc

/-- In every run of a cache, the records of an owner have stamps of one key or none has a stamp, so
that records of two keys are never answered under one name. -/
theorem owners {es : List ((Op × Nat) × Unit)} {c : Cache} {t₀ t : Nat}
    (h : machine.Run new t₀ es c t) : ∀ a ∈ c.entries, ∀ b ∈ c.entries,
      (a.record.name == b.record.name) = true →
      (a.stamp.map fun s => s.keyChecksum) = b.stamp.map fun s => s.keyChecksum := by
  have hinv : c.Owned ∧ c.Sound := by
    refine h.invariant (I := fun c _ => c.Owned ∧ c.Sound) ⟨?_, sound_new⟩ ?_
    · intro a ha
      exact absurd ha List.not_mem_nil
    · intro c t o hc _ _
      exact ⟨perform_owned hc.1 hc.2 o.2 o.1, hc.2.perform o.2 o.1⟩
  exact hinv.1

/-- The announcement with a stamp. -/
def stampedAnnouncement : Message :=
  { hostAnnouncement with
    additional := [⟨Name.root, 41, 1440, 0, .opt [(65002, Stamp.encode ⟨7, 0⟩ 0 0)]⟩] }

/-- The theorem applied to a host that was announced, and then announced with a stamp: all records
of its name have one key. -/
theorem owners_host : ∃ es c, machine.Run new 0 es c 5 ∧ c.entries.length = 1 ∧
    (c.entries.all fun e => e.stamp.isSome) = true ∧ ∀ a ∈ c.entries, ∀ b ∈ c.entries,
      (a.record.name == b.record.name) = true →
      (a.stamp.map fun s => s.keyChecksum) = b.stamp.map fun s => s.keyChecksum := by
  have hrun : machine.Run new 0 _ _ 5 :=
    (Machine.Run.nil.snoc (m := machine) (.receive hostAnnouncement 65002 fun _ _ => .ok 0, 5)
      (Nat.zero_le 5) trivial).snoc (.receive stampedAnnouncement 65002 fun _ _ => .ok 0, 5)
      (Nat.le_refl 5) trivial
  exact ⟨_, _, hrun, by decide +kernel, by decide +kernel, owners hrun⟩

end Cache

end SnacMachine.Mdns
