import Mathlib.Data.List.Lex
import Mathlib.Data.Prod.Lex
import Mathlib.Tactic.Common

/-!
# Ordered maps

An ordered map is a list of key-value entries whose keys increase. Keys are compared through a
*code* in a linear order, so that a key type whose order ignores part of a key (a name up to letter
case) is a key type as well: two keys with one code are the same key (`SameKey`), and an insertion
at a present key keeps the stored key and replaces the value. Every operation is characterised by
`OrdMap.get`, by what it does to the entries up to permutation (`entries_insert_perm`,
`entries_remove_perm`), which is what counts and sums need, and by what it keeps of the order.
-/

/-- A type whose values are ordered, as map keys, through a code in a linear order. -/
class OrdKey (K : Type) where
  /-- The type the keys are compared in. -/
  Code : Type
  /-- The order of the codes. -/
  order : LinearOrder Code
  /-- The part of a key that the comparison reads. -/
  code : K → Code

instance OrdKey.instOrder (K : Type) [OrdKey K] : LinearOrder (OrdKey.Code K) := OrdKey.order

/-- Two keys that the order does not tell apart. -/
def SameKey {K : Type} [OrdKey K] (a b : K) : Prop := OrdKey.code a = OrdKey.code b

instance {K : Type} [OrdKey K] (a b : K) : Decidable (SameKey a b) :=
  inferInstanceAs (Decidable (OrdKey.code a = OrdKey.code b))

/-- Key types whose order tells any two keys apart. -/
class LawfulOrdKey (K : Type) [OrdKey K] : Prop where
  code_inj : ∀ {a b : K}, OrdKey.code a = OrdKey.code b → a = b

/-- A key is the same as itself. -/
@[simp] theorem sameKey_self {K : Type} [OrdKey K] (a : K) : SameKey a a := rfl

/-- Which of two keys is named first does not matter. -/
theorem SameKey.symm {K : Type} [OrdKey K] {a b : K} (h : SameKey a b) : SameKey b a := Eq.symm h

/-- Keys that are the same as a third one are the same. -/
theorem SameKey.trans {K : Type} [OrdKey K] {a b c : K} (h : SameKey a b) (h' : SameKey b c) :
    SameKey a c := Eq.trans h h'

/-- Where the order tells all keys apart, the same keys are equal. -/
@[simp] theorem sameKey_iff {K : Type} [OrdKey K] [LawfulOrdKey K] {a b : K} :
    SameKey a b ↔ a = b := ⟨LawfulOrdKey.code_inj, fun h => h ▸ rfl⟩

/-- Natural numbers are their own codes. -/
instance : OrdKey Nat := ⟨Nat, inferInstance, id⟩
instance : LawfulOrdKey Nat := ⟨fun h => h⟩

/-- A byte is compared as a number. -/
instance : OrdKey UInt8 := ⟨Nat, inferInstance, UInt8.toNat⟩
instance : LawfulOrdKey UInt8 := ⟨fun h => UInt8.toNat_inj.1 h⟩

/-- A sixteen-bit word is compared as a number. -/
instance : OrdKey UInt16 := ⟨Nat, inferInstance, UInt16.toNat⟩
instance : LawfulOrdKey UInt16 := ⟨fun h => UInt16.toNat_inj.1 h⟩

/-- Lists are compared lexicographically. -/
instance (K : Type) [OrdKey K] : OrdKey (List K) :=
  ⟨List (OrdKey.Code K), inferInstance, List.map OrdKey.code⟩
instance (K : Type) [OrdKey K] [LawfulOrdKey K] : LawfulOrdKey (List K) :=
  ⟨fun h => List.map_injective_iff.2 (fun _ _ h => LawfulOrdKey.code_inj h) h⟩

/-- Pairs are compared lexicographically. -/
instance (K L : Type) [OrdKey K] [OrdKey L] : OrdKey (K × L) :=
  ⟨OrdKey.Code K ×ₗ OrdKey.Code L, inferInstance, fun p => toLex (OrdKey.code p.1, OrdKey.code p.2)⟩
instance (K L : Type) [OrdKey K] [OrdKey L] [LawfulOrdKey K] [LawfulOrdKey L] :
    LawfulOrdKey (K × L) :=
  ⟨fun h => by
    have h := Prod.ext_iff.1 (toLex_inj.1 h)
    exact Prod.ext (LawfulOrdKey.code_inj h.1) (LawfulOrdKey.code_inj h.2)⟩

/-- A pair is the same key when both components are. -/
theorem sameKey_pair {K L : Type} [OrdKey K] [OrdKey L] {p q : K × L} :
    SameKey p q ↔ SameKey p.1 q.1 ∧ SameKey p.2 q.2 := by
  refine ⟨fun h => Prod.ext_iff.1 (toLex_inj.1 h), fun h => ?_⟩
  exact congrArg toLex (Prod.ext h.1 h.2)

/-- A list of entries whose keys increase, the representation of a map with ordered iteration. -/
structure OrdMap (K V : Type) [OrdKey K] where
  /-- The entries, in key order. -/
  entries : List (K × V)
  /-- The keys increase, so no key occurs twice. -/
  sorted : entries.Pairwise fun a b => OrdKey.code a.1 < OrdKey.code b.1

namespace OrdMap

variable {K V W : Type} [OrdKey K]

/-- The map without entries. -/
def empty : OrdMap K V := ⟨[], .nil⟩

instance : Inhabited (OrdMap K V) := ⟨empty⟩
instance : EmptyCollection (OrdMap K V) := ⟨empty⟩

/-- The value stored at a key. -/
def get (m : OrdMap K V) (k : K) : Option V :=
  (m.entries.find? fun e => SameKey e.1 k).map Prod.snd

/-- Whether a key is present. -/
def contains (m : OrdMap K V) (k : K) : Bool := (m.get k).isSome

/-- The number of entries. -/
def size (m : OrdMap K V) : Nat := m.entries.length

/-- The keys, in order. -/
def keys (m : OrdMap K V) : List K := m.entries.map Prod.fst

/-- The values, in key order. -/
def values (m : OrdMap K V) : List V := m.entries.map Prod.snd

/-- Ordered insertion into a list of entries. -/
def insertList (k : K) (v : V) : List (K × V) → List (K × V)
  | [] => [(k, v)]
  | e :: l =>
    if OrdKey.code k < OrdKey.code e.1 then (k, v) :: e :: l
    else if SameKey e.1 k then (e.1, v) :: l
    else e :: insertList k v l

/-- An insertion adds at most one entry, with the new value. By recursion on the entries, up to the
place of the key. -/
theorem mem_insertList {k : K} {v : V} {x : K × V} : ∀ {l : List (K × V)},
    x ∈ insertList k v l → x ∈ l ∨ (SameKey x.1 k ∧ x.2 = v)
  | [], h => by
    simp only [insertList, List.mem_singleton] at h
    subst h
    exact .inr ⟨rfl, rfl⟩
  | e :: l, h => by
    unfold insertList at h
    split at h
    · rcases List.mem_cons.1 h with rfl | h
      · exact .inr ⟨rfl, rfl⟩
      · exact .inl h
    · split at h
      · next hs =>
        rcases List.mem_cons.1 h with rfl | h
        · exact .inr ⟨hs, rfl⟩
        · exact .inl (List.mem_cons_of_mem _ h)
      · rcases List.mem_cons.1 h with rfl | h
        · exact .inl List.mem_cons_self
        · exact (mem_insertList h).imp (List.mem_cons_of_mem _) id

/-- The keys still increase after an insertion; the induction follows the search for the place. The
new key stands before the first larger one, or takes the place of its equal. -/
theorem insertList_sorted (k : K) (v : V) : ∀ {l : List (K × V)},
    l.Pairwise (fun a b => OrdKey.code a.1 < OrdKey.code b.1) →
    (insertList k v l).Pairwise fun a b => OrdKey.code a.1 < OrdKey.code b.1
  | [], _ => by simp [insertList]
  | e :: l, h => by
    have ⟨he, hl⟩ := List.pairwise_cons.1 h
    unfold insertList
    split
    · next hlt =>
      refine List.pairwise_cons.2 ⟨fun x hx => ?_, h⟩
      rcases List.mem_cons.1 hx with rfl | hx
      · exact hlt
      · exact lt_trans hlt (he x hx)
    · next hlt =>
      split
      · exact List.pairwise_cons.2 ⟨he, hl⟩
      · next hs =>
        refine List.pairwise_cons.2 ⟨fun x hx => ?_, insertList_sorted k v hl⟩
        rcases mem_insertList hx with hx | ⟨hx, -⟩
        · exact he x hx
        · rw [show OrdKey.code x.1 = OrdKey.code k from hx]
          exact lt_of_le_of_ne (not_lt.1 hlt) hs

/-- Stores a value at a key; a present key keeps its stored form. -/
def insert (m : OrdMap K V) (k : K) (v : V) : OrdMap K V :=
  ⟨insertList k v m.entries, insertList_sorted k v m.sorted⟩

/-- Keeps the entries that satisfy a predicate. -/
def retain (p : K → V → Bool) (m : OrdMap K V) : OrdMap K V :=
  ⟨m.entries.filter fun e => p e.1 e.2, m.sorted.filter _⟩

/-- Drops a key. -/
def remove (m : OrdMap K V) (k : K) : OrdMap K V := m.retain fun k' _ => !decide (SameKey k' k)

/-- Rewrites every value in place. -/
def mapValues (f : K → V → W) (m : OrdMap K V) : OrdMap K W :=
  ⟨m.entries.map fun e => (e.1, f e.1 e.2), List.pairwise_map.2 m.sorted⟩

/-- Rewrites the value at one key, if it is present. -/
def modify (m : OrdMap K V) (k : K) (f : V → V) : OrdMap K V :=
  m.mapValues fun k' v => if SameKey k' k then f v else v

/-- A map is its entries. -/
theorem ext_entries {m m' : OrdMap K V} (h : m.entries = m'.entries) : m = m' := by
  cases m
  cases m'
  cases h
  rfl

/-! ## Lookup -/

/-- No key is there twice, not even in two spellings. -/
theorem eq_of_mem_of_sameKey {m : OrdMap K V} {x y : K × V} (hx : x ∈ m.entries)
    (hy : y ∈ m.entries) (h : SameKey x.1 y.1) : x = y := by
  obtain ⟨i, hi, rfl⟩ := List.mem_iff_getElem.1 hx
  obtain ⟨j, hj, rfl⟩ := List.mem_iff_getElem.1 hy
  have hs := List.pairwise_iff_getElem.1 m.sorted
  rcases lt_trichotomy i j with hij | rfl | hij
  · exact absurd h (hs i j hi hj hij).ne
  · rfl
  · exact absurd h (hs j i hj hi hij).ne'

/-- A lookup finds exactly the entry with that key. The keys are sorted, so no other entry has a key
that is the same. -/
theorem get_eq_some_iff {m : OrdMap K V} {k : K} {v : V} :
    m.get k = some v ↔ ∃ k', SameKey k' k ∧ (k', v) ∈ m.entries := by
  unfold get
  constructor
  · intro h
    obtain ⟨e, he, rfl⟩ := Option.map_eq_some_iff.1 h
    exact ⟨e.1, by simpa using List.find?_some he, List.mem_of_find?_eq_some he⟩
  · rintro ⟨k', hk, hm⟩
    cases hf : m.entries.find? fun e => SameKey e.1 k with
    | none => simpa [hk] using List.find?_eq_none.1 hf _ hm
    | some e =>
      have hs : SameKey e.1 k := by simpa using List.find?_some hf
      have := eq_of_mem_of_sameKey (List.mem_of_find?_eq_some hf) hm (hs.trans hk.symm)
      simp [this]

/-- Nothing is found under a key if no entry has the same key. -/
theorem get_eq_none_iff {m : OrdMap K V} {k : K} :
    m.get k = none ↔ ∀ e ∈ m.entries, ¬ SameKey e.1 k := by
  simp [get, List.find?_eq_none]

/-- An entry is found under its own key. -/
theorem get_of_mem {m : OrdMap K V} {k : K} {v : V} (h : (k, v) ∈ m.entries) :
    m.get k = some v := get_eq_some_iff.2 ⟨k, rfl, h⟩

/-- Both spellings of a key find the same value. -/
theorem get_congr (m : OrdMap K V) {k k' : K} (h : SameKey k k') : m.get k = m.get k' := by
  have : (fun e : K × V => decide (SameKey e.1 k)) = fun e => decide (SameKey e.1 k') := by
    funext e
    exact decide_eq_decide.2 ⟨fun h' => h'.trans h, fun h' => h'.trans h.symm⟩
  unfold get
  rw [this]

/-- Where the order tells all keys apart, the entries are what is found. -/
theorem mem_iff_get [LawfulOrdKey K] {m : OrdMap K V} {k : K} {v : V} :
    (k, v) ∈ m.entries ↔ m.get k = some v := by
  refine ⟨get_of_mem, fun h => ?_⟩
  obtain ⟨k', hk, hm⟩ := get_eq_some_iff.1 h
  exact sameKey_iff.1 hk ▸ hm

/-- A map in which something is found has entries. -/
theorem entries_ne_nil {m : OrdMap K V} {k : K} {v : V} (h : m.get k = some v) :
    m.entries ≠ [] := by
  obtain ⟨_, -, hm⟩ := get_eq_some_iff.1 h
  exact List.ne_nil_of_mem hm

/-- A key is in the map if something is found under it. -/
theorem contains_iff {m : OrdMap K V} {k : K} : m.contains k = true ↔ ∃ v, m.get k = some v := by
  simp [contains, Option.isSome_iff_exists]

/-- A key is not in the map if nothing is found under it. -/
theorem contains_eq_false_iff {m : OrdMap K V} {k : K} : m.contains k = false ↔ m.get k = none := by
  simp [contains]

/-- Nothing is found in an empty map. -/
@[simp] theorem get_empty (k : K) : (empty : OrdMap K V).get k = none := rfl
@[simp] theorem entries_empty : (empty : OrdMap K V).entries = [] := rfl
@[simp] theorem size_empty : (empty : OrdMap K V).size = 0 := rfl

/-- What a search finds after an insertion into the list; the induction follows the insertion, and
the order of the keys says that nothing is found further on. -/
theorem find?_insertList (k k' : K) (v : V) : ∀ {l : List (K × V)},
    l.Pairwise (fun a b => OrdKey.code a.1 < OrdKey.code b.1) →
    ((insertList k v l).find? fun e => SameKey e.1 k').map Prod.snd =
      if SameKey k k' then some v else (l.find? fun e => SameKey e.1 k').map Prod.snd
  | [], _ => by
    by_cases h : SameKey k k' <;> simp [insertList, h]
  | e :: l, hl => by
    have ⟨he, hl'⟩ := List.pairwise_cons.1 hl
    unfold insertList
    split
    · by_cases h : SameKey k k' <;> simp [List.find?_cons, h]
    · split
      · next hs =>
        by_cases h : SameKey k k'
        · simp [h, hs.trans h]
        · have : ¬ SameKey e.1 k' := fun h' => h (hs.symm.trans h')
          simp [h, this]
      · next hs =>
        have ih := find?_insertList k k' v hl'
        by_cases h' : SameKey e.1 k'
        · have : ¬ SameKey k k' := fun h => hs (h'.trans h.symm)
          simp [h', this]
        · simpa [List.find?_cons, h'] using ih

/-- What an insertion changes. -/
theorem get_insert (m : OrdMap K V) (k k' : K) (v : V) :
    (m.insert k v).get k' = if SameKey k k' then some v else m.get k' :=
  find?_insertList k k' v m.sorted

/-- What was inserted is found under its key. -/
@[simp] theorem get_insert_self (m : OrdMap K V) (k : K) (v : V) :
    (m.insert k v).get k = some v := by
  simp [get_insert]

/-- What is found under the other keys stays. -/
theorem get_insert_of_ne (m : OrdMap K V) {k k' : K} (v : V) (h : ¬ SameKey k k') :
    (m.insert k v).get k' = m.get k' := by
  rw [get_insert, if_neg h]

/-- A retained lookup, for a predicate that reads the key only through its code. -/
theorem get_retain {m : OrdMap K V} {p : K → V → Bool}
    (hp : ∀ {k k' : K} (v : V), SameKey k k' → p k v = p k' v) (k : K) :
    (m.retain p).get k = (m.get k).filter (p k) := by
  ext v
  simp only [get_eq_some_iff, Option.filter_eq_some_iff, retain, List.mem_filter]
  constructor
  · rintro ⟨k', hk, hm, hv⟩
    exact ⟨⟨k', hk, hm⟩, by rw [← hp v hk]; exact hv⟩
  · rintro ⟨⟨k', hk, hm⟩, hv⟩
    exact ⟨k', hk, hm, by rw [hp v hk]; exact hv⟩

/-- Of the entries that are kept by their values, the others are not found any more. -/
@[simp] theorem get_retain_values (m : OrdMap K V) (p : V → Bool) (k : K) :
    (m.retain fun _ v => p v).get k = (m.get k).filter p := get_retain (fun _ _ => rfl) k

/-- Where the order tells all keys apart, an entry is found after the others have gone if it was
kept. -/
@[simp] theorem get_retain_lawful [LawfulOrdKey K] (m : OrdMap K V) (p : K → V → Bool) (k : K) :
    (m.retain p).get k = (m.get k).filter (p k) :=
  get_retain (fun _ h => by rw [sameKey_iff.1 h]) k

/-- Keeping every entry changes nothing. -/
theorem retain_true (m : OrdMap K V) : (m.retain fun _ _ => true) = m :=
  ext_entries (by simp [retain])

/-- Keeping no entry empties the map. -/
theorem retain_false (m : OrdMap K V) : (m.retain fun _ _ => false) = empty :=
  ext_entries (by simp [retain])

/-- A removal takes away what is found under one key, and no other. -/
theorem get_remove (m : OrdMap K V) (k k' : K) :
    (m.remove k).get k' = if SameKey k' k then none else m.get k' := by
  unfold remove
  rw [get_retain fun {a b} _ (h : SameKey a b) => by
    rw [decide_eq_decide.2 ⟨fun h' => h.symm.trans h', fun h' => h.trans h'⟩]]
  by_cases h : SameKey k' k
  · cases m.get k' <;> simp [h]
  · cases m.get k' <;> simp [h]

/-- Nothing is found under a key that was removed. -/
@[simp] theorem get_remove_self (m : OrdMap K V) (k : K) : (m.remove k).get k = none := by
  simp [get_remove]

/-- What an insertion changes, where the order tells keys apart. -/
theorem get_insert_eq [LawfulOrdKey K] [DecidableEq K] (m : OrdMap K V) (k k' : K) (v : V) :
    (m.insert k v).get k' = if k = k' then some v else m.get k' := by
  simp only [get_insert, sameKey_iff]

/-- What a removal changes, where the order tells keys apart. -/
theorem get_remove_eq [LawfulOrdKey K] [DecidableEq K] (m : OrdMap K V) (k k' : K) :
    (m.remove k).get k' = if k' = k then none else m.get k' := by
  simp only [get_remove, sameKey_iff]

/-- New values are found under the old keys if the change does not depend on how a key is
spelled. -/
theorem get_mapValues (m : OrdMap K V) {f : K → V → W}
    (hf : ∀ {k k' : K} (v : V), SameKey k k' → f k v = f k' v) (k : K) :
    (m.mapValues f).get k = (m.get k).map (f k) := by
  ext w
  simp only [get_eq_some_iff, Option.map_eq_some_iff, mapValues, List.mem_map, Prod.mk.injEq]
  constructor
  · rintro ⟨k', hk, e, he, rfl, rfl⟩
    exact ⟨e.2, ⟨e.1, hk, he⟩, (hf _ hk).symm⟩
  · rintro ⟨v, ⟨k', hk, hm⟩, rfl⟩
    exact ⟨k', hk, (k', v), hm, rfl, hf _ hk⟩

/-- New values are found under the old keys. -/
@[simp] theorem get_mapValues_values (m : OrdMap K V) (f : V → W) (k : K) :
    (m.mapValues fun _ v => f v).get k = (m.get k).map f := get_mapValues m (fun _ _ => rfl) k

/-- Where the order tells all keys apart, the change may read the key. -/
theorem get_mapValues_eq [LawfulOrdKey K] (m : OrdMap K V) (f : K → V → W) (k : K) :
    (m.mapValues f).get k = (m.get k).map (f k) :=
  get_mapValues m (fun _ h => by rw [sameKey_iff.1 h]) k

/-- A change of one value is found under its key, and the other values stay. -/
theorem get_modify (m : OrdMap K V) (k k' : K) (f : V → V) :
    (m.modify k f).get k' = if SameKey k' k then (m.get k').map f else m.get k' := by
  unfold modify
  rw [get_mapValues m fun {a b} v (h : SameKey a b) => by
    simp only [show SameKey a k ↔
      SameKey b k from ⟨fun h' => h.symm.trans h', fun h' => h.trans h'⟩]]
  by_cases h : SameKey k' k <;> simp [h]

/-! ## Entries -/

/-- The entries that are kept are those that the condition holds of. -/
theorem mem_entries_retain {m : OrdMap K V} {p : K → V → Bool} {e : K × V} :
    e ∈ (m.retain p).entries ↔ e ∈ m.entries ∧ p e.1 e.2 = true := by
  simp [retain]

/-- A removal leaves the entries with other keys. -/
theorem mem_entries_remove {m : OrdMap K V} {k : K} {e : K × V} :
    e ∈ (m.remove k).entries ↔ e ∈ m.entries ∧ ¬ SameKey e.1 k := by
  simp [remove, retain]

/-- Every entry after an insertion is an old one with another key, or has the new value. -/
theorem mem_entries_insert {m : OrdMap K V} {k : K} {v : V} {e : K × V}
    (h : e ∈ (m.insert k v).entries) :
    (e ∈ m.entries ∧ ¬ SameKey e.1 k) ∨ (SameKey e.1 k ∧ e.2 = v) := by
  by_cases hs : SameKey e.1 k
  · have := get_of_mem (show (e.1, e.2) ∈ _ from h)
    rw [get_insert, if_pos hs.symm] at this
    exact .inr ⟨hs, (Option.some.inj this).symm⟩
  · rcases mem_insertList h with h | h
    · exact .inl ⟨h, hs⟩
    · exact absurd h.1 hs

/-- The entries with changed values have the old keys. -/
theorem mem_entries_mapValues {m : OrdMap K V} {f : K → V → W} {e : K × W} :
    e ∈ (m.mapValues f).entries ↔ ∃ v, (e.1, v) ∈ m.entries ∧ e.2 = f e.1 v := by
  simp only [mapValues, List.mem_map, Prod.ext_iff]
  constructor
  · rintro ⟨a, ha, h1, h2⟩
    exact ⟨a.2, by rw [← h1]; exact ha, by rw [← h2, ← h1]⟩
  · rintro ⟨v, hv, h⟩
    exact ⟨(e.1, v), hv, rfl, h.symm⟩

/-- No key is there twice. -/
theorem keys_nodup (m : OrdMap K V) : m.keys.Nodup :=
  List.pairwise_map.2 (m.sorted.imp fun h he => h.ne (congrArg OrdKey.code he))

/-- Inserting a key that is not there adds one entry, wherever its place is. -/
theorem insertList_perm {k : K} {v : V} : ∀ {l : List (K × V)},
    (∀ e ∈ l, ¬ SameKey e.1 k) → (insertList k v l).Perm ((k, v) :: l)
  | [], _ => .refl _
  | e :: l, h => by
    unfold insertList
    rw [if_neg (h e List.mem_cons_self)]
    split
    · exact .refl _
    · exact ((insertList_perm fun x hx => h x (List.mem_cons_of_mem _ hx)).cons e).trans
        (.swap _ _ _)

/-- Inserting at a fresh key adds one entry. -/
theorem entries_insert_perm {m : OrdMap K V} {k : K} (v : V) (h : m.get k = none) :
    (m.insert k v).entries.Perm ((k, v) :: m.entries) :=
  insertList_perm (get_eq_none_iff.1 h)

/-- Inserting a key that is there changes the value in place and keeps the stored key. By recursion
on the entries, which the key finds since they are sorted. -/
theorem insertList_eq_map {k : K} {v : V} : ∀ {l : List (K × V)},
    l.Pairwise (fun a b => OrdKey.code a.1 < OrdKey.code b.1) → (∃ e ∈ l, SameKey e.1 k) →
    insertList k v l = l.map fun e => (e.1, if SameKey e.1 k then v else e.2)
  | [], _, h => by simp at h
  | e :: l, hl, h => by
    have ⟨he, hl'⟩ := List.pairwise_cons.1 hl
    unfold insertList
    obtain ⟨x, hx, hs⟩ := h
    by_cases hek : SameKey e.1 k
    · rw [if_neg (by rw [← show OrdKey.code e.1 = OrdKey.code k from hek]; exact lt_irrefl _),
        if_pos hek, List.map_cons, if_pos hek]
      have hid : l = l.map fun e => (e.1, if SameKey e.1 k then v else e.2) := by
        conv_lhs => rw [← List.map_id l]
        refine List.map_congr_left fun y hy => ?_
        have : ¬ SameKey y.1 k := fun hy' => (he y hy).ne (hek.trans hy'.symm)
        simp [this]
      rw [← hid]
    · have hx : x ∈ l := (List.mem_cons.1 hx).resolve_left fun h => hek (h ▸ hs)
      have : ¬ OrdKey.code k < OrdKey.code e.1 := fun h =>
        lt_asymm h (lt_of_lt_of_eq (he x hx) hs)
      rw [if_neg this, if_neg hek, insertList_eq_map hl' ⟨x, hx, hs⟩, List.map_cons, if_neg hek]

/-- Inserting at a present key rewrites its entry in place. -/
theorem entries_insert_of_mem {m : OrdMap K V} {k : K} (v : V) (h : m.contains k = true) :
    (m.insert k v).entries = m.entries.map fun e => (e.1, if SameKey e.1 k then v else e.2) := by
  refine insertList_eq_map m.sorted ?_
  obtain ⟨w, hw⟩ := contains_iff.1 h
  obtain ⟨k', hk, hm⟩ := get_eq_some_iff.1 hw
  exact ⟨_, hm, hk⟩

/-- A present entry comes off the map when its key is removed. The entries with that key are this
one alone, and the others stay in their order. -/
theorem entries_remove_perm {m : OrdMap K V} {k : K} {v : V} (h : (k, v) ∈ m.entries) :
    m.entries.Perm ((k, v) :: (m.remove k).entries) := by
  have hone : m.entries.filter (fun e => decide (SameKey e.1 k)) = [(k, v)] := by
    have hnd : m.entries.Nodup := m.sorted.imp fun {a b} h (h' : a = b) => h.ne (by rw [h'])
    have hmem : ∀ x, x ∈ m.entries.filter (fun e => decide (SameKey e.1 k)) ↔ x ∈ [(k, v)] := by
      intro x
      simp only [List.mem_filter, decide_eq_true_eq, List.mem_singleton]
      exact ⟨fun hx => eq_of_mem_of_sameKey hx.1 h hx.2, fun hx => hx ▸ ⟨h, rfl⟩⟩
    exact List.perm_singleton.1
      ((List.perm_ext_iff_of_nodup (hnd.filter _) (by simp)).2 hmem)
  have := List.filter_append_perm (fun e : K × V => decide (SameKey e.1 k)) m.entries
  rw [hone] at this
  exact this.symm

/-- An insertion under a new key adds one entry. -/
theorem size_insert_of_get_none {m : OrdMap K V} {k : K} (v : V) (h : m.get k = none) :
    (m.insert k v).size = m.size + 1 := by
  unfold size
  rw [(entries_insert_perm v h).length_eq, List.length_cons]

/-- An insertion under a key that is there adds no entry. -/
theorem size_insert_of_contains {m : OrdMap K V} {k : K} (v : V) (h : m.contains k = true) :
    (m.insert k v).size = m.size := by
  unfold size
  rw [entries_insert_of_mem v h, List.length_map]

/-- An insertion adds at most one entry. -/
theorem size_insert_le (m : OrdMap K V) (k : K) (v : V) : (m.insert k v).size ≤ m.size + 1 := by
  cases h : m.get k with
  | none => exact (size_insert_of_get_none v h).le
  | some w => rw [size_insert_of_contains v (contains_iff.2 ⟨w, h⟩)]; exact Nat.le_succ _

/-- An insertion removes no entry. -/
theorem size_le_insert (m : OrdMap K V) (k : K) (v : V) : m.size ≤ (m.insert k v).size := by
  cases h : m.get k with
  | none => rw [size_insert_of_get_none v h]; exact Nat.le_succ _
  | some w => exact (size_insert_of_contains v (contains_iff.2 ⟨w, h⟩)).ge

/-- Keeping some entries adds none. -/
theorem size_retain_le (m : OrdMap K V) (p : K → V → Bool) : (m.retain p).size ≤ m.size :=
  List.length_filter_le _ _

/-- A map with fewer keys is smaller. -/
theorem size_le_of_get {W : Type} {m : OrdMap K V} {m' : OrdMap K W} [LawfulOrdKey K]
    (h : ∀ k v, m.get k = some v → ∃ w, m'.get k = some w) : m.size ≤ m'.size := by
  have hsub : m.keys ⊆ m'.keys := by
    intro k hk
    obtain ⟨e, he, rfl⟩ := List.mem_map.1 hk
    obtain ⟨w, hw⟩ := h e.1 e.2 (mem_iff_get.1 he)
    exact List.mem_map.2 ⟨(e.1, w), mem_iff_get.2 hw, rfl⟩
  have := m.keys_nodup.length_le_of_subset hsub
  simpa [keys, size] using this

/-- The size of a map whose keys are known. The keys of the map and the list have the same members,
and neither repeats one. -/
theorem size_eq_length [LawfulOrdKey K] {m : OrdMap K V} {l : List K} (hl : l.Nodup)
    (h : ∀ k, (∃ v, m.get k = some v) ↔ k ∈ l) : m.size = l.length := by
  have hperm : m.keys.Perm l := by
    refine (List.perm_ext_iff_of_nodup m.keys_nodup hl).2 fun k => ?_
    rw [← h k]
    constructor
    · intro hk
      obtain ⟨e, he, rfl⟩ := List.mem_map.1 hk
      exact ⟨e.2, mem_iff_get.1 he⟩
    · rintro ⟨v, hv⟩
      exact List.mem_map.2 ⟨(k, v), mem_iff_get.2 hv, rfl⟩
  rw [← hperm.length_eq, keys, List.length_map, size]

/-- Changing the values leaves the number of entries as it is. -/
@[simp] theorem size_mapValues (m : OrdMap K V) (f : K → V → W) :
    (m.mapValues f).size = m.size := by
  simp [size, mapValues]

/-! ## Keys up to their codes -/

/-- Inserting after every key adds the entry at the end. By induction on the entries, each of which
is before the key. -/
theorem entries_insert_last {m : OrdMap K V} {k : K} (v : V)
    (h : ∀ e ∈ m.entries, OrdKey.code e.1 < OrdKey.code k) :
    m.contains k = false ∧ (m.insert k v).entries = m.entries ++ [(k, v)] := by
  refine ⟨contains_eq_false_iff.2 (get_eq_none_iff.2 fun e he => (h e he).ne), ?_⟩
  have : ∀ l : List (K × V), (∀ e ∈ l, OrdKey.code e.1 < OrdKey.code k) →
      insertList k v l = l ++ [(k, v)] := by
    intro l
    induction l with
    | nil => intro _; rfl
    | cons e l ih =>
      intro h
      have he := h e List.mem_cons_self
      unfold insertList
      rw [if_neg (not_lt.2 he.le), if_neg (fun hs : SameKey e.1 k => he.ne hs),
        ih fun x hx => h x (List.mem_cons_of_mem _ hx), List.cons_append]
  exact this _ h

/-- Rewrites every entry, each key to one with the same code. -/
def mapEntries (f : K × V → K × W) (hf : ∀ e, SameKey (f e).1 e.1) (m : OrdMap K V) : OrdMap K W :=
  ⟨m.entries.map f, by
    rw [List.pairwise_map]
    refine m.sorted.imp fun {a b} h => ?_
    rw [show OrdKey.code (f a).1 = _ from hf a, show OrdKey.code (f b).1 = _ from hf b]
    exact h⟩

/-- A change of the entries that keeps the keys, up to how they are spelled, is found as a change of
the values. -/
theorem get_mapEntries {f : K × V → K × W} (m : OrdMap K V) (hf : ∀ e, SameKey (f e).1 e.1)
    {g : V → W} (hg : ∀ e, (f e).2 = g e.2)
    (k : K) : (m.mapEntries f hf).get k = (m.get k).map g := by
  ext w
  simp only [get_eq_some_iff, Option.map_eq_some_iff, mapEntries, List.mem_map]
  constructor
  · rintro ⟨k', hk, e, he, heq⟩
    have hw : w = g e.2 := by rw [← hg, heq]
    refine ⟨e.2, ⟨e.1, ?_, he⟩, hw.symm⟩
    exact (hf e).symm.trans (heq ▸ hk)
  · rintro ⟨v, ⟨k', hk, hm⟩, rfl⟩
    exact ⟨(f (k', v)).1, (hf _).trans hk, (k', v), hm, Prod.ext rfl (hg _)⟩

/-- Two maps with the same codes and values. -/
def Alike (m m' : OrdMap K V) : Prop :=
  (m.entries.map fun e => (OrdKey.code e.1, e.2)) = m'.entries.map fun e => (OrdKey.code e.1, e.2)

/-- Maps that differ in the spelling of their keys only are equally large. -/
theorem Alike.size {m m' : OrdMap K V} (h : m.Alike m') : m.size = m'.size := by
  have := congrArg List.length h
  simpa [OrdMap.size] using this

/-- Maps that differ in the spelling of their keys only hold the same values. A lookup compares the
codes of keys, which are the same in both. -/
theorem Alike.get {m m' : OrdMap K V} (h : m.Alike m') {k k' : K} (hk : SameKey k k') :
    m.get k = m'.get k' := by
  rw [get_congr _ hk]
  have key : ∀ m : OrdMap K V, m.get k' =
      ((m.entries.map fun e => (OrdKey.code e.1, e.2)).find? fun e =>
       decide (e.1 = OrdKey.code k')).map
        Prod.snd := by
    intro m
    unfold OrdMap.get
    rw [List.find?_map, Option.map_map]
    rfl
  rw [key, key, h]

/-- An insertion, of a key in either spelling, keeps the maps alike; the two lists are walked
together. -/
theorem insertList_alike {k k' : K} (v : V) (hk : SameKey k k') : ∀ {l l' : List (K × V)},
    (l.map fun e => (OrdKey.code e.1, e.2)) = (l'.map fun e => (OrdKey.code e.1, e.2)) →
    ((insertList k v l).map fun e => (OrdKey.code e.1, e.2)) =
      (insertList k' v l').map fun e => (OrdKey.code e.1, e.2)
  | [], [], _ => by
    simp only [insertList, List.map_cons, List.map_nil, show OrdKey.code k = _ from hk]
  | [], _ :: _, h => by simp at h
  | _ :: _, [], h => by simp at h
  | e :: l, e' :: l', h => by
    simp only [List.map_cons, List.cons.injEq, Prod.mk.injEq] at h
    obtain ⟨⟨hc, hv⟩, hl⟩ := h
    have ih := insertList_alike v hk hl
    have hs : SameKey e.1 k ↔ SameKey e'.1 k' := by
      unfold SameKey
      rw [hc, show OrdKey.code k = _ from hk]
    unfold insertList
    rw [hc, show OrdKey.code k = _ from hk]
    split
    · simp only [List.map_cons, hc, hv, hl, show OrdKey.code k = _ from hk]
    · by_cases h : SameKey e.1 k
      · rw [if_pos h, if_pos (hs.1 h)]
        simp only [List.map_cons, hc, hl]
      · rw [if_neg h, if_neg (fun h' => h (hs.2 h'))]
        simp only [List.map_cons, hc, hv, ih]

/-- Insertion reads keys only through their codes. -/
theorem Alike.insert {m m' : OrdMap K V} (h : m.Alike m') {k k' : K} (hk : SameKey k k') (v : V) :
    (m.insert k v).Alike (m'.insert k' v) := insertList_alike v hk h

/-- A map is like itself. -/
theorem Alike.refl (m : OrdMap K V) : m.Alike m := rfl

/-- Maps with the same lookups have the same codes and values. Both lists have the same members and
are sorted without duplicates, so that they are equal. -/
theorem alike_of_get {m m' : OrdMap K V} (h : ∀ k, m.get k = m'.get k) : m.Alike m' := by
  have hmem : ∀ (m : OrdMap K V) (x : OrdKey.Code K × V),
      (x ∈ m.entries.map fun e => (OrdKey.code e.1, e.2)) ↔
        ∃ k, OrdKey.code k = x.1 ∧ m.get k = some x.2 := by
    intro m x
    constructor
    · intro hx
      obtain ⟨e, he, rfl⟩ := List.mem_map.1 hx
      exact ⟨e.1, rfl, get_of_mem he⟩
    · rintro ⟨k, hk, hget⟩
      obtain ⟨k', hs, he⟩ := get_eq_some_iff.1 hget
      exact List.mem_map.2 ⟨(k', x.2), he, Prod.ext (Eq.trans hs hk) rfl⟩
  have hsorted : ∀ m : OrdMap K V,
      (m.entries.map fun e => (OrdKey.code e.1, e.2)).Pairwise fun a b => a.1 < b.1 := fun m =>
    List.pairwise_map.2 m.sorted
  have hnodup : ∀ m : OrdMap K V, (m.entries.map fun e => (OrdKey.code e.1, e.2)).Nodup := fun m =>
    (hsorted m).imp fun hlt heq => hlt.ne (congrArg Prod.fst heq)
  refine List.Perm.eq_of_pairwise (fun a b _ _ hab hba => absurd hab (lt_asymm hba)) (hsorted m)
    (hsorted m') ?_
  refine (List.perm_ext_iff_of_nodup (hnodup m) (hnodup m')).2 fun x => ?_
  rw [hmem, hmem]
  simp only [h]

end OrdMap
