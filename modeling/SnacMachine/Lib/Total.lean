import SnacMachine.Lib.OrdMap
import Mathlib.Algebra.BigOperators.Group.List.Basic
import Mathlib.Tactic.Ring

/-!
# Sums over ordered maps

`OrdMap.total` adds a weight over the entries of a map: with the weight one it counts the entries,
with an indicator it counts those of a kind. Every operation on a map changes a total by the weight
of the entries it touches, which is how counters kept beside a map are shown to agree with it.
-/

namespace OrdMap

variable {K V W : Type} [OrdKey K] {m : OrdMap K V} {f g : K → V → Nat}

/-- The sum of a weight over the entries. -/
def total (m : OrdMap K V) (f : K → V → Nat) : Nat := (m.entries.map fun e => f e.1 e.2).sum

/-- Without entries there is nothing to add. -/
@[simp] theorem total_empty : (empty : OrdMap K V).total f = 0 := rfl

/-- Counting the entries is adding one for each. -/
theorem size_eq_total (m : OrdMap K V) : m.size = m.total fun _ _ => 1 := by
  simp [size, total]

/-- The sum of a weight that is the same for every entry. -/
theorem total_const {c : Nat} (h : ∀ e ∈ m.entries, f e.1 e.2 = c) : m.total f = c * m.size := by
  unfold total size
  rw [List.map_congr_left h]
  induction m.entries with
  | nil => rfl
  | cons e l ih =>
    rw [List.map_cons, List.sum_cons, ih, List.length_cons, Nat.mul_succ, Nat.add_comm]

/-- The sum of an indicator counts keys. -/
theorem countP_keys (m : OrdMap K V) (p : K → Prop) [DecidablePred p] :
    (m.keys.countP fun k => decide (p k)) = m.total fun k _ => if p k then 1 else 0 := by
  unfold keys total
  induction m.entries with
  | nil => rfl
  | cons e l ih =>
    rw [List.map_cons, List.countP_cons, List.map_cons, List.sum_cons, ih, Nat.add_comm]
    simp only [decide_eq_true_eq]

/-- The total over changed values is the total of the changed weights. -/
theorem total_mapValues (m : OrdMap K V) (h : K → V → W) (f : K → W → Nat) :
    (m.mapValues h).total f = m.total fun k v => f k (h k v) := by
  simp [total, mapValues, Function.comp_def]

/-- The entries that are not kept weigh nothing. -/
theorem total_retain (m : OrdMap K V) (p : K → V → Bool) (f : K → V → Nat) :
    (m.retain p).total f = m.total fun k v => if p k v then f k v else 0 := by
  unfold total retain
  simp only
  induction m.entries with
  | nil => rfl
  | cons e l ih =>
    rw [List.filter_cons, List.map_cons, List.sum_cons]
    by_cases h : p e.1 e.2 = true
    · simp [h, ih]
    · simp [h, ih]

/-- Keeping some entries does not increase a total. By induction on the entries, each of which is
kept or left out. -/
theorem total_retain_le (m : OrdMap K V) (p : K → V → Bool) (f : K → V → Nat) :
    (m.retain p).total f ≤ m.total f := by
  unfold total retain
  simp only
  induction m.entries with
  | nil => exact Nat.le_refl _
  | cons e l ih =>
    rw [List.filter_cons, List.map_cons, List.sum_cons]
    split
    · rw [List.map_cons, List.sum_cons]
      omega
    · omega

/-- A fresh entry adds its weight. -/
theorem total_insert_of_none {k : K} {v : V} (h : m.get k = none) :
    (m.insert k v).total f = m.total f + f k v := by
  unfold total
  rw [((entries_insert_perm v h).map _).sum_eq, List.map_cons, List.sum_cons, Nat.add_comm]

/-- A total grows with its weights. -/
theorem total_mono (h : ∀ k v, f k v ≤ g k v) : m.total f ≤ m.total g := by
  unfold total
  induction m.entries with
  | nil => exact Nat.le_refl _
  | cons e l ih =>
    rw [List.map_cons, List.sum_cons, List.map_cons, List.sum_cons]
    exact Nat.add_le_add (h e.1 e.2) ih

/-- A weight that is less on every entry has the lesser sum. -/
theorem total_le_total (h : ∀ e ∈ m.entries, f e.1 e.2 ≤ g e.1 e.2) : m.total f ≤ m.total g := by
  unfold total
  generalize m.entries = l at h
  induction l with
  | nil => exact Nat.le_refl _
  | cons e l ih =>
    rw [List.map_cons, List.sum_cons, List.map_cons, List.sum_cons]
    exact Nat.add_le_add (h e List.mem_cons_self) (ih fun x hx => h x (List.mem_cons_of_mem _ hx))

/-- A common factor of the weights is one of the total. -/
theorem total_mul (m : OrdMap K V) (f : K → V → Nat) (c : Nat) :
    (m.total fun k v => f k v * c) = m.total f * c := by
  unfold total
  induction m.entries with
  | nil => exact (Nat.zero_mul c).symm
  | cons e l ih => rw [List.map_cons, List.sum_cons, List.map_cons, List.sum_cons, ih, Nat.add_mul]

/-- The weights of what passes a test and of what does not add up to all: the two parts are the list
in another order. -/
theorem sum_filter_add {α : Type} (l : List α) (p : α → Bool) (f : α → Nat) :
    ((l.filter p).map f).sum + ((l.filter fun x => !p x).map f).sum = (l.map f).sum := by
  rw [← List.sum_append, ← List.map_append]
  exact ((List.filter_append_perm p l).map f).sum_nat

/-- Entries removed under a predicate and entries kept add up to all. -/
theorem total_retain_add (m : OrdMap K V) (p : K → V → Bool) (f : K → V → Nat) :
    (m.retain p).total f + ((m.entries.filter fun e => !p e.1 e.2).map fun e => f e.1 e.2).sum =
      m.total f :=
  sum_filter_add m.entries (fun e => p e.1 e.2) fun e => f e.1 e.2

/-- A removed entry takes its weight away, by its stored key. -/
theorem total_remove_of_mem {e : K × V} (h : e ∈ m.entries) :
    (m.remove e.1).total f + f e.1 e.2 = m.total f := by
  unfold total
  rw [((entries_remove_perm (show (e.1, e.2) ∈ m.entries from h)).map _).sum_eq, List.map_cons,
    List.sum_cons, Nat.add_comm]

/-- Removing an entry makes the map smaller by one. -/
theorem size_remove_of_mem {e : K × V} (h : e ∈ m.entries) : (m.remove e.1).size + 1 = m.size := by
  rw [size_eq_total, size_eq_total]
  exact total_remove_of_mem (f := fun _ _ => 1) h

/-- An entry rewritten under another form of its key changes a weight that reads no keys. What is
rewritten keeps its place in the list, and only its own weight is exchanged. -/
theorem total_insert_add {w : V → Nat} (m : OrdMap K V) (k : K) (v : V) :
    (m.insert k v).total (fun _ v => w v) + (m.get k).elim 0 w =
    m.total (fun _ v => w v) + w v := by
  cases hget : m.get k with
  | none =>
    rw [Option.elim_none, Nat.add_zero]
    exact total_insert_of_none (f := fun _ v => w v) hget
  | some v' =>
    obtain ⟨k', hk, hmem⟩ := get_eq_some_iff.1 hget
    unfold total
    rw [entries_insert_of_mem v (contains_iff.2 ⟨v', hget⟩), List.map_map]
    have hperm := entries_remove_perm hmem
    rw [(hperm.map _).sum_eq, (hperm.map _).sum_eq, List.map_cons, List.sum_cons, List.map_cons,
      List.sum_cons]
    have hrest : ((m.remove k').entries.map
        ((fun e : K × V => w e.2) ∘ fun e => (e.1, if SameKey e.1 k then v else e.2))).sum =
        ((m.remove k').entries.map fun e => w e.2).sum := by
      refine congrArg List.sum (List.map_congr_left fun e he => ?_)
      have hne : ¬ SameKey e.1 k := fun h => (mem_entries_remove.1 he).2 (h.trans hk.symm)
      simp only [Function.comp_apply, if_neg hne]
    rw [hrest]
    simp only [Function.comp_apply, if_pos hk, Option.elim_some]
    omega

variable [LawfulOrdKey K]

/-- Only the weights of what the map holds matter. -/
theorem total_congr (h : ∀ k v, m.get k = some v → f k v = g k v) : m.total f = m.total g := by
  unfold total
  rw [List.map_congr_left fun e he => h e.1 e.2 (mem_iff_get.1 he)]

/-- A removed entry takes its weight away. -/
theorem total_remove {k : K} {v : V} (h : m.get k = some v) :
    (m.remove k).total f + f k v = m.total f := by
  unfold total
  rw [((entries_remove_perm (mem_iff_get.2 h)).map _).sum_eq, List.map_cons, List.sum_cons,
    Nat.add_comm]

/-- What was inserted last under a key is removed with it. -/
theorem remove_insert {k : K} {v : V} (h : m.contains k = true) :
    (m.insert k v).remove k = m.remove k := by
  refine ext_entries ?_
  unfold remove retain
  simp only [entries_insert_of_mem v h, List.filter_map, Function.comp_def]
  refine (List.map_congr_left fun e he => ?_).trans (List.map_id _)
  have hne : ¬ SameKey e.1 k := by simpa using (List.mem_filter.1 he).2
  rw [if_neg hne, id]

/-- An entry that is taken out and put back under its key was rewritten in place. -/
theorem insert_remove {k : K} {v w : V} (h : m.get k = some w) :
    (m.remove k).insert k v = m.insert k v := by
  have hold := entries_remove_perm (mem_iff_get.2 (get_insert_self m k v))
  rw [remove_insert (contains_iff.2 ⟨w, h⟩)] at hold
  have hnew := entries_insert_perm v (get_remove_self m k)
  refine ext_entries ((hnew.trans hold.symm).eq_of_pairwise ?_ ((m.remove k).insert k v).sorted
    (m.insert k v).sorted)
  intro a b _ _ hab hba
  exact absurd (lt_trans hab hba) (lt_irrefl _)

/-- A rewritten entry changes its weight. -/
theorem total_insert_of_some {k : K} {v w : V} (h : m.get k = some w) :
    (m.insert k v).total f + f k w = m.total f + f k v := by
  have hnew := total_remove (f := f) (get_insert_self m k v)
  have hold := total_remove (f := f) h
  rw [remove_insert (contains_iff.2 ⟨w, h⟩)] at hnew
  omega

/-- An entry adds at most its weight. -/
theorem total_insert_le (k : K) (v : V) : (m.insert k v).total f ≤ m.total f + f k v := by
  cases h : m.get k with
  | none => exact Nat.le_of_eq (total_insert_of_none h)
  | some w =>
    have := total_insert_of_some (f := f) (v := v) h
    omega

/-- Removing a key that is there makes the map smaller by one. -/
theorem size_remove {k : K} {v : V} (h : m.get k = some v) : (m.remove k).size + 1 = m.size := by
  rw [size_eq_total, size_eq_total]
  exact total_remove (f := fun _ _ => 1) h

/-- No entry weighs more than the total. -/
theorem le_total {k : K} {v : V} (h : m.get k = some v) : f k v ≤ m.total f := by
  have := total_remove (f := f) h
  omega

/-- A total is positive when some entry weighs. -/
theorem total_pos : 0 < m.total f ↔ ∃ k v, m.get k = some v ∧ 0 < f k v := by
  constructor
  · intro h
    by_contra hno
    have hzero : m.total f = m.total fun _ _ => 0 := total_congr fun k v hk =>
      Nat.eq_zero_of_not_pos fun hp => hno ⟨k, v, hk, hp⟩
    simp [total] at hzero
    unfold total at h
    omega
  · rintro ⟨k, v, hk, hp⟩
    exact hp.trans_le (le_total hk)

end OrdMap
