import Mathlib.Data.Nat.ModEq
import Mathlib.Data.List.Nodup
import SnacMachine.Nat64.System

/-!
# Ports are found while there are any

`Bindings.allocate` tries four ranges of ports in turn, each of them from a random port on and at
most 8192 ports of it. A registry within its limits holds fewer ports than that (`Scarce`), so that
a port is found among those from 1024 on; the ranges below are tried in full.
-/

namespace SnacMachine.Nat64.Bindings

/-! ## The ports of a range -/

/-- The ports that are tried in a range. Reference: `nat64/bindings.rs:335`. -/
def candidates (first count start : Nat) : List UInt16 :=
  (List.range (min count 8192)).map fun i => UInt16.ofNat (first + (start + i) % count * 2)

/-- A port of a range is a number of 16 bits. One case for each of the three ranges. -/
theorem range_lt {high : Bool} {parity : Nat} (hp : parity < 2) (n : Nat) :
    (range high parity).1 + n % (range high parity).2 * 2 < 2 ^ 16 := by
  unfold range
  split
  · have := Nat.mod_lt n (show 32256 > 0 by decide)
    dsimp only
    omega
  · split
    · have := Nat.mod_lt n (show 511 > 0 by decide)
      dsimp only
      omega
    · have := Nat.mod_lt n (show 512 > 0 by decide)
      dsimp only
      omega

/-- A candidate does not exceed 16 bits. -/
theorem toNat_candidate {h : Bool} {parity : Nat} (hp : parity < 2) (n : Nat) :
    (UInt16.ofNat ((range h parity).1 + n % (range h parity).2 * 2)).toNat =
      (range h parity).1 + n % (range h parity).2 * 2 :=
  UInt16.toNat_ofNat_of_lt' (range_lt hp n)

/-- The numbers of the ports of a range. -/
theorem range_cases (high : Bool) {parity : Nat} (hp : parity < 2) :
    (high = true ∧ range high parity = (1024 + parity, 32256)) ∨
    (high = false ∧ parity = 0 ∧ range high parity = (2, 511)) ∨
    (high = false ∧ parity = 1 ∧ range high parity = (1, 512)) := by
  cases high with
  | true => exact .inl ⟨rfl, rfl⟩
  | false =>
    obtain rfl | rfl : parity = 0 ∨ parity = 1 := by omega
    · exact .inr (.inl ⟨rfl, rfl, rfl⟩)
    · exact .inr (.inr ⟨rfl, rfl, rfl⟩)

/-- What the ports of a range have in common. -/
def InRange (high : Bool) (parity : Nat) (p : UInt16) : Prop :=
  p ≠ 0 ∧ p.toNat % 2 = parity ∧ (high = true ↔ 1024 ≤ p.toNat)

/-- Every candidate has the parity and is in the range that is searched. Its number is the start of
the range and a multiple of two below the range's size. -/
theorem candidate_spec {high : Bool} {parity start : Nat} (hp : parity < 2) {p : UInt16}
    (h : p ∈ candidates (range high parity).1 (range high parity).2 start) :
    InRange high parity p := by
  obtain ⟨i, -, rfl⟩ := List.mem_map.1 h
  have hval := toNat_candidate (h := high) hp (start + i)
  have hne {p : UInt16} (h0 : p.toNat ≠ 0) : p ≠ 0 := fun hp0 => h0 (by rw [hp0]; rfl)
  rcases range_cases high hp with ⟨rfl, hr⟩ | ⟨rfl, rfl, hr⟩ | ⟨rfl, rfl, hr⟩
  · rw [hr] at hval ⊢
    dsimp only at hval ⊢
    exact ⟨hne (by omega), by omega, by simp; omega⟩
  · rw [hr] at hval ⊢
    dsimp only at hval ⊢
    have := Nat.mod_lt (start + i) (show 511 > 0 by decide)
    exact ⟨hne (by omega), by omega, by simp; omega⟩
  · rw [hr] at hval ⊢
    dsimp only at hval ⊢
    have := Nat.mod_lt (start + i) (show 512 > 0 by decide)
    exact ⟨hne (by omega), by omega, by simp; omega⟩

/-- No port is tried twice. -/
theorem candidates_nodup {high : Bool} {parity start : Nat} (hp : parity < 2) :
    (candidates (range high parity).1 (range high parity).2 start).Nodup := by
  refine List.Nodup.map_on (fun i hi j hj hij => ?_) List.nodup_range
  have h := congrArg UInt16.toNat hij
  rw [toNat_candidate hp, toNat_candidate hp] at h
  have hi := List.mem_range.1 hi
  have hj := List.mem_range.1 hj
  have hmod : (start + i) % (range high parity).2 = (start + j) % (range high parity).2 := by omega
  have hmod := Nat.ModEq.add_left_cancel' start hmod
  rwa [Nat.ModEq, Nat.mod_eq_of_lt (by omega), Nat.mod_eq_of_lt (by omega)] at hmod

/-- The ranges below 1024 are tried in full. The candidates go once around the range from where they
start, so that each port of the range is one of them. -/
theorem mem_candidates_low {parity start : Nat} {p : UInt16} (h0 : p ≠ 0) (hlow : p.toNat < 1024)
    (hpar : p.toNat % 2 = parity) :
    p ∈ candidates (range false parity).1 (range false parity).2 start := by
  have hp : parity < 2 := by omega
  have hpos : p.toNat ≠ 0 := fun h => h0 (UInt16.toNat_inj.1 h)
  have hfind {first count : Nat} (hcount : count ≤ 8192) (hr : range false parity = (first, count))
      (hfirst : first ≤ p.toNat) (hdiff : (p.toNat - first) % 2 = 0)
      (hlt : (p.toNat - first) / 2 < count) :
      p ∈ candidates (range false parity).1 (range false parity).2 start := by
    have hpos : 0 < count := by omega
    have hs := Nat.mod_lt start hpos
    refine List.mem_map.2 ⟨((p.toNat - first) / 2 + count - start % count) % count, ?_, ?_⟩
    · rw [hr, List.mem_range, Nat.min_eq_left hcount]
      exact Nat.mod_lt _ hpos
    · refine UInt16.toNat_inj.1 ?_
      rw [toNat_candidate hp, hr]
      dsimp only
      have hmod : (start + ((p.toNat - first) / 2 + count - start % count) % count) % count =
          (p.toNat - first) / 2 := by
        rw [Nat.add_mod_mod, ← Nat.mod_add_mod,
          show start % count + ((p.toNat - first) / 2 + count -
          start % count) = (p.toNat - first) / 2 + count by omega, Nat.add_mod_right,
          Nat.mod_eq_of_lt hlt]
      rw [hmod]
      omega
  rcases range_cases false hp with ⟨h, -⟩ | ⟨-, h, hr⟩ | ⟨-, h, hr⟩
  · cases h
  · exact hfind (by decide) hr (by omega) (by omega) (by omega)
  · exact hfind (by decide) hr (by omega) (by omega) (by omega)

/-! ## The search -/

section Search

variable (b : Bindings) (protocol : UInt8) (occupied : UInt16 → Bool) {rng : Random}

/-- A range is tried, and the next one if it is taken. The start is drawn, and the search takes the
first candidate that is free. -/
theorem search_cons (hrng : ∀ n max, ∃ x, rng n max = .ok x) (n : Nat) (r : Nat × Nat)
    (rest : List (Nat × Nat)) : ∃ start,
      (∃ p ∈ candidates r.1 r.2 start, b.free protocol occupied p = true ∧
        b.search protocol rng occupied n (r :: rest) = .ok p) ∨
      ((∀ p ∈ candidates r.1 r.2 start, b.free protocol occupied p = false) ∧
        b.search protocol rng occupied n (r :: rest) =
          b.search protocol rng occupied (n + 1) rest) := by
  obtain ⟨x, hx⟩ := hrng n (r.2 - 1)
  refine ⟨x % (r.2 - 1 + 1), ?_⟩
  have hsample : rng.sample n (r.2 - 1) = .ok (x % (r.2 - 1 + 1)) := by
    rw [Random.sample, hx]
    rfl
  have hrun : b.search protocol rng occupied n (r :: rest) =
      ((candidates r.1 r.2 (x % (r.2 - 1 + 1))).find? (b.free protocol occupied)).elim
        (b.search protocol rng occupied (n + 1) rest) .ok := by
    rw [search, hsample]
    simp only [bind, Except.bind]
    rw [← candidates]
    cases (candidates r.1 r.2 (x % (r.2 - 1 + 1))).find? (b.free protocol occupied) <;> rfl
  rw [hrun]
  cases hf : (candidates r.1 r.2 (x % (r.2 - 1 + 1))).find? (b.free protocol occupied) with
  | some p => exact .inl ⟨p, List.mem_of_find?_eq_some hf, List.find?_some hf, rfl⟩
  | none =>
    refine .inr ⟨fun p hp => ?_, rfl⟩
    simpa using List.find?_eq_none.1 hf p hp

variable {b}

/-- The registry is within its limits. -/
def Within (b : Bindings) : Prop := ∀ owner, b.ports.count owner ≤ Ports.limit owner

/-- The ports in use are bounded by the tables and the leases. Each entry has one of two owners, and
each owner has its own limit. -/
theorem entries_size (h : b.ports.Ok) (hw : b.Within) : b.ports.entries.size ≤ 4352 := by
  have hsum : b.ports.entries.size = b.ports.entries.total (Ports.isOwner .local_) +
      b.ports.entries.total (Ports.isOwner .translation) := by
    rw [OrdMap.size_eq_total, OrdMap.total, OrdMap.total, OrdMap.total, ← List.sum_map_add]
    refine congrArg List.sum (List.map_congr_left fun e _ => ?_)
    simp only [Ports.isOwner]
    cases e.2.2 <;> rfl
  have hl := hw .local_
  have ht := hw .translation
  rw [h] at hl ht
  have h256 : Ports.limit .local_ = 256 := rfl
  have h4096 : Ports.limit .translation = 4096 := rfl
  omega

/-- A port that is not free is in the registry. -/
theorem entry_of_not_free (h : b.Inv) {p : UInt16}
    (hp : b.free protocol (fun _ => false) p = false) :
    (protocol, p) ∈ b.ports.entries.keys := by
  have hentry : b.ports.entries.contains (protocol, p) = true := by
    cases hr : b.reverse.get (protocol, p) with
    | some k =>
      obtain ⟨id, hid⟩ := h.entry hr
      exact OrdMap.contains_iff.2 ⟨_, hid⟩
    | none => simpa [free, OrdMap.contains, hr, Ports.occupied] using hp
  obtain ⟨v, hv⟩ := OrdMap.contains_iff.1 hentry
  exact List.mem_map.2 ⟨((protocol, p), v), OrdMap.mem_iff_get.2 hv, rfl⟩

/-- A port from 1024 on is found: more are tried than the registry holds. Otherwise every candidate
would have an entry, and the candidates are all different. -/
theorem high_found (h : b.Inv) (hw : b.Within) {parity : Nat} (hp : parity < 2) (start : Nat) :
    ∃ p ∈ candidates (range true parity).1 (range true parity).2 start,
      b.free protocol (fun _ => false) p = true := by
  by_contra hno
  have hsub :
      (candidates (range true parity).1 (range true parity).2 start).map (Prod.mk protocol) ⊆
      b.ports.entries.keys := by
    intro x hx
    obtain ⟨p, hmem, rfl⟩ := List.mem_map.1 hx
    exact entry_of_not_free protocol h (Bool.eq_false_iff.2 fun hfree => hno ⟨p, hmem, hfree⟩)
  have hnodup : ((candidates (range true parity).1 (range true parity).2 start).map
      (Prod.mk protocol)).Nodup :=
    (candidates_nodup hp).map fun _ _ heq => (Prod.mk.inj heq).2
  have hlen := hnodup.length_le_of_subset hsub
  have hsize := entries_size h.counts.placed.ok hw
  simp only [OrdMap.keys, OrdMap.size, List.length_map, candidates, List.length_range] at hlen hsize
  exact absurd (hlen.trans hsize) (by simp [range])

/-- With few ports in use the search of the high range finds one that is free, whatever is drawn. -/
theorem search_high (h : b.Inv) (hw : b.Within) (hrng : ∀ n max, ∃ x, rng n max = .ok x)
    {parity : Nat} (hp : parity < 2) (n : Nat) (rest : List (Nat × Nat)) :
    ∃ p, b.search protocol rng (fun _ => false) n (range true parity :: rest) = .ok p ∧
      b.free protocol (fun _ => false) p = true ∧ InRange true parity p := by
  obtain ⟨start, ⟨p, hmem, hfree, hrun⟩ | ⟨hnone, -⟩⟩ := search_cons b protocol
    (fun _ => false) hrng n (range true parity) rest
  · exact ⟨p, hrun, hfree, candidate_spec hp hmem⟩
  · obtain ⟨p, hmem, hfree⟩ := high_found protocol h hw hp start
    rw [hnone p hmem] at hfree
    cases hfree

/-- The search on behalf of a port below 1024 finds a free port, and one of the low range with the
same parity if there is any. The low ranges are tried in full, and the high range always has a free
port (`search_high`). -/
theorem search_low (h : b.Inv) (hw : b.Within) (hrng : ∀ n max, ∃ x, rng n max = .ok x)
    {parity : Nat} (hp : parity < 2) :
    ∃ p, b.search protocol rng (fun _ => false) 0 [range false parity, range false (1 - parity),
        range true parity, range true (1 - parity)] = .ok p ∧
      b.free protocol (fun _ => false) p = true ∧ p ≠ 0 ∧
      ((∃ q : UInt16, q ≠ 0 ∧ q.toNat < 1024 ∧ q.toNat % 2 = parity ∧
        b.free protocol (fun _ => false) q = true) → InRange false parity p) := by
  obtain ⟨start, ⟨p, hmem, hfree, hrun⟩ | ⟨hnone, hrun⟩⟩ := search_cons b protocol
    (fun _ => false) hrng 0 (range false parity) [range false (1 - parity), range true parity,
      range true (1 - parity)]
  · have hin := candidate_spec hp hmem
    exact ⟨p, hrun, hfree, hin.1, fun _ => hin⟩
  · have hempty {P : Prop} : (∃ q : UInt16, q ≠ 0 ∧ q.toNat < 1024 ∧ q.toNat % 2 = parity ∧
        b.free protocol (fun _ => false) q = true) → P := by
      rintro ⟨q, h0, hlow, hpar, hfree⟩
      rw [hnone q (mem_candidates_low h0 hlow hpar)] at hfree
      cases hfree
    rw [hrun]
    obtain ⟨start', ⟨p, hmem, hfree, hrun'⟩ | ⟨-, hrun'⟩⟩ := search_cons b protocol
      (fun _ => false) hrng (0 + 1) (range false (1 - parity)) [range true parity,
        range true (1 - parity)]
    · exact ⟨p, hrun', hfree, (candidate_spec (by omega) hmem).1, hempty⟩
    · rw [hrun']
      obtain ⟨p, hsearch, hfree, hin⟩ := search_high protocol h hw hrng hp (0 + 1 + 1)
        [range true (1 - parity)]
      exact ⟨p, hsearch, hfree, hin.1, hempty⟩

/-- A free port is found in every table whose registry is within its limits (`System.run_ok` gives
the invariant of the table). It is the port asked for, if that is usable and free; for a port from
1024 on it is one from 1024 on of the same parity, and for a port below 1024 it is one below 1024 of
the same parity, if any of those is free. No port that is tried exceeds 16 bits. Reference:
`Bindings::allocate` (`nat64/bindings.rs:302`). -/
theorem allocate_complete (h : b.Inv) (hlocal : b.ports.count .local_ ≤ 256)
    (htranslation : b.ports.count .translation ≤ 4096)
    (hrng : ∀ n max, ∃ x, rng n max = .ok x) (port : UInt16) :
    (∃ p, b.allocate protocol port rng (fun _ => false) = .ok p ∧
      b.free protocol (fun _ => false) p = true ∧ (p = 0 → protocol = 1) ∧
      ((port ≠ 0 ∨ protocol = 1) → b.free protocol (fun _ => false) port = true → p = port) ∧
      (1024 ≤ port.toNat → 1024 ≤ p.toNat ∧ p.toNat % 2 = port.toNat % 2) ∧
      (port.toNat < 1024 → (∃ q : UInt16, q ≠ 0 ∧ q.toNat < 1024 ∧
        q.toNat % 2 = port.toNat % 2 ∧ b.free protocol (fun _ => false) q = true) →
          p.toNat < 1024 ∧ p.toNat % 2 = port.toNat % 2)) ∧
    ∀ high parity start n, parity < 2 →
      (range high parity).1 + (start + n) % (range high parity).2 * 2 < 2 ^ 16 := by
  refine ⟨?_, fun high parity start n hp => range_lt hp (start + n)⟩
  have hw : b.Within := fun owner => by
    cases owner
    · exact hlocal
    · exact htranslation
  have hp : port.toNat % 2 < 2 := Nat.mod_lt _ (by decide)
  unfold allocate
  split
  · next hport =>
    refine ⟨port, rfl, hport.2, fun h0 => hport.1.resolve_left fun hne => hne h0, fun _ _ => rfl,
      fun hhigh => ⟨hhigh, rfl⟩, fun hlow _ => ⟨hlow, rfl⟩⟩
  · next hport =>
    rcases Nat.lt_or_ge port.toNat 1024 with hlow | hhigh
    · have hge : decide (port ≥ 1024) = false := decide_eq_false (Nat.not_le.2 hlow)
      obtain ⟨p, hrun, hfree, h0, hin⟩ := search_low protocol h hw hrng hp
      refine ⟨p, ?_, hfree, fun hp0 => absurd hp0 h0, fun hu hf => absurd ⟨hu, hf⟩ hport,
        fun hh => absurd hlow (Nat.not_lt.2 hh), fun _ hq => ?_⟩
      · simp only [hge, Bool.not_false]
        exact hrun
      · obtain ⟨-, hpar, hiff⟩ := hin hq
        exact ⟨Nat.not_le.1 fun hge => absurd (hiff.2 hge) (by decide), hpar⟩
    · have hge : decide (port ≥ 1024) = true := decide_eq_true hhigh
      obtain ⟨p, hrun, hfree, h0, hpar, hiff⟩ := search_high protocol h hw hrng hp 0
        [range true (1 - port.toNat % 2), range false (port.toNat % 2),
          range false (1 - port.toNat % 2)]
      refine ⟨p, ?_, hfree, fun hp0 => absurd hp0 h0, fun hu hf => absurd ⟨hu, hf⟩ hport,
        fun _ => ⟨hiff.1 rfl, hpar⟩, fun hl => absurd hhigh (Nat.not_le.2 hl)⟩
      simp only [hge, Bool.not_true]
      exact hrun

/-- The theorem applied to the table after the sample datagram: its port is taken, and another from
1024 on of its parity is found. -/
theorem allocate_complete_sampleOut : ∃ b p, ((System.start 1).step sampleOut).1.table 0 = some b ∧
    b.free 17 (fun _ => false) 5000 = false ∧
    b.allocate 17 5000 (fun _ _ => .ok 7) (fun _ => false) = .ok p ∧
    b.free 17 (fun _ => false) p = true ∧ p ≠ 5000 ∧ 1024 ≤ p.toNat ∧ p.toNat % 2 = 0 := by
  have htable : ((((System.start 1).step sampleOut).1.table 0).map fun b =>
      (b.ports.count .local_, b.ports.count .translation, b.free 17 (fun _ => false) 5000)) =
        some (0, 1, false) := by
    decide +kernel
  obtain ⟨b, hb, htable⟩ := Option.map_eq_some_iff.1 htable
  obtain ⟨hlocal, htable⟩ := Prod.mk.inj htable
  obtain ⟨htranslation, htaken⟩ := Prod.mk.inj htable
  have run : (System.machine fun _ _ => True).Run (.start 1) 0
      [(sampleOut, ((System.start 1).step sampleOut).2)] ((System.start 1).step sampleOut).1 1000 :=
    .snoc sampleOut .nil (Nat.zero_le _) ⟨trivial, trivial⟩
  obtain ⟨⟨p, hrun, hfree, -, -, hhigh, -⟩, -⟩ := allocate_complete 17
    ((System.run_ok run).1.tables 0 b hb) (by omega) (by omega)
    (fun n max => ⟨7, rfl⟩ : ∀ n max, ∃ x, (fun _ _ => .ok 7 : Random) n max = .ok x) 5000
  refine ⟨b, p, hb, htaken, hrun, hfree, ?_, hhigh (by decide)⟩
  rintro rfl
  rw [htaken] at hfree
  cases hfree

end Search

end SnacMachine.Nat64.Bindings
