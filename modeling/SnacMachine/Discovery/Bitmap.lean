import SnacMachine.Discovery.Proxy
import SnacMachine.Mdns.Publish

/-!
# Type bitmaps

The types of an NSEC record as `discovery_proxy.rs` writes and reads them. A valid bitmap is the
octets of a list of windows (`Windows.wire`); the proxy reads the members of the windows in order,
`bitmap_has` of `mdns/cache.rs` finds exactly these, and `mdns/publish.rs` writes the same octets.
-/

namespace SnacMachine.Discovery

open Dns Mdns Windows

/-! ## Reading -/

/-- What the bits of an octet add. Reference: `discovery_proxy.rs:397`. -/
def readOctet {σ : Type} (add : σ → UInt16 → Except IoError σ) (window : UInt8) (s : σ)
    (x : UInt8 × Nat) : Except IoError σ :=
  (List.range 8).foldlM (fun s n =>
    if x.1 &&& bitMask n ≠ 0 then add s (UInt16.ofNat (window.toNat * 256 + (x.2 * 8 + n)))
    else .ok s) s

/-- The windows of `fuel` octets. Reference: `read_bitmap` (`discovery_proxy.rs:383`). -/
def readLoop {σ : Type} (add : σ → UInt16 → Except IoError σ) :
    (fuel : Nat) → Option UInt8 → Bytes → σ → Except IoError σ
  | _, _, [], s => .ok s
  | fuel + 1, previous, w :: n :: rest, s =>
    if n = 0 ∨ n > 32 ∨ previous.any (fun p => p ≥ w) = true then .error invalid
    else if rest.length < n.toNat then .error invalid
    else if (rest.take n.toNat).getLast? = some 0 then .error invalid
    else do
      let s ← (rest.take n.toNat).zipIdx.foldlM (readOctet add w) s
      readLoop add fuel (some w) (rest.drop n.toNat) s
  | _, _, _, _ => .error invalid

/-- Reference: `read_bitmap` (`discovery_proxy.rs:383`). -/
def readBitmap {σ : Type} (b : Bytes) (add : σ → UInt16 → Except IoError σ) (s : σ) :
    Except IoError σ := readLoop add b.length none b s

/-- The types that are read, in the order of reading. -/
def typesRead (b : Bytes) : Except IoError (List UInt16) :=
  readBitmap b (fun l k => .ok (l ++ [k])) []

/-! ## Writing -/

/-- The last position whose element satisfies a condition. Reference: `rposition`. -/
def rposition {α : Type} (p : α → Bool) : List α → Option Nat
  | [] => none
  | x :: l =>
    match rposition p l with
    | some i => some (i + 1)
    | none => if p x then some 0 else none

/-- One bit for each type. Reference: `discovery_proxy.rs:411`. -/
def setBit (bits : Bytes) (kind : UInt16) : Bytes :=
  bits.modify (kind.toNat / 8) fun x => x ||| bitMask (kind.toNat % 8)

/-- The windows that have types. Reference: `discovery_proxy.rs:414`. -/
def typeWindows (bits : Bytes) : List (UInt8 × Bytes) :=
  (List.range 256).filterMap fun w =>
    let b := (bits.drop (32 * w)).take 32
    (rposition (fun x => x != 0) b).map fun last => (UInt8.ofNat w, b.take (last + 1))

/-- Reference: `type_bitmap` (`discovery_proxy.rs:409`). -/
def typeBitmap (types : List UInt16) : Bytes :=
  Windows.wire (typeWindows (types.foldl setBit (List.replicate 8192 0)))

/-! ## Rows -/

/-- The types of an octet. -/
def octetTypes (window : UInt8) (x : UInt8 × Nat) : List Nat :=
  ((List.range 8).filter fun n => x.1 &&& bitMask n != 0).map fun n =>
    window.toNat * 256 + (x.2 * 8 + n)

/-- The types of a row are its set bits in increasing order; the induction is on the octets, and `k`
counts those before them. -/
theorem flatMap_octetTypes (window : UInt8) (b : Bytes) (k : Nat) :
    (b.zipIdx k).flatMap (octetTypes window) =
      ((List.range (8 * b.length)).filter (bit b)).map fun n =>
        window.toNat * 256 + (k * 8 + n) := by
  induction b generalizing k with
  | nil => rfl
  | cons x b ih =>
    have hlow : (List.range 8).filter (bit (x :: b)) =
        (List.range 8).filter fun n => x &&& bitMask n != 0 :=
      List.filter_congr fun n hn => bit_cons_of_lt x b (List.mem_range.1 hn)
    have hhigh : ((List.range (8 * b.length)).map (8 + ·)).filter (bit (x :: b)) =
        ((List.range (8 * b.length)).filter (bit b)).map (8 + ·) := by
      rw [List.filter_map]
      refine congrArg _ (List.filter_congr fun n _ => bit_cons_add x b n)
    rw [List.zipIdx_cons, List.flatMap_cons, ih, List.length_cons,
      show 8 * (b.length + 1) = 8 + 8 * b.length by omega, List.range_add, List.filter_append, hlow,
      hhigh, List.map_append, List.map_map]
    refine congrArg _ (List.map_congr_left fun n _ => ?_)
    simp only [Function.comp]
    omega

section
variable {σ : Type} (add : σ → UInt16 → Except IoError σ)

/-- Reading an octet is adding the types that it lists. -/
theorem readOctet_eq (window : UInt8) (s : σ) (x : UInt8 × Nat) :
    readOctet add window s x = ((octetTypes window x).map UInt16.ofNat).foldlM add s := by
  rw [octetTypes, List.foldlM_map, List.foldlM_map, List.foldlM_filter]
  simp [readOctet, pure, Except.pure]

/-- Reading octets in turn is adding all the types that they list in turn. -/
theorem foldlM_readOctet (window : UInt8) (l : List (UInt8 × Nat)) (s : σ) :
    l.foldlM (readOctet add window) s =
      ((l.flatMap (octetTypes window)).map UInt16.ofNat).foldlM add s := by
  induction l generalizing s with
  | nil => rfl
  | cons x l ih =>
    rw [List.foldlM_cons, List.flatMap_cons, List.map_append, List.foldlM_append, readOctet_eq]
    exact bind_congr fun s => ih s

/-- The bits of a row are read in order. -/
theorem readRow_eq (window : UInt8) (b : Bytes) (s : σ) :
    b.zipIdx.foldlM (readOctet add window) s =
      ((rowMembers (window, b)).map UInt16.ofNat).foldlM add s := by
  rw [foldlM_readOctet, flatMap_octetTypes, rowMembers]
  simp

end

/-! ## Windows -/

/-- The first window on the wire: its number, the length of its row, the row. -/
theorem wire_cons (x : UInt8 × Bytes) (ws : List (UInt8 × Bytes)) :
    wire (x :: ws) = x.1 :: UInt8.ofNat x.2.length :: (x.2 ++ wire ws) := rfl

/-- A window takes two octets more than its row. -/
theorem length_wire_cons (x : UInt8 × Bytes) (ws : List (UInt8 × Bytes)) :
    (wire (x :: ws)).length = 2 + x.2.length + (wire ws).length := by
  rw [wire_cons]
  simp only [List.length_cons, List.length_append]
  omega

/-- The octet that tells the length of a row. -/
theorem toNat_length {b : Bytes} (h : BitRow b) : (UInt8.ofNat b.length).toNat = b.length := by
  have := h.length_le
  rw [UInt8.toNat_ofNat']
  omega

/-- The length of a row is not taken for an empty or an oversized one. -/
theorem length_octet {b : Bytes} (h : BitRow b) :
    UInt8.ofNat b.length ≠ 0 ∧ ¬ UInt8.ofNat b.length > 32 := by
  have hpos : 0 < b.length := List.length_pos_of_ne_nil h.ne_nil
  have hlen := toNat_length h
  refine ⟨fun h0 => ?_, fun hgt => ?_⟩
  · rw [h0] at hlen
    exact absurd hlen (by simp; omega)
  · have hgt := UInt8.lt_iff_toNat_lt.1 hgt
    have hle := h.length_le
    rw [hlen] at hgt
    exact absurd hgt (by simp; omega)

/-- The octets of windows are valid. By induction on the windows: the loop cuts off one window with
each step, and the next one has a greater number. -/
theorem bitmapLoop_wire {ws : List (UInt8 × Bytes)} {previous : Option UInt8} {fuel : Nat}
    (h : Windows ws) (hafter : After previous ws) (hfuel : (wire ws).length ≤ fuel) :
    bitmapLoop fuel previous (wire ws) = true := by
  induction ws generalizing previous fuel with
  | nil => cases fuel <;> rfl
  | cons x ws ih =>
    obtain ⟨htail, hafter', hrow⟩ := h.tail
    obtain ⟨hzero, hbig⟩ := length_octet hrow
    rw [length_wire_cons] at hfuel
    obtain ⟨fuel, rfl⟩ : ∃ f, fuel = f + 1 := ⟨fuel - 1, by omega⟩
    rw [wire_cons, bitmapLoop, toNat_length hrow, List.take_left, List.drop_left,
      if_neg (by
        have := hafter.not_any
        simp only [List.length_append, not_or]
        exact ⟨hzero, hbig, this, by omega⟩), if_neg hrow.last]
    exact ih htail hafter' (by omega)

/-- Valid octets are those of windows: what the loop of `bitmap` accepts is cut into windows in
rising order. By induction on the fuel, with the last window number as the bound from below. -/
theorem exists_windows {fuel : Nat} {previous : Option UInt8} {b : Bytes}
    (h : bitmapLoop fuel previous b = true) :
    ∃ ws, Windows ws ∧ After previous ws ∧ wire ws = b := by
  induction fuel generalizing previous b with
  | zero =>
    cases b with
    | nil => exact ⟨[], .nil, .nil _, rfl⟩
    | cons x b => cases h
  | succ fuel ih =>
    match b, h with
    | [], _ => exact ⟨[], .nil, .nil _, rfl⟩
    | w :: n :: rest, h =>
      rw [bitmapLoop] at h
      split at h
      · cases h
      · next hcond =>
        split at h
        · cases h
        · next hlast =>
          obtain ⟨ws, hws, hafter, hwire⟩ := ih h
          have hlen : (rest.take n.toNat).length = n.toNat := by
            rw [List.length_take]
            omega
          have hrow : BitRow (rest.take n.toNat) := by
            refine ⟨fun hnil => ?_, ?_, hlast⟩
            · rw [hnil] at hlen
              exact hcond (.inl (UInt8.toNat_inj.1 hlen.symm))
            · rw [hlen]
              exact UInt8.le_iff_toNat_le.1 (UInt8.not_lt.1 fun hgt => hcond (.inr (.inl hgt)))
          refine ⟨(w, rest.take n.toNat) :: ws, hws.cons hafter hrow, ?_, ?_⟩
          · intro x hx p hp
            have hw : p < w := by
              rw [hp] at hcond
              simpa using fun hle => hcond (.inr (.inr (.inl hle)))
            rcases List.mem_cons.1 hx with rfl | hx
            · exact hw
            · exact UInt8.lt_trans hw (hafter x hx w rfl)
          · rw [wire_cons, hlen, UInt8.ofNat_toNat, hwire, List.take_append_drop]

/-- The members of windows are read in order. By induction on the windows, with the fold over the
members of each before the rest. -/
theorem readLoop_wire {σ : Type} (add : σ → UInt16 → Except IoError σ)
    {ws : List (UInt8 × Bytes)} {previous : Option UInt8} {fuel : Nat} (h : Windows ws)
    (hafter : After previous ws) (hfuel : (wire ws).length ≤ fuel) (s : σ) :
    readLoop add fuel previous (wire ws) s =
      ((members ws).map UInt16.ofNat).foldlM add s := by
  induction ws generalizing previous fuel s with
  | nil => cases fuel <;> rfl
  | cons x ws ih =>
    obtain ⟨htail, hafter', hrow⟩ := h.tail
    obtain ⟨hzero, hbig⟩ := length_octet hrow
    rw [length_wire_cons] at hfuel
    obtain ⟨fuel, rfl⟩ : ∃ f, fuel = f + 1 := ⟨fuel - 1, by omega⟩
    rw [wire_cons, readLoop, toNat_length hrow, List.take_left, List.drop_left,
      if_neg (by
        have := hafter.not_any
        simp only [not_or]
        exact ⟨hzero, hbig, this⟩), if_neg (by rw [List.length_append]; omega), if_neg hrow.last,
      readRow_eq, members, List.flatMap_cons, List.map_append, List.foldlM_append]
    exact bind_congr fun s => ih htail hafter' (by omega) s

/-- A type is found when it is a member. By induction on the windows: the loop of `has` looks into
the first one if the type falls into it (`Windows.hasBit_iff`), and goes on with the rest
otherwise. -/
theorem hasLoop_wire {ws : List (UInt8 × Bytes)} {fuel : Nat} (h : Windows ws)
    (hfuel : (wire ws).length ≤ fuel) (kind : UInt16) :
    hasLoop kind fuel (wire ws) = true ↔ HasBit ws kind.toNat := by
  induction ws generalizing fuel with
  | nil => cases fuel <;> simp [wire, hasLoop, HasBit]
  | cons x ws ih =>
    obtain ⟨htail, hafter', hrow⟩ := h.tail
    obtain ⟨hzero, hbig⟩ := length_octet hrow
    rw [length_wire_cons] at hfuel
    obtain ⟨fuel, rfl⟩ : ∃ f, fuel = f + 1 := ⟨fuel - 1, by omega⟩
    rw [wire_cons, hasLoop, toNat_length hrow, List.drop_left,
      if_neg (by
        simp only [List.length_append, not_or]
        exact ⟨hzero, hbig, by omega⟩)]
    split
    · next hwindow =>
      have hkind := h.hasBit_iff (x := x) List.mem_cons_self (n := kind.toNat % 256) (by omega)
      rw [hwindow, show kind.toNat / 256 * 256 + kind.toNat % 256 = kind.toNat by omega] at hkind
      rw [hkind, Bool.and_eq_true, decide_eq_true_eq]
      by_cases hlt : kind.toNat % 256 / 8 < x.2.length
      · rw [List.getD_append _ _ _ _ hlt]
        exact and_iff_right hlt
      · rw [bit_eq_false (by omega)]
        simp [hlt]
    · next hwindow =>
      rw [ih htail (by omega)]
      constructor
      · rintro ⟨y, hy, hbit⟩
        exact ⟨y, List.mem_cons_of_mem _ hy, hbit⟩
      · rintro ⟨y, hy, hfst, hbit⟩
        rcases List.mem_cons.1 hy with rfl | hy
        · exact absurd hfst hwindow
        · exact ⟨y, hy, hfst, hbit⟩

/-! ## What is written -/

/-- If a search from the end finds nothing, nothing is there. By induction on the list, as the
search goes through it. -/
theorem rposition_eq_none {α : Type} {p : α → Bool} {l : List α} (h : rposition p l = none) :
    ∀ x ∈ l, p x = false := by
  induction l with
  | nil => exact fun _ hx => absurd hx List.not_mem_nil
  | cons x l ih =>
    rw [rposition] at h
    cases hl : rposition p l with
    | some k =>
      rw [hl] at h
      cases h
    | none =>
      rw [hl] at h
      simp only [ite_eq_right_iff, reduceCtorEq, imp_false, Bool.not_eq_true] at h
      exact List.forall_mem_cons.2 ⟨h, ih hl⟩

/-- A search from the end finds the last member with the property. By induction on the list: the
tail is searched first, and its head counts only if nothing was found there. -/
theorem rposition_eq_some {α : Type} {p : α → Bool} {l : List α} {i : Nat}
    (h : rposition p l = some i) :
    (∃ x, l[i]? = some x ∧ p x = true) ∧ ∀ j, i < j → ∀ y, l[j]? = some y → p y = false := by
  induction l generalizing i with
  | nil => cases h
  | cons x l ih =>
    rw [rposition] at h
    cases hl : rposition p l with
    | some k =>
      rw [hl] at h
      cases h
      obtain ⟨hx, hlater⟩ := ih hl
      refine ⟨by simpa using hx, fun j hj y hy => ?_⟩
      obtain ⟨j, rfl⟩ : ∃ m, j = m + 1 := ⟨j - 1, by omega⟩
      exact hlater j (by omega) y (by simpa using hy)
    | none =>
      rw [hl] at h
      obtain ⟨hx, hi⟩ := Option.ite_none_right_eq_some.1 h
      cases hi
      refine ⟨⟨x, rfl, hx⟩, fun j hj y hy => ?_⟩
      obtain ⟨j, rfl⟩ : ∃ m, j = m + 1 := ⟨j - 1, by omega⟩
      exact rposition_eq_none hl y (List.mem_of_getElem? (by simpa using hy))

/-- The part of a row up to its last octet that is not zero is valid, and has the bits of the row:
the octets that are cut off are all zero. -/
theorem trimmed_spec {b : Bytes} {last : Nat} (hlen : b.length ≤ 32)
    (h : rposition (fun x => x != 0) b = some last) :
    BitRow (b.take (last + 1)) ∧ ∀ n, bit (b.take (last + 1)) n = bit b n := by
  obtain ⟨⟨x, hx, hne⟩, hlater⟩ := rposition_eq_some h
  have hlt : last < b.length := by
    by_contra hge
    rw [List.getElem?_eq_none (by omega)] at hx
    cases hx
  refine ⟨⟨?_, by rw [List.length_take]; omega, ?_⟩, fun n => ?_⟩
  · intro hnil
    have := congrArg List.length hnil
    rw [List.length_take, List.length_nil] at this
    omega
  · rw [List.getLast?_take]
    simp only [Nat.add_one_ne_zero, if_false, Nat.add_sub_cancel, hx]
    simpa using hne
  · refine bit_congr ?_ rfl
    rw [List.getD_eq_getElem?_getD, List.getD_eq_getElem?_getD, List.getElem?_take]
    split
    · rfl
    · next hge =>
      cases hy : b[n / 8]? with
      | none => rfl
      | some y =>
        have := hlater _ (by omega) y hy
        simpa using (by simpa using this : y = 0).symm

/-- A row without an octet other than zero has no bits. -/
theorem bit_eq_false_of_rposition {b : Bytes} (h : rposition (fun x => x != 0) b = none) (n : Nat) :
    bit b n = false := by
  have hzero : b.getD (n / 8) 0 = 0 := by
    rw [List.getD_eq_getElem?_getD]
    cases hy : b[n / 8]? with
    | none => rfl
    | some y => simpa using rposition_eq_none h y (List.mem_of_getElem? hy)
  rw [bit, hzero, UInt8.zero_and]
  rfl

/-- The row of a window is its part of the bits of all windows. -/
theorem bit_chunk (bits : Bytes) (w : Nat) {n : Nat} (h : n < 256) :
    bit ((bits.drop (32 * w)).take 32) n = bit bits (w * 256 + n) := by
  refine bit_congr ?_ (by omega)
  rw [List.getD_eq_getElem?_getD, List.getD_eq_getElem?_getD, List.getElem?_take,
    if_pos (by omega), List.getElem?_drop, show (w * 256 + n) / 8 = 32 * w + n / 8 by omega]

/-- The windows of a row of bits for all types: they are valid, and their members are the bits that
are set. Each window is the part of 32 octets up to its last octet that is not zero
(`trimmed_spec`), and `bit_chunk` finds a bit of the row in it. -/
theorem typeWindows_spec (bits : Bytes) : Windows (typeWindows bits) ∧
    ∀ k < 65536, HasBit (typeWindows bits) k ↔ bit bits k = true := by
  have hlen (w : Nat) : ((bits.drop (32 * w)).take 32).length ≤ 32 := by
    rw [List.length_take]
    omega
  have hmem {x : UInt8 × Bytes} : x ∈ typeWindows bits ↔ ∃ w < 256, ∃ last,
      rposition (fun x => x != 0) ((bits.drop (32 * w)).take 32) = some last ∧
        (UInt8.ofNat w, ((bits.drop (32 * w)).take 32).take (last + 1)) = x := by
    simp only [typeWindows, List.mem_filterMap, List.mem_range, Option.map_eq_some_iff]
  refine ⟨⟨?_, ?_⟩, fun k hk => ?_⟩
  · refine List.pairwise_filterMap.2 (List.pairwise_lt_range.imp_of_mem ?_)
    intro v w hv hw hlt x hx y hy
    obtain ⟨_, -, rfl⟩ := Option.map_eq_some_iff.1 hx
    obtain ⟨_, -, rfl⟩ := Option.map_eq_some_iff.1 hy
    have hv := List.mem_range.1 hv
    have hw := List.mem_range.1 hw
    refine UInt8.lt_iff_toNat_lt.2 ?_
    rw [UInt8.toNat_ofNat', UInt8.toNat_ofNat']
    omega
  · intro x hx
    obtain ⟨w, -, last, hlast, rfl⟩ := hmem.1 hx
    exact (trimmed_spec (hlen w) hlast).1
  · have hbit := bit_chunk bits (k / 256) (n := k % 256) (by omega)
    rw [show k / 256 * 256 + k % 256 = k by omega] at hbit
    rw [← hbit]
    constructor
    · rintro ⟨x, hx, hfst, hset⟩
      obtain ⟨w, hw, last, hlast, rfl⟩ := hmem.1 hx
      rw [UInt8.toNat_ofNat'] at hfst
      obtain rfl : w = k / 256 := by omega
      rwa [(trimmed_spec (hlen _) hlast).2] at hset
    · intro hset
      cases hlast : rposition (fun x => x != 0) ((bits.drop (32 * (k / 256))).take 32) with
      | none =>
        rw [bit_eq_false_of_rposition hlast] at hset
        cases hset
      | some last =>
        refine ⟨_, hmem.2 ⟨k / 256, by omega, last, hlast, rfl⟩, ?_, ?_⟩
        · rw [UInt8.toNat_ofNat']
          omega
        · rwa [(trimmed_spec (hlen _) hlast).2]

/-- Setting a bit leaves the length of the bits as it is. -/
theorem length_setBit (bits : Bytes) (kind : UInt16) : (setBit bits kind).length = bits.length :=
  List.length_modify _ _ _

/-- Setting the bit of a type sets that bit and no other. -/
theorem bit_setBit {bits : Bytes} {kind : UInt16} (h : kind.toNat / 8 < bits.length) (n : Nat) :
    bit (setBit bits kind) n = true ↔ bit bits n = true ∨ kind.toNat = n := by
  rw [setBit, bit_modify h (by omega)]
  refine or_congr_right ?_
  omega

/-- The bits of all types of a set. By induction on the types, each of which sets its own bit in a
row of all types. -/
theorem foldl_setBit (types : List UInt16) {bits : Bytes} (h : bits.length = 8192) :
    (types.foldl setBit bits).length = 8192 ∧
      ∀ n, bit (types.foldl setBit bits) n = true ↔
        bit bits n = true ∨ ∃ kind ∈ types, kind.toNat = n := by
  induction types generalizing bits with
  | nil => simp [h]
  | cons kind types ih =>
    obtain ⟨hlen, hbits⟩ := ih ((length_setBit bits kind).trans h)
    refine ⟨hlen, fun n => ?_⟩
    have hlt := kind.toNat_lt
    rw [List.foldl_cons, hbits, bit_setBit (by omega)]
    simp only [List.exists_mem_cons_iff, or_assoc]

/-- The windows of a set of types have its types. -/
theorem typeWindows_types (types : List UInt16) :
    Windows (typeWindows (types.foldl setBit (List.replicate 8192 0))) ∧
      ∀ k < 65536, HasBit (typeWindows (types.foldl setBit (List.replicate 8192 0))) k ↔
        ∃ kind ∈ types, kind.toNat = k := by
  obtain ⟨hwindows, hbits⟩ := typeWindows_spec (types.foldl setBit (List.replicate 8192 0))
  refine ⟨hwindows, fun k hk => ?_⟩
  rw [hbits k hk, (foldl_setBit types List.length_replicate).2]
  refine or_iff_right ?_
  rw [bit_iff, List.getD_replicate _ (by omega), UInt8.zero_and]
  simp

/-! ## The codecs together -/

/-- Collecting types that are all accepted lists them in order. -/
theorem foldlM_push (l out : List UInt16) :
    l.foldlM (fun l k => (.ok (l ++ [k]) : Except IoError (List UInt16))) out = .ok (out ++ l) := by
  induction l generalizing out with
  | nil => simp [pure, Except.pure]
  | cons k l ih =>
    rw [List.foldlM_cons]
    simpa [bind, Except.bind] using ih (out ++ [k])

/-- The readers agree on the octets of windows. -/
structure Readable (b : Bytes) (has : UInt16 → Prop) : Prop where
  valid : bitmapValid b = true
  read : ∃ l, typesRead b = .ok l ∧ l.Pairwise (· < ·) ∧ ∀ k, k ∈ l ↔ has k
  found : ∀ k, bitmapHas b k = true ↔ has k

/-- What well-formed windows are written as is accepted by each reader, and read as their
members. -/
theorem readable_wire {ws : List (UInt8 × Bytes)} (h : Windows ws) :
    Readable (wire ws) fun k => HasBit ws k.toNat := by
  have hlt : ∀ k ∈ members ws, k < 65536 := by
    intro k hk
    obtain ⟨x, -, hw, -⟩ := h.mem_members.1 hk
    have := x.1.toNat_lt
    omega
  refine ⟨bitmapLoop_wire h (.none _) (Nat.le_refl _), ⟨(members ws).map UInt16.ofNat, ?_, ?_, ?_⟩,
    fun k => hasLoop_wire h (Nat.le_refl _) k⟩
  · rw [typesRead, readBitmap, readLoop_wire _ h (.none _) (Nat.le_refl _), foldlM_push]
    rfl
  · refine List.pairwise_map.2 (h.members_sorted.imp_of_mem fun {k m} hk hm hkm => ?_)
    have hk := hlt k hk
    have hm := hlt m hm
    refine UInt16.lt_iff_toNat_lt.2 ?_
    rw [UInt16.toNat_ofNat', UInt16.toNat_ofNat']
    omega
  · intro k
    rw [← h.mem_members, List.mem_map]
    constructor
    · rintro ⟨n, hn, rfl⟩
      have := hlt n hn
      rwa [UInt16.toNat_ofNat', Nat.mod_eq_of_lt this]
    · exact fun hk => ⟨k.toNat, hk, UInt16.ofNat_toNat⟩

/-- The two writers write the same octets. -/
theorem nsecBitmap_eq {kinds types : List UInt16} (h : ∀ k, k ∈ types ↔ k ∈ kinds ∧ k ≠ 47) :
    nsecBitmap kinds = typeBitmap types := by
  obtain ⟨ws, hwire, hws, hbits⟩ := nsecBitmap_windows kinds
  obtain ⟨hvs, hbits'⟩ := typeWindows_types types
  rw [hwire, typeBitmap, hws.ext hvs fun k hk => ?_]
  rw [hbits k hk, hbits' k hk]
  refine exists_congr fun kind => ?_
  rw [h, and_assoc]

/-- A prepared NSEC record denies exactly the types that its name does not have, and each name with
a unique record gets one. No NSEC record comes from the input, where its type would be listed, so
all are those that `Prepared::new` makes. -/
theorem prepared_nsec {fingerprint : Bytes → Octets 32} {input : List Record} {p : Prepared}
    (h : Prepared.new fingerprint input = .ok p) {n : Name × UInt16} {types : List UInt16}
    (htypes : ∀ k, k ∈ types ↔ ∃ r ∈ ownRecords input n, r.kind = k) (hnsec : 47 ∉ types) :
    (∀ r ∈ ownRecords p.records n, r.kind = 47 → r.data = .nsec r.name (typeBitmap types)) ∧
      (∀ x ∈ input, x.cls &&& 0x8000 ≠ 0 → SameKey (x.name, x.cls &&& 0x7fff) n →
        ∃ r ∈ ownRecords p.records n, r.kind = 47) := by
  obtain ⟨hrecords, hmask, hcontains⟩ := Prepared.new_eq_ok h
  have hkinds : ∀ k, k ∈ types ↔ k ∈ (ownRecords input n).map Record.kind ∧ k ≠ 47 := by
    intro k
    rw [htypes, List.mem_map]
    refine (and_iff_left_of_imp ?_).symm
    rintro hk rfl
    exact hnsec ((htypes 47).2 hk)
  have hnone : ((ownRecords input n).any fun r => r.kind == 47) = false := by
    rw [List.any_eq_false]
    intro r hr hk
    exact hnsec ((htypes 47).2 ⟨r, hr, beq_iff_eq.1 hk⟩)
  constructor
  · intro r hr hk
    obtain ⟨hr, hown⟩ := List.mem_filter.1 hr
    rw [hrecords] at hr
    rcases List.mem_append.1 hr with hr | hr
    · exact absurd ((htypes 47).2 ⟨r, List.mem_filter.2 ⟨hr, hown⟩, hk⟩) hnsec
    · obtain ⟨m, hm, rfl⟩ := List.mem_map.1 hr
      have hsame := (Prepared.own_nsecRecord _ _ (hmask m (List.mem_filter.1 hm).1)).1 hown
      rw [← nsecBitmap_eq hkinds, ← ownRecords_congr hsame]
      rfl
  · intro x hx hu hkey
    obtain ⟨u, hget⟩ := OrdMap.contains_iff.1 ((hcontains n).2 ⟨x, hx, hu, hkey⟩)
    obtain ⟨m, hsame, hm⟩ := OrdMap.get_eq_some_iff.1 hget
    have hm : m ∈ p.names.keys := List.mem_map_of_mem hm
    refine ⟨nsecRecord input m, List.mem_filter.2 ⟨?_, ?_⟩, rfl⟩
    · rw [hrecords]
      refine List.mem_append_right _ (List.mem_map_of_mem (List.mem_filter.2 ⟨hm, ?_⟩))
      rw [ownRecords_congr hsame, hnone]
      rfl
    · exact (Prepared.own_nsecRecord _ _ (hmask m hm)).2 hsame

/-- The codecs of type bitmaps agree: what either writer writes for a set of types is valid and is
read as these types in increasing order, a type is found when it is in the set, and on every valid
bitmap the readers report the same types. -/
theorem bitmaps_agree :
    (∀ types : List UInt16, Readable (typeBitmap types) fun k => k ∈ types) ∧
      (∀ (fingerprint : Bytes → Octets 32) (input : List Record) (p : Prepared)
        (n : Name × UInt16) (types : List UInt16), Prepared.new fingerprint input = .ok p →
        (∀ k, k ∈ types ↔ ∃ r ∈ ownRecords input n, r.kind = k) → 47 ∉ types →
        (∀ r ∈ ownRecords p.records n, r.kind = 47 → r.data = .nsec r.name (typeBitmap types)) ∧
          ∀ x ∈ input, x.cls &&& 0x8000 ≠ 0 → SameKey (x.name, x.cls &&& 0x7fff) n →
            ∃ r ∈ ownRecords p.records n, r.kind = 47) ∧
      ∀ b, bitmapValid b = true →
        ∃ l, typesRead b = .ok l ∧ ∀ k, bitmapHas b k = true ↔ k ∈ l := by
  refine ⟨fun types => ?_, fun fingerprint input p n types h htypes hnsec =>
    prepared_nsec h htypes hnsec, fun b hb => ?_⟩
  · obtain ⟨hws, hbits⟩ := typeWindows_types types
    have hhas (k : UInt16) :
        HasBit (typeWindows (types.foldl setBit (List.replicate 8192 0))) k.toNat ↔ k ∈ types := by
      rw [hbits _ k.toNat_lt]
      constructor
      · rintro ⟨kind, hkind, heq⟩
        rwa [← UInt16.toNat_inj.1 heq]
      · exact fun hk => ⟨k, hk, rfl⟩
    obtain ⟨hvalid, ⟨l, hl, hsorted, hmem⟩, hfound⟩ := readable_wire hws
    exact ⟨hvalid, ⟨l, hl, hsorted, fun k => (hmem k).trans (hhas k)⟩,
      fun k => (hfound k).trans (hhas k)⟩
  · obtain ⟨ws, hws, -, rfl⟩ := exists_windows hb
    obtain ⟨-, ⟨l, hl, -, hmem⟩, hfound⟩ := readable_wire hws
    exact ⟨l, hl, fun k => (hfound k).trans (hmem k).symm⟩

/-- The name of a printer. -/
def printerName : Name := ⟨[ascii "laser", ascii "local"], by decide⟩

/-- The address of the printer. -/
def printerAddress : Record := ⟨printerName, 1, 0x8001, 120, .a (Ipv4Addr.new 192 0 2 1)⟩

/-- The records of a unique name, one of a type above 255, and one record of another name. -/
def uniqueRecords : List Record :=
  [printerAddress,
    ⟨printerName, 28, 0x8001, 120, .aaaa ⟨0xfe :: 0x80 :: List.replicate 13 0 ++ [1], rfl⟩⟩,
    ⟨⟨[ascii "desk", ascii "local"], by decide⟩, 16, 0x8001, 120, .txt [[1, 2]]⟩,
    ⟨printerName, 257, 0x8001, 120, .bytes [0, 5, 105, 115, 115, 117, 101, 97]⟩]

/-- The record that denies other types of the printer's name lists the name's own three, and is read
as these. -/
theorem bitmaps_agree_printer : ∃ p, Prepared.new (fun _ => ⟨List.replicate 32 0, by simp⟩)
    uniqueRecords = .ok p ∧ ∃ r ∈ ownRecords p.records (printerName, 1), r.kind = 47 ∧
      r.data = .nsec r.name (typeBitmap [257, 28, 1]) ∧
      Readable (typeBitmap [257, 28, 1]) fun k => k ∈ [257, 28, 1] := by
  have hok :
      (Prepared.new (fun _ => ⟨List.replicate 32 0, by simp⟩) uniqueRecords).isOk = true := by
    decide +kernel
  cases h : Prepared.new (fun _ => ⟨List.replicate 32 0, by simp⟩) uniqueRecords with
  | error e =>
    rw [h] at hok
    cases hok
  | ok p =>
    have hkinds : (ownRecords uniqueRecords (printerName, 1)).map Record.kind = [1, 28, 257] := by
      decide +kernel
    have htypes : ∀ k, k ∈ ([257, 28, 1] : List UInt16) ↔
        ∃ r ∈ ownRecords uniqueRecords (printerName, 1), r.kind = k := by
      intro k
      rw [← List.mem_map, hkinds]
      simp only [List.mem_cons, List.not_mem_nil, or_false]
      tauto
    obtain ⟨hall, hsome⟩ := bitmaps_agree.2.1 _ _ p (printerName, 1) [257, 28, 1] h htypes (by simp)
    obtain ⟨r, hr, hk⟩ := hsome printerAddress List.mem_cons_self (by decide) rfl
    exact ⟨p, rfl, r, hr, hk, hall r hr hk,
      bitmaps_agree.1 [257, 28, 1]⟩

end SnacMachine.Discovery
