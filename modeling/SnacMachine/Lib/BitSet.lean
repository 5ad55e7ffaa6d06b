import Mathlib.Data.List.Sort
import Mathlib.Data.Nat.Bitwise
import SnacMachine.Lib.Bytes

/-!
# Windowed bit sets

A set of 16-bit numbers as octets: for each window of 256 numbers that has members, a row of at most
32 octets with one bit for each number, the most significant bit first and no zero octet at the end.
Such rows are determined by their bits (`BitRow.ext`), and lists of windows by their members
(`Windows.ext`).
-/

/-- The mask of a bit of an octet, the most significant bit first. -/
def bitMask (n : Nat) : UInt8 := 0x80 >>> UInt8.ofNat n

/-- The bits are numbered from the most significant one. -/
theorem toNat_bitMask {n : Nat} (h : n < 8) : (bitMask n).toNat = 2 ^ (7 - n) := by
  have : ∀ n < 8, (bitMask n).toNat = 2 ^ (7 - n) := by decide
  exact this n h

/-- The mask selects one bit of an octet. -/
theorem and_bitMask (x : UInt8) {n : Nat} (h : n < 8) :
    x &&& bitMask n ≠ 0 ↔ x.toNat.testBit (7 - n) = true := by
  rw [ne_eq, ← UInt8.toNat_inj, UInt8.toNat_and, toNat_bitMask h, Nat.and_two_pow]
  cases x.toNat.testBit (7 - n) <;> simp

/-- Setting a bit sets that bit and no other. -/
theorem or_bitMask (x : UInt8) {m n : Nat} (hm : m < 8) (hn : n < 8) :
    (x ||| bitMask m) &&& bitMask n ≠ 0 ↔ x &&& bitMask n ≠ 0 ∨ m = n := by
  rw [and_bitMask _ hn, and_bitMask _ hn, UInt8.toNat_or, toNat_bitMask hm, Nat.testBit_or,
    Bool.or_eq_true, Nat.testBit_two_pow, decide_eq_true_eq]
  refine or_congr_right ?_
  omega

/-- Octets are equal when their bits are. -/
theorem octet_ext {x y : UInt8} (h : ∀ n < 8, x &&& bitMask n ≠ 0 ↔ y &&& bitMask n ≠ 0) :
    x = y := by
  refine UInt8.toNat_inj.1 (Nat.eq_of_testBit_eq fun i => ?_)
  by_cases hi : i < 8
  · have hbit := h (7 - i) (by omega)
    rw [and_bitMask _ (by omega), and_bitMask _ (by omega), show 7 - (7 - i) = i by omega] at hbit
    exact Bool.eq_iff_iff.2 hbit
  · have hpow : 2 ^ 8 ≤ 2 ^ i := Nat.pow_le_pow_right (by omega) (by omega)
    rw [Nat.testBit_lt_two_pow (x.toNat_lt.trans_le hpow),
      Nat.testBit_lt_two_pow (y.toNat_lt.trans_le hpow)]

/-- An octet that is not zero has a bit. -/
theorem exists_bitMask {x : UInt8} (h : x ≠ 0) : ∃ n < 8, x &&& bitMask n ≠ 0 := by
  by_contra hne
  push Not at hne
  refine h (octet_ext fun n hn => ?_)
  simp [hne n hn]

/-! ## Rows -/

/-- Bit `n` of a row of octets. -/
def bit (b : Bytes) (n : Nat) : Bool := b.getD (n / 8) 0 &&& bitMask (n % 8) != 0

/-- The bit of a number is in the octet that holds it; what is beyond the row is not set. -/
theorem bit_iff {b : Bytes} {n : Nat} :
    bit b n = true ↔ b.getD (n / 8) 0 &&& bitMask (n % 8) ≠ 0 := by
  simp [bit]

/-- No bit is set beyond the end of a row. -/
theorem bit_eq_false {b : Bytes} {n : Nat} (h : 8 * b.length ≤ n) : bit b n = false := by
  have hnone : b.getD (n / 8) 0 = 0 := List.getD_eq_default _ _ (by omega)
  rw [bit, hnone, UInt8.zero_and]
  rfl

/-- Rows agree where their octets do. -/
theorem bit_congr {b c : Bytes} {m n : Nat} (h : b.getD (n / 8) 0 = c.getD (m / 8) 0)
    (hmod : n % 8 = m % 8) : bit b n = bit c m := by
  rw [bit, bit, h, hmod]

/-- The first eight bits are those of the first octet. -/
theorem bit_cons_of_lt (x : UInt8) (b : Bytes) {n : Nat} (h : n < 8) :
    bit (x :: b) n = (x &&& bitMask n != 0) := by
  rw [bit, Nat.div_eq_of_lt h, Nat.mod_eq_of_lt h, List.getD_cons_zero]

/-- The other bits are those of the octets after the first. -/
theorem bit_cons_add (x : UInt8) (b : Bytes) (n : Nat) : bit (x :: b) (8 + n) = bit b n := by
  rw [bit, bit, show (8 + n) / 8 = n / 8 + 1 by omega, show (8 + n) % 8 = n % 8 by omega,
    List.getD_cons_succ]

/-- A row with one more bit. Only the octet of the bit is changed, so the bits of all others are
read as before (`or_bitMask`). -/
theorem bit_modify {b : Bytes} {i j : Nat} (hi : i < b.length) (hj : j < 8) (n : Nat) :
    bit (b.modify i fun x => x ||| bitMask j) n = true ↔ bit b n = true ∨ i * 8 + j = n := by
  rw [bit_iff, bit_iff, List.getD_eq_getElem?_getD, List.getD_eq_getElem?_getD,
    List.getElem?_modify]
  split
  · next heq =>
    rw [heq] at hi
    rw [List.getElem?_eq_getElem hi]
    simp only [Option.map_eq_map, Option.map_some, Option.getD_some]
    rw [or_bitMask _ hj (by omega)]
    refine or_congr_right ?_
    omega
  · next hne =>
    simp only [Option.map_eq_map, Option.map_id']
    refine (or_iff_left ?_).symm
    omega

/-- Octets that are zero add no bits at the end. -/
theorem bit_append_zeros (b : Bytes) (m n : Nat) : bit (b ++ List.replicate m 0) n = bit b n := by
  refine bit_congr ?_ rfl
  rw [List.getD_eq_getElem?_getD, List.getD_eq_getElem?_getD, List.getElem?_append]
  split
  · rfl
  · next hge =>
    rw [List.getElem?_eq_none (l := b) (by omega), List.getElem?_replicate]
    split <;> rfl

/-- A row that does not end in a zero octet. -/
structure BitRow (b : Bytes) : Prop where
  ne_nil : b ≠ []
  length_le : b.length ≤ 32
  last : b.getLast? ≠ some 0

namespace BitRow

variable {b c : Bytes}

/-- The last octet of a row has a bit. It is not zero, so one of its eight bits is set
(`exists_bitMask`). -/
theorem exists_bit (h : BitRow b) :
    ∃ n, 8 * (b.length - 1) ≤ n ∧ n < 8 * b.length ∧ bit b n = true := by
  have hpos : 0 < b.length := List.length_pos_of_ne_nil h.ne_nil
  have hlast : b.getD (b.length - 1) 0 ≠ 0 := by
    intro h0
    refine h.last ?_
    rw [List.getLast?_eq_getElem?, List.getElem?_eq_getElem (by omega)]
    rw [List.getD_eq_getElem _ _ (by omega)] at h0
    rw [h0]
  obtain ⟨n, hn, hbit⟩ := exists_bitMask hlast
  refine ⟨8 * (b.length - 1) + n, by omega, by omega, bit_iff.2 ?_⟩
  rwa [show (8 * (b.length - 1) + n) / 8 = b.length - 1 by omega,
    show (8 * (b.length - 1) + n) % 8 = n by omega]

/-- A row whose last octet has a bit. The octet is not zero then, and it is the last one by the
bound on the bit's number. -/
theorem of_bit (hlen : b.length ≤ 32) {n : Nat} (hn : 8 * (b.length - 1) ≤ n)
    (hbit : bit b n = true) : BitRow b := by
  have hlt : n < 8 * b.length := by
    by_contra hge
    rw [bit_eq_false (by omega)] at hbit
    cases hbit
  have hdiv : n / 8 = b.length - 1 := by omega
  refine ⟨fun hnil => ?_, hlen, fun hlast => ?_⟩
  · rw [hnil] at hlt
    exact absurd hlt (by simp)
  · rw [List.getLast?_eq_getElem?] at hlast
    rw [bit_iff, hdiv, List.getD_eq_getElem?_getD, hlast] at hbit
    exact hbit (by simp)

/-- A row without a zero octet at its end is no longer than one that has all of its bits. -/
theorem length_le_of_bits (h : BitRow b) (heq : ∀ n < 256, bit b n = true → bit c n = true) :
    b.length ≤ c.length := by
  obtain ⟨n, hle, hlt, hbit⟩ := h.exists_bit
  have hlen := h.length_le
  have hc := heq n (by omega) hbit
  by_contra hshort
  rw [bit_eq_false (by omega)] at hc
  cases hc

/-- Rows are equal when their bits are. -/
theorem ext (hb : BitRow b) (hc : BitRow c) (h : ∀ n < 256, bit b n = bit c n) : b = c := by
  have hlen : b.length = c.length :=
    Nat.le_antisymm (hb.length_le_of_bits fun n hn hbit => h n hn ▸ hbit)
      (hc.length_le_of_bits fun n hn hbit => (h n hn).symm ▸ hbit)
  refine List.ext_getElem hlen fun i hi hi' => octet_ext fun n hn => ?_
  have hlt := hb.length_le
  have hbit := h (8 * i + n) (by omega)
  rw [Bool.eq_iff_iff, bit_iff, bit_iff, show (8 * i + n) / 8 = i by omega,
    show (8 * i + n) % 8 = n by omega, List.getD_eq_getElem _ _ hi,
    List.getD_eq_getElem _ _ hi'] at hbit
  exact hbit

end BitRow

/-! ## Windows -/

/-- Windows in order, each with its row. -/
structure Windows (ws : List (UInt8 × Bytes)) : Prop where
  sorted : ws.Pairwise fun x y => x.1 < y.1
  rows : ∀ x ∈ ws, BitRow x.2

/-- Whether a number is a member. -/
def HasBit (ws : List (UInt8 × Bytes)) (k : Nat) : Prop :=
  ∃ x ∈ ws, x.1.toNat = k / 256 ∧ bit x.2 (k % 256) = true

namespace Windows

variable {ws vs : List (UInt8 × Bytes)}

/-- The octets of a list of windows: of each its number, the length of its row and the row. -/
def wire (ws : List (UInt8 × Bytes)) : Bytes :=
  ws.flatMap fun x => x.1 :: UInt8.ofNat x.2.length :: x.2

/-- Whether the windows come after one that was read. -/
def After (previous : Option UInt8) (ws : List (UInt8 × Bytes)) : Prop :=
  ∀ x ∈ ws, ∀ p ∈ previous, p < x.1

/-- No windows at all are well formed; they stand for the empty set. -/
theorem nil : Windows [] := ⟨.nil, fun _ hx => absurd hx List.not_mem_nil⟩

/-- Every window comes after none. -/
theorem After.none (ws : List (UInt8 × Bytes)) : After none ws := fun _ _ _ hp => nomatch hp

/-- Without windows there is nothing to be in order. -/
theorem After.nil (previous : Option UInt8) : After previous [] :=
  fun _ hx => absurd hx List.not_mem_nil

/-- What well-formed windows with a first one consist of. -/
theorem tail {x : UInt8 × Bytes} (h : Windows (x :: ws)) :
    Windows ws ∧ After (some x.1) ws ∧ BitRow x.2 := by
  obtain ⟨hfirst, hrest⟩ := List.pairwise_cons.1 h.sorted
  refine ⟨⟨hrest, fun y hy => h.rows y (List.mem_cons_of_mem _ hy)⟩, ?_,
    h.rows x List.mem_cons_self⟩
  intro y hy p hp
  cases hp
  exact hfirst y hy

/-- A window is put in front of those whose numbers are greater. -/
theorem cons {x : UInt8 × Bytes} (h : Windows ws) (hafter : After (some x.1) ws)
    (hrow : BitRow x.2) : Windows (x :: ws) :=
  ⟨h.sorted.cons fun y hy => hafter y hy x.1 rfl, List.forall_mem_cons.2 ⟨hrow, h.rows⟩⟩

/-- What a reader checks of a window's number holds if the windows are in order. -/
theorem After.not_any {previous : Option UInt8} {x : UInt8 × Bytes} (h : After previous (x :: ws)) :
    ¬ previous.any (fun p => x.1 ≤ p) = true := by
  cases previous with
  | none => simp
  | some p => simpa using h x List.mem_cons_self p rfl

/-- No window is there twice. -/
theorem nodup_fst (h : Windows ws) : (ws.map Prod.fst).Nodup :=
  List.pairwise_map.2 (h.sorted.imp fun hlt => UInt8.ne_of_lt hlt)

/-- Windows are determined by their numbers. -/
theorem eq_of_fst_eq (h : Windows ws) {x y : UInt8 × Bytes} (hx : x ∈ ws) (hy : y ∈ ws)
    (heq : x.1 = y.1) : x = y :=
  List.inj_on_of_nodup_map h.nodup_fst hx hy heq

/-- The members of a window are the bits of its row. -/
theorem hasBit_iff (h : Windows ws) {x : UInt8 × Bytes} (hx : x ∈ ws) {n : Nat} (hn : n < 256) :
    HasBit ws (x.1.toNat * 256 + n) ↔ bit x.2 n = true := by
  have hdiv : (x.1.toNat * 256 + n) / 256 = x.1.toNat := by omega
  have hmod : (x.1.toNat * 256 + n) % 256 = n := by omega
  constructor
  · rintro ⟨y, hy, hwindow, hbit⟩
    rw [hdiv] at hwindow
    rw [hmod] at hbit
    rwa [h.eq_of_fst_eq hx hy (UInt8.toNat_inj.1 hwindow.symm)]
  · exact fun hbit => ⟨x, hx, hdiv.symm, by rwa [hmod]⟩

/-- Windows with the same members have the same rows, since a row is determined by its bits. -/
theorem mem_of_hasBit (h : Windows ws) (h' : Windows vs)
    (heq : ∀ k < 65536, HasBit ws k ↔ HasBit vs k) {x : UInt8 × Bytes} (hx : x ∈ ws) : x ∈ vs := by
  obtain ⟨n, -, hlt, hbit⟩ := (h.rows x hx).exists_bit
  have hlen := (h.rows x hx).length_le
  have hw := x.1.toNat_lt
  obtain ⟨y, hy, hwindow, -⟩ := (heq _ (by omega)).1 ((h.hasBit_iff hx (by omega)).2 hbit)
  have hfst : x.1 = y.1 := UInt8.toNat_inj.1 (by omega)
  have hrow : x.2 = y.2 := by
    refine (h.rows x hx).ext (h'.rows y hy) fun m hm => ?_
    have hmem := heq (x.1.toNat * 256 + m) (by omega)
    rw [h.hasBit_iff hx hm, hfst, h'.hasBit_iff hy hm] at hmem
    exact Bool.eq_iff_iff.2 hmem
  rwa [Prod.ext hfst hrow]

/-- Lists of windows are equal when their members are. -/
theorem ext (h : Windows ws) (h' : Windows vs) (heq : ∀ k < 65536, HasBit ws k ↔ HasBit vs k) :
    ws = vs := by
  have hperm : ws.Perm vs := by
    refine (List.perm_ext_iff_of_nodup h.nodup_fst.of_map h'.nodup_fst.of_map).2 fun x => ?_
    exact ⟨h.mem_of_hasBit h' heq, h'.mem_of_hasBit h fun k hk => (heq k hk).symm⟩
  exact hperm.eq_of_pairwise (fun x y _ _ hxy hyx => absurd hyx (UInt8.lt_asymm hxy))
    h.sorted h'.sorted

/-- The members in order. -/
def rowMembers (x : UInt8 × Bytes) : List Nat :=
  ((List.range (8 * x.2.length)).filter (bit x.2)).map fun n => x.1.toNat * 256 + n

/-- The numbers that a row stands for are those of its window whose bits are set. A number is the
window's number times 256 and the number of a bit. -/
theorem mem_rowMembers {x : UInt8 × Bytes} (h : BitRow x.2) {k : Nat} :
    k ∈ rowMembers x ↔ x.1.toNat = k / 256 ∧ bit x.2 (k % 256) = true := by
  have hlen := h.length_le
  rw [rowMembers, List.mem_map]
  constructor
  · rintro ⟨n, hn, rfl⟩
    obtain ⟨hlt, hbit⟩ := List.mem_filter.1 hn
    have hlt := List.mem_range.1 hlt
    refine ⟨by omega, ?_⟩
    rwa [show (x.1.toNat * 256 + n) % 256 = n by omega]
  · rintro ⟨hw, hbit⟩
    refine ⟨k % 256, List.mem_filter.2 ⟨List.mem_range.2 ?_, hbit⟩, by omega⟩
    by_contra hlt
    rw [bit_eq_false (by omega)] at hbit
    cases hbit

/-- The members of all windows, in order. -/
def members (ws : List (UInt8 × Bytes)) : List Nat := ws.flatMap rowMembers

/-- The numbers that are listed are the members of the set. -/
theorem mem_members (h : Windows ws) {k : Nat} : k ∈ members ws ↔ HasBit ws k := by
  rw [members, List.mem_flatMap]
  refine exists_congr fun x => and_congr_right fun hx => ?_
  exact mem_rowMembers (h.rows x hx)

/-- Members are listed in increasing order. -/
theorem members_sorted (h : Windows ws) : (members ws).Pairwise (· < ·) := by
  refine List.pairwise_flatMap.2 ⟨fun x hx => ?_, ?_⟩
  · refine List.pairwise_map.2 ((List.pairwise_lt_range.filter _).imp ?_)
    omega
  · refine h.sorted.imp_of_mem fun {x y} hx hy hlt k hk m hm => ?_
    have hlt := UInt8.lt_iff_toNat_lt.1 hlt
    obtain ⟨hkw, -⟩ := (mem_rowMembers (h.rows x hx)).1 hk
    obtain ⟨hmw, -⟩ := (mem_rowMembers (h.rows y hy)).1 hm
    omega

end Windows
