import Mathlib.Data.List.GetD
import SnacMachine.Ip.Collecting

/-!
# Fragments are put together again

`fragment` cuts a packet into fragments that `parse` reads as the pieces of one `Cut`, so that a
reassembler collects them in any order (`Waiting.collect`) and completes the packet.
-/

namespace SnacMachine.Ip

/-! ## Header fields -/

/-- Four octets and the rest. -/
theorem exists_four {b : Bytes} (h : 4 ≤ b.length) : ∃ w x y z t, b = w :: x :: y :: z :: t := by
  match b, h with
  | w :: x :: y :: z :: t, _ => exact ⟨w, x, y, z, t, rfl⟩
  | [], h | [_], h | [_, _], h | [_, _, _], h => simp at h

/-- Eight octets and the rest. -/
theorem exists_eight {b : Bytes} (h : 8 ≤ b.length) :
    ∃ b0 b1 b2 b3 b4 b5 b6 b7 t, b = b0 :: b1 :: b2 :: b3 :: b4 :: b5 :: b6 :: b7 :: t := by
  obtain ⟨b0, b1, b2, b3, t, rfl⟩ := exists_four (b := b) (by omega)
  obtain ⟨b4, b5, b6, b7, t, rfl⟩ :=
    exists_four (b := t) (by simp only [List.length_cons] at h; omega)
  exact ⟨b0, b1, b2, b3, b4, b5, b6, b7, t, rfl⟩

/-- A number of 16 bits in octets. -/
theorem toBe_two (n : Nat) : toBe 2 n = [UInt8.ofNat (n / 256), UInt8.ofNat n] := by
  simp [toBe]

/-- A number of 16 bits is read back from its octets. -/
theorem ofBe_two (n : Nat) (h : n < 65536) : ofBe [UInt8.ofNat (n / 256), UInt8.ofNat n] = n := by
  rw [← toBe_two, ofBe_toBe (by simpa using h)]

/-- Two octets are written back as they were read. -/
theorem toBe_ofBe_two (x y : UInt8) : toBe 2 (ofBe [x, y]) = [x, y] := by
  have hx := x.toNat_lt
  have hy := y.toNat_lt
  have hof : ofBe [x, y] = x.toNat * 256 + y.toNat := by simp [ofBe_cons]
  rw [toBe_two, hof, show (x.toNat * 256 + y.toNat) / 256 = x.toNat by omega, UInt8.ofNat_toNat]
  congr 2
  rw [← UInt8.toNat_inj, UInt8.toNat_ofNat']
  omega

/-- Two octets stand for a number of 16 bits. -/
theorem u16At_lt (b : Bytes) (n : Nat) : u16At b n < 65536 := by
  have := ofBe_lt [octet b n, octet b (n + 1)]
  rw [u16At]
  simpa using this

/-- The octets behind the front are those of what follows. -/
theorem octet_append_right (a c : Bytes) (n : Nat) : octet (a ++ c) (a.length + n) = octet c n := by
  rw [octet, octet, List.getD_append_right _ _ _ _ (Nat.le_add_right _ _), Nat.add_sub_cancel_left]

/-! ## The flags of a fragment -/

/-- High bits and low bits have none in common. -/
theorem shiftLeft_and_of_lt (w : Nat) {q i : Nat} (hq : q < 2 ^ i) : w <<< i &&& q = 0 := by
  refine Nat.eq_of_testBit_eq fun j => ?_
  rw [Nat.testBit_and, Nat.testBit_shiftLeft, Nat.zero_testBit]
  by_cases h : i ≤ j
  · rw [Nat.testBit_lt_two_pow (Nat.lt_of_lt_of_le hq (Nat.pow_le_pow_right (by omega) h)),
      Bool.and_false]
  · simp [h]

/-- The offset and the flag of an IPv6 fragment share a field, and are read from it apart. The
offset is a multiple of eight, so its bits and that of the flag are disjoint. -/
theorem flags6 {q : Nat} (hq : q < 8192) (more : Bool) :
    (8 * q ||| more.toNat) < 65536 ∧ (8 * q ||| more.toNat) &&& 6 = 0 ∧
      (8 * q ||| more.toNat) &&& 0xfff8 = 8 * q ∧ ((8 * q ||| more.toNat) &&& 1 != 0) = more := by
  have hshift : 8 * q = q <<< 3 := by rw [Nat.shiftLeft_eq]; omega
  have hlow : ∀ z < 2 ^ 3, 8 * q &&& z = 0 := fun z hz => by
    rw [hshift]
    exact shiftLeft_and_of_lt q hz
  have hhigh : 8 * q &&& 0xfff8 = 8 * q := by
    have : q &&& 2 ^ 13 - 1 = q := by rw [Nat.and_two_pow_sub_one_eq_mod]; omega
    rw [hshift, show 0xfff8 = (2 ^ 13 - 1) <<< 3 from rfl, ← Nat.shiftLeft_and_distrib, this]
  have hm : more.toNat < 2 ^ 16 := by cases more <;> decide
  refine ⟨Nat.or_lt_two_pow (by omega) hm, ?_, ?_, ?_⟩
  · rw [Nat.and_or_distrib_right, hlow 6 (by omega)]
    cases more <;> rfl
  · rw [Nat.and_or_distrib_right, hhigh]
    cases more <;> simp
  · rw [Nat.and_or_distrib_right, hlow 1 (by omega)]
    cases more <;> rfl

/-- The offset and the flags of an IPv4 fragment share a field, and are read from it apart: the
offset takes the low thirteen bits, and the flag is above them. -/
theorem flags4 {q : Nat} (hq : q < 8192) (more : Bool) :
    (q ||| if more then 0x2000 else 0) < 65536 ∧
      (q ||| if more then 0x2000 else 0) &&& 0x1fff = q ∧
      ((q ||| if more then 0x2000 else 0) &&& 0x2000 != 0) = more ∧
      (q ||| if more then 0x2000 else 0) &&& 0x4000 = 0 ∧
      (q ||| if more then 0x2000 else 0) &&& 0x8000 = 0 := by
  have hbit : ∀ w, q &&& w <<< 13 = 0 := fun w => by
    rw [Nat.and_comm]
    exact shiftLeft_and_of_lt w (by omega)
  have hlow : q &&& 0x1fff = q := by
    rw [show 0x1fff = 2 ^ 13 - 1 from rfl, Nat.and_two_pow_sub_one_eq_mod]
    omega
  have h13 : q &&& 0x2000 = 0 := hbit 1
  have h14 : q &&& 0x4000 = 0 := hbit 2
  have h15 : q &&& 0x8000 = 0 := hbit 4
  refine ⟨Nat.or_lt_two_pow (n := 16) (by omega) (by cases more <;> decide), ?_, ?_, ?_, ?_⟩
  · rw [Nat.and_or_distrib_right, hlow]
    cases more <;> simp
  · rw [Nat.and_or_distrib_right, h13]
    cases more <;> rfl
  · rw [Nat.and_or_distrib_right, h14]
    cases more <;> rfl
  · rw [Nat.and_or_distrib_right, h15]
    cases more <;> rfl

/-! ## The header checksum -/

/-- Folding the carries keeps a sum modulo 65535, and keeps it from becoming zero. -/
theorem foldCarries_spec (n : Nat) :
    foldCarries n ≤ 65535 ∧ foldCarries n % 65535 = n % 65535 ∧ (0 < n → 0 < foldCarries n) := by
  induction n using Nat.strongRecOn with
  | _ n ih =>
    rw [foldCarries]
    split
    · next h =>
      obtain ⟨hle, hmod, hpos⟩ := ih (n % 65536 + n / 65536) (by omega)
      exact ⟨hle, by omega, fun _ => hpos (by omega)⟩
    · exact ⟨by omega, rfl, id⟩

/-- A checksum has 16 bits. -/
theorem checksum_lt (b : Bytes) : checksum b < 65536 := by
  rw [checksum]
  omega

/-- The sum of two parts is added up if the first one has whole words. -/
theorem wordSum_append {a : Bytes} (ha : a.length % 2 = 0) (c : Bytes) :
    wordSum (a ++ c) = wordSum a + wordSum c := by
  match a, ha with
  | [], _ => simp [wordSum]
  | [x], ha => simp at ha
  | x :: y :: a, ha =>
    have := wordSum_append (a := a) (by simp only [List.length_cons] at ha; omega) c
    simp only [List.cons_append, wordSum, this]
    omega

/-- A header whose checksum field holds the checksum of the rest sums up to nothing. The sum of the
words is that of the rest and its complement, which is zero after the carries are folded. -/
theorem checksum_filled {a c : Bytes} (ha : a.length % 2 = 0) :
    checksum (a ++ toBe 2 (checksum (a ++ [0, 0] ++ c)) ++ c) = 0 := by
  have hc := checksum_lt (a ++ [0, 0] ++ c)
  obtain ⟨hle, hmod, hpos⟩ := foldCarries_spec (wordSum (a ++ [0, 0] ++ c))
  have hsum : wordSum (a ++ toBe 2 (checksum (a ++ [0, 0] ++ c)) ++ c) =
      wordSum (a ++ [0, 0] ++ c) + checksum (a ++ [0, 0] ++ c) := by
    rw [toBe_two]
    simp only [List.append_assoc, wordSum_append ha, List.cons_append, List.nil_append, wordSum]
    rw [ofBe_two _ (by simpa using hc)]
    simp only [show ofBe [0, 0] = 0 from rfl]
    omega
  obtain ⟨hle', hmod', hpos'⟩ := foldCarries_spec
    (wordSum (a ++ toBe 2 (checksum (a ++ [0, 0] ++ c)) ++ c))
  rw [hsum] at hmod' hpos' hle' 
  rw [checksum, hsum]
  have hck : checksum (a ++ [0, 0] ++ c) = 65535 - foldCarries (wordSum (a ++ [0, 0] ++ c)) := rfl
  generalize checksum (a ++ [0, 0] ++ c) = k at *
  generalize wordSum (a ++ [0, 0] ++ c) = w at *
  have : 0 < w + k := by
    by_contra h
    have : w = 0 := by omega
    subst this
    have : foldCarries 0 = 0 := by rw [foldCarries]; rfl
    omega
  have := hpos' this
  omega

/-! ## The pieces -/

/-- The chunks of a payload start at the multiples of the size. By strong induction on the length:
the first chunk is cut off, and the others are those of what remains. -/
theorem chunks_eq {n : Nat} (hn : 0 < n) (b : Bytes) :
    chunks n b = (List.range ((b.length + n - 1) / n)).map fun i => (b.drop (i * n)).take n := by
  induction hb : b.length using Nat.strongRecOn generalizing b with
  | _ m ih =>
    rw [chunks]
    by_cases hnil : b = []
    · subst hnil
      cases hb
      rw [dif_pos (.inl rfl), Nat.div_eq_of_lt (by simp; omega)]
      rfl
    · have hpos : 0 < b.length := List.length_pos_iff.2 hnil
      rw [dif_neg (by simp [hnil]; omega), ih (m - n) (by omega) _ (by rw [List.length_drop, hb])]
      have hcount : (m + n - 1) / n = (m - n + n - 1) / n + 1 := by
        by_cases hle : n ≤ m
        · rw [show m + n - 1 = (m - n + n - 1) + n by omega, Nat.add_div_right _ hn]
        · rw [show m + n - 1 = (m - 1) + n by omega, Nat.add_div_right _ hn,
            Nat.div_eq_of_lt (by omega), Nat.div_eq_of_lt (by omega)]
      rw [hcount, List.range_succ_eq_map, List.map_cons, List.map_map]
      simp only [Nat.zero_mul, List.drop_zero, List.cons.injEq, true_and]
      refine List.map_congr_left fun i _ => ?_
      simp only [Function.comp, List.drop_drop]
      rw [show n + i * n = (i + 1) * n by rw [Nat.add_mul]; omega]

/-- The packets that `fragment` makes of the pieces of a cut. -/
theorem zipIdx_chunks (k : Cut) (g : Bytes × Nat → Bytes) :
    (chunks k.size k.payload).zipIdx.map g =
      Reassembler.packets k fun i => g (k.piece i, i) := by
  rw [chunks_eq k.pos, Reassembler.packets, Cut.count]
  refine List.ext_getElem (by simp) fun i h₁ h₂ => ?_
  simp [Cut.piece]

/-! ## IPv6 -/

section V6

variable {b data : Bytes} {id : UInt32} {more : Bool}

/-- An IPv6 packet of exact length whose header is not followed by another one of its kind. -/
structure Exact6 (b : Bytes) : Prop where
  version : octet b 0 >>> 4 = 6
  length : 40 + u16At b 4 = b.length
  next : octet b 6 ∈ [6, 17, 58]

/-- The header that the fragments of an IPv6 packet share. -/
def header6 (b : Bytes) : Bytes := overwrite (b.take 40) 4 [0, 0]

/-- An address is the same in buffers that have the same octets there. -/
theorem octetsAt_congr {b b' : Bytes} {pos n : Nat}
    (h : (b.drop pos).take n = (b'.drop pos).take n) (hl : pos + n ≤ b.length)
    (hl' : pos + n ≤ b'.length) : octetsAt b pos n = octetsAt b' pos n := by
  refine Subtype.ext ?_
  simp only [octetsAt]
  rw [List.take_append_of_le_length (by rw [List.length_drop]; omega),
    List.take_append_of_le_length (by rw [List.length_drop]; omega), h]

/-- The envelope of a packet of exact length. -/
theorem envelope_exact (hlong : 40 ≤ b.length) (hv : octet b 0 >>> 4 = 6)
    (hl : 40 + u16At b 4 = b.length) :
    envelope .rawIpv6 b = .ok ⟨b, b.drop 40, octetsAt b 8 16, octetsAt b 24 16, octet b 6,
      octet b 7⟩ := by
  have hstop : ¬ 40 + u16At b 4 > b.length := by omega
  simp only [envelope, framed, Except.bind, bind]
  rw [if_neg (by omega), if_neg (not_not.2 hv), if_neg hstop, hl, List.take_length]

/-- A packet of exact length whose first header is followed by a fragment header. -/
theorem parse_first (hlong : 40 ≤ b.length) (hv : octet b 0 >>> 4 = 6)
    (hl : 40 + u16At b 4 = b.length) (hnext : octet b 6 = 44) :
    parse b = fragmentAt b ⟨b, b.drop 40, octetsAt b 8 16, octetsAt b 24 16, octet b 6,
      octet b 7⟩ 40 6 := by
  have hversion : version b = some 6 := by
    cases b with
    | nil => simp at hlong
    | cons x b => exact congrArg some hv
  rw [parse, hversion, if_neg (by decide), if_pos rfl, parse6, envelope_exact hlong hv hl]
  simp only [ne_eq, not_true_eq_false, if_false]
  rw [parseHeaders, if_pos hnext]

/-- A fragment of an IPv6 packet is read as the piece that it carries. The headers are written out
octet by octet; offset and flag share one word (`flags6`), and the rest is the payload. -/
theorem parse_fragment6 (h : Exact6 b) {q : Nat} (hq : q < 8192)
    (hdata : data.length + 8 < 65536) :
    parse (fragment6 b data (8 * q) more id) = .ok (some {
      key := (0, .v6 (octetsAt b 8 16), .v6 (octetsAt b 24 16), 0, id)
      header := header6 b
      offset := 8 * q
      more := more
      payload := data }) := by
  have hlen := h.length
  obtain ⟨b0, b1, b2, b3, b4, b5, b6, b7, t, rfl⟩ := exists_eight (b := b) (by omega)
  have ht : 32 ≤ t.length := by
    simp only [List.length_cons] at hlen
    omega
  obtain ⟨hlt, h6, hoff, hmore⟩ := flags6 hq more
  have hmod : 8 * q % 65536 = 8 * q := by omega
  generalize hx : 8 * q ||| more.toNat = x at *
  have hfrag : fragment6 (b0 :: b1 :: b2 :: b3 :: b4 :: b5 :: b6 :: b7 :: t) data (8 * q) more id =
      (b0 :: b1 :: b2 :: b3 :: UInt8.ofNat ((data.length + 8) / 256) ::
       UInt8.ofNat (data.length + 8)
        :: 44 :: b7 :: t.take 32) ++
        (b6 :: 0 :: UInt8.ofNat (x / 256) :: UInt8.ofNat x :: (toBe 4 id.toNat ++ data)) := by
    simp [fragment6, overwrite, octet, hmod, hx, toBe_two]
  rw [hfrag]
  have hhead : (b0 :: b1 :: b2 :: b3 :: UInt8.ofNat ((data.length + 8) / 256) ::
      UInt8.ofNat (data.length + 8) :: 44 :: b7 :: t.take 32).length = 40 := by
    simp [ht]
  generalize hp : (b0 :: b1 :: b2 :: b3 :: UInt8.ofNat ((data.length + 8) / 256) ::
      UInt8.ofNat (data.length + 8) :: 44 :: b7 :: t.take 32) ++
      (b6 :: 0 :: UInt8.ofNat (x / 256) :: UInt8.ofNat x :: (toBe 4 id.toNat ++ data)) = p
  have hplen : p.length = 40 + (data.length + 8) := by
    rw [← hp, List.length_append, hhead]
    simp
    omega
  have hright : ∀ n, octet p (40 + n) =
      octet (b6 :: 0 :: UInt8.ofNat (x / 256) :: UInt8.ofNat x :: (toBe 4 id.toNat ++ data)) n := by
    intro n
    rw [← hp, ← hhead]
    exact octet_append_right _ _ n
  have hu16 : u16At p 4 = data.length + 8 := by
    rw [← hp]
    exact ofBe_two _ hdata
  have hflags : u16At p 42 = x := by
    rw [u16At, hright 2, hright 3]
    exact ofBe_two _ hlt
  have hv : octet p 0 >>> 4 = 6 := by
    rw [← hp]
    exact h.version
  have hnext : octet p 6 = 44 := by rw [← hp]; rfl
  have hbody : p.drop 40 =
      b6 :: 0 :: UInt8.ofNat (x / 256) :: UInt8.ofNat x :: (toBe 4 id.toNat ++ data) := by
    rw [← hp]
    exact List.drop_left' hhead
  have hfirst : p.take 40 = b0 :: b1 :: b2 :: b3 :: UInt8.ofNat ((data.length + 8) / 256) ::
      UInt8.ofNat (data.length + 8) :: 44 :: b7 :: t.take 32 := by
    rw [← hp]
    exact List.take_left' hhead
  have hid : UInt32.ofNat (ofBe ((p.drop 44).take 4)) = id := by
    rw [show 44 = 40 + 4 from rfl, ← List.drop_drop, hbody]
    simp
  have hdrop : p.drop 48 = data := by
    rw [show 48 = 40 + 8 from rfl, ← List.drop_drop, hbody]
    simp
  have haddr : ∀ m n, m + n ≤ 32 → octetsAt p (m + 8) n =
      octetsAt (b0 :: b1 :: b2 :: b3 :: b4 :: b5 :: b6 :: b7 :: t) (m + 8) n := by
    intro m n hmn
    refine octetsAt_congr ?_ (by omega) (by simp only [List.length_cons]; omega)
    rw [← hp]
    simp only [List.cons_append, List.drop_succ_cons]
    rw [List.drop_append_of_le_length (by simp; omega),
      List.take_append_of_le_length (by simp; omega), List.drop_take, List.take_take,
      Nat.min_eq_left (by omega)]
  have h40 : octet p 40 = b6 := hright 0
  have h41 : octet p 41 = 0 := hright 1
  have hnot : b6 ∉ [0, 43, 44, 51, 60] := by
    have hmem : b6 ∈ [6, 17, 58] := h.next
    simp only [List.mem_cons, List.not_mem_nil, or_false] at hmem
    obtain rfl | rfl | rfl := hmem <;> decide
  rw [parse_first (by omega) hv (by omega) hnext, fragmentAt, h40, h41, hflags,
    if_neg (by simp; omega), if_neg (by simp [h6, hnot]), hfirst, hoff, hmore, hid,
    hdrop, haddr 0 16 (by omega),
    haddr 16 16 (by omega)]
  simp [header6, overwrite]

/-- The header before a fragment is an IPv6 header without extensions. -/
theorem length_header6 (h : Exact6 b) : (header6 b).length = 40 := by
  have := h.length
  simp [header6, overwrite]
  omega

/-- The header before a fragment says that it is of IPv6. -/
theorem isV6_header6 (h : Exact6 b) : isV6 (header6 b) = true := by
  have hlen := h.length
  obtain ⟨b0, b1, b2, b3, b4, b5, b6, b7, t, rfl⟩ := exists_eight (b := b) (by omega)
  exact beq_iff_eq.2 h.version

/-- The header and the payload make the packet again. The header carries the length of the payload,
which is that of the packet without its header. -/
theorem complete_header6 (h : Exact6 b) : complete (header6 b) (b.drop 40) = .ok b := by
  have hlen := h.length
  have hu := u16At_lt b 4
  have hdata : (header6 b).length - 40 + (b.drop 40).length = u16At b 4 := by
    rw [length_header6 h, List.length_drop]
    omega
  rw [complete, if_pos (isV6_header6 h), hdata, if_neg (by omega)]
  obtain ⟨b0, b1, b2, b3, b4, b5, b6, b7, t, rfl⟩ := exists_eight (b := b) (by omega)
  have hfield : toBe 2 (u16At (b0 :: b1 :: b2 :: b3 :: b4 :: b5 :: b6 :: b7 :: t) 4) = [b4, b5] :=
    toBe_ofBe_two b4 b5
  rw [hfield]
  simp [header6, overwrite]

end V6

/-! ## IPv4 -/

section V4

variable {b data : Bytes} {id : UInt32} {more : Bool}

/-- An IPv4 packet of exact length, without options. -/
structure Exact4 (b : Bytes) : Prop where
  version : octet b 0 >>> 4 = 4
  header : (octet b 0 &&& 15).toNat * 4 = 20
  length : u16At b 2 = b.length
  long : 20 ≤ b.length

/-- The header that the fragments of an IPv4 packet share. -/
def header4 (b : Bytes) (id : UInt32) : Bytes :=
  overwrite (overwrite (overwrite (overwrite (b.take 20) 4 (toBe 2 id.toNat)) 2 [0, 0]) 6 [0, 0])
    10 [0, 0]

/-- Twenty octets and the rest: an IPv4 header. -/
theorem exists_twenty (h : 20 ≤ b.length) : ∃ b0 b1 b2 b3 b4 b5 b6 b7 b8 b9 b10 b11 b12 b13 b14 b15
    b16 b17 b18 b19 t, b = b0 :: b1 :: b2 :: b3 :: b4 :: b5 :: b6 :: b7 :: b8 :: b9 :: b10 :: b11 ::
      b12 :: b13 :: b14 :: b15 :: b16 :: b17 :: b18 :: b19 :: t := by
  obtain ⟨b0, b1, b2, b3, b4, b5, b6, b7, t, rfl⟩ := exists_eight (b := b) (by omega)
  obtain ⟨b8, b9, b10, b11, b12, b13, b14, b15, t, rfl⟩ := exists_eight (b := t)
    (by simp only [List.length_cons] at h; omega)
  obtain ⟨b16, b17, b18, b19, t, rfl⟩ := exists_four (b := t)
    (by simp only [List.length_cons] at h; omega)
  exact ⟨b0, b1, b2, b3, b4, b5, b6, b7, b8, b9, b10, b11, b12, b13, b14, b15,
    b16, b17, b18, b19, t, rfl⟩

/-- What `Packet.parse` reads in a packet of exact length without options: the fields at their
places, once the checksum is right and the flags are allowed. -/
theorem parse_exact4 (h : Exact4 b) (hsum : checksum (b.take 20) = 0) {x : Nat} (hx : u16At b 6 = x)
    (hflags : ¬ (x &&& 0x8000 ≠ 0 ∨ ((x &&& 0x4000 != 0) = true ∧
        ((x &&& 0x2000 != 0) = true ∨ (x &&& 0x1fff) * 8 ≠ 0)) ∨
      ((x &&& 0x2000 != 0) = true ∧ ((b.length - 20) % 8 ≠ 0 ∨ b.length = 20)) ∨
      (x &&& 0x1fff) * 8 + b.length - 20 > 65535)) :
    Packet.parse b = .ok {
      source := octetsAt b 12 4
      destination := octetsAt b 16 4
      ttl := octet b 8
      protocol := octet b 9
      payload := b.drop 20
      bytes := b
      headerLen := 20
      fragmentOffset := (x &&& 0x1fff) * 8
      moreFragments := x &&& 0x2000 != 0
      dontFragment := x &&& 0x4000 != 0
      id := u16At b 4
      trafficClass := octet b 1 } := by
  have hlong := h.long
  have hoptions : optionsOk b 20 20 = true := by
    rw [optionsOk]
    rfl
  unfold Packet.parse Packet.parseInner
  rw [if_neg (by rintro (h' | h'); exacts [by omega, h' h.version])]
  simp only [h.header, h.length, hx, hsum, hoptions]
  rw [if_neg (by simp; omega), if_neg (by simp), if_neg hflags, Nat.min_self, List.take_length]

/-- The header of a fragment of an IPv4 packet, with its checksum. -/
theorem checksum_overwrite {h : Bytes} (hlen : h.length = 20)
    (hzero : overwrite h 10 [0, 0] = h) : checksum (overwrite h 10 (toBe 2 (checksum h))) = 0 := by
  have hsplit : h = h.take 10 ++ [0, 0] ++ h.drop 12 := by
    conv_lhs => rw [← hzero]
    rfl
  have := checksum_filled (a := h.take 10) (c := h.drop 12) (by simp [hlen])
  rw [← hsplit] at this
  rw [overwrite, length_toBe]
  exact this

/-- A fragment of an IPv4 packet is read as the piece that it carries. The header is written out
octet by octet and its checksum is right by construction; offset and flags share one word
(`flags4`). -/
theorem parse_fragment4 (h : Exact4 b) {q : Nat} (hq : q < 8192) (hdata : data.length + 20 < 65536)
    (hmore : more = true → data.length % 8 = 0 ∧ data ≠ []) (hpart : more = true ∨ q ≠ 0)
    (hstop : 8 * q + data.length ≤ 65535) :
    parse (fragment4 b data (8 * q) more id) = .ok (some {
      key := (0, .v4 (octetsAt b 12 4), .v4 (octetsAt b 16 4), octet b 9,
        UInt32.ofNat (id.toNat % 65536))
      header := header4 b id
      offset := 8 * q
      more := more
      payload := data }) := by
  have hlong := h.long
  obtain ⟨b0, b1, b2, b3, b4, b5, b6, b7, b8, b9, b10, b11, b12, b13, b14, b15,
    b16, b17, b18, b19, t, rfl⟩ := exists_twenty hlong
  obtain ⟨hlt, hoff, hbit, hdf, hres⟩ := flags4 hq more
  have hmod : 8 * q % 65536 / 8 = q := by omega
  generalize hx : (q ||| if more then 0x2000 else 0) = x at *
  -- The header before its checksum is filled in.
  generalize hzero :
    [b0, b1, UInt8.ofNat ((data.length + 20) / 256), UInt8.ofNat (data.length + 20),
     UInt8.ofNat (id.toNat / 256), UInt8.ofNat id.toNat, UInt8.ofNat (x / 256),
     UInt8.ofNat x, b8, b9,
    0, 0, b12, b13, b14, b15, b16, b17, b18, b19] = z
  have hfrag : fragment4 (b0 :: b1 :: b2 :: b3 :: b4 :: b5 :: b6 :: b7 :: b8 :: b9 :: b10 :: b11 ::
      b12 :: b13 :: b14 :: b15 :: b16 :: b17 :: b18 :: b19 :: t) data (8 * q) more id =
      overwrite z 10 (toBe 2 (checksum z)) ++ data := by
    simp [fragment4, overwrite, hmod, hx, toBe_two, ← hzero]
  have hsum : checksum (overwrite z 10 (toBe 2 (checksum z))) = 0 :=
    checksum_overwrite (by rw [← hzero]; rfl) (by rw [← hzero]; rfl)
  have hfill : overwrite z 10 (toBe 2 (checksum z)) = [b0, b1,
      UInt8.ofNat ((data.length + 20) / 256), UInt8.ofNat (data.length + 20),
      UInt8.ofNat (id.toNat / 256), UInt8.ofNat id.toNat, UInt8.ofNat (x / 256), UInt8.ofNat x, b8,
      b9, UInt8.ofNat (checksum z / 256), UInt8.ofNat (checksum z), b12, b13, b14, b15, b16, b17,
      b18, b19] := by
    generalize checksum z = c
    rw [← hzero, toBe_two]
    rfl
  rw [hfrag]
  have htake : (overwrite z 10 (toBe 2 (checksum z)) ++ data).take 20 =
      overwrite z 10 (toBe 2 (checksum z)) := List.take_left' (by rw [hfill]; rfl)
  rw [← htake] at hsum
  rw [hfill] at hsum ⊢
  generalize hp : [b0, b1, UInt8.ofNat ((data.length + 20) / 256), UInt8.ofNat (data.length + 20),
      UInt8.ofNat (id.toNat / 256), UInt8.ofNat id.toNat, UInt8.ofNat (x / 256), UInt8.ofNat x, b8,
      b9, UInt8.ofNat (checksum z / 256), UInt8.ofNat (checksum z), b12, b13, b14, b15, b16, b17,
      b18, b19] ++ data = p at hsum ⊢
  have hplen : p.length = data.length + 20 := by
    rw [← hp, List.length_append]
    simp
    omega
  have hexact : Exact4 p := by
    refine ⟨?_, ?_, ?_, by omega⟩
    · rw [← hp]
      exact h.version
    · rw [← hp]
      exact h.header
    · rw [hplen, ← hp]
      exact ofBe_two _ hdata
  have hflags : u16At p 6 = x := by
    rw [← hp]
    exact ofBe_two _ hlt
  have hparse := parse_exact4 hexact hsum hflags (by
    rw [hdf, hres, hbit, hoff, hplen]
    simp only [ne_eq, not_true_eq_false, bne_self_eq_false, Bool.false_eq_true, false_and, false_or,
      Nat.add_sub_cancel, not_or, not_and]
    refine ⟨fun hm => ⟨not_not.2 (hmore hm).1, fun h0 => ?_⟩, by omega⟩
    exact (hmore hm).2 (List.length_eq_zero_iff.1 (by omega)))
  have hid : u16At p 4 = id.toNat % 65536 := by
    have := ofBe_toBe_mod 2 id.toNat
    rw [toBe_two] at this
    rw [← hp]
    exact this
  have hversion : version p = some 4 := by
    rw [← hp]
    exact congrArg some h.version
  have hpartial : ¬ ((!more) = true ∧ q * 8 = 0) := by
    rintro ⟨hm, h0⟩
    cases hpart with
    | inl h1 => rw [h1] at hm; cases hm
    | inr h1 => omega
  rw [parse, hversion, if_pos rfl, parse4, hparse]
  simp only [Except.bind, bind]
  rw [if_neg (not_not.2 rfl), hbit, hoff, if_neg hpartial, hid, Nat.mul_comm q 8, ← hp]
  simp [header4, overwrite, octetsAt, octet, toBe_two]

/-- The header before a fragment is an IPv4 header without options. -/
theorem length_header4 (h : Exact4 b) : (header4 b id).length = 20 := by
  have := h.long
  simp [header4, overwrite]
  omega

/-- The header before a fragment says that it is of IPv4. -/
theorem isV6_header4 (h : Exact4 b) : isV6 (header4 b id) = false := by
  have hlong := h.long
  have hv := h.version
  obtain ⟨b0, b1, b2, b3, t, rfl⟩ := exists_four (b := b) (by omega)
  have hv : b0 >>> 4 = 4 := hv
  have : octet (header4 (b0 :: b1 :: b2 :: b3 :: t) id) 0 = b0 := by
    simp [header4, overwrite, octet]
  rw [isV6, this, hv]
  rfl

/-- The packet with the identification of its fragments: the flags cleared and the checksum computed
again. -/
def reidentified (b : Bytes) (id : UInt32) : Bytes :=
  let h := overwrite (overwrite (overwrite (b.take 20) 4 (toBe 2 id.toNat)) 6 [0, 0]) 10 [0, 0]
  overwrite h 10 (toBe 2 (checksum h)) ++ b.drop 20

/-- The header and the payload make the packet again. All fields are those of the packet, apart from
those that fragmentation changes (`reidentified`). -/
theorem complete_header4 (h : Exact4 b) :
    complete (header4 b id) (b.drop 20) = .ok (reidentified b id) := by
  have hlong := h.long
  have hlen := h.length
  have hu := u16At_lt b 2
  have hdata : (header4 b id).length + (b.drop 20).length = u16At b 2 := by
    rw [length_header4 h, List.length_drop]
    omega
  rw [complete, isV6_header4 h, if_neg Bool.false_ne_true, hdata]
  simp only
  rw [if_neg (by omega)]
  obtain ⟨b0, b1, b2, b3, b4, b5, b6, b7, b8, b9, b10, b11, b12, b13, b14, b15,
    b16, b17, b18, b19, t, rfl⟩ := exists_twenty hlong
  have hfield : toBe 2 (ofBe [b2, b3]) = [b2, b3] := toBe_ofBe_two b2 b3
  have hu16 : u16At (b0 :: b1 :: b2 :: b3 :: b4 :: b5 :: b6 :: b7 :: b8 :: b9 :: b10 :: b11 ::
      b12 :: b13 :: b14 :: b15 :: b16 :: b17 :: b18 :: b19 :: t) 2 = ofBe [b2, b3] := rfl
  rw [hu16, hfield]
  simp [header4, reidentified, overwrite, toBe_two]

end V4

/-! ## The whole packet -/

/-- The packet is as long as its header says. -/
def ExactLength (b : Bytes) : Prop :=
  (version b = some 4 → u16At b 2 = b.length) ∧ (version b = some 6 → 40 + u16At b 4 = b.length)

/-- The key of the fragments of a packet, the scope apart. -/
def fragmentKey (b : Bytes) (id : UInt32) : IpAddr × IpAddr × UInt8 × UInt32 :=
  if version b = some 6 then (.v6 (octetsAt b 8 16), .v6 (octetsAt b 24 16), 0, id)
  else (.v4 (octetsAt b 12 4), .v4 (octetsAt b 16 4), octet b 9, UInt32.ofNat (id.toNat % 65536))

/-- The packet that the fragments of a packet make: an IPv4 packet with their identification, the
flags cleared and the checksum computed again. -/
def reassembled (b : Bytes) (id : UInt32) : Bytes :=
  if version b = some 6 then b else reidentified b id

/-- The fragments of a packet are the pieces of a cut. -/
structure Fragments (b : Bytes) (mtu : Nat) (id : UInt32) (fs : List Bytes) (k : Cut)
    (bytes : Nat → Bytes) : Prop where
  packets : fs = Reassembler.packets k bytes
  parse : ∀ i < k.count, parse (bytes i) = .ok (some (k.part i))
  complete : complete k.header k.payload = .ok (reassembled b id)
  id : k.id = fragmentKey b id
  length : ∀ i < k.count, (bytes i).length ≤ mtu

/-- The version is in the first octet. -/
theorem version_eq {b : Bytes} (hlong : 1 ≤ b.length) : version b = some (octet b 0 >>> 4) := by
  cases b with
  | nil => simp at hlong
  | cons x b => rfl

/-- What an IPv6 packet must look like to be taken up. -/
theorem envelope_ok {b : Bytes} {e : Envelope} (h : envelope .rawIpv6 b = .ok e) :
    40 ≤ b.length ∧ octet b 0 >>> 4 = 6 ∧ e.nextHeader = octet b 6 := by
  simp only [envelope, framed, Except.bind, bind] at h
  split at h
  · cases h
  · split at h
    · cases h
    · split at h
      · cases h
      · cases h
        exact ⟨by omega, by simp_all, rfl⟩

/-- What an IPv4 packet must look like to be taken up. The parser checks the version and the length
of the header before anything else. -/
theorem parse_ok {b : Bytes} {p : Packet} (h : Packet.parse b = .ok p) :
    20 ≤ b.length ∧ octet b 0 >>> 4 = 4 ∧ p.headerLen = (octet b 0 &&& 15).toNat * 4 := by
  unfold Packet.parse Packet.parseInner at h
  split at h
  · cases h
  · next hv =>
    simp only at h
    split at h
    · cases h
    · split at h
      · cases h
      · split at h
        · cases h
        · cases h
          exact ⟨by omega, by by_contra hne; exact hv (.inr hne), rfl⟩

section Cuts

variable {b data : Bytes} {mtu : Nat} {id : UInt32} {more : Bool}

/-- The cut of an IPv6 packet. -/
def cut6 (h : Exact6 b) (id : UInt32) (hmtu : 1280 ≤ mtu) (hlong : mtu < b.length) : Cut where
  header := header6 b
  payload := b.drop 40
  size := (mtu - 48) / 8 * 8
  id := fragmentKey b id
  eight := by omega
  pos := by omega
  several := by rw [List.length_drop]; omega
  fits := by
    have := h.length
    have := u16At_lt b 4
    rw [overhead, isV6_header6 h, if_pos rfl, length_header6 h, List.length_drop]
    omega

/-- An IPv6 fragment takes 48 octets besides its data. -/
theorem length_fragment6 (h : 40 ≤ b.length) (offset : Nat) :
    (fragment6 b data offset more id).length = 48 + data.length := by
  simp [fragment6, overwrite]
  omega

/-- An IPv6 packet that is too long is split into the fragments of its payload, of equal sizes but
the last. -/
theorem fragments6 (h : Exact6 b) (hmtu : 1280 ≤ mtu) (hlong : mtu < b.length) :
    ∃ k bytes, Fragments b mtu id ((chunks ((mtu - 48) / 8 * 8) (b.drop 40)).zipIdx.map
      fun (data, i) => fragment6 b data (i * ((mtu - 48) / 8 * 8))
        (decide (i * ((mtu - 48) / 8 * 8) + data.length < (b.drop 40).length)) id) k bytes := by
  have hlen := h.length
  have hu := u16At_lt b 4
  have hversion : version b = some 6 := by
    rw [version_eq (by omega), h.version]
  refine ⟨cut6 h id hmtu hlong, _, zipIdx_chunks (cut6 h id hmtu hlong) _, fun i hi => ?_, ?_, rfl,
    fun i hi => ?_⟩
  · have hi : i * ((mtu - 48) / 8 * 8) < (b.drop 40).length := Cut.lt_count.1 hi
    have hpiece := Cut.length_piece (k := cut6 h id hmtu hlong) i
    have hsize : (cut6 h id hmtu hlong).size = (mtu - 48) / 8 * 8 := rfl
    have hq : i * ((mtu - 48) / 8 * 8) = 8 * (i * ((mtu - 48) / 8)) := by
      rw [← Nat.mul_assoc, Nat.mul_comm]
    rw [List.length_drop, hq] at hi
    simp only [hq]
    rw [parse_fragment6 h (by omega) (by omega)]
    simp only [Cut.part, hsize, hq]
    simp only [cut6, fragmentKey, hversion, if_true]
  · rw [reassembled, if_pos hversion]
    exact complete_header6 h
  · have hpiece := Cut.length_piece (k := cut6 h id hmtu hlong) i
    have hsize : (cut6 h id hmtu hlong).size = (mtu - 48) / 8 * 8 := rfl
    rw [length_fragment6 (by omega)]
    omega

/-- The cut of an IPv4 packet. -/
def cut4 (h : Exact4 b) (id : UInt32) (hmtu : 68 ≤ mtu) (hlong : mtu < b.length) : Cut where
  header := header4 b id
  payload := b.drop 20
  size := (mtu - 20) / 8 * 8
  id := fragmentKey b id
  eight := by omega
  pos := by omega
  several := by rw [List.length_drop]; omega
  fits := by
    have := h.length
    have := h.long
    have := u16At_lt b 2
    rw [overhead, isV6_header4 h, if_neg Bool.false_ne_true, length_header4 h, List.length_drop]
    omega

/-- An IPv4 fragment takes 20 octets besides its data. -/
theorem length_fragment4 (h : 20 ≤ b.length) (offset : Nat) :
    (fragment4 b data offset more id).length = 20 + data.length := by
  simp [fragment4, overwrite]
  omega

/-- An IPv4 packet that is too long is split into the fragments of its payload, of equal sizes but
the last. -/
theorem fragments4 (h : Exact4 b) (hmtu : 68 ≤ mtu) (hlong : mtu < b.length) :
    ∃ k bytes, Fragments b mtu id ((chunks ((mtu - 20) / 8 * 8) (b.drop 20)).zipIdx.map
      fun (data, i) => fragment4 b data (i * ((mtu - 20) / 8 * 8))
        (decide (i * ((mtu - 20) / 8 * 8) + data.length < (b.drop 20).length)) id) k bytes := by
  have hlen := h.length
  have hu := u16At_lt b 2
  have hversion : version b = some 4 := by
    rw [version_eq (by omega), h.version]
  have hnot6 : ¬ version b = some 6 := by rw [hversion]; decide
  refine ⟨cut4 h id hmtu hlong, _, zipIdx_chunks (cut4 h id hmtu hlong) _, fun i hi => ?_, ?_, rfl,
    fun i hi => ?_⟩
  · have hmod := Cut.length_part_mod hi
    have hne := Cut.piece_ne_nil hi
    have hform := (Cut.wellFormed_part hi).part
    have hlt : i * ((mtu - 20) / 8 * 8) < (b.drop 20).length := Cut.lt_count.1 hi
    have hpiece := Cut.length_piece (k := cut4 h id hmtu hlong) i
    have hsize : (cut4 h id hmtu hlong).size = (mtu - 20) / 8 * 8 := rfl
    have hpayload : (cut4 h id hmtu hlong).payload = b.drop 20 := rfl
    have hq : i * ((mtu - 20) / 8 * 8) = 8 * (i * ((mtu - 20) / 8)) := by
      rw [← Nat.mul_assoc, Nat.mul_comm]
    simp only [Cut.part, hsize, hpayload, hq] at hmod hform hpiece
    rw [List.length_drop, hq] at hlt
    rw [List.length_drop] at hpiece
    simp only [hq]
    rw [parse_fragment4 h (by omega) (by omega) (fun hm => ⟨hmod hm, hne⟩) ?_ (by omega)]
    · simp only [Cut.part, hsize, hpayload, hq]
      simp only [cut4, fragmentKey, hnot6, if_false]
    · by_contra hcon
      rw [not_or] at hcon
      exact hform ⟨by rw [not_not.1 hcon.2], by simpa using hcon.1⟩
  · rw [reassembled, if_neg hnot6]
    exact complete_header4 h
  · have hpiece := Cut.length_piece (k := cut4 h id hmtu hlong) i
    have hsize : (cut4 h id hmtu hlong).size = (mtu - 20) / 8 * 8 := rfl
    rw [length_fragment4 (by omega)]
    omega

/-- The packets of exact length that can be cut: IPv6 packets without a fragment header at 1280
octets or more, and IPv4 packets without options at 68 or more, each with its own layout. -/
theorem fragmentLayout_eq_ok {l : Nat × Nat} (h : fragmentLayout b mtu = .ok l)
    (hexact : ExactLength b) :
    Exact6 b ∧ 1280 ≤ mtu ∧ l = (40, 48) ∨ Exact4 b ∧ 68 ≤ mtu ∧ l = (20, 20) := by
  unfold fragmentLayout at h
  split at h
  · next hv =>
    left
    cases he : envelope .rawIpv6 b with
    | error e =>
      rw [he] at h
      cases h
    | ok e =>
      obtain ⟨-, hversion, hnext⟩ := envelope_ok he
      rw [he] at h
      simp only at h
      split at h
      · cases h
      · next hok =>
        cases h
        refine ⟨⟨hversion, hexact.2 hv, ?_⟩, by omega, rfl⟩
        rw [← hnext]
        by_contra hn
        exact hok (.inl hn)
  · split at h
    · next hv =>
      right
      cases hp : Packet.parse b with
      | error e =>
        rw [hp] at h
        cases h
      | ok p =>
        obtain ⟨hlong, hversion, hheader⟩ := parse_ok hp
        rw [hp] at h
        simp only [Except.bind, bind] at h
        split at h
        · cases h
        · next hok =>
          cases h
          refine ⟨⟨hversion, ?_, hexact.1 hv, hlong⟩, by omega, rfl⟩
          rw [← hheader]
          by_contra hn
          exact hok (.inl hn)
    · cases h

/-- What `fragment` returns for a packet that does not fit. One case for each version, with the
fragments cut at multiples of eight octets. -/
theorem fragment_eq_ok {fs : List Bytes} (h : fragment b mtu id = .ok fs) (hmany : 1 < fs.length)
    (hexact : ExactLength b) : ∃ k bytes, Fragments b mtu id fs k bytes := by
  unfold fragment at h
  split at h
  · cases h
    simp at hmany
  · next hlong =>
    cases hl : fragmentLayout b mtu with
    | error e =>
      rw [hl] at h
      cases h
    | ok l =>
      rw [hl] at h
      simp only [Except.bind, bind] at h
      obtain ⟨h6, hmtu, rfl⟩ | ⟨h4, hmtu, rfl⟩ := fragmentLayout_eq_ok hl hexact
      · rw [if_neg (by omega)] at h
        cases h
        exact fragments6 h6 hmtu (by omega)
      · rw [if_neg (by omega)] at h
        cases h
        exact fragments4 h4 hmtu (by omega)

end Cuts

/-- Fragmentation and reassembly are inverse: a packet of exact length that is cut into several
fragments, none longer than the MTU, comes out of any reassembler that receives them all, in
whatever order and among whatever other packets, at the last of them and at none before. -/
theorem fragments_reassemble {b : Bytes} {mtu : Nat} {id : UInt32} {fs : List Bytes}
    (hf : fragment b mtu id = .ok fs) (hmany : 1 < fs.length) (hexact : ExactLength b) :
    (∀ f ∈ fs, f.length ≤ mtu) ∧ ∀ (scope : UInt8) (r : Reassembler) (ops : List Input),
      r.contexts.get (scope, fragmentKey b id) = none →
      ((ops.filter (Reassembler.ours scope fs)).map Input.bytes).Perm fs →
      Reassembler.Arrivals scope fs (scope, fragmentKey b id) r ops →
      Reassembler.answersTo scope fs r ops = List.replicate (fs.length - 1) (.ok none) ++
          [.ok (some ⟨reassembled b id, some (fragmentKey b id).2.2.2⟩)] ∧
        (r.run ops).contexts.get (scope, fragmentKey b id) = none := by
  obtain ⟨k, bytes, hk⟩ := fragment_eq_ok hf hmany hexact
  have hpackets := hk.packets
  subst hpackets
  refine ⟨fun f hmem => ?_, fun scope r ops hnone hperm ha => ?_⟩
  · obtain ⟨i, hi, rfl⟩ := List.mem_map.1 hmem
    exact hk.length i (List.mem_range.1 hi)
  · have hlen : (List.range k.count).length = (Reassembler.packets k bytes).length := by
      simp [Reassembler.packets]
    have hsplit : Reassembler.Split k [] (List.range k.count) := ⟨by simp⟩
    have hne : List.range k.count ≠ [] := by
      have := k.one_lt_count
      exact List.ne_nil_of_length_pos (by rw [List.length_range]; omega)
    rw [← hk.id] at hnone ha ⊢
    have := Reassembler.Waiting.collect hk.parse hk.complete hsplit hne hperm
      (.inl ⟨rfl, hnone⟩) ha
    rwa [hlen] at this

/-- A UDP packet of 80 octets. -/
def udpPacket : Bytes :=
  [0x45, 0, 0, 80, 0, 0, 0, 0, 64, 17, 0x7a, 0x9e, 0, 0, 0, 0, 0, 0, 0, 0] ++ List.replicate 60 7

/-- Its fragments for an MTU of 68 octets. -/
def udpFragments : List Bytes :=
  [[0x45, 0, 0, 68, 0, 1, 32, 0, 64, 17, 90, 169, 0, 0, 0, 0, 0, 0, 0, 0] ++ List.replicate 48 7,
    [0x45, 0, 0, 32, 0, 1, 0, 6, 64, 17, 122, 199, 0, 0, 0, 0, 0, 0, 0, 0] ++ List.replicate 12 7]

/-- The datagram of the sample is split into two fragments. -/
theorem udpFragments_eq : fragment udpPacket 68 1 = .ok udpFragments := by
  decide +kernel

/-- The calls that receive them in the opposite order. -/
def reversedArrival : List Input := udpFragments.reverse.map fun f => ⟨f, 5, 0⟩

/-- The two fragments arrive, the second one first. Both come at one time, and the reassembler has
room for them. -/
theorem reversedArrival_arrives : Reassembler.Arrivals 0 udpFragments (0, fragmentKey udpPacket 1)
    Reassembler.default reversedArrival where
  sorted := by simp [reversedArrival, udpFragments]
  within := by
    intro a ha _ b hb _
    obtain ⟨f, -, rfl⟩ := List.mem_map.1 ha
    obtain ⟨g, -, rfl⟩ := List.mem_map.1 hb
    show 5 < satAdd 5 60000
    decide
  room := by
    have : ((Reassembler.answers .default reversedArrival).all
        fun p => decide (p.2 ≠ .error capacity)) = true := by
      decide +kernel
    intro p hp _
    exact of_decide_eq_true (List.all_eq_true.1 this p hp)
  others := by
    intro o ho hours
    obtain ⟨f, hf, rfl⟩ := List.mem_map.1 ho
    exact absurd (decide_eq_true ⟨rfl, List.mem_reverse.1 hf⟩) (Bool.eq_false_iff.1 hours)

/-- The theorem applied to two fragments in reverse order, which make up the packet again. -/
theorem fragments_reassemble_reversed :
    Reassembler.answersTo 0 udpFragments .default reversedArrival =
      [.ok none, .ok (some ⟨reassembled udpPacket 1, some 1⟩)] := by
  have h := fragments_reassemble udpFragments_eq (by decide) ⟨by decide +kernel, by decide +kernel⟩
  have hperm : (reversedArrival.filter (Reassembler.ours 0 udpFragments)).map Input.bytes =
      udpFragments.reverse := by
    decide +kernel
  exact (h.2 0 .default reversedArrival rfl (hperm ▸ List.reverse_perm _)
    reversedArrival_arrives).1
end SnacMachine.Ip
