import SnacMachine.Ip.Ra
import SnacMachine.Ip.RoundTrip

/-!
# Router Advertisements are read as they are written

`decodeNd` reads an encoded advertisement as its options, one after another, and each option is
decoded as what it encodes. A prefix is `Normal` when it has no host bits.
-/

namespace SnacMachine

open Ip

/-! ## Addresses and prefixes -/

namespace Ipv6Addr

/-- A link-local address is no group address. The first octet of the one is 254 and of the other
255. -/
theorem not_isMulticast_of_linkLocal {a : Ipv6Addr} (h : a.linkLocal = true) :
    a.isMulticast = false := by
  obtain ⟨x0, x1, x2, x3, t, ht⟩ := exists_four (b := a.1) (by rw [a.2]; omega)
  simp only [linkLocal, isMulticast, u16At, octet, ht, List.getD_cons_zero,
    List.getD_cons_succ] at h ⊢
  have h := beq_iff_eq.1 h
  refine beq_eq_false_iff_ne.2 fun hx => ?_
  subst hx
  have hof : ofBe [255, x1] = 0xff00 + x1.toNat := by simp [ofBe_cons]
  have hbit := congrArg (Nat.testBit · 8) h
  have hx1 := x1.toNat_lt
  have hadd : 0xff00 + x1.toNat = 2 ^ 8 * 255 + x1.toNat := by norm_num
  rw [hof, hadd] at hbit
  simp only [Nat.testBit_and, Nat.testBit_two_pow_mul_add _ hx1, Nat.lt_irrefl, if_false] at hbit
  exact absurd hbit (by decide)

end Ipv6Addr

namespace Prefix

/-- A prefix without host bits. -/
def Normal (p : Prefix) : Prop := new p.address p.length = some p

instance (p : Prefix) : Decidable p.Normal := inferInstanceAs (Decidable (_ = _))

/-- Clearing low bits twice is clearing the more of them. -/
theorem div_mul_div_mul (v : Nat) {a b : Nat} (h : a ≤ b) :
    v / 2 ^ a * 2 ^ a / 2 ^ b * 2 ^ b = v / 2 ^ b * 2 ^ b := by
  obtain ⟨c, rfl⟩ := Nat.exists_eq_add_of_le h
  rw [pow_add, ← Nat.div_div_eq_div_mul, Nat.mul_div_cancel _ (Nat.two_pow_pos a),
    Nat.div_div_eq_div_mul]

/-- Clearing low bits keeps a number within 128 bits. -/
theorem masked_lt {v : Nat} (h : v < 2 ^ 128) (b : Nat) : v / 2 ^ b * 2 ^ b < 2 ^ 128 :=
  Nat.lt_of_le_of_lt (Nat.div_mul_le_self _ _) h

/-- A well-formed prefix is at most as long as an address. -/
theorem Normal.length_le {p : Prefix} (h : p.Normal) : p.length ≤ 128 := by
  by_contra hlt
  rw [Normal, new, if_pos (by simpa using hlt)] at h
  cases h

/-- A well-formed prefix has no bits beyond its length. -/
theorem Normal.value_eq {p : Prefix} (h : p.Normal) :
    p.address.value / 2 ^ (128 - p.length.toNat) * 2 ^ (128 - p.length.toNat) =
    p.address.value := by
  have hn := h.length_le
  rw [Normal, new, if_neg (by simpa using hn)] at h
  have ha := congrArg (fun q : Prefix => q.address.value) (Option.some.inj h)
  rwa [Ipv6Addr.value_ofValue, Nat.mod_eq_of_lt (masked_lt p.address.value_lt _)] at ha

end Prefix

namespace Ip

/-! ## Octets by position -/

/-- The octets of the front are those of the whole. -/
theorem octet_append_left {a : Bytes} (c : Bytes) {n : Nat} (h : n < a.length) :
    octet (a ++ c) n = octet a n := by
  rw [octet, octet, List.getD_append _ _ _ _ h]

/-- An address is read where it was written. -/
theorem octetsAt_eq {b a c : Bytes} {n : Nat} (o : Octets n) (h : b = a ++ o.1 ++ c) :
    octetsAt b a.length n = o := by
  refine Subtype.ext ?_
  simp only [octetsAt, h, List.append_assoc, List.drop_left]
  exact List.take_left' o.2

/-- A number of 32 bits is read where it was written, whatever exceeds 32 bits. -/
theorem u32At_eq {b a c : Bytes} {v : Nat} (h : b = a ++ toBe 4 v ++ c) :
    u32At b a.length = v % 2 ^ 32 := by
  have hv := ofBe_toBe_mod 4 v
  norm_num at hv ⊢
  rw [u32At, h, List.append_assoc, List.drop_left, ← hv, List.take_left' (by simp)]

/-! ## Options -/

/-- A prefix option is decoded as what it encodes. Its prefix is the stored one cut to its length,
and its lifetimes are those of 32 bits. -/
theorem Pio.decode_encode (p : Pio) : Pio.decode p.encode =
    (Prefix.new p.prefix_.address p.prefix_.length).map fun q =>
      ⟨q, p.flags, p.preferred % 2 ^ 32, p.valid % 2 ^ 32⟩ := by
  have ha := octetsAt_eq (b := p.encode)
    (a := [3, 4, p.prefix_.length, p.flags] ++ toBe 4 p.valid ++
    toBe 4 p.preferred ++ [0, 0, 0, 0]) (c := []) p.prefix_.address (by simp [Pio.encode])
  have hv := u32At_eq (b := p.encode) (a := [3, 4, p.prefix_.length, p.flags])
    (c := toBe 4 p.preferred ++ [0, 0, 0, 0] ++ p.prefix_.address.1) (v := p.valid)
    (by simp [Pio.encode])
  have hp := u32At_eq (b := p.encode) (a := [3, 4, p.prefix_.length, p.flags] ++ toBe 4 p.valid)
    (c := [0, 0, 0, 0] ++ p.prefix_.address.1) (v := p.preferred) (by simp [Pio.encode])
  simp only [List.length_append, List.length_cons, List.length_nil, length_toBe] at ha hv hp
  have hlen : p.encode.length = 32 := by simp [Pio.encode, p.prefix_.address.2]
  have hbytes : octet p.encode 0 = 3 ∧ octet p.encode 1 = 4 ∧ octet p.encode 2 = p.prefix_.length ∧
      octet p.encode 3 = p.flags := ⟨rfl, rfl, rfl, rfl⟩
  rw [Pio.decode, if_neg (by simp [hlen, hbytes.1, hbytes.2.1]), hbytes.2.2.1, hbytes.2.2.2, ha, hp,
    hv]

/-- The front of a number in octets is its more significant part. -/
theorem ofBe_append (a c : Bytes) : ofBe (a ++ c) = ofBe a * 256 ^ c.length + ofBe c := by
  rw [ofBe, List.foldl_append, foldl_be]
  rfl

/-- Zero octets stand for zero. -/
theorem ofBe_replicate (n : Nat) : ofBe (List.replicate n 0) = 0 := by
  induction n with
  | zero => rfl
  | succ n ih => rw [List.replicate_succ, ofBe_cons, ih]; simp

/-- The first octets of an address, with zeros after them. As numbers: the value is cut to the
octets that are kept. -/
theorem value_paddedAddress (a : Ipv6Addr) {k : Nat} (hk : k ≤ 16) :
    (paddedAddress (a.1.take k)).value =
      a.value / 2 ^ (8 * (16 - k)) * 2 ^ (8 * (16 - k)) := by
  have hlen : (a.1.take k).length = k := by rw [List.length_take, a.2]; omega
  have htake : (a.1.take k).take 16 = a.1.take k := List.take_of_length_le (by omega)
  have hsplit : ofBe a.1 = ofBe (a.1.take k) * 256 ^ (16 - k) + ofBe (a.1.drop k) := by
    have := ofBe_append (a.1.take k) (a.1.drop k)
    rwa [List.take_append_drop, List.length_drop, a.2] at this
  have hlow : ofBe (a.1.drop k) < 256 ^ (16 - k) := by
    have := ofBe_lt (a.1.drop k)
    rwa [List.length_drop, a.2] at this
  have hdiv : ofBe a.1 / 256 ^ (16 - k) = ofBe (a.1.take k) := by
    rw [hsplit, Nat.mul_comm, Nat.mul_add_div (Nat.pow_pos (by omega)), Nat.div_eq_of_lt hlow,
      Nat.add_zero]
  rw [pow_mul, show (2 : Nat) ^ 8 = 256 from rfl, Ipv6Addr.value, Ipv6Addr.value, hdiv]
  simp only [paddedAddress, htake, hlen]
  rw [ofBe_append, ofBe_replicate, List.length_replicate, Nat.add_zero]

/-- The first octets of an address tell a prefix that is no longer. -/
theorem Prefix.new_padded {p : Prefix} (h : p.Normal) {k : Nat} (hk : k ≤ 16)
    (hle : 8 * (16 - k) ≤ 128 - p.length.toNat) :
    Prefix.new (paddedAddress (p.address.1.take k)) p.length = some p := by
  have hn := h.length_le
  have hv := h.value_eq
  rw [Prefix.new, if_neg (by simpa using hn)]
  simp only [value_paddedAddress _ hk, Prefix.div_mul_div_mul _ hle, hv, Ipv6Addr.ofValue_value]

namespace Rio

/-- A prefix of a route takes as many units of eight octets as its length needs. -/
theorem units_cases (n : UInt8) :
    (units n = 1 ∧ n = 0) ∨ (units n = 2 ∧ 0 < n ∧ n ≤ 64) ∨ (units n = 3 ∧ 64 < n) := by
  unfold units
  split
  · next h0 => exact .inl ⟨rfl, h0⟩
  · next h0 =>
    split
    · next h1 => exact .inr (.inl ⟨rfl, UInt8.pos_iff_ne_zero.2 h0, h1⟩)
    · next h1 => exact .inr (.inr ⟨rfl, UInt8.not_le.1 h1⟩)

/-- A route option has as many octets as its units say. -/
theorem length_encode (r : Rio) : r.encode.length = units r.prefix_.length * 8 := by
  have hu := units_cases r.prefix_.length
  simp only [encode, List.length_append, List.length_cons, List.length_nil, length_toBe,
    List.length_take, r.prefix_.address.2]
  omega

/-- The octets of an option tell the prefix of the route. A prefix has no bits beyond its length,
and the option holds all octets up to it. -/
theorem new_paddedAddress {p : Prefix} (h : p.Normal) :
    Prefix.new (paddedAddress (p.address.1.take ((units p.length - 1) * 8))) p.length = some p := by
  have hn := h.length_le
  have hle : (units p.length - 1) * 8 ≤ 16 ∧
      8 * (16 - (units p.length - 1) * 8) ≤ 128 - p.length.toNat := by
    have h64 : (64 : UInt8).toNat = 64 := rfl
    rcases units_cases _ with ⟨hu, h0⟩ | ⟨hu, -, h1⟩ | ⟨hu, -⟩
    · rw [hu, h0]
      decide
    · have := UInt8.le_iff_toNat_le.1 h1
      rw [hu]
      omega
    · rw [hu]
      omega
  exact Prefix.new_padded h hle.1 hle.2

/-- A route option is decoded as what it encodes. The prefix takes as many units of eight octets as
its length needs, and the rest of the address is zero. -/
theorem decode_encode {r : Rio} (h : r.prefix_.Normal) (hl : r.lifetime < 2 ^ 32) :
    decode r.encode = some r := by
  have hn := h.length_le
  have hlen := r.length_encode
  have hlife := u32At_eq (b := r.encode)
    (a := [24, UInt8.ofNat (units r.prefix_.length), r.prefix_.length, r.preference.bits])
    (c := r.prefix_.address.1.take ((units r.prefix_.length - 1) * 8)) (v := r.lifetime) rfl
  simp only [List.length_cons, List.length_nil, Nat.zero_add, Nat.mod_eq_of_lt hl] at hlife
  have hdrop : r.encode.drop 8 = r.prefix_.address.1.take ((units r.prefix_.length - 1) * 8) := by
    simp only [encode]
    exact List.drop_left' (by simp)
  have hbytes : octet r.encode 0 = 24 ∧ octet r.encode 1 = UInt8.ofNat (units r.prefix_.length) ∧
      octet r.encode 2 = r.prefix_.length ∧ octet r.encode 3 = r.preference.bits :=
    ⟨rfl, rfl, rfl, rfl⟩
  have hpref : Preference.decode r.preference.bits = some r.preference := by
    cases r.preference <;> rfl
  have hcond : ¬ (r.encode.length < 8 ∨ octet r.encode 0 ≠ 24 ∨ octet r.encode 1 < 1 ∨
      octet r.encode 1 > 3 ∨ r.encode.length ≠ (octet r.encode 1).toNat * 8 ∨
      octet r.encode 2 > 128 ∨ (octet r.encode 2 > 0 ∧ octet r.encode 1 < 2) ∨
      (octet r.encode 2 > 64 ∧ octet r.encode 1 < 3)) := by
    rw [hbytes.1, hbytes.2.1, hbytes.2.2.1, hlen]
    rcases units_cases _ with ⟨hu, h0⟩ | ⟨hu, h0, h1⟩ | ⟨hu, h0⟩
    · rw [hu, h0]
      decide
    · rw [hu]
      simp [hn, h1]
    · rw [hu]
      simp [hn]
  rw [decode, if_neg hcond, hbytes.2.2.1, hbytes.2.2.2, hdrop, new_paddedAddress h, hpref, hlife]
  rfl

end Rio

/-! ## Packets -/

/-- A packet with any traffic class is read as it is written: the version is in the upper half of
its first octet, and the payload is as long as the header says. -/
theorem envelope_written {source destination : Ipv6Addr} {v t next hop : UInt8} {payload b : Bytes}
    (h : b = [v, t, 0, 0] ++ toBe 2 payload.length ++ [next, hop] ++ source.1 ++ destination.1 ++
      payload) (hv : v >>> 4 = 6) (hlen : payload.length < 65536) :
    envelope .rawIpv6 b = .ok ⟨b, payload, source, destination, next, hop⟩ := by
  have hb : b.length = 40 + payload.length := by
    simp only [h, List.length_append, List.length_cons, List.length_nil, length_toBe, source.2,
      destination.2]
  have hu : u16At b 4 = payload.length := by
    have hu : u16At b 4 = ofBe (toBe 2 payload.length) := by
      rw [toBe_two, u16At, h, toBe_two]
      rfl
    rw [hu, ofBe_toBe (by norm_num; omega)]
  have hs := octetsAt_eq (b := b) (a := [v, t, 0, 0] ++ toBe 2 payload.length ++ [next, hop])
    (c := destination.1 ++ payload) source (by simp [h])
  have hd := octetsAt_eq (b := b) (a := [v, t, 0, 0] ++ toBe 2 payload.length ++ [next, hop] ++
    source.1) (c := payload) destination (by simp [h])
  have hp : b.drop 40 = payload := by
    rw [h]
    exact List.drop_left' (by simp [source.2, destination.2])
  have h6 : octet b 6 = next ∧ octet b 7 = hop ∧ octet b 0 = v := by
    rw [h, toBe_two]
    exact ⟨rfl, rfl, rfl⟩
  simp only [List.length_append, List.length_cons, List.length_nil, length_toBe, source.2]
    at hs hd
  rw [envelope_exact (by omega) (h6.2.2 ▸ hv) (by omega), hs, hd, h6.1, h6.2.1, hp]

/-- A packet is read as it is written. -/
theorem envelope_ipv6Packet {source destination : Ipv6Addr} {next hop : UInt8} {payload b : Bytes}
    (h : ipv6Packet source destination next hop payload = .ok b) :
    envelope .rawIpv6 b = .ok ⟨b, payload, source, destination, next, hop⟩ := by
  unfold ipv6Packet at h
  split at h
  · cases h
  · next hlen =>
    injection h with h
    exact envelope_written h.symm (by decide) (by omega)

/-- A packet without options that is no fragment is read as it is written. The header is compared
octet by octet, and the length and the checksum are those that the reader computes. -/
theorem parse_written {src dst : Ipv4Addr} {t i j f ttl p c d : UInt8} {b out : Bytes}
    (h : out = [0x45, t] ++ toBe 2 (20 + b.length) ++ [i, j, f, 0, ttl, p, c, d] ++
     src.1 ++ dst.1 ++
      b) (hlen : 20 + b.length < 65536) (hf : f = 0 ∨ f = 0x40)
      (hsum : checksum (out.take 20) = 0) :
    Packet.parse out = .ok {
      source := src
      destination := dst
      ttl := ttl
      protocol := p
      payload := b
      bytes := out
      headerLen := 20
      fragmentOffset := 0
      moreFragments := false
      dontFragment := f == 0x40
      id := ofBe [i, j]
      trafficClass := t } := by
  have hl : out.length = 20 + b.length := by
    simp only [h, List.length_append, List.length_cons, List.length_nil, length_toBe, src.2, dst.2]
  have hu : u16At out 2 = ofBe (toBe 2 (20 + b.length)) := by
    rw [toBe_two, u16At, h, toBe_two]
    rfl
  have hoctets : octet out 0 = 0x45 ∧ octet out 1 = t ∧ u16At out 4 = ofBe [i, j] ∧
      u16At out 6 = ofBe [f, 0] ∧ octet out 8 = ttl ∧ octet out 9 = p := by
    rw [h, toBe_two]
    exact ⟨rfl, rfl, rfl, rfl, rfl, rfl⟩
  obtain ⟨h0, h1, h4, h6, h8, h9⟩ := hoctets
  have hexact : Exact4 out := by
    refine ⟨?_, ?_, ?_, by omega⟩
    · rw [h0]
      decide
    · rw [h0]
      decide
    · rw [hu, ofBe_toBe (by norm_num; omega), hl]
  have hs := octetsAt_eq (b := out) (a := [0x45, t] ++ toBe 2 (20 + b.length) ++
    [i, j, f, 0, ttl, p, c, d]) (c := dst.1 ++ b) src (by simp [h])
  have hd := octetsAt_eq (b := out) (a := [0x45, t] ++ toBe 2 (20 + b.length) ++
    [i, j, f, 0, ttl, p, c, d] ++ src.1) (c := b) dst (by simp [h])
  have hp : out.drop 20 = b := by
    rw [h]
    exact List.drop_left' (by simp [src.2, dst.2])
  simp only [List.length_append, List.length_cons, List.length_nil, length_toBe, src.2] at hs hd
  rcases hf with rfl | rfl
  · rw [parse_exact4 hexact hsum (h6.trans (show ofBe [0, 0] = 0 by decide)) (by simp; omega),
      hs, hd, h1, h4, h8, h9, hp]
    simp
  · rw [parse_exact4 hexact hsum (h6.trans (show ofBe [0x40, 0] = 0x4000 by decide))
      (by simp; omega), hs, hd, h1, h4, h8, h9, hp]
    simp

/-- The transport payload of a packet that has no extension header. -/
theorem transport_icmp {e : Envelope} (h : e.nextHeader = 58) :
    transport e = .ok ⟨58, e.payload, false, false⟩ := by
  rw [transport, transportLoop, h]
  rfl

/-- The message of a packet, with the checksum filled in. -/
def filled (source destination : Ipv6Addr) (body : Bytes) : Bytes :=
  body.take 2 ++ toBe 2 (checksum6 source destination 58 (body.take 2 ++ [0, 0] ++ body.drop 4)) ++
    body.drop 4

/-- An ICMP packet is its body with the checksum, behind an IPv6 header. -/
theorem icmpPacket_eq {source destination : Ipv6Addr} {hop : UInt8} {body : Bytes}
    (h : 4 ≤ body.length) : icmpPacket source destination hop body =
      ipv6Packet source destination 58 hop (filled source destination body) := by
  obtain ⟨x0, x1, x2, x3, t, rfl⟩ := exists_four h
  rw [icmpPacket, if_neg (by omega)]
  rfl

/-- The checksum is filled in without changing the length. -/
theorem length_filled {source destination : Ipv6Addr} {body : Bytes} (h : 4 ≤ body.length) :
    (filled source destination body).length = body.length := by
  simp only [filled, List.length_append, List.length_take, length_toBe, List.length_drop]
  omega

/-- The checksum is read only at its place. -/
theorem octet_filled {source destination : Ipv6Addr} {body : Bytes} {n : Nat} (h : 4 ≤ body.length)
    (hn : n < 2 ∨ 4 ≤ n) : octet (filled source destination body) n = octet body n := by
  obtain ⟨x0, x1, x2, x3, t, rfl⟩ := exists_four h
  simp only [filled, toBe_two]
  rcases hn with hn | hn
  · have : n = 0 ∨ n = 1 := by omega
    rcases this with rfl | rfl <;> rfl
  · obtain ⟨k, rfl⟩ := Nat.exists_eq_add_of_le hn
    rw [Nat.add_comm]
    rfl

/-- Behind the checksum the body is as it was. -/
theorem drop_filled {source destination : Ipv6Addr} {body : Bytes} {n : Nat} (h : 4 ≤ body.length)
    (hn : 4 ≤ n) : (filled source destination body).drop n = body.drop n := by
  obtain ⟨k, rfl⟩ := Nat.exists_eq_add_of_le hn
  rw [← List.drop_drop, ← List.drop_drop]
  refine congrArg (List.drop k) ?_
  rw [filled]
  exact List.drop_left' (by simp only [List.length_append, List.length_take, length_toBe]; omega)

/-- The checksum of a message is right: filling it in makes the sum of the words zero. The two
octets of the checksum are taken out of the sum as a word of their own. -/
theorem checksum6_filled {source destination : Ipv6Addr} {body : Bytes} (h : 4 ≤ body.length) :
    checksum6 source destination 58 (filled source destination body) = 0 := by
  have hlen : (filled source destination body).length =
      (body.take 2 ++ [0, 0] ++ body.drop 4).length := by
    rw [length_filled h]
    simp only [List.length_append, List.length_take, List.length_cons, List.length_nil,
      List.length_drop]
    omega
  have htake : (body.take 2).length % 2 = 0 := by
    rw [List.length_take, Nat.min_eq_left (by omega)]
  have hlt : checksum6 source destination 58 (body.take 2 ++ [0, 0] ++ body.drop 4) < 65536 := by
    rw [checksum6]
    omega
  have hsum : wordSum (filled source destination body) =
      wordSum (body.take 2 ++ [0, 0] ++ body.drop 4) +
        checksum6 source destination 58 (body.take 2 ++ [0, 0] ++ body.drop 4) := by
    rw [filled, toBe_two]
    simp only [List.append_assoc, wordSum_append htake, List.cons_append, List.nil_append, wordSum]
    rw [ofBe_two _ (by simpa using hlt)]
    simp only [show ofBe [0, 0] = 0 from rfl]
    omega
  rw [checksum6, hlen, hsum]
  rw [checksum6] at hlt ⊢
  generalize wordSum (body.take 2 ++ [0, 0] ++ body.drop 4) = w at *
  generalize (body.take 2 ++ [0, 0] ++ body.drop 4).length = n at *
  have h58 : (58 : UInt8).toNat = 58 := rfl
  rw [h58]
  generalize wordSum source.1 + wordSum destination.1 + wordSum (toBe 4 n) = a at *
  obtain ⟨hle, hmod, hpos⟩ := foldCarries_spec (a + 58 + w)
  obtain ⟨hle', hmod', hpos'⟩ := foldCarries_spec
    (a + 58 + (w + (65535 - foldCarries (a + 58 + w))))
  have := hpos' (by omega)
  omega

/-! ## Messages -/

/-- An option whose second octet tells its length. -/
def WellFormed (o : Bytes) : Prop := 2 ≤ o.length ∧ o.length = (octet o 1).toNat * 8

/-- The options of a message are read one after another. By induction on the options, each of which
tells its own length. -/
theorem ndOptions_flatten {os : List Bytes} (h : ∀ o ∈ os, WellFormed o) :
    ndOptions os.flatten = .ok (os.map fun o => ⟨octet o 0, o⟩) := by
  induction os with
  | nil =>
    rw [List.flatten_nil, ndOptions, if_pos rfl]
    rfl
  | cons o os ih =>
    obtain ⟨hlong, hlen⟩ := h o List.mem_cons_self
    have hih := ih fun x hx => h x (List.mem_cons_of_mem _ hx)
    have hcons : (o :: os).flatten = o ++ os.flatten := rfl
    have h0 : octet (o ++ os.flatten) 0 = octet o 0 := octet_append_left _ (by omega)
    have h1 : octet (o ++ os.flatten) 1 = octet o 1 := octet_append_left _ (by omega)
    have hne : o ++ os.flatten ≠ [] := by
      intro hnil
      rw [List.append_eq_nil_iff.1 hnil |>.1] at hlong
      simp at hlong
    have hpos :
        ¬ ((octet o 1).toNat * 8 = 0 ∨ (octet o 1).toNat * 8 > (o ++ os.flatten).length) := by
      rw [List.length_append]
      omega
    rw [hcons, ndOptions, if_neg hne, if_neg (by rw [List.length_append]; omega),
      h0, h1, if_neg hpos, ← hlen, List.drop_left, List.take_left, hih]
    rfl

/-- An advertisement is read as its options: the message has the type, the checksum and the source
that the reader asks for, and its options begin after sixteen octets. -/
theorem decodeNd_ra {source destination : Ipv6Addr} {header b : Bytes} {os : List Bytes}
    (h : icmpPacket source destination 255 (header ++ os.flatten) = .ok b)
    (hlen : header.length = 16) (h0 : octet header 0 = 134) (h1 : octet header 1 = 0)
    (hs : source.linkLocal = true) (hos : ∀ o ∈ os, WellFormed o) :
    ∃ e, envelope .rawIpv6 b = .ok e ∧ e.source = source ∧ e.destination = destination ∧
      decodeNd e = .ok ⟨134, filled source destination (header ++ os.flatten),
        os.map fun o => ⟨octet o 0, o⟩⟩ := by
  have hlong : 4 ≤ (header ++ os.flatten).length := by rw [List.length_append]; omega
  rw [icmpPacket_eq hlong] at h
  refine ⟨_, envelope_ipv6Packet h, rfl, rfl, ?_⟩
  have ho0 : octet (filled source destination (header ++ os.flatten)) 0 = 134 := by
    rw [octet_filled hlong (by omega), octet_append_left _ (by omega), h0]
  have ho1 : octet (filled source destination (header ++ os.flatten)) 1 = 0 := by
    rw [octet_filled hlong (by omega), octet_append_left _ (by omega), h1]
  have hdrop : (filled source destination (header ++ os.flatten)).drop 16 = os.flatten := by
    rw [drop_filled hlong (by omega)]
    exact List.drop_left' hlen
  have hb : (filled source destination (header ++ os.flatten)).length = 16 + os.flatten.length := by
    rw [length_filled hlong, List.length_append, hlen]
  simp only [decodeNd, transport_icmp, bind, Except.bind, ho0, ho1, checksum6_filled hlong, hb]
  rw [if_neg (by simp; omega)]
  simp [ndBase, hs, Ipv6Addr.not_isMulticast_of_linkLocal hs, hdrop, ndOptions_flatten hos]

/-- A message that is read is one of the protocol, of the kind that its first octet tells. The
checks of the source are passed one after the other, and the body is what the envelope holds. -/
theorem decodeNd_eq_ok {e : Envelope} {nd : Nd} (h : decodeNd e = .ok nd) :
    ∃ t, transport e = .ok t ∧ t.protocol = 58 ∧ nd.kind = octet t.bytes 0 ∧ nd.body = t.bytes := by
  unfold decodeNd at h
  cases ht : transport e with
  | error err =>
    rw [ht] at h
    cases h
  | ok t =>
    rw [ht] at h
    simp only [bind, Except.bind] at h
    split at h
    · cases h
    · next hcond =>
      have hp : t.protocol = 58 := by
        by_contra hne
        exact hcond (.inl hne)
      split at h
      · cases h
      · split at h
        · cases h
        · split at h
          · cases h
          · split at h
            · cases h
            · split at h
              · cases h
              · split at h
                · cases h
                · split at h
                  · cases h
                  · cases h
                    exact ⟨t, rfl, hp, rfl, rfl⟩

/-- A message that is read is of the kind that was written. The kind is the first octet of the body,
which the packet holds behind its header. -/
theorem kind_of_icmpPacket {source destination : Ipv6Addr} {hop : UInt8} {body b : Bytes}
    {e : Envelope} {nd : Nd} (h : icmpPacket source destination hop body = .ok b)
    (he : envelope .rawIpv6 b = .ok e) (hnd : decodeNd e = .ok nd) : nd.kind = octet body 0 := by
  have hlen : 4 ≤ body.length := by
    by_contra hlt
    rw [icmpPacket, if_pos (by omega)] at h
    cases h
  rw [icmpPacket_eq hlen] at h
  rw [envelope_ipv6Packet h] at he
  cases he
  obtain ⟨t, ht, -, hkind, -⟩ := decodeNd_eq_ok hnd
  rw [transport_icmp rfl] at ht
  cases ht
  rw [hkind, octet_filled hlen (by omega)]

/-! ## Advertisements -/

namespace Advertisement

/-- What is left after duplicates of a member was there before. -/
theorem mem_dedupAfter {α K : Type} [DecidableEq K] {f : α → K} {x : α} {l : List α} {a : α}
    (h : x ∈ dedupBy.dedupAfter f a l) : x ∈ l := by
  induction l generalizing a with
  | nil => exact h
  | cons b l ih =>
    rw [dedupBy.dedupAfter] at h
    split at h
    · exact List.mem_cons_of_mem _ (ih h)
    · rcases List.mem_cons.1 h with rfl | h
      · exact List.mem_cons_self
      · exact List.mem_cons_of_mem _ (ih h)

/-- What is left without duplicates was there before. -/
theorem mem_of_mem_dedupBy {α K : Type} [DecidableEq K] {f : α → K} {x : α} {l : List α}
    (h : x ∈ dedupBy f l) : x ∈ l := by
  cases l with
  | nil => exact h
  | cons a l =>
    rcases List.mem_cons.1 h with rfl | h
    · exact List.mem_cons_self
    · exact List.mem_cons_of_mem _ (mem_dedupAfter h)

variable {ad : Advertisement}

/-- The prefix options in the order of the message. -/
def sortedPios (ad : Advertisement) : List Pio :=
  ad.pios.mergeSort fun a b => prefixLe a.prefix_ b.prefix_

/-- The routes in the order of the message. -/
def sortedRios (ad : Advertisement) : List Rio :=
  dedupBy Rio.prefix_ (ad.rios.mergeSort fun a b => prefixLe a.prefix_ b.prefix_)

/-- Sorting keeps the prefixes. -/
theorem mem_sortedPios {p : Pio} : p ∈ ad.sortedPios ↔ p ∈ ad.pios := by
  rw [sortedPios, List.mem_mergeSort]

/-- The routes that are sent are among those of the advertisement. -/
theorem mem_of_mem_sortedRios {r : Rio} (h : r ∈ ad.sortedRios) : r ∈ ad.rios := by
  have := mem_of_mem_dedupBy h
  rwa [List.mem_mergeSort] at this

/-- The options of the link, before those of prefixes and routes. -/
def linkOptions (ad : Advertisement) : List Bytes :=
  (match ad.mac with | some mac => [[1, 1] ++ mac.1] | none => []) ++
    (if ad.link = .ail then [] else [[5, 1, 0, 0] ++ toBe 4 ad.mtu])

/-- The options of an advertisement, in the order in which they are sent. -/
theorem ownOptions_eq : ad.ownOptions =
    ad.linkOptions ++ ad.sortedPios.map Pio.encode ++ ad.sortedRios.map Rio.encode := rfl

/-- The options about the link take eight octets each, and are of two types. They are the source's
address and the MTU, each of which may be missing. -/
theorem mem_linkOptions {o : Bytes} (h : o ∈ ad.linkOptions) :
    o.length = 8 ∧ octet o 1 = 1 ∧ (octet o 0 = 1 ∨ octet o 0 = 5) := by
  rcases List.mem_append.1 h with h | h
  · cases hm : ad.mac with
    | none =>
      rw [hm] at h
      cases h
    | some mac =>
      rw [hm] at h
      rw [List.mem_singleton.1 h]
      exact ⟨by simp [mac.2], rfl, .inl rfl⟩
  · split at h
    · cases h
    · rw [List.mem_singleton.1 h]
      exact ⟨by simp, rfl, .inr rfl⟩

/-- The options are well formed. One case for each sort of option, whose length octet says how many
units it takes. -/
theorem wellFormed_ownOptions {o : Bytes} (h : o ∈ ad.ownOptions) : WellFormed o := by
  rw [ownOptions_eq] at h
  rcases List.mem_append.1 h with h | h
  · rcases List.mem_append.1 h with h | h
    · obtain ⟨hl, h1, -⟩ := mem_linkOptions h
      rw [WellFormed, hl, h1]
      decide
    · obtain ⟨p, -, rfl⟩ := List.mem_map.1 h
      have hl : p.encode.length = 32 := by simp [Pio.encode, p.prefix_.address.2]
      rw [WellFormed, hl, show octet p.encode 1 = 4 from rfl]
      decide
  · obtain ⟨r, -, rfl⟩ := List.mem_map.1 h
    have hl := r.length_encode
    rw [WellFormed, hl, show octet r.encode 1 = UInt8.ofNat (Rio.units r.prefix_.length) from rfl]
    rcases Rio.units_cases r.prefix_.length with ⟨hu, -⟩ | ⟨hu, -⟩ | ⟨hu, -⟩ <;> rw [hu] <;> decide

/-- Only an option of this type is read as a prefix. -/
theorem Pio.decode_eq_none {o : Bytes} (h : octet o 0 ≠ 3) : Pio.decode o = none := by
  rw [Pio.decode, if_pos (.inr (.inl h))]

/-- Only an option of this type is read as a route. -/
theorem Rio.decode_eq_none {o : Bytes} (h : octet o 0 ≠ 24) : Rio.decode o = none := by
  rw [Rio.decode, if_pos (.inr (.inl h))]

/-- The prefix options of a message are those that were written. The other options have other types,
so they are not decoded as prefixes. -/
theorem filterMap_pio : ad.ownOptions.filterMap Pio.decode =
    ad.sortedPios.filterMap fun p => Pio.decode p.encode := by
  have hlink : ad.linkOptions.filterMap Pio.decode = [] := by
    refine List.filterMap_eq_nil_iff.2 fun o ho => Pio.decode_eq_none ?_
    rcases (mem_linkOptions ho).2.2 with h | h <;> rw [h] <;> decide
  have hrios : (ad.sortedRios.map Rio.encode).filterMap Pio.decode = [] := by
    refine List.filterMap_eq_nil_iff.2 fun o ho => Pio.decode_eq_none ?_
    obtain ⟨r, -, rfl⟩ := List.mem_map.1 ho
    exact show (24 : UInt8) ≠ 3 by decide
  rw [ownOptions_eq, List.filterMap_append, List.filterMap_append, hlink, hrios, List.append_nil,
    List.nil_append, List.filterMap_map]
  rfl

/-- An advertisement to the infrastructure link is read as it was written. The header, the flags and
the options are at their places, and the services add nothing on that link. -/
theorem decode_encode {b : Bytes} (hl : ad.link = .ail) (h : ad.encode = .ok b) :
    ∃ e nd, envelope .rawIpv6 b = .ok e ∧ e.source = ad.source ∧ e.destination = ad.destination ∧
      decodeNd e = .ok nd ∧ nd.kind = 134 ∧ octet nd.body 5 = 2 ||| (ad.mo &&& 0xc0) ∧
      nd.options = ad.ownOptions.map fun o => ⟨octet o 0, o⟩ := by
  simp only [encode, encodeServices, List.length_nil, ne_eq, not_true_eq_false, or_self, and_false,
    if_false, Nat.not_lt_zero, List.mapM_nil, pure, Except.pure, bind, Except.bind,
    List.flatten_nil,
    List.append_nil, gt_iff_lt, Nat.not_lt_zero] at h
  split at h
  · cases h
  · next hs =>
    split at h
    · cases h
    · have hlocal : ad.source.linkLocal = true := by
        by_contra hne
        exact hs (.inr (by simpa using hne))
      obtain ⟨e, he, hsrc, hdst, hnd⟩ := decodeNd_ra h (by simp [header]) rfl rfl hlocal
        fun o ho => wellFormed_ownOptions ho
      refine ⟨e, _, he, hsrc, hdst, hnd, rfl, ?_, rfl⟩
      rw [octet_filled (by simp [header]) (by omega)]
      simp [header, hl, octet]

end Advertisement

end Ip

end SnacMachine
