import SnacMachine.Ip.RaWire
import SnacMachine.Nat64.Errors

/-!
# Checksums of quoted packets

An error quotes the packet that it is about, and the translator rewrites the addresses, the ports
and the protocol of the quote. It cannot sum up the quote anew, since it may have only its start;
`adjust` changes the checksum by the difference. In the arithmetic of the checksum both 0 and 65535
are zero, so that the result is right but for one packet: an ICMP message of zeros alone
(`quotes_verify_iff`).
-/

namespace SnacMachine.Nat64

open Ip

/-! ## Sums of words -/

/-- Two octets stand for a number of 16 bits. -/
theorem ofBe_pair_le (x y : UInt8) : ofBe [x, y] ≤ 65535 := by
  have := ofBe_lt [x, y]
  simp only [List.length_cons, List.length_nil] at this
  omega

/-- A sum and the sum of the complements make up all ones, word by word. By recursion on pairs of
octets; an odd one is the high octet of its word. -/
theorem complementSum_add (b : Bytes) :
    complementSum b + wordSum b = 65535 * ((b.length + 1) / 2) := by
  match b with
  | [] => rfl
  | [x] =>
    have := x.toNat_lt
    simp only [complementSum, wordSum, List.length_cons, List.length_nil]
    omega
  | x :: y :: b =>
    have := ofBe_pair_le x y
    have ih := complementSum_add b
    simp only [complementSum, wordSum, List.length_cons]
    omega

/-- Only zeros sum up to zero. By recursion on pairs of octets, whose word is zero only if both
are. -/
theorem wordSum_eq_zero {b : Bytes} : wordSum b = 0 ↔ ∀ x ∈ b, x = 0 := by
  match b with
  | [] => simp [wordSum]
  | [x] =>
    simp only [wordSum, List.mem_singleton, forall_eq]
    rw [← UInt8.toNat_inj]
    show x.toNat * 256 = 0 ↔ x.toNat = 0
    omega
  | x :: y :: b =>
    have ih := wordSum_eq_zero (b := b)
    have hxy : ofBe [x, y] = x.toNat * 256 + y.toNat := by simp [ofBe]
    simp only [wordSum, hxy, List.mem_cons, forall_eq_or_imp]
    rw [← ih, ← UInt8.toNat_inj, ← UInt8.toNat_inj]
    show _ ↔ x.toNat = 0 ∧ y.toNat = 0 ∧ _
    omega

/-- A checksum is right if the words sum up to a multiple of 65535 other than zero. Folding the
carries keeps the remainder, and gives zero for zero only. -/
theorem checksum_eq_zero {b : Bytes} :
    checksum b = 0 ↔ 0 < wordSum b ∧ wordSum b % 65535 = 0 := by
  obtain ⟨hle, hmod, hpos⟩ := foldCarries_spec (wordSum b)
  rw [checksum]
  constructor
  · intro h
    have hfold : foldCarries (wordSum b) = 65535 := by omega
    refine ⟨Nat.pos_of_ne_zero fun h0 => ?_, by omega⟩
    rw [h0, foldCarries, if_neg (by omega)] at hfold
    cases hfold
  · rintro ⟨h0, hm⟩
    have := hpos h0
    omega

/-- The octets before, in and after a 16-bit field. -/
theorem eq_field {b : Bytes} {pos : Nat} (h : pos + 2 ≤ b.length) :
    b = b.take pos ++ [octet b pos, octet b (pos + 1)] ++ b.drop (pos + 2) := by
  conv_lhs => rw [← List.take_append_drop pos b]
  have h₀ : pos < b.length := by omega
  have h₁ : pos + 1 < b.length := by omega
  rw [List.append_assoc, List.drop_eq_getElem_cons h₀, List.drop_eq_getElem_cons h₁]
  simp [octet, List.getD_eq_getElem?_getD, h₀, h₁]

section

variable {b new : Bytes} {pos c : Nat}

/-- A word in the middle is one part of the sum. -/
theorem wordSum_field (hpos : pos % 2 = 0) (h : pos + 2 ≤ b.length) :
    wordSum b = wordSum (b.take pos) + u16At b pos + wordSum (b.drop (pos + 2)) := by
  have hlen : (b.take pos).length % 2 = 0 := by
    rw [List.length_take]
    omega
  conv_lhs => rw [eq_field h]
  rw [List.append_assoc, wordSum_append hlen]
  simp only [List.cons_append, List.nil_append, wordSum, u16At]
  omega

/-- Writing a 16-bit field changes the sum by the difference. The sum is split before and behind the
field, which is a word of its own. -/
theorem wordSum_overwrite (hpos : pos % 2 = 0) (h : pos + 2 ≤ b.length) (hc : c < 65536) :
    wordSum (overwrite b pos (toBe 2 c)) + u16At b pos = wordSum b + c := by
  have hlen : (b.take pos).length % 2 = 0 := by
    rw [List.length_take]
    omega
  have hfield : wordSum (overwrite b pos (toBe 2 c)) =
      wordSum (b.take pos) + c + wordSum (b.drop (pos + 2)) := by
    rw [overwrite, length_toBe, List.append_assoc, wordSum_append hlen, toBe_two]
    simp only [List.cons_append, List.nil_append, wordSum]
    rw [ofBe_two _ hc]
    omega
  rw [hfield, wordSum_field hpos h]
  omega

/-- The octets outside of a replaced run stay. -/
theorem octet_overwrite {i : Nat} (hlen : pos + new.length ≤ b.length)
    (h : i < pos ∨ pos + new.length ≤ i) : octet (overwrite b pos new) i = octet b i := by
  rw [octet, octet, List.getD_eq_getElem?_getD, List.getD_eq_getElem?_getD,
    getElem?_overwrite hlen h]

/-- The words outside of a replaced run stay. -/
theorem u16At_overwrite {i : Nat} (hlen : pos + new.length ≤ b.length)
    (h : i + 2 ≤ pos ∨ pos + new.length ≤ i) : u16At (overwrite b pos new) i = u16At b i := by
  rw [u16At, u16At, octet_overwrite hlen (by omega), octet_overwrite hlen (by omega)]

end

/-! ## Pseudo headers -/

/-- The IPv4 pseudo header has whole words. -/
theorem length_pseudo4 (src dst : Ipv4Addr) (p : UInt8) (len : Nat) :
    (pseudo4 src dst p len).length % 2 = 0 := by
  rw [pseudo4]
  split
  · rfl
  · simp [src.2, dst.2]

/-- The IPv6 pseudo header has whole words. -/
theorem length_pseudo6 (src dst : Ipv6Addr) (p : UInt8) (len : Nat) :
    (pseudo6 src dst p len).length % 2 = 0 := by
  simp [pseudo6, src.2, dst.2]

/-- The IPv4 pseudo header takes at most 40 octets. -/
theorem length_pseudo4_le (src dst : Ipv4Addr) (p : UInt8) (len : Nat) :
    (pseudo4 src dst p len).length ≤ 40 := by
  rw [pseudo4]
  split
  · simp
  · simp [src.2, dst.2]

/-- The IPv6 pseudo header takes at most 40 octets. -/
theorem length_pseudo6_le (src dst : Ipv6Addr) (p : UInt8) (len : Nat) :
    (pseudo6 src dst p len).length ≤ 40 := by
  simp [pseudo6, src.2, dst.2]

/-- The IPv4 pseudo header does not sum up to zero, since it has the protocol. -/
theorem wordSum_pseudo4_pos (src dst : Ipv4Addr) {p : UInt8} (len : Nat) (hp : p ≠ 1) (h0 : p ≠ 0) :
    0 < wordSum (pseudo4 src dst p len) := by
  refine Nat.pos_of_ne_zero fun h => h0 ?_
  rw [pseudo4, if_neg hp] at h
  exact wordSum_eq_zero.1 h p (by simp)

/-- The IPv6 pseudo header does not sum up to zero, since it has the protocol. -/
theorem wordSum_pseudo6_pos (src dst : Ipv6Addr) {p : UInt8} (len : Nat) (h0 : p ≠ 0) :
    0 < wordSum (pseudo6 src dst p len) := by
  refine Nat.pos_of_ne_zero fun h => h0 ?_
  rw [pseudo6] at h
  exact wordSum_eq_zero.1 h p (by simp)

/-- The checksum over IPv4 is one of the pseudo header and the message. -/
theorem checksum4_eq (src dst : Ipv4Addr) (p : UInt8) (b : Bytes) :
    checksum4 src dst p b = checksum (pseudo4 src dst p b.length ++ b) := by
  rw [checksum4, pseudo4]
  split <;> rfl

/-- The checksum over IPv6 is one of the pseudo header and the message. -/
theorem checksum6_eq (src dst : Ipv6Addr) (p : UInt8) (b : Bytes) :
    checksum6 src dst p b = checksum (pseudo6 src dst p b.length ++ b) := by
  have hlast : wordSum [0, 0, 0, p] = p.toNat := by simp [wordSum, ofBe]
  rw [checksum6, checksum, wordSum_append (length_pseudo6 _ _ _ _), pseudo6,
    wordSum_append (by simp [src.2, dst.2]), wordSum_append (by simp [src.2, dst.2]),
    wordSum_append (by simp [src.2]), hlast]

/-! ## Adjusting a checksum -/

/-- Checksums are at whole words. -/
theorem checksumOffset_even (p : UInt8) : checksumOffset p % 2 = 0 := by
  unfold checksumOffset
  split
  · rfl
  · split <;> rfl

/-- The two ways to write a zero sum are equal modulo 65535. -/
theorem nonzero_mod {n : Nat} : nonzero n % 65535 = n % 65535 := by
  unfold nonzero
  split
  · next h => rw [h]
  · rfl

/-- Neither way to write a zero sum exceeds 16 bits. -/
theorem nonzero_lt {n : Nat} (h : n < 65536) : nonzero n < 65536 := by
  unfold nonzero
  split <;> omega

/-- A quote and the octets of the translated one, which differ outside the checksum only. -/
structure Relabelled (p : UInt8) (old b : Bytes) : Prop where
  length : b.length = old.length
  field : checksumOffset p + 2 ≤ old.length
  same : u16At b (checksumOffset p) = u16At old (checksumOffset p)

section

variable {p : UInt8} {old b before after : Bytes} {len : Nat}

/-- The adjusted checksum is one under the new pseudo header. Where UDP has none, it is taken anew;
otherwise the old words are subtracted from the sum and the new ones added, which leaves it right
modulo 65535. -/
theorem adjust_verifies (h : Relabelled p old b) (hlen : b.length = len)
    (hafter : after.length % 2 = 0)
    (hbound : adjustedSum (u16At old (checksumOffset p)) before old after b < 2 ^ 32)
    (hvalid : wordSum (before ++ old) % 65535 = 0 ∨ p = 17 ∧ u16At old (checksumOffset p) = 0) :
    ∃ c < 65536, adjust p old b before after len =
        .ok (overwrite b (checksumOffset p) (toBe 2 c)) ∧
      wordSum (after ++ overwrite b (checksumOffset p) (toBe 2 c)) % 65535 = 0 ∧
      (p ≠ 17 → wordSum (after ++ b) = u16At b (checksumOffset p) → c = 0) := by
  have hfit : checksumOffset p + 2 ≤ b.length := h.length ▸ h.field
  have heven := checksumOffset_even p
  rw [adjust]
  simp only
  rw [if_neg (by omega)]
  split
  · next hz =>
    -- the sum is taken anew, the field of the octets being zero
    have hb0 : u16At b (checksumOffset p) = 0 := h.same.trans hz.2
    rw [if_neg (not_not.2 hlen)]
    have hlt : nonzero (checksum (after ++ b)) < 65536 := nonzero_lt (checksum_lt _)
    refine ⟨_, hlt, rfl, ?_, fun h17 => absurd hz.1 h17⟩
    have hover := wordSum_overwrite heven hfit hlt
    have hnz := nonzero_mod (n := checksum (after ++ b))
    obtain ⟨hle, hmod, -⟩ := foldCarries_spec (wordSum (after ++ b))
    rw [wordSum_append hafter] at hmod hle ⊢
    rw [checksum, wordSum_append hafter] at hnz
    rw [checksum, wordSum_append hafter] at hover ⊢
    omega
  · next hz =>
    have hsum : wordSum (before ++ old) % 65535 = 0 := by
      rcases hvalid with hv | hv
      · exact hv
      · exact absurd hv hz
    have hcomp := complementSum_add (before ++ old)
    have hold : u16At old (checksumOffset p) < 65536 := u16At_lt _ _
    rw [Nat.mod_eq_of_lt hbound]
    set sum := adjustedSum (u16At old (checksumOffset p)) before old after b with hdef
    obtain ⟨hle, hmod, hpos⟩ := foldCarries_spec sum
    have hlt : transportSum p (65535 - foldCarries sum) < 65536 := by
      unfold transportSum
      split
      · exact nonzero_lt (by omega)
      · omega
    have htmod : transportSum p (65535 - foldCarries sum) % 65535 =
        (65535 - foldCarries sum) % 65535 := by
      unfold transportSum
      split
      · exact nonzero_mod
      · rfl
    have hover := wordSum_overwrite heven hfit hlt
    rw [h.same] at hover
    rw [adjustedSum] at hdef
    refine ⟨_, hlt, rfl, ?_, ?_⟩
    · rw [wordSum_append hafter] at hdef ⊢
      omega
    · intro h17 hrest
      rw [transportSum, if_neg h17]
      rw [hrest, h.same] at hdef
      have := hpos (by omega)
      omega

/-- The 32 bits of the sum are enough: the octets after it differ from those before it in few
words. -/
theorem adjustedSum_lt (c : Nat) (hlen : old.length ≤ 65535) (hbefore : before.length ≤ 40)
    (hafter : after.length ≤ 40) (heven : after.length % 2 = 0)
    (hb : wordSum b ≤ wordSum old + 2 * 65535) (heven' : before.length % 2 = 0) :
    adjustedSum c before old after b < 2 ^ 32 := by
  have hcomp := complementSum_add (before ++ old)
  have hcomp' := complementSum_add after
  rw [wordSum_append heven', List.length_append] at hcomp
  rw [adjustedSum, wordSum_append heven]
  omega

end

/-! ## Relabelling -/

section

variable {p : UInt8} {b : Bytes} {port : UInt16}

/-- Replacing a word adds at most a word to the sum. -/
theorem wordSum_overwrite_le {pos c : Nat} (hpos : pos % 2 = 0) (h : pos + 2 ≤ b.length)
    (hc : c < 65536) : wordSum (overwrite b pos (toBe 2 c)) ≤ wordSum b + 65535 := by
  have := wordSum_overwrite hpos h hc
  omega

/-- Replacing the first octet adds at most a word to the sum. -/
theorem wordSum_overwrite_head_le (h : 2 ≤ b.length) (x : UInt8) :
    wordSum (overwrite b 0 [x]) ≤ wordSum b + 65535 := by
  match b, h with
  | y :: z :: b, _ =>
    have := ofBe_pair_le x z
    simp only [overwrite, List.take_zero, List.nil_append, List.length_singleton, Nat.zero_add,
      List.drop_one, List.tail_cons, List.singleton_append, wordSum]
    omega

/-- What a change of the type and the identifier of a message does. Two words change, so the sum
grows by two words at most. -/
theorem relabel_echo (hp : checksumOffset p = 2) (hlong : 8 ≤ b.length) (x : UInt8) :
    Relabelled p b (overwrite (overwrite b 0 [x]) 4 (toBe 2 port.toNat)) ∧
      wordSum (overwrite (overwrite b 0 [x]) 4 (toBe 2 port.toNat)) ≤ wordSum b + 2 * 65535 := by
  have hport := port.toNat_lt
  have hlen : (overwrite b 0 [x]).length = b.length := length_overwrite (by simp; omega)
  have hfit : 4 + (toBe 2 port.toNat).length ≤ (overwrite b 0 [x]).length := by
    rw [length_toBe]
    omega
  refine ⟨⟨(length_overwrite hfit).trans hlen, by omega, ?_⟩, ?_⟩
  · rw [hp, u16At_overwrite hfit (by omega), u16At_overwrite (by simp; omega) (by simp)]
  · have h₁ := wordSum_overwrite_head_le (b := b) (by omega) x
    have h₂ := wordSum_overwrite_le (b := overwrite b 0 [x]) (show 4 % 2 = 0 from rfl)
      (by omega) hport
    omega

/-- What a change of a port does. One word changes, which stands before the checksum. -/
theorem relabel_port {pos : Nat} (hpos : pos % 2 = 0) (hbefore : pos + 2 ≤ checksumOffset p)
    (hfield : checksumOffset p + 2 ≤ b.length) :
    Relabelled p b (overwrite b pos (toBe 2 port.toNat)) ∧
      wordSum (overwrite b pos (toBe 2 port.toNat)) ≤ wordSum b + 2 * 65535 := by
  have hport := port.toNat_lt
  have hfit : pos + (toBe 2 port.toNat).length ≤ b.length := by
    rw [length_toBe]
    omega
  refine ⟨⟨length_overwrite hfit, hfield, ?_⟩, ?_⟩
  · rw [u16At_overwrite hfit (by rw [length_toBe]; omega)]
  · have := wordSum_overwrite_le (b := b) hpos (by omega) hport
    omega

/-- What either change does: the type and the identifier of an echo message, which `icmp` carries,
are changed, and the port of a segment or a datagram. -/
theorem relabel_spec (icmp x : UInt8) (pos : Nat) (hicmp : checksumOffset icmp = 2)
    (hpos : pos % 2 = 0 ∧ pos ≤ 2) (hp : p ∈ [6, 17, icmp]) (hlong : 8 ≤ b.length)
    (hfield : checksumOffset p + 2 ≤ b.length) :
    let b' := if p = icmp then overwrite (overwrite b 0 [x]) 4 (toBe 2 port.toNat)
      else overwrite b pos (toBe 2 port.toNat)
    Relabelled p b b' ∧ wordSum b' ≤ wordSum b + 2 * 65535 := by
  intro b'
  by_cases hecho : p = icmp
  · rw [show b' = overwrite (overwrite b 0 [x]) 4 (toBe 2 port.toNat) from if_pos hecho]
    exact relabel_echo (hecho ▸ hicmp) hlong x
  · have hafter : 6 ≤ checksumOffset p := by
      simp only [List.mem_cons, List.not_mem_nil, or_false, hecho] at hp
      rcases hp with rfl | rfl
      · decide
      · decide
    rw [show b' = overwrite b pos (toBe 2 port.toNat) from if_neg hecho]
    exact relabel_port hpos.1 (by omega) hfield

/-- A quote on the way to the stub link is relabelled: its type and port change and its checksum
with them. -/
theorem relabel4_spec (port : UInt16) (hp : p ∈ [6, 17, 58]) (hlong : 8 ≤ b.length)
    (hfield : checksumOffset p + 2 ≤ b.length) :
    Relabelled p b (relabel4 p b port) ∧ wordSum (relabel4 p b port) ≤ wordSum b + 2 * 65535 :=
  relabel_spec 58 _ 0 rfl (by decide) hp hlong hfield

/-- A quote on the way from the stub link is relabelled: its type and port change and its checksum
with them. -/
theorem relabel6_spec (port : UInt16) (hp : p ∈ [6, 17, 1]) (hlong : 8 ≤ b.length)
    (hfield : checksumOffset p + 2 ≤ b.length) :
    Relabelled p b (relabel6 p b port) ∧ wordSum (relabel6 p b port) ≤ wordSum b + 2 * 65535 :=
  relabel_spec 1 _ 2 rfl (by decide) hp hlong hfield

end

/-! ## Quotes of IPv4 packets -/

/-- A quoted IPv4 packet that is complete and no fragment, of a transport that is translated, with a
transport checksum that is right, or with none where it may have none. -/
structure Sound4 (q : Packet) : Prop where
  parsed : ∃ b, Packet.parseInner b true = .ok q
  complete : u16At q.bytes 2 = q.headerLen + q.payload.length
  unfragmented : q.fragmentOffset = 0 ∧ q.moreFragments = false
  transport : q.protocol ∈ [6, 17, 1]
  ports : (quotedPorts q.protocol q.payload).isSome
  field : checksumOffset q.protocol + 2 ≤ q.payload.length
  sum : checksum4 q.source q.destination q.protocol q.payload = 0 ∨
    q.protocol = 17 ∧ u16At q.payload 6 = 0

/-- The quote is an IPv6 packet between two addresses, and its transport checksum is right. -/
def Verifies6 (src dst : Ipv6Addr) (quote : Except IoError Bytes) : Prop :=
  ∃ out e, quote = .ok out ∧ envelope .rawIpv6 out = .ok e ∧ e.packet = out ∧ e.source = src ∧
    e.destination = dst ∧ checksum6 e.source e.destination e.nextHeader e.payload = 0

/-- A quote with ports has at least eight octets. -/
theorem quotedPorts_long {p : UInt8} {b : Bytes} (h : (quotedPorts p b).isSome) : 8 ≤ b.length := by
  by_contra hb
  rw [quotedPorts, if_pos (by omega)] at h
  cases h

/-- A quoted ICMP message with an identifier is an echo. -/
theorem quotedPorts_echo {b : Bytes} (h : (quotedPorts 58 b).isSome) :
    octet b 1 = 0 ∧ (octet b 0 = 128 ∨ octet b 0 = 129) := by
  rw [quotedPorts, if_neg (Nat.not_lt.2 (quotedPorts_long h)), if_neg (by decide),
    if_neg (show ¬ (58 : UInt8) = 1 by decide)] at h
  split at h
  · next hecho => exact ⟨hecho.2.1, by simpa using hecho.2.2⟩
  · cases h

/-- The header that the quote of an IPv4 packet gets. Its fields are put together as the source
does, around the adjusted payload. -/
theorem quote4To6_eq {q : Packet} {src dst : Ipv6Addr} {port : UInt16} {p : UInt8} {b : Bytes}
    (hp : p = if q.protocol = 1 then 58 else q.protocol) (hmore : q.moreFragments = false)
    (hlen : u16At q.bytes 2 - q.headerLen = b.length) (hlt : b.length < 65536)
    (hadjust : adjust p q.payload (relabel4 p q.payload port)
      (pseudo4 q.source q.destination q.protocol b.length) (pseudo6 src dst p b.length) b.length =
        .ok b) :
    quote4To6 q src dst port =
    .ok ([(0x60 : UInt8) ||| q.trafficClass >>> 4, q.trafficClass <<< 4, 0, 0] ++
      toBe 2 b.length ++ [p, q.ttl] ++ src.1 ++ dst.1 ++ b) := by
  rw [quote4To6]
  simp only [← hp, hlen, hadjust, bind, Except.bind]
  rw [ipv6Packet, if_neg (by omega)]
  simp only [hmore, toBe_two]
  simp [overwrite, octet]

/-- An IPv4 quote with a right checksum has a right one after its translation. The quote is
relabelled (`relabel4_spec`), and the checksum is adjusted from the old pseudo header to the new one
(`adjust_verifies`). -/
theorem quote4_verifies {q : Packet} (h : Sound4 q) (src dst : Ipv6Addr) (port : UInt16) :
    Verifies6 src dst (quote4To6 q src dst port) := by
  have hlong := quotedPorts_long h.ports
  have hlen : u16At q.bytes 2 - q.headerLen = q.payload.length := by
    rw [h.complete]
    omega
  have hlt : q.payload.length < 65536 := by
    have := u16At_lt q.bytes 2
    have := h.complete
    omega
  obtain ⟨p, hp⟩ : ∃ p, p = if q.protocol = 1 then 58 else q.protocol := ⟨_, rfl⟩
  have hmem : p ∈ [6, 17, 58] ∧ checksumOffset p = checksumOffset q.protocol ∧
      (q.protocol = 17 → p = 17) := by
    have ht := h.transport
    simp only [List.mem_cons, List.not_mem_nil, or_false] at ht
    rcases ht with ht | ht | ht <;> rw [ht] at hp ⊢ <;> subst hp <;> decide
  obtain ⟨hrel, hle⟩ := relabel4_spec port hmem.1 hlong (hmem.2.1 ▸ h.field)
  have hbound := adjustedSum_lt (u16At q.payload (checksumOffset p)) (Nat.le_of_lt_succ hlt)
    (length_pseudo4_le q.source q.destination q.protocol q.payload.length)
    (length_pseudo6_le src dst p q.payload.length) (length_pseudo6 _ _ _ _) hle
    (length_pseudo4 _ _ _ _)
  have hvalid : wordSum (pseudo4 q.source q.destination q.protocol q.payload.length ++ q.payload) %
      65535 = 0 ∨ p = 17 ∧ u16At q.payload (checksumOffset p) = 0 := by
    rcases h.sum with hs | hs
    · rw [checksum4_eq] at hs
      exact .inl (checksum_eq_zero.1 hs).2
    · refine .inr ⟨hmem.2.2 hs.1, ?_⟩
      rw [hmem.2.1, hs.1]
      exact hs.2
  obtain ⟨c, -, hadjust, hsum, -⟩ := adjust_verifies hrel hrel.length (length_pseudo6 _ _ _ _)
    hbound hvalid
  obtain ⟨b, hb⟩ : ∃ b, b = overwrite (relabel4 p q.payload port) (checksumOffset p) (toBe 2 c) :=
    ⟨_, rfl⟩
  have hblen : b.length = q.payload.length := by
    rw [hb, length_overwrite (by rw [length_toBe, hrel.length]; exact hrel.field), hrel.length]
  rw [← hb] at hadjust hsum
  rw [← hblen] at hadjust
  have hquote := quote4To6_eq hp h.unfragmented.2 (hlen.trans hblen.symm) (hblen ▸ hlt) hadjust
  have hversion : ((0x60 : UInt8) ||| q.trafficClass >>> 4) >>> 4 = 6 :=
    octets_forall (p := fun x => ((0x60 : UInt8) ||| x >>> 4) >>> 4 = 6) (by decide +kernel)
      q.trafficClass
  refine ⟨_, _, hquote, envelope_written rfl hversion (hblen ▸ hlt), rfl, rfl, rfl, ?_⟩
  have h0 : p ≠ 0 := by
    rintro rfl
    exact absurd hmem.1 (by decide)
  rw [checksum6_eq, checksum_eq_zero, hblen]
  refine ⟨?_, hsum⟩
  rw [wordSum_append (length_pseudo6 _ _ _ _)]
  exact Nat.lt_of_lt_of_le (wordSum_pseudo6_pos src dst _ h0) (Nat.le_add_right _ _)

/-! ## Quotes of IPv6 packets -/

/-- A quoted IPv6 packet that is complete and no fragment, of a transport that is translated, with a
transport checksum that is right. -/
structure Sound6 (q : Quote6) : Prop where
  parsed : ∃ b, Quote6.parse b = .ok q
  complete : q.payload.length = q.len
  unfragmented : q.fragment = none
  transport : q.protocol ∈ [6, 17, 58]
  ports : (quotedPorts q.protocol q.payload).isSome
  field : checksumOffset q.protocol + 2 ≤ q.payload.length
  sum : checksum6 q.source q.dest q.protocol q.payload = 0

/-- The quote is an IPv4 packet between two addresses, and its transport checksum is right. -/
def Verifies4 (src dst : Ipv4Addr) (quote : Except IoError Bytes) : Prop :=
  ∃ out p, quote = .ok out ∧ Packet.parse out = .ok p ∧ p.bytes = out ∧ p.source = src ∧
    p.destination = dst ∧ checksum4 p.source p.destination p.protocol p.payload = 0

/-- An echo reply whose identifier, once translated, sequence number and data are zero. -/
def ZeroReply (q : Quote6) (port : UInt16) : Prop :=
  q.protocol = 58 ∧ octet q.payload 0 = 129 ∧ port = 0 ∧ ∀ x ∈ q.payload.drop 6, x = 0

/-- The payload of an IPv6 quote fits an IPv4 packet. -/
theorem Quote6.parse_len {b : Bytes} {q : Quote6} (h : Quote6.parse b = .ok q) :
    q.len ≤ 65515 := by
  unfold Quote6.parse at h
  simp only [bind, Except.bind] at h
  repeat' split at h
  all_goals first
    | next hlen =>
      cases h
      dsimp only
      omega
    | cases h

/-- An IPv4 address has four octets. -/
theorem exists_octets4 (a : Ipv4Addr) : ∃ w x y z, a.1 = [w, x, y, z] := by
  obtain ⟨b, hb⟩ := a
  obtain ⟨w, x, y, z, t, rfl⟩ := exists_four (b := b) (by omega)
  cases t with
  | nil => exact ⟨w, x, y, z, rfl⟩
  | cons u t =>
    simp only [List.length_cons] at hb
    omega

/-- The flags of a packet that is no fragment: one that is long is not to be cut. -/
def lengthFlags (len : Nat) : UInt8 := if len + 20 > 1260 then 0x40 else 0

/-- Packets that must not be fragmented say so if they are long. -/
theorem lengthFlags_cases (len : Nat) : lengthFlags len = 0 ∨ lengthFlags len = 0x40 := by
  unfold lengthFlags
  split
  · exact .inr rfl
  · exact .inl rfl

/-- An IPv4 header without options, but for its checksum. -/
def plainHeader (class_ : UInt8) (len id : Nat) (flags ttl p : UInt8)
    (src dst : Ipv4Addr) : Bytes :=
  [0x45, class_] ++ toBe 2 (len + 20) ++ toBe 2 id ++ [flags, 0, ttl, p, 0, 0] ++ src.1 ++ dst.1

/-- An IPv4 packet without options. -/
def plainPacket (class_ : UInt8) (id : Nat) (flags ttl p : UInt8) (src dst : Ipv4Addr) (b : Bytes) :
    Bytes :=
  let header := plainHeader class_ b.length id flags ttl p src dst
  overwrite header 10 (toBe 2 (checksum header)) ++ b

/-- A packet without options is read as it is written: the header is written out octet by octet, and
the checksum that was filled in is right (`checksum_overwrite`). -/
theorem parse_plain (class_ : UInt8) (id : Nat) {flags : UInt8} (ttl p : UInt8) (src dst : Ipv4Addr)
    {b : Bytes} (hlen : b.length ≤ 65515) (hflags : flags = 0 ∨ flags = 0x40) :
    Packet.parse (plainPacket class_ id flags ttl p src dst b) = .ok {
      source := src
      destination := dst
      ttl := ttl
      protocol := p
      payload := b
      bytes := plainPacket class_ id flags ttl p src dst b
      headerLen := 20
      fragmentOffset := 0
      moreFragments := false
      dontFragment := flags == 0x40
      id := id % 65536
      trafficClass := class_ } := by
  obtain ⟨header, hheader⟩ : ∃ header,
    plainHeader class_ b.length id flags ttl p src dst = header :=
    ⟨_, rfl⟩
  obtain ⟨s0, s1, s2, s3, hs⟩ := exists_octets4 src
  obtain ⟨d0, d1, d2, d3, hd⟩ := exists_octets4 dst
  have hhead : header.length = 20 := by
    simp [← hheader, plainHeader, src.2, dst.2]
  have hsum := checksum_overwrite hhead
    (by simp [← hheader, overwrite, plainHeader, toBe_two, hs, hd])
  have hover : (overwrite header 10 (toBe 2 (checksum header))).length = 20 := by
    rw [length_overwrite (by rw [length_toBe, hhead]; omega), hhead]
  have hout : plainPacket class_ id flags ttl p src dst b =
      overwrite header 10 (toBe 2 (checksum header)) ++ b := by
    rw [plainPacket, hheader]
  have hform : plainPacket class_ id flags ttl p src dst b = [0x45, class_] ++
      toBe 2 (20 + b.length) ++ [UInt8.ofNat (id / 256), UInt8.ofNat id, flags, 0, ttl, p,
        UInt8.ofNat (checksum header / 256), UInt8.ofNat (checksum header)] ++ src.1 ++
        dst.1 ++ b := by
    rw [hout, toBe_two (checksum _), Nat.add_comm 20]
    generalize checksum header = k
    simp [← hheader, overwrite, plainHeader, toBe_two, hs, hd]
  have hid : ofBe [UInt8.ofNat (id / 256), UInt8.ofNat id] = id % 65536 := by
    rw [← toBe_two, ofBe_toBe_mod]
    rfl
  rw [← hid]
  refine parse_written hform (by omega) hflags ?_
  rw [hout, List.take_left' hover]
  exact hsum

/-- The quote of an IPv6 packet has a header without options. Without a fragment header its length
and its flags are those of a plain packet. -/
theorem quote6To4_eq {q : Quote6} {src dst : Ipv4Addr} {port : UInt16} {p : UInt8} {b : Bytes}
    (hp : p = if q.protocol = 58 then 1 else q.protocol) (hnone : q.fragment = none)
    (hlen : b.length = q.len) (hlt : q.len ≤ 65515)
    (hadjust : adjust p q.payload (relabel6 p q.payload port)
      (pseudo6 q.source q.dest q.protocol q.len) (pseudo4 src dst p q.len) q.len = .ok b) :
    quote6To4 q src dst port =
      .ok (plainPacket q.class_ 0 (lengthFlags q.len) q.hop p src dst b) := by
  obtain ⟨s0, s1, s2, s3, hs⟩ := exists_octets4 src
  obtain ⟨d0, d1, d2, d3, hd⟩ := exists_octets4 dst
  rw [quote6To4]
  simp only [← hp, hadjust, bind, Except.bind]
  rw [encode, if_neg (by omega)]
  simp only [hnone, plainPacket, plainHeader, lengthFlags, toBe_two, hs, hd, hlen]
  split <;> simp [overwrite]

/-- The checksum of a translated echo message is right unless the message is all zeros. The sum is
then a multiple of 65535 that is zero only in that case. -/
theorem checksum_echo {b : Bytes} {c : Nat} (hlong : 4 ≤ b.length) (hc : c < 65536)
    (hsum : wordSum (overwrite b 2 (toBe 2 c)) % 65535 = 0)
    (hzero : wordSum b = u16At b 2 → c = 0) :
    checksum (overwrite b 2 (toBe 2 c)) = 0 ↔ wordSum b ≠ u16At b 2 := by
  have hover := wordSum_overwrite rfl hlong hc
  have hfield := wordSum_field rfl hlong
  rw [checksum_eq_zero]
  constructor
  · rintro ⟨hpos, -⟩ heq
    have := hzero heq
    omega
  · intro hne
    exact ⟨by omega, hsum⟩

/-- The words of a relabelled echo message outside the checksum sum up to nothing only if the
message is a reply, its port is zero, and so is the rest of it. -/
theorem wordSum_relabel6 {b : Bytes} (port : UInt16) (hlong : 8 ≤ b.length)
    (hcode : octet b 1 = 0) :
    wordSum (relabel6 1 b port) = u16At (relabel6 1 b port) 2 ↔
      octet b 0 ≠ 128 ∧ port = 0 ∧ ∀ x ∈ b.drop 6, x = 0 := by
  obtain ⟨b0, b1, b2, b3, b4, b5, b6, b7, t, rfl⟩ := exists_eight hlong
  cases (show b1 = 0 from hcode)
  have hform : relabel6 1 (b0 :: 0 :: b2 :: b3 :: b4 :: b5 :: b6 :: b7 :: t) port =
      (if b0 = 128 then 8 else 0) :: 0 :: b2 :: b3 :: UInt8.ofNat (port.toNat / 256) ::
        UInt8.ofNat port.toNat :: b6 :: b7 :: t := by
    simp [relabel6, overwrite, toBe_two, octet]
  have hport : port = 0 ↔ port.toNat = 0 := by
    rw [← UInt16.toNat_inj]
    rfl
  have hhead : ofBe [if b0 = 128 then 8 else 0, 0] = 0 ↔ b0 ≠ 128 := by
    by_cases h : b0 = 128
    · rw [if_pos h]
      exact iff_of_false (by decide) (not_not.2 h)
    · rw [if_neg h]
      exact iff_of_true rfl h
  have hrest := wordSum_eq_zero (b := b6 :: b7 :: t)
  rw [hform]
  simp only [wordSum] at hrest ⊢
  rw [ofBe_two _ port.toNat_lt]
  show _ = ofBe [b2, b3] ↔ b0 ≠ 128 ∧ port = 0 ∧ ∀ x ∈ b6 :: b7 :: t, x = 0
  rw [← hrest, ← hhead, hport]
  omega

/-- An IPv6 quote with a right checksum has a right one after its translation, unless it is the one
reply that gets a sum of zero. -/
theorem quote6_verifies {q : Quote6} (h : Sound6 q) (src dst : Ipv4Addr) (port : UInt16) :
    Verifies4 src dst (quote6To4 q src dst port) ↔ ¬ ZeroReply q port := by
  have hlong := quotedPorts_long h.ports
  obtain ⟨bytes, hparse⟩ := h.parsed
  have hlt : q.len ≤ 65515 := Quote6.parse_len hparse
  obtain ⟨p, hp⟩ : ∃ p, p = if q.protocol = 58 then 1 else q.protocol := ⟨_, rfl⟩
  have hmem : p ∈ [6, 17, 1] ∧ checksumOffset p = checksumOffset q.protocol := by
    have ht := h.transport
    simp only [List.mem_cons, List.not_mem_nil, or_false] at ht
    rcases ht with ht | ht | ht <;> rw [ht] at hp ⊢ <;> subst hp <;> decide
  obtain ⟨hrel, hle⟩ := relabel6_spec port hmem.1 hlong (hmem.2 ▸ h.field)
  have hbound := adjustedSum_lt (u16At q.payload (checksumOffset p))
    (Nat.le_trans (Nat.le_of_eq h.complete) (Nat.le_trans hlt (by decide)))
    (length_pseudo6_le q.source q.dest q.protocol q.len) (length_pseudo4_le src dst p q.len)
    (length_pseudo4 _ _ _ _) hle (length_pseudo6 _ _ _ _)
  have hvalid : wordSum (pseudo6 q.source q.dest q.protocol q.len ++ q.payload) % 65535 = 0 := by
    have hs := h.sum
    rw [checksum6_eq, h.complete] at hs
    exact (checksum_eq_zero.1 hs).2
  obtain ⟨c, hc, hadjust, hsum, hzero⟩ := adjust_verifies hrel (hrel.length.trans h.complete)
    (length_pseudo4 _ _ _ _) hbound (.inl hvalid)
  obtain ⟨b, hb⟩ : ∃ b, b = overwrite (relabel6 p q.payload port) (checksumOffset p) (toBe 2 c) :=
    ⟨_, rfl⟩
  have hblen : b.length = q.len := by
    rw [hb, length_overwrite (by rw [length_toBe, hrel.length]; exact hrel.field), hrel.length,
      h.complete]
  rw [← hb] at hadjust hsum
  have hquote := quote6To4_eq hp h.unfragmented hblen hlt hadjust
  have hread := parse_plain q.class_ 0 q.hop p src dst (b := b) (hblen ▸ hlt)
    (lengthFlags_cases q.len)
  have hiff : Verifies4 src dst (quote6To4 q src dst port) ↔ checksum4 src dst p b = 0 := by
    constructor
    · rintro ⟨out, r, hout, hr, -, -, -, hsum'⟩
      rw [hquote] at hout
      cases hout
      rw [hread] at hr
      cases hr
      exact hsum'
    · intro hsum'
      exact ⟨_, _, hquote, hread, rfl, rfl, rfl, hsum'⟩
  rw [hiff]
  by_cases h58 : q.protocol = 58
  · rw [h58, if_pos rfl] at hp
    subst hp
    have hecho := quotedPorts_echo (h58 ▸ h.ports)
    have hrelabel := wordSum_relabel6 port hlong hecho.1
    rw [pseudo4, if_pos rfl, List.nil_append, hb] at hsum
    rw [pseudo4, if_pos rfl, List.nil_append] at hzero
    have hiff' := checksum_echo (by rw [hrel.length]; omega) hc hsum (hzero (by decide))
    rw [checksum4, if_pos rfl, hb, ZeroReply]
    show checksum (overwrite _ 2 _) = 0 ↔ _
    rw [hiff', ne_eq, hrelabel]
    rcases hecho.2 with h0 | h0 <;> simp [h58, h0]
  · rw [if_neg h58] at hp
    have hne : p ≠ 1 ∧ p ≠ 0 := by
      constructor
      · rintro rfl
        exact absurd (hp ▸ h.transport) (by decide)
      · rintro rfl
        exact absurd hmem.1 (by decide)
    refine iff_of_true ?_ fun hz => h58 hz.1
    rw [checksum4_eq, checksum_eq_zero, hblen]
    refine ⟨?_, hsum⟩
    rw [wordSum_append (length_pseudo4 _ _ _ _)]
    exact Nat.lt_of_lt_of_le (wordSum_pseudo4_pos src dst _ hne.1 hne.2) (Nat.le_add_right _ _)

/-- A quote, and the addresses and the port that it is translated to. -/
inductive Quoting
  | to6 (q : Packet) (src dst : Ipv6Addr) (port : UInt16)
  | to4 (q : Quote6) (src dst : Ipv4Addr) (port : UInt16)

namespace Quoting

/-- The quote is complete and no fragment, and its transport checksum is right. -/
def Sound : Quoting → Prop
  | .to6 q _ _ _ => Sound4 q
  | .to4 q _ _ _ => Sound6 q

/-- The transport checksum of the translated quote is right. -/
def Verifies : Quoting → Prop
  | .to6 q src dst port => Verifies6 src dst (quote4To6 q src dst port)
  | .to4 q src dst port => Verifies4 src dst (quote6To4 q src dst port)

/-- The quote becomes an ICMP message of zeros alone. -/
def Zero : Quoting → Prop
  | .to6 _ _ _ _ => False
  | .to4 q _ _ port => ZeroReply q port

end Quoting

/-- The transport checksum of a translated quote is right, for every complete quote with a right
one, but for the quote of an echo reply that the translation leaves with zeros alone. -/
theorem quotes_verify_iff (k : Quoting) (h : k.Sound) : k.Verifies ↔ ¬ k.Zero := by
  cases k with
  | to6 q src dst port => exact iff_of_true (quote4_verifies h src dst port) id
  | to4 q src dst port => exact quote6_verifies h src dst port

/-- What is read as a packet is read so when it is quoted. A quote may be cut short, so the reader
of quotes checks less. -/
theorem parseInner_quoted {b : Bytes} {q : Packet} (h : Packet.parse b = .ok q) :
    Packet.parseInner b true = .ok q := by
  unfold Packet.parse Packet.parseInner at h
  unfold Packet.parseInner
  simp only at h ⊢
  split at h
  · cases h
  · next hshort =>
    rw [if_neg hshort]
    split at h
    · cases h
    · next hlong =>
      simp only [not_or] at hlong
      rw [if_neg (by simp only [not_or]; exact ⟨hlong.1, hlong.2.1, hlong.2.2.1, by simp,
        hlong.2.2.2.2⟩)]
      exact h

/-- 203.0.113.1. -/
def poolAddress : Ipv4Addr := ⟨[203, 0, 113, 1], rfl⟩

/-- 192.0.2.1. -/
def serverAddress : Ipv4Addr := ⟨[192, 0, 2, 1], rfl⟩

/-- 2001:db8::1. -/
def hostAddress : Ipv6Addr := ⟨[0x20, 0x01, 0x0d, 0xb8, 0, 0, 0, 0, 0, 0, 0, 0, 0, 0, 0, 1], rfl⟩

/-- 64:ff9b::192.0.2.1. -/
def serverAddress6 : Ipv6Addr := ⟨[0, 0x64, 0xff, 0x9b, 0, 0, 0, 0, 0, 0, 0, 0, 192, 0, 2, 1], rfl⟩

/-- A datagram without a checksum from the pool to a server. -/
def udpQuote : Packet where
  source := poolAddress
  destination := serverAddress
  ttl := 64
  protocol := 17
  payload := [0x10, 0, 0, 53, 0, 8, 0, 0]
  bytes := [0x45, 0, 0, 28, 0, 0, 0, 0, 64, 17, 124, 206, 203, 0, 113, 1, 192, 0, 2, 1, 0x10, 0, 0,
    53, 0, 8, 0, 0]
  headerLen := 20
  fragmentOffset := 0
  moreFragments := false
  dontFragment := false
  id := 0
  trafficClass := 0

/-- The quote of the sample is sound. -/
theorem udpQuote_sound : Sound4 udpQuote := by
  refine ⟨⟨udpQuote.bytes, parseInner_quoted ?_⟩, by decide, ⟨rfl, rfl⟩, by decide, by decide,
    by decide, .inr ⟨rfl, rfl⟩⟩
  exact parse_written (b := [0x10, 0, 0, 53, 0, 8, 0, 0])
    (show udpQuote.bytes = _ ++ poolAddress.1 ++ serverAddress.1 ++ _ from rfl)
    (by decide) (.inl rfl) (checksum_eq_zero.2 (by decide))

/-- An echo reply to identifier 0 and sequence number 0, without data. -/
def replyQuote : Quote6 where
  source := serverAddress6
  dest := hostAddress
  protocol := 58
  hop := 64
  class_ := 0
  len := 8
  payload := [129, 0, 0x8f, 0x01, 0, 0, 0, 0]
  fragment := none
  nonInitial := false

/-- The packet of the reply. -/
def replyBytes : Bytes :=
  [0x60, 0, 0, 0, 0, 8, 58, 64] ++ serverAddress6.1 ++ hostAddress.1 ++ replyQuote.payload

/-- The reply of the sample is parsed. -/
theorem parse_replyBytes : Quote6.parse replyBytes = .ok replyQuote := by
  have htransport : transport6 replyBytes = .ok (58, 40, none) := by rfl
  have hlen : u16At replyBytes 4 = 8 := by decide
  rw [Quote6.parse, if_neg (by decide), htransport]
  simp only [bind, Except.bind, Quote6.fragmentAt, hlen]
  rw [if_neg (by decide), if_neg (by decide)]
  simp only
  rw [if_neg (by decide), if_neg (by decide)]
  rfl

/-- The reply of the sample is sound. -/
theorem replyQuote_sound : Sound6 replyQuote := by
  refine ⟨⟨replyBytes, parse_replyBytes⟩, rfl, rfl, by decide, by decide, by decide, ?_⟩
  rw [checksum6_eq]
  exact checksum_eq_zero.2 (by decide)

/-- The datagram for a host. -/
def udpQuoting : Quoting := .to6 udpQuote hostAddress serverAddress6 7

/-- The reply for an external identifier. -/
def replyQuoting (port : UInt16) : Quoting := .to4 replyQuote serverAddress poolAddress port

/-- The theorem applied to a quoted datagram and a quoted reply: both pass with valid checksums. -/
theorem quotes_verify_udp :
    udpQuoting.Sound ∧ (replyQuoting 7).Sound ∧ udpQuoting.Verifies ∧ (replyQuoting 7).Verifies :=
  ⟨udpQuote_sound, replyQuote_sound, (quotes_verify_iff udpQuoting udpQuote_sound).2 id,
    (quotes_verify_iff (replyQuoting 7) replyQuote_sound).2 fun h => absurd h.2.2.1 (by decide)⟩

/-- A reply to an echo with the identifier and the sequence number 0 is quoted with a wrong
checksum. -/
theorem zero_reply_fails : (replyQuoting 0).Sound ∧ ¬ (replyQuoting 0).Verifies := by
  refine ⟨replyQuote_sound, fun h => ?_⟩
  refine (quote6_verifies replyQuote_sound serverAddress poolAddress 0).1 h ⟨rfl, rfl, rfl, ?_⟩
  intro x hx
  have hmem : x ∈ [(0 : UInt8), 0] := hx
  simpa using hmem

end SnacMachine.Nat64
