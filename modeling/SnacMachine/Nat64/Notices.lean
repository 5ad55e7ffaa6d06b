import SnacMachine.Nat64.Extensions
import SnacMachine.Nat64.Quotes
import SnacMachine.Nat64.Translate

/-!
# The errors that the translator sends

The errors of `nat64/translate/errors.rs`, as the receiver's parser reads them: one that is made for
a packet goes back to its source (`generate4_cases`, `generate6_cases`), and one that is translated
goes to an end of a live session (`error4_cases`, `error6_cases`).
-/

namespace SnacMachine.Nat64

open Ip Router

/-! ## Checksums -/

section

variable {pre b : Bytes} {pos : Nat}

/-- A checksum in a field that was zero makes the sum right. The sum with the field is the sum
without it and its complement, which folds to zero; for UDP a zero is written as its other form. -/
theorem checksum_field (hpre : pre.length % 2 = 0) (hpos : pos % 2 = 0) (h : pos + 2 ≤ b.length)
    (hzero : u16At b pos = 0) {c : Nat}
    (hc : c = checksum (pre ++ b) ∨ c = nonzero (checksum (pre ++ b))) :
    checksum (pre ++ overwrite b pos (toBe 2 c)) = 0 := by
  obtain ⟨hle, hmod, hpositive⟩ := foldCarries_spec (wordSum (pre ++ b))
  have hlt := checksum_lt (pre ++ b)
  have hck : checksum (pre ++ b) = 65535 - foldCarries (wordSum (pre ++ b)) := rfl
  have hbound : c < 65536 ∧ c % 65535 = checksum (pre ++ b) % 65535 ∧
      (wordSum (pre ++ b) = 0 → 0 < c) := by
    have hstart : wordSum (pre ++ b) = 0 → checksum (pre ++ b) = 65535 := by
      intro h0
      rw [hck, h0, foldCarries, if_neg (by omega)]
    rcases hc with rfl | rfl
    · exact ⟨hlt, rfl, fun h0 => by rw [hstart h0]; omega⟩
    · unfold nonzero
      split
      · next h0 => exact ⟨by omega, by rw [h0], fun _ => by omega⟩
      · exact ⟨hlt, rfl, fun h0 => by rw [hstart h0]; omega⟩
  have hsum : wordSum (pre ++ overwrite b pos (toBe 2 c)) = wordSum (pre ++ b) + c := by
    have hover := wordSum_overwrite hpos h hbound.1
    rw [wordSum_append hpre, wordSum_append hpre]
    omega
  rw [checksum_eq_zero, hsum]
  have hstart := hbound.2.2
  have hsame := hbound.2.1
  omega

/-- A number of 16 bits that was put in is read back. Its two octets stand at the position
(`drop_take_overwrite`), and nothing else is read. -/
theorem u16At_overwrite_self {n : Nat} (h : pos + 2 ≤ b.length) (hn : n < 65536) :
    u16At (overwrite b pos (toBe 2 n)) pos = n := by
  have hlen : pos + (toBe 2 n).length ≤ b.length := by
    rw [length_toBe]
    exact h
  have hfield := drop_take_overwrite hlen
  rw [length_toBe] at hfield
  have hlong : (overwrite b pos (toBe 2 n)).length = b.length := length_overwrite hlen
  have heq := eq_field (show pos + 2 ≤ (overwrite b pos (toBe 2 n)).length by omega)
  have htake : ((overwrite b pos (toBe 2 n)).take pos).length = pos := by
    rw [List.length_take]
    omega
  rw [heq, List.append_assoc, List.drop_left' htake] at hfield
  show ofBe _ = n
  rw [show [octet (overwrite b pos (toBe 2 n)) pos, octet (overwrite b pos (toBe 2 n)) (pos + 1)] =
    toBe 2 n from hfield]
  exact ofBe_toBe hn

/-- A field that was cleared reads as zero. -/
theorem u16At_zeroed (h : pos + 2 ≤ b.length) : u16At (overwrite b pos [0, 0]) pos = 0 :=
  u16At_overwrite_self (n := 0) h (by omega)

end

/-! ## Octets that are carried over -/

/-- Octets that are those of others but at some positions. -/
structure Carries (written : List Nat) (b b' : Bytes) : Prop where
  length : b'.length = b.length
  rest : ∀ i ∉ written, octet b' i = octet b i

section

variable {w w' : List Nat} {b b' b'' : Bytes}

/-- What is not changed carries all of itself. -/
theorem Carries.refl (b : Bytes) : Carries w b b := ⟨rfl, fun _ _ => rfl⟩

/-- What carries what carries an original carries it, apart from both lists. -/
theorem Carries.trans (h : Carries w b b') (h' : Carries w' b' b'') : Carries (w ++ w') b b'' := by
  refine ⟨h'.length.trans h.length, ?_⟩
  intro i hi
  rw [List.mem_append, not_or] at hi
  exact (h'.rest i hi.2).trans (h.rest i hi.1)

/-- What differs in some places differs in more places at most. -/
theorem Carries.mono (h : Carries w b b') (hw : ∀ i ∈ w, i ∈ w') : Carries w' b b' :=
  ⟨h.length, fun i hi => h.rest i fun hmem => hi (hw i hmem)⟩

/-- A run that is replaced is the only difference. -/
theorem carries_overwrite {pos n : Nat} {new : Bytes} (hn : new.length = n)
    (h : pos + n ≤ b.length) : Carries (List.range' pos n) b (overwrite b pos new) := by
  subst hn
  refine ⟨length_overwrite h, ?_⟩
  intro i hi
  rw [List.mem_range'_1] at hi
  exact octet_overwrite h (by omega)

end

/-- Octets with a transport checksum over them and what comes before. -/
def withSum (protocol : UInt8) (pre b : Bytes) : Bytes :=
  overwrite (overwrite b (checksumOffset protocol) [0, 0]) (checksumOffset protocol)
    (toBe 2 (transportSum protocol
      (checksum (pre ++ overwrite b (checksumOffset protocol) [0, 0]))))

section

variable {protocol : UInt8} {pre b : Bytes}

/-- A transport checksum is the sum, or the other way to write a sum of zero. -/
theorem transportSum_cases (protocol : UInt8) (sum : Nat) :
    transportSum protocol sum = sum ∨ transportSum protocol sum = nonzero sum := by
  unfold transportSum
  split
  · exact .inr rfl
  · exact .inl rfl

/-- A transport checksum has 16 bits. -/
theorem transportSum_lt (protocol : UInt8) (b : Bytes) :
    transportSum protocol (checksum b) < 65536 := by
  have hlt := checksum_lt b
  rcases transportSum_cases protocol (checksum b) with h | h
  · omega
  · rw [h]
    unfold nonzero
    split <;> omega

/-- Clearing the field of the checksum leaves the length. -/
theorem length_zeroed (h : checksumOffset protocol + 2 ≤ b.length) :
    (overwrite b (checksumOffset protocol) [0, 0]).length = b.length := length_overwrite h

/-- A message with its checksum filled in sums up to zero, the pseudo header included. -/
theorem checksum_withSum (hpre : pre.length % 2 = 0) (h : checksumOffset protocol + 2 ≤ b.length) :
    checksum (pre ++ withSum protocol pre b) = 0 :=
  checksum_field hpre (checksumOffset_even protocol) (by rw [length_zeroed h]; exact h)
    (u16At_zeroed h) (transportSum_cases protocol _)

/-- The checksum of a UDP message is never given as zero. -/
theorem withSum_given (hudp : protocol = 17) (h : checksumOffset protocol + 2 ≤ b.length) :
    u16At (withSum protocol pre b) (checksumOffset protocol) ≠ 0 := by
  unfold withSum
  rw [u16At_overwrite_self (by rw [length_zeroed h]; exact h) (transportSum_lt _ _), transportSum,
    if_pos hudp, nonzero]
  split
  · decide
  · next hne => exact hne

/-- Filling in the checksum changes its two octets only. -/
theorem withSum_carries (h : checksumOffset protocol + 2 ≤ b.length) :
    Carries (List.range' (checksumOffset protocol) 2) b (withSum protocol pre b) := by
  have hzero : Carries (List.range' (checksumOffset protocol) 2) b
      (overwrite b (checksumOffset protocol) [0, 0]) := carries_overwrite rfl h
  refine (hzero.trans (carries_overwrite (length_toBe 2 _) ?_)).mono ?_
  · rw [length_zeroed h]
    exact h
  · intro i hi
    rw [List.mem_append] at hi
    exact hi.elim id id

end

/-! ## Encoded packets -/

/-- An IPv4 packet takes 20 octets besides its payload. -/
theorem length_encode {source destination : Ipv4Addr} {protocol ttl : UInt8} {payload out : Bytes}
    (h : encode source destination protocol ttl payload = .ok out) :
    out.length = 20 + payload.length := by
  unfold encode at h
  split at h
  · cases h
  · cases h
    rw [List.length_append, length_overwrite]
    · simp [source.2, destination.2]
    · simp [source.2, destination.2]

/-- The checksum of an ICMP message does not change its length. -/
theorem length_icmp4Checksum {b : Bytes} (h : 4 ≤ b.length) :
    (Translator.icmp4Checksum b).length = b.length := by
  rw [Translator.icmp4Checksum, length_overwrite]
  rw [length_toBe]
  exact h

/-- The transport octets with their checksum. -/
def filled6 (protocol : UInt8) (source dest : Ipv6Addr) (payload : Bytes) : Bytes :=
  let zeroed := overwrite payload (checksumOffset protocol) [0, 0]
  overwrite zeroed (checksumOffset protocol)
    (toBe 2 (transportSum protocol (checksum6 source dest protocol zeroed)))

section

variable {protocol class_ hop : UInt8} {source dest : Ipv6Addr} {payload out : Bytes}

/-- Writing an IPv6 packet is putting its header in front of the payload with its checksum, and then
the traffic class in. -/
theorem encode6_eq : encode6 protocol source dest class_ hop payload =
    match ipv6Packet source dest protocol hop (filled6 protocol source dest payload) with
    | .error _ => .error invalidEvidence
    | .ok out => .ok (overwrite out 0 [octet out 0 ||| class_ >>> 4, class_ <<< 4]) := rfl

/-- The checksum of the payload does not change its length. -/
theorem length_filled6 (source dest : Ipv6Addr)
    (h : checksumOffset protocol + 2 ≤ payload.length) :
    (filled6 protocol source dest payload).length = payload.length := by
  have hzero : (overwrite payload (checksumOffset protocol) [0, 0]).length = payload.length :=
    length_overwrite h
  rw [filled6, length_overwrite (by rw [length_toBe, hzero]; exact h), hzero]

/-- The octets outside the checksum stay. -/
theorem octet_filled6 (h : checksumOffset protocol + 2 ≤ payload.length) {i : Nat}
    (hi : i < checksumOffset protocol ∨ checksumOffset protocol + 2 ≤ i) :
    octet (filled6 protocol source dest payload) i = octet payload i := by
  have hzero : (overwrite payload (checksumOffset protocol) [0, 0]).length = payload.length :=
    length_overwrite h
  rw [filled6, octet_overwrite (by rw [length_toBe, hzero]; exact h)
    (by rw [length_toBe]; exact hi), octet_overwrite h hi]

/-- What lies behind a replaced run stays. -/
theorem drop_overwrite {b new : Bytes} {pos n : Nat} (hlen : pos + new.length ≤ b.length)
    (h : pos + new.length ≤ n) : (overwrite b pos new).drop n = b.drop n := by
  refine List.ext_getElem? fun i => ?_
  rw [List.getElem?_drop, List.getElem?_drop, getElem?_overwrite hlen (by omega)]

/-- What lies behind the checksum stays. -/
theorem drop_filled6 (h : checksumOffset protocol + 2 ≤ payload.length) {n : Nat}
    (hn : checksumOffset protocol + 2 ≤ n) :
    (filled6 protocol source dest payload).drop n = payload.drop n := by
  have hzero : (overwrite payload (checksumOffset protocol) [0, 0]).length = payload.length :=
    length_overwrite h
  rw [filled6, drop_overwrite (by rw [length_toBe, hzero]; exact h) (by rw [length_toBe]; exact hn),
    drop_overwrite h hn]

/-- A packet is read as it is encoded: the header holds the version, the traffic class and the
length, and the transport octets have their checksum filled in. -/
theorem encode6_eq_ok (h : checksumOffset protocol + 2 ≤ payload.length)
    (henc : encode6 protocol source dest class_ hop payload = .ok out) :
    out.length = 40 + payload.length ∧ envelope .rawIpv6 out =
      .ok ⟨out, filled6 protocol source dest payload, source, dest, protocol, hop⟩ := by
  have hlen := length_filled6 source dest h
  rw [encode6_eq, ipv6Packet] at henc
  split at henc
  · cases henc
  · next heq =>
    split at heq
    · cases heq
    · next hle =>
      cases heq
      cases henc
      have hversion : ((0x60 : UInt8) ||| class_ >>> 4) >>> 4 = 6 :=
        octets_forall (p := fun x => ((0x60 : UInt8) ||| x >>> 4) >>> 4 = 6) (by decide +kernel)
          class_
      have hform :
          overwrite ([0x60, 0, 0, 0] ++ toBe 2 (filled6 protocol source dest payload).length
          ++ [protocol, hop] ++ source.1 ++ dest.1 ++ filled6 protocol source dest payload) 0
          [(0x60 : UInt8) ||| class_ >>> 4, class_ <<< 4] =
          [(0x60 : UInt8) ||| class_ >>> 4, class_ <<< 4, 0, 0] ++
            toBe 2 (filled6 protocol source dest payload).length ++ [protocol, hop] ++ source.1 ++
            dest.1 ++ filled6 protocol source dest payload := by
        simp [overwrite]
      constructor
      · rw [length_overwrite (by simp)]
        simp [source.2, dest.2, hlen]
        omega
      · exact envelope_written hform hversion (by omega)

/-- Writing an IPv6 packet succeeds if the payload fits the length field. -/
theorem encode6_ok (source dest : Ipv6Addr) (class_ hop : UInt8)
    (h : checksumOffset protocol + 2 ≤ payload.length)
    (hlen : payload.length ≤ 65535) :
    ∃ out, encode6 protocol source dest class_ hop payload = .ok out := by
  have hlen' := length_filled6 source dest h
  rw [encode6_eq, ipv6Packet, if_neg (by omega)]
  exact ⟨_, rfl⟩

end

/-- The transport octets of a packet to the stub link carry their checksum. -/
theorem filled6_eq (protocol : UInt8) (source dest : Ipv6Addr) {b : Bytes}
    (h : checksumOffset protocol + 2 ≤ b.length) :
    filled6 protocol source dest b =
    withSum protocol (pseudo6 source dest protocol b.length) b := by
  unfold filled6 withSum
  simp only [checksum6_eq, length_zeroed h]

/-! ## Calls -/

section

variable {α β : Type} {t t' : Translator} {b : β}

/-- A checked computation goes on if the check succeeds. -/
theorem check_bind {r : Except IoError α} {f : α → Translation β}
    (h : (check r >>= f) t = (.ok b, t')) : ∃ a, r = .ok a ∧ f a t = (.ok b, t') := by
  obtain ⟨a, u, hr, hf⟩ := Act.bind_eq_ok h
  cases r with
  | error e => cases hr
  | ok a' =>
    cases hr
    exact ⟨a, rfl, hf⟩

/-- A check that succeeds leaves the computation that follows it. -/
theorem check_bind_ok {a : α} {f : α → Translation β} :
    (check (.ok a) >>= f) t = f a t := rfl

/-- A call of the bindings changes nothing else. -/
theorem onBindings_same {op : Bindings → Option (Except IoError α × Bindings)} {r : Except Fault α}
    (h : onBindings op t = (r, t')) : ∃ x, t' = { t with bindings := x } := by
  unfold onBindings at h
  split at h
  · cases h
    exact ⟨_, rfl⟩
  · cases h
    exact ⟨_, rfl⟩

/-- What a call of the bindings returns is returned, and its table is the new one. A call that
panics or fails returns an error. -/
theorem onBindings_eq_ok {op : Bindings → Option (Except IoError α × Bindings)} {a : α}
    (h : onBindings op t = (.ok a, t')) :
    ∃ b', op t.bindings = some (.ok a, b') ∧ t' = { t with bindings := b' } := by
  unfold onBindings at h
  split at h
  · cases h
  · next r b' hop =>
    obtain ⟨hr, ht⟩ := Prod.mk.inj h
    cases r with
    | error e => cases hr
    | ok a' =>
      cases hr
      exact ⟨b', hop, ht.symm⟩

end

namespace Translator

variable {t t' : Translator} {out : List Tx} {now : Nat}

/-- Whether an error is let through at a time. -/
def allowed (t : Translator) (now : Nat) : Bool :=
  now - t.errorWindow ≥ 1000 || t.errorCount != 32

/-- The rate limit answers whether an error is let through, and leaves the bindings as they are. -/
theorem allowError_eq (t : Translator) (now : Nat) :
    ∃ t', allowError now t = (.ok (t.allowed now), t') ∧ t'.bindings = t.bindings := by
  unfold allowError allowed
  simp only
  split
  · next h => simp [h]
  · next h =>
    split <;> simp_all

/-- What an action after the rate limit returns. The limit changes no binding, and without its
consent nothing is sent. -/
theorem allowError_bind {m : Translation (List Tx)}
    (h : (allowError now >>= fun ok => if ok then m else pure []) t = (.ok out, t')) :
    (∃ t₁, t.allowed now = true ∧ t₁.bindings = t.bindings ∧ m t₁ = (.ok out, t')) ∨
      t.allowed now = false ∧ out = [] := by
  obtain ⟨t₁, h₁, hbindings⟩ := allowError_eq t now
  rw [Act.bind_run, h₁] at h
  simp only at h
  cases ha : t.allowed now with
  | true =>
    rw [ha] at h
    exact .inl ⟨t₁, rfl, hbindings, h⟩
  | false =>
    rw [ha] at h
    cases h
    exact .inr ⟨rfl, rfl⟩

end Translator

/-! ## Errors as they are read -/

/-- An error on the stub link, as the receiver's parser reads it: an ICMPv6 error with a right
checksum, in a packet that every link lets through whole. -/
structure Notice6 (src dst : Ipv6Addr) (packet : Bytes) (r : Envelope) : Prop where
  read : envelope .rawIpv6 packet = .ok r
  exact : r.packet = packet
  source : r.source = src
  destination : r.destination = dst
  nextHeader : r.nextHeader = 58
  sum : checksum6 src dst 58 r.payload = 0
  kind : octet r.payload 0 ∈ ([1, 2, 3, 4] : List UInt8)
  length : packet.length ≤ 1280

/-- An error on the AIL, as the receiver's parser reads it: an ICMP error with a right checksum, in
an unfragmented packet that every link lets through whole. -/
structure Notice4 (src dst : Ipv4Addr) (packet : Bytes) (p : Packet) : Prop where
  read : Packet.parse packet = .ok p
  exact : p.bytes = packet
  source : p.source = src
  destination : p.destination = dst
  protocol : p.protocol = 1
  whole : p.fragmentOffset = 0 ∧ p.moreFragments = false
  sum : checksum p.payload = 0
  kind : octet p.payload 0 ∈ ([3, 11, 12] : List UInt8)
  length : packet.length ≤ 576

section

variable {src dst : Ipv6Addr} {class_ hop : UInt8} {body packet : Bytes}

/-- An error that is encoded for the stub link is read back, with the octets that were given but for
its checksum. -/
theorem notice6_encoded (henc : encode6 58 src dst class_ hop body = .ok packet)
    (hlong : 8 ≤ body.length) (hlen : body.length ≤ 1240)
    (hkind : octet body 0 ∈ ([1, 2, 3, 4] : List UInt8)) :
    Notice6 src dst packet ⟨packet, filled6 58 src dst body, src, dst, 58, hop⟩ := by
  have hfield : checksumOffset 58 + 2 ≤ body.length := Nat.le_trans (show 2 + 2 ≤ 8 by decide) hlong
  obtain ⟨hplen, hread⟩ := encode6_eq_ok hfield henc
  refine ⟨hread, rfl, rfl, rfl, rfl, ?_, ?_, by omega⟩
  · show checksum6 src dst 58 (filled6 58 src dst body) = 0
    rw [checksum6_eq, length_filled6 src dst hfield, filled6_eq _ _ _ hfield]
    exact checksum_withSum (length_pseudo6 _ _ _ _) hfield
  · show octet (filled6 58 src dst body) 0 ∈ _
    rw [octet_filled6 hfield (.inl (by decide))]
    exact hkind

end

section

variable {src dst : Ipv4Addr} {ttl : UInt8} {body packet : Bytes}

/-- A packet for the AIL has a header without options. -/
theorem encode_plain (src dst : Ipv4Addr) (p ttl : UInt8) {b : Bytes} (hlen : b.length ≤ 65515) :
    encode src dst p ttl b = .ok (plainPacket 0 0 0 ttl p src dst b) := by
  rw [encode, if_neg (by omega), Nat.add_comm 20]
  rfl

/-- An error that is encoded for the AIL is read back. Its header has no options, and its checksum
is the one that the reader computes. -/
theorem notice4_encoded (henc : encode src dst 1 ttl (Translator.icmp4Checksum body) = .ok packet)
    (hlong : 8 ≤ body.length) (hlen : body.length ≤ 556)
    (hkind : octet body 0 ∈ ([3, 11, 12] : List UInt8)) (hzero : u16At body 2 = 0) :
    ∃ p, Notice4 src dst packet p := by
  have hblen := length_icmp4Checksum (b := body) (by omega)
  have hplen := length_encode henc
  rw [encode_plain src dst 1 ttl (by omega)] at henc
  cases henc
  refine ⟨_, parse_plain 0 0 ttl 1 src dst (by omega) (.inl rfl), rfl, rfl, rfl,
    rfl, ⟨rfl, rfl⟩, ?_, ?_, by omega⟩
  · show checksum ([] ++ overwrite body 2 (toBe 2 (checksum body))) = 0
    exact checksum_field rfl rfl (by omega) hzero (.inl rfl)
  · show octet (overwrite body 2 (toBe 2 (checksum body))) 0 ∈ _
    rw [octet_overwrite (by rw [length_toBe]; omega) (.inl (by decide))]
    exact hkind

end

/-- The first octets of an error that is put together are its type, its code and a checksum of
zero. -/
theorem joinExtensions_head (kind code : UInt8) (value : Nat) (quote x : Bytes) (v4 : Bool) :
    octet (joinExtensions kind code value quote x v4) 0 = kind ∧
      u16At (joinExtensions kind code value quote x v4) 2 = 0 := by
  by_cases h : Carried kind quote x v4
  · rw [joinExtensions_carried h, toBe_four]
    cases v4 <;> exact ⟨rfl, show ofBe [(0 : UInt8), 0] = 0 from rfl⟩
  · rw [joinExtensions_bare h, toBe_four]
    exact ⟨rfl, show ofBe [(0 : UInt8), 0] = 0 from rfl⟩

/-- A translated ICMPv6 error has an error type. -/
theorem v4ToV6_kind {kind code kind' code' : UInt8} {value quotedLength mtu4 mtu6 value' : Nat}
    (h : v4ToV6 kind code value quotedLength mtu4 mtu6 = some (kind', code', value')) :
    kind' ∈ ([1, 2, 3, 4] : List UInt8) := by
  unfold v4ToV6 at h
  repeat' split at h
  all_goals first
    | cases h; decide
    | obtain ⟨v, -, hv⟩ := Option.map_eq_some_iff.1 h
      cases hv
      decide
    | cases h

/-- A translated ICMP error has an error type. -/
theorem v6ToV4_kind {kind code kind' code' : UInt8} {value mtu4 mtu6 value' : Nat}
    (h : v6ToV4 kind code value mtu4 mtu6 = some (kind', code', value')) :
    kind' ∈ ([3, 11, 12] : List UInt8) := by
  unfold v6ToV4 at h
  repeat' split at h
  all_goals first
    | cases h; decide
    | obtain ⟨v, -, hv⟩ := Option.map_eq_some_iff.1 h
      cases hv
      decide
    | cases h

/-! ## Where errors go -/

/-- A session that has not run out. -/
def Bindings.Live (b : Bindings) (now : Nat) (k : SessionKey) : Prop :=
  ∃ s, b.sessions.get k = some s ∧ now < s.expires

/-- An error from the AIL is for the host of a live session with the address that its quote was sent
to. -/
theorem Bindings.errorIn_live {b : Bindings} {protocol : UInt8} {port port' : UInt16}
    {remote : SocketAddrV4} {now : Nat} {host : Ipv6Addr}
    (h : b.errorIn protocol port remote now = some (host, port')) :
    ∃ k : Key, b.Live now (k, remote) ∧ k.host = host := by
  obtain ⟨k, -, h⟩ := Option.bind_eq_some_iff.1 h
  obtain ⟨s, hs, h⟩ := Option.bind_eq_some_iff.1 h
  split at h
  · next hlive =>
    cases h
    exact ⟨k, ⟨s, hs, hlive⟩, rfl⟩
  · cases h

/-- An error from the stub link is about a live session of the host that its quote was sent to. -/
theorem Bindings.errorOut_live {b : Bindings} {protocol : UInt8} {host : Ipv6Addr}
    {port port' : UInt16} {remote : SocketAddrV4} {now : Nat}
    (h : b.errorOut protocol host port remote now = some port') :
    ∃ k : Key, b.Live now (k, remote) ∧ k.host = host := by
  obtain ⟨s, hs, h⟩ := Option.bind_eq_some_iff.1 h
  split at h
  · next hlive => exact ⟨⟨protocol, host, port, b.domain⟩, ⟨s, hs, hlive⟩, rfl⟩
  · cases h

namespace Translator

variable {t t' : Translator} {out : List Tx} {now : Nat}

/-- An error to the source of a packet from the stub link. -/
structure Answer6 (e : Envelope) (kind : UInt8) (value : Nat) (tx : Tx) : Prop where
  link : tx.link = .stub
  length : tx.packet.length ≤ 1280
  message : ∃ r, Notice6 e.destination e.source tx.packet r ∧ octet r.payload 0 = kind ∧
    ofBe ((r.payload.drop 4).take 4) = value % 2 ^ 32

/-- An error to the source of a packet from the AIL. -/
def Answered4 (p : Packet) (out : List Tx) : Prop :=
  ∃ packet r, out = [⟨.ail, packet⟩] ∧ Notice4 p.destination p.source packet r

/-- An error that comes from an address on the AIL, or behind it, reaches the host of a live
session. -/
def Relayed6 (t t' : Translator) (src : Ipv4Addr) (now : Nat) (out : List Tx) : Prop :=
  ∃ k packet r, t.bindings.Live now k ∧ out = [⟨.stub, packet⟩] ∧
    Notice6 (t'.synthesize src) k.1.host packet r

/-- An error that comes from the stub link reaches the remote end of a live session. -/
def Relayed4 (t : Translator) (pool : Ipv4Addr) (now : Nat) (out : List Tx) : Prop :=
  ∃ k packet p, t.bindings.Live now k ∧ out = [⟨.ail, packet⟩] ∧ Notice4 pool k.2.ip packet p

/-- A packet from the stub link is answered, unless the rate limit is used up. The answer quotes as
much of the packet as the minimum MTU leaves room for. -/
theorem generate6_cases {e : Envelope} {kind code : UInt8} {value : Nat}
    (hkind : kind ∈ ([1, 2, 3, 4] : List UInt8))
    (h : generate6 e kind code value now t = (.ok out, t')) :
    (t.allowed now = true ∧ ∃ tx, out = [tx] ∧ Answer6 e kind value tx) ∨
      t.allowed now = false ∧ out = [] := by
  rcases allowError_bind h with ⟨t₁, ha, -, h₁⟩ | hno
  · obtain ⟨packet, henc, hpure⟩ := check_bind h₁
    cases hpure
    have hbody : ([kind, code, 0, 0] ++ toBe 4 value ++ e.packet.take 1232).length =
        8 + min 1232 e.packet.length := by
      rw [List.length_append, List.length_append, length_toBe, List.length_take]
      rfl
    have hfit : checksumOffset 58 + 2 ≤
        ([kind, code, 0, 0] ++ toBe 4 value ++ e.packet.take 1232).length := by
      rw [hbody]
      show 4 ≤ _
      omega
    have hnotice := notice6_encoded henc (by omega) (by omega) hkind
    refine .inl ⟨ha, _, rfl, rfl, hnotice.length, _, hnotice, ?_, ?_⟩
    · exact octet_filled6 hfit (.inl (by decide))
    · show ofBe (((filled6 58 _ _ _).drop 4).take 4) = _
      rw [drop_filled6 hfit (show 2 + 2 ≤ 4 from Nat.le_refl 4), List.append_assoc,
        List.drop_left' (show [kind, code, 0, 0].length = 4 from rfl),
        List.take_left' (length_toBe 4 value), ofBe_toBe_mod]
      rfl
  · exact .inr hno

/-- A packet from the AIL is answered, or nothing is sent. Errors are limited in their rate, and an
error that is allowed quotes the packet. -/
theorem generate4_cases {p : Packet} {kind code : UInt8} {value : Nat}
    (hkind : kind ∈ ([3, 11, 12] : List UInt8))
    (h : generate4 p kind code value now t = (.ok out, t')) : out = [] ∨ Answered4 p out := by
  rcases allowError_bind h with ⟨t₁, -, -, h₁⟩ | ⟨-, hno⟩
  · obtain ⟨packet, henc, hpure⟩ := check_bind h₁
    cases hpure
    have hbody : ([kind, code, 0, 0] ++ toBe 4 value ++ p.bytes.take 548).length =
        8 + min 548 p.bytes.length := by
      rw [List.length_append, List.length_append, length_toBe, List.length_take]
      rfl
    have hzero : u16At ([kind, code, 0, 0] ++ toBe 4 value ++ p.bytes.take 548) 2 = 0 := by
      rw [toBe_four]
      exact show ofBe [(0 : UInt8), 0] = 0 from rfl
    obtain ⟨r, hr⟩ := notice4_encoded henc (by omega) (by omega) hkind hzero
    exact .inr ⟨packet, r, rfl, hr⟩
  · exact .inl hno

/-- An IPv4 error that quotes a packet of a live session is passed on to its host, or dropped: it is
dropped when the quoted port is unknown, or when the rate limit is used up. -/
theorem deliver4_cases {p q : Packet} {extension : Bytes} {kind code : UInt8} {value : Nat}
    {sport port : UInt16} {k : SessionKey} (hlive : t.bindings.Live now k)
    (hkind : kind ∈ ([1, 2, 3, 4] : List UInt8))
    (h : deliver4 p now q extension kind code value sport k.1.host port t = (.ok out, t')) :
    out = [] ∨ Relayed6 t t' p.source now out := by
  unfold deliver4 at h
  rw [Act.get_bind] at h
  cases hrev : t.bindings.reverse.get (q.protocol, sport) with
  | none =>
    rw [hrev] at h
    cases h
  | some key =>
    rw [hrev] at h
    obtain ⟨quote, -, h⟩ := check_bind h
    rcases allowError_bind h with ⟨t₁, -, hsame, h₁⟩ | ⟨-, hno⟩
    · obtain ⟨packet, henc, hpure⟩ := check_bind h₁
      cases hpure
      obtain ⟨hge, hle⟩ := length_joinExtensions kind code value quote extension false
      rw [← (joinExtensions_head kind code value quote extension false).1] at hkind
      have hnotice : ∃ r, Notice6 (t'.synthesize p.source) k.1.host packet r := by
        unfold synthesize at henc ⊢
        rw [hsame]
        exact ⟨_, notice6_encoded henc hge hle hkind⟩
      obtain ⟨r, hr⟩ := hnotice
      exact .inr ⟨k, packet, r, hlive, rfl, hr⟩
    · exact .inl hno

/-- An error from the AIL reaches the host of a live session, or nothing is sent. Each check of the
source either drops the error or goes on; the session is the one that the ports of the quote name
(`errorIn_live`). -/
theorem error4_cases {p : Packet} (h : error4 p now t = (.ok out, t')) :
    out = [] ∨ Relayed6 t t' p.source now out := by
  unfold error4 at h
  simp only [Act.get_bind] at h
  split at h
  · cases h
  · split at h
    · cases h
      exact .inl rfl
    · obtain ⟨⟨quoted, extension⟩, -, h⟩ := check_bind h
      obtain ⟨q, -, h⟩ := check_bind h
      split at h
      · cases h
      · cases herror : v4ToV6 (octet p.payload 0) (octet p.payload 1) (errorValue4 p.payload)
            (u16At p.payload 10) t.mtus.ail t.mtus.stub with
        | none =>
          rw [herror] at h
          cases h
          exact .inl rfl
        | some error =>
          rw [herror] at h
          simp only at h
          split at h
          · cases h
            exact .inl rfl
          · generalize quotedPorts _ _ = found at h
            cases found with
            | none =>
              cases h
              exact .inl rfl
            | some found =>
              simp only at h
              generalize hsession : Bindings.errorIn _ _ _ _ _ = session at h
              cases session with
              | none =>
                cases h
                exact .inl rfl
              | some session =>
                obtain ⟨k, hlive, hhost⟩ := Bindings.errorIn_live hsession
                simp only [← hhost] at h
                exact deliver4_cases (k := (k, _)) hlive (v4ToV6_kind herror) h

/-- An IPv6 error that quotes a packet of a live session is passed on to the remote, to a host of
the stub link if it is one, or dropped. -/
theorem deliver6_cases {e : Envelope} {pool : Ipv4Addr} {q : Quote6} {extension : Bytes}
    {port : UInt16} {k : SessionKey} (hlive : t.bindings.Live now k)
    (h : deliver6 e now pool k.2.ip q extension port t = (.ok out, t')) :
    out = [] ∨ Relayed4 t pool now out ∨ k.2.ip = pool ∧ Relayed6 t t' pool now out := by
  unfold deliver6 at h
  simp only [Act.get_bind] at h
  generalize herror : v6ToV4 _ _ _ _ _ = error at h
  cases error with
  | none =>
    cases h
    exact .inl rfl
  | some error =>
    obtain ⟨kind, code, value⟩ := error
    obtain ⟨quote, -, h⟩ := check_bind h
    generalize (if kind = 12 then value * 2 ^ 24 % 2 ^ 32 else value) = value' at h
    obtain ⟨hge, hle⟩ := length_joinExtensions kind code value' quote extension true
    obtain ⟨hfirst, hzero⟩ := joinExtensions_head kind code value' quote extension true
    have hkind := v6ToV4_kind herror
    rw [← hfirst] at hkind
    split at h
    · next hpool =>
      obtain ⟨packet, henc, h⟩ := check_bind h
      obtain ⟨p, hparse, h⟩ := check_bind h
      obtain ⟨p', hp'⟩ := notice4_encoded henc hge hle hkind hzero
      rw [hp'.read] at hparse
      cases hparse
      have hback := error4_cases h
      rw [hp'.source] at hback
      exact hback.imp_right fun hrelayed => .inr ⟨hpool, hrelayed⟩
    · rcases allowError_bind h with ⟨t₁, -, -, h₁⟩ | ⟨-, hno⟩
      · obtain ⟨packet, henc, hpure⟩ := check_bind h₁
        cases hpure
        obtain ⟨p, hp⟩ := notice4_encoded henc hge hle hkind hzero
        exact .inr (.inl ⟨k, packet, p, hlive, rfl, hp⟩)
      · exact .inl hno

/-- An error from the stub link reaches the remote end of a live session, or the host of one if that
end is the pool, or nothing is sent. -/
theorem error6_cases {e : Envelope} (h : error6 e now t = (.ok out, t')) :
    out = [] ∨ ∃ pool, t.ipv4 = some pool ∧
      (Relayed4 t pool now out ∨ Relayed6 t t' pool now out) := by
  unfold error6 at h
  simp only [Act.get_bind] at h
  split at h
  · cases h
  · cases hpool : t.ipv4 with
    | none =>
      rw [hpool] at h
      cases h
      exact .inl rfl
    | some pool =>
      rw [hpool] at h
      dsimp only at h
      split at h
      · cases h
        exact .inl rfl
      · obtain ⟨⟨quoted, extension⟩, -, h⟩ := check_bind h
        obtain ⟨q, -, h⟩ := check_bind h
        dsimp only at h
        split at h
        · cases h
          exact .inl rfl
        · split at h
          · cases h
            exact .inl rfl
          · generalize quotedPorts _ _ = found at h
            cases found with
            | none =>
              cases h
              exact .inl rfl
            | some found =>
              dsimp only at h
              generalize hsession : Bindings.errorOut _ _ _ _ _ _ = session at h
              cases session with
              | none =>
                cases h
                exact .inl rfl
              | some port =>
                obtain ⟨k, hlive, -⟩ := Bindings.errorOut_live hsession
                rcases deliver6_cases (k := (k, _)) hlive h with hnil | hout | ⟨-, hout⟩
                · exact .inl hnil
                · exact .inr ⟨pool, rfl, .inl hout⟩
                · exact .inr ⟨pool, rfl, .inr hout⟩

end Translator

end SnacMachine.Nat64
