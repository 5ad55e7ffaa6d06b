import SnacMachine.Nat64.Notices

/-!
# Sizes of translated packets

What the translator emits is cut to the MTU of its link, refused with an error that says how long a
packet may be, or short by construction. The one exception is a packet that goes back to the stub
link: it is emitted as it is (`translator_sizes`).
-/

namespace SnacMachine.Nat64

open Ip Router

/-! ## Fragments -/

/-- No chunk is longer than the size. -/
theorem length_mem_chunks {n : Nat} {b data : Bytes} (hn : 0 < n) (h : data ∈ chunks n b) :
    data.length ≤ n := by
  rw [chunks_eq hn] at h
  obtain ⟨i, -, rfl⟩ := List.mem_map.1 h
  rw [List.length_take]
  exact Nat.min_le_left _ _

/-- A packet is split as its version says: behind an IPv6 header with room for another one, or
behind an IPv4 header. -/
theorem fragmentLayout_cases {b : Bytes} {mtu : Nat} {l : Nat × Nat}
    (h : fragmentLayout b mtu = .ok l) :
    l = (40, 48) ∧ 40 ≤ b.length ∨ l = (20, 20) ∧ 20 ≤ b.length := by
  unfold fragmentLayout at h
  split at h
  · cases he : envelope .rawIpv6 b with
    | error e =>
      rw [he] at h
      cases h
    | ok e =>
      rw [he] at h
      simp only at h
      split at h
      · cases h
      · cases h
        exact .inl ⟨rfl, (envelope_ok he).1⟩
  · split at h
    · cases hp : Packet.parse b with
      | error e =>
        rw [hp] at h
        cases h
      | ok p =>
        rw [hp] at h
        simp only [Except.bind, bind] at h
        split at h
        · cases h
        · cases h
          exact .inr ⟨rfl, (parse_ok hp).1⟩
    · cases h

/-- No fragment is longer than the MTU. A packet that fits is not cut; otherwise each fragment holds
a chunk of the payload, whose length leaves room for the header of the version. -/
theorem length_mem_fragment {b f : Bytes} {mtu : Nat} {id : UInt32} {fs : List Bytes}
    (h : fragment b mtu id = .ok fs) (hf : f ∈ fs) : f.length ≤ mtu := by
  unfold fragment at h
  split at h
  · next hle =>
    cases h
    rw [List.mem_singleton.1 hf]
    exact hle
  · next hlong =>
    cases hl : fragmentLayout b mtu with
    | error e =>
      rw [hl] at h
      cases h
    | ok l =>
      have hlayout := fragmentLayout_cases hl
      rw [hl] at h
      simp only [Except.bind, bind] at h
      split at h
      · cases h
      · next hchunk =>
        cases h
        obtain ⟨⟨data, i⟩, hmem, rfl⟩ := List.mem_map.1 hf
        have hdata := length_mem_chunks (Nat.pos_of_ne_zero hchunk)
          (List.fst_mem_of_mem_zipIdx hmem)
        rcases hlayout with ⟨rfl, hb⟩ | ⟨rfl, hb⟩
        · simp only [if_true] at hdata ⊢
          rw [length_fragment6 hb]
          omega
        · simp only at hdata ⊢
          rw [if_neg (by decide), length_fragment4 hb]
          omega

/-- A packet that fits is not split. -/
theorem fragment_whole {b : Bytes} {mtu : Nat} {id : UInt32} (h : b.length ≤ mtu) :
    fragment b mtu id = .ok [b] := by
  rw [fragment, if_pos h]

namespace Translator

variable {t t' : Translator} {out : List Tx} {now : Nat}

/-- The least MTU that a link has. -/
def leastMtu : Link → Nat
  | .ail => 576
  | .stub => 1280

/-- At most one packet, which every MTU of its link lets through. -/
def Brief (out : List Tx) : Prop :=
  out = [] ∨ ∃ tx, out = [tx] ∧ tx.packet.length ≤ leastMtu tx.link

/-- An ICMP answer over IPv4 is one short packet. -/
theorem Answered4.brief {p : Packet} (h : Answered4 p out) : Brief out := by
  obtain ⟨packet, r, rfl, hr⟩ := h
  exact .inr ⟨_, rfl, hr.length⟩

/-- An error that is passed on over IPv6 is one short packet. -/
theorem Relayed6.brief {src : Ipv4Addr} (h : Relayed6 t t' src now out) : Brief out := by
  obtain ⟨k, packet, r, -, rfl, hr⟩ := h
  exact .inr ⟨_, rfl, hr.length⟩

/-- An error that is passed on over IPv4 is one short packet. -/
theorem Relayed4.brief {pool : Ipv4Addr} (h : Relayed4 t pool now out) : Brief out := by
  obtain ⟨k, packet, p, -, rfl, hp⟩ := h
  exact .inr ⟨_, rfl, hp.length⟩

/-! ## To the AIL -/

/-- The transport octets of a packet to the AIL. -/
def payload4 (protocol : UInt8) (pool dest : Ipv4Addr) (payload : Bytes) : Bytes :=
  let payload :=
    if protocol = 58 then overwrite payload 0 [if octet payload 0 = 128 then 8 else 0] else payload
  let protocol := if protocol = 58 then 1 else protocol
  let zeroed := overwrite payload (checksumOffset protocol) [0, 0]
  overwrite zeroed (checksumOffset protocol)
    (toBe 2 (transportSum protocol (checksum4 pool dest protocol zeroed)))

/-- The checksum of ICMP is at one place over both versions. -/
theorem checksumOffset_icmp (protocol : UInt8) :
    checksumOffset (if protocol = 58 then 1 else protocol) = checksumOffset protocol := by
  split
  · next h => rw [h]; rfl
  · rfl

/-- The checksum of the payload does not change its length. It is put over two octets of the
payload, as is the type of an ICMP message. -/
theorem length_payload4 {protocol : UInt8} (pool dest : Ipv4Addr) {payload : Bytes}
    (h : checksumOffset protocol + 2 ≤ payload.length) :
    (payload4 protocol pool dest payload).length = payload.length := by
  have htype : (if protocol = 58 then
      overwrite payload 0 [if octet payload 0 = 128 then 8 else 0] else payload).length =
        payload.length := by
    split
    · exact length_overwrite (by simp only [List.length_singleton]; omega)
    · rfl
  have hfield : checksumOffset (if protocol = 58 then 1 else protocol) + 2 ≤
      (if protocol = 58 then overwrite payload 0 [if octet payload 0 = 128 then 8 else 0]
        else payload).length := by
    rw [htype, checksumOffset_icmp]
    exact h
  unfold payload4
  simp only
  rw [length_overwrite (by rw [length_toBe, length_overwrite hfield]; exact hfield),
    length_overwrite hfield, htype]

/-- The flags of a packet to the AIL. -/
def flags4 (len : Nat) (unfragmented : Bool) : UInt8 :=
  if unfragmented then lengthFlags len else 0

/-- Translating to IPv4 writes a packet with the fields that the translation says. The source
encodes a packet and overwrites some fields of its header afterwards, with a new checksum; the
result is the plain packet with these fields. -/
theorem packet4_eq {e : Envelope} {protocol class_ : UInt8} {pool dest : Ipv4Addr} {payload : Bytes}
    {id : Nat} {unfragmented : Bool} (h : checksumOffset protocol + 2 ≤ payload.length)
    (hlen : payload.length ≤ 65515) :
    packet4 e protocol class_ pool dest payload id unfragmented =
      .ok (plainPacket class_ id (flags4 payload.length unfragmented) (e.hopLimit - 1)
        (if protocol = 58 then 1 else protocol) pool dest
          (payload4 protocol pool dest payload)) := by
  obtain ⟨s0, s1, s2, s3, hs⟩ := exists_octets4 pool
  obtain ⟨d0, d1, d2, d3, hd⟩ := exists_octets4 dest
  have hpl := length_payload4 pool dest h
  unfold packet4
  change (encode pool dest (if protocol = 58 then 1 else protocol) (e.hopLimit - 1)
    (payload4 protocol pool dest payload) >>= _) = _
  generalize payload4 protocol pool dest payload = b at hpl ⊢
  generalize (if protocol = 58 then 1 else protocol) = p
  rw [encode, if_neg (by omega)]
  simp only [bind, Except.bind]
  generalize checksum ([0x45, 0] ++ toBe 2 (20 + b.length) ++
    [0, 0, 0, 0, e.hopLimit - 1, p, 0, 0] ++ pool.1 ++ dest.1) = k
  have hmarked : overwrite (overwrite (overwrite ([0x45, 0] ++ toBe 2 (20 + b.length) ++
      [0, 0, 0, 0, e.hopLimit - 1, p, 0, 0] ++ pool.1 ++ dest.1) 10 (toBe 2 k) ++ b) 1 [class_]) 4
        (toBe 2 id) = [0x45, class_] ++ toBe 2 (20 + b.length) ++ toBe 2 id ++
      [0, 0, e.hopLimit - 1, p] ++ toBe 2 k ++ pool.1 ++ dest.1 ++ b := by
    simp [overwrite, toBe_two, hs, hd]
  have hlong : ([0x45, class_] ++ toBe 2 (20 + b.length) ++ toBe 2 id ++
      [0, 0, e.hopLimit - 1, p] ++ toBe 2 k ++ pool.1 ++ dest.1 ++ b).length =
        payload.length + 20 := by
    simp [pool.2, dest.2, hpl]
    omega
  rw [hmarked, hlong]
  cases unfragmented with
  | false => simp [overwrite, plainPacket, plainHeader, flags4, toBe_two, hs, hd, hpl, Nat.add_comm]
  | true =>
    simp only [flags4, lengthFlags, and_true, if_true]
    split <;> simp [overwrite, plainPacket, plainHeader, toBe_two, hs, hd, hpl, Nat.add_comm]

/-- An IPv4 packet on the AIL that is sent whole, and that nobody may cut. -/
structure SentWhole (len : Nat) (tx : Tx) : Prop where
  link : tx.link = .ail
  whole : ∃ p, Packet.parse tx.packet = .ok p ∧ p.bytes = tx.packet ∧ p.payload.length = len ∧
    p.dontFragment = true ∧ p.moreFragments = false ∧ p.fragmentOffset = 0

section

variable {e : Envelope} {protocol class_ : UInt8} {pool dest : Ipv4Addr} {payload : Bytes}
  {fragmentId : Option UInt32}

/-- A plain IPv4 packet takes 20 octets besides its payload. -/
theorem length_plainPacket (class_ : UInt8) (id : Nat) (flags ttl p : UInt8) (src dst : Ipv4Addr)
    (b : Bytes) : (plainPacket class_ id flags ttl p src dst b).length = 20 + b.length := by
  have hhead : (plainHeader class_ b.length id flags ttl p src dst).length = 20 := by
    simp [plainHeader, src.2, dst.2]
  rw [plainPacket, List.length_append, length_overwrite (by rw [length_toBe, hhead]; omega), hhead]

/-- What is sent over IPv4 fits the link, and is not split where it need not be. The packet that is
encoded is 20 octets longer than its payload, and it is cut only if that is more than the MTU. -/
theorem emit4_cases (hfield : checksumOffset protocol + 2 ≤ payload.length)
    (hlen : payload.length ≤ 65515)
    (h : emit4 e protocol class_ pool dest payload fragmentId t = (.ok out, t')) :
    (∀ tx ∈ out, tx.link = .ail ∧ tx.packet.length ≤ t.mtus.ail) ∧
      (fragmentId = none → 1260 < payload.length + 20 → payload.length + 20 ≤ t.mtus.ail →
        ∃ tx, out = [tx] ∧ SentWhole payload.length tx) := by
  unfold emit4 at h
  simp only [Act.get_bind, packet4_eq hfield hlen] at h
  rw [check_bind_ok, Act.modify_bind] at h
  obtain ⟨packets, hcut, hpure⟩ := check_bind h
  cases hpure
  constructor
  · intro tx htx
    obtain ⟨packet, hmem, rfl⟩ := List.mem_map.1 htx
    exact ⟨rfl, length_mem_fragment hcut hmem⟩
  · intro hnone hlong hfit
    subst hnone
    rw [fragment_whole (by
      rw [length_plainPacket, length_payload4 pool dest hfield]
      omega)] at hcut
    cases hcut
    have hflags : flags4 payload.length true = 0x40 := by
      rw [flags4, if_pos rfl, lengthFlags, if_pos hlong]
    refine ⟨_, rfl, rfl, _, parse_plain _ _ _ _ _ _ ?_ (.inr hflags), rfl, ?_, ?_, rfl, rfl⟩
    · rw [length_payload4 pool dest hfield]
      exact hlen
    · exact length_payload4 pool dest hfield
    · show (flags4 payload.length true == 0x40) = true
      rw [hflags]
      rfl

end

/-! ## Back to the stub link -/

/-- A Packet Too Big message on the stub link. -/
def TooBigMessage (tx : Tx) : Prop :=
  tx.link = .stub ∧ ∃ r, envelope .rawIpv6 tx.packet = .ok r ∧ r.nextHeader = 58 ∧
    octet r.payload 0 = 2

section

variable {e : Envelope} {protocol class_ : UInt8} {pool : Ipv4Addr} {assigned dport port : UInt16}
  {payload : Bytes} {target : Ipv6Addr} {t₁ : Translator}

/-- A packet that goes back to the stub link is as long as its transport octets make it, and is no
error message: it is encoded once, for the host that the table has found. -/
theorem hairpin_some (e : Envelope) (class_ : UInt8)
    (hfield : checksumOffset protocol + 2 ≤ payload.length)
    (hlong : 8 ≤ payload.length) (hlen : payload.length ≤ 65515)
    (hecho : protocol = 58 → octet payload 0 ≠ 2)
    (h : hairpinTarget protocol pool assigned dport (octet payload 13) now t =
      (.ok (some (target, port)), t₁)) :
    ∃ tx, hairpin e protocol class_ pool assigned dport payload now t = (.ok [tx], t₁) ∧
      tx.link = .stub ∧ tx.packet.length = 40 + payload.length ∧ ¬ TooBigMessage tx := by
  obtain ⟨b, hb⟩ : ∃ b, overwrite payload (if protocol = 58 then 4 else 2)
    (toBe 2 port.toNat) = b :=
    ⟨_, rfl⟩
  have hfit : (if protocol = 58 then 4 else 2) + (toBe 2 port.toNat).length ≤ payload.length := by
    rw [length_toBe]
    split <;> omega
  have hblen : b.length = payload.length := by
    rw [← hb, length_overwrite hfit]
  have hbfield : checksumOffset protocol + 2 ≤ b.length := hblen ▸ hfield
  obtain ⟨packet, henc⟩ := encode6_ok (t₁.synthesize pool) target class_ (e.hopLimit - 1)
    hbfield (by omega)
  obtain ⟨hplen, henv⟩ := encode6_eq_ok hbfield henc
  refine ⟨⟨.stub, packet⟩, ?_, rfl, hblen ▸ hplen, ?_⟩
  · unfold hairpin
    rw [Act.bind_run, h]
    simp only [hb, Act.get_bind, henc]
    rfl
  · rintro ⟨-, r, hr, h58, h2⟩
    rw [henv] at hr
    cases hr
    cases (show protocol = 58 from h58)
    refine hecho rfl ?_
    have h0 : octet (filled6 58 (t₁.synthesize pool) target b) 0 = octet b 0 :=
      octet_filled6 hbfield (.inl (by decide))
    have h0' : octet b 0 = octet payload 0 := by
      rw [← hb, octet_overwrite hfit (.inl (by decide))]
    exact (h0.trans h0').symm.trans h2

end

/-! ## Packets that are translated -/

/-- The state that a packet from the stub link is translated in, with the prefix that it is sent
to. -/
def aimed (t : Translator) (e : Envelope) : Translator :=
  match t.prefixes.find? fun p => p.contains e.destination with
  | none => t
  | some p => { t with bindings := { t.bindings with domain := p.address } }

/-- The domain that a packet is aimed at does not change the MTUs. -/
@[simp] theorem aimed_mtus (t : Translator) (e : Envelope) : (t.aimed e).mtus = t.mtus := by
  unfold aimed
  split <;> rfl

/-- The domain that a packet is aimed at does not change how many errors are allowed. -/
@[simp] theorem aimed_allowed (t : Translator) (e : Envelope) :
    (t.aimed e).allowed now = t.allowed now := by
  unfold aimed
  split <;> rfl

/-- The domain that a packet is aimed at does not change whether it is too big. -/
theorem aimed_tooBig (t : Translator) (d : Datagram) (e : Envelope) (pool dest : Ipv4Addr) :
    (t.aimed e).tooBig d e pool dest = t.tooBig d e pool dest := by
  unfold tooBig
  rw [aimed_mtus]

/-- A datagram that reaches the decision about its size: it is well formed, its source may send it,
its destination can be reached, and it is no error message. -/
structure Translatable (t : Translator) (sourceAllowed : Ipv6Addr → Bool)
    (reachable : Ipv4Addr → Bool) (d : Datagram) (e : Envelope) (pool dest : Ipv4Addr)
    (sport dport : UInt16) : Prop where
  packet : ∃ e₀ offset, envelope .rawIpv6 d.packet = .ok e₀ ∧ e₀.packet.length = d.packet.length ∧
    transport6 d.packet = .ok (e.nextHeader, offset, none) ∧
    e = { e₀ with nextHeader := e.nextHeader, payload := d.packet.drop offset }
  short : e.payload.length ≤ 65515
  ready : t.ipv4 = some pool
  source : t.refused sourceAllowed e = false
  goal : dest = extract e.destination
  reach : unicast dest = true ∧ (dest = pool ∨ reachable dest = true)
  message : ¬ (e.nextHeader = 58 ∧ e.payload.head?.any fun kind => kind < 128)
  transport : e.nextHeader ∈ [6, 17, 58]
  ports : ports e.nextHeader e.payload = .ok (sport, dport)
  sum : ¬ ((e.nextHeader = 17 ∧ u16At e.payload 6 = 0) ∨
    checksum6 e.source e.destination e.nextHeader e.payload ≠ 0)
  hop : ¬ e.hopLimit ≤ 1

section

variable {sourceAllowed : Ipv6Addr → Bool} {reachable : Ipv4Addr → Bool} {d : Datagram}
  {e : Envelope} {pool dest : Ipv4Addr} {sport dport : UInt16} {rng : Random}

/-- A translatable datagram is for one of the prefixes. -/
theorem Translatable.aims (h : Translatable t sourceAllowed reachable d e pool dest sport dport) :
    ∃ p, (t.prefixes.find? fun p => p.contains e.destination) = some p := by
  have hs := h.source
  cases hfind : t.prefixes.find? fun p => p.contains e.destination with
  | some p => exact ⟨p, rfl⟩
  | none =>
    have hany : (t.prefixes.any fun p => p.contains e.destination) = false := by
      rw [List.any_eq_false]
      exact List.find?_eq_none.1 hfind
    simp [refused, hany] at hs

/-- What is done with a datagram that reaches the decision about its size. Each check before that is
passed by one of the clauses of `Translatable`. -/
theorem Translatable.eq (h : Translatable t sourceAllowed reachable d e pool dest sport dport) :
    outboundDatagram d now rng sourceAllowed reachable t =
      (if t.tooBig d e pool dest then generate6 e 2 0 (max (satAdd32 t.mtus.ail 20) 1280) now
      else translateOut d e e.nextHeader pool dest sport dport now rng) (t.aimed e) := by
  obtain ⟨e₀, offset, henv, hlen, htransport, he⟩ := h.packet
  obtain ⟨p, hp⟩ := h.aims
  have hreach : ¬ (unicast dest = false ∨ (dest ≠ pool ∧ reachable dest = false)) := by
    rintro (hu | ⟨hne, hr⟩)
    · rw [h.reach.1] at hu
      cases hu
    · rcases h.reach.2 with heq | hok
      · exact hne heq
      · rw [hok] at hr
        cases hr
  have hdatagram : outboundDatagram d now rng sourceAllowed reachable t =
      outboundAddressed d e none now rng sourceAllowed reachable t := by
    unfold outboundDatagram
    rw [henv]
    simp only
    rw [if_neg (not_not.2 hlen), htransport, check_bind_ok]
    simp only
    rw [← he]
  have haddressed : outboundAddressed d e none now rng sourceAllowed reachable t =
      outboundTransport d e e.nextHeader none pool dest now rng (t.aimed e) := by
    unfold outboundAddressed
    rw [Act.get_bind, if_neg (Nat.not_lt.2 h.short), h.ready]
    simp only
    rw [h.source, hp, ← h.goal, aimed, hp]
    simp only [Bool.false_eq_true, if_false, Act.modify_bind]
    rw [if_neg hreach]
  rw [hdatagram, haddressed]
  unfold outboundTransport
  rw [if_neg h.message]
  simp only
  rw [if_neg (not_not.2 h.transport), h.ports, check_bind_ok]
  simp only
  rw [Act.get_bind, if_neg h.sum, if_neg h.hop, aimed_tooBig, aimed_mtus]

/-- The datagram is an ICMPv6 error message. -/
def IsError (d : Datagram) : Prop :=
  ∃ offset problem, transport6 d.packet = .ok (58, offset, problem) ∧
    (d.packet.drop offset).head?.any fun kind => kind < 128

/-- An answer of another type is not the one about a packet that is too big. -/
theorem Answer6.not_tooBig {kind : UInt8} {value : Nat} {tx : Tx} (h : Answer6 e kind value tx)
    (hkind : kind ≠ 2) : ¬ TooBigMessage tx := by
  rintro ⟨-, r, hr, -, h2⟩
  obtain ⟨r', hr', h0, -⟩ := h.message
  rw [hr'.read] at hr
  cases hr
  exact hkind (h0.symm.trans h2)

/-- What is done with a datagram that is not translated: nothing, an error to its source, or, if it
is an error itself, that error to an end of a live session. -/
inductive Turned (t t' : Translator) (d : Datagram) (now : Nat) (out : List Tx) : Prop
  | dropped (none : out = [])
  | answered (message : ¬ IsError d) {e : Envelope} (read : envelope .rawIpv6 d.packet = .ok e)
      {kind : UInt8} {value : Nat} {tx : Tx} (only : out = [tx]) (small : kind ≠ 2)
      (answer : Answer6 e kind value tx)
  | relayed (message : IsError d) {pool : Ipv4Addr} (ready : t.ipv4 = some pool)
      (sent : Relayed4 t pool now out ∨ Relayed6 t t' pool now out)

/-- An ICMP answer over IPv6 is one short packet. -/
theorem Answer6.brief {kind : UInt8} {value : Nat} {tx : Tx} (h : Answer6 e kind value tx) :
    Brief [tx] := by
  refine .inr ⟨tx, rfl, ?_⟩
  rw [h.link]
  exact h.length

/-- A datagram that is not translated brings at most one short packet. -/
theorem Turned.brief (h : Turned t t' d now out) : Brief out := by
  cases h with
  | dropped hnil => exact .inl hnil
  | answered _ _ honly _ hanswer =>
    rw [honly]
    exact hanswer.brief
  | relayed _ _ hsent =>
    rcases hsent with hsent | hsent
    · exact hsent.brief
    · exact hsent.brief

/-- Only an error is passed on as Packet Too Big. A datagram that is no error is dropped or answered
with one message, which is none of that type. -/
theorem Turned.silent (h : Turned t t' d now out) (hno : ¬ IsError d) :
    ∀ tx ∈ out, ¬ TooBigMessage tx := by
  cases h with
  | dropped hnil =>
    rw [hnil]
    exact fun _ hmem => nomatch hmem
  | answered _ _ honly hsmall hanswer =>
    intro tx hmem
    rw [honly] at hmem
    rw [List.mem_singleton.1 hmem]
    exact hanswer.not_tooBig hsmall
  | relayed hyes => exact absurd hyes hno

/-- What is done with it depends on the address and the sessions of the translator only. -/
theorem Turned.congr {s : Translator} (h : Turned s t' d now out) (hready : s.ipv4 = t.ipv4)
    (hsessions : s.bindings.sessions = t.bindings.sessions) : Turned t t' d now out := by
  cases h with
  | dropped hnil => exact .dropped hnil
  | answered hno hread honly hsmall hanswer => exact .answered hno hread honly hsmall hanswer
  | relayed hyes hpool hsent =>
    unfold Relayed4 Relayed6 Bindings.Live at hsent
    rw [hsessions] at hsent
    exact .relayed hyes (hready ▸ hpool) hsent

/-- What is generated for a datagram that is no error is an answer that turns it away. -/
theorem Turned.of_generate6 {e₀ : Envelope} {kind code : UInt8} {value : Nat}
    (h : generate6 e kind code value now t = (.ok out, t')) (hno : ¬ IsError d)
    (hread : envelope .rawIpv6 d.packet = .ok e₀) (hends : Answer6 e = Answer6 e₀)
    (hkind : kind ∈ ([1, 3, 4] : List UInt8)) : Turned t t' d now out := by
  have herror : kind ∈ ([1, 2, 3, 4] : List UInt8) ∧ kind ≠ 2 := by
    have hcases : kind = 1 ∨ kind = 3 ∨ kind = 4 := by simpa using hkind
    rcases hcases with rfl | rfl | rfl <;> decide
  rcases generate6_cases herror.1 h with ⟨-, tx, rfl, htx⟩ | ⟨-, rfl⟩
  · rw [hends] at htx
    exact .answered hno hread rfl herror.2 htx
  · exact .dropped rfl

/-- What becomes of a datagram whose destination is known: it is turned away, or goes on to the
table. -/
theorem outboundTransport_cases {e₀ : Envelope} {problem : Option Nat}
    (hread : envelope .rawIpv6 d.packet = .ok e₀) (hends : Answer6 e = Answer6 e₀)
    (herror : (e.nextHeader = 58 ∧ e.payload.head?.any fun kind => kind < 128) ↔ IsError d)
    (h : outboundTransport d e e.nextHeader problem pool dest now rng t = (.ok out, t')) :
    Turned t t' d now out ∨ problem = none ∧
      ¬ (e.nextHeader = 58 ∧ e.payload.head?.any fun kind => kind < 128) ∧
      e.nextHeader ∈ [6, 17, 58] ∧
      (∃ sport dport, ports e.nextHeader e.payload = .ok (sport, dport)) ∧
      ¬ ((e.nextHeader = 17 ∧ u16At e.payload 6 = 0) ∨
        checksum6 e.source e.destination e.nextHeader e.payload ≠ 0) ∧ ¬ e.hopLimit ≤ 1 := by
  unfold outboundTransport at h
  split at h
  · next hmessage =>
    split at h
    · cases h
      exact .inl (.dropped rfl)
    · rcases error6_cases h with hnil | ⟨pool', hpool', hsent⟩
      · exact .inl (.dropped hnil)
      · exact .inl (.relayed (herror.1 hmessage) hpool' hsent)
  · next hmessage =>
    have hno : ¬ IsError d := fun hyes => hmessage (herror.2 hyes)
    cases problem with
    | some pointer => exact .inl (.of_generate6 h hno hread hends (by decide))
    | none =>
      simp only at h
      split at h
      · exact .inl (.of_generate6 h hno hread hends (by decide))
      · next htransport =>
        obtain ⟨⟨sport, dport⟩, hports, h⟩ := check_bind h
        simp only [Act.get_bind] at h
        split at h
        · cases h
        · next hsum =>
          split at h
          · exact .inl (.of_generate6 h hno hread hends (by decide))
          · next hhop =>
            exact .inr ⟨rfl, hmessage, not_not.1 htransport, ⟨sport, dport, hports⟩, hsum, hhop⟩

/-- A datagram reaches the decision about its size, or nothing long comes of it. The checks come in
the order of the source, and each that turns the datagram away drops it or answers with an error;
one that passes all of them is translatable. -/
theorem outboundDatagram_cases
    (h : outboundDatagram d now rng sourceAllowed reachable t = (.ok out, t')) :
    Turned t t' d now out ∨ ∃ e pool dest sport dport,
      Translatable t sourceAllowed reachable d e pool dest sport dport := by
  unfold outboundDatagram at h
  cases henv : envelope .rawIpv6 d.packet with
  | error _ =>
    rw [henv] at h
    cases h
  | ok e₀ =>
    rw [henv] at h
    simp only at h
    split at h
    · cases h
    · next hlen =>
      obtain ⟨⟨next, offset, problem⟩, htransport, h⟩ := check_bind h
      simp only at h
      obtain ⟨e, he⟩ : ∃ e, e = { e₀ with nextHeader := next, payload := d.packet.drop offset } :=
        ⟨_, rfl⟩
      rw [← he] at h
      unfold outboundAddressed at h
      rw [Act.get_bind] at h
      split at h
      · cases h
      · next hshort =>
        cases hpool : t.ipv4 with
        | none =>
          rw [hpool] at h
          cases h
          exact .inl (.dropped rfl)
        | some pool =>
          rw [hpool] at h
          simp only at h
          split at h
          · cases h
            exact .inl (.dropped rfl)
          · next hsource =>
            cases hp : t.prefixes.find? fun p => p.contains e.destination with
            | none =>
              rw [hp] at h
              cases h
            | some p =>
              rw [hp] at h
              simp only at h
              rw [Act.modify_bind] at h
              split at h
              · cases h
                exact .inl (.dropped rfl)
              · next hreach =>
                have hnext : e.nextHeader = next := by rw [he]
                have herror : (e.nextHeader = 58 ∧ e.payload.head?.any fun kind => kind < 128) ↔
                    IsError d := by
                  constructor
                  · rintro ⟨h58, hkind⟩
                    rw [he] at hkind
                    exact ⟨offset, problem, by rw [htransport, ← hnext, h58], hkind⟩
                  · rintro ⟨offset', problem', htransport', hkind⟩
                    rw [htransport] at htransport'
                    cases htransport'
                    rw [he]
                    exact ⟨rfl, hkind⟩
                have hends : Answer6 e = Answer6 e₀ := by
                  rw [he]
                  funext kind value tx
                  exact propext ⟨fun ⟨hl, hn, hm⟩ => ⟨hl, hn, hm⟩, fun ⟨hl, hn, hm⟩ => ⟨hl, hn, hm⟩⟩
                rcases outboundTransport_cases henv hends herror h with hturned |
                  ⟨rfl, hmessage, htr, ⟨sport, dport, hports⟩, hsum, hhop⟩
                · exact .inl (hturned.congr rfl rfl)
                · refine .inr ⟨e, pool, extract e.destination, sport, dport, ⟨e₀, offset, henv,
                    not_not.1 hlen, by rw [htransport, hnext], by rw [hnext]; exact he⟩,
                    Nat.not_lt.1 hshort, hpool, by simpa using hsource, rfl, ?_, hmessage, htr,
                    hports, hsum, hhop⟩
                  simp only [not_or, not_and, Bool.not_eq_false] at hreach
                  refine ⟨hreach.1, ?_⟩
                  by_cases heq : extract e.destination = pool
                  · exact .inl heq
                  · exact .inr (hreach.2 heq)

/-- The transport octets of a packet with ports hold the checksum field and eight octets at least,
and an echo message is no error. One case for each protocol. -/
theorem ports_long {protocol : UInt8} {b : Bytes} {r : UInt16 × UInt16}
    (h : ports protocol b = .ok r) :
    checksumOffset protocol + 2 ≤ b.length ∧ 8 ≤ b.length ∧
      (protocol = 58 → octet b 0 ≠ 2) := by
  unfold ports at h
  split at h
  · next h6 =>
    subst h6
    unfold tcpPorts at h
    split at h
    · cases h
    · exact ⟨show 16 + 2 ≤ _ by omega, by omega, fun h => absurd h (by decide)⟩
  · next h6 =>
    split at h
    · next h17 =>
      subst h17
      unfold udpPorts at h
      split at h
      · cases h
      · exact ⟨show 6 + 2 ≤ _ by omega, by omega, fun h => absurd h (by decide)⟩
    · next h17 =>
      have hoffset : checksumOffset protocol = 2 := by rw [checksumOffset, if_neg h6, if_neg h17]
      split at h
      · obtain ⟨types, htypes⟩ :
            ∃ types : List UInt8, types = if protocol = 1 then [0, 8] else [128, 129] := ⟨_, rfl⟩
        simp only [← htypes] at h
        split at h
        · cases h
        · next hok =>
          simp only [not_or, not_not] at hok
          refine ⟨by omega, by omega, fun h58 h2 => ?_⟩
          rw [h2, htypes, h58] at hok
          exact absurd hok.2.2 (by decide)
      · cases h

/-- A call on the table does not change the MTUs. A call that succeeds has a value, so its answer is
never `none`. -/
theorem map_some_run {α : Type} {op : Bindings → Option (Except IoError α × Bindings)}
    {r : Except Fault (Option α)} (h : (some <$> onBindings op) t = (r, t')) :
    t'.mtus = t.mtus ∧ r ≠ .ok none := by
  rw [map_eq_pure_bind, Act.bind_run] at h
  split at h
  · next a u hrun =>
    obtain ⟨x, rfl⟩ := onBindings_same hrun
    cases h
    exact ⟨rfl, by simp⟩
  · next hrun =>
    obtain ⟨x, rfl⟩ := onBindings_same hrun
    cases h
    exact ⟨rfl, by simp⟩

/-- The bindings change nothing but themselves. -/
theorem assign_same {protocol : UInt8} {r : Except Fault (Option UInt16)}
    (h : assign e protocol sport dport dest now rng t = (r, t')) : t'.mtus = t.mtus := by
  unfold assign at h
  split at h
  · exact (map_some_run h).1
  · split at h
    · exact (map_some_run h).1
    · obtain ⟨x, rfl⟩ := onBindings_same h
      rfl

/-- A TCP segment that is no SYN and has no session, once those that are over are gone. The bindings
let no other packet fall without an error. -/
def Stray (t : Translator) (e : Envelope) (sport dport : UInt16) (dest : Ipv4Addr)
    (now : Nat) : Prop :=
  e.nextHeader = 6 ∧ octet e.payload 13 &&& 2 = 0 ∧ ∃ released b,
    t.bindings.expire now = some (released, b) ∧
      b.sessions.contains (⟨6, e.source, sport, b.domain⟩, ⟨dest, dport⟩) = false

/-- A segment gets no port if and only if it is no SYN and has no session. Past that check the call
answers with a port or fails. -/
theorem tcpOut_eq_none {b b' : Bindings} {source : Ipv6Addr} {port : UInt16} {remote : SocketAddrV4}
    {flags : UInt8} {r : Option UInt16}
    (h : b.tcpOut source port remote flags now rng = some (.ok r, b')) :
    r = none ↔ flags &&& 2 = 0 ∧ ∃ released b₁, b.expire now = some (released, b₁) ∧
      b₁.sessions.contains (⟨6, source, port, b₁.domain⟩, remote) = false := by
  unfold Bindings.tcpOut at h
  obtain ⟨⟨released, b₁⟩, hexpire, h⟩ := Option.bind_eq_some_iff.1 h
  simp only at h
  split at h
  · next hstray =>
    cases h
    exact iff_of_true rfl ⟨hstray.2, released, _, hexpire, hstray.1⟩
  · next hstray =>
    refine iff_of_false ?_ ?_
    · rintro rfl
      split at h
      · cases h
      · split at h
        · cases h
        · obtain ⟨b₂, -, h⟩ := Option.bind_eq_some_iff.1 h
          cases h
    · rintro ⟨hflags, released', b₂, hexpire', hnone⟩
      rw [hexpire] at hexpire'
      cases hexpire'
      exact hstray ⟨hnone, hflags⟩

/-- The packets that get no port from the bindings, and no error either. The UDP and ICMP branches
always give a port or an error, so only TCP is left, where it is a packet without a session that is
no SYN. -/
theorem assign_eq_none {r : Option UInt16} (hp : e.nextHeader ∈ [6, 17, 58])
    (h : assign e e.nextHeader sport dport dest now rng t = (.ok r, t')) :
    r = none ↔ t.Stray e sport dport dest now := by
  unfold assign at h
  split at h
  · next h17 =>
    refine iff_of_false (fun hr => (map_some_run h).2 (congrArg _ hr)) fun hs => ?_
    exact absurd (h17.symm.trans hs.1) (by decide)
  · next h17 =>
    split at h
    · next h58 =>
      refine iff_of_false (fun hr => (map_some_run h).2 (congrArg _ hr)) fun hs => ?_
      exact absurd (h58.symm.trans hs.1) (by decide)
    · next h58 =>
      have h6 : e.nextHeader = 6 := by simpa [h17, h58] using hp
      obtain ⟨b', hop, -⟩ := onBindings_eq_ok h
      rw [tcpOut_eq_none hop, Stray, and_iff_right h6]

/-- The host that a packet to the pool goes back to, if the bindings let it. -/
def loops (e : Envelope) (pool : Ipv4Addr) (sport dport : UInt16) (now : Nat) (rng : Random) :
    Translation (Option (Ipv6Addr × UInt16)) := do
  match ← assign e e.nextHeader sport dport pool now rng with
  | none => pure none
  | some assigned => hairpinTarget e.nextHeader pool assigned dport (octet e.payload 13) now

/-- The outcome of a packet to the pool, from that of the bindings. -/
inductive Looped (len : Nat) : Except Fault (Option (Ipv6Addr × UInt16)) →
    Except Fault (List Tx) → Prop
  | failed (f : Fault) : Looped len (.error f) (.error f)
  | dropped : Looped len (.ok none) (.ok [])
  | returned (target : Ipv6Addr × UInt16) (tx : Tx) (link : tx.link = .stub)
      (length : tx.packet.length = 40 + len) (small : ¬ TooBigMessage tx) :
      Looped len (.ok (some target)) (.ok [tx])

/-- A packet comes back only if the bindings let it. -/
theorem Looped.emitted {len : Nat} {r : Except Fault (Option (Ipv6Addr × UInt16))}
    (h : Looped len r (.ok out)) :
    out = [] ∨ ∃ target tx, r = .ok (some target) ∧ out = [tx] ∧ tx.link = .stub ∧
      tx.packet.length = 40 + len ∧ ¬ TooBigMessage tx := by
  cases h with
  | dropped => exact .inl rfl
  | returned target tx link length small => exact .inr ⟨target, tx, rfl, rfl, link, length, small⟩

/-- A packet to a port of the translator itself comes back over the stub link, and fits it. The
answer of the table decides whether anything is sent (`hairpin_some`). -/
theorem hairpin_looped {protocol class_ : UInt8} {assigned : UInt16} {payload : Bytes}
    (hfield : checksumOffset protocol + 2 ≤ payload.length) (hlong : 8 ≤ payload.length)
    (hlen : payload.length ≤ 65515) (hecho : protocol = 58 → octet payload 0 ≠ 2) :
    Looped payload.length (hairpinTarget protocol pool assigned dport (octet payload 13) now t).1
      (hairpin e protocol class_ pool assigned dport payload now t).1 := by
  rcases hrun : hairpinTarget protocol pool assigned dport (octet payload 13) now t with ⟨r, t₁⟩
  rcases r with f | target
  · have hfail : hairpin e protocol class_ pool assigned dport payload now t = (.error f, t₁) := by
      unfold hairpin
      rw [Act.bind_run, hrun]
    rw [hfail]
    exact .failed f
  · cases target with
    | none =>
      have hdrop : hairpin e protocol class_ pool assigned dport payload now t = (.ok [], t₁) := by
        unfold hairpin
        rw [Act.bind_run, hrun]
        rfl
      rw [hdrop]
      exact .dropped
    | some target =>
      obtain ⟨tx, heq, hlink, hlength, hsmall⟩ := hairpin_some e class_ hfield hlong hlen hecho
        hrun
      rw [heq]
      exact .returned target tx hlink hlength hsmall

/-- What is done with a packet to the pool: the answer of the table decides whether it fails, is
dropped, or goes back to the stub link as one packet (`hairpin_some`). -/
theorem translateOut_looped (d : Datagram) (e : Envelope) (pool : Ipv4Addr) (sport dport : UInt16)
    (now : Nat) (rng : Random) (t : Translator)
    (hfield : checksumOffset e.nextHeader + 2 ≤ e.payload.length)
    (hlong : 8 ≤ e.payload.length) (hlen : e.payload.length ≤ 65515)
    (hecho : e.nextHeader = 58 → octet e.payload 0 ≠ 2) :
    Looped e.payload.length (loops e pool sport dport now rng t).1
      (translateOut d e e.nextHeader pool pool sport dport now rng t).1 := by
  unfold loops translateOut
  rw [Act.bind_run, Act.bind_run]
  rcases hrun : assign e e.nextHeader sport dport pool now rng t with ⟨r, t₁⟩
  rcases r with f | assigned
  · exact .failed f
  · cases assigned with
    | none => exact .dropped
    | some assigned =>
      have hfit : (if e.nextHeader = 58 then 4 else 0) + (toBe 2 assigned.toNat).length ≤
          e.payload.length := by
        rw [length_toBe]
        split <;> omega
      simp only [if_true]
      obtain ⟨b, hb⟩ : ∃ b, overwrite e.payload (if e.nextHeader = 58 then 4 else 0)
          (toBe 2 assigned.toNat) = b := ⟨_, rfl⟩
      have hblen : b.length = e.payload.length := by rw [← hb, length_overwrite hfit]
      have hflags : octet b 13 = octet e.payload 13 := by
        rw [← hb, octet_overwrite hfit (.inr _)]
        rw [length_toBe]
        split <;> omega
      rw [hb, ← hflags, ← hblen]
      refine hairpin_looped (hblen ▸ hfield) (hblen ▸ hlong) (hblen ▸ hlen) fun h58 => ?_
      rw [← hb, if_pos h58, octet_overwrite (by rw [length_toBe]; omega) (.inl (by decide))]
      exact hecho h58

/-- What is done with a packet to the AIL that is not refused for its length: it gets a port from
the table, or strays, and what is sent then is as `emit4` leaves it. -/
theorem translateOut_ail (hne : dest ≠ pool)
    (hfield : checksumOffset e.nextHeader + 2 ≤ e.payload.length) (hlong : 8 ≤ e.payload.length)
    (hlen : e.payload.length ≤ 65515) (hp : e.nextHeader ∈ [6, 17, 58])
    (h : translateOut d e e.nextHeader pool dest sport dport now rng t = (.ok out, t')) :
    (∀ tx ∈ out, tx.link = .ail ∧ tx.packet.length ≤ t.mtus.ail) ∧
      (d.fragmentId = none → 1260 < e.payload.length + 20 → e.payload.length + 20 ≤ t.mtus.ail →
        (t.Stray e sport dport dest now ∧ out = []) ∨
          (¬ t.Stray e sport dport dest now ∧ ∃ tx, out = [tx] ∧
           SentWhole e.payload.length tx)) := by
  obtain ⟨assigned, t₁, hassign, h⟩ := Act.bind_eq_ok h
  have hmtus := assign_same hassign
  have hstray := assign_eq_none hp hassign
  cases assigned with
  | none =>
    cases h
    exact ⟨fun _ h => (nomatch h), fun _ _ _ => .inl ⟨hstray.1 rfl, rfl⟩⟩
  | some assigned =>
    simp only [if_neg hne] at h
    have hblen : (overwrite e.payload (if e.nextHeader = 58 then 4 else 0)
        (toBe 2 assigned.toNat)).length = e.payload.length := by
      refine length_overwrite ?_
      rw [length_toBe]
      split <;> omega
    have hcases := emit4_cases (by rw [hblen]; exact hfield) (by rw [hblen]; exact hlen) h
    rw [hblen, hmtus] at hcases
    exact ⟨hcases.1, fun hf h₁ h₂ =>
      .inr ⟨fun hs => Option.some_ne_none _ (hstray.2 hs), hcases.2 hf h₁ h₂⟩⟩

end

/-! ## The discipline -/

/-- The MTUs that the links of a translator have. -/
structure Sized (t : Translator) : Prop where
  stub : 1280 ≤ t.mtus.stub ∧ t.mtus.stub ≤ 65535
  ail : 576 ≤ t.mtus.ail ∧ t.mtus.ail ≤ 65535

/-- Every packet fits its link. -/
def Fits (t : Translator) (out : List Tx) : Prop :=
  ∀ tx ∈ out, tx.packet.length ≤ t.mtus.get tx.link

/-- A short packet fits both links. -/
theorem Brief.fits (ht : Sized t) (h : Brief out) : Fits t out := by
  intro tx htx
  rcases h with rfl | ⟨tx', rfl, hle⟩
  · cases htx
  · rw [List.mem_singleton.1 htx]
    refine Nat.le_trans hle ?_
    cases tx'.link with
    | ail => exact ht.ail.1
    | stub => exact ht.stub.1

/-- At most one short packet. -/
theorem Brief.length (h : Brief out) : out.length ≤ 1 := by
  rcases h with rfl | ⟨tx, rfl, -⟩
  · exact Nat.zero_le 1
  · exact Nat.le_refl 1

/-- A Packet Too Big message to the source of a packet: its MTU is at least 1280, and no datagram of
that length is answered with another one, in whatever state. -/
structure PacketTooBig (t : Translator) (e : Envelope) (tx : Tx) (mtu : Nat) : Prop where
  answer : Answer6 e 2 mtu tx
  word : mtu < 2 ^ 32
  least : 1280 ≤ mtu
  settles : ∀ (s : Translator) (d : Datagram) (now : Nat) (rng : Random)
    (sourceAllowed : Ipv6Addr → Bool) (reachable : Ipv4Addr → Bool) (out : List Tx)
    (s' : Translator),
    s.mtus = t.mtus → d.packet.length ≤ mtu → ¬ IsError d →
    outboundDatagram d now rng sourceAllowed reachable s = (.ok out, s') →
    ∀ tx ∈ out, ¬ TooBigMessage tx

section

variable {sourceAllowed : Ipv6Addr → Bool} {reachable : Ipv4Addr → Bool} {d : Datagram}
  {e : Envelope} {pool dest : Ipv4Addr} {sport dport : UInt16} {rng : Random}

/-- The transport header does not lie before where the search begins. By induction on the number of
headers, each of which moves the position on. -/
theorem transport6From_le {b : Bytes} {n : Nat} {seen : HeadersSeen} {next : UInt8} {pos : Nat}
    {problem : Option Nat} {r : UInt8 × Nat × Option Nat}
    (h : transport6From b n seen next pos problem = .ok r) : pos ≤ r.2.1 := by
  induction n generalizing seen next pos problem with
  | zero => cases h
  | succ n ih =>
    rw [transport6From] at h
    split at h
    · cases h
      exact Nat.le_refl pos
    · split at h
      · cases h
      · simp only at h
        split at h
        · cases h
        · split at h
          · cases h
          · split at h
            · cases h
            · have := ih h
              omega

/-- The payload of a translatable datagram is within the packet. -/
theorem Translatable.length_le
    (h : Translatable t sourceAllowed reachable d e pool dest sport dport) :
    40 + e.payload.length ≤ d.packet.length := by
  obtain ⟨e₀, offset, henv, -, htransport, he⟩ := h.packet
  have hlong := (envelope_ok henv).1
  have hoffset : 40 ≤ offset := transport6From_le htransport
  rw [he]
  simp only [List.length_drop]
  omega

/-- A translatable datagram has a whole transport header, and is no error. -/
theorem Translatable.long (h : Translatable t sourceAllowed reachable d e pool dest sport dport) :
    checksumOffset e.nextHeader + 2 ≤ e.payload.length ∧ 8 ≤ e.payload.length ∧
      (e.nextHeader = 58 → octet e.payload 0 ≠ 2) :=
  ports_long h.ports

/-- A datagram that is not too long is not answered with Packet Too Big, unless it is an error
itself. The decision about the size is made on the translated length. -/
theorem outbound_small (hsmall : d.packet.length ≤ max (satAdd32 t.mtus.ail 20) 1280)
    (herror : ¬ IsError d)
    (h : outboundDatagram d now rng sourceAllowed reachable t = (.ok out, t')) :
    ∀ tx ∈ out, ¬ TooBigMessage tx := by
  rcases outboundDatagram_cases h with hturned | ⟨e, pool, dest, sport, dport, hok⟩
  · exact hturned.silent herror
  · have hle := hok.length_le
    obtain ⟨hfield, hlong, hecho⟩ := hok.long
    have hfits : t.tooBig d e pool dest = false := by
      have hsat : satAdd32 t.mtus.ail 20 ≤ t.mtus.ail + 20 := Nat.min_le_left _ _
      simp only [tooBig, Bool.and_eq_false_iff, decide_eq_false_iff_not]
      omega
    rw [hok.eq, hfits] at h
    simp only [Bool.false_eq_true, if_false] at h
    by_cases hpool : dest = pool
    · subst hpool
      have hlooped := translateOut_looped d e dest sport dport now rng (t.aimed e) hfield hlong
        hok.short hecho
      rw [h] at hlooped
      rcases hlooped.emitted with rfl | ⟨-, tx, -, rfl, -, -, hsmall⟩
      · exact fun _ h => (nomatch h)
      · intro tx' htx
        rw [List.mem_singleton.1 htx]
        exact hsmall
    · have hail := (translateOut_ail hpool hfield hlong hok.short hok.transport h).1
      rintro tx htx ⟨hstub, -⟩
      rw [(hail tx htx).1] at hstub
      cases hstub

/-- What is generated is one short packet. -/
theorem generate6_brief {kind code : UInt8} {value : Nat}
    (hkind : kind ∈ ([1, 2, 3, 4] : List UInt8))
    (h : generate6 e kind code value now t = (.ok out, t')) : Brief out := by
  rcases generate6_cases hkind h with ⟨-, tx, rfl, htx⟩ | ⟨-, rfl⟩
  · exact htx.brief
  · exact .inl rfl

/-- What comes of a datagram that reaches the decision about its size: at most a short message, one
packet back to the stub link, or packets to the AIL that fit it; of the latter a long datagram that
may not be cut is sent whole. -/
theorem Translatable.outcome (h : Translatable t sourceAllowed reachable d e pool dest sport dport)
    (hrun : outboundDatagram d now rng sourceAllowed reachable t = (.ok out, t')) :
    Brief out ∨
      (∃ target tx, dest = pool ∧ out = [tx] ∧ tx.link = .stub ∧
        tx.packet.length = 40 + e.payload.length ∧
        (loops e pool sport dport now rng (t.aimed e)).1 = .ok (some target)) ∨
      dest ≠ pool ∧ t.tooBig d e pool dest = false ∧
        (∀ tx ∈ out, tx.link = .ail ∧ tx.packet.length ≤ t.mtus.ail) ∧
        (d.fragmentId = none → 1260 < e.payload.length + 20 →
          ((t.aimed e).Stray e sport dport dest now ∧ out = []) ∨
            (¬ (t.aimed e).Stray e sport dport dest now ∧
              ∃ tx, out = [tx] ∧ SentWhole e.payload.length tx)) := by
  obtain ⟨hfield, hlong, hecho⟩ := h.long
  rw [h.eq] at hrun
  split at hrun
  · exact .inl (generate6_brief (by decide) hrun)
  · next hbig =>
    by_cases hpool : dest = pool
    · subst hpool
      have hlooped := translateOut_looped d e dest sport dport now rng (t.aimed e) hfield hlong
        h.short hecho
      rw [hrun] at hlooped
      rcases hlooped.emitted with rfl | ⟨target, tx, hloops, rfl, hlink, hlength, -⟩
      · exact .inl (.inl rfl)
      · exact .inr (.inl ⟨target, tx, rfl, rfl, hlink, hlength, hloops⟩)
    · obtain ⟨hfits, hwhole⟩ := translateOut_ail hpool hfield hlong h.short h.transport hrun
      rw [aimed_mtus] at hfits hwhole
      refine .inr (.inr ⟨hpool, by simpa using hbig, hfits, fun hnone hlong' => ?_⟩)
      refine hwhole hnone hlong' ?_
      by_contra hover
      refine hbig ?_
      simp only [tooBig, hnone, Bool.and_eq_true, decide_eq_true_eq]
      exact ⟨⟨⟨by omega, by omega⟩, by simpa using hpool⟩, rfl⟩

/-- What comes of a long datagram that may not be cut. If it fits the AIL it is sent whole, unless
it strays; if it does not fit, a Packet Too Big message is sent as far as the rate allows. -/
theorem Translatable.whole (ht : Sized t)
    (h : Translatable t sourceAllowed reachable d e pool dest sport dport)
    (hrun : outboundDatagram d now rng sourceAllowed reachable t = (.ok out, t'))
    (hnone : d.fragmentId = none) (hne : dest ≠ pool) (hlong : 1260 < e.payload.length + 20) :
    if e.payload.length + 20 ≤ t.mtus.ail then
      ((t.aimed e).Stray e sport dport dest now ∧ out = []) ∨
        (¬ (t.aimed e).Stray e sport dport dest now ∧
          ∃ tx, out = [tx] ∧ SentWhole e.payload.length tx)
    else if t.allowed now then ∃ tx mtu, out = [tx] ∧ PacketTooBig t e tx mtu
    else out = [] := by
  obtain ⟨hfield, h8, -⟩ := h.long
  have hsat : satAdd32 t.mtus.ail 20 = t.mtus.ail + 20 := by
    have := ht.ail.2
    rw [satAdd32, Nat.min_eq_left (by omega)]
  rw [h.eq] at hrun
  split
  · next hfit =>
    have hsmall : t.tooBig d e pool dest = false := by
      simp only [tooBig, Bool.and_eq_false_iff, decide_eq_false_iff_not]
      omega
    rw [hsmall] at hrun
    simp only [Bool.false_eq_true, if_false] at hrun
    refine (translateOut_ail hne hfield h8 h.short h.transport hrun).2 hnone hlong ?_
    rw [aimed_mtus]
    exact hfit
  · next hover =>
    have hbig : t.tooBig d e pool dest = true := by
      simp only [tooBig, hnone, Bool.and_eq_true, decide_eq_true_eq]
      exact ⟨⟨⟨by omega, by omega⟩, by simpa using hne⟩, rfl⟩
    rw [hbig] at hrun
    simp only [if_true] at hrun
    rcases generate6_cases (by decide) hrun with ⟨hallowed, tx, rfl, htx⟩ | ⟨hallowed, rfl⟩
    · rw [aimed_allowed] at hallowed
      rw [if_pos hallowed]
      refine ⟨tx, _, rfl, htx, ?_, Nat.le_max_right _ _, ?_⟩
      · have := ht.ail.2
        omega
      · intro s d' now' rng' allowed' reachable' out' s' hmtus hle herror hrun'
        refine outbound_small ?_ herror hrun'
        rw [hmtus]
        exact hle
    · rw [aimed_allowed] at hallowed
      rw [if_neg (by rw [hallowed]; exact Bool.false_ne_true)]

/-- Changing the port does not change the length of the payload. Each protocol overwrites octets
that are there. -/
theorem length_payload6 {p : Packet} (port : UInt16) (h : 8 ≤ p.payload.length) :
    (payload6 p port).length = p.payload.length := by
  unfold payload6
  split
  · rw [length_overwrite, length_overwrite]
    · rw [length_toBe]
      omega
    · rw [length_overwrite (by rw [length_toBe]; omega)]
      simp only [List.length_singleton]
      omega
  · rw [length_overwrite]
    rw [length_toBe]
    omega

/-- A packet that is refused is answered, or nothing is sent. Each branch that answers does so with
an ICMP error of one of three types. -/
theorem refuseIn_cases {p : Packet} {sourceRoute : Bool}
    (h : refuseIn p sport dport sourceRoute now t = (.ok out, t')) :
    out = [] ∨ Answered4 p out := by
  unfold refuseIn at h
  rw [Act.get_bind] at h
  generalize (Bindings.errorIn _ _ _ _ _).isNone = missing at h
  split at h
  · cases h
    exact .inl rfl
  · split at h
    · exact generate4_cases (by decide) h
    · split at h
      · exact generate4_cases (by decide) h
      · exact generate4_cases (by decide) h

end

/-- 64:ff9b::/96. -/
def wellKnown : Prefix := ⟨⟨[0, 0x64, 0xff, 0x9b, 0, 0, 0, 0, 0, 0, 0, 0, 0, 0, 0, 0], rfl⟩, 96⟩

/-- A new translator, with a stub link of the least MTU. -/
def narrowTranslator : Translator where
  bindings := { Bindings.withPorts Ports.default with domain := wellKnown.address }
  prefixes := [wellKnown]
  ipv4 := some poolAddress
  identification := 0
  mtus := ⟨1500, 1280⟩
  lowestIpv6Mtu := 1280
  errorWindow := 0
  errorCount := 0

/-- The ports of a UDP datagram. -/
theorem ports_udp (b : Bytes) : ports 17 b = udpPorts b := rfl

end Translator

end SnacMachine.Nat64
