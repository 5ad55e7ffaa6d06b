import SnacMachine.Ip.RaWire
import SnacMachine.Nat64.Sizes
import SnacMachine.Nat64.Stability

/-!
# Translated packets are faithful

What the translator sends on in place of a packet (`nat64/translate.rs`): a packet that the
receiver's parser reads, between the translated addresses, with the same traffic class, one hop
less, a right transport checksum, and the octets of the original but for the fields that a
translation writes (`outbound_faithful`, `inbound_faithful`).
-/

namespace SnacMachine.Nat64

open Ip Router

/-- The protocol of a packet on the AIL. -/
def protocol4 (protocol : UInt8) : UInt8 := if protocol = 58 then 1 else protocol

/-- The protocol of a packet on the stub link. -/
def protocol6 (protocol : UInt8) : UInt8 := if protocol = 1 then 58 else protocol

/-- Where the port or identifier of the sender is. -/
def senderField (protocol : UInt8) : Nat := if protocol = 1 ∨ protocol = 58 then 4 else 0

/-- Where the port or identifier of the receiver is. -/
def receiverField (protocol : UInt8) : Nat := if protocol = 1 ∨ protocol = 58 then 4 else 2

/-- The octets of a transport header that a translation writes: a port or identifier, the checksum,
and the type of an echo message. -/
def written (protocol : UInt8) (field : Nat) : List Nat :=
  List.range' field 2 ++ List.range' (checksumOffset protocol) 2 ++
    if protocol = 1 ∨ protocol = 58 then [0] else []

/-! ## To the AIL -/

/-- A packet on the AIL in place of one from the stub link. -/
structure Outward (e : Envelope) (class_ : UInt8) (pool dest : Ipv4Addr) (port : UInt16)
    (p : Packet) : Prop where
  source : p.source = pool
  destination : p.destination = dest
  protocol : p.protocol = protocol4 e.nextHeader
  hop : p.ttl.toNat + 1 = e.hopLimit.toNat
  trafficClass : p.trafficClass = class_
  whole : p.fragmentOffset = 0 ∧ p.moreFragments = false
  sum : checksum4 pool dest p.protocol p.payload = 0
  given : p.protocol = 17 → u16At p.payload 6 ≠ 0
  port : u16At p.payload (senderField e.nextHeader) = port.toNat
  echo : e.nextHeader = 58 → octet p.payload 0 = if octet e.payload 0 = 128 then 8 else 0
  carries : Carries (written e.nextHeader (senderField e.nextHeader)) e.payload p.payload

section

variable {e : Envelope} {protocol class_ : UInt8} {pool dest : Ipv4Addr} {b : Bytes}

/-- The transport octets with the type of an echo message for the AIL. -/
def typed4 (protocol : UInt8) (b : Bytes) : Bytes :=
  if protocol = 58 then overwrite b 0 [if octet b 0 = 128 then 8 else 0] else b

/-- The type of an ICMP message is changed in its first octet only. -/
theorem typed4_carries (h : 1 ≤ b.length) :
    Carries (if protocol = 1 ∨ protocol = 58 then [0] else []) b (typed4 protocol b) := by
  unfold typed4
  by_cases h58 : protocol = 58
  · rw [if_pos (.inr h58), if_pos h58]
    exact carries_overwrite (n := 1) rfl (by omega)
  · rw [if_neg h58]
    exact .refl b

/-- The checksum is at one place in both protocols of ICMP. -/
theorem checksumOffset_protocol4 (protocol : UInt8) :
    checksumOffset (protocol4 protocol) = checksumOffset protocol :=
  Translator.checksumOffset_icmp protocol

/-- The transport octets of a packet to the AIL carry their checksum. -/
theorem payload4_eq (h : checksumOffset protocol + 2 ≤ b.length) :
    Translator.payload4 protocol pool dest b = withSum (protocol4 protocol)
      (pseudo4 pool dest (protocol4 protocol) b.length) (typed4 protocol b) := by
  have hlen : (typed4 protocol b).length = b.length := (typed4_carries (by omega)).length
  have hfield : checksumOffset (protocol4 protocol) + 2 ≤ (typed4 protocol b).length := by
    rw [checksumOffset_protocol4, hlen]
    exact h
  show overwrite (overwrite (typed4 protocol b) _ _) _ (toBe 2 (transportSum _ (checksum4 _ _ _
    (overwrite (typed4 protocol b) (checksumOffset (protocol4 protocol)) [0, 0])))) = _
  rw [checksum4_eq, length_zeroed hfield, hlen]
  rfl

/-- The protocols of packets that are translated, on the stub link. -/
theorem transport_cases (h : protocol ∈ ([6, 17, 58] : List UInt8)) :
    protocol = 6 ∨ protocol = 17 ∨ protocol = 58 := by
  simpa using h

/-- Where the sender of a packet is named. -/
theorem senderField_eq (h : protocol ∈ ([6, 17, 58] : List UInt8)) :
    senderField protocol = if protocol = 58 then 4 else 0 := by
  rcases transport_cases h with rfl | rfl | rfl <;> rfl

/-- Where the receiver of a packet is named. -/
theorem receiverField_eq (h : protocol ∈ ([6, 17, 58] : List UInt8)) :
    receiverField protocol = if protocol = 58 then 4 else 2 := by
  rcases transport_cases h with rfl | rfl | rfl <;> rfl

/-- One hop is taken off where there are two or more. -/
theorem hop_pred {hop : UInt8} (h : ¬ hop ≤ 1) : (hop - 1).toNat + 1 = hop.toNat := by
  have hlt : 1 < hop.toNat := UInt8.lt_iff_toNat_lt.1 (UInt8.not_le.1 h)
  have hle : (1 : UInt8) ≤ hop := UInt8.le_iff_toNat_le.2 (Nat.le_of_lt hlt)
  rw [UInt8.toNat_sub_of_le _ _ hle]
  show hop.toNat - 1 + 1 = hop.toNat
  omega

/-- The packet to the AIL is in place of the one from the stub link. The octets of the transport are
carried over except for the port and the checksum, and the packet is read back as it was written
(`parse_plain`). -/
theorem outward_plain (hp : e.nextHeader ∈ ([6, 17, 58] : List UInt8))
    (hfield : checksumOffset e.nextHeader + 2 ≤ e.payload.length) (hlong : 8 ≤ e.payload.length)
    (hlen : e.payload.length ≤ 65515) (hhop : ¬ e.hopLimit ≤ 1) (class_ : UInt8) (id : Nat)
    {flags : UInt8} (hflags : flags = 0 ∨ flags = 0x40) (port : UInt16)
    (hb : b = overwrite e.payload (if e.nextHeader = 58 then 4 else 0) (toBe 2 port.toNat)) :
    ∃ p, Packet.parse (plainPacket class_ id flags (e.hopLimit - 1)
      (protocol4 e.nextHeader) pool dest
        (Translator.payload4 e.nextHeader pool dest b)) = .ok p ∧
      p.bytes = plainPacket class_ id flags (e.hopLimit - 1) (protocol4 e.nextHeader) pool dest
        (Translator.payload4 e.nextHeader pool dest b) ∧
      Outward e class_ pool dest port p := by
  rw [← senderField_eq hp] at hb
  have hsender : senderField e.nextHeader + 2 ≤ e.payload.length := by
    rw [senderField_eq hp]
    split <;> omega
  have hported : Carries (List.range' (senderField e.nextHeader) 2) e.payload b := by
    rw [hb]
    exact carries_overwrite (length_toBe 2 _) hsender
  have hblen := hported.length
  have htyped : Carries _ b (typed4 e.nextHeader b) := typed4_carries (by omega)
  have htlen := htyped.length
  have hsum : checksumOffset (protocol4 e.nextHeader) + 2 ≤ (typed4 e.nextHeader b).length := by
    rw [checksumOffset_protocol4]
    omega
  have heq : Translator.payload4 e.nextHeader pool dest b = _ :=
    payload4_eq (by rw [hblen]; exact hfield)
  have hfilled : Carries _ (typed4 e.nextHeader b) (withSum (protocol4 e.nextHeader)
      (pseudo4 pool dest (protocol4 e.nextHeader) b.length) (typed4 e.nextHeader b)) :=
    withSum_carries hsum
  rw [← heq, checksumOffset_protocol4] at hfilled
  have hall := (hported.trans htyped).trans hfilled
  have hplen := hall.length
  refine ⟨_, parse_plain class_ id (e.hopLimit - 1) (protocol4 e.nextHeader) pool dest (by omega)
    hflags, rfl, rfl, rfl, rfl, hop_pred hhop, rfl, ⟨rfl, rfl⟩, ?_, ?_, ?_, ?_, ?_⟩
  · show checksum4 pool dest (protocol4 e.nextHeader) _ = 0
    rw [checksum4_eq, hplen, ← hblen, heq]
    exact checksum_withSum (length_pseudo4 _ _ _ _) hsum
  · intro hudp
    have hgiven : u16At (withSum _ (pseudo4 pool dest (protocol4 e.nextHeader) b.length) _) _ ≠ 0 :=
      withSum_given hudp hsum
    rw [← heq, hudp] at hgiven
    exact hgiven
  · have hkept : ∀ i, senderField e.nextHeader ≤ i → i < senderField e.nextHeader + 2 →
        octet (Translator.payload4 e.nextHeader pool dest b) i = octet b i := by
      intro i hle hlt
      refine (htyped.trans hfilled).rest i fun hmem => ?_
      rcases transport_cases hp with h | h | h <;> rw [h] at hle hlt hmem <;>
        simp [senderField, checksumOffset] at hle hlt hmem <;> omega
    show ofBe [_, _] = _
    rw [hkept _ (Nat.le_refl _) (by omega), hkept _ (Nat.le_succ _) (by omega), hb]
    exact u16At_overwrite_self hsender port.toNat_lt
  · intro h58
    have hfield0 : octet (Translator.payload4 e.nextHeader pool dest b) 0 =
        octet (typed4 e.nextHeader b) 0 := by
      refine hfilled.rest 0 fun hmem => ?_
      rw [h58] at hmem
      simp [checksumOffset] at hmem
    have htype0 : octet b 0 = octet e.payload 0 := by
      refine hported.rest 0 fun hmem => ?_
      rw [h58] at hmem
      simp [senderField] at hmem
    show octet (Translator.payload4 e.nextHeader pool dest b) 0 = _
    rw [hfield0, typed4, if_pos h58, ← htype0]
    obtain ⟨x, rest, hcons⟩ := List.exists_cons_of_length_pos (show 0 < b.length by omega)
    rw [hcons]
    rfl
  · refine hall.mono fun i hi => ?_
    unfold written
    simp only [List.mem_append] at hi ⊢
    tauto

end

/-! ## To the stub link -/

/-- A packet on the stub link that carries transport octets to a host. -/
structure Inward (src dst : Ipv6Addr) (next class_ hop : UInt8) (port : UInt16)
    (positions : List Nat) (b packet : Bytes) (r : Envelope) : Prop where
  read : envelope .rawIpv6 packet = .ok r
  exact : r.packet = packet
  source : r.source = src
  destination : r.destination = dst
  nextHeader : r.nextHeader = next
  hop : r.hopLimit.toNat + 1 = hop.toNat
  trafficClass : Translator.trafficClass packet = class_
  sum : checksum6 src dst next r.payload = 0
  given : next = 17 → u16At r.payload 6 ≠ 0
  port : u16At r.payload (receiverField next) = port.toNat
  carries : Carries positions b r.payload

section

variable {source target : Ipv6Addr} {next class_ hop : UInt8} {port : UInt16} {b b' out : Bytes}

/-- The traffic class of a written packet is read back. Its bits are shared by two octets of the
header, which is checked for all 256 values. -/
theorem trafficClass_encode6 (henc : encode6 next source target class_ hop b = .ok out) :
    Translator.trafficClass out = class_ := by
  rw [encode6_eq, ipv6Packet] at henc
  split at henc
  · cases henc
  · next heq =>
    split at heq
    · cases heq
    · cases heq
      cases henc
      exact octets_forall (p := fun x =>
        (((0x60 : UInt8) ||| x >>> 4) &&& 15) <<< 4 ||| (x <<< 4) >>> 4 = x)
        (by decide +kernel) class_

/-- An encoded packet carries the transport octets that it was given, except for the checksum, which
is right under the new pseudo header and not zero for UDP. -/
theorem inward_encode6 (hp : next ∈ ([6, 17, 58] : List UInt8))
    (hfield : checksumOffset next + 2 ≤ b'.length) (hhop : ¬ hop ≤ 1)
    {positions : List Nat} (hcarries : Carries positions b b')
    (hport : u16At b' (receiverField next) = port.toNat)
    (henc : encode6 next source target class_ (hop - 1) b' = .ok out) :
    ∃ r, Inward source target next class_ hop port
      (positions ++ List.range' (checksumOffset next) 2) b out r ∧
      (next = 58 → octet r.payload 0 = octet b' 0) := by
  have hread := (encode6_eq_ok hfield henc).2
  have hfilled : Carries (List.range' (checksumOffset next) 2) b'
      (filled6 next source target b') := by
    rw [filled6_eq _ _ _ hfield]
    exact withSum_carries hfield
  refine ⟨_, ⟨hread, rfl, rfl, rfl, rfl, hop_pred hhop, trafficClass_encode6 henc, ?_, ?_, ?_,
    hcarries.trans hfilled⟩, ?_⟩
  · show checksum6 source target next (filled6 next source target b') = 0
    rw [checksum6_eq, hfilled.length, filled6_eq _ _ _ hfield]
    exact checksum_withSum (length_pseudo6 _ _ _ _) hfield
  · intro hudp
    show u16At (filled6 next source target b') 6 ≠ 0
    rw [filled6_eq _ _ _ hfield]
    have hgiven : u16At (withSum _ (pseudo6 source target next b'.length) _) _ ≠ 0 :=
      withSum_given hudp hfield
    subst hudp
    exact hgiven
  · have hkept : ∀ i, receiverField next ≤ i → i < receiverField next + 2 →
        octet (filled6 next source target b') i = octet b' i := by
      intro i hle hlt
      refine hfilled.rest i fun hmem => ?_
      rcases transport_cases hp with h | h | h <;> rw [h] at hle hlt hmem <;>
        simp [receiverField, checksumOffset] at hle hlt hmem <;> omega
    show ofBe [_, _] = _
    rw [hkept _ (Nat.le_refl _) (by omega), hkept _ (Nat.le_succ _) (by omega)]
    exact hport
  · intro h58
    refine hfilled.rest 0 fun hmem => ?_
    rw [h58] at hmem
    simp [checksumOffset] at hmem

end

/-! ## The table behind a packet -/

/-- The session of a packet from the stub link. -/
def sessionOf (domain : Ipv6Addr) (e : Envelope) (sport dport : UInt16) (dest : Ipv4Addr) :
    SessionKey :=
  (⟨protocol4 e.nextHeader, e.source, sport, domain⟩,
    ⟨dest, if e.nextHeader = 58 then 0 else dport⟩)

/-- The session of a packet from the stub link is in the table, under a port, and so far nothing
else of the translator has changed. -/
structure Bound (t : Translator) (n : SessionKey) (port : UInt16) (t' : Translator) : Prop where
  others : ∃ bindings, t' = { t with bindings }
  inv : t'.bindings.Inv
  holds : t'.bindings.Holds n port

section

variable {t t' : Translator} {n : SessionKey} {port : UInt16} {now : Nat} {α β : Type}

/-- A call on the table that succeeds changes the table only. -/
theorem map_onBindings_eq_ok {op : Bindings → Option (Except IoError α × Bindings)}
    {f : α → β} {c : β} (h : (f <$> onBindings op) t = (.ok c, t')) :
    ∃ a b', op t.bindings = some (.ok a, b') ∧ c = f a ∧ t' = { t with bindings := b' } := by
  rw [map_eq_pure_bind] at h
  obtain ⟨a, u, hop, hpure⟩ := Act.bind_eq_ok h
  obtain ⟨b', hb, rfl⟩ := onBindings_eq_ok hop
  cases hpure
  exact ⟨a, b', hb, rfl, rfl⟩

/-- A session that is opened is held, under its port. -/
theorem Bindings.Opened.bound {b b' : Bindings} {s : Session}
    (h : b.Opened n.1 n.2 port s b') : b'.Inv ∧ b'.Holds n port := by
  refine ⟨h.inv, ⟨s, ?_⟩, h.place⟩
  rw [h.sessions]
  exact if_pos rfl

/-- A packet that goes out leaves its session held, under its port. -/
theorem Bindings.OutEnds.bound {b b' : Bindings} {s : Bindings → Session}
    (h : b.OutEnds now n.1 n.2 s (.ok port) b') : b'.Inv ∧ b'.Holds n port := by
  obtain ⟨b₁, -, ⟨e, he, -⟩ | ⟨port', hport, hopened⟩⟩ := h
  · cases he
  · cases hport
    exact hopened.bound

/-- A packet that is let out has a session. One case for each protocol, with the call of the table
that it makes; where the call answers with a port, the session holds that port and lives. -/
theorem assign_bound (hinv : t.bindings.Inv) {e : Envelope} {sport dport : UInt16} {dest : Ipv4Addr}
    {rng : Random} (hp : e.nextHeader ∈ ([6, 17, 58] : List UInt8))
    (h : Translator.assign e e.nextHeader sport dport dest now rng t = (.ok (some port), t')) :
    Bound t (sessionOf t.bindings.domain e sport dport dest) port t' := by
  unfold Translator.assign at h
  rcases transport_cases hp with h6 | h17 | h58
  · rw [if_neg (by rw [h6]; decide), if_neg (by rw [h6]; decide)] at h
    obtain ⟨b', hop, rfl⟩ := onBindings_eq_ok h
    obtain ⟨r, b'', hr, hends⟩ := Bindings.tcpOut_spec hinv e.source sport ⟨dest, dport⟩
      (octet e.payload 13) now rng
    rw [hr] at hop
    cases hop
    rcases hends with ⟨b₁, -, hnone, -⟩ | ⟨r', hr', hends, -⟩
    · cases hnone
    · cases r' with
      | error e' => cases hr'
      | ok port' =>
        cases hr'
        obtain ⟨hb, hholds⟩ := Bindings.OutEnds.bound
          (n := (⟨6, e.source, sport, t.bindings.domain⟩, ⟨dest, dport⟩)) hends
        refine ⟨⟨_, rfl⟩, hb, ?_⟩
        simpa only [sessionOf, protocol4, h6,
          if_neg (show ¬ (6 : UInt8) = 58 by decide)] using hholds
  · rw [if_pos h17] at h
    obtain ⟨a, b', hop, ha, rfl⟩ := map_onBindings_eq_ok h
    cases ha
    obtain ⟨r, b'', hr, hends⟩ := Bindings.udpOut_spec hinv e.source sport ⟨dest, dport⟩ now rng
      fun _ => false
    rw [hr] at hop
    cases hop
    obtain ⟨hb, hholds⟩ := Bindings.OutEnds.bound
      (n := (⟨17, e.source, sport, t.bindings.domain⟩, ⟨dest, dport⟩)) hends
    refine ⟨⟨_, rfl⟩, hb, ?_⟩
    simpa only [sessionOf, protocol4, h17, if_neg (show ¬ (17 : UInt8) = 58 by decide)] using hholds
  · rw [if_neg (by rw [h58]; decide), if_pos h58] at h
    obtain ⟨a, b', hop, ha, rfl⟩ := map_onBindings_eq_ok h
    cases ha
    obtain ⟨r, b'', hr, hends⟩ := Bindings.icmpOut_spec hinv e.source sport dest now rng
    rw [hr] at hop
    cases hop
    obtain ⟨hb, hholds⟩ := Bindings.OutEnds.bound
      (n := (⟨1, e.source, sport, t.bindings.domain⟩, ⟨dest, 0⟩)) hends
    refine ⟨⟨_, rfl⟩, hb, ?_⟩
    simpa only [sessionOf, protocol4, h58, if_true] using hholds

/-- The domain after an inbound call is that of the key of the port. -/
def Bindings.Turns (b : Bindings) (now : Nat) (x : PortKey) (b' : Bindings) : Prop :=
  ∃ released b₁ key, b.expire now = some (released, b₁) ∧ b₁.reverse.get x = some key ∧
    b'.domain = key.domain

section

variable {b b' : Bindings} {remote : SocketAddrV4} {a : Ipv6Addr × UInt16}

/-- A packet that is let in turns the table to the domain of its port's key. -/
theorem Bindings.InEnds.turns {y : PortKey} {passes : Bindings → Key → Prop}
    {s : Bindings → Key → Session} (h : b.InEnds now y remote passes s (.ok (some a)) b') :
    b.Turns now y b' := by
  obtain ⟨b₁, he, ⟨-, hnone, -⟩ | ⟨key, hr, -, -, hdomain, -⟩⟩ := h
  · exact absurd rfl (hnone a)
  · obtain ⟨released, hexp⟩ := he.result
    exact ⟨released, b₁, key, hexp, hr, hdomain⟩

/-- A packet that is let in belongs to a session of its host. -/
theorem Bindings.InEnds.bound {y : PortKey} {passes : Bindings → Key → Prop}
    {s : Bindings → Key → Session} (h : b.InEnds now y remote passes s (.ok (some a)) b') :
    b'.Inv ∧ b'.Holds (⟨y.1, a.1, a.2, b'.domain⟩, remote) y.2 := by
  obtain ⟨b₁, he, ⟨-, hnone, -⟩ | ⟨key, hr, -, ha, hdomain, hopened⟩⟩ := h
  · exact absurd rfl (hnone a)
  · cases ha
    obtain ⟨hproto, -⟩ := Bindings.place_of_reverse he.inv.counts hr
    rw [hproto, hdomain]
    exact Bindings.Opened.bound (n := (key, remote)) hopened

end

/-- The session that an inbound packet to a host belongs to. -/
def sessionTo (protocol : UInt8) (a : Ipv6Addr × UInt16) (remote : Ipv4Addr) (port : UInt16)
    (domain : Ipv6Addr) : SessionKey :=
  (⟨protocol, a.1, a.2, domain⟩, ⟨remote, if protocol = 1 then 0 else port⟩)

/-- A packet that goes back to the stub link belongs to a session of its host. One case for each
protocol, with the inbound call of the table that it makes. -/
theorem hairpinTarget_bound (hinv : t.bindings.Inv) {protocol flags : UInt8} {pool : Ipv4Addr}
    {assigned dport : UInt16} {a : Ipv6Addr × UInt16}
    (hp : protocol ∈ ([6, 17, 58] : List UInt8))
    (h : Translator.hairpinTarget protocol pool assigned dport flags now t = (.ok (some a), t')) :
    Bound t (sessionTo (protocol4 protocol) a pool assigned t'.bindings.domain)
      (if protocol = 58 then assigned else dport) t' := by
  unfold Translator.hairpinTarget at h
  rcases transport_cases hp with rfl | rfl | rfl
  · rw [if_neg (by decide), if_neg (by decide)] at h
    obtain ⟨b', hop, rfl⟩ := onBindings_eq_ok h
    obtain ⟨r, b'', hr, hends, -⟩ := Bindings.tcpIn_spec hinv dport ⟨pool, assigned⟩ flags now
    rw [hr] at hop
    cases hop
    obtain ⟨hinv', hholds⟩ := hends.bound
    exact ⟨⟨_, rfl⟩, hinv', hholds⟩
  · rw [if_pos rfl] at h
    obtain ⟨b', hop, rfl⟩ := onBindings_eq_ok h
    obtain ⟨r, b'', hr, hends⟩ := Bindings.udpIn_spec hinv dport ⟨pool, assigned⟩ now
    rw [hr] at hop
    cases hop
    obtain ⟨hinv', hholds⟩ := hends.bound
    exact ⟨⟨_, rfl⟩, hinv', hholds⟩
  · rw [if_neg (by decide), if_pos rfl] at h
    obtain ⟨b', hop, rfl⟩ := onBindings_eq_ok h
    obtain ⟨r, b'', hr, hends⟩ := Bindings.icmpIn_spec hinv assigned pool now
    rw [hr] at hop
    cases hop
    obtain ⟨hinv', hholds⟩ := hends.bound
    exact ⟨⟨_, rfl⟩, hinv', hholds⟩

/-- A packet from the AIL that is let in belongs to a session of its host. One case for each
protocol, with the call of the table that it makes; what the call answers is the key of the binding
at the port. -/
theorem inboundTarget_bound (hinv : t.bindings.Inv) {p : Packet} {sport dport : UInt16}
    {a : Ipv6Addr × UInt16} (hp : p.protocol ∈ ([1, 6, 17] : List UInt8)) (hbytes : p.bytes ≠ [])
    (h : Translator.inboundTarget p sport dport now t = (.ok (some a), t')) :
    Bound t (sessionTo p.protocol a p.source sport t'.bindings.domain)
      (if p.protocol = 1 then sport else dport) t' := by
  have hcases : p.protocol = 1 ∨ p.protocol = 6 ∨ p.protocol = 17 := by simpa using hp
  unfold Translator.inboundTarget at h
  rcases hcases with hproto | hproto | hproto <;> rw [hproto] at h ⊢
  · rw [if_neg (by decide), if_pos rfl] at h
    obtain ⟨b', hop, rfl⟩ := onBindings_eq_ok h
    obtain ⟨r, b'', hr, hends⟩ := Bindings.icmpIn_spec hinv sport p.source now
    rw [hr] at hop
    cases hop
    obtain ⟨hinv', hholds⟩ := hends.bound
    exact ⟨⟨_, rfl⟩, hinv', hholds⟩
  · rw [if_neg (by decide), if_neg (by decide)] at h
    obtain ⟨b', hop, rfl⟩ := onBindings_eq_ok h
    obtain ⟨r, b'', hr, hends⟩ := Bindings.tcpInPacket_spec hinv dport ⟨p.source, sport⟩
      (octet p.payload 13) now hbytes
    rw [hr] at hop
    cases hop
    rcases hends with ⟨b₁, key, -, -, herror, -⟩ | hends
    · cases herror
    · obtain ⟨hinv', hholds⟩ := hends.bound
      exact ⟨⟨_, rfl⟩, hinv', hholds⟩
  · rw [if_pos rfl] at h
    obtain ⟨b', hop, rfl⟩ := onBindings_eq_ok h
    obtain ⟨r, b'', hr, hends⟩ := Bindings.udpIn_spec hinv dport ⟨p.source, sport⟩ now
    rw [hr] at hop
    cases hop
    obtain ⟨hinv', hholds⟩ := hends.bound
    exact ⟨⟨_, rfl⟩, hinv', hholds⟩

end

/-! ## From the stub link -/

/-- A datagram goes to the AIL, under a port of the pool. -/
def Outgoing (t t' : Translator) (d : Datagram) (e : Envelope) (pool dest : Ipv4Addr)
    (sport dport port : UInt16) (out : List Tx) : Prop :=
  ∃ p id packets,
    Outward e (Translator.trafficClass d.packet) pool dest port p ∧
    Packet.parse p.bytes = .ok p ∧ fragment p.bytes t.mtus.ail id = .ok packets ∧
    out = packets.map (fun packet => ⟨.ail, packet⟩) ∧ t'.bindings.Inv ∧
    t'.bindings.Holds (sessionOf (t.aimed e).bindings.domain e sport dport dest) port

/-- A datagram goes back to the stub link: it leaves under a port of the pool, and reaches the host
whose session with that port is there. -/
def Returning (t t' : Translator) (d : Datagram) (e : Envelope) (pool : Ipv4Addr)
    (sport dport : UInt16) (out : List Tx) : Prop :=
  ∃ (assigned : UInt16) (t₁ : Translator) (target : Ipv6Addr) (port : UInt16) (packet : Bytes)
    (r : Envelope),
    Bound (t.aimed e) (sessionOf (t.aimed e).bindings.domain e sport dport pool) assigned t₁ ∧
    Bound t₁ (sessionTo (protocol4 e.nextHeader) (target, port) pool assigned t'.bindings.domain)
      (if e.nextHeader = 58 then assigned else dport) t' ∧
    out = [⟨.stub, packet⟩] ∧
    Inward (t'.synthesize pool) target e.nextHeader (Translator.trafficClass d.packet)
    e.hopLimit port
      (List.range' (senderField e.nextHeader) 2 ++ List.range' (receiverField e.nextHeader) 2 ++
        List.range' (checksumOffset e.nextHeader) 2) e.payload packet r ∧
    (e.nextHeader ≠ 58 → u16At r.payload 0 = assigned.toNat)

namespace Translator

section

variable {t t' : Translator} {sourceAllowed : Ipv6Addr → Bool} {reachable : Ipv4Addr → Bool}
  {d : Datagram} {e : Envelope} {pool dest : Ipv4Addr} {sport dport : UInt16} {rng : Random}
  {now : Nat} {out : List Tx}

/-- The domain that a packet is aimed at does not matter for the invariant of the table. -/
theorem aimed_inv (h : t.bindings.Inv) (e : Envelope) : (t.aimed e).bindings.Inv := by
  unfold aimed
  split
  · exact h
  · exact (h.configure _ t.bindings.udpFiltering t.bindings.udpSeconds t.bindings.icmpSeconds).inv

/-- A packet to a port of the translator itself is translated twice and comes out at the host of
that port. -/
theorem hairpin_faithful {payload : Bytes} {class_ : UInt8} {assigned : UInt16}
    (hinv : t.bindings.Inv) (hp : e.nextHeader ∈ ([6, 17, 58] : List UInt8))
    (hfield : checksumOffset e.nextHeader + 2 ≤ e.payload.length) (hlong : 8 ≤ e.payload.length)
    (hhop : ¬ e.hopLimit ≤ 1)
    (hb : payload = overwrite e.payload (if e.nextHeader = 58 then 4 else 0)
     (toBe 2 assigned.toNat))
    (h : hairpin e e.nextHeader class_ pool assigned dport payload now t = (.ok out, t')) :
    out = [] ∨ ∃ target port packet r,
      Bound t (sessionTo (protocol4 e.nextHeader) (target, port) pool assigned t'.bindings.domain)
        (if e.nextHeader = 58 then assigned else dport) t' ∧
      out = [⟨.stub, packet⟩] ∧
      Inward (t'.synthesize pool) target e.nextHeader class_ e.hopLimit port
        (List.range' (senderField e.nextHeader) 2 ++ List.range' (receiverField e.nextHeader) 2 ++
          List.range' (checksumOffset e.nextHeader) 2) e.payload packet r ∧
      (e.nextHeader ≠ 58 → u16At r.payload 0 = assigned.toNat) := by
  rw [← senderField_eq hp] at hb
  have hsender : senderField e.nextHeader + 2 ≤ e.payload.length := by
    rw [senderField_eq hp]
    split <;> omega
  have hsent : Carries (List.range' (senderField e.nextHeader) 2) e.payload payload := by
    rw [hb]
    exact carries_overwrite (length_toBe 2 _) hsender
  have hplen := hsent.length
  unfold hairpin at h
  obtain ⟨found, t₁, htarget, h⟩ := Act.bind_eq_ok h
  cases found with
  | none =>
    cases h
    exact .inl rfl
  | some found =>
    obtain ⟨target, port⟩ := found
    simp only [Act.get_bind] at h
    obtain ⟨packet, henc, hpure⟩ := check_bind h
    cases hpure
    rw [← receiverField_eq hp] at henc
    have hreceiver : receiverField e.nextHeader + 2 ≤ payload.length := by
      rw [receiverField_eq hp, hplen]
      split <;> omega
    have hreceived := carries_overwrite (b := payload) (length_toBe 2 port.toNat) hreceiver
    have hfield' : checksumOffset e.nextHeader + 2 ≤
        (overwrite payload (receiverField e.nextHeader) (toBe 2 port.toNat)).length := by
      rw [hreceived.length, hplen]
      exact hfield
    obtain ⟨r, hr, -⟩ := inward_encode6 hp hfield' hhop hreceived
      (u16At_overwrite_self hreceiver port.toNat_lt) henc
    refine .inr ⟨target, port, packet, r, hairpinTarget_bound hinv hp htarget, rfl,
      { hr with carries := (hsent.trans hr.carries).mono fun i hi => ?_ }, ?_⟩
    · rwa [List.append_assoc]
    · intro hne
      have hkept : ∀ i, i < 2 → octet r.payload i = octet payload i := by
        intro i hi
        refine hr.carries.rest i fun hmem => ?_
        rcases transport_cases hp with h6 | h17 | h58
        · rw [h6] at hmem
          simp [receiverField, checksumOffset] at hmem
          omega
        · rw [h17] at hmem
          simp [receiverField, checksumOffset] at hmem
          omega
        · exact hne h58
      have hfirst : senderField e.nextHeader = 0 := by rw [senderField_eq hp, if_neg hne]
      show ofBe [octet r.payload 0, octet r.payload 1] = _
      rw [hkept 0 (by omega), hkept 1 (by omega), hb, hfirst]
      exact u16At_overwrite_self (by omega) assigned.toNat_lt

/-- A packet that is let out to the AIL is sent in place of the datagram: one packet is encoded, and
its fragments are the packets that are sent. The table stays as it was; only the identification
counts on. -/
theorem emit4_faithful {class_ : UInt8} {port : UInt16} {payload : Bytes} {id : Option UInt32}
    (hp : e.nextHeader ∈ ([6, 17, 58] : List UInt8))
    (hfield : checksumOffset e.nextHeader + 2 ≤ e.payload.length) (hlong : 8 ≤ e.payload.length)
    (hlen : e.payload.length ≤ 65515) (hhop : ¬ e.hopLimit ≤ 1)
    (hb : payload = overwrite e.payload (if e.nextHeader = 58 then 4 else 0) (toBe 2 port.toNat))
    (h : emit4 e e.nextHeader class_ pool dest payload id t = (.ok out, t')) :
    t'.bindings = t.bindings ∧ ∃ p id packets, Outward e class_ pool dest port p ∧
      Packet.parse p.bytes = .ok p ∧ fragment p.bytes t.mtus.ail id = .ok packets ∧
      out = packets.map fun packet => ⟨.ail, packet⟩ := by
  have hblen : payload.length = e.payload.length := by
    rw [hb]
    refine length_overwrite ?_
    rw [length_toBe]
    split <;> omega
  unfold emit4 at h
  simp only [Act.get_bind, packet4_eq (hblen ▸ hfield) (hblen ▸ hlen)] at h
  rw [check_bind_ok, Act.modify_bind] at h
  obtain ⟨packets, hcut, hpure⟩ := check_bind h
  cases hpure
  have hflags : flags4 payload.length id.isNone = 0 ∨ flags4 payload.length id.isNone = 0x40 := by
    unfold flags4 lengthFlags
    split
    · split
      · exact .inr rfl
      · exact .inl rfl
    · exact .inl rfl
  obtain ⟨p, hparse, hbytes, hout⟩ : ∃ p, Packet.parse _ = .ok p ∧ p.bytes = _ ∧
      Outward e class_ pool dest port p :=
    outward_plain hp hfield hlong hlen hhop class_
      ((id.map UInt32.toNat).getD t.identification.toNat) hflags port hb
  rw [← hbytes] at hparse
  have hcut' : fragment p.bytes t.mtus.ail (UInt32.ofNat (u16At p.bytes 4)) = .ok packets := by
    rw [hbytes]
    exact hcut
  exact ⟨rfl, p, _, packets, hout, hparse, hcut', rfl⟩

/-- A datagram to the AIL that is not refused for its length is sent on, unless it is a segment of
no connection. -/
theorem translateOut_outgoing (hinv : t.bindings.Inv)
    (htr : Translatable t sourceAllowed reachable d e pool dest sport dport) (hne : dest ≠ pool)
    (h : translateOut d e e.nextHeader pool dest sport dport now rng (t.aimed e) = (.ok out, t')) :
    ((t.aimed e).Stray e sport dport dest now ∧ out = []) ∨
      ∃ port, Outgoing t t' d e pool dest sport dport port out := by
  obtain ⟨hfield, hlong, -⟩ := htr.long
  obtain ⟨assigned, t₁, hassign, h⟩ := Act.bind_eq_ok h
  cases assigned with
  | none =>
    cases h
    exact .inl ⟨(assign_eq_none htr.transport hassign).1 rfl, rfl⟩
  | some assigned =>
    have hbound := assign_bound (aimed_inv hinv e) htr.transport hassign
    simp only [if_neg hne] at h
    obtain ⟨hsame, p, id, packets, hout, hparse, hcut, hmap⟩ :=
      emit4_faithful htr.transport hfield hlong htr.short htr.hop rfl h
    have hmtus : t₁.mtus = t.mtus := by
      obtain ⟨bindings, rfl⟩ := hbound.others
      exact aimed_mtus t e
    rw [hmtus] at hcut
    refine .inr ⟨assigned, p, id, packets, hout, hparse, hcut, hmap, ?_, ?_⟩
    · rw [hsame]
      exact hbound.inv
    · rw [hsame]
      exact hbound.holds

/-- What comes of a datagram to the pool. It gets no port and is dropped, or it is turned back to
the host that the port belongs to. -/
theorem translateOut_returning (hinv : t.bindings.Inv)
    (htr : Translatable t sourceAllowed reachable d e pool pool sport dport)
    (h : translateOut d e e.nextHeader pool pool sport dport now rng (t.aimed e) = (.ok out, t')) :
    out = [] ∨ Returning t t' d e pool sport dport out := by
  obtain ⟨hfield, hlong, -⟩ := htr.long
  obtain ⟨assigned, t₁, hassign, h⟩ := Act.bind_eq_ok h
  cases assigned with
  | none =>
    cases h
    exact .inl rfl
  | some assigned =>
    have hbound := assign_bound (aimed_inv hinv e) htr.transport hassign
    simp only [if_true] at h
    rcases hairpin_faithful hbound.inv htr.transport hfield hlong htr.hop rfl h with
      hnil | ⟨target, port, packet, r, hback, hout, hr, hsender⟩
    · exact .inl hnil
    · exact .inr ⟨assigned, t₁, target, port, packet, r, hbound, hback, hout, hr, hsender⟩

/-- What is sent for a datagram from the stub link. One that may be translated is answered with
Packet Too Big, sent on to the AIL or taken back to the stub link; any other is dropped, or brings
one error. -/
structure FromStub (t t' : Translator) (d : Datagram) (now : Nat) (sourceAllowed : Ipv6Addr → Bool)
    (reachable : Ipv4Addr → Bool) (out : List Tx) : Prop where
  tooBig : ∀ {e : Envelope} {pool dest : Ipv4Addr} {sport dport : UInt16},
    Translatable t sourceAllowed reachable d e pool dest sport dport →
    t.tooBig d e pool dest = true →
    out = [] ∨ ∃ tx, out = [tx] ∧ Answer6 e 2 (max (satAdd32 t.mtus.ail 20) 1280) tx
  sent : ∀ {e : Envelope} {pool dest : Ipv4Addr} {sport dport : UInt16},
    Translatable t sourceAllowed reachable d e pool dest sport dport →
    t.tooBig d e pool dest = false → dest ≠ pool →
    ((t.aimed e).Stray e sport dport dest now ∧ out = []) ∨
      ∃ port, Outgoing t t' d e pool dest sport dport port out
  returned : ∀ {e : Envelope} {pool : Ipv4Addr} {sport dport : UInt16},
    Translatable t sourceAllowed reachable d e pool pool sport dport →
    out = [] ∨ Returning t t' d e pool sport dport out
  turned : (∀ (e : Envelope) (pool dest : Ipv4Addr) (sport dport : UInt16),
    ¬ Translatable t sourceAllowed reachable d e pool dest sport dport) → Turned t t' d now out

/-- Translation from the stub link is faithful, in every state with a sound table and for every
datagram. -/
theorem outbound_faithful (hinv : t.bindings.Inv)
    (h : outboundDatagram d now rng sourceAllowed reachable t = (.ok out, t')) :
    FromStub t t' d now sourceAllowed reachable out := by
  constructor
  · intro e pool dest sport dport htr hbig
    rw [htr.eq, if_pos hbig] at h
    rcases generate6_cases (by decide) h with ⟨-, tx, rfl, htx⟩ | ⟨-, rfl⟩
    · exact .inr ⟨tx, rfl, htx⟩
    · exact .inl rfl
  · intro e pool dest sport dport htr hsmall hne
    rw [htr.eq, if_neg (by rw [hsmall]; decide)] at h
    exact translateOut_outgoing hinv htr hne h
  · intro e pool sport dport htr
    rw [htr.eq, if_neg (by simp [tooBig])] at h
    exact translateOut_returning hinv htr h
  · intro hno
    rcases outboundDatagram_cases h with hturned | ⟨e, pool, dest, sport, dport, htr⟩
    · exact hturned
    · exact absurd htr (hno e pool dest sport dport)

end

end Translator

/-! ## From the AIL -/

/-- A packet from the AIL reaches the host whose session it belongs to. -/
def Delivered (t t' : Translator) (p : Packet) (sport dport : UInt16) (a : Ipv6Addr × UInt16)
    (out : List Tx) : Prop :=
  ∃ packet r packets,
    Bound t (sessionTo p.protocol a p.source sport t'.bindings.domain)
      (if p.protocol = 1 then sport else dport) t' ∧
    Inward (t'.synthesize p.source) a.1 (protocol6 p.protocol) p.trafficClass p.ttl a.2
      (written p.protocol (receiverField p.protocol)) p.payload packet r ∧
    (p.protocol = 1 → octet r.payload 0 = if octet p.payload 0 = 8 then 128 else 129) ∧
    fragment packet (if p.dontFragment then t.mtus.stub else min t.mtus.stub t.lowestIpv6Mtu)
      (UInt32.ofNat p.id) = .ok packets ∧
    out = packets.map fun packet => ⟨.stub, packet⟩

/-- The packet is let into the table: it is whole and right, and it is sent to the pool. -/
structure Welcome (t : Translator) (packet : Bytes) (p : Packet) (sport dport : UInt16) : Prop where
  parse : Packet.parse packet = .ok p
  exact : p.bytes.length = packet.length
  protocol : p.protocol ∈ ([1, 6, 17] : List UInt8)
  whole : p.fragmentOffset = 0 ∧ p.moreFragments = false
  query : p.protocol = 1 → p.payload.head?.any (fun kind => kind ∉ ([0, 8] : List UInt8)) = false
  ports : ports p.protocol p.payload = .ok (sport, dport)
  sum : ¬ ((p.protocol ≠ 17 ∨ u16At p.payload 6 ≠ 0) ∧
    checksum4 p.source p.destination p.protocol p.payload ≠ 0)
  pool : t.ipv4 = some p.destination
  source : unicast p.source = true
  direct : unexpiredSourceRoute p = .ok false
  hop : ¬ p.ttl ≤ 1
  small : t.tooBig4 p = false

/-- A welcome packet has octets to be quoted. -/
theorem Welcome.bytes {t : Translator} {packet : Bytes} {p : Packet} {sport dport : UInt16}
    (h : Welcome t packet p sport dport) : p.bytes ≠ [] := by
  intro hnil
  have hlen := (parse_ok h.parse).1
  rw [← h.exact, hnil] at hlen
  exact absurd hlen (by decide)

namespace Translator

section

variable {t t' : Translator} {p : Packet} {packet : Bytes} {sport dport : UInt16} {now : Nat}
  {out : List Tx}

/-- What is done with a packet that is let in. Each check of `inbound` is passed by one of the
clauses of `Welcome`. -/
theorem inbound_eq (h : Welcome t packet p sport dport) :
    inbound packet now t = translateIn p sport dport now t := by
  have hrefused : ¬ (p.bytes.length ≠ packet.length ∨ p.protocol ∉ ([1, 6, 17] : List UInt8) ∨
      p.fragmentOffset ≠ 0 ∨ p.moreFragments) := by
    rintro (hlen | hproto | hoffset | hmore)
    · exact hlen h.exact
    · exact hproto h.protocol
    · exact hoffset h.whole.1
    · rw [h.whole.2] at hmore
      cases hmore
  have hquery : ¬ (p.protocol = 1 ∧
      p.payload.head?.any fun kind => kind ∉ ([0, 8] : List UInt8)) := by
    rintro ⟨hicmp, hkind⟩
    rw [h.query hicmp] at hkind
    cases hkind
  unfold inbound
  rw [h.parse, check_bind_ok, if_neg hrefused, if_neg hquery, h.ports, check_bind_ok]
  simp only
  rw [Act.get_bind, if_neg h.sum, if_neg, h.direct, check_bind_ok, if_neg]
  · rintro (hhop | hroute | hbig)
    · exact h.hop hhop
    · cases hroute
    · rw [h.small] at hbig
      cases hbig
  · rintro (hpool | hsource)
    · exact hpool h.pool
    · rw [h.source] at hsource
      cases hsource

/-- What is done with a packet that is not let in: nothing, an error to its source, or, if it is an
error itself, that error to the host of a live session. -/
inductive Repelled (t t' : Translator) (packet : Bytes) (now : Nat) (out : List Tx) : Prop
  | dropped (none : out = [])
  | answered {p : Packet} (read : Packet.parse packet = .ok p) (pool : t.ipv4 = some p.destination)
      (answer : Answered4 p out)
  | relayed {p : Packet} (read : Packet.parse packet = .ok p) (protocol : p.protocol = 1)
      (message : p.payload.head?.any (fun kind => kind ∉ ([0, 8] : List UInt8)) = true)
      (sent : Relayed6 t t' p.source now out)

/-- A packet is let in, or at most one error comes of it. The checks of `inbound` come in the order
of the source, and each that turns the packet away drops it, answers it, or passes an error on to a
host; a packet that passes all of them is welcome. -/
theorem inbound_welcome (h : inbound packet now t = (.ok out, t')) :
    Repelled t t' packet now out ∨ ∃ p sport dport, Welcome t packet p sport dport := by
  obtain ⟨p, hparse, h⟩ := check_bind h
  split at h
  · cases h
  · next hrefused =>
    simp only [not_or, not_not, Bool.not_eq_true] at hrefused
    obtain ⟨hexact, hproto, hoffset, hmore⟩ := hrefused
    split at h
    · next hmessage =>
      split at h
      · cases h
        exact .inl (.dropped rfl)
      · rcases error4_cases h with hnil | hsent
        · exact .inl (.dropped hnil)
        · exact .inl (.relayed hparse hmessage.1 hmessage.2 hsent)
    · next hquery =>
      obtain ⟨⟨sport, dport⟩, hports, h⟩ := check_bind h
      simp only [Act.get_bind] at h
      split at h
      · cases h
      · next hsum =>
        split at h
        · cases h
          exact .inl (.dropped rfl)
        · next hpool =>
          simp only [not_or, not_not, Bool.not_eq_false] at hpool
          obtain ⟨route, hroute, h⟩ := check_bind h
          split at h
          · rcases refuseIn_cases h with hnil | hanswer
            · exact .inl (.dropped hnil)
            · exact .inl (.answered hparse hpool.1 hanswer)
          · next hok =>
            simp only [not_or, Bool.not_eq_true] at hok
            obtain ⟨hhop, rfl, hsmall⟩ := hok
            refine .inr ⟨p, sport, dport, hparse, hexact, hproto, ⟨hoffset, hmore⟩, fun hicmp => ?_,
              hports, hsum, hpool.1, hpool.2, hroute, hhop, hsmall⟩
            simpa [hicmp] using hquery

/-- The receiver is named at one place on both sides. -/
theorem receiverField_protocol6 (protocol : UInt8) :
    receiverField (protocol6 protocol) = receiverField protocol := by
  unfold protocol6
  split
  · next h1 => rw [h1]; rfl
  · rfl

/-- The checksum is at one place on both sides. -/
theorem checksumOffset_protocol6 (protocol : UInt8) :
    checksumOffset (protocol6 protocol) = checksumOffset protocol := by
  unfold protocol6
  split
  · next h1 => rw [h1]; rfl
  · rfl

/-- The protocols on one side are those on the other. -/
theorem protocol6_mem {protocol : UInt8} (h : protocol ∈ ([1, 6, 17] : List UInt8)) :
    protocol6 protocol ∈ ([6, 17, 58] : List UInt8) := by
  have hcases : protocol = 1 ∨ protocol = 6 ∨ protocol = 17 := by simpa using h
  rcases hcases with rfl | rfl | rfl <;> decide

/-- The transport octets for a host have its port, and the type of an echo message. For ICMP the
identifier is in place of the port and the type is translated; all other octets are carried over. -/
theorem payload6_carries (hp : p.protocol ∈ ([1, 6, 17] : List UInt8))
    (hlong : 8 ≤ p.payload.length) (port : UInt16) :
    Carries (List.range' (receiverField p.protocol) 2 ++ if p.protocol =
      1 then [0] else []) p.payload
        (payload6 p port) ∧
      u16At (payload6 p port) (receiverField p.protocol) = port.toNat ∧
      (p.protocol = 1 → octet (payload6 p port) 0 = if octet p.payload 0 =
       8 then 128 else 129) := by
  have hcases : p.protocol = 1 ∨ p.protocol = 6 ∨ p.protocol = 17 := by simpa using hp
  unfold payload6
  by_cases h1 : p.protocol = 1
  · rw [if_pos h1, if_pos h1, h1]
    have hported := carries_overwrite (length_toBe 2 port.toNat)
      (show 4 + 2 ≤ p.payload.length by omega)
    have hlen := hported.length
    have hkind : [if octet p.payload 0 = 8 then (128 : UInt8) else 129].length = 1 := rfl
    have htyped := carries_overwrite hkind
      (show 0 + 1 ≤ (overwrite p.payload 4 (toBe 2 port.toNat)).length by omega)
    refine ⟨hported.trans htyped, ?_, fun _ => ?_⟩
    · show ofBe [octet _ 4, octet _ 5] = _
      rw [htyped.rest 4 (by decide), htyped.rest 5 (by decide)]
      exact u16At_overwrite_self (by omega) port.toNat_lt
    · obtain ⟨x, rest, hcons⟩ := List.exists_cons_of_length_pos
        (show 0 < (overwrite p.payload 4 (toBe 2 port.toNat)).length by omega)
      rw [hcons]
      rfl
  · rw [if_neg h1, if_neg h1, List.append_nil]
    have hfield : receiverField p.protocol = 2 := by
      rcases hcases with h | h | h
      · exact absurd h h1
      · rw [h]
        rfl
      · rw [h]
        rfl
    rw [hfield]
    exact ⟨carries_overwrite (length_toBe 2 _) (by omega),
      u16At_overwrite_self (by omega) port.toNat_lt, fun h => absurd h h1⟩

/-- What is changed in a packet is in a list that depends on the protocol only: the port or
identifier, the type of an ICMP message and the checksum. -/
theorem mem_written {protocol : UInt8} {field i : Nat}
    (h : i ∈ (List.range' field 2 ++ if protocol = 1 then [0] else []) ++
      List.range' (checksumOffset protocol) 2) : i ∈ written protocol field := by
  rcases List.mem_append.1 h with h | hsum
  · rcases List.mem_append.1 h with hfield | htype
    · exact List.mem_append_left _ (List.mem_append_left _ hfield)
    · by_cases h1 : protocol = 1
      · rw [if_pos h1] at htype
        refine List.mem_append_right _ ?_
        rw [if_pos (.inl h1)]
        exact htype
      · rw [if_neg h1] at htype
        cases htype
  · exact List.mem_append_left _ (List.mem_append_right _ hsum)

/-- A packet that is let in is sent on in place of the one from the AIL, or nothing is sent when the
table has no host for it. The packet is encoded with the host's address and port
(`payload6_carries`) and cut to the MTU of the stub link. -/
theorem translateIn_faithful (hinv : t.bindings.Inv) (hw : Welcome t packet p sport dport)
    (h : translateIn p sport dport now t = (.ok out, t')) :
    (inboundTarget p sport dport now t = (.ok none, t') ∧ out = []) ∨
      ∃ a, inboundTarget p sport dport now t = (.ok (some a), t') ∧
        Delivered t t' p sport dport a out := by
  obtain ⟨hfield, hlong, -⟩ := ports_long hw.ports
  unfold translateIn at h
  obtain ⟨found, t₁, htarget, h⟩ := Act.bind_eq_ok h
  cases found with
  | none =>
    cases h
    exact .inl ⟨htarget, rfl⟩
  | some a =>
    simp only [Act.get_bind] at h
    obtain ⟨whole, henc, h⟩ := check_bind h
    obtain ⟨packets, hcut, hpure⟩ := check_bind h
    cases hpure
    have hbound := inboundTarget_bound hinv hw.protocol hw.bytes htarget
    obtain ⟨hcarries, hport, htype⟩ := payload6_carries hw.protocol hlong a.2
    have hfield' : checksumOffset (protocol6 p.protocol) + 2 ≤ (payload6 p a.2).length := by
      rw [checksumOffset_protocol6, hcarries.length]
      exact hfield
    rw [← receiverField_protocol6] at hport
    obtain ⟨r, hr, hfirst⟩ :=
      inward_encode6 (protocol6_mem hw.protocol) hfield' hw.hop hcarries hport
      henc
    have hmtus : t'.mtus = t.mtus ∧ t'.lowestIpv6Mtu = t.lowestIpv6Mtu := by
      obtain ⟨bindings, rfl⟩ := hbound.others
      exact ⟨rfl, rfl⟩
    rw [hmtus.1, hmtus.2] at hcut
    refine .inr ⟨a, htarget, whole, r, packets, hbound,
      { hr with carries := hr.carries.mono fun i hi => ?_ }, fun h1 => ?_, hcut, rfl⟩
    · rw [checksumOffset_protocol6] at hi
      exact mem_written hi
    · rw [hfirst (by rw [h1]; rfl)]
      exact htype h1

/-- What is sent for a packet from the AIL. One that is let in reaches its host, unless the bindings
have none for it; any other is dropped, or brings one error. -/
structure FromAil (t t' : Translator) (packet : Bytes) (now : Nat) (out : List Tx) : Prop where
  delivered : ∀ {p : Packet} {sport dport : UInt16}, Welcome t packet p sport dport →
    (inboundTarget p sport dport now t = (.ok none, t') ∧ out = []) ∨
      ∃ a, inboundTarget p sport dport now t = (.ok (some a), t') ∧
        Delivered t t' p sport dport a out
  repelled : (∀ (p : Packet) (sport dport : UInt16), ¬ Welcome t packet p sport dport) →
    Repelled t t' packet now out

/-- Translation from the AIL is faithful, in every state with a sound table and for every packet. A
packet that is welcome is delivered or brings nothing, and any other is repelled. -/
theorem inbound_faithful (hinv : t.bindings.Inv) (h : inbound packet now t = (.ok out, t')) :
    FromAil t t' packet now out := by
  constructor
  · intro p sport dport hw
    rw [inbound_eq hw] at h
    exact translateIn_faithful hinv hw h
  · intro hno
    rcases inbound_welcome h with hrepelled | ⟨p, sport, dport, hw⟩
    · exact hrepelled
    · exact absurd hw (hno p sport dport)

end

/-! ## There and back -/

/-- The address in a translated one is read back. It is the last four octets, which as a number are
the remainder. -/
theorem value_extract (a : Ipv6Addr) : ofBe (extract a).1 = a.value % 2 ^ 32 := by
  have hlen := a.2
  have htail : (extract a).1 = a.1.drop 12 := by
    show (a.1.drop 12 ++ List.replicate 4 0).take 4 = _
    rw [List.take_append_of_le_length (by rw [List.length_drop]; omega), List.take_of_length_le]
    rw [List.length_drop]
    omega
  have hsplit := ofBe_append (a.1.take 12) (a.1.drop 12)
  have hlt := ofBe_lt (a.1.drop 12)
  rw [List.take_append_drop] at hsplit
  rw [List.length_drop, hlen] at hsplit hlt
  rw [htail, Ipv6Addr.value, hsplit]
  omega

/-- A host's address of a destination is what the destination's answers come from. The prefix has 96
bits, so the address is the prefix and the four octets behind it. -/
theorem synthesize_extract {t : Translator} {p : Prefix} {a : Ipv6Addr} (hlen : p.length = 96)
    (hp : p.contains a = true) (hdomain : t.bindings.domain = p.address) :
    t.synthesize (extract a) = a := by
  have hnew : Prefix.new a 96 = some p := by
    unfold Prefix.contains at hp
    rw [hlen] at hp
    exact eq_of_beq hp
  have haddress : p.address = .ofValue (2 ^ 32 * (a.value / 2 ^ 32)) := by
    rw [Prefix.new, if_neg (by decide)] at hnew
    cases hnew
    rw [Nat.mul_comm]
    rfl
  have hlt := a.value_lt
  have hor := Nat.two_pow_add_eq_or_of_lt (i := 32) (Nat.mod_lt a.value (by omega))
    (a.value / 2 ^ 32)
  unfold synthesize
  rw [hdomain, haddress, value_extract, Ipv6Addr.value_ofValue,
    Nat.mod_eq_of_lt (by omega), ← hor, Nat.div_add_mod, Ipv6Addr.ofValue_value]

/-- A packet from the AIL that a host's session receives. -/
structure Answers (n : SessionKey) (port : UInt16) (p : Packet) (sport dport : UInt16) : Prop where
  protocol : p.protocol = n.1.protocol
  remote : n.2 = ⟨p.source, if p.protocol = 1 then 0 else sport⟩
  port : (if p.protocol = 1 then sport else dport) = port

/-- The call of the table for a packet from the AIL. -/
def callIn (p : Packet) (sport dport : UInt16) : Call :=
  if p.protocol = 17 then .udpIn dport ⟨p.source, sport⟩
  else if p.protocol = 1 then .icmpIn sport p.source
  else .tcpInPacket dport ⟨p.source, sport⟩ (octet p.payload 13) p.bytes

section

variable {t : Translator} {p : Packet} {packet : Bytes} {sport dport port : UInt16} {now : Nat}
  {n : SessionKey} {b' : Bindings} {a : Ipv6Addr × UInt16}

/-- A packet that comes in keeps the promise that it has octets. -/
theorem callIn_promised (hbytes : p.bytes ≠ []) : (callIn p sport dport).Promised := by
  unfold callIn
  split
  · trivial
  · split
    · trivial
    · exact hbytes

/-- An answer is for the port of the session that it answers. One case for each protocol. -/
theorem callIn_inboundTo (hp : p.protocol ∈ ([1, 6, 17] : List UInt8))
    (h : Answers n port p sport dport) :
    (callIn p sport dport).inboundTo (n.1.protocol, port) n.2 := by
  have hcases : p.protocol = 1 ∨ p.protocol = 6 ∨ p.protocol = 17 := by simpa using hp
  obtain ⟨hproto, hremote, hport⟩ := h
  unfold callIn
  rw [hremote, ← hport, ← hproto]
  rcases hcases with h1 | h6 | h17
  · rw [h1]
    exact ⟨rfl, rfl⟩
  · rw [h6]
    exact ⟨rfl, rfl⟩
  · rw [h17]
    exact ⟨rfl, rfl⟩

/-- The table's answer is the translator's: for each protocol `inboundTarget` makes the same call,
and the table turns only at the port of the packet. -/
theorem inboundTarget_call (hinv : t.bindings.Inv) (hbytes : p.bytes ≠ [])
    (h : t.bindings.call now (callIn p sport dport) = some (.internal (.ok (some a)), b')) :
    inboundTarget p sport dport now t = (.ok (some a), { t with bindings := b' }) ∧
      t.bindings.Turns now
        (if p.protocol = 17 then 17 else if p.protocol = 1 then 1 else 6,
          if p.protocol = 1 then sport else dport) b' := by
  unfold callIn at h
  unfold inboundTarget
  by_cases h17 : p.protocol = 17
  · rw [if_pos h17] at h
    obtain ⟨⟨r, b⟩, hr, heq⟩ := Option.map_eq_some_iff.1 h
    cases heq
    rw [if_pos h17, if_pos h17, if_neg (by rw [h17]; decide), onBindings, hr]
    obtain ⟨r', b'', hr', hends⟩ := Bindings.udpIn_spec hinv dport ⟨p.source, sport⟩ now
    rw [hr] at hr'
    cases hr'
    exact ⟨rfl, hends.turns⟩
  · rw [if_neg h17] at h
    rw [if_neg h17, if_neg h17]
    by_cases h1 : p.protocol = 1
    · rw [if_pos h1] at h
      obtain ⟨⟨r, b⟩, hr, heq⟩ := Option.map_eq_some_iff.1 h
      cases heq
      rw [if_pos h1, if_pos h1, if_pos h1, onBindings, hr]
      obtain ⟨r', b'', hr', hends⟩ := Bindings.icmpIn_spec hinv sport p.source now
      rw [hr] at hr'
      cases hr'
      exact ⟨rfl, hends.turns⟩
    · rw [if_neg h1] at h
      obtain ⟨⟨r, b⟩, hr, heq⟩ := Option.map_eq_some_iff.1 h
      cases heq
      rw [if_neg h1, if_neg h1, if_neg h1, onBindings, hr]
      obtain ⟨r', b'', hr', hends⟩ := Bindings.tcpInPacket_spec hinv dport ⟨p.source, sport⟩
        (octet p.payload 13) now hbytes
      rw [hr] at hr'
      cases hr'
      rcases hends with ⟨b₁, key, -, -, herror, -⟩ | hends
      · cases herror
      · exact ⟨rfl, hends.turns⟩

/-- The domain after an inbound call of a session is that of the session. -/
theorem turns_domain (hinv : t.bindings.Inv) (hn : t.bindings.Holds n port)
    (hlive : ∀ s, t.bindings.sessions.get n = some s → s.live now)
    (h : t.bindings.Turns now (n.1.protocol, port) b') : b'.domain = n.1.domain := by
  obtain ⟨released, b₁, key, hexp, hr, hdomain⟩ := h
  obtain ⟨released', b₂, hexp', he⟩ := hinv.expire now
  rw [hexp] at hexp'
  cases hexp'
  have hr' := (he.holds hn hlive).reverse he.inv
  rw [hr] at hr'
  cases hr'
  exact hdomain

/-- A packet to a session that is there finds its host. The call of the table is one that a live
session answers (`inbound_served`), and its answer is that of the translator. -/
theorem inboundTarget_served (hinv : t.bindings.Inv) (hw : Welcome t packet p sport dport)
    (hn : t.bindings.Holds n port) (hlive : ∀ s, t.bindings.sessions.get n = some s → s.live now)
    (ha : Answers n port p sport dport)
    (hquote : ¬ t.bindings.QuoteRefused n now (callIn p sport dport)) :
    ∃ t', inboundTarget p sport dport now t = (.ok (some (n.1.host, n.1.port)), t') ∧
      t'.bindings.domain = n.1.domain := by
  have hcases : p.protocol = 1 ∨ p.protocol = 6 ∨ p.protocol = 17 := by simpa using hw.protocol
  obtain ⟨r, b', hcall, ⟨hrefused, -⟩ | ⟨-, rfl⟩⟩ := Bindings.inbound_served hinv
    (callIn_promised hw.bytes) hn hlive (callIn_inboundTo hw.protocol ha)
  · exact absurd hrefused hquote
  · obtain ⟨htarget, hturns⟩ := inboundTarget_call hinv hw.bytes hcall
    refine ⟨_, htarget, ?_⟩
    have hkey : (if p.protocol = 17 then 17 else if p.protocol = 1 then 1 else 6 : UInt8) =
        n.1.protocol := by
      rw [← ha.protocol]
      rcases hcases with h | h | h
      · rw [h]
        rfl
      · rw [h]
        rfl
      · rw [h]
        rfl
    rw [hkey, ha.port] at hturns
    exact turns_domain hinv hn hlive hturns

/-- The payload of a packet is within its length field, since the parser cuts the packet there. -/
theorem length_parse (h : Packet.parse packet = .ok p) : p.payload.length ≤ 65535 := by
  have hn := u16At_lt packet 2
  unfold Packet.parse Packet.parseInner at h
  split at h
  · cases h
  · simp only at h
    split at h
    · cases h
    · split at h
      · cases h
      · split at h
        · cases h
        · cases h
          simp only [List.length_drop, List.length_take]
          omega

/-- A translated packet can be cut for every link of the stub side. Its header is that of IPv6 with
40 octets, and the link takes at least 1280. -/
theorem fragment_stub {b : Bytes} {r : Envelope} {mtu : Nat} (id : UInt32)
    (hread : envelope .rawIpv6 b = .ok r) (hnext : r.nextHeader ∈ ([6, 17, 58] : List UInt8))
    (hmtu : 1280 ≤ mtu) : ∃ fs, fragment b mtu id = .ok fs := by
  unfold fragment
  split
  · exact ⟨_, rfl⟩
  · obtain ⟨hlong, hversion, -⟩ := envelope_ok hread
    have hlayout : fragmentLayout b mtu = .ok (40, 48) := by
      unfold fragmentLayout
      rw [version_eq (by omega), hversion, if_pos rfl, hread]
      simp only
      rw [if_neg (by
        rintro (hno | hshort)
        · exact hno hnext
        · omega)]
    rw [hlayout]
    simp only [bind, Except.bind]
    rw [if_neg (by omega)]
    exact ⟨_, rfl⟩

/-- A packet that is let in, and whose host is found, is delivered. Encoding does not fail, since
the packet was within the limits when it was read, and neither does cutting, as the MTU is at least
1280. -/
theorem translateIn_served {t' : Translator} (hinv : t.bindings.Inv) (ht : Sized t)
    (hlowest : 1280 ≤ t.lowestIpv6Mtu) (hw : Welcome t packet p sport dport)
    (htarget : inboundTarget p sport dport now t = (.ok (some a), t')) :
    ∃ out, translateIn p sport dport now t = (.ok out, t') ∧
    Delivered t t' p sport dport a out := by
  obtain ⟨hfield, hlong, -⟩ := ports_long hw.ports
  have hplen := length_payload6 a.2 hlong
  have hfield' : checksumOffset (protocol6 p.protocol) + 2 ≤ (payload6 p a.2).length := by
    rw [checksumOffset_protocol6, hplen]
    exact hfield
  obtain ⟨whole, henc⟩ := encode6_ok (t'.synthesize p.source) a.1 p.trafficClass (p.ttl - 1) hfield'
    (by rw [hplen]; exact length_parse hw.parse)
  obtain ⟨-, hread⟩ := encode6_eq_ok hfield' henc
  obtain ⟨bindings, hsame⟩ := (inboundTarget_bound hinv hw.protocol hw.bytes htarget).others
  have hmtu :
      1280 ≤ if p.dontFragment then t'.mtus.stub else min t'.mtus.stub t'.lowestIpv6Mtu := by
    have hstub := ht.stub.1
    rw [hsame]
    split <;> simp only <;> omega
  obtain ⟨fs, hcut⟩ := fragment_stub (UInt32.ofNat p.id) hread (protocol6_mem hw.protocol) hmtu
  have hrun :
      translateIn p sport dport now t = (.ok (fs.map fun packet => ⟨.stub, packet⟩), t') := by
    unfold translateIn
    rw [Act.bind_run, htarget]
    simp only [Act.get_bind]
    change (check (encode6 (protocol6 p.protocol) _ _ _ _ _) >>= _) t' = _
    rw [henc, check_bind_ok, hcut, check_bind_ok]
    rfl
  rcases translateIn_faithful hinv hw hrun with ⟨hno, -⟩ | ⟨a', htarget', hdelivered⟩
  · rw [htarget] at hno
    cases hno
  · rw [htarget] at htarget'
    cases htarget'
    exact ⟨_, hrun, hdelivered⟩

end

/-- A packet that answers a datagram, while the session of the datagram is live, reaches its sender
from the address that the datagram was sent to. -/
theorem answer_returns {t s : Translator} {sourceAllowed : Ipv6Addr → Bool}
    {reachable : Ipv4Addr → Bool} {d : Datagram} {e : Envelope} {pool dest : Ipv4Addr}
    {sport dport port : UInt16} {now : Nat} {packet : Bytes} {p : Packet} {sport' dport' : UInt16}
    (hprefixes : ∀ q ∈ t.prefixes, q.length = 96)
    (htr : Translatable t sourceAllowed reachable d e pool dest sport dport) {n : SessionKey}
    (hsession : n = sessionOf (t.aimed e).bindings.domain e sport dport dest)
    (hs : s.bindings.Inv) (hsized : Sized s) (hlowest : 1280 ≤ s.lowestIpv6Mtu)
    (hn : s.bindings.Holds n port) (hlive : ∀ x, s.bindings.sessions.get n = some x → x.live now)
    (hw : Welcome s packet p sport' dport') (ha : Answers n port p sport' dport')
    (hquote : ¬ s.bindings.QuoteRefused n now (callIn p sport' dport')) :
    ∃ out s', inbound packet now s = (.ok out, s') ∧
      Delivered s s' p sport' dport' (e.source, sport) out ∧
      s'.synthesize p.source = e.destination := by
  obtain ⟨s', htarget, hdomain⟩ := inboundTarget_served hs hw hn hlive ha hquote
  obtain ⟨out, hrun, hdelivered⟩ := translateIn_served hs hsized hlowest hw htarget
  subst hsession
  refine ⟨out, s', (inbound_eq hw).trans hrun, hdelivered, ?_⟩
  obtain ⟨q, hq⟩ := htr.aims
  have hcontains : q.contains e.destination = true := (List.find?_eq_some_iff_append.1 hq).1
  have hsource : p.source = extract e.destination :=
    (congrArg SocketAddrV4.ip ha.remote).symm.trans htr.goal
  have haimed : (t.aimed e).bindings.domain = q.address := by
    unfold aimed
    rw [hq]
  rw [hsource]
  exact synthesize_extract (hprefixes q (List.mem_of_find?_eq_some hq)) hcontains
    (hdomain.trans haimed)

/-- There and back: a datagram that is sent to the AIL leaves under a port, and from then on each
packet that answers it there, in whatever state of the translator in which its session is still
there and live, is delivered to its sender, from the address that it was sent to. -/
theorem there_and_back {t t' : Translator} {sourceAllowed : Ipv6Addr → Bool}
    {reachable : Ipv4Addr → Bool} {d : Datagram} {rng : Random} {e : Envelope}
    {pool dest : Ipv4Addr} {sport dport : UInt16} {now : Nat} {out : List Tx}
    (hinv : t.bindings.Inv) (hprefixes : ∀ q ∈ t.prefixes, q.length = 96)
    (htr : Translatable t sourceAllowed reachable d e pool dest sport dport) (hne : dest ≠ pool)
    (hsmall : t.tooBig d e pool dest = false)
    (hrun : outboundDatagram d now rng sourceAllowed reachable t = (.ok out, t'))
    (hsent : out ≠ []) :
    ∃ port, Outgoing t t' d e pool dest sport dport port out ∧
      ∀ (n : SessionKey) (s : Translator) (now' : Nat) (packet : Bytes) (p : Packet)
        (sport' dport' : UInt16),
        n = sessionOf (t.aimed e).bindings.domain e sport dport dest →
        s.bindings.Inv → Sized s → 1280 ≤ s.lowestIpv6Mtu → s.bindings.Holds n port →
        (∀ x, s.bindings.sessions.get n = some x → x.live now') →
        Welcome s packet p sport' dport' → Answers n port p sport' dport' →
        ¬ s.bindings.QuoteRefused n now' (callIn p sport' dport') →
        ∃ back s', inbound packet now' s = (.ok back, s') ∧
          Delivered s s' p sport' dport' (e.source, sport) back ∧
          s'.synthesize p.source = e.destination := by
  rw [htr.eq, if_neg (by rw [hsmall]; exact Bool.false_ne_true)] at hrun
  rcases translateOut_outgoing hinv htr hne hrun with ⟨-, hnil⟩ | ⟨port, hout⟩
  · exact absurd hnil hsent
  · refine ⟨port, hout, ?_⟩
    intro n s now' packet p sport' dport' hn hs hsized hlowest hholds hlive hw ha hquote
    exact answer_returns hprefixes htr hn hs hsized hlowest hholds hlive hw ha hquote

/-- A UDP message from port 5000 to port 53. -/
def queryMessage : Bytes := [19, 136, 0, 53, 0, 8, 252, 101]

/-- A host sends the message to a server behind the translator. -/
def queryDatagram : Datagram where
  packet := [0x60, 0, 0, 0] ++ toBe 2 queryMessage.length ++ [17, 64] ++ hostAddress.1 ++
    serverAddress6.1 ++ queryMessage
  fragmentId := none

/-- The server's answer on the AIL. -/
def answerPacket : Packet where
  source := serverAddress
  destination := poolAddress
  ttl := 64
  protocol := 17
  payload := [0, 53, 19, 136, 0, 8, 238, 29]
  bytes := [0x45, 0, 0, 28, 0, 7, 0, 0, 64, 17, 124, 199, 192, 0, 2, 1, 203, 0,
    113, 1, 0, 53, 19, 136, 0, 8, 238, 29]
  headerLen := 20
  fragmentOffset := 0
  moreFragments := false
  dontFragment := false
  id := 7
  trafficClass := 0

/-- The translator after the message. -/
def askedTranslator : Translator :=
  (outboundDatagram queryDatagram 0 (fun _ _ => .ok 0) (fun _ => true) (fun _ => true)
    narrowTranslator).2

/-- The table of the sample keeps its invariant. -/
theorem narrowTranslator_inv : narrowTranslator.bindings.Inv :=
  ((Bindings.withPorts_inv Ports.default_ok).configure wellKnown.address
    (Bindings.withPorts Ports.default).udpFiltering (Bindings.withPorts Ports.default).udpSeconds
    (Bindings.withPorts Ports.default).icmpSeconds).inv

/-- The query of the sample is translatable. Every condition is evaluated for its header and its
message. -/
theorem queryDatagram_translatable :
    Translatable narrowTranslator (fun _ => true) (fun _ => true) queryDatagram
      ⟨queryDatagram.packet, queryMessage, hostAddress, serverAddress6, 17, 64⟩ poolAddress
      serverAddress 5000 53 := by
  refine ⟨⟨_, 40, envelope_written rfl (by decide) (by decide), rfl, rfl, rfl⟩, ?_, rfl,
    by decide, by decide, by decide, fun h => absurd h.1 (by decide), by decide,
    (ports_udp _).trans (by decide), ?_, by decide⟩
  · show 8 ≤ 65515
    omega
  · rintro (⟨-, h⟩ | h)
    · cases (show 64613 = 0 from h)
    · refine h ?_
      show checksum6 hostAddress serverAddress6 17 queryMessage = 0
      rw [checksum6_eq, checksum_eq_zero, wordSum_append (length_pseudo6 _ _ _ _)]
      decide

/-- The answer of the sample is welcome. Every condition is evaluated for its header, its message
and the session that the query has left. -/
theorem answerPacket_welcome : Welcome askedTranslator answerPacket.bytes answerPacket 53 5000 := by
  refine ⟨?_, rfl, by decide, ⟨rfl, rfl⟩, fun h => absurd h (by decide),
    (ports_udp _).trans (by decide), ?_, by decide +kernel, by decide,
    rfl, by decide, by decide +kernel⟩
  · exact parse_written (b := [0, 53, 19, 136, 0, 8, 238, 29])
      (show answerPacket.bytes = _ ++ serverAddress.1 ++ poolAddress.1 ++ _ from rfl) (by decide)
      (.inl rfl) (checksum_eq_zero.2 (by decide))
  · rintro ⟨-, h⟩
    refine h ?_
    show checksum4 serverAddress poolAddress 17 answerPacket.payload = 0
    rw [checksum4_eq, checksum_eq_zero, wordSum_append (length_pseudo4 _ _ _ _)]
    decide

/-- The query of the sample goes out. The run is evaluated, and its result is not empty. -/
theorem askedTranslator_sends : ∃ out, outboundDatagram queryDatagram 0 (fun _ _ => .ok 0)
    (fun _ => true) (fun _ => true) narrowTranslator = (.ok out, askedTranslator) ∧ out ≠ [] := by
  have hsome : (outboundDatagram queryDatagram 0 (fun _ _ => .ok 0) (fun _ => true) (fun _ => true)
      narrowTranslator).1.map List.isEmpty = .ok false := by
    decide +kernel
  cases hrun : (outboundDatagram queryDatagram 0 (fun _ _ => .ok 0) (fun _ => true) (fun _ => true)
      narrowTranslator).1 with
  | error e =>
    rw [hrun] at hsome
    cases hsome
  | ok out =>
    rw [hrun] at hsome
    refine ⟨out, Prod.ext hrun rfl, ?_⟩
    rintro rfl
    cases hsome

/-- The theorem applied to a query over UDP, which leaves the translator as one datagram. -/
theorem outbound_faithful_query :
    ∃ out, out ≠ [] ∧ ∃ port, Outgoing narrowTranslator askedTranslator
    queryDatagram ⟨queryDatagram.packet, queryMessage, hostAddress, serverAddress6,
      17, 64⟩ poolAddress
    serverAddress 5000 53 port out := by
  obtain ⟨out, hrun, hne⟩ := askedTranslator_sends
  have hfaithful := outbound_faithful narrowTranslator_inv hrun
  rcases hfaithful.sent queryDatagram_translatable (by decide) (by decide) with ⟨-, hnil⟩ | hsent
  · exact absurd hnil hne
  · exact ⟨out, hne, hsent⟩

/-- The table after the query keeps its invariant. -/
theorem askedTranslator_inv : askedTranslator.bindings.Inv := by
  obtain ⟨out, hrun, hne⟩ := askedTranslator_sends
  rw [queryDatagram_translatable.eq, if_neg (by decide)] at hrun
  rcases translateOut_outgoing narrowTranslator_inv queryDatagram_translatable (by decide) hrun with
    ⟨-, hnil⟩ | ⟨port, p, id, packets, -, -, -, -, hinv, -⟩
  · exact absurd hnil hne
  · exact hinv

/-- The theorem applied to the answer to the query, which is delivered to the host that has
asked. -/
theorem inbound_faithful_answer : ∃ out t' a, out ≠ [] ∧
    inbound answerPacket.bytes 0 askedTranslator = (.ok out, t') ∧
    Delivered askedTranslator t' answerPacket 53 5000 a out := by
  have hok : (inbound answerPacket.bytes 0 askedTranslator).1.map List.length = .ok 1 := by
    decide +kernel
  cases hrun : inbound answerPacket.bytes 0 askedTranslator with
  | mk r t' =>
    cases r with
    | error e =>
      rw [hrun] at hok
      cases hok
    | ok out =>
      have hne : out ≠ [] := by
        rintro rfl
        rw [hrun] at hok
        cases hok
      have hfaithful := inbound_faithful askedTranslator_inv hrun
      rcases hfaithful.delivered answerPacket_welcome with ⟨-, hnil⟩ | ⟨a, -, hdelivered⟩
      · exact absurd hnil hne
      · exact ⟨out, t', a, hne, rfl, hdelivered⟩

/-- The theorem applied to the query and its answer. The query opens a session with port 5000, and
the answer from the server is welcome there and delivered to the host. -/
theorem there_and_back_query : ∃ out port, Outgoing narrowTranslator askedTranslator queryDatagram
      ⟨queryDatagram.packet, queryMessage, hostAddress, serverAddress6, 17, 64⟩ poolAddress
      serverAddress 5000 53 port out ∧
    ∃ back s', inbound answerPacket.bytes 0 askedTranslator = (.ok back, s') ∧
      Delivered askedTranslator s' answerPacket 53 5000 (hostAddress, 5000) back ∧
      s'.synthesize serverAddress = serverAddress6 := by
  obtain ⟨out, hrun, hne⟩ := askedTranslator_sends
  obtain ⟨port, hout, hback⟩ := there_and_back narrowTranslator_inv (by decide)
    queryDatagram_translatable (by decide) (by decide) hrun hne
  obtain ⟨-, -, -, -, -, -, -, hinv, hholds⟩ := id hout
  have hplace : (askedTranslator.bindings.place
      (⟨17, hostAddress, 5000, wellKnown.address⟩ : Key)).map Prod.fst = some 5000 := by
    decide +kernel
  have hlive : ((askedTranslator.bindings.sessions.get
      ((⟨17, hostAddress, 5000, wellKnown.address⟩, ⟨serverAddress, 53⟩) : SessionKey)).all
        fun x => decide (0 < x.expires)) = true := by
    decide +kernel
  obtain ⟨l, hl⟩ := hholds.place
  obtain rfl : port = 5000 := by
    have h := hplace
    rw [show askedTranslator.bindings.place ⟨17, hostAddress, 5000, wellKnown.address⟩ =
      some (port, l) from hl] at h
    exact Option.some.inj h
  refine ⟨out, 5000, hout, hback _ askedTranslator 0 answerPacket.bytes answerPacket
    53 5000 rfl hinv
    ?_ (by decide +kernel) hholds ?_ answerPacket_welcome ⟨rfl, rfl, rfl⟩ id⟩
  · constructor <;> decide +kernel
  · intro x hx
    have hx' : askedTranslator.bindings.sessions.get
      ((⟨17, hostAddress, 5000, wellKnown.address⟩, ⟨serverAddress, 53⟩) : SessionKey) = some x :=
      hx
    rw [hx'] at hlive
    exact .inl (of_decide_eq_true hlive)

end Translator

end SnacMachine.Nat64
