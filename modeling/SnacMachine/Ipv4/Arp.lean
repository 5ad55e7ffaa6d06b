import SnacMachine.Nat64.Quotes
import SnacMachine.Nat64.Translate

/-!
# ARP messages

ARP messages on Ethernet (`ipv4/wire.rs`). A message that is `Sound` for the address of its frame is
read as it is written (`Arp.parse_encode`), also with octets after it; a message that is read is
`Sound` (`Arp.sound`).
-/

namespace SnacMachine.Ipv4

open Ip Nat64

/-- An Ethernet address. -/
abbrev Mac := Octets 6

/-- The address of six octets. -/
def Mac.new (a b c d e f : UInt8) : Mac := ⟨[a, b, c, d, e, f], rfl⟩

/-- ff:ff:ff:ff:ff:ff. -/
def Mac.broadcast : Mac := .new 255 255 255 255 255 255

/-- 00:00:00:00:00:00. -/
def Mac.zero : Mac := .new 0 0 0 0 0 0

def isUnspecified (ip : Ipv4Addr) : Bool := ip.1 == [0, 0, 0, 0]

/-- 0.0.0.0. -/
def unspecified : Ipv4Addr := .new 0 0 0 0

/-- 255.255.255.255. -/
def broadcast : Ipv4Addr := .new 255 255 255 255

/-- Reference: `Arp` (`ipv4/wire.rs:115`). -/
structure Arp where
  operation : UInt16
  senderMac : Mac
  sender : Ipv4Addr
  targetMac : Mac
  target : Ipv4Addr
  deriving DecidableEq

namespace Arp

/-- The fields of a frame from its type to the operation. -/
def head (operation : UInt8) : Bytes := [8, 6, 0, 1, 8, 0, 6, 4, 0, operation]

/-- Reference: `Arp::parse` (`ipv4/wire.rs:123`). -/
def parse (frame : Bytes) : Except IoError Arp :=
  if frame.length < 42 ∨
      ((frame.drop 12).take 10 ≠ head 1 ∧ (frame.drop 12).take 10 ≠ head 2) then .error invalidIpv4
  else
    let senderMac : Mac := octetsAt frame 22 6
    let sender : Ipv4Addr := octetsAt frame 28 4
    let target : Ipv4Addr := octetsAt frame 38 4
    let operation := UInt16.ofNat (u16At frame 20)
    if octet senderMac.1 0 &&& 1 ≠ 0 ∨ senderMac = .zero ∨ (frame.drop 6).take 6 ≠ senderMac.1 ∨
        (operation = 2 ∧ isUnspecified sender) ∨
        (operation = 2 ∧ octet frame 0 &&& 1 = 0 ∧ frame.take 6 ≠ (frame.drop 32).take 6) ∨
        (isUnspecified sender = false ∧ unicast sender = false) ∨
        ¬ (unicast target ∨ operation = 2 ∧ isUnspecified target) then .error invalidIpv4
    else .ok ⟨operation, senderMac, sender, octetsAt frame 32 6, target⟩

/-- Reference: `Arp::encode` (`ipv4/wire.rs:154`). -/
def encode (a : Arp) (destination : Mac) : Bytes :=
  destination.1 ++ a.senderMac.1 ++ [8, 6, 0, 1, 8, 0, 6, 4] ++ toBe 2 a.operation.toNat ++
    a.senderMac.1 ++ a.sender.1 ++ a.targetMac.1 ++ a.target.1

/-- What a message to an Ethernet address has to be. -/
structure Sound (a : Arp) (destination : Mac) : Prop where
  operation : a.operation = 1 ∨ a.operation = 2
  single : octet a.senderMac.1 0 &&& 1 = 0
  given : a.senderMac ≠ .zero
  answers : a.operation = 2 → isUnspecified a.sender = false
  aimed : a.operation = 2 → octet destination.1 0 &&& 1 = 0 → destination = a.targetMac
  sender : isUnspecified a.sender = true ∨ unicast a.sender = true
  target : unicast a.target = true ∨ a.operation = 2 ∧ isUnspecified a.target = true

variable {a : Arp} {destination : Mac}

/-- An ARP message takes 42 octets. -/
theorem length_encode (a : Arp) (destination : Mac) : (a.encode destination).length = 42 := by
  simp [encode, destination.2, a.senderMac.2, a.sender.2, a.targetMac.2, a.target.2, length_toBe]

/-- An address of the hardware has six octets. -/
theorem exists_octets6 (o : Octets 6) : ∃ a b c d e f, o.1 = [a, b, c, d, e, f] := by
  obtain ⟨l, hl⟩ := o
  obtain ⟨a, b, c, d, t, rfl⟩ := exists_four (b := l) (by omega)
  obtain ⟨e, f, rfl⟩ := List.length_eq_two.1 (show t.length = 2 by simpa using hl)
  exact ⟨a, b, c, d, e, f, rfl⟩

/-- The fields of a frame that carries a message. -/
structure Fields (a : Arp) (destination : Mac) (frame : Bytes) : Prop where
  long : 42 ≤ frame.length
  receiver : frame.take 6 = destination.1
  source : (frame.drop 6).take 6 = a.senderMac.1
  head : (frame.drop 12).take 10 = [8, 6, 0, 1, 8, 0, 6, 4] ++ toBe 2 a.operation.toNat
  operation : u16At frame 20 = a.operation.toNat
  senderMac : octetsAt frame 22 6 = a.senderMac
  sender : octetsAt frame 28 4 = a.sender
  targetMac : octetsAt frame 32 6 = a.targetMac
  targetOctets : (frame.drop 32).take 6 = a.targetMac.1
  target : octetsAt frame 38 4 = a.target
  first : octet frame 0 = octet destination.1 0

/-- The fields of a message are read back where they were written, whatever padding follows. The
addresses are written out octet by octet, so that each field is found by evaluation. -/
theorem fields_encode (a : Arp) (destination : Mac) (padding : Bytes) :
    Fields a destination (a.encode destination ++ padding) := by
  obtain ⟨d0, d1, d2, d3, d4, d5, hd⟩ := exists_octets6 destination
  obtain ⟨s0, s1, s2, s3, s4, s5, hs⟩ := exists_octets6 a.senderMac
  obtain ⟨t0, t1, t2, t3, t4, t5, ht⟩ := exists_octets6 a.targetMac
  obtain ⟨i0, i1, i2, i3, hi⟩ := exists_octets4 a.sender
  obtain ⟨g0, g1, g2, g3, hg⟩ := exists_octets4 a.target
  have hlen := length_encode a destination
  have hop : ofBe (toBe 2 a.operation.toNat) = a.operation.toNat := ofBe_toBe a.operation.toNat_lt
  rw [toBe_two] at hop
  refine ⟨by rw [List.length_append]; omega, ?_, ?_, ?_, ?_, Subtype.ext ?_, Subtype.ext ?_,
    Subtype.ext ?_, ?_, Subtype.ext ?_, ?_⟩
  all_goals simp only [encode, toBe_two, hd, hs, ht, hi, hg]
  · rfl
  · rfl
  · rfl
  · exact hop
  · rfl
  · rfl
  · rfl
  · rfl
  · rfl
  · rfl

/-- A sound message is read as it is written, whatever comes after it. The fields stand at fixed
places (`fields_encode`), and each check of the reader is passed by one of the clauses of
`Sound`. -/
theorem parse_encode (h : a.Sound destination) (padding : Bytes) :
    parse (a.encode destination ++ padding) = .ok a := by
  have hf := fields_encode a destination padding
  generalize a.encode destination ++ padding = frame at hf
  have hhead : [8, 6, 0, 1, 8, 0, 6, 4] ++ toBe 2 a.operation.toNat = Arp.head 1 ∨
      [8, 6, 0, 1, 8, 0, 6, 4] ++ toBe 2 a.operation.toNat = Arp.head 2 := by
    rcases h.operation with h | h
    · exact .inl (by rw [h]; rfl)
    · exact .inr (by rw [h]; rfl)
  have hlong := hf.long
  unfold parse
  rw [if_neg, if_neg]
  · simp only [hf.operation, hf.senderMac, hf.sender, hf.targetMac, hf.target, UInt16.ofNat_toNat]
  · simp only [hf.operation, hf.senderMac, hf.sender, hf.source, hf.receiver,
      hf.targetOctets, hf.first, hf.target, UInt16.ofNat_toNat]
    rintro (h1 | h1 | h1 | ⟨h2, h1⟩ | ⟨h2, h1, h3⟩ | ⟨h1, h2⟩ | h1)
    · exact h1 h.single
    · exact h.given h1
    · exact h1 rfl
    · rw [h.answers h2] at h1
      cases h1
    · exact h3 (congrArg Subtype.val (h.aimed h2 h1))
    · rcases h.sender with hs | hs
      · rw [hs] at h1
        cases h1
      · rw [hs] at h2
        cases h2
    · exact h1 h.target
  · rw [hf.head]
    rintro (h1 | ⟨h1, h2⟩)
    · omega
    · rcases hhead with h3 | h3
      · exact h1 h3
      · exact h2 h3

/-- Six octets at a position are those of the frame there. -/
theorem octetsAt_six {frame : Bytes} {pos : Nat} (h : pos + 6 ≤ frame.length) :
    (octetsAt frame pos 6).1 = (frame.drop pos).take 6 := by
  show (frame.drop pos ++ List.replicate 6 0).take 6 = _
  exact List.take_append_of_le_length (by rw [List.length_drop]; omega)

/-- The operation follows the fixed part of the header, so the two octets behind that part hold its
number. -/
theorem operation_of_head {frame : Bytes} {k : UInt8} (h : (frame.drop 12).take 10 = head k) :
    u16At frame 20 = k.toNat := by
  have hfield : (frame.drop 20).take 2 = [0, k] := by
    have := congrArg (List.drop 8) h
    rwa [List.drop_take, List.drop_drop] at this
  have hfirst : octet frame 20 = 0 := by
    rw [octet, List.getD_eq_getElem?_getD, ← List.getElem?_drop (i := 20) (j := 0),
      ← List.getElem?_take_of_lt (show 0 < 2 by omega), hfield]
    rfl
  have hsecond : octet frame 21 = k := by
    rw [octet, List.getD_eq_getElem?_getD, ← List.getElem?_drop (i := 20) (j := 1),
      ← List.getElem?_take_of_lt (show 1 < 2 by omega), hfield]
    rfl
  show ofBe [octet frame 20, octet frame 21] = _
  rw [hfirst, hsecond]
  simp [ofBe]

/-- What is read is sound: each check of the reader that was passed is one of its clauses, and the
operation is told from the two heads that are allowed. -/
theorem sound {frame : Bytes} (h : parse frame = .ok a) : a.Sound (octetsAt frame 0 6) := by
  unfold parse at h
  split at h
  · cases h
  · next hhead =>
    simp only at h
    split at h
    · cases h
    · next hok =>
      cases h
      simp only [not_or, not_and, not_not, Bool.not_eq_true] at hhead hok
      obtain ⟨hlong, hop⟩ := hhead
      obtain ⟨hsingle, hgiven, -, hanswers, haimed, hsender, htarget⟩ := hok
      have hfirst : octet (octetsAt frame 0 6).1 0 = octet frame 0 := by
        rw [octetsAt_six (by omega)]
        obtain ⟨x, rest, rfl⟩ := List.exists_cons_of_length_pos (show 0 < frame.length by omega)
        rfl
      refine ⟨?_, by simpa using hsingle, hgiven, ?_, ?_, ?_, ?_⟩
      · by_cases h1 : (frame.drop 12).take 10 = head 1
        · left
          rw [operation_of_head h1]
          rfl
        · right
          rw [operation_of_head (hop h1)]
          rfl
      · intro h2
        simpa using hanswers h2
      · intro h2 hone
        refine Subtype.ext ?_
        rw [octetsAt_six (by omega), octetsAt_six (by omega)]
        exact haimed h2 (hfirst ▸ hone)
      · cases hu : isUnspecified (octetsAt frame 28 4) with
        | true => exact .inl rfl
        | false => exact .inr (by simpa using hsender hu)
      · cases hu : unicast (octetsAt frame 38 4) with
        | true => exact .inl rfl
        | false => exact .inr (by simpa [hu] using htarget)

end Arp

end SnacMachine.Ipv4
