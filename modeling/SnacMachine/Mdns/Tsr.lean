import SnacMachine.Dns.Wire
import SnacMachine.Lib.Word

/-!
# Time since received

The stamps of `mdns/tsr.rs`: the checksum of the key a name was registered under and the moment of
its registration. A stamp travels as an age in whole seconds, at most seven days, and the receiver
turns the age back into a moment (`Stamp.decode`). `heard` is what a peer makes of a stamp; the
moment it reads is never before the true one, and at most a second after it as long as the age is
under the bound (`heard_spec`).
-/

namespace SnacMachine.Mdns

/-- Reference: `MAX_AGE` (`mdns/tsr.rs:11`). -/
def maxAge : Nat := 604800

/-- Reference: `Stamp` (`mdns/tsr.rs:14`). -/
structure Stamp where
  keyChecksum : UInt32
  receivedAt : Int
  deriving DecidableEq

/-- Reference: `i128::saturating_sub` of the standard library. -/
def satSub128 (a b : Int) : Int := max (-2 ^ 127) (min (a - b) (2 ^ 127 - 1))

/-- The age of a stamp in whole seconds, up to the bound. Reference: `mdns/tsr.rs:23`. -/
def Stamp.age (s : Stamp) (now : Nat) : Nat :=
  min (max (satSub128 now s.receivedAt) 0 / 1000).toNat maxAge

/-- Reference: `Stamp::encode` (`mdns/tsr.rs:19`). -/
def Stamp.encode (s : Stamp) (index : UInt16) (now : Nat) : Bytes :=
  toBe 2 index.toNat ++ toBe 4 s.keyChecksum.toNat ++ toBe 4 (s.age now)

/-- Reference: `Stamp::decode` (`mdns/tsr.rs:28`). -/
def Stamp.decode (b : Bytes) (received : Nat) : Option (UInt16 × Stamp) :=
  if b.length ≠ 10 then none
  else
    let index := UInt16.ofNat (ofBe (b.take 2))
    let keyChecksum := UInt32.ofNat (ofBe ((b.drop 2).take 4))
    let age := min (ofBe (b.drop 6)) maxAge
    some (index, ⟨keyChecksum, received - age * 1000⟩)

/-- The sum of a key's 32-bit words, the last one padded. Reference: `key_checksum`
(`mdns/tsr.rs:44`). -/
def keyChecksum (key : Bytes) : UInt32 :=
  (key.toChunks 4).foldl (fun sum bytes =>
    sum + UInt32.ofNat (ofBe (bytes ++ List.replicate (4 - bytes.length) 0))) 0

/-- Reference: `Relation` (`mdns/tsr.rs:157`). -/
inductive Relation
  | unstamped
  | conflict
  | equal
  | newer
  | older
  deriving DecidableEq

/-- Where a remote stamp lies in relation to the local one. Reference: `compare`
(`mdns/tsr.rs:166`). -/
def compare (mine theirs : Option Stamp) : Relation :=
  match mine, theirs with
  | none, none => .unstamped
  | some a, some b =>
    if a.keyChecksum = b.keyChecksum then
      let delta := satSub128 b.receivedAt a.receivedAt
      if delta > 1000 then .newer else if delta < -1000 then .older else .equal
    else .conflict
  | _, _ => .conflict

/-! ## What a peer reads -/

/-- The stamp that a peer decodes at once from an encoded one. -/
def Stamp.heard (s : Stamp) (now : Nat) : Stamp := ⟨s.keyChecksum, now - s.age now * 1000⟩

/-- No age exceeds the greatest one that can be told. -/
theorem Stamp.age_le (s : Stamp) (now : Nat) : s.age now ≤ maxAge := Nat.min_le_right _ _

/-- A stamp is read back as it is heard: with an age in whole seconds, and none beyond the
greatest. -/
theorem Stamp.decode_encode (s : Stamp) (index : UInt16) (now : Nat) :
    Stamp.decode (s.encode index now) now = some (index, s.heard now) := by
  have hage : s.age now < 256 ^ 4 := Nat.lt_of_le_of_lt (s.age_le now) (by decide)
  have hindex : ofBe (toBe 2 index.toNat) = index.toNat :=
    ofBe_toBe (Nat.lt_of_lt_of_eq index.toNat_lt (by decide))
  have hsum : ofBe (toBe 4 s.keyChecksum.toNat) = s.keyChecksum.toNat :=
    ofBe_toBe (Nat.lt_of_lt_of_eq s.keyChecksum.toNat_lt (by decide))
  have hlen : (s.encode index now).length = 10 := by simp [encode, length_toBe]
  have h1 : (s.encode index now).take 2 = toBe 2 index.toNat := by
    simp [encode, length_toBe]
  have h2 : ((s.encode index now).drop 2).take 4 = toBe 4 s.keyChecksum.toNat := by
    simp [encode, length_toBe]
  have h3 : (s.encode index now).drop 6 = toBe 4 (s.age now) := by
    simp [encode, List.drop_append, length_toBe]
  unfold decode
  rw [if_neg (not_not.2 hlen)]
  simp only [h1, h2, h3, hindex, hsum, ofBe_toBe hage, Nat.min_eq_left (s.age_le now)]
  rw [UInt16.ofNat_toNat, UInt32.ofNat_toNat]
  rfl

/-- The age a stamp is sent with, in terms of the true one. -/
theorem Stamp.age_eq {s : Stamp} {now : Nat} (h : s.receivedAt ≤ now) :
    (s.age now : Int) = min ((now - s.receivedAt) / 1000) maxAge := by
  unfold age satSub128 maxAge
  omega

/-- A peer reads the moment to the second while the age is under the bound, and seven days ago from
there on. -/
theorem Stamp.heard_spec {s : Stamp} {now : Nat} (h : s.receivedAt ≤ now) :
    (now - s.receivedAt < 604801000 ∧ s.receivedAt ≤ (s.heard now).receivedAt ∧
      (s.heard now).receivedAt < s.receivedAt + 1000) ∨
    (604801000 ≤ now - s.receivedAt ∧ (s.heard now).receivedAt = now - 604800000) := by
  have hage := s.age_eq h
  unfold heard
  simp only [maxAge] at hage ⊢
  omega

/-- With one key the relation is decided by the difference of the two moments. The subtraction
saturates far outside of the window of one second, so it does not matter. -/
theorem compare_spec {a b : Stamp} (h : a.keyChecksum = b.keyChecksum) :
    (b.receivedAt - a.receivedAt > 1000 ∧ compare (some a) (some b) = .newer) ∨
    (b.receivedAt - a.receivedAt < -1000 ∧ compare (some a) (some b) = .older) ∨
    (-1000 ≤ b.receivedAt - a.receivedAt ∧ b.receivedAt - a.receivedAt ≤ 1000 ∧
      compare (some a) (some b) = .equal) := by
  have hdelta : satSub128 b.receivedAt a.receivedAt = max (-2 ^ 127)
    (min (b.receivedAt - a.receivedAt) (2 ^ 127 - 1)) := rfl
  simp only [compare, if_pos h]
  split
  · exact .inl ⟨by omega, rfl⟩
  · split
    · exact .inr (.inl ⟨by omega, rfl⟩)
    · exact .inr (.inr ⟨by omega, by omega, rfl⟩)

end SnacMachine.Mdns
