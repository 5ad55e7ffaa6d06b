import Mathlib.Tactic.Ring
import SnacMachine.Lib.OrdMap

/-!
# Byte strings

Byte strings are lists of octets. `toBe` and `ofBe` are the big-endian codec at any width, with the
round trip `ofBe_toBe`; `Octets n` is the type of the byte strings of length `n`; `overwrite`
replaces a run of octets in place.
-/

/-- A byte string. -/
abbrev Bytes := List UInt8

/-- The byte strings of length `n`, the fixed-size arrays. -/
abbrev Octets (n : Nat) := { b : Bytes // b.length = n }

/-- The array of zeros. -/
def zeros (n : Nat) : Octets n := ⟨List.replicate n 0, List.length_replicate⟩

/-- Fixed-size arrays are compared as byte strings. -/
instance (n : Nat) : OrdKey (Octets n) :=
  ⟨OrdKey.Code Bytes, inferInstance, fun b => OrdKey.code b.1⟩
instance (n : Nat) : LawfulOrdKey (Octets n) :=
  ⟨fun h => Subtype.ext (LawfulOrdKey.code_inj (K := Bytes) h)⟩

/-- The `w` low octets of a number, most significant first. -/
def toBe : Nat → Nat → Bytes
  | 0, _ => []
  | w + 1, n => UInt8.ofNat (n / 256 ^ w) :: toBe w n

/-- The number that a byte string denotes, most significant octet first. -/
def ofBe (b : Bytes) : Nat := b.foldl (fun n x => n * 256 + x.toNat) 0

/-- Numbers are written with as many octets as asked for, whatever their size. -/
@[simp] theorem length_toBe (w n : Nat) : (toBe w n).length = w := by
  induction w with
  | zero => rfl
  | succ w ih => simp [toBe, ih]

/-- Octets read after a number continue it; this is what the induction over the octets needs. -/
theorem foldl_be (b : Bytes) (a : Nat) :
    b.foldl (fun n x => n * 256 + x.toNat) a = a * 256 ^ b.length + ofBe b := by
  induction b generalizing a with
  | nil => simp [ofBe]
  | cons x b ih =>
    simp only [ofBe, List.foldl_cons, List.length_cons] at ih ⊢
    rw [ih, ih (0 * 256 + x.toNat), pow_succ]
    ring

/-- No octets stand for zero. -/
@[simp] theorem ofBe_nil : ofBe [] = 0 := rfl

/-- The first octet is the most significant one. -/
theorem ofBe_cons (x : UInt8) (b : Bytes) : ofBe (x :: b) = x.toNat * 256 ^ b.length + ofBe b := by
  have := foldl_be b (0 * 256 + x.toNat)
  simpa [ofBe] using this

/-- So many octets stand for numbers below the corresponding power of 256. -/
theorem ofBe_lt (b : Bytes) : ofBe b < 256 ^ b.length := by
  induction b with
  | nil => simp
  | cons x b ih =>
    have hx := x.toNat_lt
    rw [ofBe_cons, List.length_cons, pow_succ]
    calc x.toNat * 256 ^ b.length + ofBe b < x.toNat * 256 ^ b.length + 256 ^ b.length := by omega
      _ = (x.toNat + 1) * 256 ^ b.length := by ring
      _ ≤ 256 * 256 ^ b.length := Nat.mul_le_mul_right _ (by omega)
      _ = 256 ^ b.length * 256 := by ring

/-- Decoding the `w` low octets of a number gives the number modulo `256 ^ w`. -/
theorem ofBe_toBe_mod (w n : Nat) : ofBe (toBe w n) = n % 256 ^ w := by
  induction w with
  | zero => simp [toBe, Nat.mod_one]
  | succ w ih =>
    have hm : n % 256 ^ (w + 1) = n % 256 ^ w + 256 ^ w * (n / 256 ^ w % 256) := by
      rw [pow_succ, Nat.mod_mul]
    rw [toBe, ofBe_cons, ih, length_toBe, UInt8.toNat_ofNat', hm, Nat.mul_comm, Nat.add_comm]

/-- A number that fits is read back as it was written. -/
theorem ofBe_toBe {w n : Nat} (h : n < 256 ^ w) : ofBe (toBe w n) = n := by
  rw [ofBe_toBe_mod, Nat.mod_eq_of_lt h]

/-- The `w` low octets of a number depend only on the number modulo `256 ^ w`. By induction on `w`,
with the lowest octet split off. -/
theorem toBe_congr {w a c : Nat} (h : a % 256 ^ w = c % 256 ^ w) : toBe w a = toBe w c := by
  induction w with
  | zero => rfl
  | succ w ih =>
    have hlow : a % 256 ^ w = c % 256 ^ w := by
      have := congrArg (· % 256 ^ w) h
      simpa [pow_succ, Nat.mod_mul_right_mod] using this
    have hhigh := congrArg (· / 256 ^ w) h
    simp only [pow_succ, Nat.mod_mul_right_div_self] at hhigh
    rw [toBe, toBe, ih hlow]
    congr 1
    rw [← UInt8.toNat_inj, UInt8.toNat_ofNat', UInt8.toNat_ofNat']
    exact hhigh

/-- Octets are written back as they were read. By induction on the octets: the first one is the
quotient, and the rest depends on the remainder only. -/
theorem toBe_ofBe {b : Bytes} {w : Nat} (h : b.length = w) : toBe w (ofBe b) = b := by
  induction b generalizing w with
  | nil =>
    subst h
    rfl
  | cons x b ih =>
    subst h
    have hb := ofBe_lt b
    have hpos : 0 < 256 ^ b.length := Nat.pow_pos (by omega)
    have hdiv : (x.toNat * 256 ^ b.length + ofBe b) / 256 ^ b.length = x.toNat := by
      rw [Nat.mul_comm, Nat.mul_add_div hpos, Nat.div_eq_of_lt hb, Nat.add_zero]
    rw [List.length_cons, toBe, ofBe_cons, hdiv, UInt8.ofNat_toNat,
      toBe_congr (c := ofBe b) (by simp), ih rfl]

/-- A 16-bit number is read back as it was written. -/
@[simp] theorem ofBe_toBe_u16 (x : UInt16) : UInt16.ofNat (ofBe (toBe 2 x.toNat)) = x := by
  rw [ofBe_toBe (by have := x.toNat_lt; simpa using this), UInt16.ofNat_toNat]

/-- A 32-bit number is read back as it was written. -/
@[simp] theorem ofBe_toBe_u32 (x : UInt32) : UInt32.ofNat (ofBe (toBe 4 x.toNat)) = x := by
  rw [ofBe_toBe (by have := x.toNat_lt; simpa using this), UInt32.ofNat_toNat]

/-- Replaces the octets from `pos` on by `new`. -/
def overwrite (b : Bytes) (pos : Nat) (new : Bytes) : Bytes :=
  b.take pos ++ new ++ b.drop (pos + new.length)

/-- The octets outside of the run stay. They lie in the part before the run or in the part behind
it, both of which are taken over. -/
theorem getElem?_overwrite {b new : Bytes} {pos i : Nat} (hlen : pos + new.length ≤ b.length)
    (h : i < pos ∨ pos + new.length ≤ i) : (overwrite b pos new)[i]? = b[i]? := by
  unfold overwrite
  have htake : (b.take pos).length = pos := by
    rw [List.length_take]
    omega
  rcases h with h | h
  · rw [List.append_assoc, List.getElem?_append_left (by omega), List.getElem?_take, if_pos h]
  · rw [List.getElem?_append_right (by rw [List.length_append]; omega), List.getElem?_drop,
      List.length_append, htake]
    congr 1
    omega

/-- Octets replaced in place leave the length as it is. -/
theorem length_overwrite {b new : Bytes} {pos : Nat} (hlen : pos + new.length ≤ b.length) :
    (overwrite b pos new).length = b.length := by
  simp only [overwrite, List.length_append, List.length_take, List.length_drop]
  omega

/-- The run holds what replaced it. -/
theorem drop_take_overwrite {b new : Bytes} {pos : Nat} (hlen : pos + new.length ≤ b.length) :
    ((overwrite b pos new).drop pos).take new.length = new := by
  have htake : (b.take pos).length = pos := by
    rw [List.length_take]
    omega
  unfold overwrite
  rw [List.append_assoc, List.drop_append, htake, List.drop_eq_nil_of_le (by omega), Nat.sub_self,
    List.drop_zero, List.nil_append, List.take_left]

/-- The ASCII lower case of an octet. -/
def lowercase (x : UInt8) : UInt8 := if 65 ≤ x ∧ x ≤ 90 then x + 32 else x

/-- Changing the letter case twice does no more than changing it once: what is changed to is no
capital letter. -/
@[simp] theorem lowercase_lowercase (x : UInt8) : lowercase (lowercase x) = lowercase x := by
  unfold lowercase
  by_cases h : 65 ≤ x ∧ x ≤ 90
  · have h₁ := UInt8.le_iff_toNat_le.1 h.1
    have h₂ := UInt8.le_iff_toNat_le.1 h.2
    have hadd : (x + 32).toNat = x.toNat + 32 := by
      rw [UInt8.toNat_add]
      simp at h₁ h₂ ⊢
      omega
    rw [if_pos h, if_neg]
    rintro ⟨-, h₃⟩
    have h₄ := UInt8.le_iff_toNat_le.1 h₃
    rw [hadd] at h₄
    simp at h₁ h₄
    omega
  · rw [if_neg h, if_neg h]


/-- The octets of an ASCII text. -/
def ascii (s : String) : Bytes := s.toList.map fun c => UInt8.ofNat c.toNat

/-- What holds of the 256 octets holds of every octet. -/
theorem octets_forall {p : UInt8 → Prop} (h : ∀ i : Fin 256, p (UInt8.ofFin i)) (x : UInt8) : p x :=
  h x.toFin
