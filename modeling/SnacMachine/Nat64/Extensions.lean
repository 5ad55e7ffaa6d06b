import SnacMachine.Nat64.Errors

/-!
# Extensions of ICMP errors

The length field that separates the quote of an error from its extensions has another place and
another unit in each family, and it lies over the octets of the value. `joinExtensions_split` says
that an error that is put together for one family from what was taken apart in the other is taken
apart again where it was put together: into the padded quote and the extension, or into the start of
the quote alone.
-/

namespace SnacMachine.Nat64

open Ip

/-! ## What the translator passes -/

/-- The type, code and value that the translator passes to `joinExtensions` for the family `v4`.
Reference: `Translator::error4` (`nat64/translate/errors.rs:33`), `Translator::error6`
(`nat64/translate/errors.rs:122`). -/
inductive Passed : Bool → UInt8 → UInt8 → Nat → Prop
  | error4 {kind code kind' code' : UInt8} {value quotedLength mtu4 mtu6 value' : Nat}
      (h : v4ToV6 kind code value quotedLength mtu4 mtu6 = some (kind', code', value')) :
      Passed false kind' code' value'
  | error6 {kind code kind' code' : UInt8} {value mtu4 mtu6 value' : Nat}
      (h : v6ToV4 kind code value mtu4 mtu6 = some (kind', code', value')) :
      Passed true kind' code' (if kind' = 12 then value' * 2 ^ 24 % 2 ^ 32 else value')

/-- An ICMPv6 error of a type with a length field has no value. The types that carry a value have no
such field, so every other branch gives zero. -/
theorem v4ToV6_value {kind code kind' code' : UInt8} {value quotedLength mtu4 mtu6 value' : Nat}
    (h : v4ToV6 kind code value quotedLength mtu4 mtu6 = some (kind', code', value'))
    (hlen : hasLength kind' false = true) : value' = 0 := by
  have hkind : ∀ {k : UInt8}, hasLength k false = true → k ≠ 2 ∧ k ≠ 4 := by
    intro k hk
    constructor <;> rintro rfl <;> cases hk
  obtain ⟨h2, h4⟩ := hkind hlen
  unfold v4ToV6 at h
  repeat' split at h
  all_goals first
    | cases h; rfl
    | cases h; exact absurd rfl h2
    | cases h; exact absurd rfl h4
    | obtain ⟨v, -, hv⟩ := Option.map_eq_some_iff.1 h
      cases hv
      exact absurd rfl h4
    | cases h

/-- The value of an ICMP error has two octets; one that is a pointer has a small one. One case for
each branch of the table. -/
theorem v6ToV4_value {kind code kind' code' : UInt8} {value mtu4 mtu6 value' : Nat}
    (h : v6ToV4 kind code value mtu4 mtu6 = some (kind', code', value')) : value' < 65536 := by
  have hpointer : ∀ {n v : Nat}, pointer6To4 n = some v → v < 65536 := by
    intro n v hv
    unfold pointer6To4 at hv
    repeat' split at hv
    all_goals first
      | cases hv; omega
      | cases hv
  unfold v6ToV4 at h
  repeat' split at h
  all_goals first
    | cases h; omega
    | obtain ⟨v, hp, hv⟩ := Option.map_eq_some_iff.1 h
      cases hv
      exact hpointer hp
    | cases h

/-- A number of 32 bits in octets. -/
theorem toBe_four (n : Nat) : toBe 4 n = [UInt8.ofNat (n / 16777216), UInt8.ofNat (n / 65536),
    UInt8.ofNat (n / 256), UInt8.ofNat n] := by
  simp [toBe]

/-- The value leaves the octet of the length field empty. The types with such a field have no value,
or one that is small enough. -/
theorem Passed.length_zero {v4 : Bool} {kind code : UInt8} {value : Nat}
    (h : Passed v4 kind code value) (hlen : hasLength kind v4 = true) :
    octet ([kind, code, 0, 0] ++ toBe 4 value) (lengthAt v4) = 0 := by
  cases h with
  | error4 h =>
    cases v4ToV6_value h hlen
    rfl
  | @error6 _ _ _ _ _ _ _ value' h =>
    have hv := v6ToV4_value h
    rw [toBe_four]
    show UInt8.ofNat (_ / 65536) = 0
    rw [← UInt8.toNat_inj, UInt8.toNat_ofNat']
    show _ % 256 = 0
    split <;> omega

/-! ## Padding -/

/-- A quote that is followed by zeros up to the next whole unit, and to 128 octets. -/
structure Padded (v4 : Bool) (quote padded : Bytes) : Prop where
  zeros : ∃ n, padded = quote ++ List.replicate n 0
  units : lengthUnit v4 ∣ padded.length
  least : 128 ≤ padded.length
  shortest : ∀ n, lengthUnit v4 ∣ n → 128 ≤ n → quote.length ≤ n → padded.length ≤ n

/-- The unit of lengths is positive. -/
theorem lengthUnit_pos (v4 : Bool) : 0 < lengthUnit v4 := by
  cases v4 <;> decide

/-- A quote is padded to at least its length and 128 octets. -/
theorem le_paddedLength (n : Nat) (v4 : Bool) : max n 128 ≤ paddedLength n v4 := by
  cases v4 <;> simp only [paddedLength, lengthUnit, reduceIte, Bool.false_eq_true] <;> omega

/-- The quote with the zeros that `joinExtensions` adds. -/
def padQuote (quote : Bytes) (v4 : Bool) : Bytes :=
  quote ++ List.replicate (paddedLength quote.length v4 - quote.length) 0

/-- Padding gives a quote the padded length. -/
theorem length_padQuote (quote : Bytes) (v4 : Bool) :
    (padQuote quote v4).length = paddedLength quote.length v4 := by
  have := le_paddedLength quote.length v4
  rw [padQuote, List.length_append, List.length_replicate]
  omega

/-- A padded quote is the quote with zeros, in whole units and no longer than needed. It has 128
octets at least, and is rounded up to the next unit. -/
theorem padQuote_padded (quote : Bytes) (v4 : Bool) : Padded v4 quote (padQuote quote v4) := by
  have hle := le_paddedLength quote.length v4
  constructor
  · exact ⟨_, rfl⟩
  · rw [length_padQuote, paddedLength]
    exact Nat.dvd_mul_left _ _
  · rw [length_padQuote]
    omega
  · intro n hdvd hleast hlen
    rw [length_padQuote]
    obtain ⟨k, rfl⟩ := hdvd
    cases v4 <;> simp only [paddedLength, lengthUnit, reduceIte, Bool.false_eq_true] at * <;> omega

/-! ## Putting together and taking apart -/

/-- What an extension that has been taken from an error is like. -/
structure Extension (x : Bytes) : Prop where
  long : 8 ≤ x.length
  version : octet x 0 >>> 4 = 2
  words : x.length % 4 = 0
  sum : u16At x 2 = 0 ∨ checksum x = 0
  objects : objectsFit x 4 = true

/-- An error is taken apart into a quote alone, or into a quote and an extension. An extension has
passed the checks of its length, its version and its checksum. -/
theorem splitExtensions_cases {b q x : Bytes} {v4 : Bool} (h : splitExtensions b v4 = .ok (q, x)) :
    x = [] ∨ Extension x := by
  unfold splitExtensions at h
  simp only at h
  generalize (if hasLength (octet b 0) v4 = true then (octet b (lengthAt v4)).toNat else 0) = units
    at h
  split at h
  · cases h
    exact .inl rfl
  · split at h
    · cases h
    · next hlen =>
      split at h
      · cases h
      · next hok =>
        split at h
        · cases h
        · next hfit =>
          cases h
          simp only [not_or, not_and, not_not] at hok hlen
          refine .inr ⟨?_, hok.1, hok.2.1, ?_, by simpa using hfit⟩
          · rw [List.length_drop]
            omega
          · exact or_iff_not_imp_left.2 hok.2.2

/-- Whether an error carries the extension. Reference: `join_extensions`
(`nat64/translate/errors.rs:463`). -/
def Carried (kind : UInt8) (quote x : Bytes) (v4 : Bool) : Prop :=
  hasLength kind v4 = true ∧ x ≠ [] ∧ paddedLength quote.length v4 + x.length ≤ bodyCap v4

instance (kind : UInt8) (quote x : Bytes) (v4 : Bool) : Decidable (Carried kind quote x v4) :=
  inferInstanceAs (Decidable (_ ∧ _ ∧ _))

section

variable {kind code : UInt8} {value : Nat} {quote x : Bytes} {v4 : Bool}

/-- The length field holds the length of every quote that is carried. -/
theorem Carried.units (h : Carried kind quote x v4) :
    paddedLength quote.length v4 / lengthUnit v4 ≤ 255 := by
  have := h.2.2
  cases v4 <;> simp only [bodyCap, lengthUnit, reduceIte, Bool.false_eq_true] at * <;> omega

/-- What an error message is if the extension is carried. -/
theorem joinExtensions_carried (h : Carried kind quote x v4) :
    joinExtensions kind code value quote x v4 =
      overwrite ([kind, code, 0, 0] ++ toBe 4 value) (lengthAt v4)
        [UInt8.ofNat (paddedLength quote.length v4 / lengthUnit v4)] ++ padQuote quote v4 ++ x := by
  simp only [joinExtensions]
  rw [if_pos ⟨h.1, h.2.1, h.2.2, h.units⟩]
  rfl

/-- What an error message is if there is nothing to carry, or no room for it. -/
theorem joinExtensions_bare (h : ¬ Carried kind quote x v4) :
    joinExtensions kind code value quote x v4 =
      [kind, code, 0, 0] ++ toBe 4 value ++ quote.take (bodyCap v4) := by
  simp only [joinExtensions]
  rw [if_neg fun h' => h ⟨h'.1, h'.2.1, h'.2.2.1⟩]

/-- The first eight octets of an error with an extension. -/
theorem exists_head (kind code : UInt8) (value : Nat) (v4 : Bool) (u : UInt8) :
    ∃ head : Bytes, overwrite ([kind, code, 0, 0] ++ toBe 4 value) (lengthAt v4) [u] = head ∧
      head.length = 8 ∧ octet head 0 = kind ∧ octet head (lengthAt v4) = u := by
  rw [toBe_four]
  cases v4 <;> exact ⟨_, rfl, rfl, rfl, rfl⟩

/-- The octets of the front are those of the whole. -/
theorem octet_append_left {a c : Bytes} {n : Nat} (h : n < a.length) :
    octet (a ++ c) n = octet a n := by
  rw [octet, octet, List.getD_eq_getElem?_getD, List.getElem?_append_left h,
    ← List.getD_eq_getElem?_getD]

/-- An error with an extension is taken apart into the padded quote and the extension. The length
octet of the header counts the padded quote in units of the version, so that multiplying it back
gives the place where the quote ends. -/
theorem split_carried (h : Carried kind quote x v4) (hx : Extension x) :
    splitExtensions (joinExtensions kind code value quote x v4) v4 =
    .ok (padQuote quote v4, x) := by
  have hu := h.units
  have hle := le_paddedLength quote.length v4
  have hpos := lengthUnit_pos v4
  obtain ⟨head, hhead, hlen, hkind, hunits⟩ := exists_head kind code value v4
    (UInt8.ofNat (paddedLength quote.length v4 / lengthUnit v4))
  have hback : paddedLength quote.length v4 / lengthUnit v4 * lengthUnit v4 =
      paddedLength quote.length v4 := by
    rw [paddedLength, Nat.mul_div_cancel _ hpos]
  have hat : lengthAt v4 < head.length := by
    rw [hlen]
    cases v4 <;> decide
  rw [joinExtensions_carried h, hhead, List.append_assoc]
  unfold splitExtensions
  simp only
  rw [octet_append_left (by omega), hkind, if_pos h.1, octet_append_left hat, hunits,
    UInt8.toNat_ofNat', Nat.mod_eq_of_lt (by omega), hback]
  have hnz : paddedLength quote.length v4 / lengthUnit v4 ≠ 0 := by
    intro h0
    rw [h0] at hback
    omega
  have hdrop : (head ++ (padQuote quote v4 ++ x)).drop (8 + paddedLength quote.length v4) = x := by
    rw [← List.append_assoc]
    exact List.drop_left' (by rw [List.length_append, hlen, length_padQuote])
  have hlong := hx.long
  rw [if_neg hnz, if_neg, hdrop, if_neg, if_neg, List.drop_left' hlen,
    List.take_left' (length_padQuote quote v4)]
  · simp [hx.objects]
  · rintro (hv | hw | ⟨hs, hc⟩)
    · exact hv hx.version
    · exact hw hx.words
    · rcases hx.sum with hz | hz
      · exact hs hz
      · exact hc hz
  · simp only [List.length_append, hlen, length_padQuote]
    omega

/-- An error without an extension is taken apart into the start of the quote. Its length field is
zero, so the reader looks for no extension. -/
theorem split_bare (h : ¬ Carried kind quote x v4) (hp : Passed v4 kind code value) :
    splitExtensions (joinExtensions kind code value quote x v4) v4 =
      .ok (quote.take (bodyCap v4), []) := by
  have hlen : ([kind, code, 0, 0] ++ toBe 4 value).length = 8 := by
    rw [List.length_append, length_toBe]
    rfl
  have hat : lengthAt v4 < ([kind, code, 0, 0] ++ toBe 4 value).length := by
    rw [hlen]
    cases v4 <;> decide
  rw [joinExtensions_bare h]
  unfold splitExtensions
  simp only
  rw [octet_append_left hat, if_pos, List.drop_left' hlen]
  rw [octet_append_left (by omega)]
  show (if hasLength kind v4 = true then _ else 0) = 0
  split
  · next hl =>
    rw [hp.length_zero hl]
    rfl
  · rfl

/-- An error message has a header and keeps to the cap on its body. Two cases, with and without an
extension. -/
theorem length_joinExtensions (kind code : UInt8) (value : Nat) (quote x : Bytes) (v4 : Bool) :
    8 ≤ (joinExtensions kind code value quote x v4).length ∧
      (joinExtensions kind code value quote x v4).length ≤ 8 + bodyCap v4 := by
  by_cases h : Carried kind quote x v4
  · obtain ⟨head, hhead, hlen, -, -⟩ := exists_head kind code value v4
      (UInt8.ofNat (paddedLength quote.length v4 / lengthUnit v4))
    have := h.2.2
    rw [joinExtensions_carried h, hhead, List.length_append, List.length_append, hlen,
      length_padQuote]
    omega
  · rw [joinExtensions_bare h, List.length_append, List.length_append, length_toBe,
      List.length_take]
    simp only [List.length_cons, List.length_nil]
    omega

end

/-- An error that is put together for the other family from what an error was taken apart into is
taken apart into the padded quote and the same extension, or, where the extension is not carried,
into the start of the quote and no extension. -/
theorem joinExtensions_split {b q x quote : Bytes} {v4 : Bool} {kind code : UInt8} {value : Nat}
    (h : splitExtensions b v4 = .ok (q, x)) (hp : Passed (!v4) kind code value) :
    (joinExtensions kind code value quote x (!v4)).length ≤ 8 + bodyCap (!v4) ∧
      if Carried kind quote x (!v4) then
        ∃ padded, Padded (!v4) quote padded ∧
          splitExtensions (joinExtensions kind code value quote x (!v4)) (!v4) = .ok (padded, x)
      else
        splitExtensions (joinExtensions kind code value quote x (!v4)) (!v4) =
          .ok (quote.take (bodyCap (!v4)), []) := by
  refine ⟨(length_joinExtensions kind code value quote x (!v4)).2, ?_⟩
  split
  · next hc =>
    have hx : Extension x := (splitExtensions_cases h).resolve_left hc.2.1
    exact ⟨_, padQuote_padded quote (!v4), split_carried hc hx⟩
  · next hc => exact split_bare hc hp

/-- An extension with one object. -/
def oneObject : Bytes := [0x20, 0, 0, 0, 0, 4, 1, 1]

/-- One object makes an extension. -/
theorem oneObject_extension : Extension oneObject := by
  refine ⟨by decide, by decide, by decide, .inl (by decide), ?_⟩
  rw [objectsFit, if_pos (by decide), if_neg (by decide)]
  show (if _ then false else objectsFit oneObject 8) = true
  rw [if_neg (by decide), objectsFit, if_neg (by decide)]

/-- A destination-unreachable error of IPv6 with an extension. -/
def extendedError : Bytes := joinExtensions 1 0 0 [0x60] oneObject false

/-- The theorem applied to an extension with one object, which is found again behind the quote. -/
theorem joinExtensions_split_extended :
    splitExtensions extendedError false = .ok (padQuote [0x60] false, oneObject) ∧
      Passed true 3 1 0 ∧
      ∃ padded, Padded true [0x45] padded ∧
        splitExtensions (joinExtensions 3 1 0 [0x45] oneObject true) true =
        .ok (padded, oneObject) := by
  have hsplit : splitExtensions extendedError false = .ok (padQuote [0x60] false, oneObject) :=
    split_carried (by decide) oneObject_extension
  have hpassed : Passed true 3 1 0 :=
    .error6 (show v6ToV4 1 0 0 1500 1500 = some (3, 1, 0) from rfl)
  have hboth : _ ∧ if Carried 3 [0x45] oneObject true then _ else _ :=
    joinExtensions_split hsplit hpassed
  rw [if_pos (by decide)] at hboth
  exact ⟨hsplit, hpassed, hboth.2⟩

end SnacMachine.Nat64
