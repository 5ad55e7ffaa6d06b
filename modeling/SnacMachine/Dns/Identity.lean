import SnacMachine.Dns.Wire

/-!
# When record data is the same

The comparison of record data (`PartialEq` of `Rdata`, `dns/wire.rs:104`) reads names without the
case of their letters. It is an equivalence, one constructor at a time.
-/

namespace SnacMachine.Dns

namespace Rdata

/-- Equal data is of one kind. -/
theorem ctorIdx_of_beq {a b : Rdata} (h : (a == b) = true) : (a.ctorIdx == b.ctorIdx) = true := by
  change instBEqRdata.beq a b = true at h
  unfold instBEqRdata.beq at h
  split at h
  · next hidx _ => exact beq_iff_eq.2 hidx
  · cases h

theorem beq_empty : (Rdata.empty == .empty) = true := rfl
theorem beq_a {x y : Octets 4} : (Rdata.a x == .a y) = (x == y) := rfl
theorem beq_aaaa {x y : Octets 16} : (Rdata.aaaa x == .aaaa y) = (x == y) := rfl
theorem beq_name {x y : Name} : (Rdata.name x == .name y) = (x == y) := rfl
theorem beq_srv {p w o p' w' o' : UInt16} {x y : Name} :
    (Rdata.srv p w o x == .srv p' w' o' y) = (p == p' && (w == w' && (o == o' && x == y))) := rfl
theorem beq_txt {x y : List Bytes} : (Rdata.txt x == .txt y) = (x == y) := rfl
theorem beq_preference {p p' : UInt16} {x y : Name} :
    (Rdata.preference p x == .preference p' y) = (p == p' && x == y) := rfl
theorem beq_twoNames {x x' y y' : Name} :
    (Rdata.twoNames x x' == .twoNames y y') = (x == y && x' == y') := rfl
theorem beq_px {p p' : UInt16} {x x' y y' : Name} :
    (Rdata.px p x x' == .px p' y y') = (p == p' && (x == y && x' == y')) := rfl
theorem beq_soa {x x' y y' : Name} {s r t e m s' r' t' e' m' : UInt32} :
    (Rdata.soa x x' s r t e m == .soa y y' s' r' t' e' m') =
      (x == y && (x' == y' && (s == s' && (r == r' && (t == t' && (e == e' && m == m')))))) := rfl
theorem beq_key {f f' : UInt16} {p a p' a' : UInt8} {k k' : Bytes} :
    (Rdata.key f p a k == .key f' p' a' k') = (f == f' && (p == p' && (a == a' && k == k'))) := rfl
theorem beq_sig {c t c' t' : UInt16} {a l a' l' : UInt8} {o e i o' e' i' : UInt32} {x y : Name}
    {s s' : Bytes} : (Rdata.sig c a l o e i t x s == .sig c' a' l' o' e' i' t' y s') =
      (c == c' && (a == a' && (l == l' && (o == o' && (e == e' && (i == i' && (t == t' &&
        (x == y && s == s')))))))) := rfl
theorem beq_opt {x y : List (UInt16 × Bytes)} : (Rdata.opt x == .opt y) = (x == y) := rfl
theorem beq_nsec {x y : Name} {b b' : Bytes} :
    (Rdata.nsec x b == .nsec y b') = (x == y && b == b') := rfl
theorem beq_svcb {p p' : UInt16} {x y : Name} {l l' : List (UInt16 × Bytes)} :
    (Rdata.svcb p x l == .svcb p' y l') = (p == p' && (x == y && l == l')) := rfl
theorem beq_bytes {x y : Bytes} : (Rdata.bytes x == .bytes y) = (x == y) := rfl
theorem beq_opaque {x y : Bytes} : (Rdata.opaque_ x == .opaque_ y) = (x == y) := rfl

/-- Data is equal to itself, name by name up to letter case. -/
theorem beq_refl (a : Rdata) : (a == a) = true := by
  cases a
  all_goals
    simp only [beq_empty, beq_a, beq_aaaa, beq_name, beq_srv, beq_txt, beq_preference, beq_twoNames,
      beq_px, beq_soa, beq_key, beq_sig, beq_opt, beq_nsec, beq_svcb, beq_bytes, beq_opaque,
      BEq.rfl, Bool.and_self]

/-- Equality of data does not depend on which side is named first. Data of two forms is never equal,
and for each form the equality is that of its parts. -/
theorem beq_symm {a b : Rdata} (h : (a == b) = true) : (b == a) = true := by
  have hidx := ctorIdx_of_beq h
  cases a
  all_goals
    cases b
    all_goals first
      | exact absurd hidx Bool.false_ne_true
      | exact beq_empty
      | simpa only [beq_a, beq_aaaa, beq_name, beq_srv, beq_txt, beq_preference,
          beq_twoNames, beq_px, beq_soa, beq_key, beq_sig, beq_opt, beq_nsec, beq_svcb,
          beq_bytes, beq_opaque,
          BEq.comm] using h

/-- Equality of data is transitive, since that of names is. Data of two forms is never equal, so one
case for each form is left. -/
theorem beq_trans {a b c : Rdata} (h : (a == b) = true) (h' : (b == c) = true) :
    (a == c) = true := by
  have hidx := ctorIdx_of_beq h
  have hidx' := ctorIdx_of_beq h'
  cases a
  all_goals
    cases b
    all_goals first
      | exact absurd hidx Bool.false_ne_true
      | cases c
        all_goals first
          | exact absurd hidx' Bool.false_ne_true
          | exact beq_empty
          | simp only [beq_a, beq_aaaa, beq_name, beq_srv, beq_txt, beq_preference, beq_twoNames,
              beq_px, beq_soa, beq_key, beq_sig, beq_opt, beq_nsec, beq_svcb, beq_bytes, beq_opaque,
              Bool.and_eq_true, beq_iff_eq, Name.beq_iff] at h h' ⊢
            simp only [h, h', and_self]

instance : EquivBEq Rdata where
  rfl := beq_refl _
  symm := beq_symm
  trans := beq_trans

end Rdata
end SnacMachine.Dns
