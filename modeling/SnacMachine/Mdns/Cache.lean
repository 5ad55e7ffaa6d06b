import SnacMachine.Dns.Wire
import SnacMachine.Lib.BitSet

/-!
# Learned records

What `mdns/cache.rs` asks of a single record: which records are the same, which answer a question,
and what a record is charged for.
-/

namespace SnacMachine.Mdns

open Dns

/-- Whether two records differ in nothing but lifetime and uniqueness. Reference: `same`
(`mdns/cache.rs:45`). -/
def same (a b : Record) : Bool :=
  a.name == b.name && a.kind == b.kind && a.cls &&& 0x7fff == b.cls &&& 0x7fff && a.data == b.data

/-- Whether a record answers a question. Reference: `matches` (`mdns/cache.rs:48`). -/
def matches_ (q : Question) (r : Record) : Bool :=
  q.name == r.name && (q.cls &&& 0x7fff == 255 || q.cls &&& 0x7fff == r.cls &&& 0x7fff) &&
    (q.kind == 255 || q.kind == r.kind || r.kind == 5)

/-- The window of a type in a bitmap of `fuel` octets. Reference: `bitmap_has`
(`mdns/cache.rs:401`). -/
def hasLoop (kind : UInt16) : (fuel : Nat) → Bytes → Bool
  | fuel + 1, w :: n :: rest =>
    if n = 0 ∨ n > 32 ∨ rest.length < n.toNat then false
    else if w.toNat = kind.toNat / 256 then
      kind.toNat % 256 / 8 < n.toNat &&
        rest.getD (kind.toNat % 256 / 8) 0 &&& bitMask (kind.toNat % 256 % 8) != 0
    else hasLoop kind fuel (rest.drop n.toNat)
  | _, _ => false

/-- Reference: `bitmap_has` (`mdns/cache.rs:401`). -/
def bitmapHas (b : Bytes) (kind : UInt16) : Bool := hasLoop kind b.length b

/-- The labels of the names in record data and its other vectors. Reference: `mdns/cache.rs:425`. -/
def decodedParts : Rdata → Nat
  | .name n => n.labels.length
  | .srv _ _ _ n => n.labels.length
  | .preference _ n => n.labels.length
  | .nsec n _ => n.labels.length
  | .sig _ _ _ _ _ _ _ n _ => n.labels.length
  | .svcb _ n _ => n.labels.length
  | .twoNames first second => first.labels.length + second.labels.length
  | .px _ map822 mapx400 => map822.labels.length + mapx400.labels.length
  | .soa mname rname _ _ _ _ _ => mname.labels.length + rname.labels.length
  | .txt v => v.length
  | .opt v => v.length
  | _ => 0

/-- Reference: `decoded_overhead` (`mdns/cache.rs:423`). -/
def decodedOverhead (r : Record) : Nat := 128 * (r.name.labels.length + decodedParts r.data)

/-- What a record is charged for, if it can be encoded. Reference: `charge` (`mdns/cache.rs:54`). -/
def charge (r : Record) : Option Nat :=
  let m := { Message.new 0 0x8400 with answers := [r] }
  m.encode.map fun b => 1024 + 16 * b.length + decodedOverhead r

/-- Whether a record may be kept: neither a meta type or class nor a record without data of its own.
Reference: `cacheable` (`mdns/cache.rs:63`). -/
def cacheable (r : Record) : Bool :=
  !([0, 41, 249, 250, 251, 252, 253, 254, 255] : List UInt16).contains r.kind &&
    !(match r.data with
      | .opaque_ _ => true
      | .empty => true
      | .sig covered _ _ _ _ _ _ _ _ => covered == 0
      | _ => false) &&
    r.cls &&& 0x7fff != 0 && r.cls &&& 0x7fff != 255

end SnacMachine.Mdns
