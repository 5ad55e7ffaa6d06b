import SnacMachine.Discovery.Bitmap
import SnacMachine.Lib.Lex
import SnacMachine.Nat64.Translate

/-!
# Denials

The name that follows another one in a zone, as `discovery_proxy.rs` computes it for the NSEC record
that denies a name. Names are in the canonical order of DNSSEC: by their lower-cased labels, the
last label first (`Name.order`).
-/

namespace SnacMachine.Dns

/-- A label in lower case, by the values of its octets. -/
def labelOrder (l : Bytes) : List Nat := l.map fun x => (lowercase x).toNat

/-- The place of a name in the canonical order. -/
def Name.order (n : Name) : List (List Nat) := (n.labels.map labelOrder).reverse

end SnacMachine.Dns

namespace SnacMachine.Discovery

open Dns

/-- A name of labels that have been put together. Reference: `Name::from_labels`
(`dns/wire.rs:23`). -/
def ofLabels (labels : List Bytes) : Except IoError Name :=
  (Name.fromLabels labels).elim (.error wireInvalid) .ok

/-- The next octet of a label in lower case. Reference: `discovery_proxy.rs:443`. -/
def nextOctet (x : UInt8) : UInt8 := if x + 1 = 65 then 91 else x + 1

/-- The next name without a label in front, from some label on; `turns` is the number of labels
before those of the zone. Reference: `discovery_proxy.rs:436`. -/
def carry (zone : Name) : (turns : Nat) → List Bytes → Except IoError Name
  | turns + 1, l :: rest =>
    if 1 + ((l :: rest).map fun l => l.length + 1).sum < 255 ∧ l.length < 63 then
      ofLabels ((l ++ [0]) :: rest)
    else
      match rposition (fun b => b < 255) l with
      | some at_ => ofLabels ((l.take at_ ++ [nextOctet (l.getD at_ 0)]) :: rest)
      | none => carry zone turns rest
  | _, _ => .ok zone

/-- Reference: `successor` (`discovery_proxy.rs:423`). -/
def successor (name zone : Name) : Except IoError Name :=
  if name.canonical.length ≤ 253 then ofLabels ([0] :: name.lower.labels)
  else carry zone (name.labels.length - zone.labels.length) name.lower.labels

/-! ## The denial of a name -/

/-- Which addresses the clients of a zone can use. Reference: `Reachability`
(`discovery_proxy.rs:19`). -/
structure Reachability where
  onLink : Bool
  ipv4LinkLocal : Bool
  differentPrivateRealm : Bool
  differentUlaRealm : Bool
  includeUnusable : Bool

/-- Whether an IPv4 address is in 169.254/16. -/
def isLinkLocal4 (a : Ipv4Addr) : Bool := Ip.octet a.1 0 == 169 && Ip.octet a.1 1 == 254

/-- Whether an IPv4 address is in 10/8, 172.16/12 or 192.168/16. -/
def isPrivate4 (a : Ipv4Addr) : Bool :=
  Ip.octet a.1 0 == 10 || (Ip.octet a.1 0 == 172 && Ip.octet a.1 1 &&& 0xf0 == 16) ||
    (Ip.octet a.1 0 == 192 && Ip.octet a.1 1 == 168)

/-- Whether an IPv6 address is in fc00::/7. -/
def isUniqueLocal (a : Ipv6Addr) : Bool := Ip.octet a.1 0 &&& 0xfe == 0xfc

/-- Reference: `usable` (`discovery_proxy.rs:349`). -/
def usable (r : Record) (reach : Reachability) : Bool :=
  match r.data with
  | .a a => Nat64.unicast a && (reach.includeUnusable ||
      ((!isLinkLocal4 a || reach.onLink || reach.ipv4LinkLocal) &&
        (!isPrivate4 a || !reach.differentPrivateRealm)))
  | .aaaa a => !Ipv6Addr.isUnspecified a && !Ipv6Addr.isLoopback a && !Ipv6Addr.isMulticast a &&
      !Ipv6Addr.isIpv4Mapped a && (reach.includeUnusable ||
      ((!Ipv6Addr.linkLocal a || reach.onLink) && (!isUniqueLocal a || !reach.differentUlaRealm)))
  | _ => true

/-- Reference: `insert_type` (`discovery_proxy.rs:376`). -/
def insertType (types : OrdMap UInt16 Unit) (kind : UInt16) : Except IoError (OrdMap UInt16 Unit) :=
  if types.size = 1024 ∧ !types.contains kind then .error invalid
  else .ok (types.insert kind ())

/-- Whether a type may stand in a denial. Reference: `discovery_proxy.rs:187`. -/
def acceptedType (apex : Bool) (kind : UInt16) : Bool :=
  kind != 0 && !([24, 41, 43, 46, 47, 50] : List UInt16).contains kind &&
    !(249 ≤ kind && kind ≤ 255) && (apex || (kind != 2 && kind != 6))

/-- What has been gathered for a denial: the types, the work done, and for A and AAAA records
whether there were any and whether one can be used. -/
structure Gathered where
  types : OrdMap UInt16 Unit
  work : Nat
  seen : Bool × Bool
  reachable : Bool × Bool

/-- What one record adds. Reference: `discovery_proxy.rs:196`. -/
def gather (apex : Bool) (reach : Reachability) (g : Gathered) (r : Record) :
    Except IoError Gathered := do
  let work := g.work + 1
  let (types, work) ← match r.data with
    | .nsec _ bitmap =>
      if work + bitmap.length > 262144 then .error invalid
      else do
        let types ← readBitmap bitmap
          (fun types kind => if acceptedType apex kind then insertType types kind else .ok types)
          g.types
        .ok (types, work + bitmap.length)
    | _ => do
      let types ← if acceptedType apex r.kind then insertType g.types r.kind else .ok g.types
      .ok (types, work)
  let u := usable r reach
  .ok (if r.kind = 1 then ⟨types, work, (true, g.seen.2), (g.reachable.1 || u, g.reachable.2)⟩
    else if r.kind = 28 then ⟨types, work, (g.seen.1, true), (g.reachable.1, g.reachable.2 || u)⟩
    else ⟨types, work, g.seen, g.reachable⟩)

/-- The digits of base32 with extended hex alphabet that are complete; `fuel` is the number of bits.
Reference: `discovery_proxy.rs:461`. -/
def drainDigits (buffer : Nat) : (fuel bits : Nat) → Bytes × Nat
  | fuel + 1, bits =>
    if bits ≥ 5 then
      let (out, rest) := drainDigits buffer fuel (bits - 5)
      ((ascii "0123456789ABCDEFGHIJKLMNOPQRSTUV").getD (buffer / 2 ^ (bits - 5) % 32) 0 :: out,
       rest)
    else ([], bits)
  | 0, bits => ([], bits)

/-- Reference: `base32hex` (`discovery_proxy.rs:453`). -/
def base32hex (bytes : Octets 20) : Bytes :=
  (bytes.1.foldl (fun (s : Bytes × Nat × Nat) octet =>
    let buffer := s.2.1 * 256 + octet.toNat
    let (out, bits) := drainDigits buffer (s.2.2 + 8) (s.2.2 + 8)
    (s.1 ++ out, buffer % 2 ^ bits, bits)) ([], 0, 0)).1

/-- The next octets of the same number, the last octet first. Reference:
`discovery_proxy.rs:240`. -/
def incrementReversed : Bytes → Bytes
  | [] => []
  | x :: b => if x = 255 then 0 :: incrementReversed b else (x + 1) :: b

/-- The types without those of addresses that nobody can use. Reference:
`discovery_proxy.rs:221`. -/
def Gathered.usableTypes (g : Gathered) : OrdMap UInt16 Unit :=
  let types := if g.seen.1 && !g.reachable.1 then g.types.remove 1 else g.types
  if g.seen.2 && !g.reachable.2 then types.remove 28 else types

/-- The NSEC3 record of a name. Reference: `discovery_proxy.rs:235`. -/
def nsec3 (sha1 : Bytes → Octets 20) (name domain : Name) (types : OrdMap UInt16 Unit) :
    Except IoError Record := do
  let hash := sha1 name.canonical
  let owner ← ofLabels (base32hex hash :: domain.labels)
  .ok ⟨owner, 50, 1, 10, .bytes ([1, 0, 0, 0, 0, 20] ++
    (incrementReversed hash.1.reverse).reverse ++ typeBitmap types.keys)⟩

/-- The record that denies the other types of a name. Reference: `Zone::denial`
(`discovery_proxy.rs:170`). -/
def Zone.denial (z : Zone) (sha1 : Bytes → Octets 20) (q : TranslatedQuestion)
    (records : List Record) (reach : Reachability) : Except IoError Record :=
  if records.length > 4096 ∨ z.scope q.original.name ≠ some q.scope then .error invalid
  else match z.domain q.scope with
  | none => .error invalid
  | some domain => do
    let g ← (records.filter fun r => r.name == q.multicast.name && r.cls &&& 0x7fff == 1 &&
      r.ttl != 0).foldlM (gather (q.original.name == domain) reach)
        ⟨.empty, 0, (false, false), (false, false)⟩
    if q.original.kind = 50 then nsec3 sha1 q.original.name domain g.usableTypes
    else do
      let types ← insertType g.usableTypes 47
      let next ← successor q.original.name domain
      .ok ⟨q.original.name, 47, 1, 10, .nsec next (typeBitmap types.keys)⟩

/-! ## The canonical order -/

/-- No octet is a capital letter once it is lower-cased. -/
theorem lowercase_upper (x : UInt8) : ¬ (65 ≤ (lowercase x).toNat ∧ (lowercase x).toNat ≤ 90) := by
  revert x
  refine octets_forall ?_
  decide +kernel

/-- What the order keeps of the labels of a name. -/
theorem mem_order {m : Name} {y : List Nat} (hy : y ∈ m.order) :
    y ≠ [] ∧ y.length ≤ 63 ∧ ∀ z ∈ y, z ≤ 255 ∧ ¬ (65 ≤ z ∧ z ≤ 90) := by
  obtain ⟨l, hl, rfl⟩ := List.mem_map.1 (List.mem_reverse.1 hy)
  obtain ⟨hne, hlen⟩ := m.ok.1 l hl
  refine ⟨by simpa [labelOrder] using hne, by simpa [labelOrder] using hlen, fun z hz => ?_⟩
  obtain ⟨x, -, rfl⟩ := List.mem_map.1 hz
  have := (lowercase x).toNat_lt
  exact ⟨by omega, lowercase_upper x⟩

/-- The octets of a name without the last one, from its place in the order. -/
theorem size_order (m : Name) : (m.order.map fun y => y.length + 1).sum ≤ 254 := by
  have hsum :
      (m.order.map fun y => y.length + 1).sum = (m.labels.map fun l => l.length + 1).sum := by
    rw [Name.order, List.map_reverse, List.sum_reverse, List.map_map]
    refine congrArg List.sum (List.map_congr_left fun l _ => ?_)
    simp [labelOrder]
  have := m.ok.2
  omega

/-- Labels are equal in the order exactly if they are equal up to letter case. -/
theorem labelOrder_inj {a b : Bytes} :
    labelOrder a = labelOrder b ↔ a.map lowercase = b.map lowercase := by
  have hmap (l : Bytes) : labelOrder l = (l.map lowercase).map UInt8.toNat := by
    rw [List.map_map]
    rfl
  rw [hmap, hmap]
  exact List.map_inj_right fun _ _ h => UInt8.toNat_inj.1 h

/-- A name is in a zone when the labels of the zone come first. Both names are compared from the
end, so the induction is on the reversed labels. -/
theorem within_iff {name zone : Name} :
    Srp.within name zone = true ↔ zone.order <+: name.order := by
  have hlen (n : Name) : n.labels.length = n.labels.reverse.length := List.length_reverse.symm
  rw [Srp.within, Name.order, Name.order, ← List.map_reverse, ← List.map_reverse, hlen zone,
    hlen name, Bool.and_eq_true, decide_eq_true_eq]
  generalize zone.labels.reverse = zs
  generalize name.labels.reverse = ns
  induction zs generalizing ns with
  | nil => simp
  | cons z zs ih =>
    cases ns with
    | nil => simp
    | cons n ns =>
      have hrest := ih ns
      simp only [List.length_cons, List.zip_cons_cons, List.all_cons, Bool.and_eq_true, beq_iff_eq,
        List.map_cons, List.cons_prefix_cons, labelOrder_inj, Nat.add_le_add_iff_right]
      rw [and_left_comm, eq_comm]
      exact and_congr_right' hrest

/-- Labels in lower case, by the values of their octets. -/
def Lowered (l : Bytes) : Prop := ∀ x ∈ l, lowercase x = x

/-- The labels of a lower-cased name have no capital letters. -/
theorem lowered_lower {n : Name} {l : Bytes} (h : l ∈ n.lower.labels) : Lowered l := by
  obtain ⟨k, -, rfl⟩ := List.mem_map.1 h
  intro x hx
  obtain ⟨y, -, rfl⟩ := List.mem_map.1 hx
  exact lowercase_lowercase y

/-- The next octet is the next one that a label in lower case can have. After 64 comes 91, since the
capital letters in between are never found in such a label. -/
theorem nextOctet_spec {x : UInt8} (hx : lowercase x = x) (hlt : x < 255) :
    x.toNat < (nextOctet x).toNat ∧ lowercase (nextOctet x) = nextOctet x ∧
      ∀ z, ¬ (65 ≤ z ∧ z ≤ 90) → x.toNat < z → (nextOctet x).toNat ≤ z := by
  have hnat : (x + 1).toNat = x.toNat + 1 := by
    have := UInt8.lt_iff_toNat_lt.1 hlt
    rw [UInt8.toNat_add]
    have h255 : (255 : UInt8).toNat = 255 := rfl
    have h1 : (1 : UInt8).toNat = 1 := rfl
    omega
  have hupper := lowercase_upper x
  rw [hx] at hupper
  rw [nextOctet]
  split
  · next heq =>
    have h65 : x.toNat + 1 = 65 := by rw [← hnat, heq]; rfl
    have h91 : (91 : UInt8).toNat = 91 := rfl
    refine ⟨by omega, rfl, fun z hz hlt => by omega⟩
  · next hne =>
    have hne65 : x.toNat + 1 ≠ 65 := fun h => hne (UInt8.toNat_inj.1 (by rw [hnat, h]; rfl))
    refine ⟨by omega, ?_, fun z _ hlt => by omega⟩
    rw [lowercase, if_neg]
    rintro ⟨hle, hge⟩
    have hle := UInt8.le_iff_toNat_le.1 hle
    have hge := UInt8.le_iff_toNat_le.1 hge
    have h65 : (65 : UInt8).toNat = 65 := rfl
    have h90 : (90 : UInt8).toNat = 90 := rfl
    omega

/-! ## The next label -/

/-- The next label that fits where there is room for another octet. -/
theorem labelOrder_push {l : Bytes} : labelOrder (l ++ [0]) = labelOrder l ++ [0] := by
  rw [labelOrder, List.map_append]
  rfl

/-- The next label that is no longer: the last octet below 255 is raised, and the rest is cut off.
Nothing fits in between, since what is cut off was 255 throughout (`htop`) and `nextOctet` skips the
capital letters that the order does not know. -/
theorem increment_spec {l : Bytes} {i : Nat} (hl : Lowered l)
    (h : rposition (fun b => b < 255) l = some i) :
    i < l.length ∧ labelOrder l < labelOrder (l.take i ++ [nextOctet (l.getD i 0)]) ∧
      ∀ y : List Nat, (∀ z ∈ y, z ≤ 255 ∧ ¬ (65 ≤ z ∧ z ≤ 90)) → y.length ≤ l.length →
        labelOrder l < y → labelOrder (l.take i ++ [nextOctet (l.getD i 0)]) ≤ y := by
  obtain ⟨⟨x, hx, hlt⟩, hlater⟩ := rposition_eq_some h
  obtain ⟨hi, hget⟩ := List.getElem?_eq_some_iff.1 hx
  have hxl : lowercase x = x := hl x (List.mem_of_getElem? hx)
  obtain ⟨hnext, hlower, hleast⟩ := nextOctet_spec hxl (by simpa using hlt)
  have hsplit : l = l.take i ++ x :: l.drop (i + 1) := by
    rw [← hget, List.getElem_cons_drop, List.take_append_drop]
  have horder : labelOrder l =
      labelOrder (l.take i) ++ x.toNat :: labelOrder (l.drop (i + 1)) := by
    conv_lhs => rw [hsplit]
    rw [labelOrder, List.map_append, List.map_cons, hxl]
    rfl
  have hnew : labelOrder (l.take i ++ [nextOctet (l.getD i 0)]) =
      labelOrder (l.take i) ++ [(nextOctet x).toNat] := by
    rw [List.getD_eq_getElem?_getD, hx, Option.getD_some, labelOrder, List.map_append]
    simp only [List.map_cons, List.map_nil, hlower]
    rfl
  have htop : ∀ z ∈ labelOrder (l.drop (i + 1)), z = 255 := by
    intro z hz
    obtain ⟨w, hw, rfl⟩ := List.mem_map.1 hz
    obtain ⟨j, hj⟩ := List.mem_iff_getElem?.1 hw
    rw [List.getElem?_drop] at hj
    have hmax := hlater _ (by omega) w hj
    have hw255 : w = 255 := by
      have hle := UInt8.le_iff_toNat_le.1 (UInt8.not_lt.1 (by simpa using hmax))
      have := w.toNat_lt
      have h255 : (255 : UInt8).toNat = 255 := rfl
      exact UInt8.toNat_inj.1 (by omega)
    rw [hw255]
    rfl
  refine ⟨hi, ?_, fun y hy hlen hlt => ?_⟩
  · rw [horder, hnew, List.append_lt_append_iff]
    exact List.cons_lt_cons_iff.2 (.inl hnext)
  · rw [hnew]
    rw [horder] at hlt
    refine List.increment_le_of_lt htop (fun z hz => ⟨(hy z hz).1, hleast z (hy z hz).2⟩) ?_ hlt
    rw [← horder]
    simpa [labelOrder] using hlen

/-- A label of the greatest octets has no next one that is no longer: all its octets are 255, and
only longer words come after such a word (`List.length_lt_of_top`). -/
theorem not_lt_of_rposition {l : Bytes} (h : rposition (fun b => b < 255) l = none) {y : List Nat}
    (hy : ∀ z ∈ y, z ≤ 255) (hlen : y.length ≤ l.length) : ¬ labelOrder l < y := by
  intro hlt
  have htop : ∀ z ∈ labelOrder l, z = 255 := by
    intro z hz
    obtain ⟨w, hw, rfl⟩ := List.mem_map.1 hz
    have hmax := rposition_eq_none h w hw
    have hw255 : w = 255 := by
      have hle := UInt8.le_iff_toNat_le.1 (UInt8.not_lt.1 (by simpa using hmax))
      have := w.toNat_lt
      have h255 : (255 : UInt8).toNat = 255 := rfl
      exact UInt8.toNat_inj.1 (by omega)
    rw [hw255]
    rfl
  have := List.length_lt_of_top htop hy hlt
  rw [labelOrder, List.length_map] at this
  omega

/-! ## The next name -/

/-- The place of labels in the canonical order. -/
def labelsOrder (ls : List Bytes) : List (List Nat) := (ls.map labelOrder).reverse

/-- In the order of names, which starts from the last label, the first label comes last. -/
theorem labelsOrder_cons (l : Bytes) (ls : List Bytes) :
    labelsOrder (l :: ls) = labelsOrder ls ++ [labelOrder l] := by
  rw [labelsOrder, List.map_cons, List.reverse_cons]
  rfl

/-- As many labels are compared as a name has. -/
theorem length_labelsOrder (ls : List Bytes) : (labelsOrder ls).length = ls.length := by
  simp [labelsOrder]

/-- The size on the wire does not depend on the order of the labels. -/
theorem size_labelsOrder (ls : List Bytes) :
    ((labelsOrder ls).map fun y => y.length + 1).sum = (ls.map fun l => l.length + 1).sum := by
  rw [labelsOrder, List.map_reverse, List.sum_reverse, List.map_map]
  refine congrArg List.sum (List.map_congr_left fun l _ => ?_)
  simp [labelOrder]

/-- Labels that are short enough, and not too many, make a name. -/
theorem ofLabels_eq (ls : List Bytes) (h : LabelsOk ls) :
    ∃ s : Name, ofLabels ls = .ok s ∧ s.labels = ls := by
  refine ⟨⟨ls, h⟩, ?_, rfl⟩
  rw [ofLabels, Name.fromLabels, dif_pos h]
  rfl

/-- A name of a zone that comes after some labels and does not extend them. -/
def Later (zone : Name) (ls : List Bytes) (m : Name) : Prop :=
  zone.order <+: m.order ∧ labelsOrder ls < m.order ∧ ¬ labelsOrder ls <+: m.order

/-- The least name with a property, or the zone if there is none. -/
def LeastOr (zone : Name) (p : Name → Prop) (s : Name) : Prop :=
  (p s ∧ ∀ m, p m → s.order ≤ m.order) ∨ (s = zone ∧ ∀ m, ¬ p m)

/-- The least name with a property is the least one with each equivalent property. -/
theorem LeastOr.congr {zone s : Name} {p q : Name → Prop} (h : LeastOr zone p s)
    (hpq : ∀ m, p m ↔ q m) : LeastOr zone q s := by
  rcases h with ⟨hs, hleast⟩ | ⟨hs, hnone⟩
  · exact .inl ⟨(hpq s).1 hs, fun m hm => hleast m ((hpq m).2 hm)⟩
  · exact .inr ⟨hs, fun m hm => hnone m ((hpq m).2 hm)⟩

/-- A name with a greater label in some place. -/
theorem label_fits {m : Name} {rest : List Bytes} {y : List Nat} {t : List (List Nat)}
    (h : m.order = labelsOrder rest ++ y :: t) :
    y ≠ [] ∧ y.length ≤ 63 ∧ (∀ z ∈ y, z ≤ 255 ∧ ¬ (65 ≤ z ∧ z ≤ 90)) ∧
      (rest.map fun l => l.length + 1).sum + y.length + 1 ≤ 254 := by
  obtain ⟨hne, hlen, hz⟩ := mem_order (m := m) (y := y) (by rw [h]; simp)
  refine ⟨hne, hlen, hz, ?_⟩
  have hsize := size_order m
  rw [h, List.map_append, List.sum_append, size_labelsOrder, List.map_cons, List.sum_cons] at hsize
  omega

/-- A name whose first label is the next one is the next name. A later name extends the owner, in
which case it is below it, or has a later first label, or leaves the labels behind the first
(`List.snoc_lt_cases`). -/
theorem later_of_label {zone s : Name} {l l' : Bytes} {rest : List Bytes}
    (hs : s.labels = l' :: rest) (hzone : zone.order <+: labelsOrder rest)
    (hlt : labelOrder l < labelOrder l')
    (hleast : ∀ (m : Name) (y : List Nat) (t : List (List Nat)),
     m.order = labelsOrder rest ++ y :: t →
      labelOrder l < y → labelOrder l' ≤ y) :
    LeastOr zone (Later zone (l :: rest)) s := by
  have horder : s.order = labelsOrder rest ++ [labelOrder l'] := by
    rw [← labelsOrder_cons, ← hs]
    rfl
  refine .inl ⟨⟨?_, ?_, ?_⟩, ?_⟩
  · rw [horder]
    exact hzone.trans (List.prefix_append _ _)
  · rw [horder, labelsOrder_cons, List.append_lt_append_iff]
    exact List.cons_lt_cons_iff.2 (.inl hlt)
  · intro hp
    rw [horder, labelsOrder_cons] at hp
    have heq := hp.eq_of_length (by simp)
    have := List.append_cancel_left heq
    simp only [List.cons.injEq, and_true] at this
    exact absurd this hlt.ne
  · rintro m ⟨-, hm, hnot⟩
    rw [labelsOrder_cons] at hm hnot
    rw [horder]
    rcases List.snoc_lt_cases hm with ⟨t, -, heq⟩ | ⟨y, t, hy, heq⟩ | ⟨hm, hleave⟩
    · refine absurd ?_ hnot
      rw [heq]
      simp
    · rw [heq, List.append_le_append_iff, List.cons_le_cons_word]
      rcases (hleast m y t heq hy).lt_or_eq with hy | hy
      · exact .inl hy
      · exact .inr ⟨hy, List.nil_le_word t⟩
    · exact (List.append_lt_of_leaves hm hleave _).le

/-- Where no label is greater, the next name is that of the parent. A name after the owner is not
below the parent any more, since its first label would have to be greater. -/
theorem later_parent {zone : Name} {l : Bytes} {rest : List Bytes}
    (hnone : ∀ (m : Name) (y : List Nat) (t : List (List Nat)),
     m.order = labelsOrder rest ++ y :: t →
      ¬ labelOrder l < y) (m : Name) : Later zone rest m ↔ Later zone (l :: rest) m := by
  constructor
  · rintro ⟨hz, hm, hnot⟩
    refine ⟨hz, ?_, fun hp => hnot ?_⟩
    · rw [labelsOrder_cons]
      exact List.append_lt_of_leaves hm hnot _
    · rw [labelsOrder_cons] at hp
      exact (List.prefix_append _ _).trans hp
  · rintro ⟨hz, hm, hnot⟩
    rw [labelsOrder_cons] at hm hnot
    rcases List.snoc_lt_cases hm with ⟨t, -, heq⟩ | ⟨y, t, hy, heq⟩ | ⟨hm, hleave⟩
    · refine absurd ?_ hnot
      rw [heq]
      simp
    · exact absurd hy (hnone m y t heq)
    · exact ⟨hz, hm, hleave⟩

/-- Where no label fits in front, the carry gives the least later name of the zone; the induction is
on the labels that are left, and `turns` counts those in front of the zone. -/
theorem carry_spec {zone : Name} {turns : Nat} {ls : List Bytes} (hok : LabelsOk ls)
    (hlow : ∀ l ∈ ls, Lowered l) (hlen : ls.length = zone.labels.length + turns)
    (hzone : zone.order <+: labelsOrder ls) :
    ∃ s, carry zone turns ls = .ok s ∧ LeastOr zone (Later zone ls) s := by
  induction turns generalizing ls with
  | zero =>
    have heq : zone.order = labelsOrder ls := by
      refine hzone.eq_of_length ?_
      rw [length_labelsOrder, hlen]
      simp [Name.order]
    refine ⟨zone, by cases ls <;> rfl, .inr ⟨rfl, ?_⟩⟩
    rintro m ⟨hz, -, hnot⟩
    exact hnot (heq ▸ hz)
  | succ turns ih =>
    cases ls with
    | nil =>
      rw [List.length_nil] at hlen
      omega
    | cons l rest =>
      have hsum : (((l :: rest).map fun l => l.length + 1).sum) =
          l.length + 1 + (rest.map fun l => l.length + 1).sum := by simp
      have hrest : zone.order <+: labelsOrder rest := by
        rw [labelsOrder_cons] at hzone
        refine List.prefix_of_prefix_length_le hzone (List.prefix_append _ _) ?_
        rw [length_labelsOrder]
        simp only [Name.order, List.length_reverse, List.length_map]
        simp only [List.length_cons] at hlen
        omega
      obtain ⟨hparts, hsize⟩ := hok
      obtain ⟨⟨hne, hl63⟩, hparts'⟩ := List.forall_mem_cons.1 hparts
      rw [hsum] at hsize
      rw [carry]
      split
      · next hroom =>
        rw [hsum] at hroom
        obtain ⟨s, hs, hlabels⟩ := ofLabels_eq ((l ++ [0]) :: rest) (by
          refine ⟨List.forall_mem_cons.2 ⟨⟨by simp, by simp; omega⟩, hparts'⟩, ?_⟩
          simp only [List.map_cons, List.sum_cons, List.length_append, List.length_cons,
            List.length_nil]
          omega)
        refine ⟨s, hs, later_of_label hlabels hrest ?_ fun m y t heq hy => ?_⟩
        · rw [labelOrder_push]
          exact List.lt_append _ (by simp)
        · rw [labelOrder_push]
          exact List.snoc_le_of_lt (fun z _ => Nat.zero_le z) hy
      · next hroom =>
        rw [hsum] at hroom
        have hfit (m : Name) (y : List Nat) (t : List (List Nat))
            (heq : m.order = labelsOrder rest ++ y :: t) : y.length ≤ l.length := by
          obtain ⟨-, hy63, -, hy⟩ := label_fits heq
          omega
        cases hat : rposition (fun b => b < 255) l with
        | some i =>
          obtain ⟨hi, hlt, hleast⟩ := increment_spec (hlow l List.mem_cons_self) hat
          obtain ⟨s, hs, hlabels⟩ :=
            ofLabels_eq ((l.take i ++ [nextOctet (l.getD i 0)]) :: rest) (by
              refine ⟨List.forall_mem_cons.2 ⟨⟨by simp, by simp; omega⟩, hparts'⟩, ?_⟩
              simp only [List.map_cons, List.sum_cons, List.length_append, List.length_cons,
                List.length_nil, List.length_take]
              omega)
          refine ⟨s, hs, later_of_label hlabels hrest hlt fun m y t heq hy => ?_⟩
          exact hleast y (label_fits heq).2.2.1 (hfit m y t heq) hy
        | none =>
          have hok : LabelsOk rest := ⟨hparts', by omega⟩
          obtain ⟨s, hs, hleast⟩ := ih hok
            (fun k hk => hlow k (List.mem_cons_of_mem _ hk))
            (by simp only [List.length_cons] at hlen; omega) hrest
          refine ⟨s, hs, hleast.congr (later_parent fun m y t heq hy => ?_)⟩
          exact not_lt_of_rposition hat (fun z hz => ((label_fits heq).2.2.1 z hz).1)
            (hfit m y t heq) hy

/-- The name that follows another one in a zone: it is the least name of the zone that is greater in
the canonical order, or the zone itself if no name of the zone is greater. -/
theorem successor_least (zone name : Name) (h : Srp.within name zone = true) :
    ∃ s, successor name zone = .ok s ∧
      LeastOr zone (fun m => Srp.within m zone = true ∧ name.order < m.order) s := by
  have horder : labelsOrder name.lower.labels = name.order := by
    simp only [labelsOrder, Name.order, Name.lower, labelOrder, List.map_map, Function.comp_def,
      lowercase_lowercase]
    rfl
  have hlength : name.canonical.length = 1 + (name.lower.labels.map fun l => l.length + 1).sum := by
    rw [Name.canonical, Name.length_labelsWire]
    rfl
  have hzone := within_iff.1 h
  have hext {m : Name} (hp : name.order <+: m.order) (hlt : name.order < m.order) :
      ∃ y t, m.order = labelsOrder name.lower.labels ++ y :: t := by
    obtain ⟨t, ht⟩ := hp
    cases t with
    | nil =>
      rw [← ht, List.append_nil] at hlt
      exact absurd hlt (lt_irrefl _)
    | cons y t => exact ⟨y, t, by rw [horder, ht]⟩
  rw [successor]
  split
  · next hroom =>
    obtain ⟨s, hs, hlabels⟩ := ofLabels_eq ([0] :: name.lower.labels) (by
      refine ⟨List.forall_mem_cons.2 ⟨⟨by simp, by simp⟩, name.lower.ok.1⟩, ?_⟩
      simp only [List.map_cons, List.sum_cons, List.length_cons, List.length_nil]
      omega)
    have hso : s.order = name.order ++ [[0]] := by
      rw [← horder, Name.order, hlabels]
      exact labelsOrder_cons _ _
    refine ⟨s, hs, .inl ⟨⟨?_, ?_⟩, ?_⟩⟩
    · rw [within_iff, hso]
      exact hzone.trans (List.prefix_append _ _)
    · rw [hso]
      exact List.lt_append _ (by simp)
    · rintro m ⟨-, hlt⟩
      rw [hso]
      by_cases hp : name.order <+: m.order
      · obtain ⟨y, t, heq⟩ := hext hp hlt
        obtain ⟨hne, -⟩ := label_fits heq
        rw [heq, horder, List.append_le_append_iff, List.cons_le_cons_word]
        have hle : [0] ≤ y := List.snoc_le_of_lt (a := []) (fun z _ => Nat.zero_le z)
          (lt_of_le_of_ne (List.nil_le_word y) (Ne.symm hne))
        rcases hle.lt_or_eq with hy | hy
        · exact .inl hy
        · exact .inr ⟨hy, List.nil_le_word t⟩
      · exact (List.append_lt_of_leaves hlt hp _).le
  · next hroom =>
    have hlen : name.lower.labels.length =
        zone.labels.length + (name.labels.length - zone.labels.length) := by
      have := hzone.length_le
      simp only [Name.order, List.length_reverse, List.length_map] at this
      simp only [Name.lower, List.length_map]
      omega
    obtain ⟨s, hs, hleast⟩ := carry_spec name.lower.ok (fun l hl => lowered_lower hl) hlen
      (by rwa [horder])
    refine ⟨s, hs, hleast.congr fun m => ?_⟩
    rw [Later, horder, within_iff, ← and_assoc]
    refine and_iff_left_of_imp ?_
    rintro ⟨-, hlt⟩ hp
    obtain ⟨y, t, heq⟩ := hext hp hlt
    obtain ⟨hne, -, -, hsize⟩ := label_fits heq
    have := List.length_pos_of_ne_nil hne
    omega

/-! ## What a denial covers -/

/-- Whether an NSEC record at a name denies another name: it lies between the name and the next one,
or after the name if the next one is the zone. -/
def Covers (owner next zone m : Name) : Prop :=
  owner.order < m.order ∧ (m.order < next.order ∨ next.order = zone.order)

/-- The next name leaves no name between. -/
theorem not_covers {zone name s m : Name} (hzone : Srp.within name zone = true)
    (h : LeastOr zone (fun m => Srp.within m zone = true ∧ name.order < m.order) s)
    (hm : Srp.within m zone = true) : ¬ Covers name s zone m := by
  rintro ⟨hlt, hcover⟩
  rcases h with ⟨⟨-, hs⟩, hleast⟩ | ⟨-, hnone⟩
  · rcases hcover with hcover | heq
    · exact absurd hcover (not_lt.2 (hleast m ⟨hm, hlt⟩))
    · obtain ⟨t, ht⟩ := within_iff.1 hzone
      have hle : zone.order ≤ name.order := ht ▸ List.le_append _ _
      exact absurd (heq ▸ hs) (not_lt.2 hle)
  · exact hnone m ⟨hm, hlt⟩

/-- The longest domain is one of the domains. By induction on them, with the comparison of the
source at each. -/
theorem Zone.mem_of_longest {es : List (Scope × Name)} {e : Scope × Name}
    (h : longest es = some e) : e ∈ es := by
  induction es generalizing e with
  | nil => cases h
  | cons x es ih =>
    rw [longest] at h
    cases hl : longest es with
    | none =>
      rw [hl] at h
      cases h
      exact List.mem_cons_self
    | some y =>
      rw [hl] at h
      simp only [Option.some.injEq] at h
      subst h
      split
      · exact List.mem_cons_self
      · exact List.mem_cons_of_mem _ (ih hl)

/-- A domain of the zone is found under its scope. -/
theorem Zone.domain_of_mem {z : Zone} {e : Scope × Name} (h : e ∈ z.domains) :
    z.domain e.1 = some e.2 := by
  simp only [Zone.domains, List.cons_append, List.mem_cons, List.mem_append, List.mem_map,
    Option.mem_toList] at h
  rcases h with rfl | ⟨n, hn, rfl⟩ | ⟨x, hx, rfl⟩
  · rfl
  · exact hn
  · exact List.mem_zipIdx_iff_getElem?.1 hx

/-- A name is in the domain of its scope. -/
theorem Zone.within_domain {z : Zone} {name domain : Name} {scope : Scope}
    (h : z.scope name = some scope) (hd : z.domain scope = some domain) :
    Srp.within name domain = true := by
  obtain ⟨e, he, rfl⟩ := Option.map_eq_some_iff.1 h
  obtain ⟨hmem, hwithin⟩ := List.mem_filter.1 (mem_of_longest he)
  have hdomain := Zone.domain_of_mem hmem
  rw [hdomain] at hd
  cases hd
  exact hwithin

/-- A denial that is no NSEC3 record holds the next name. The function checks the scope and finds
the domain of the zone before it asks for the successor. -/
theorem Zone.denial_next {z : Zone} {sha1 : Bytes → Octets 20} {q : TranslatedQuestion}
    {records : List Record} {reach : Reachability} {r : Record}
    (h : z.denial sha1 q records reach = .ok r) (hk : r.kind = 47) :
    ∃ domain next bitmap, z.domain q.scope = some domain ∧
      Srp.within q.original.name domain = true ∧ r.name = q.original.name ∧
      r.data = .nsec next bitmap ∧ successor q.original.name domain = .ok next := by
  unfold denial at h
  split at h
  · cases h
  · next hcond =>
    have hscope : z.scope q.original.name = some q.scope := by
      by_contra hne
      exact hcond (.inr hne)
    split at h
    · cases h
    · next domain hdomain =>
      obtain ⟨g, -, h⟩ := exceptBind_ok h
      split at h
      · obtain ⟨owner, -, h⟩ := exceptBind_ok h
        cases h
        exact absurd hk (show (50 : UInt16) ≠ 47 by decide)
      · obtain ⟨types, -, h⟩ := exceptBind_ok h
        obtain ⟨next, hnext, h⟩ := exceptBind_ok h
        cases h
        exact ⟨domain, next, _, hdomain, within_domain hscope hdomain, rfl, rfl, hnext⟩

/-- The next name is the immediate successor of a name in its zone, and so a denial covers no name
of the zone. -/
theorem successor_immediate :
    (∀ zone name : Name, Srp.within name zone = true → ∃ s, successor name zone = .ok s ∧
      LeastOr zone (fun m => Srp.within m zone = true ∧ name.order < m.order) s) ∧
    ∀ (z : Zone) (sha1 : Bytes → Octets 20) (q : TranslatedQuestion) (records : List Record)
      (reach : Reachability) (r : Record), z.denial sha1 q records reach = .ok r → r.kind = 47 →
      ∃ domain next bitmap, z.domain q.scope = some domain ∧ r.name = q.original.name ∧
        r.data = .nsec next bitmap ∧
        ∀ m, Srp.within m domain = true → ¬ Covers r.name next domain m := by
  refine ⟨successor_least, fun z sha1 q records reach r h hk => ?_⟩
  obtain ⟨domain, next, bitmap, hdomain, hwithin, hname, hdata, hnext⟩ := Zone.denial_next h hk
  obtain ⟨s, hs, hleast⟩ := successor_least domain q.original.name hwithin
  rw [hnext] at hs
  cases hs
  refine ⟨domain, next, bitmap, hdomain, hname, hdata, fun m hm => ?_⟩
  rw [hname]
  exact not_covers hwithin hleast hm

/-- A name of 255 octets, whose first labels have no next. -/
def fullName : Name :=
  ⟨[List.replicate 63 255, List.replicate 63 255, List.replicate 62 97 ++ [64],
    List.replicate 55 255, ascii "local"], by decide⟩

/-- No label fits before such a name: the next one is without the first labels, and its first octet
that can be raised skips the capital letters. -/
theorem successor_immediate_full : ∃ s, successor fullName Zone.localName = .ok s ∧
    s.labels = [List.replicate 62 97 ++ [91], List.replicate 55 255, ascii "local"] ∧
    LeastOr Zone.localName
      (fun m => Srp.within m Zone.localName = true ∧ fullName.order < m.order) s := by
  have hwithin : Srp.within fullName Zone.localName = true := by decide
  have hlabels : (successor fullName Zone.localName).toOption.map Name.labels =
      some [List.replicate 62 97 ++ [91], List.replicate 55 255, ascii "local"] := by
    decide +kernel
  obtain ⟨s, hs, hleast⟩ := successor_immediate.1 Zone.localName fullName hwithin
  rw [hs] at hlabels
  exact ⟨s, hs, Option.some.inj hlabels, hleast⟩

end SnacMachine.Discovery
