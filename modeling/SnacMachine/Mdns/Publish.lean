import SnacMachine.Mdns.Cache

/-!
# Publications

The records that a publication announces, with the NSEC records that deny other types of its unique
names, and how they are packed into messages (`mdns/publish.rs`). SHA-256 is a parameter.
-/

namespace SnacMachine.Mdns

open Dns

/-- Reference: `invalid` (`mdns/publish.rs:87`). -/
def invalidPublication : IoError := ⟨.invalidData, "invalid mDNS publication or stale projection"⟩

/-- Reference: `capacity` (`mdns/publish.rs:93`). -/
def publicationCapacity : IoError := ⟨.wouldBlock, "mDNS publication capacity"⟩

/-- Reference: `BYTES` (`mdns/publish.rs:15`). -/
def publicationBytes : Nat := 4 * 1024 * 1024

/-- The octets of a message. -/
def encoded (m : Message) (context : Context) : Except IoError Bytes :=
  (m.encodeContext context).elim (.error wireInvalid) .ok

/-- Reference: `record_charge` (`mdns/publish.rs:243`). -/
def recordCharge (r : Record) : Except IoError Nat := do
  let m := { Message.new 0 0x8400 with answers := [r] }
  let b ← encoded m .unicast
  let wire ← encoded m .mdns
  if wire.length > 8952 then .error invalidPublication
  else .ok (256 + b.length * 8 + decodedOverhead r)

/-- Record data with its names in lower case. Reference: `mdns/publish.rs:216`. -/
def lowerData : Rdata → Rdata
  | .name n => .name n.lower
  | .srv priority weight port n => .srv priority weight port n.lower
  | .preference p n => .preference p n.lower
  | .nsec n bitmap => .nsec n.lower bitmap
  | .sig covered algorithm labels originalTtl expiration inception keyTag n signature =>
    .sig covered algorithm labels originalTtl expiration inception keyTag n.lower signature
  | .svcb priority n params => .svcb priority n.lower params
  | .twoNames first second => .twoNames first.lower second.lower
  | .px p map822 mapx400 => .px p map822.lower mapx400.lower
  | .soa mname rname serial refresh retry expire minimum =>
    .soa mname.lower rname.lower serial refresh retry expire minimum
  | d => d

/-- Reference: `identity` (`mdns/publish.rs:202`). -/
def identity (fingerprint : Bytes → Octets 32) (r : Record) : Except IoError (Octets 32) := do
  let r := { r with
    ttl := 0, cls := r.cls &&& 0x7fff, name := r.name.lower, data := lowerData r.data }
  let b ← encoded { Message.new 0 0 with answers := [r] } .unicast
  .ok (fingerprint b)

/-! ## NSEC records -/

/-- The bitmap blocks after one more type. Reference: `mdns/publish.rs:135`. -/
def addKind (blocks : OrdMap UInt8 Bytes) (kind : UInt16) : OrdMap UInt8 Bytes :=
  let b := (blocks.get (UInt8.ofNat (kind.toNat / 256))).getD []
  let at_ := kind.toNat % 256 / 8
  let b := b ++ List.replicate (max b.length (at_ + 1) - b.length) 0
  blocks.insert (UInt8.ofNat (kind.toNat / 256))
    (b.modify at_ fun x => x ||| bitMask (kind.toNat % 8))

/-- The types of records as a bitmap. Reference: `mdns/publish.rs:134`. -/
def nsecBitmap (kinds : List UInt16) : Bytes :=
  Windows.wire ((kinds.filter fun k => k != 47).foldl addKind .empty).entries

/-- The records of a name and class. Reference: `mdns/publish.rs:130`. -/
def ownRecords (records : List Record) (n : Name × UInt16) : List Record :=
  records.filter fun r => r.name == n.1 && r.cls &&& 0x7fff == n.2

/-- The NSEC record of a unique name. Reference: `mdns/publish.rs:146`. -/
def nsecRecord (records : List Record) (n : Name × UInt16) : Record where
  name := n.1
  kind := 47
  cls := n.2 ||| 0x8000
  ttl := (((ownRecords records n).map Record.ttl).min?).getD 120
  data := .nsec n.1 (nsecBitmap ((ownRecords records n).map Record.kind))

/-! ## Preparation -/

/-- Reference: `Prepared` (`mdns/publish.rs:96`). -/
structure Prepared where
  records : List Record
  digest : Octets 32
  names : OrdMap (Name × UInt16) Unit
  charge : Nat
  owners : OrdMap Name Unit

namespace Prepared

/-- What has been taken of the given records: the names that are unique and the charge. -/
abbrev Taken := OrdMap (Name × UInt16) Unit × Nat

/-- One record. Reference: `mdns/publish.rs:110`. -/
def take (s : Taken) (r : Record) : Except IoError Taken :=
  if !cacheable r || r.ttl == 0 then .error invalidPublication
  else do
    let n ← recordCharge r
    if s.2 + n > publicationBytes then .error publicationCapacity
    else
      .ok (if r.cls &&& 0x8000 != 0 then s.1.insert (r.name, r.cls &&& 0x7fff) () else s.1, s.2 + n)

/-- The NSEC record of one unique name, unless it has one. Reference: `mdns/publish.rs:123`. -/
def deny (s : List Record × Nat) (n : Name × UInt16) : Except IoError (List Record × Nat) :=
  if (ownRecords s.1 n).any fun r => r.kind == 47 then .ok s
  else do
    let r := nsecRecord s.1 n
    let c ← recordCharge r
    if s.1.length = 4096 ∨ s.2 + c > publicationBytes then .error publicationCapacity
    else .ok (s.1 ++ [r], s.2 + c)

/-- The digest of all records in the order of their identities. Reference: `mdns/publish.rs:163`. -/
def digestOf (fingerprint : Bytes → Octets 32) (records : List Record) :
    Except IoError (Octets 32) := do
  let ids ← records.mapM (identity fingerprint)
  let sorted := (ids.foldl (fun s d => s.insert d ()) (.empty : OrdMap (Octets 32) Unit)).keys
  .ok (fingerprint (sorted.flatMap Subtype.val))

/-- Reference: `Prepared::new` (`mdns/publish.rs:104`). -/
def new (fingerprint : Bytes → Octets 32) (input : List Record) : Except IoError Prepared :=
  if input.length > 4096 then .error publicationCapacity
  else do
    let (names, charge) ← input.foldlM take (.empty, 0)
    let (records, charge) ← names.keys.foldlM deny (input, charge)
    let digest ← digestOf fingerprint records
    .ok ⟨records, digest, names, charge, records.foldl (fun s r => s.insert r.name ()) .empty⟩

end Prepared

/-! ## What the bitmap of a name tells -/

/-- The row of a window after one more type: it is valid, and its bits are those of before and the
new one. The row is made long enough first; if it was, its last octet is the one of before, which is
not zero. -/
theorem row_addKind {b : Bytes} {i j : Nat} (hb : b = [] ∨ BitRow b) (hi : i < 32) (hj : j < 8) :
    BitRow ((b ++ List.replicate (max b.length (i + 1) - b.length) 0).modify i
        fun x => x ||| bitMask j) ∧
      ∀ n, bit ((b ++ List.replicate (max b.length (i + 1) - b.length) 0).modify i
        fun x => x ||| bitMask j) n = true ↔ bit b n = true ∨ i * 8 + j = n := by
  have hlen : (b ++ List.replicate (max b.length (i + 1) - b.length) 0).length =
      max b.length (i + 1) := by
    rw [List.length_append, List.length_replicate]
    omega
  have hbits (n : Nat) : bit ((b ++ List.replicate (max b.length (i + 1) - b.length) 0).modify i
      fun x => x ||| bitMask j) n = true ↔ bit b n = true ∨ i * 8 + j = n := by
    rw [bit_modify (by omega) hj, bit_append_zeros]
  refine ⟨?_, hbits⟩
  have hle : b.length ≤ 32 := by
    rcases hb with rfl | hb
    · simp
    · exact hb.length_le
  by_cases hlast : b.length ≤ i + 1
  · refine .of_bit (n := i * 8 + j) ?_ ?_ ((hbits _).2 (.inr rfl))
    · rw [List.length_modify, hlen]
      omega
    · rw [List.length_modify, hlen]
      omega
  · rcases hb with rfl | hb
    · exact absurd (Nat.zero_le _) hlast
    · obtain ⟨n, hn, -, hbit⟩ := hb.exists_bit
      refine .of_bit (n := n) ?_ ?_ ((hbits _).2 (.inl hbit))
      · rw [List.length_modify, hlen]
        omega
      · rw [List.length_modify, hlen]
        omega

/-- The blocks of a bitmap that has some types. -/
structure Blocks (m : OrdMap UInt8 Bytes) (has : Nat → Prop) : Prop where
  rows : ∀ w b, m.get w = some b → BitRow b
  bits : ∀ k < 65536, (∃ b, m.get (UInt8.ofNat (k / 256)) = some b ∧ bit b (k % 256) = true) ↔ has k

/-- Adding a type to the windows adds just that type. The row of its window is changed by
`row_addKind`, and the other windows are left alone. -/
theorem Blocks.addKind {m : OrdMap UInt8 Bytes} {has : Nat → Prop} (h : Blocks m has)
    (kind : UInt16) :
    Blocks (addKind m kind) fun k => has k ∨ kind.toNat = k := by
  have hlt := kind.toNat_lt
  have hrow : (m.get (UInt8.ofNat (kind.toNat / 256))).getD [] = [] ∨
      BitRow ((m.get (UInt8.ofNat (kind.toNat / 256))).getD []) := by
    cases hget : m.get (UInt8.ofNat (kind.toNat / 256)) with
    | none => exact .inl rfl
    | some b => exact .inr (h.rows _ b hget)
  obtain ⟨hnew, hbits⟩ := row_addKind (i := kind.toNat % 256 / 8) (j := kind.toNat % 8) hrow
    (by omega) (by omega)
  refine ⟨fun w b hget => ?_, fun k hk => ?_⟩
  · rw [Mdns.addKind, OrdMap.get_insert_eq] at hget
    split at hget
    · cases hget
      exact hnew
    · exact h.rows w b hget
  · rw [← h.bits k hk, Mdns.addKind, OrdMap.get_insert_eq]
    split
    · next hw =>
      have hwindow : k / 256 = kind.toNat / 256 := by
        have := congrArg UInt8.toNat hw
        rw [UInt8.toNat_ofNat', UInt8.toNat_ofNat'] at this
        omega
      have hsame : kind.toNat % 256 / 8 * 8 + kind.toNat % 8 = k % 256 ↔ kind.toNat = k := by omega
      simp only [Option.some.injEq, exists_eq_left', hbits, hsame]
      rw [hw]
      refine or_congr_left ?_
      cases m.get (UInt8.ofNat (k / 256)) with
      | none => simp [bit_eq_false]
      | some b => simp
    · next hw =>
      have hne : kind.toNat ≠ k := by
        rintro rfl
        exact hw rfl
      simp [hne]

/-- Without windows there are no types. -/
theorem Blocks.empty : Blocks .empty fun _ => False :=
  ⟨fun _ _ h => (nomatch h), fun _ _ => ⟨fun ⟨_, h, _⟩ => (nomatch h), False.elim⟩⟩

/-- Adding types in turn adds all of them. -/
theorem Blocks.foldl {m : OrdMap UInt8 Bytes} {has : Nat → Prop} (h : Blocks m has)
    (kinds : List UInt16) :
    Blocks (kinds.foldl Mdns.addKind m) fun k => has k ∨ ∃ kind ∈ kinds, kind.toNat = k := by
  induction kinds generalizing m has with
  | nil => simpa using h
  | cons kind kinds ih => simpa [or_assoc] using ih (h.addKind kind)

/-- The windows are well formed, and their members are the types. The blocks are stored by the
number of their window, so they are in rising order. -/
theorem Blocks.windows {m : OrdMap UInt8 Bytes} {has : Nat → Prop} (h : Blocks m has) :
    Windows m.entries ∧ ∀ k < 65536, HasBit m.entries k ↔ has k := by
  refine ⟨⟨?_, fun x hx => h.rows x.1 x.2 (OrdMap.mem_iff_get.1 hx)⟩, fun k hk => ?_⟩
  · exact m.sorted.imp fun hlt => UInt8.lt_iff_toNat_lt.2 hlt
  · rw [← h.bits k hk]
    constructor
    · rintro ⟨x, hx, hw, hbit⟩
      refine ⟨x.2, ?_, hbit⟩
      rw [← hw, UInt8.ofNat_toNat]
      exact OrdMap.mem_iff_get.1 hx
    · rintro ⟨b, hget, hbit⟩
      refine ⟨_, OrdMap.mem_iff_get.2 hget, ?_, hbit⟩
      rw [UInt8.toNat_ofNat']
      omega

/-- The windows of the types of a name. -/
theorem nsecBitmap_windows (kinds : List UInt16) :
    ∃ ws, nsecBitmap kinds = Windows.wire ws ∧ Windows ws ∧
      ∀ k < 65536, HasBit ws k ↔ ∃ kind ∈ kinds, kind ≠ 47 ∧ kind.toNat = k := by
  obtain ⟨hwindows, hbits⟩ := (Blocks.empty.foldl (kinds.filter fun k => k != 47)).windows
  refine ⟨_, rfl, hwindows, fun k hk => ?_⟩
  rw [hbits k hk]
  simp [and_assoc]

/-! ## What is prepared -/

/-- Masking the class twice is masking it once. -/
theorem mask_mask (x : UInt16) : x &&& 0x7fff &&& 0x7fff = x &&& 0x7fff := by
  rw [UInt16.and_assoc, UInt16.and_self]

/-- The flag of the class is masked away. -/
theorem mask_or {x : UInt16} (h : x &&& 0x7fff = x) : (x ||| 0x8000) &&& 0x7fff = x := by
  refine UInt16.toNat_inj.1 ?_
  have h := congrArg UInt16.toNat h
  rw [UInt16.toNat_and] at h
  rw [UInt16.toNat_and, UInt16.toNat_or, Nat.and_or_distrib_right, h]
  exact Nat.or_zero _

/-- Whether two names of records are the same. -/
theorem ownRecords_congr {records : List Record} {m n : Name × UInt16} (h : SameKey m n) :
    ownRecords records m = ownRecords records n := by
  obtain ⟨hname, hcls⟩ := sameKey_pair.1 h
  refine List.filter_congr fun r _ => ?_
  rw [sameKey_iff.1 hcls, BEq.congr_right (Name.beq_iff_sameKey.2 hname)]

namespace Prepared

/-- What is taken of one record: its name and class, if its flag says that it is unique. The charges
are tested besides, which changes nothing of the names. -/
theorem take_eq_ok {s t : Taken} {r : Record} (h : take s r = .ok t) :
    t.1 = if r.cls &&& 0x8000 != 0 then s.1.insert (r.name, r.cls &&& 0x7fff) () else s.1 := by
  unfold take at h
  split at h
  · cases h
  · cases hc : recordCharge r with
    | error e =>
      simp only [hc, bind, Except.bind] at h
      cases h
    | ok c =>
      simp only [hc, bind, Except.bind] at h
      split at h
      · cases h
      · cases h
        rfl

/-- The classes of the owned keys have no flag. -/
theorem take_masked {s t : Taken} {r : Record} (h : take s r = .ok t)
    (hs : ∀ n ∈ s.1.keys, n.2 &&& 0x7fff = n.2) : ∀ n ∈ t.1.keys, n.2 &&& 0x7fff = n.2 := by
  rw [take_eq_ok h]
  split
  · intro n hn
    obtain ⟨e, he, rfl⟩ := List.mem_map.1 hn
    rcases OrdMap.mem_entries_insert he with ⟨he, -⟩ | ⟨he, -⟩
    · exact hs _ (List.mem_map_of_mem he)
    · rw [sameKey_iff.1 (sameKey_pair.1 he).2]
      exact mask_mask _
  · exact hs

/-- A record adds its own key if its flag says that it is unique. The set of names is otherwise as
it was (`take_eq_ok`). -/
theorem take_contains {s t : Taken} {r : Record} (h : take s r = .ok t) (n : Name × UInt16) :
    t.1.contains n = true ↔ s.1.contains n = true ∨
      (r.cls &&& 0x8000 ≠ 0 ∧ SameKey (r.name, r.cls &&& 0x7fff) n) := by
  rw [take_eq_ok h]
  split
  · next hu =>
    rw [OrdMap.contains, OrdMap.contains, OrdMap.get_insert]
    have hu : r.cls &&& 0x8000 ≠ 0 := by simpa using hu
    split
    · next hk => simp [hu, hk]
    · next hk => simp [hk]
  · next hu =>
    have hu : ¬ r.cls &&& 0x8000 ≠ 0 := by simpa using hu
    simp [hu]

/-- The names that are taken are those of unique records. By induction on the input; a record that
is not unique leaves the names as they are. -/
theorem foldlM_take {input : List Record} {s s' : Taken} (h : input.foldlM take s = .ok s')
    (hs : ∀ n ∈ s.1.keys, n.2 &&& 0x7fff = n.2) :
    (∀ n ∈ s'.1.keys, n.2 &&& 0x7fff = n.2) ∧
      ∀ n, s'.1.contains n = true ↔ s.1.contains n = true ∨
        ∃ r ∈ input, r.cls &&& 0x8000 ≠ 0 ∧ SameKey (r.name, r.cls &&& 0x7fff) n := by
  induction input generalizing s with
  | nil =>
    cases h
    exact ⟨hs, fun n => by simp⟩
  | cons r input ih =>
    rw [List.foldlM_cons] at h
    cases ht : take s r with
    | error e =>
      rw [ht] at h
      cases h
    | ok t =>
      rw [ht] at h
      obtain ⟨hmask, hcontains⟩ := ih h (take_masked ht hs)
      refine ⟨hmask, fun n => ?_⟩
      rw [hcontains, take_contains ht]
      simp only [List.exists_mem_cons_iff, or_assoc]

/-- The NSEC record of a name is a record of that name alone. -/
theorem own_nsecRecord (records : List Record) {m : Name × UInt16} (n : Name × UInt16)
    (hmask : m.2 &&& 0x7fff = m.2) :
    ((nsecRecord records m).name == n.1 && (nsecRecord records m).cls &&& 0x7fff == n.2) = true ↔
      SameKey m n := by
  rw [Bool.and_eq_true, beq_iff_eq (a := (nsecRecord records m).cls &&& 0x7fff),
    Name.beq_iff_sameKey, sameKey_pair, sameKey_iff (K := UInt16), nsecRecord, mask_or hmask]

/-- A record of another name changes nothing for a name. -/
theorem ownRecords_snoc {records : List Record} {m n : Name × UInt16} (hmask : n.2 &&& 0x7fff = n.2)
    (hne : ¬ SameKey n m) :
    ownRecords (records ++ [nsecRecord records n]) m = ownRecords records m := by
  have hnot := mt (own_nsecRecord records m hmask).1 hne
  rw [ownRecords, List.filter_append, List.filter_cons_of_neg (by exact hnot)]
  exact List.append_nil _

/-- What is done for one name. It has a denial already, or one is added behind all records, if its
charge can be computed. -/
theorem deny_eq_ok {s t : List Record × Nat} {n : Name × UInt16} (h : deny s n = .ok t) :
    (((ownRecords s.1 n).any fun r => r.kind == 47) = true ∧ t.1 = s.1) ∨
      (((ownRecords s.1 n).any fun r => r.kind == 47) = false ∧
        t.1 = s.1 ++ [nsecRecord s.1 n]) := by
  unfold deny at h
  split at h
  · next hany =>
    cases h
    exact .inl ⟨hany, rfl⟩
  · next hany =>
    cases hc : recordCharge (nsecRecord s.1 n) with
    | error e =>
      simp only [hc, bind, Except.bind] at h
      cases h
    | ok c =>
      simp only [hc, bind, Except.bind] at h
      split at h
      · cases h
      · cases h
        exact .inr ⟨by simpa using hany, rfl⟩

/-- An NSEC record is added for each name that has none. By induction on the names, which are
different, so that a record that was added is not one of the names that follow. -/
theorem foldlM_deny {ns : List (Name × UInt16)} {s s' : List Record × Nat}
    (h : ns.foldlM deny s = .ok s') (hdistinct : ns.Pairwise fun m n => ¬ SameKey m n)
    (hmask : ∀ n ∈ ns, n.2 &&& 0x7fff = n.2) :
    s'.1 = s.1 ++ (ns.filter fun n => !(ownRecords s.1 n).any fun r => r.kind == 47).map
      (nsecRecord s.1) := by
  induction ns generalizing s with
  | nil =>
    cases h
    simp
  | cons n ns ih =>
    rw [List.foldlM_cons] at h
    obtain ⟨hne, hdistinct⟩ := List.pairwise_cons.1 hdistinct
    obtain ⟨hn, hmask⟩ := List.forall_mem_cons.1 hmask
    cases hd : deny s n with
    | error e =>
      rw [hd] at h
      cases h
    | ok t =>
      rw [hd] at h
      have hrest := ih h hdistinct hmask
      rcases deny_eq_ok hd with ⟨hany, ht⟩ | ⟨hany, ht⟩
      · rw [hrest, ht, List.filter_cons_of_neg (by simp [hany])]
      · have hown : ∀ m ∈ ns, ownRecords t.1 m = ownRecords s.1 m :=
          fun m hm => ht ▸ ownRecords_snoc hn (hne m hm)
        have hfilter : (ns.filter fun m => !(ownRecords t.1 m).any fun r => r.kind == 47) =
            ns.filter fun m => !(ownRecords s.1 m).any fun r => r.kind == 47 :=
          List.filter_congr fun m hm => by rw [hown m hm]
        have hmap : (ns.filter fun m => !(ownRecords s.1 m).any fun r => r.kind == 47).map
            (nsecRecord t.1) =
              (ns.filter fun m => !(ownRecords s.1 m).any fun r => r.kind == 47).map
                (nsecRecord s.1) :=
          List.map_congr_left fun m hm => by
            rw [nsecRecord, hown m (List.mem_filter.1 hm).1, nsecRecord]
        rw [hrest, hfilter, hmap, ht, List.filter_cons_of_pos (by simp [hany]), List.map_cons,
          List.append_assoc, List.singleton_append]

/-- What is prepared: the given records, and an NSEC record for each unique name that has none. The
names are collected by a first loop and denied by a second one (`foldlM_take`, `foldlM_deny`). -/
theorem new_eq_ok {fingerprint : Bytes → Octets 32} {input : List Record} {p : Prepared}
    (h : new fingerprint input = .ok p) :
    p.records = input ++ (p.names.keys.filter fun n =>
        !(ownRecords input n).any fun r => r.kind == 47).map (nsecRecord input) ∧
      (∀ n ∈ p.names.keys, n.2 &&& 0x7fff = n.2) ∧
      ∀ n, p.names.contains n = true ↔
        ∃ r ∈ input, r.cls &&& 0x8000 ≠ 0 ∧ SameKey (r.name, r.cls &&& 0x7fff) n := by
  unfold new at h
  split at h
  · cases h
  · cases htake : input.foldlM take (.empty, 0) with
    | error e =>
      simp only [htake, bind, Except.bind] at h
      cases h
    | ok s =>
      simp only [htake, bind, Except.bind] at h
      cases hdeny : s.1.keys.foldlM deny (input, s.2) with
      | error e =>
        rw [hdeny] at h
        cases h
      | ok t =>
        rw [hdeny] at h
        simp only at h
        cases hdigest : digestOf fingerprint t.1 with
        | error e =>
          rw [hdigest] at h
          cases h
        | ok d =>
          rw [hdigest] at h
          cases h
          obtain ⟨hmask, hcontains⟩ := foldlM_take htake fun n hn => (nomatch hn)
          have hdistinct : s.1.keys.Pairwise fun m n => ¬ SameKey m n :=
            List.pairwise_map.2 (s.1.sorted.imp fun hlt => ne_of_lt hlt)
          refine ⟨foldlM_deny hdeny hdistinct hmask, hmask, fun n => ?_⟩
          rw [hcontains]
          simp [OrdMap.contains]

end Prepared

end SnacMachine.Mdns
