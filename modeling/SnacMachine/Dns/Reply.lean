import SnacMachine.Dns.Patch
import SnacMachine.Dns.Compression

/-!
# Replies kept as octets

The functions of `dns/resolver.rs` that change a reply without encoding it again: `decay` ages its
lifetimes and `augment` appends the addresses of an alias. Both are local (`reply_local`): the reply
that the changed octets are read as differs from the original in the lifetimes, or in the appended
records, and in nothing else.
-/

namespace SnacMachine.Dns

/-- The extended response code. Reference: `rcode` (`dns/resolver.rs:1033`). -/
def rcode (m : Message) : UInt16 :=
  let extended : UInt16 :=
    (m.additional.find? fun r => r.kind == 41).elim 0 fun r => (r.ttl >>> 24).toUInt16
  (m.flags &&& (15 : UInt16)) ||| (extended <<< 4)

/-- The targets of the CNAME records of a name. Reference: `dns/resolver.rs:957`. -/
def cnameTargets (m : Message) (name : Name) : List Name :=
  (m.answers.filter fun r => r.name == name && r.kind == 5).filterMap fun r =>
    match r.data with
    | .name n => some n
    | _ => none

/-- The loop of `canonical` (`dns/resolver.rs:953`), with `fuel` rounds after the present one. -/
def canonicalLoop (m : Message) : (fuel : Nat) → (seen : List Name) → Name → Option Name
  | fuel, seen, name =>
    if seen.any fun n => n == name then none
    else match cnameTargets m name with
      | [] => some name
      | target :: rest =>
        if rest.any fun n => n != target then none
        else match fuel with
          | 0 => none
          | fuel + 1 => canonicalLoop m fuel (name :: seen) target

/-- The name at the end of a chain of aliases. Reference: `canonical` (`dns/resolver.rs:950`). -/
def canonical (m : Message) (start : Name) : Option Name := canonicalLoop m 16 [] start

/-- A reply that carries one record. Reference: `dns/resolver.rs:1010`. -/
def carrier (r : Record) : Message := { Message.new 0 0x8000 with additional := [r] }

/-- Reference: `record_bytes` (`dns/resolver.rs:1009`). -/
def recordBytes (r : Record) : Option Bytes := ((carrier r).encode).map fun b => b.drop 12

/-- Whether a record is there, whatever its lifetime. Reference: `dns/resolver.rs:988`. -/
def holds (records : List Record) (r : Record) : Bool :=
  records.any fun x => x.name == r.name && x.kind == r.kind && x.cls == r.cls && x.data == r.data

/-- The loop of `augment` (`dns/resolver.rs:987`): the octets and the number of records added. -/
def augmentLoop : List Record → (wire : Bytes) → (records : List Record) → (added : Nat) →
    Option (Bytes × Nat)
  | [], wire, _, added => some (wire, added)
  | r :: rs, wire, records, added =>
    if holds records r then augmentLoop rs wire records added
    else do
      let bytes ← recordBytes r
      if wire.length + bytes.length > 65535 then some (wire, added)
      else augmentLoop rs (wire ++ bytes) (records ++ [r]) (added + 1)

/-- The A records of a name. Reference: `dns/resolver.rs:987`. -/
def addressesOf (a : Message) (target : Name) : List Record :=
  a.answers.filter fun r => r.name == target && r.kind == 1

/-- Appends to a reply the addresses at the end of a chain of aliases. Reference: `augment`
(`dns/resolver.rs:978`). -/
def augment (base : Bytes) (a : Message) (start : Name) : Option Bytes :=
  if rcode a ≠ 0 then some base
  else do
    let target ← canonical a start
    let m ← Message.parse base .unicast
    let (wire, added) ← augmentLoop (addressesOf a target) base m.additional 0
    let count := (u16At wire 10).toNat + added
    if count > 65535 then none
    let wire := overwrite wire 10 (toBe 2 count)
    let _ ← Message.parse wire .unicast
    some wire

/-- The lifetime of a record after some seconds; an OPT record has none. -/
def agedTtl (elapsed : Nat) (r : Record) : Option UInt32 :=
  if r.kind ≠ 41 then some (UInt32.ofNat (r.ttl.toNat - elapsed)) else none

/-- Ages a reply. Reference: `decay` (`dns/resolver.rs:1015`). -/
def decay (b : Bytes) (elapsed : Nat) : Option Bytes := do
  let m ← Message.parse b .unicast
  some (patchTtls m.spans (m.records.map (agedTtl elapsed)) b)

/-! ## Ageing -/

/-- An aged reply is read as the reply with every lifetime cut by the time that has gone by. -/
theorem decay_parse {b : Bytes} {m : Message} (hp : Message.parse b .unicast = some m)
    (elapsed : Nat) :
    ∃ b', decay b elapsed = some b' ∧
      Message.parse b' .unicast =
        some { m.setTtls (m.records.map (agedTtl elapsed)) with original := b' } := by
  have hts : (m.records.map (agedTtl elapsed)).length = m.records.length := List.length_map _
  obtain ⟨hpatched, hid, hflags, hret⟩ := parse_patchTtls hp hts
  refine ⟨patchTtls m.spans (m.records.map (agedTtl elapsed)) b, ?_, ?_⟩
  · simp only [decay, hp, Option.bind_eq_bind, Option.bind_some]
  · rw [parse_setTtls hp hpatched hts hret, hid, hflags]
    rfl

/-! ## Chains of aliases -/

/-- A name is the end of a chain of aliases. -/
inductive ChainEnd (m : Message) : Name → Name → Prop
  | done {n : Name} (h : cnameTargets m n = []) : ChainEnd m n n
  | alias {n target e : Name} (h : target ∈ cnameTargets m n) (rest : ChainEnd m target e) :
      ChainEnd m n e

/-- The walk to the canonical name stays on the chain of aliases; the induction is on the fuel. A
name with several aliases, or one that was seen before, ends the walk without a result. -/
theorem canonicalLoop_chainEnd {m : Message} : ∀ {fuel : Nat} {seen : List Name} {name e : Name},
    canonicalLoop m fuel seen name = some e → ChainEnd m name e := by
  intro fuel
  induction fuel with
  | zero =>
    intro seen name e h
    unfold canonicalLoop at h
    split at h
    · exact absurd h (by simp)
    · split at h
      · next hnone =>
        obtain rfl := Option.some.inj h
        exact .done hnone
      · split at h <;> exact absurd h (by simp)
  | succ fuel ih =>
    intro seen name e h
    unfold canonicalLoop at h
    split at h
    · exact absurd h (by simp)
    · split at h
      · next hnone =>
        obtain rfl := Option.some.inj h
        exact .done hnone
      · next target rest heq =>
        split at h
        · exact absurd h (by simp)
        · exact .alias (by rw [heq]; exact List.mem_cons_self) (ih h)

/-! ## Appending -/

/-- The records that are appended to a message of a given size: in order, without those that are
there, up to the first that would exceed the size of a message. -/
def appended : (records : List Record) → (size : Nat) → List Record → List Record
  | _, _, [] => []
  | records, size, r :: rs =>
    if holds records r then appended records size rs
    else if size + (recordWire r).length > 65535 then []
    else r :: appended (records ++ [r]) (size + (recordWire r).length) rs

/-- An A record as the parser reads it back: its data is an address, whatever it was written
from. -/
def Record.asRead (r : Record) : Record :=
  if h : (dataWire r.data).length = 4 then { r with data := .a ⟨dataWire r.data, h⟩ } else r

/-- An address is read as it was written, whatever its letter case would be. -/
theorem Record.asRead_of_address {r : Record} {x : Octets 4} (h : r.data = .a x) :
    r.asRead = r := by
  obtain ⟨name, kind, cls, ttl, data⟩ := r
  simp only at h
  subst h
  unfold Record.asRead
  rw [dif_pos (show (dataWire (.a x)).length = 4 from x.2)]
  rfl

/-- Reading a record that was written in its plain form finds its type and the length of its data.
The owner is read back as it stands (`reach_plain`), which places the fields behind it. -/
theorem ReadsRecord.plain {b y : Bytes} {c : Context} {update : Bool} {section_ : Nat}
    {seen seen' : Bool} {p p' p₁ : Parser} {pos pos' q : Nat} {r r' : Record} {span : RecordSpan}
    {len : UInt16}
    (h : ReadsRecord b c update section_ seen p pos r' span seen' pos' p' q p₁ len)
    (hs : Span b pos b.length (recordWire r ++ y)) (hlen : (dataWire r.data).length ≤ 65535) :
    r'.kind = r.kind ∧ len.toNat = (dataWire r.data).length := by
  simp only [recordWire, List.append_assoc] at hs
  obtain ⟨positions, hr⟩ := reach_plain p.known r.name.ok.1 hs
  have hname := (Parser.name_reach (z := true) hr (.inl rfl) hr.stop_le
    fun h : False => h.elim).post h.name
  obtain rfl : q = pos + r.name.wire.length := hname.2.1
  have hs₁ := hs.right
  have hs₂ := hs₁.right_be
  have hs₃ := hs₂.right_be
  have hs₄ := hs₃.right_be
  have hn : (UInt16.ofNat (dataWire r.data).length).toNat = (dataWire r.data).length := by
    rw [UInt16.toNat_ofNat']
    omega
  have hkind := h.kind
  have hsize := h.size
  rw [u16_span hs₁] at hkind
  rw [u16_span (v := UInt16.ofNat (dataWire r.data).length) (by rw [hn]; exact hs₄)] at hsize
  simp only [Option.some.injEq, Prod.mk.injEq] at hkind hsize
  exact ⟨hkind.1.symm, by rw [← hsize.1, hn]⟩

/-- The data of an A record has four octets. -/
theorem rdata_address {b : Bytes} {pos stop : Nat} {z mdns : Bool} {p : Parser}
    {x : Rdata × Nat × Parser} (h : p.rdata b 1 pos stop z mdns = some x) : stop - pos = 4 := by
  unfold Parser.rdata at h
  rw [show form 1 = .a from rfl] at h
  by_contra hne
  simp only [ne_eq, hne, not_false_iff, if_true, Option.bind_eq_bind, Option.bind_none] at h
  exact absurd h (by simp)

/-- What `record_bytes` returns: the plain form of a record, with an address if it is an A
record. -/
theorem recordBytes_eq_some {r : Record} {bytes : Bytes} (h : recordBytes r = some bytes) :
    bytes = recordWire r ∧ (r.kind = 1 → (dataWire r.data).length = 4) := by
  obtain ⟨b, hb, rfl⟩ := Option.map_eq_some_iff.1 h
  obtain ⟨qs, rs, d, d', m', rfl, hq, hr, hp⟩ := encodeContext_eq_some hb
  obtain ⟨rfl, rfl⟩ : [] = qs ∧ Dictionary.empty = d := by
    simpa [writeAll, carrier, Message.new] using hq
  simp only [Message.records, carrier, Message.new, List.append_nil, List.nil_append, writeAll,
    writeRecord, Option.bind_eq_bind, Option.bind_eq_some_iff, Option.bind_none,
    Option.ite_none_left_eq_some, Option.some.injEq, Prod.mk.injEq, Prod.exists] at hr
  obtain ⟨out, d₁, ⟨n, d₂, hn, data, d₃, hdata, hsize, rfl, rfl⟩, out₂, d₄, ⟨rfl, rfl⟩, rfl, rfl⟩ :=
    hr
  obtain ⟨rfl, rfl⟩ : r.name.wire = n ∧ Dictionary.empty = d₂ := by
    simpa [writeName] using hn
  obtain ⟨rfl, -⟩ := writeRdata_eq_plain hdata
  have hwire : r.name.wire ++ toBe 2 r.kind.toNat ++ toBe 2 r.cls.toNat ++ toBe 4 r.ttl.toNat ++
      toBe 2 (dataWire r.data).length ++ dataWire r.data = recordWire r := rfl
  rw [List.append_nil, hwire, List.append_nil] at hp ⊢
  refine ⟨?_, fun hkind => ?_⟩
  · rw [List.drop_append, List.drop_eq_nil_of_le (by rw [length_header]),
      length_header, Nat.sub_self, List.drop_zero, List.nil_append]
  · have hhead := header_fields (b := (carrier r).header ++ recordWire r) rfl
      (show 0 + 0 + 0 + 1 ≤ maxRecords by decide)
    obtain ⟨q₁, q₂, q₃, p₁, p₂, p₃, seen₁, seen₂, s₁, s₂, s₃, hsec⟩ := parse_eq_some.1 hp
    obtain ⟨seen₃, p₄, har⟩ := hsec.additional
    have hquestions := hsec.questions
    have hanswers := hsec.answers
    have hauthority := hsec.authority
    obtain ⟨hid, hflags, hqd, han, hns, har'⟩ := hhead
    rw [hqd] at hquestions
    rw [han] at hanswers
    rw [hns] at hauthority
    rw [har'] at har
    simp only [carrier, Message.new, List.length_nil, List.length_singleton,
      parseQuestions, parseRecords, Option.some.injEq, Prod.mk.injEq, Option.bind_eq_bind,
      Option.bind_eq_some_iff,
      Prod.exists] at hquestions hanswers hauthority har
    obtain ⟨-, rfl, rfl⟩ := hquestions
    obtain ⟨-, -, rfl, rfl, rfl⟩ := hanswers
    obtain ⟨-, -, rfl, rfl, rfl⟩ := hauthority
    obtain ⟨r', span, seen', pos', p', hread, -⟩ := har
    obtain ⟨q, p₅, len, hread⟩ := parseRecord_eq_some.1 hread
    have hs : Span ((carrier r).header ++ recordWire r) 12
        ((carrier r).header ++ recordWire r).length (recordWire r ++ []) := by
      have := Span.suffix (carrier r).header (recordWire r)
      rw [length_header] at this
      rwa [List.append_nil]
    have hbound : (dataWire r.data).length ≤ 65535 := by
      simp only [maxWire, List.length_append] at hsize
      omega
    obtain ⟨hk, hlen⟩ := hread.plain hs hbound
    have hdata' := hread.data
    have hupdate : isUpdate (u16At ((carrier r).header ++ recordWire r) 2) = false := by
      rw [hflags]
      exact show isUpdate 0x8000 = false by decide
    change p₅.data ((carrier r).header ++ recordWire r) .unicast
      (isUpdate (u16At ((carrier r).header ++ recordWire r) 2)) _ _ _ _ = _ at hdata'
    rw [hupdate] at hdata'
    unfold Parser.data at hdata'
    rw [if_neg (by simp), hk, hkind] at hdata'
    have := rdata_address hdata'
    omega

/-- What the loop of `augment` appends: those of the given records that the message does not hold,
until it is full. By recursion on the records, with the octets and the number of those appended so
far as accumulators. -/
theorem augmentLoop_eq_some :
    ∀ {rs records : List Record} {wire wire' : Bytes} {added added' : Nat},
    augmentLoop rs wire records added = some (wire', added') →
    wire' = wire ++ (appended records wire.length rs).flatMap recordWire ∧
      added' = added + (appended records wire.length rs).length ∧
      ∀ r ∈ appended records wire.length rs, r ∈ rs ∧ (r.kind = 1 → (dataWire r.data).length = 4)
  | [], records, wire, wire', added, added', h => by
    obtain ⟨rfl, rfl⟩ := Prod.mk.inj (Option.some.inj h)
    simp [appended]
  | r :: rs, records, wire, wire', added, added', h => by
    unfold augmentLoop at h
    unfold appended
    split at h
    · next hholds =>
      rw [if_pos hholds]
      obtain ⟨h₁, h₂, h₃⟩ := augmentLoop_eq_some h
      exact ⟨h₁, h₂, fun x hx => ⟨List.mem_cons_of_mem _ (h₃ x hx).1, (h₃ x hx).2⟩⟩
    · next hholds =>
      rw [if_neg hholds]
      obtain ⟨bytes, hbytes, h⟩ := Option.bind_eq_some_iff.1 h
      obtain ⟨rfl, haddress⟩ := recordBytes_eq_some hbytes
      split at h
      · next hfull =>
        obtain ⟨rfl, rfl⟩ := Prod.mk.inj (Option.some.inj h)
        rw [if_pos hfull]
        simp
      · next hfull =>
        rw [if_neg hfull]
        obtain ⟨h₁, h₂, h₃⟩ := augmentLoop_eq_some h
        rw [List.length_append] at h₁ h₂ h₃
        refine ⟨?_, ?_, fun x hx => ?_⟩
        · rw [h₁, List.flatMap_cons, List.append_assoc]
        · rw [h₂, List.length_cons]
          omega
        · rcases List.mem_cons.1 hx with rfl | hx
          · exact ⟨List.mem_cons_self, haddress⟩
          · exact ⟨List.mem_cons_of_mem _ (h₃ x hx).1, (h₃ x hx).2⟩

/-- What a record is read as is written as the record was. -/
theorem Record.recordWire_asRead (r : Record) : recordWire r.asRead = recordWire r := by
  unfold Record.asRead
  split <;> rfl

/-- More records are read after some: reading `n + k` records is reading `n`, and then `k` from
where these have ended. By recursion on the first number. -/
theorem parseRecords_add {b : Bytes} {c : Context} {update : Bool} {section_ : Nat} :
    ∀ {n k : Nat} {seen seen₁ seen' : Bool} {p p₁ p' : Parser} {pos pos₁ pos' : Nat}
      {rs rs₁ : List Record} {ss ss₁ : List RecordSpan},
    parseRecords b c update section_ (n + k) seen p pos = some (rs, ss, seen', pos', p') →
    parseRecords b c update section_ n seen p pos = some (rs₁, ss₁, seen₁, pos₁, p₁) →
    ∃ rs₂ ss₂, parseRecords b c update section_ k seen₁ p₁ pos₁ = some (rs₂, ss₂, seen', pos', p') ∧
      rs = rs₁ ++ rs₂
  | 0, k, seen, seen₁, seen', p, p₁, p', pos, pos₁, pos', rs, rs₁, ss, ss₁, h, h₁ => by
    simp only [parseRecords, Option.some.injEq, Prod.mk.injEq] at h₁
    obtain ⟨rfl, rfl, rfl, rfl, rfl⟩ := h₁
    rw [Nat.zero_add] at h
    exact ⟨rs, ss, h, rfl⟩
  | n + 1, k, seen, seen₁, seen', p, p₁, p', pos, pos₁, pos', rs, rs₁, ss, ss₁, h, h₁ => by
    rw [Nat.add_right_comm] at h
    simp only [parseRecords, Option.bind_eq_bind, Option.bind_eq_some_iff, Option.some.injEq,
      Prod.mk.injEq, Prod.exists] at h h₁
    obtain ⟨r, s, seen₂, pos₂, p₂, hr, rs', ss', seen₃, pos₃, p₃, hrs, rfl, rfl, rfl, rfl, rfl⟩ := h
    obtain ⟨r', s', seen₂', pos₂', p₂', hr', rs'', ss'', seen₃', pos₃', p₃', hrs',
      rfl, rfl, rfl, rfl, rfl⟩ := h₁
    rw [hr] at hr'
    simp only [Option.some.injEq, Prod.mk.injEq] at hr'
    obtain ⟨rfl, rfl, rfl, rfl, rfl⟩ := hr'
    obtain ⟨rs₂, ss₂, h₂, rfl⟩ := parseRecords_add hrs hrs'
    exact ⟨rs₂, ss₂, h₂, rfl⟩

/-- Records that were written in their plain form are read back. The records are addresses with four
octets of data, so each is read as the typed address; the whole list is read by `Track.records`,
with an empty dictionary, since the owners are written in plain. -/
theorem parseRecords_plain {b : Bytes} {update : Bool} {section_ : Nat} {seen seen' : Bool}
    {p p' : Parser} {pos pos' : Nat} {rs rs' : List Record} {ss : List RecordSpan}
    (hfit : ∀ r ∈ rs, r.kind = 1 ∧ (dataWire r.data).length = 4) (hb : b.length ≤ maxWire)
    (hs : Span b pos b.length (rs.flatMap recordWire))
    (h : parseRecords b .unicast update section_ rs.length seen p pos =
     some (rs', ss, seen', pos', p')) :
    rs' = rs.map Record.asRead := by
  have hread : ∀ r ∈ rs.map Record.asRead, r.kind = 1 ∧ ∃ x, r.data = .a x := by
    intro r hr
    obtain ⟨r₀, hr₀, rfl⟩ := List.mem_map.1 hr
    obtain ⟨hkind, hlen⟩ := hfit r₀ hr₀
    unfold Record.asRead
    rw [dif_pos hlen]
    exact ⟨hkind, _, rfl⟩
  have hfits : ∀ r ∈ rs.map Record.asRead, RecordFits update r := by
    intro r hr
    obtain ⟨hkind, x, hx⟩ := hread r hr
    refine .inr ⟨?_, by rw [hx]; simp⟩
    rw [hkind, hx]
    trivial
  have hwire : (rs.map Record.asRead).flatMap recordWire = rs.flatMap recordWire := by
    rw [List.flatMap_map]
    exact List.flatMap_congr fun r _ => r.recordWire_asRead
  have hstop := hs.stop_eq
  have hw := writeRecords_plain update .empty (rs.map Record.asRead) pos hfits (fun r hr => by
    obtain ⟨-, x, hx⟩ := hread r hr
    rw [hx]
    rfl) (by rw [hwire]; omega)
  have htrack : Track False True b
      ((rs.map Record.asRead).flatMap (Record.pieces .unicast) ++ []) p .empty pos :=
    ⟨fun _ => 0, fun _ he => absurd he (by simp [Dictionary.empty]), fun h => h.elim,
     fun _ => trivial⟩
  have := htrack.records section_ seen (forall₂_readAs hfits) (fun h => h.elim) hw
    (y := []) (by rw [hwire, List.append_nil]; exact hs)
  rw [List.length_map] at this
  exact (this.post h).1

/-- A reply with appended addresses is read as the reply with these at the end of its last
section. -/
theorem augment_parse {b b' : Bytes} {m a : Message} {n : Name}
    (hp : Message.parse b .unicast = some m) (hcode : rcode a = 0) (h : augment b a n = some b') :
    ∃ target m', canonical a n = some target ∧ ChainEnd a n target ∧
      Message.parse b' .unicast = some m' ∧ m'.id = m.id ∧ m'.flags = m.flags ∧
      m'.questions = m.questions ∧ m'.answers = m.answers ∧ m'.authority = m.authority ∧
      m'.additional = m.additional ++
        (appended m.additional b.length (addressesOf a target)).map Record.asRead := by
  simp only [augment, hcode, ne_eq, not_true, if_false, hp, Option.bind_eq_bind,
    Option.bind_eq_some_iff, Option.some.injEq, Option.bind_none, Option.ite_none_left_eq_some,
      Prod.exists] at h
  obtain ⟨target, htarget, _, rfl, wire, added, hloop, hcount, m', hp', rfl⟩ := h
  refine ⟨target, m', htarget, canonicalLoop_chainEnd htarget, hp', ?_⟩
  obtain ⟨rfl, rfl, hnew⟩ := augmentLoop_eq_some hloop
  generalize happ : appended m.additional b.length (addressesOf a target) = new at hnew hp' hcount ⊢
  obtain ⟨q₁, q₂, q₃, p₁, p₂, p₃, seen₁, seen₂, s₁, s₂, s₃, hsec⟩ := parse_eq_some.1 hp
  obtain ⟨hq₁, hspans, -⟩ := hsec.layout
  have hbounds := hsec.length
  have hfit :
      10 + (toBe 2 ((u16At (b ++ new.flatMap recordWire) 10).toNat + (0 + new.length))).length ≤
      (b ++ new.flatMap recordWire).length := by
    rw [length_toBe, List.length_append]
    omega
  have h10 : u16At (b ++ new.flatMap recordWire) 10 = u16At b 10 := by
    refine u16At_agree fun i _ hi => ?_
    rw [List.getElem?_append_left (by omega)]
  rw [h10, Nat.zero_add] at hp' hcount hfit
  generalize hb' : overwrite (b ++ new.flatMap recordWire) 10
    (toBe 2 ((u16At b 10).toNat + new.length)) = b' at hp'
  -- The old octets, other than the count of the last section.
  have hold : ∀ i, i < b.length → (i < 10 ∨ 12 ≤ i) → b[i]? = b'[i]? := fun i hi hout => by
    rw [← hb', getElem?_overwrite hfit (by rw [length_toBe]; exact hout),
      List.getElem?_append_left hi]
  have hlen' : b'.length = b.length + (new.flatMap recordWire).length := by
    rw [← hb', length_overwrite hfit, List.length_append]
  have hlen : b.length ≤ b'.length := by omega
  have hhead : ∀ pos, pos + 2 ≤ 10 → u16At b' pos = u16At b pos := fun pos hpos =>
    (u16At_agree fun i _ hi => hold i (by omega) (by omega)).symm
  have har : u16At b' 10 = UInt16.ofNat ((u16At b 10).toNat + new.length) := by
    have := drop_take_overwrite hfit
    rw [length_toBe, hb'] at this
    rw [u16At, this, ofBe_toBe (by simpa using Nat.lt_succ_of_le (Nat.not_lt.1 hcount))]
  have hspan : Span b' b.length b'.length (new.flatMap recordWire) := by
    have hdrop : b'.drop b.length = new.flatMap recordWire := by
      refine List.ext_getElem? fun i => ?_
      rw [List.getElem?_drop, ← hb', getElem?_overwrite hfit (by rw [length_toBe]; omega),
        List.getElem?_append_right (by omega), Nat.add_sub_cancel_left]
    rw [← hdrop]
    exact Span.ofDrop hlen
  have hrec : ∀ s ∈ m.spans, RecordAgree b b' s ∧ ttlAt b' s.ttl = ttlAt b s.ttl := fun s hs => by
    obtain ⟨h₁, h₂, h₃⟩ := hspans.mem hs
    have h₄ := h₂.ttl
    have h₅ := h₂.rdata
    refine ⟨⟨fun i hi₁ hi₂ => hold i (by omega) (by omega), fun i hi₁ hi₂ =>
      hold i (by omega) (by omega)⟩, ?_⟩
    exact (ttlAt_congr fun i hi₁ hi₂ => hold i (by omega) (by omega)).symm
  rw [hsec.spans] at hrec
  obtain ⟨hquestions, hsh₁⟩ := parseQuestions_agree hlen hsec.questions (Shared.nil b b')
    fun i hi₁ hi₂ => hold i (by have := hspans.le; omega) (by omega)
  obtain ⟨hanswers, hsh₂⟩ := parseRecords_agree hlen hsec.answers hsh₁ fun s hs =>
    (hrec s (by simp [hs])).1
  obtain ⟨hauthority, hsh₃⟩ := parseRecords_agree hlen hsec.authority hsh₂ fun s hs =>
    (hrec s (by simp [hs])).1
  obtain ⟨seen₃, p₄, hlast⟩ := hsec.additional
  obtain ⟨hadditional, -⟩ :=
    parseRecords_agree hlen hlast hsh₃ fun s hs => (hrec s (by simp [hs])).1
  rw [retimed_congr m.answers fun s hs => (hrec s (by simp [hs])).2,
    (parseRecords_spans hsec.answers).2.2] at hanswers
  rw [retimed_congr m.authority fun s hs => (hrec s (by simp [hs])).2,
    (parseRecords_spans hsec.authority).2.2] at hauthority
  rw [retimed_congr m.additional fun s hs => (hrec s (by simp [hs])).2,
    (parseRecords_spans hlast).2.2] at hadditional
  -- The new octets are read section by section as the old ones, then come the new records.
  obtain ⟨q₁', q₂', q₃', p₁', p₂', p₃', seen₁', seen₂', s₁', s₂', s₃', hsec'⟩ := parse_eq_some.1 hp'
  have hquestions' := hsec'.questions
  rw [hhead 4 (by decide), hquestions] at hquestions'
  simp only [Option.some.injEq, Prod.mk.injEq] at hquestions'
  obtain ⟨hqs, rfl, rfl⟩ := hquestions'
  have hanswers' := hsec'.answers
  rw [hhead 2 (by decide), hhead 6 (by decide), hanswers] at hanswers'
  simp only [Option.some.injEq, Prod.mk.injEq] at hanswers'
  obtain ⟨has, rfl, rfl, rfl, rfl⟩ := hanswers'
  have hauthority' := hsec'.authority
  rw [hhead 2 (by decide), hhead 8 (by decide), hauthority] at hauthority'
  simp only [Option.some.injEq, Prod.mk.injEq] at hauthority'
  obtain ⟨hns, rfl, rfl, rfl, rfl⟩ := hauthority'
  obtain ⟨seen₄, p₅, hlast'⟩ := hsec'.additional
  have hcount' : (u16At b' 10).toNat = (u16At b 10).toNat + new.length := by
    rw [har, UInt16.toNat_ofNat']
    omega
  rw [hhead 2 (by decide), hcount'] at hlast'
  obtain ⟨rs₂, ss₂, hrs₂, hadd⟩ := parseRecords_add hlast' hadditional
  have hfits : ∀ r ∈ new, r.kind = 1 ∧ (dataWire r.data).length = 4 := fun r hr => by
    obtain ⟨hmem, haddr⟩ := hnew r hr
    have hkind : r.kind = 1 := by
      have := (List.mem_filter.1 hmem).2
      simp only [Bool.and_eq_true, beq_iff_eq] at this
      exact this.2
    exact ⟨hkind, haddr hkind⟩
  have hrs₂ := parseRecords_plain hfits (by have := hsec'.length; omega) hspan hrs₂
  refine ⟨?_, ?_, hqs.symm, has.symm, hns.symm, by rw [hadd, hrs₂]⟩
  · rw [hsec'.id, hhead 0 (by decide), hsec.id]
  · rw [hsec'.flags, hhead 2 (by decide), hsec.flags]

/-- In-place changes of a reply are local. The octets with a new identifier and with new lifetimes
of any of the records, and the aged octets, are read as the reply with just these fields changed;
what `augment` returns for a reply without an error is read as the reply with the A records at the
end of the chain of aliases appended that are not there already, as far as they fit. -/
theorem reply_local {b : Bytes} {m : Message} (hp : Message.parse b .unicast = some m) :
    (∀ (id : UInt16) (ts : List (Option UInt32)), ts.length = m.records.length →
      Message.parse (overwrite (patchTtls m.spans ts b) 0 (toBe 2 id.toNat)) .unicast =
        some { m.setTtls ts with
          id := id
          original := overwrite (patchTtls m.spans ts b) 0 (toBe 2 id.toNat) }) ∧
    (∀ elapsed, ∃ b', decay b elapsed = some b' ∧ Message.parse b' .unicast =
      some { m.setTtls (m.records.map (agedTtl elapsed)) with original := b' }) ∧
    (∀ a n b', rcode a = 0 → augment b a n = some b' →
      ∃ target m', canonical a n = some target ∧ ChainEnd a n target ∧
        Message.parse b' .unicast = some m' ∧ m'.id = m.id ∧ m'.flags = m.flags ∧
        m'.questions = m.questions ∧ m'.answers = m.answers ∧ m'.authority = m.authority ∧
        m'.additional = m.additional ++
          (appended m.additional b.length (addressesOf a target)).map Record.asRead ∧
        ∀ r ∈ addressesOf a target, (∃ x, r.data = .a x) → r.asRead = r) := by
  refine ⟨fun id ts hts => patch_parse hp id hts, decay_parse hp, fun a n b' hcode h => ?_⟩
  obtain ⟨target, m', h₁, h₂, h₃, h₄, h₅, h₆, h₇, h₈, h₉⟩ := augment_parse hp hcode h
  exact ⟨target, m', h₁, h₂, h₃, h₄, h₅, h₆, h₇, h₈, h₉, fun r _ ⟨_, hx⟩ => r.asRead_of_address hx⟩

/-- A reply with one answer: `a.` has the address 10.0.0.1 for a minute. -/
def sampleReply : Bytes :=
  [0, 1, 129, 128, 0, 0, 0, 1, 0, 0, 0, 0, 1, 97, 0, 0, 1, 0, 1, 0, 0, 0, 60, 0, 4, 10, 0, 0, 1]

/-- The sample reply after ten seconds, and with the address of its own answer appended. The reply
is parsed by evaluation; both theorems about patched replies are applied to it. -/
theorem reply_local_sampleReply :
    ∃ m m₁ m₂ b₁ b₂ target, Message.parse sampleReply .unicast = some m ∧
      decay sampleReply 10 = some b₁ ∧ Message.parse b₁ .unicast = some m₁ ∧
      m₁.answers = m.answers.map (fun r => r.setTtl (agedTtl 10 r)) ∧
      augment sampleReply m ⟨[[97]], by decide⟩ = some b₂ ∧ Message.parse b₂ .unicast = some m₂ ∧
      m₂.additional = (appended [] 29 (addressesOf m target)).map Record.asRead ∧
      b₂.length = 46 := by
  have hsome : (Message.parse sampleReply .unicast).isSome = true := by decide +kernel
  obtain ⟨m, hm⟩ := Option.isSome_iff_exists.1 hsome
  have hcode :
      (Message.parse sampleReply .unicast).all (fun m => rcode m == 0 && m.additional.isEmpty &&
      m.authority.isEmpty) = true := by decide +kernel
  have haug : ((Message.parse sampleReply .unicast).bind fun m =>
      (augment sampleReply m ⟨[[97]], by decide⟩).map List.length) = some 46 := by decide +kernel
  rw [hm] at hcode haug
  simp only [Option.all_some, Bool.and_eq_true, beq_iff_eq, List.isEmpty_iff] at hcode
  obtain ⟨b₂, hb₂, hlen⟩ := Option.map_eq_some_iff.1 haug
  obtain ⟨-, hdecay, haugment⟩ := reply_local hm
  obtain ⟨b₁, hb₁, hp₁⟩ := hdecay 10
  obtain ⟨target, m₂, -, -, hp₂, -, -, -, -, -, hadd, -⟩ :=
    haugment m ⟨[[97]], by decide⟩ b₂ hcode.1.1 hb₂
  refine ⟨m, _, m₂, b₁, b₂, target, hm, hb₁, hp₁, ?_, hb₂, hp₂, ?_, hlen⟩
  · simp only [Message.setTtls, Message.records, hcode.1.2, hcode.2, List.append_nil]
    rw [List.zipWith_map_right, List.zipWith_self]
  · rw [hadd, hcode.1.2, List.nil_append]
    rfl

end SnacMachine.Dns
