import SnacMachine.Dns.Resolver

/-!
# Delivering a reply

What `deliver` (`dns/resolver.rs:931`) sends to a client: the reply with the client's identifier and
the resolver's flags, or its question alone if it is longer than the client takes.
-/

namespace SnacMachine.Dns

/-- The flags of a delivered reply: no AD bit, and the RA bit if it answers a standard query. -/
def replyFlags (flags : UInt16) : UInt16 :=
  if flags &&& 0x7800 = 0 then (flags &&& 0xffdf) ||| 0x80 else flags &&& 0xffdf

/-! ## Two octets as a word -/

/-- Two octets read as one number, the first being the more significant. -/
theorem u16_pair (x y : UInt8) : UInt16.ofNat (ofBe [x, y]) = x.toUInt16 <<< 8 ||| y.toUInt16 := by
  apply UInt16.toNat_inj.1
  have hy := y.toNat_lt
  have hpair : ofBe [x, y] = x.toNat <<< 8 ||| y.toNat := by
    rw [← Nat.shiftLeft_add_eq_or_of_lt (by simpa using hy)]
    simp [ofBe, Nat.shiftLeft_eq]
  simp [hpair, Nat.shiftLeft_eq]

/-- Masks distribute over the bits that are set. -/
theorem u16_or_and (a b c : UInt16) : (a ||| b) &&& c = (a &&& c) ||| (b &&& c) := by
  apply UInt16.toBitVec_inj.1
  ext i
  simp [Bool.and_or_distrib_right]

/-- The mask that clears the AD bit leaves the first octet of the flags. -/
theorem high_and (x : UInt8) : x.toUInt16 <<< 8 &&& (0xffdf : UInt16) = x.toUInt16 <<< 8 := by
  revert x
  refine octets_forall ?_
  decide +kernel

/-- The mask that clears the AD bit is one on the second octet. -/
theorem low_and (y : UInt8) : y.toUInt16 &&& (0xffdf : UInt16) = (y &&& 0xdf).toUInt16 := by
  revert y
  refine octets_forall ?_
  decide +kernel

/-- The opcode has no bits in the second octet of the flags. -/
theorem low_opcode (y : UInt8) : y.toUInt16 &&& (0x7800 : UInt16) = 0 := by
  revert y
  refine octets_forall ?_
  decide +kernel

/-- The opcode is in the first octet of the flags. -/
theorem high_opcode (x : UInt8) :
    (x.toUInt16 <<< 8 &&& (0x7800 : UInt16) = 0) = (x &&& 0x78 = 0) := by
  revert x
  refine octets_forall ?_
  decide +kernel

/-- Shifting the opcode down loses the rest of the first octet. -/
theorem high_shift (x : UInt8) : x.toUInt16 <<< 8 >>> 11 = (x >>> 3).toUInt16 := by
  revert x
  refine octets_forall ?_
  decide +kernel

/-- Shifting the opcode down loses all of the second octet. -/
theorem low_shift (y : UInt8) : y.toUInt16 >>> 11 = 0 := by
  revert y
  refine octets_forall ?_
  decide +kernel

/-- Comparing the opcode in 16 bits is comparing it in 8. -/
theorem five_shift (x : UInt8) : ((x >>> 3).toUInt16 &&& 15 == 5) = ((x >>> 3) &&& 15 == 5) := by
  revert x
  refine octets_forall ?_
  decide +kernel

/-- The opcode of an update is in the high octet of the flags. -/
theorem isUpdate_pair (x y : UInt8) :
    isUpdate (UInt16.ofNat (ofBe [x, y])) = ((x >>> 3) &&& 15 == 5) := by
  rw [u16_pair, isUpdate, UInt16.shiftRight_or, high_shift, low_shift, UInt16.or_zero, five_shift]

/-- The flags after the low octet was changed as a reply's is. -/
theorem replyFlags_pair (x y : UInt8) :
    UInt16.ofNat (ofBe [x, if x &&& 0x78 == 0 then (y &&& 0xdf) ||| 0x80 else y &&& 0xdf]) =
      replyFlags (UInt16.ofNat (ofBe [x, y])) := by
  simp only [u16_pair, replyFlags, u16_or_and, high_and, low_and, low_opcode,
    UInt16.or_zero, high_opcode]
  by_cases hx : x &&& 0x78 = 0
  · simp only [hx, beq_self_eq_true, if_true, UInt8.toUInt16_or, UInt16.or_assoc]
    rfl
  · simp only [hx, beq_eq_false_iff_ne.2 hx, Bool.false_eq_true, if_false]

/-! ## Changes to the header -/

/-- A number at a position is the one that the two octets there make. -/
theorem u16At_eq_pair {b : Bytes} {k : Nat} (h : k + 2 ≤ b.length) :
    u16At b k = UInt16.ofNat (ofBe [b.getD k 0, b.getD (k + 1) 0]) := by
  have hget : ∀ i, (hi : i < b.length) → b.getD i 0 = b[i] := fun i hi => by
    rw [List.getD_eq_getElem?_getD, List.getElem?_eq_getElem hi]
    rfl
  rw [u16At, List.drop_eq_getElem_cons (by omega), List.drop_eq_getElem_cons (by omega),
    hget k (by omega), hget (k + 1) (by omega)]
  rfl

/-- No new lifetimes. -/
theorem zipWith_setTtl_none : ∀ {rs : List Record} {n : Nat}, rs.length ≤ n →
    List.zipWith Record.setTtl rs (List.replicate n none) = rs
  | [], _, _ => by simp
  | r :: rs, n + 1, h => by
    rw [List.replicate_succ, List.zipWith_cons_cons,
      zipWith_setTtl_none (Nat.le_of_succ_le_succ h)]
    rfl

/-- A message with none of its lifetimes replaced is the same message. -/
theorem Message.setTtls_none (m : Message) :
    m.setTtls (List.replicate m.records.length none) = m := by
  simp only [Message.setTtls, Message.records, List.length_append, List.drop_replicate]
  rw [zipWith_setTtl_none (by omega), zipWith_setTtl_none (by omega),
    zipWith_setTtl_none (by omega)]

/-- Octets that agree from the section counts on are read as the same message, up to the identifier
and the flags. -/
theorem header_parse {b b' : Bytes} {c : Context} {m : Message} (hp : Message.parse b c = some m)
    (hlen : b'.length = b.length) (hupdate : isUpdate (u16At b' 2) = isUpdate (u16At b 2))
    (hrest : ∀ i, 4 ≤ i → b'[i]? = b[i]?) :
    Message.parse b' c = some { m with id := u16At b' 0, flags := u16At b' 2, original := b' } := by
  obtain ⟨q₁, q₂, q₃, p₁, p₂, p₃, seen₁, seen₂, s₁, s₂, s₃, hsec⟩ := parse_eq_some.1 hp
  obtain ⟨hq₁, hspans, -, -, -, hret⟩ := hsec.layout
  have hagree : retimed b' m.records m.spans = retimed b m.records m.spans :=
    retimed_congr _ fun s hs => ttlAt_congr fun i hi _ => hrest i (by
      obtain ⟨h₁, h₂, -⟩ := hspans.mem hs
      have := h₂.ttl
      omega)
  have hnone : (List.replicate m.records.length (none : Option UInt32)).length = m.records.length :=
    List.length_replicate
  have hparse := parse_setTtls hp ⟨hlen, hupdate, fun i hi _ => (hrest i hi).symm⟩ hnone (by
      rw [hagree, hret, zipWith_setTtl_none (Nat.le_refl _)])
  rwa [m.setTtls_none] at hparse

/-- What can be parsed has a header. -/
theorem parse_length {b : Bytes} {c : Context} {m : Message} (hp : Message.parse b c = some m) :
    12 ≤ b.length :=
  (parse_authority_length hp).2

/-- Setting the identifier of a query leaves its length. -/
theorem length_queryBytes {b : Bytes} (i : UInt16) (h : 4 ≤ b.length) :
    (Resolver.queryBytes i b).length = b.length := by
  have hfit : 0 + (toBe 2 i.toNat).length ≤ b.length := by
    rw [length_toBe]
    omega
  unfold Resolver.queryBytes
  rw [length_overwrite (by rw [length_overwrite hfit, List.length_singleton]; omega),
    length_overwrite hfit]

/-- Without compression, records are written in their plain form, of whatever shape they are. By
recursion on the records; the dictionary is filled, but not looked at. -/
theorem writeRecords_unicast : ∀ {rs : List Record} {d d' : Dictionary} {len : Nat} {out : Bytes},
    writeAll (writeRecord .unicast) rs d len = some (out, d') → out = rs.flatMap recordWire
  | [], d, d', len, out, h => by
    simp only [writeAll, Option.some.injEq, Prod.mk.injEq] at h
    exact h.1.symm
  | r :: rs, d, d', len, out, h => by
    simp only [writeAll, writeRecord, Option.bind_eq_bind, Option.bind_eq_some_iff,
      Option.bind_none, Option.ite_none_left_eq_some, Option.some.injEq, Prod.mk.injEq,
        Prod.exists] at h
    obtain ⟨out₁, d₁, ⟨n, d₂, hn, data, d₃, hdata, -, rfl, rfl⟩, out₂, d₄, hrest, rfl, rfl⟩ := h
    obtain ⟨rfl, rfl⟩ : r.name.wire = n ∧ d = d₂ := by simpa [writeName] using hn
    obtain ⟨rfl, -⟩ := writeRdata_eq_plain hdata
    rw [writeRecords_unicast hrest]
    rfl

/-- What the encoder returns is the plain form, of at most 65535 octets. -/
theorem encode_eq_plain {m : Message} {b : Bytes} (h : m.encode = some b) :
    b = m.plain ∧ b.length ≤ maxWire := by
  obtain ⟨qs, rs, d, d', m', rfl, hq, hr, hp⟩ := encodeContext_eq_some h
  obtain ⟨_, _, _, _, _, _, _, _, _, _, _, hs⟩ := parse_eq_some.1 hp
  rw [writeQuestions_plain .empty m.questions m.header.length] at hq
  simp only [Option.some.injEq, Prod.mk.injEq] at hq
  obtain ⟨rfl, rfl⟩ := hq
  obtain rfl := writeRecords_unicast hr
  have := hs.length
  exact ⟨rfl, by omega⟩

/-- A reply as it is addressed to a client is read as the reply with the client's identifier and the
flags of a delivered reply. -/
theorem addressed_parse {b : Bytes} {m : Message} (id : UInt16)
    (hp : Message.parse b .unicast = some m) :
    Message.parse (addressed id b) .unicast =
      some { m with id := id, flags := replyFlags m.flags, original := addressed id b } := by
  have hlen := parse_length hp
  have hflags : m.flags = u16At b 2 := by
    obtain ⟨_, _, _, _, _, _, _, _, _, _, _, hsec⟩ := parse_eq_some.1 hp
    exact hsec.flags
  unfold addressed
  generalize hb₁ : overwrite b 0 (toBe 2 id.toNat) = b₁
  have hfit : 0 + (toBe 2 id.toNat).length ≤ b.length := by
    rw [length_toBe]
    omega
  have hlen₁ : b₁.length = b.length := by rw [← hb₁, length_overwrite hfit]
  have hafter₁ : ∀ i, 2 ≤ i → b₁[i]? = b[i]? := fun i hi => by
    rw [← hb₁, getElem?_overwrite hfit (.inr (by rw [length_toBe]; omega))]
  have hid₁ : u16At b₁ 0 = id := by
    have := drop_take_overwrite hfit
    rw [hb₁, length_toBe] at this
    rw [u16At, this, ofBe_toBe_u16]
  simp only
  generalize hx : (if b₁.getD 2 0 &&& 0x78 == 0 then b₁.getD 3 0 &&& 0xdf ||| 0x80
    else b₁.getD 3 0 &&& 0xdf) = x
  have hfit₂ : 3 + [x].length ≤ b₁.length := by
    rw [List.length_singleton]
    omega
  generalize hb₂ : overwrite b₁ 3 [x] = b₂
  have hlen₂ : b₂.length = b.length := by rw [← hb₂, length_overwrite hfit₂, hlen₁]
  have hother₂ : ∀ i, i ≠ 3 → b₂[i]? = b₁[i]? := fun i hi => by
    rw [← hb₂, getElem?_overwrite hfit₂ (by rw [List.length_singleton]; omega)]
  have hat₂ : b₂.getD 3 0 = x := by
    have := drop_take_overwrite hfit₂
    rw [hb₂, List.drop_eq_getElem_cons (by omega)] at this
    rw [List.getD_eq_getElem?_getD, List.getElem?_eq_getElem (by omega)]
    exact (List.cons.inj this).1
  have hhigh : b₂.getD 2 0 = b₁.getD 2 0 := by
    rw [List.getD_eq_getElem?_getD, List.getD_eq_getElem?_getD, hother₂ 2 (by decide)]
  have hsame : ∀ i, 2 ≤ i → b₁.getD i 0 = b.getD i 0 := fun i hi => by
    rw [List.getD_eq_getElem?_getD, List.getD_eq_getElem?_getD, hafter₁ i hi]
  have hid₂ : u16At b₂ 0 = id := by
    rw [← hid₁]
    exact u16At_agree fun i _ hi => hother₂ i (by omega)
  have hflags₂ : u16At b₂ 2 = replyFlags m.flags := by
    rw [hflags, u16At_eq_pair (by omega), u16At_eq_pair (by omega), hat₂, hhigh, ← hx,
      hsame 2 (by decide), hsame 3 (by decide), replyFlags_pair]
  have hparse := header_parse hp hlen₂ (by
    rw [u16At_eq_pair (by omega), u16At_eq_pair (by omega), isUpdate_pair, isUpdate_pair, hhigh,
      hsame 2 (by decide)]) fun i hi => by rw [hother₂ i (by omega), hafter₁ i (by omega)]
  rw [hparse, hid₂, hflags₂]

/-! ## The two forms of a reply -/

/-- The truncated form of a reply is well formed, since it has the question only. -/
theorem truncated_wellFormed {b : Bytes} {m : Message} (id : UInt16)
    (hp : Message.parse b .unicast = some m) : (truncated id m).WellFormed := by
  have hcount := (parse_wellFormed hp).count
  refine ⟨?_, fun r hr => absurd hr List.not_mem_nil, trivial, trivial, trivial⟩
  simp only [truncated, Message.new, List.length_nil]
  omega

/-- What a client is sent: the whole reply, or its question if the reply is too long for it. -/
inductive Delivered (w : Waiter) (b : Bytes) (m : Message) (b' : Bytes) : Prop
  | whole (hlen : b.length ≤ w.limit)
      (hparse : Message.parse b' .unicast =
        some { m with id := w.id, flags := replyFlags m.flags, original := b' })
  | cut {m' : Message} (hlen : w.limit < b.length) (hparse : Message.parse b' .unicast = some m')
      (hid : m'.id = w.id) (hquestions : m'.questions = m.questions) (hrecords : m'.records = [])
      (hflags : m'.flags = replyFlags ((m.flags ||| 0x280) &&& ~~~(0x20 : UInt16)))

/-- What is delivered to a waiter is a reply to its own client, made of the octets that it waited
for. -/
theorem deliver_eq_some {w : Waiter} {b : Bytes} {m : Message} {a : Action}
    (hp : Message.parse b .unicast = some m) (h : deliver w b = some a) :
    ∃ b', a = .reply w.client b' ∧ Delivered w b m b' := by
  unfold deliver at h
  split at h
  · next hlen =>
    simp only [Option.bind_eq_bind, Option.bind_eq_some_iff, Option.some.injEq] at h
    obtain ⟨m₁, hm₁, b₁, he, rfl⟩ := h
    obtain rfl := Option.some.inj (hp.symm.trans hm₁)
    obtain ⟨m', hm', hsame⟩ := encodeContext_parse (truncated_wellFormed w.id hp) he
    refine ⟨_, rfl, .cut hlen (addressed_parse w.id hm') rfl hsame.questions ?_ ?_⟩
    · simp only [Message.records, hsame.answers, hsame.authority, hsame.additional, truncated,
        Message.new, List.append_nil]
    · rw [hsame.flags]
      rfl
  · next hlen =>
    obtain rfl := Option.some.inj h
    exact ⟨_, rfl, .whole (Nat.le_of_not_lt hlen) (addressed_parse w.id hp)⟩

end SnacMachine.Dns
