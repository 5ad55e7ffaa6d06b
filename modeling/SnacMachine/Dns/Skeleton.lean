import SnacMachine.Dns.RoundTrip

/-!
# The skeleton of a written message

Where the parser finds the records of a message that was encoded with compression, whatever their
data: the encoder's names end where the parser stops reading them, and so it reads as many records,
of the same types (`encode_kinds`). A message that can be encoded therefore has one OPT record at
most (`encode_single`), also if the data of its records is not of their types.
-/

namespace SnacMachine.Dns

/-! ## Names -/

/-- Every offset of a dictionary fits a pointer. -/
def Dictionary.Pointable (d : Dictionary) : Prop := ∀ e ∈ d.entries.entries, e.2 < 16384

/-- An empty dictionary points nowhere. -/
theorem Dictionary.Pointable.empty : Dictionary.Pointable .empty :=
  fun e he => absurd he (by simp [Dictionary.empty])

/-- Noting a suffix adds an entry only where a pointer can reach it. -/
theorem Dictionary.Pointable.note {d : Dictionary} (h : d.Pointable) (suffix : Bytes) (len : Nat) :
    (d.note suffix len).Pointable := by
  intro e he
  rcases Dictionary.mem_note he with he | ⟨hlt, rfl⟩
  · exact h e he
  · exact hlt

/-- Writing labels keeps all entries within reach of pointers. By recursion on the labels: an entry
is added only where its offset fits into a pointer. -/
theorem Dictionary.Pointable.writeLabels : ∀ {ls : List Bytes} {d d' : Dictionary} {len : Nat}
    {out : Bytes}, d.Pointable → d.writeLabels ls len = some (out, d') → d'.Pointable
  | [], d, d', len, out, hd, h => by
    unfold Dictionary.writeLabels at h
    split at h
    · cases h
    · cases h
      exact hd
  | l :: ls, d, d', len, out, hd, h => by
    unfold Dictionary.writeLabels at h
    simp only at h
    split at h
    · split at h
      · cases h
      · cases h
        exact hd
    · simp only [Option.bind_eq_bind, Option.bind_none, Option.ite_none_left_eq_some,
        Option.bind_eq_some_iff, Prod.exists, Option.some.injEq, Prod.mk.injEq] at h
      obtain ⟨-, rest, d₁, hrest, -, rfl⟩ := h
      exact Dictionary.Pointable.writeLabels (hd.note _ _) hrest

/-- Writing a name keeps all entries within reach of pointers. -/
theorem Dictionary.Pointable.writeName {compress : Bool} {n : Name} {d d' : Dictionary} {len : Nat}
    {out : Bytes} (hd : d.Pointable) (h : writeName compress n d len = some (out, d')) :
    d'.Pointable := by
  unfold Dns.writeName at h
  split at h
  · exact hd.writeLabels h
  · cases h
    exact hd

/-- Writing data keeps all entries within reach of pointers, whatever its form is: only names enter
the dictionary, each through `write_name`. -/
theorem Dictionary.Pointable.writeRdata {compress : Bool} {data : Rdata} {d d' : Dictionary}
    {len : Nat} {out : Bytes} (hd : d.Pointable)
    (h : writeRdata compress d len data = some (out, d')) : d'.Pointable := by
  cases data with
  | name n => exact hd.writeName h
  | srv | preference | nsec =>
    simp only [Dns.writeRdata, Option.bind_eq_bind, Option.bind_eq_some_iff, Prod.exists,
      Option.some.injEq, Prod.mk.injEq] at h
    obtain ⟨n, d₁, hn, -, rfl⟩ := h
    exact hd.writeName hn
  | twoNames | px | soa =>
    simp only [Dns.writeRdata, Option.bind_eq_bind, Option.bind_eq_some_iff, Prod.exists,
      Option.some.injEq, Prod.mk.injEq] at h
    obtain ⟨n₁, d₁, h₁, n₂, d₂, h₂, -, rfl⟩ := h
    exact (hd.writeName h₁).writeName h₂
  | txt | opt =>
    simp only [Dns.writeRdata, Option.map_eq_some_iff, Prod.mk.injEq] at h
    obtain ⟨_, -, -, rfl⟩ := h
    exact hd
  | svcb =>
    simp only [Dns.writeRdata, Option.bind_eq_bind, Option.bind_eq_some_iff, Option.some.injEq,
      Prod.mk.injEq] at h
    obtain ⟨_, -, -, rfl⟩ := h
    exact hd
  | opaque_ => cases h
  | empty | a | aaaa | key | sig | bytes =>
    cases h
    exact hd

/-- A name that is read where labels were written ends where they end. By recursion on the labels:
each is still in place, and a pointer in the end takes two octets, whatever it points to. -/
theorem nameLoop_end {b : Bytes} {known : List Nat} : ∀ {ls : List Bytes} {d d' : Dictionary}
    {len pos stop limit length hops budget : Nat} {out y : Bytes} {r : NameRun}, d.Pointable →
    (∀ l ∈ ls, l ≠ [] ∧ l.length ≤ 63) → d.writeLabels ls len = some (out, d') →
    Span b pos stop (out ++ y) → nameLoop b true known budget pos limit length hops = some r →
    r.pos = pos + out.length
  | ls, d, d', len, pos, stop, limit, length, hops, 0, out, y, r, _, _, _, _, hr => by
    simp [nameLoop] at hr
  | [], d, d', len, pos, stop, limit, length, hops, budget + 1, out, y, r, hd, _, hw, hs, hr => by
    unfold Dictionary.writeLabels at hw
    split at hw
    · cases hw
    · cases hw
      obtain ⟨c, hc, hcases⟩ := nameLoop_cases hr
      have hc0 : c = 0 := Option.some.inj (hc.symm.trans hs.getElem?)
      rcases hcases with ⟨-, -, -, hpos⟩ | ⟨hne, -⟩ | ⟨h192, -⟩
      · exact hpos
      · exact absurd hc0 hne
      · rw [hc0] at h192
        exact absurd h192 (by decide)
  | l :: ls, d, d', len, pos, stop, limit, length, hops, budget + 1, out, y, r,
      hd, hls, hw, hs, hr => by
    obtain ⟨hl, hls⟩ := List.forall_mem_cons.1 hls
    unfold Dictionary.writeLabels at hw
    simp only at hw
    obtain ⟨c, hc, hcases⟩ := nameLoop_cases hr
    split at hw
    · next offset hget =>
      split at hw
      · cases hw
      · cases hw
        obtain ⟨hi, low, hptr, h192, -⟩ := toBe_pointer (hd _ (OrdMap.mem_iff_get.2 hget))
        rw [hptr] at hs ⊢
        have hc' : c = hi := Option.some.inj (hc.symm.trans hs.getElem?)
        rcases hcases with ⟨h0, -⟩ | ⟨-, h63, -⟩ | ⟨-, -, -, -, -, -, -, -, hpos⟩
        · rw [← hc', h0] at h192
          exact absurd h192 (by decide)
        · rw [← hc'] at h192
          exact absurd (UInt8.le_trans h192 h63) (by decide)
        · exact hpos
    · next hget =>
      simp only [Option.bind_eq_bind, Option.bind_none, Option.ite_none_left_eq_some,
        Option.bind_eq_some_iff, Prod.exists, Option.some.injEq, Prod.mk.injEq] at hw
      obtain ⟨-, rest, d₁, hrest, rfl, rfl⟩ := hw
      obtain ⟨hn, h0, h63, hn192⟩ := label_octet hl
      rw [List.cons_append, List.cons_append] at hs
      have hc' : c = UInt8.ofNat l.length := Option.some.inj (hc.symm.trans hs.getElem?)
      rw [hc', hn] at hcases
      rcases hcases with ⟨hz, -⟩ | ⟨-, -, r', hr', -, -, hpos⟩ | ⟨h192, -⟩
      · exact absurd hz h0
      · have hs' := hs.right_byte
        rw [List.append_assoc] at hs'
        rw [hpos, nameLoop_end (hd.note _ _) hls hrest hs'.right hr']
        simp only [List.cons_append, List.length_cons, List.length_append]
        omega
      · exact absurd h192 hn192

/-- A name that is read where one was written ends where it ends. -/
theorem Parser.name_end {b : Bytes} {n name : Name} {d d' : Dictionary} {len pos stop pos' : Nat}
    {out y : Bytes} {p p' : Parser} (hd : d.Pointable)
    (hw : writeName true n d len = some (out, d')) (hs : Span b pos stop (out ++ y))
    (h : p.name b pos b.length true = some (name, pos', p')) : pos' = pos + out.length := by
  simp only [Parser.name, Option.bind_eq_bind, Option.bind_eq_some_iff, Option.some.injEq,
    Prod.mk.injEq] at h
  obtain ⟨r, hr, -, -, -, rfl, -⟩ := h
  exact nameLoop_end hd n.ok.1 hw hs hr

/-! ## Records -/

/-- Reading questions ends where writing them ended, even if they are not read back as they were. By
recursion on the questions; only the length of each is followed. -/
theorem parseQuestions_end {b : Bytes} : ∀ {qs qs' : List Question} {d d' : Dictionary}
    {pos pos' : Nat} {p p' : Parser} {out y : Bytes}, d.Pointable →
    writeAll (writeQuestion .mdns) qs d pos = some (out, d') → Span b pos b.length (out ++ y) →
    parseQuestions b qs.length p pos = some (qs', pos', p') →
    d'.Pointable ∧ pos' = pos + out.length
  | [], qs', d, d', pos, pos', p, p', out, y, hd, hw, _, h => by
    cases hw
    cases h
    exact ⟨hd, rfl⟩
  | q :: qs, qs', d, d', pos, pos', p, p', out, y, hd, hw, hs, h => by
    simp only [writeAll, writeQuestion, Option.bind_eq_bind, Option.bind_eq_some_iff,
      Option.some.injEq, Prod.mk.injEq, Prod.exists] at hw
    obtain ⟨out₁, d₁, ⟨n, d₀, hn, rfl, rfl⟩, out₂, d₂, hw₂, rfl, rfl⟩ := hw
    simp only [List.length_cons, parseQuestions, Option.bind_eq_bind, Option.bind_eq_some_iff,
      Option.some.injEq, Prod.mk.injEq, Prod.exists] at h
    obtain ⟨name, pos₁, p₁, hname, kind, pos₂, hkind, cls, pos₃, hcls, rs, pos₄, p₄, hrest, -, rfl,
      rfl⟩ := h
    simp only [List.append_assoc] at hs
    have hs₁ := hs.right
    have hs₂ := hs₁.right_be
    have hs₃ := hs₂.right_be
    rw [Parser.name_end hd hn hs hname, u16_span hs₁] at hkind
    cases hkind
    rw [u16_span hs₂] at hcls
    cases hcls
    have hlen :
        (n ++ toBe 2 q.kind.toNat ++ toBe 2 q.cls.toNat).length = n.length + 2 + 2 := by simp
    rw [hlen, ← Nat.add_assoc, ← Nat.add_assoc] at hw₂
    obtain ⟨hd', hend⟩ := parseQuestions_end (hd.writeName hn) hw₂ hs₃ hrest
    refine ⟨hd', ?_⟩
    rw [hend]
    simp only [List.length_append, length_toBe]
    omega

/-- Reading a record ends where writing it ended, with the same type. The length of the data stands
in front of it, so the end does not depend on how the data is read. -/
theorem parseRecord_end {b : Bytes} {r r' : Record} {d d' : Dictionary} {update seen seen' : Bool}
    {section_ pos pos' : Nat} {p p' : Parser} {span : RecordSpan} {out y : Bytes} (hd : d.Pointable)
    (hw : writeRecord .mdns r d pos = some (out, d')) (hs : Span b pos b.length (out ++ y))
    (h : parseRecord b .mdns update section_ seen p pos = some (r', span, seen', pos', p')) :
    d'.Pointable ∧ pos' = pos + out.length ∧ r'.kind = r.kind := by
  simp only [writeRecord, Option.bind_eq_bind, Option.bind_eq_some_iff, Option.bind_none,
    Option.ite_none_left_eq_some, Option.some.injEq, Prod.mk.injEq, Prod.exists] at hw
  obtain ⟨n, d₁, hn, data, d₂, hdata, hlen, rfl, rfl⟩ := hw
  simp only [parseRecord, Option.bind_eq_bind, Option.bind_eq_some_iff, Option.bind_none,
    Option.ite_none_left_eq_some, Option.some.injEq, Prod.mk.injEq, Prod.exists] at h
  obtain ⟨name, pos₁, p₁, hname, kind, pos₂, hkind, cls, pos₃, hcls, ttl, pos₄, httl, size, pos₅,
    hsize, -, -, rdata, pos₆, p₆, -, hstop, rfl, -, -, rfl, -⟩ := h
  simp only [List.append_assoc] at hs
  simp only [List.length_append, length_toBe] at hdata hlen ⊢
  have hs₁ := hs.right
  have hs₂ := hs₁.right_be
  have hs₃ := hs₂.right_be
  have hs₄ := hs₃.right_be
  have hn2 : (UInt16.ofNat data.length).toNat = data.length := by
    rw [UInt16.toNat_ofNat']
    unfold maxWire at hlen
    omega
  rw [Parser.name_end hd hn hs hname, u16_span hs₁] at hkind
  cases hkind
  rw [u16_span hs₂] at hcls
  cases hcls
  rw [u32_span hs₃] at httl
  cases httl
  rw [u16_span (v := UInt16.ofNat data.length) (by rw [hn2]; exact hs₄)] at hsize
  cases hsize
  refine ⟨(hd.writeName hn).writeRdata hdata, ?_, rfl⟩
  rw [not_not.1 hstop, hn2]
  omega

/-- Reading records ends where writing them ended, with the same types; the induction is on the
records. -/
theorem parseRecords_end {b : Bytes} {update : Bool} {section_ : Nat} : ∀ {rs rs' : List Record}
    {d d' : Dictionary} {seen seen' : Bool} {pos pos' : Nat} {p p' : Parser}
    {spans : List RecordSpan} {out y : Bytes}, d.Pointable →
    writeAll (writeRecord .mdns) rs d pos = some (out, d') → Span b pos b.length (out ++ y) →
    parseRecords b .mdns update section_ rs.length seen p pos = some (rs', spans, seen', pos', p') →
    d'.Pointable ∧ pos' = pos + out.length ∧ rs'.map Record.kind = rs.map Record.kind
  | [], rs', d, d', seen, seen', pos, pos', p, p', spans, out, y, hd, hw, _, h => by
    cases hw
    cases h
    exact ⟨hd, rfl, rfl⟩
  | r :: rs, rs', d, d', seen, seen', pos, pos', p, p', spans, out, y, hd, hw, hs, h => by
    simp only [writeAll, Option.bind_eq_bind, Option.bind_eq_some_iff, Option.some.injEq,
      Prod.mk.injEq, Prod.exists] at hw
    obtain ⟨out₁, d₁, hw₁, out₂, d₂, hw₂, rfl, rfl⟩ := hw
    simp only [List.length_cons, parseRecords, Option.bind_eq_bind, Option.bind_eq_some_iff,
      Option.some.injEq, Prod.mk.injEq, Prod.exists] at h
    obtain ⟨r₁, span, seen₁, pos₁, p₁, hr, rs₁, spans₁, seen₂, pos₂, p₂, hrs, rfl,
      -, rfl, rfl, rfl⟩ := h
    rw [List.append_assoc] at hs
    obtain ⟨hd₁, rfl, hkind⟩ := parseRecord_end hd hw₁ hs hr
    obtain ⟨hd₂, rfl, hkinds⟩ := parseRecords_end hd₁ hw₂ hs.right hrs
    refine ⟨hd₂, by rw [List.length_append, Nat.add_assoc], ?_⟩
    rw [List.map_cons, List.map_cons, hkind, hkinds]

/-- Of records that are read at most one is an option record. By induction on the records, with the
flag that one was seen before. -/
theorem optsAllowed_single {section_ : Nat} {seen : Bool} {rs : List Record}
    (h : OptsAllowed section_ seen rs) :
    (rs.filter fun r => r.kind == 41).length ≤ if seen = true then 0 else 1 := by
  induction rs generalizing seen with
  | nil => exact Nat.zero_le _
  | cons r rs ih =>
    obtain ⟨hr, hrs⟩ := h
    have := ih hrs
    cases hk : r.kind == 41 with
    | false =>
      rw [List.filter_cons_of_neg (by simp [hk])]
      simpa [hk] using this
    | true =>
      obtain ⟨-, rfl, -⟩ := hr (by simpa using hk)
      rw [List.filter_cons_of_pos (by simpa using hk)]
      simpa [hk] using this

/-- The parser reads records of the same types from a message that was encoded. The sections are
read where they were written (`parseQuestions_end`, `parseRecord_end`). -/
theorem encode_kinds {m : Message} {b : Bytes} (h : m.encodeContext .mdns = some b) :
    ∃ m' : Message, m'.WellFormed ∧
    m'.additional.map Record.kind = m.additional.map Record.kind := by
  have hcount : m.questions.length + m.answers.length + m.authority.length + m.additional.length ≤
      maxRecords := by
    unfold Message.encodeContext at h
    split at h
    · cases h
    · omega
  obtain ⟨qs, rs, d, d', m', rfl, hq, hr, hp⟩ := encodeContext_eq_some h
  have hhead := header_fields (b := m.header ++ qs ++ rs) (List.append_assoc _ _ _) hcount
  refine ⟨m', parse_wellFormed hp, ?_⟩
  generalize hb : m.header ++ qs ++ rs = b at hhead hp
  obtain ⟨-, -, hqd, han, hns, har⟩ := hhead
  obtain ⟨out₁, d₁, out₂, hr₁, hr₂, rfl⟩ := writeAll_append hr
  obtain ⟨outa, da, outb, hra, hrb, rfl⟩ := writeAll_append hr₁
  rw [length_header] at hq hra hrb hr₂
  have hs : Span b 12 b.length (qs ++ (outa ++ (outb ++ (out₂ ++ [])))) :=
    ⟨m.header, [], by simp [← hb], by simp, by rw [← hb]; simp⟩
  simp only [Message.parse, hqd, han, hns, har, Option.bind_eq_bind, Option.bind_eq_some_iff,
    Option.bind_none, Option.ite_none_left_eq_some, Option.some.injEq, Prod.exists] at hp
  obtain ⟨-, -, questions, _, _, hqs, answers, _, _, _, _, hans, authority, _, _, _, _, haut,
    additional, _, _, _, _, hadd, -, rfl⟩ := hp
  obtain ⟨hd, rfl⟩ := parseQuestions_end .empty hq hs hqs
  obtain ⟨hda, rfl, -⟩ := parseRecords_end hd hra hs.right hans
  obtain ⟨hdb, rfl, -⟩ := parseRecords_end hda hrb hs.right.right haut
  rw [List.length_append, ← Nat.add_assoc] at hr₂
  exact (parseRecords_end hdb hr₂ hs.right.right.right hadd).2.2

/-- A message with two OPT records cannot be encoded. -/
theorem encode_single {m : Message} {b : Bytes} (h : m.encodeContext .mdns = some b) :
    (m.additional.filter fun r => r.kind == 41).length ≤ 1 := by
  obtain ⟨m', hwf, hkinds⟩ := encode_kinds h
  have hcount (rs : List Record) : (rs.filter fun r => r.kind == 41).length =
      (rs.map Record.kind).count 41 := by
    rw [← List.countP_eq_length_filter, List.count, List.countP_map]
    rfl
  rw [hcount, ← hkinds, ← hcount]
  have := optsAllowed_single hwf.additional
  split at this <;> omega

end SnacMachine.Dns
