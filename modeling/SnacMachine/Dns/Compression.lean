import SnacMachine.Dns.RoundTrip

/-!
# Compression for multicast

The compressing encoder against the plain one. What the plain encoder writes, the compressing one
writes in no more octets (`writeAll_fits`), and its own parser reads it back as the same message
unless a name lies behind more than 64 pointers. Names that extend each other by one label make such
a chain: each is written as its first label and a pointer to the one before. `compression_agrees` is
the exact condition for messages whose records hold data of their types or the octets of such data
(`Readable`), `nested_refused` a message that the compressing encoder refuses.
-/

namespace SnacMachine.Dns

/-! ## The compressing writer -/

/-- What a writer returns when the plain form of its item fits in the message. -/
def WritesWithin {α : Type} (write : α → Dictionary → Nat → Option (Bytes × Dictionary)) (x : α)
    (size : Nat) : Prop :=
  ∀ d len, len + size ≤ maxWire → ∃ out d', write x d len = some (out, d') ∧ out.length ≤ size

/-- Labels are written in at most the octets of the whole name, for the dictionary only saves some;
the induction is on the labels. -/
theorem Dictionary.writeLabels_fits : ∀ (ls : List Bytes) (d : Dictionary) (len : Nat),
    len + (Name.labelsWire ls).length ≤ maxWire →
    ∃ out d', d.writeLabels ls len = some (out, d') ∧ out.length ≤ (Name.labelsWire ls).length
  | [], d, len, h => by
    rw [Name.labelsWire_nil, List.length_singleton] at h
    refine ⟨[0], d, ?_, Nat.le_refl _⟩
    unfold Dictionary.writeLabels
    rw [if_neg (by omega)]
  | l :: ls, d, len, h => by
    rw [Name.labelsWire_cons, List.length_append, List.length_cons] at h
    unfold Dictionary.writeLabels
    simp only
    cases hget : d.entries.get (Name.labelsWire (l :: ls)) with
    | some offset =>
      have hpos : 0 < (Name.labelsWire ls).length := by simp [Name.labelsWire]
      refine ⟨toBe 2 (49152 + offset), d, if_neg (by omega), ?_⟩
      rw [length_toBe, Name.labelsWire_cons, List.length_append, List.length_cons]
      omega
    | none =>
      obtain ⟨out, d', hw, hlen⟩ := writeLabels_fits ls (d.note (Name.labelsWire (l :: ls)) len)
        (len + (l.length + 1)) (by omega)
      refine ⟨UInt8.ofNat l.length :: l ++ out, d', ?_, ?_⟩
      · rw [if_neg (by omega), hw]
        rfl
      · rw [Name.labelsWire_cons, List.length_append, List.length_append, List.length_cons]
        exact Nat.add_le_add_left hlen _

/-- A name is written in at most the octets that it takes without compression. -/
theorem writeName_fits (compress : Bool) (n : Name) :
    WritesWithin (writeName compress) n n.wire.length := by
  intro d len h
  unfold writeName
  cases compress with
  | true => exact Dictionary.writeLabels_fits n.labels d len h
  | false => exact ⟨n.wire, d, rfl, Nat.le_refl _⟩

/-- Data that is written without compression. -/
def Rdata.Written (data : Rdata) : Prop :=
  ∀ d len, writeRdata false d len data = some (dataWire data, d)

/-- Data that is written without compression is written with compression in no more octets. One case
for each form of data; those with names follow `writeName_fits` for each name, with the dictionary
that the name before it has left. -/
theorem writeRdata_within {data : Rdata} (compress : Bool) (hwritten : data.Written) :
    WritesWithin (fun data d len => writeRdata compress d len data) data
    (dataWire data).length := by
  intro d len h
  have hplain := hwritten d len
  clear hwritten
  cases data
  case name n => exact writeName_fits compress n d len h
  case srv priority weight port target =>
    simp only [dataWire, List.length_append, length_toBe] at h
    obtain ⟨out, d', hw, hlen⟩ := writeName_fits compress target d (len + 6) (by omega)
    refine ⟨toBe 2 priority.toNat ++ toBe 2 weight.toNat ++ toBe 2 port.toNat ++ out, d', ?_, ?_⟩
    · simp [writeRdata, hw]
    · simpa [dataWire] using hlen
  case preference preference n =>
    simp only [dataWire, List.length_append, length_toBe] at h
    obtain ⟨out, d', hw, hlen⟩ := writeName_fits compress n d (len + 2) (by omega)
    refine ⟨toBe 2 preference.toNat ++ out, d', ?_, ?_⟩
    · simp [writeRdata, hw]
    · simpa [dataWire] using hlen
  case twoNames first second =>
    simp only [dataWire, List.length_append] at h
    obtain ⟨out₁, d₁, hw₁, hlen₁⟩ := writeName_fits compress first d len (by omega)
    obtain ⟨out₂, d₂, hw₂, hlen₂⟩ :=
      writeName_fits compress second d₁ (len + out₁.length) (by omega)
    refine ⟨out₁ ++ out₂, d₂, ?_, ?_⟩
    · simp [writeRdata, hw₁, hw₂]
    · simp only [dataWire, List.length_append]
      omega
  case px preference map822 mapx400 =>
    simp only [dataWire, List.length_append, length_toBe] at h
    obtain ⟨out₁, d₁, hw₁, hlen₁⟩ := writeName_fits compress map822 d (len + 2) (by omega)
    obtain ⟨out₂, d₂, hw₂, hlen₂⟩ := writeName_fits compress mapx400 d₁ (len + 2 + out₁.length)
      (by omega)
    refine ⟨toBe 2 preference.toNat ++ out₁ ++ out₂, d₂, ?_, ?_⟩
    · simp [writeRdata, hw₁, hw₂]
    · simp only [dataWire, List.length_append, length_toBe]
      omega
  case soa mname rname serial refresh retry expire minimum =>
    simp only [dataWire, List.length_append, length_toBe] at h
    obtain ⟨out₁, d₁, hw₁, hlen₁⟩ := writeName_fits compress mname d len (by omega)
    obtain ⟨out₂, d₂, hw₂, hlen₂⟩ := writeName_fits compress rname d₁ (len + out₁.length) (by omega)
    refine ⟨out₁ ++ out₂ ++ toBe 4 serial.toNat ++ toBe 4 refresh.toNat ++ toBe 4 retry.toNat ++
      toBe 4 expire.toNat ++ toBe 4 minimum.toNat, d₂, ?_, ?_⟩
    · simp [writeRdata, hw₁, hw₂]
    · simp only [dataWire, List.length_append, length_toBe]
      omega
  case nsec next bitmap =>
    simp only [dataWire, List.length_append] at h
    obtain ⟨out, d', hw, hlen⟩ := writeName_fits compress next d len (by omega)
    refine ⟨out ++ bitmap, d', ?_, ?_⟩
    · simp [writeRdata, hw]
    · simpa [dataWire] using hlen
  -- Data without a compressible name is written in its plain form.
  all_goals exact ⟨_, d, hplain, Nat.le_refl _⟩

/-- A question is written in at most the octets that it takes without compression. -/
theorem writeQuestion_within (c : Context) (q : Question) :
    WritesWithin (writeQuestion c) q (questionWire q).length := by
  intro d len h
  simp only [questionWire, List.length_append, length_toBe] at h ⊢
  obtain ⟨out, d', hw, hlen⟩ := writeName_fits (c == .mdns) q.name d len (by omega)
  refine ⟨out ++ toBe 2 q.kind.toNat ++ toBe 2 q.cls.toNat, d', ?_, ?_⟩
  · simp [writeQuestion, hw]
  · simp only [List.length_append, length_toBe]
    omega

/-- A record is written in at most the octets that it takes without compression. The owner's name
and the data may get shorter, the fields between them are as long as before. -/
theorem writeRecord_within {r : Record} (c : Context) (hr : r.data.Written) :
    WritesWithin (writeRecord c) r (recordWire r).length := by
  intro d len h
  simp only [recordWire, List.length_append, length_toBe] at h ⊢
  obtain ⟨out, d₁, hw, hlen⟩ := writeName_fits (c == .mdns) r.name d len (by omega)
  obtain ⟨data, d₂, hdata, hdlen⟩ :=
    writeRdata_within (c == .mdns && compressedKinds.contains r.kind) hr d₁
      (len + (out.length + 2 + 2 + 4) + 2) (by omega)
  refine ⟨out ++ toBe 2 r.kind.toNat ++ toBe 2 r.cls.toNat ++ toBe 4 r.ttl.toNat ++
    toBe 2 data.length ++ data, d₂, ?_, ?_⟩
  · simp only [writeRecord, hw, Option.bind_eq_bind, Option.bind_some,
      List.length_append, length_toBe, hdata]
    rw [if_neg (by omega)]
  · simp only [List.length_append, length_toBe]
    omega

/-- A list whose plain form fits is written in no more octets than that. By recursion on the items;
the room that an item leaves unused is left to the next ones. -/
theorem writeAll_within {α : Type} {write : α → Dictionary → Nat → Option (Bytes × Dictionary)}
    (wire : α → Bytes) : ∀ {xs : List α}, (∀ x ∈ xs, WritesWithin write x (wire x).length) →
    WritesWithin (writeAll write) xs (xs.flatMap wire).length
  | [], _, d, len, _ => ⟨[], d, rfl, Nat.le_refl _⟩
  | x :: xs, hx, d, len, h => by
    simp only [List.flatMap_cons, List.length_append] at h ⊢
    obtain ⟨out₁, d₁, hw₁, hlen₁⟩ := hx x List.mem_cons_self d len (by omega)
    obtain ⟨out₂, d₂, hw₂, hlen₂⟩ :=
      writeAll_within wire (fun y hy => hx y (List.mem_cons_of_mem _ hy)) d₁
      (len + out₁.length) (by omega)
    refine ⟨out₁ ++ out₂, d₂, ?_, ?_⟩
    · simp [writeAll, hw₁, hw₂]
    · rw [List.length_append]
      omega

/-- Every item takes five octets at least. By recursion on the items, with the bound for one of them
as hypothesis. -/
theorem writeAll_length_ge {α : Type} {write : α → Dictionary → Nat → Option (Bytes × Dictionary)}
    (hwrite : ∀ x d len out d', write x d len = some (out, d') → 5 ≤ out.length) :
    ∀ {xs : List α} {d d' : Dictionary} {len : Nat} {out : Bytes},
    writeAll write xs d len = some (out, d') → xs.length * 5 ≤ out.length
  | [], d, d', len, out, h => by
    rw [List.length_nil, Nat.zero_mul]
    exact Nat.zero_le _
  | x :: xs, d, d', len, out, h => by
    simp only [writeAll, Option.bind_eq_bind, Option.bind_eq_some_iff, Option.some.injEq,
      Prod.mk.injEq, Prod.exists] at h
    obtain ⟨out₁, d₁, hw₁, out₂, d₂, hw₂, rfl, rfl⟩ := h
    have h₁ := hwrite x d len out₁ d₁ hw₁
    have h₂ := writeAll_length_ge hwrite hw₂
    rw [List.length_append, List.length_cons]
    omega

/-- No question takes fewer than five octets, so that a message of bounded size has boundedly
many. -/
theorem writeQuestion_length_ge {c : Context} (q : Question) (d : Dictionary)
    (len : Nat) (out : Bytes) (d' : Dictionary) (h : writeQuestion c q d len = some (out, d')) :
    5 ≤ out.length := by
  simp only [writeQuestion, Option.bind_eq_bind, Option.bind_eq_some_iff, Option.some.injEq,
    Prod.mk.injEq, Prod.exists] at h
  obtain ⟨n, _, hn, rfl, -⟩ := h
  have := List.length_pos_of_ne_nil (writeName_ne_nil hn)
  simp only [List.length_append, length_toBe]
  omega

/-- No record takes fewer than five octets. -/
theorem writeRecord_length_ge {c : Context} (r : Record) (d : Dictionary) (len : Nat) (out : Bytes)
    (d' : Dictionary) (h : writeRecord c r d len = some (out, d')) : 5 ≤ out.length := by
  simp only [writeRecord, Option.bind_eq_bind, Option.bind_eq_some_iff, Option.bind_none,
    Option.ite_none_left_eq_some, Option.some.injEq, Prod.mk.injEq, Prod.exists] at h
  obtain ⟨n, _, hn, data, _, -, -, rfl, -⟩ := h
  simp only [List.length_append, length_toBe]
  omega

/-! ## The two encoders -/

/-- What the plain encoder accepts is written without compression wherever it stands. By recursion
on the records, the writer of each of which has succeeded. -/
theorem records_written : ∀ {rs : List Record} {d d' : Dictionary} {len : Nat} {out : Bytes},
    writeAll (writeRecord .unicast) rs d len = some (out, d') → ∀ r ∈ rs, r.data.Written
  | [], _, _, _, _, _, r, hr => nomatch hr
  | r :: rs, d, d', len, out, h, x, hx => by
    simp only [writeAll, Option.bind_eq_bind, Option.bind_eq_some_iff, Option.some.injEq,
      Prod.mk.injEq, Prod.exists] at h
    obtain ⟨out₁, d₁, hw₁, out₂, d₂, hw₂, rfl, rfl⟩ := h
    rcases List.mem_cons.1 hx with rfl | hx
    · simp only [writeRecord, Option.bind_eq_bind, Option.bind_eq_some_iff, Prod.exists] at hw₁
      obtain ⟨_, _, -, data, _, hdata, -⟩ := hw₁
      exact writeRdata_anywhere hdata
    · exact records_written hw₂ x hx

/-- Without compression, what is written is the plain form. By recursion on the records, each of
which is written without looking at the dictionary. -/
theorem writeRecords_eq_plain : ∀ {rs : List Record} {d d' : Dictionary} {len : Nat}
    {out : Bytes}, writeAll (writeRecord .unicast) rs d len = some (out, d') →
    out = rs.flatMap recordWire
  | [], d, d', len, out, h => by
    simp only [writeAll, Option.some.injEq, Prod.mk.injEq] at h
    exact h.1.symm
  | r :: rs, d, d', len, out, h => by
    have hwritten := records_written h r List.mem_cons_self
    simp only [writeAll, Option.bind_eq_bind, Option.bind_eq_some_iff, Option.some.injEq,
      Prod.mk.injEq, Prod.exists] at h
    obtain ⟨out₁, d₁, hw₁, out₂, d₂, hw₂, rfl, rfl⟩ := h
    have hz : ((Context.unicast == .mdns) && compressedKinds.contains r.kind) = false := rfl
    simp only [writeRecord, hz, hwritten _ _, Option.bind_eq_bind, Option.bind_eq_some_iff,
      Option.bind_none, Option.ite_none_left_eq_some, Option.some.injEq, Prod.mk.injEq,
      Prod.exists] at hw₁
    obtain ⟨n, d₀, hn, data, _, ⟨rfl, rfl⟩, -, rfl, rfl⟩ := hw₁
    obtain ⟨rfl, rfl⟩ : r.name.wire = n ∧ d = d₀ := by
      simpa [writeName] using hn
    rw [writeRecords_eq_plain hw₂]
    rfl

/-- Octets are read as the data of the record's type that they are. -/
theorem Reads.octets {update : Bool} {r : Record} {data : Rdata}
    (hdata : r.data = .bytes (dataWire data)) (hfits : Fits r.kind data) (hopt : data ≠ .opt [])
    (hunread : data ≠ .opaque_ []) :
    Reads update r data := by
  refine .verbatim (.inr ⟨hfits, fun h => absurd h hopt⟩) (fun h => absurd h hunread) ?_ ?_
  · rw [hdata]
    rfl
  · rw [hdata]
    simp [Rdata.pieces]

/-- Each record of a message holds data of its type, or data that is written without compression, as
the octets of data of its type. -/
def Message.Readable (m : Message) : Prop :=
  ∀ r ∈ m.records, ∃ data, Reads (isUpdate m.flags) r data

/-- A well-formed message can be read back. -/
theorem Message.WellFormed.readable {m : Message} (h : m.WellFormed) : m.Readable :=
  fun r hr => ⟨r.data, .typed (h.fits r hr)⟩

/-- What each record is read as makes what the list of them is read as. -/
theorem exists_readAs {update : Bool} : ∀ {rs : List Record},
    (∀ r ∈ rs, ∃ data, Reads update r data) → ∃ rs', List.Forall₂ (Record.ReadAs update) rs rs'
  | [], _ => ⟨[], .nil⟩
  | r :: rs, h => by
    obtain ⟨data, hdata⟩ := h r List.mem_cons_self
    obtain ⟨rs', hrs⟩ := exists_readAs fun x hx => h x (List.mem_cons_of_mem _ hx)
    exact ⟨_, .cons ⟨data, hdata, rfl⟩ hrs⟩

/-- A message whose records can be read back is read as some message. -/
theorem Message.Readable.readAs {m : Message} (h : m.Readable) : ∃ m', m.ReadAs m' := by
  simp only [Message.Readable, Message.records, List.mem_append] at h
  obtain ⟨answers, h₁⟩ := exists_readAs fun r hr => h r (.inl (.inl hr))
  obtain ⟨authority, h₂⟩ := exists_readAs fun r hr => h r (.inl (.inr hr))
  obtain ⟨additional, h₃⟩ := exists_readAs fun r hr => h r (.inr hr)
  exact ⟨{ m with answers, authority, additional }, rfl, rfl, rfl, h₁, h₂, h₃⟩

/-- What is read keeps its names and types, so that OPT records stand where they stood. -/
theorem optsAllowed_readAs {update : Bool} {rs rs' : List Record}
    (h : List.Forall₂ (Record.ReadAs update) rs rs') : ∀ section_ seen,
    seenAfter seen rs' = seenAfter seen rs ∧
      (OptsAllowed section_ seen rs' → OptsAllowed section_ seen rs) := by
  induction h with
  | nil => exact fun _ _ => ⟨rfl, id⟩
  | @cons r _ _ _ hr _ ih =>
    intro section_ seen
    obtain ⟨data, -, rfl⟩ := hr
    obtain ⟨hseen, hopts⟩ := ih section_ (seen || r.kind == 41)
    exact ⟨hseen, fun h => ⟨h.1, hopts h.2⟩⟩

/-- OPT records stand where they may in a message that is read back. The conditions on the sections
carry over one by one, since reading keeps the types of the records. -/
theorem Message.ReadAs.optsPlaced {m m' m₁ : Message} (h : m.ReadAs m') (hsame : m₁.Same m')
    (hwf : m₁.WellFormed) : m.OptsPlaced := by
  have h₁ := hwf.answers
  have h₂ := hwf.authority
  have h₃ := hwf.additional
  rw [hsame.answers] at h₁ h₂ h₃
  rw [hsame.authority] at h₂ h₃
  rw [hsame.additional] at h₃
  rw [(optsAllowed_readAs h.answers 0 _).1] at h₂ h₃
  rw [(optsAllowed_readAs h.authority 1 _).1] at h₃
  exact ⟨(optsAllowed_readAs h.answers _ _).2 h₁, (optsAllowed_readAs h.authority _ _).2 h₂,
    (optsAllowed_readAs h.additional _ _).2 h₃⟩

/-- The compressing encoder agrees with what the plain one wrote: it writes the message in no more
octets, and both are read back as the same message. -/
def Message.Agrees (m : Message) (u : Bytes) : Prop :=
  ∃ v m₁ m₂, m.encodeContext .mdns = some v ∧ v.length ≤ u.length ∧
    Message.parse v .mdns = some m₁ ∧ Message.parse u .unicast = some m₂ ∧ m₁.Same m₂

/-- Two messages that one is read as are the same up to what compression may change. -/
theorem Message.Same.symm_trans {m₁ m₂ m : Message} (h₁ : m₁.Same m) (h₂ : m₂.Same m) :
    m₁.Same m₂ :=
  ⟨h₁.id.trans h₂.id.symm, h₁.flags.trans h₂.flags.symm, h₁.questions.trans h₂.questions.symm,
    h₁.answers.trans h₂.answers.symm, h₁.authority.trans h₂.authority.symm,
    h₁.additional.trans h₂.additional.symm⟩

/-- A message that is encoded has at most so many records as are read. -/
theorem encodeContext_count {m : Message} {c : Context} {b : Bytes}
    (h : m.encodeContext c = some b) :
    m.questions.length + m.answers.length + m.authority.length + m.additional.length ≤
      maxRecords := by
  simp only [Message.encodeContext, Option.bind_eq_bind, Option.bind_none,
    Option.ite_none_left_eq_some] at h
  exact Nat.not_lt.1 h.1

/-- A message that the plain encoder accepts, and whose records hold data of their types or its
octets, is encoded alike with compression exactly when no name comes to lie behind more than 64
pointers. -/
theorem compression_agrees {m : Message} {u : Bytes} (hreadable : m.Readable)
    (hu : m.encodeContext .unicast = some u) : m.Agrees u ↔ m.shallow .mdns = true := by
  have hcount := encodeContext_count hu
  obtain ⟨m', hread⟩ := hreadable.readAs
  obtain ⟨qs, rs, d, d', m₂, rfl, hq, hr, hp₂⟩ := encodeContext_eq_some hu
  have hsame₂ := ((message_yields (fun h : False => h.elim) hcount hread hq hr).post hp₂).1
  have hopts := hread.optsPlaced hsame₂ (parse_wellFormed hp₂)
  have hwritten := records_written hr
  have hbound : (m.header ++ qs ++ rs).length ≤ maxWire := by
    simp only [Message.parse, Option.bind_eq_bind, Option.bind_eq_some_iff, Option.bind_none,
      Option.ite_none_left_eq_some] at hp₂
    have := hp₂.1
    omega
  -- What the plain encoder wrote is the plain form.
  obtain rfl := writeRecords_eq_plain hr
  have hqplain := writeQuestions_plain .empty m.questions m.header.length
  rw [hqplain] at hq
  simp only [Option.some.injEq, Prod.mk.injEq] at hq
  obtain ⟨rfl, rfl⟩ := hq
  constructor
  · rintro ⟨v, m₁, _, hv, -, hp₁, -, -⟩
    obtain ⟨qs', rs', _, _, _, rfl, hq', hr', -⟩ := encodeContext_eq_some hv
    exact ((message_yields (fun h : False => h.elim) hcount hread hq' hr').post hp₁).2
  · intro hshallow
    have hplain := plainLength_message .mdns m
    simp only [Message.plain, List.length_append, length_header] at hplain hbound
    obtain ⟨qs', d₁, hq', hqlen⟩ := writeAll_within questionWire
      (fun q _ => writeQuestion_within .mdns q) .empty m.header.length
      (show _ + (m.questions.flatMap questionWire).length ≤ _ by rw [length_header]; omega)
    obtain ⟨rs', d₂, hr', hrlen⟩ := writeAll_within recordWire
      (fun r hr => writeRecord_within .mdns (hwritten r hr)) d₁
      (m.header.length + qs'.length) (by rw [length_header]; omega)
    have hqge := writeAll_length_ge writeQuestion_length_ge hq'
    have hrge := writeAll_length_ge writeRecord_length_ge hr'
    simp only [Message.records, List.length_append] at hrge
    obtain ⟨m₁, hp₁, hsame₁, -⟩ := (message_yields (fun _ : True => ⟨⟨hshallow, by
      unfold maxWire at hbound
      unfold maxWork
      omega⟩, by
        simp only [List.length_append, length_header]
        omega, by omega, hopts⟩) hcount hread hq' hr').exists_of_must trivial
    refine ⟨m.header ++ qs' ++ rs', m₁, m₂, ?_, ?_, hp₁, hp₂, hsame₁.symm_trans hsame₂⟩
    · simp only [Message.encodeContext, hq', hr', hp₁, Option.bind_eq_bind, Option.bind_some]
      rw [if_neg (by omega)]
    · simp only [List.length_append]
      omega

/-! ## Nested names -/

/-- Questions for `a.`, `a.a.`, `a.a.a.` and so on. -/
def nestedQuestions (count : Nat) : List Question :=
  (List.range count).filterMap fun k =>
    (Name.fromLabels (List.replicate (k + 1) [97])).map fun n => ⟨n, 1, 1⟩

/-- A query with the first 66 nested names. -/
def nestedMessage : Message := { Message.new 0 0 with questions := nestedQuestions 66 }

/-- The nested message is well formed, so that the failure is one of the encoder and not of the
input. -/
theorem nestedMessage_wellFormed : nestedMessage.WellFormed :=
  ⟨by decide +kernel, (fun _ hr => nomatch hr), trivial, trivial, trivial⟩

/-- The compressing encoder refuses a message that the plain one encodes: each of the 66 names is
written with a pointer to the one before, so the last is behind more pointers than a reader
follows. -/
theorem nested_refused :
    ∃ u, nestedMessage.encodeContext .unicast = some u ∧ ¬ nestedMessage.Agrees u := by
  have hu := encode_plain nestedMessage_wellFormed (fun _ hr => nomatch hr) (by decide +kernel)
  refine ⟨_, hu, fun h => ?_⟩
  have := (compression_agrees nestedMessage_wellFormed.readable hu).1 h
  revert this
  decide +kernel

/-- The first three nested names, with a text and a record of an unknown type for the last of them;
the data of both is given as octets. -/
def rawMessage : Message :=
  { Message.new 0 0x8400 with
    questions := nestedQuestions 3
    answers := [⟨⟨[[97], [97], [97]], by decide⟩, 16, 1, 120, .bytes [2, 97, 98]⟩,
      ⟨⟨[[97], [97], [97]], by decide⟩, 99, 1, 120, .bytes [192, 12]⟩] }

/-- The message with a record given as octets can be read back. -/
theorem rawMessage_readable : rawMessage.Readable := by
  intro r hr
  simp only [Message.records, rawMessage, Message.new, List.append_nil, List.mem_cons,
    List.not_mem_nil, or_false] at hr
  rcases hr with rfl | rfl
  · have htext : Fits 16 (.txt [[97, 98]]) := ⟨by decide, by decide⟩
    exact ⟨_, .octets rfl htext (by simp) (by simp)⟩
  · have hunknown : Fits 99 (.opaque_ [192, 12]) := trivial
    exact ⟨_, .octets rfl hunknown (by simp) (by simp)⟩

/-- The theorem applied to three nested names and two records whose data is given as octets: both
encoders agree on that message. -/
theorem compression_agrees_three :
    ∃ u, rawMessage.encodeContext .unicast = some u ∧ rawMessage.Agrees u := by
  have hsome : (rawMessage.encodeContext .unicast).isSome = true := by decide +kernel
  obtain ⟨u, hu⟩ := Option.isSome_iff_exists.1 hsome
  exact ⟨u, hu, (compression_agrees rawMessage_readable hu).2 (by decide +kernel)⟩

end SnacMachine.Dns
