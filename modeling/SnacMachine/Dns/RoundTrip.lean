import Mathlib.Data.List.Forall2
import SnacMachine.Dns.DataWire

/-!
# Round trips of DNS messages

What the parser accepts is well formed (`parse_wellFormed`): the data of every record fits its type
and OPT records stand where they may. A well-formed message that the encoder writes is read back
with the same sections (`encodeContext_parse`), in either context, and without compression the
encoder fails only for want of room (`round_trip`).
-/

namespace SnacMachine.Dns

/-! ## Well-formed messages -/

/-- Whether a record without data stands for a deletion. Reference: `dns/wire.rs:262`. -/
def deletes (update : Bool) (cls : UInt16) : Prop := update = true ∧ (cls = 254 ∨ cls = 255)

/-- A record with the data its type asks for, or, in an update, a deletion without data. -/
def RecordFits (update : Bool) (r : Record) : Prop :=
  (r.data = .empty ∧ deletes update r.cls) ∨
    (Fits r.kind r.data ∧ (r.data = .opt [] → ¬ deletes update r.cls))

/-- Where an OPT record may stand. Reference: `dns/wire.rs:254`. -/
def OptAllowed (section_ : Nat) (seen : Bool) (r : Record) : Prop :=
  r.kind = 41 → section_ = 2 ∧ seen = false ∧ r.name.labels = []

/-- Whether an OPT record was seen, after some records. -/
def seenAfter (seen : Bool) : List Record → Bool
  | [] => seen
  | r :: rs => seenAfter (seen || r.kind == 41) rs

/-- OPT records stand where they may, in a section that starts with `seen`. -/
def OptsAllowed (section_ : Nat) : Bool → List Record → Prop
  | _, [] => True
  | seen, r :: rs => OptAllowed section_ seen r ∧ OptsAllowed section_ (seen || r.kind == 41) rs

/-- What the parser checks of a whole message. -/
structure Message.WellFormed (m : Message) : Prop where
  count :
    m.questions.length + m.answers.length + m.authority.length + m.additional.length ≤ maxRecords
  fits : ∀ r ∈ m.records, RecordFits (isUpdate m.flags) r
  answers : OptsAllowed 0 false m.answers
  authority : OptsAllowed 1 (seenAfter false m.answers) m.authority
  additional : OptsAllowed 2 (seenAfter (seenAfter false m.answers) m.authority) m.additional

/-- As many questions are read as are asked for. -/
theorem parseQuestions_length {b : Bytes} : ∀ {count : Nat} {p p' : Parser} {pos pos' : Nat}
    {qs : List Question}, parseQuestions b count p pos = some (qs, pos', p') → qs.length = count
  | 0, p, p', pos, pos', qs, h => by
    simp only [parseQuestions, Option.some.injEq, Prod.mk.injEq] at h
    simp [← h.1]
  | count + 1, p, p', pos, pos', qs, h => by
    simp only [parseQuestions, Option.bind_eq_bind, Option.bind_eq_some_iff, Option.some.injEq,
      Prod.mk.injEq, Prod.exists] at h
    obtain ⟨_, _, _, -, _, _, -, _, _, -, qs', _, _, hq, rfl, -⟩ := h
    simp [parseQuestions_length hq]

/-- A record that is read can be written, and says whether an option record was seen. The data fits
the type (`rdata_fits`), or is empty where an update may leave it out. -/
theorem parseRecord_fits {b : Bytes} {c : Context} {update : Bool} {section_ : Nat}
    {seen seen' : Bool} {p p' : Parser} {pos pos' : Nat} {r : Record} {span : RecordSpan}
    (h : parseRecord b c update section_ seen p pos = some (r, span, seen', pos', p')) :
    RecordFits update r ∧ OptAllowed section_ seen r ∧ seen' = (seen || r.kind == 41) := by
  simp only [parseRecord, Option.bind_eq_bind, Option.bind_eq_some_iff, Option.bind_none,
    Option.ite_none_left_eq_some, Option.some.injEq, Prod.mk.injEq, Prod.exists] at h
  obtain ⟨name, _, _, -, kind, _, -, cls, _, -, ttl, _, -, len, pos₁, -, -, hopt, data, pos₂, p₂,
    hdata, hpos, rfl, -, rfl, -⟩ := h
  refine ⟨?_, ?_, rfl⟩
  · unfold Parser.data at hdata
    split at hdata
    · next hz =>
      simp only [Option.some.injEq, Prod.mk.injEq] at hdata
      exact .inl ⟨hdata.1.symm, hz.1, hz.2.2⟩
    · next hz =>
      obtain ⟨hfit, hnil⟩ := rdata_fits hdata
      refine .inr ⟨hfit, fun he hdel => hz ⟨hdel.1, ?_, hdel.2⟩⟩
      have := hnil he
      simp only [ne_eq, Decidable.not_not] at hpos
      omega
  · intro hk
    refine ⟨?_, ?_, ?_⟩ <;> by_contra hne
    · exact hopt ⟨hk, .inl hne⟩
    · exact hopt ⟨hk, .inr (.inl (by simpa using hne))⟩
    · exact hopt ⟨hk, .inr (.inr hne)⟩

/-- The records that are read can be written, and are as many as asked for; the induction is on
their number. -/
theorem parseRecords_fits {b : Bytes} {c : Context} {update : Bool} {section_ : Nat} :
    ∀ {count : Nat} {seen seen' : Bool} {p p' : Parser} {pos pos' : Nat} {rs : List Record}
      {spans : List RecordSpan},
    parseRecords b c update section_ count seen p pos = some (rs, spans, seen', pos', p') →
    rs.length = count ∧ (∀ r ∈ rs, RecordFits update r) ∧ OptsAllowed section_ seen rs ∧
      seen' = seenAfter seen rs
  | 0, seen, seen', p, p', pos, pos', rs, spans, h => by
    simp only [parseRecords, Option.some.injEq, Prod.mk.injEq] at h
    obtain ⟨rfl, -, rfl, -⟩ := h
    simp [OptsAllowed, seenAfter]
  | count + 1, seen, seen', p, p', pos, pos', rs, spans, h => by
    simp only [parseRecords, Option.bind_eq_bind, Option.bind_eq_some_iff, Option.some.injEq,
      Prod.mk.injEq, Prod.exists] at h
    obtain ⟨r, _, _, _, _, hr, rs', _, _, _, _, hrs, rfl, -, rfl, -⟩ := h
    obtain ⟨hfit, hopt, rfl⟩ := parseRecord_fits hr
    obtain ⟨hlen, hfits, hopts, hseen⟩ := parseRecords_fits hrs
    refine ⟨by simp [hlen], fun x hx => ?_, ⟨hopt, hopts⟩, hseen⟩
    rcases List.mem_cons.1 hx with rfl | hx
    · exact hfit
    · exact hfits x hx

/-- What the parser accepts is well formed. The parser has checked the number of records, the names
and the place of option records, and has built the data from the octets of its type. -/
theorem parse_wellFormed {b : Bytes} {c : Context} {m : Message} (h : Message.parse b c = some m) :
    m.WellFormed := by
  simp only [Message.parse, Option.bind_eq_bind, Option.bind_eq_some_iff, Option.bind_none,
    Option.ite_none_left_eq_some, Option.some.injEq, Prod.exists] at h
  obtain ⟨-, hcount, questions, _, _, hq, answers, _, _, _, _, han, authority, _, _, _, _, hns,
    additional, _, _, _, _, har, -, rfl⟩ := h
  have hqlen := parseQuestions_length hq
  obtain ⟨hanlen, hanfit, hanopt, rfl⟩ := parseRecords_fits han
  obtain ⟨hnslen, hnsfit, hnsopt, rfl⟩ := parseRecords_fits hns
  obtain ⟨harlen, harfit, haropt, -⟩ := parseRecords_fits har
  refine ⟨?_, fun r hr => ?_, hanopt, hnsopt, haropt⟩
  · show questions.length + answers.length + authority.length + additional.length ≤ maxRecords
    rw [hqlen, hanlen, hnslen, harlen]
    omega
  · simp only [Message.records, List.mem_append] at hr
    rcases hr with (hr | hr) | hr
    · exact hanfit r hr
    · exact hnsfit r hr
    · exact harfit r hr

/-- The authority section has as many records as the header says. -/
theorem parse_authority_length {b : Bytes} {c : Context} {m : Message}
    (h : Message.parse b c = some m) : m.authority.length = (u16At b 8).toNat ∧ 12 ≤ b.length := by
  simp only [Message.parse, Option.bind_eq_bind, Option.bind_eq_some_iff, Option.bind_none,
    Option.ite_none_left_eq_some, Option.some.injEq, Prod.exists] at h
  obtain ⟨hlen, -, _, _, _, -, _, _, _, _, _, -, _, _, _, _, _, hns, _, _, _, _, _, -, -, rfl⟩ := h
  exact ⟨(parseRecords_fits hns).1, by omega⟩

/-! ## Reading back what was written -/

/-- Every name takes at least one octet: the last one, a pointer, or the length of its first
label. -/
theorem writeName_ne_nil {compress : Bool} {n : Name} {d d' : Dictionary} {len : Nat} {out : Bytes}
    (h : writeName compress n d len = some (out, d')) : out ≠ [] := by
  unfold writeName at h
  split at h
  · cases hl : n.labels with
    | nil =>
      rw [hl] at h
      unfold Dictionary.writeLabels at h
      split at h
      · exact absurd h (by simp)
      · simp only [Option.some.injEq, Prod.mk.injEq] at h
        simp [← h.1]
    | cons l ls =>
      rw [hl] at h
      unfold Dictionary.writeLabels at h
      simp only at h
      split at h
      · split at h
        · exact absurd h (by simp)
        · simp only [Option.some.injEq, Prod.mk.injEq] at h
          simp [← h.1, toBe]
      · split at h
        · exact absurd h (by simp)
        · obtain ⟨x, -, h⟩ := Option.bind_eq_some_iff.1 h
          simp only [Option.some.injEq, Prod.mk.injEq] at h
          simp [← h.1]
  · simp only [Option.some.injEq, Prod.mk.injEq] at h
    rw [← h.1]
    exact List.ne_nil_of_length_pos n.length_wire_pos

/-- Only an empty list of options is written as no octets. One case for each form of data: an
address has four or sixteen octets, a name at least its last one, and strings at least one, since
there is one. -/
theorem writeRdata_eq_nil {kind : UInt16} {data : Rdata} {compress : Bool} {d d' : Dictionary}
    {len : Nat} (hfit : Fits kind data) (h : writeRdata compress d len data = some ([], d')) :
    data = .opt [] := by
  unfold Fits at hfit
  split at hfit
  all_goals try exact hfit.elim
  all_goals
    simp only [writeRdata, Option.bind_eq_bind, Option.bind_eq_some_iff, Option.some.injEq,
      Option.map_eq_some_iff, Prod.mk.injEq, Prod.exists, List.append_eq_nil_iff] at h
  case h_1 x _ => exact absurd (h.1 ▸ x.2) (by simp)
  case h_2 x _ => exact absurd (h.1 ▸ x.2) (by simp)
  case h_3 => exact absurd rfl (writeName_ne_nil h)
  case h_5 v _ =>
    obtain ⟨s, hs, rfl, -⟩ := h
    obtain he := Option.some.inj ((writeStrings_eq hfit.2).symm.trans hs)
    have := length_stringsWire_ge v
    rw [he] at this
    exact absurd (List.eq_nil_of_length_eq_zero (Nat.le_zero.1 this)) hfit.1
  case h_6 =>
    obtain ⟨n, _, hn, _, _, -, ⟨⟨⟨⟨⟨⟨rfl, -⟩, -⟩, -⟩, -⟩, -⟩, -⟩, -⟩ := h
    exact absurd rfl (writeName_ne_nil hn)
  case h_8 =>
    obtain ⟨n, _, hn, _, _, -, ⟨rfl, -⟩, -⟩ := h
    exact absurd rfl (writeName_ne_nil hn)
  case h_12 v _ =>
    obtain ⟨s, hs, rfl, -⟩ := h
    obtain he := Option.some.inj ((writeOptions_eq hfit).symm.trans hs)
    have := length_optionsWire_ge v
    rw [he] at this
    rw [List.eq_nil_of_length_eq_zero (Nat.le_zero.1 this)]
  case h_13 =>
    obtain ⟨n, _, hn, ⟨rfl, -⟩, -⟩ := h
    exact absurd rfl (writeName_ne_nil hn)
  case h_15 x _ =>
    rw [h.1] at hfit
    exact absurd hfit.1 (by simp)
  case h_16 x _ =>
    obtain ⟨head, salt, rest, rfl, -⟩ := hfit
    exact absurd h.1 (by simp)
  case h_17 => exact absurd h (by simp)
  all_goals simp [toBe] at h

/-- The pieces of a question. -/
def Question.pieces (c : Context) (q : Question) : List Piece :=
  [.name (c == .mdns) q.name, .octets 4]

/-- The pieces of a record. -/
def Record.pieces (c : Context) (r : Record) : List Piece :=
  .name (c == .mdns) r.name :: .octets 10 ::
    r.data.pieces (c == .mdns && compressedKinds.contains r.kind)

/-- Data that was read is written without compression as its octets, whatever was written before. -/
theorem writeRdata_fits {update : Bool} {r : Record} (h : RecordFits update r)
    (ho : r.data.isOpaque = false) (d : Dictionary) (len : Nat) :
    writeRdata false d len r.data = some (dataWire r.data, d) := by
  rcases h with ⟨he, -⟩ | ⟨hfit, -⟩
  · rw [he]
    rfl
  · exact writeRdata_plain hfit ho d len

/-- What the parser makes of the data of a record that was written. The data has its type; or it is
written without compression, and its octets are those of other data of its type. -/
inductive Reads (update : Bool) (r : Record) : Rdata → Prop
  | typed (fits : RecordFits update r) : Reads update r r.data
  | verbatim {data : Rdata} (fits : RecordFits update { r with data })
      (kept : data = .opaque_ [] → ¬ deletes update r.cls) (wire : dataWire data = dataWire r.data)
      (plain : ∀ n, .name true n ∉ r.data.pieces (compressedKinds.contains r.kind)) :
      Reads update r data

/-- A record and what is read of it. -/
def Record.ReadAs (update : Bool) (r r' : Record) : Prop :=
  ∃ data, Reads update r data ∧ r' = { r with data }

/-- Records that hold data of their types are read as they are. -/
theorem forall₂_readAs {update : Bool} {rs : List Record} (h : ∀ r ∈ rs, RecordFits update r) :
    List.Forall₂ (Record.ReadAs update) rs rs :=
  List.forall₂_same.2 fun r hr => ⟨r.data, .typed (h r hr), rfl⟩

/-- The parser reads back the data of a record, which has its type. Data that an update has left out
takes no octets, and the parser expects none there. -/
theorem Track.typed {must owed : Prop} {b out : Bytes} {r : Record} {update compress : Bool}
    {c : Context} {ps : List Piece} {d d' : Dictionary} {pos stop : Nat} {p : Parser}
    (ht : Track must owed b (r.data.pieces compress ++ ps) p d pos)
    (hc : compress = true → c = .mdns) (hfit : RecordFits update r)
    (hw : writeRdata compress d pos r.data = some (out, d')) (hs : Span b pos stop out) :
    Yields must (p.data b c update r.kind r.cls pos stop) fun x =>
      x.1 = r.data ∧ x.2.1 = stop ∧ Track must owed b ps x.2.2 d' x.2.1 := by
  unfold Parser.data
  rcases hfit with ⟨he, hdel⟩ | ⟨hfit, hopt⟩
  · rw [he] at hw ht ⊢
    simp only [writeRdata, Option.some.injEq, Prod.mk.injEq] at hw
    obtain ⟨rfl, rfl⟩ := hw
    have hstop : stop = pos := hs.stop_eq
    rw [if_pos ⟨hdel.1, by omega, hdel.2⟩]
    exact Track.done (Track.octets ht) hstop.symm hstop.symm
  · rw [if_neg]
    · refine ht.rdata (fun h => ?_) hfit hw hs
      rw [hc h]
      exact ⟨rfl, rfl⟩
    · rintro ⟨hu, hz, hcls⟩
      have hnil : out = [] := List.eq_nil_of_length_eq_zero (hs.sub_eq ▸ hz)
      subst hnil
      exact hopt (writeRdata_eq_nil hfit hw) ⟨hu, hcls⟩

/-- The parser reads back the data of a record that is written in its plain form. Data of an unknown
type is read as the octets that stand there. -/
theorem Track.verbatim {must owed : Prop} {b : Bytes} {r : Record} {update : Bool} {c : Context}
    {ps : List Piece} {d : Dictionary} {pos stop : Nat} {p : Parser}
    (ht : Track must owed b (r.data.pieces false ++ ps) p d pos) (hfit : RecordFits update r)
    (hkept : r.data = .opaque_ [] → ¬ deletes update r.cls)
    (hs : Span b pos stop (dataWire r.data)) :
    Yields must (p.data b c update r.kind r.cls pos stop) fun x =>
      x.1 = r.data ∧ x.2.1 = stop ∧ Track must owed b ps x.2.2 d x.2.1 := by
  cases ho : r.data.isOpaque with
  | false => exact ht.typed (fun h => nomatch h) hfit (writeRdata_fits hfit ho d pos) hs
  | true =>
    obtain ⟨name, kind, cls, ttl, data⟩ := r
    cases data
    case opaque_ v =>
      have hform : form kind = .unknown := by
        rcases hfit with ⟨he, -⟩ | ⟨hfit, -⟩
        · cases he
        · simp only [Fits] at hfit
          split at hfit
          all_goals first | assumption | exact hfit.elim | contradiction
      unfold Parser.data
      rw [if_neg]
      · exact Track.unknown ht _ _ hs hform
      · rintro ⟨hu, hz, hcls⟩
        have hnil : v = [] := List.eq_nil_of_length_eq_zero (hs.sub_eq ▸ hz)
        exact hkept (by rw [hnil]) ⟨hu, hcls⟩
    all_goals cases ho

/-- The parser reads back the data of a record, as it was given or, if it was given as octets, as
the data that these octets make. -/
theorem Track.data {must owed : Prop} {b out : Bytes} {r : Record} {update compress : Bool}
    {c : Context} {data : Rdata} {ps : List Piece} {d d' : Dictionary} {pos stop : Nat} {p : Parser}
    (ht : Track must owed b (r.data.pieces compress ++ ps) p d pos)
    (hc : compress = true → c = .mdns ∧ compressedKinds.contains r.kind = true)
    (hread : Reads update r data) (hw : writeRdata compress d pos r.data = some (out, d'))
    (hs : Span b pos stop out) :
    Yields must (p.data b c update r.kind r.cls pos stop) fun x =>
      x.1 = data ∧ x.2.1 = stop ∧ Track must owed b ps x.2.2 d' x.2.1 := by
  cases hread with
  | typed hfit => exact ht.typed (fun h => (hc h).1) hfit hw hs
  | verbatim hfit hkept hwire hplain =>
    have hplain : ∀ n, .name true n ∉ r.data.pieces compress := by
      cases compress with
      | false => exact r.data.pieces_plain
      | true =>
        rw [(hc rfl).2] at hplain
        exact hplain
    rw [writeRdata_verbatim hplain] at hw
    obtain ⟨rfl, rfl⟩ := writeRdata_eq_plain hw
    have hswap := ht.swap hplain data.pieces_plain
      (by rw [plainLength_pieces, plainLength_pieces, hwire])
    exact Track.verbatim (r := { r with data }) hswap hfit hkept (by rwa [hwire])

/-- The parser reads back one record: its owner (`Track.name`), the fields of fixed width, and its
data (`Track.rdata`) or, where the data is kept as it stands, its octets. -/
theorem Track.record {must owed : Prop} {b out y : Bytes} {r r' : Record} {update : Bool}
    {c : Context} (section_ : Nat) (seen : Bool) {ps : List Piece} {d d' : Dictionary} {pos : Nat}
    {p : Parser} (ht : Track must owed b (r.pieces c ++ ps) p d pos) (hread : r.ReadAs update r')
    (hopt : must → OptAllowed section_ seen r) (hw : writeRecord c r d pos = some (out, d'))
    (hs : Span b pos b.length (out ++ y)) :
    Yields must (parseRecord b c update section_ seen p pos) fun x =>
      x.1 = r' ∧ x.2.2.1 = (seen || r.kind == 41) ∧ x.2.2.2.1 = pos + out.length ∧
        Track must owed b ps x.2.2.2.2 d' x.2.2.2.1 := by
  obtain ⟨data', hread, rfl⟩ := hread
  simp only [writeRecord, Option.bind_eq_bind, Option.bind_eq_some_iff, Option.bind_none,
    Option.ite_none_left_eq_some, Option.some.injEq, Prod.mk.injEq, Prod.exists] at hw
  obtain ⟨n, d₁, hn, data, d₂, hdata, hlen, rfl, rfl⟩ := hw
  simp only [List.append_assoc] at hs
  simp only [List.length_append, length_toBe] at hdata hlen ⊢
  have hs₁ := hs.right
  have hs₂ := hs₁.right_be
  have hs₃ := hs₂.right_be
  have hs₄ := hs₃.right_be
  have hs₅ := hs₄.right_be
  have hpos : pos + n.length + 2 + 2 + 4 + 2 = pos + (n.length + 2 + 2 + 4) + 2 := by omega
  rw [hpos] at hs₅
  have hn2 : (UInt16.ofNat data.length).toNat = data.length := by
    rw [UInt16.toNat_ofNat']
    unfold maxWire at hlen
    omega
  unfold parseRecord
  refine (Track.name ht (fun _ => rfl) hn hs).bind fun x hx => ?_
  obtain ⟨name, p₁, q⟩ := x
  obtain ⟨rfl, hp, ht₁⟩ := hx
  simp only at hp ht₁ ⊢
  subst hp
  rw [u16_span hs₁]
  simp only [Option.bind_eq_bind, Option.bind_some]
  rw [u16_span hs₂]
  simp only [Option.bind_some]
  rw [u32_span hs₃]
  simp only [Option.bind_some]
  rw [u16_span (v := UInt16.ofNat data.length) (by rw [hn2]; exact hs₄)]
  simp only [Option.bind_some, hn2, hpos]
  have hle := hs₅.left.stop_le
  rw [if_neg (by omega)]
  by_cases hopt' : r.kind = 41 ∧ (section_ ≠ 2 ∨ seen = true ∨ r.name.labels ≠ [])
  · rw [if_pos hopt']
    intro hm
    obtain ⟨h₁, h₂, h₃⟩ := hopt hm hopt'.1
    rcases hopt'.2 with h | h | h
    · exact h h₁
    · exact absurd (h₂.symm.trans h) (by simp)
    · exact h h₃
  · rw [if_neg hopt']
    have ht₂ := ht₁.octets
    rw [show pos + n.length + 10 = pos + (n.length + 2 + 2 + 4) + 2 by omega] at ht₂
    have hc : (c == .mdns && compressedKinds.contains r.kind) = true →
        c = .mdns ∧ compressedKinds.contains r.kind = true :=
      fun h => ⟨eq_of_beq (Bool.and_eq_true_iff.1 h).1, (Bool.and_eq_true_iff.1 h).2⟩
    refine (Track.data ht₂ hc hread hdata hs₅.left).bind fun x hx => ?_
    obtain ⟨data₁, p₂, q₂⟩ := x
    obtain ⟨rfl, hp₂, ht₃⟩ := hx
    simp only at hp₂ ht₃ ⊢
    subst hp₂
    rw [if_neg (by simp)]
    refine ⟨rfl, rfl, ?_, ht₃⟩
    show pos + (n.length + 2 + 2 + 4) + 2 + data.length = _
    omega

/-- Records are read back one after the other from where they were written; `Track` carries what
compression may refer to. -/
theorem Track.records {must owed : Prop} {b : Bytes} {update : Bool} {c : Context}
    (section_ : Nat) :
    ∀ {rs rs' : List Record} (seen : Bool) {ps : List Piece} {d d' : Dictionary} {pos : Nat}
    {p : Parser} {out y : Bytes}, Track must owed b (rs.flatMap (Record.pieces c) ++ ps) p d pos →
    List.Forall₂ (Record.ReadAs update) rs rs' → (must → OptsAllowed section_ seen rs) →
    writeAll (writeRecord c) rs d pos = some (out, d') → Span b pos b.length (out ++ y) →
    Yields must (parseRecords b c update section_ rs.length seen p pos) fun x =>
      x.1 = rs' ∧ x.2.2.1 = seenAfter seen rs ∧ x.2.2.2.1 = pos + out.length ∧
        Track must owed b ps x.2.2.2.2 d' x.2.2.2.1
  | [], _, seen, ps, d, d', pos, p, out, y, ht, .nil, _, hw, _ => by
    simp only [writeAll, Option.some.injEq, Prod.mk.injEq] at hw
    obtain ⟨rfl, rfl⟩ := hw
    exact ⟨rfl, rfl, rfl, ht⟩
  | r :: rs, _ :: _, seen, ps, d, d', pos, p, out, y, ht, .cons hread hreads, hopt, hw, hs => by
    simp only [writeAll, Option.bind_eq_bind, Option.bind_eq_some_iff, Option.some.injEq,
      Prod.mk.injEq, Prod.exists] at hw
    obtain ⟨out₁, d₁, hw₁, out₂, d₂, hw₂, rfl, rfl⟩ := hw
    rw [List.append_assoc] at hs
    rw [List.flatMap_cons, List.append_assoc] at ht
    unfold parseRecords
    refine (Track.record section_ seen ht hread (fun hm => (hopt hm).1) hw₁ hs).bind fun x hx => ?_
    obtain ⟨r', span, seen', pos', p'⟩ := x
    simp only at hx ⊢
    obtain ⟨rfl, rfl, rfl, ht'⟩ := hx
    refine (Track.records section_ _ ht' hreads (fun hm => (hopt hm).2) hw₂ hs.right).bind
      fun x hx => ?_
    obtain ⟨rs', spans, seen', pos', p''⟩ := x
    simp only at hx ⊢
    obtain ⟨rfl, rfl, rfl, ht''⟩ := hx
    exact ⟨rfl, rfl, by simp [Nat.add_assoc], ht''⟩

/-- Questions are read back one after the other from where they were written. By recursion on the
questions, with the dictionary and the position that each has left for the next. -/
theorem Track.questions {must owed : Prop} {b : Bytes} {c : Context} :
    ∀ {qs : List Question} {ps : List Piece} {d d' : Dictionary} {pos : Nat} {p : Parser}
    {out y : Bytes}, Track must owed b (qs.flatMap (Question.pieces c) ++ ps) p d pos →
    writeAll (writeQuestion c) qs d pos = some (out, d') → Span b pos b.length (out ++ y) →
    Yields must (parseQuestions b qs.length p pos) fun x =>
      x.1 = qs ∧ x.2.1 = pos + out.length ∧ Track must owed b ps x.2.2 d' x.2.1
  | [], ps, d, d', pos, p, out, y, ht, hw, _ => by
    simp only [writeAll, Option.some.injEq, Prod.mk.injEq] at hw
    obtain ⟨rfl, rfl⟩ := hw
    exact ⟨rfl, rfl, ht⟩
  | q :: qs, ps, d, d', pos, p, out, y, ht, hw, hs => by
    simp only [writeAll, writeQuestion, Option.bind_eq_bind, Option.bind_eq_some_iff,
      Option.some.injEq, Prod.mk.injEq, Prod.exists] at hw
    obtain ⟨out₁, d₁, ⟨n, d₀, hn, rfl, rfl⟩, out₂, d₂, hw₂, rfl, rfl⟩ := hw
    simp only [List.append_assoc] at hs
    rw [List.flatMap_cons, List.append_assoc] at ht
    have hs₁ := hs.right
    have hs₂ := hs₁.right_be
    have hs₃ := hs₂.right_be
    have hpos : pos + n.length + 2 + 2 = pos + n.length + 4 := by omega
    rw [hpos] at hs₃
    unfold parseQuestions
    refine (Track.name ht (fun _ => rfl) hn hs).bind fun x hx => ?_
    obtain ⟨name, pos', p'⟩ := x
    simp only at hx ⊢
    obtain ⟨rfl, rfl, ht'⟩ := hx
    simp only [u16_span hs₁, u16_span hs₂, Option.bind_eq_bind, Option.bind_some, hpos]
    have hlen :
        pos + (n ++ toBe 2 q.kind.toNat ++ toBe 2 q.cls.toNat).length = pos + n.length + 4 := by
      simp [Nat.add_assoc]
    rw [hlen] at hw₂
    refine (Track.questions ht'.octets hw₂ hs₃).bind fun x hx => ?_
    obtain ⟨qs', pos', p''⟩ := x
    simp only at hx ⊢
    obtain ⟨rfl, rfl, ht''⟩ := hx
    exact ⟨rfl, by rw [List.length_append, ← Nat.add_assoc, hlen], ht''⟩

/-- What is written in two parts is written in one, the dictionary going from the first to the
second. -/
theorem writeAll_append {α : Type} {write : α → Dictionary → Nat → Option (Bytes × Dictionary)} :
    ∀ {xs ys : List α} {d d' : Dictionary} {len : Nat} {out : Bytes},
    writeAll write (xs ++ ys) d len = some (out, d') →
    ∃ out₁ d₁ out₂, writeAll write xs d len = some (out₁, d₁) ∧
      writeAll write ys d₁ (len + out₁.length) = some (out₂, d') ∧ out = out₁ ++ out₂
  | [], ys, d, d', len, out, h => ⟨[], d, out, rfl, h, rfl⟩
  | x :: xs, ys, d, d', len, out, h => by
    simp only [List.cons_append, writeAll, Option.bind_eq_bind, Option.bind_eq_some_iff,
      Option.some.injEq, Prod.mk.injEq, Prod.exists] at h
    obtain ⟨b, d₀, hb, rest, d₂, hrest, rfl, rfl⟩ := h
    obtain ⟨out₁, d₁, out₂, h₁, h₂, rfl⟩ := writeAll_append hrest
    refine ⟨b ++ out₁, d₁, out₂, ?_, ?_, by simp⟩
    · simp [writeAll, hb, h₁]
    · rwa [List.length_append, ← Nat.add_assoc]

/-- A number at the start of a span is the one that was written there. -/
theorem u16At_span {b y : Bytes} {n pos stop : Nat} (h : Span b pos stop (toBe 2 n ++ y)) :
    u16At b pos = UInt16.ofNat (ofBe (toBe 2 n)) := by
  unfold u16At
  have := h.left.octets
  rw [length_toBe] at this
  rw [this]

/-- The header fields of a message that starts with a header: each stands at its place, and the
numbers of entries fit their fields. -/
theorem header_fields {b y : Bytes} {m : Message} (h : b = m.header ++ y)
    (hcount : m.questions.length + m.answers.length + m.authority.length + m.additional.length ≤
      maxRecords) :
    u16At b 0 = m.id ∧ u16At b 2 = m.flags ∧ (u16At b 4).toNat = m.questions.length ∧
      (u16At b 6).toNat = m.answers.length ∧ (u16At b 8).toNat = m.authority.length ∧
      (u16At b 10).toNat = m.additional.length := by
  unfold maxRecords at hcount
  have hs : Span b 0 b.length (m.header ++ y) := ⟨[], [], by simp [h], rfl, by simp [h]⟩
  simp only [Message.header, List.append_assoc] at hs
  have hs₁ := hs.right_be
  have hs₂ := hs₁.right_be
  have hs₃ := hs₂.right_be
  have hs₄ := hs₃.right_be
  have hs₅ := hs₄.right_be
  have hn : ∀ n, n ≤ 4096 → (UInt16.ofNat (ofBe (toBe 2 n))).toNat = n := by
    intro n hn
    rw [UInt16.toNat_ofNat', ofBe_toBe (by omega)]
    omega
  refine ⟨?_, ?_, ?_, ?_, ?_, ?_⟩
  · rw [u16At_span hs]; simp
  · rw [u16At_span hs₁]; simp
  · rw [u16At_span hs₂]; exact hn _ (by omega)
  · rw [u16At_span hs₃]; exact hn _ (by omega)
  · rw [u16At_span hs₄]; exact hn _ (by omega)
  · rw [u16At_span hs₅]; exact hn _ (by omega)

/-- The header takes twelve octets. -/
@[simp] theorem length_header (m : Message) : m.header.length = 12 := by
  simp [Message.header]

/-- Two messages with the same content. -/
structure Message.Same (m m' : Message) : Prop where
  id : m.id = m'.id
  flags : m.flags = m'.flags
  questions : m.questions = m'.questions
  answers : m.answers = m'.answers
  authority : m.authority = m'.authority
  additional : m.additional = m'.additional

/-- The pieces of a message after its header. -/
def Message.pieces (c : Context) (m : Message) : List Piece :=
  m.questions.flatMap (Question.pieces c) ++ m.records.flatMap (Record.pieces c)

/-- Whether no name of a message lies behind more than 64 pointers when it is encoded. -/
def Message.shallow (c : Context) (m : Message) : Bool :=
  Dns.shallow (m.pieces c) .empty (fun _ => 0) 12

/-- A message and what is read of it. -/
structure Message.ReadAs (m m' : Message) : Prop where
  id : m'.id = m.id
  flags : m'.flags = m.flags
  questions : m'.questions = m.questions
  answers : List.Forall₂ (Record.ReadAs (isUpdate m.flags)) m.answers m'.answers
  authority : List.Forall₂ (Record.ReadAs (isUpdate m.flags)) m.authority m'.authority
  additional : List.Forall₂ (Record.ReadAs (isUpdate m.flags)) m.additional m'.additional

/-- OPT records stand where they may in all sections. -/
structure Message.OptsPlaced (m : Message) : Prop where
  answers : OptsAllowed 0 false m.answers
  authority : OptsAllowed 1 (seenAfter false m.answers) m.authority
  additional : OptsAllowed 2 (seenAfter (seenAfter false m.answers) m.authority) m.additional

/-- A well-formed message is read as it is. -/
theorem Message.WellFormed.readAs {m : Message} (hwf : m.WellFormed) : m.ReadAs m := by
  have hfits := hwf.fits
  simp only [Message.records, List.mem_append] at hfits
  exact ⟨rfl, rfl, rfl, forall₂_readAs fun r hr => hfits r (.inl (.inl hr)),
    forall₂_readAs fun r hr => hfits r (.inl (.inr hr)), forall₂_readAs fun r hr =>
    hfits r (.inr hr)⟩

/-- The parser reads back a message, and finds no name behind more than 64 pointers. Header,
questions and records are read in the order in which they were written; under the premises of `must`
the parser also succeeds, which is how both halves of the round trip share one proof. -/
theorem message_yields {must : Prop} {m m' : Message} {c : Context} {qs rs : Bytes}
    {d d' : Dictionary} (hm : must → (m.shallow c = true ∧ plainLength (m.pieces c) ≤ maxWork) ∧
      (m.header ++ qs ++ rs).length ≤ maxWire ∧
      (m.questions.length + m.answers.length + m.authority.length + m.additional.length) * 5 ≤
        qs.length + rs.length ∧ m.OptsPlaced)
    (hcount : m.questions.length + m.answers.length + m.authority.length + m.additional.length ≤
      maxRecords) (hread : m.ReadAs m')
    (hq : writeAll (writeQuestion c) m.questions .empty m.header.length = some (qs, d))
    (hr : writeAll (writeRecord c) m.records d (m.header.length + qs.length) = some (rs, d')) :
    Yields must (Message.parse (m.header ++ qs ++ rs) c) fun m₁ =>
      m₁.Same m' ∧ m.shallow c = true := by
  have hhead := header_fields (b := m.header ++ qs ++ rs) (List.append_assoc _ _ _) hcount
  generalize hb : m.header ++ qs ++ rs = b at hhead hm
  obtain ⟨hid, hflags, hqd, han, hns, har⟩ := hhead
  have hlen : b.length = 12 + qs.length + rs.length := by rw [← hb]; simp [Nat.add_assoc]
  have hs : Span b 12 b.length (qs ++ rs) :=
    ⟨m.header, [], by simp [← hb], by simp, by rw [hlen]; simp [Nat.add_assoc]⟩
  have ht : Track must (m.shallow c = true) b (m.pieces c) ⟨[], maxWork⟩ .empty 12 :=
    ⟨fun _ => 0, fun _ he => absurd he (by simp [Dictionary.empty]), fun h => (hm h).1, id⟩
  -- The sections are written as one list of records.
  obtain ⟨out₁, d₁, out₂, hr₁, hr₂, rfl⟩ := writeAll_append hr
  obtain ⟨outa, da, outb, hra, hrb, rfl⟩ := writeAll_append hr₁
  rw [length_header] at hra hrb hr₂
  simp only [Message.pieces, Message.records, List.flatMap_append, List.append_assoc] at ht
  rw [List.append_assoc] at hs
  have hsa := hs.right
  have hsb := hsa.right
  have hsc : Span b (12 + qs.length + (outa ++ outb).length) b.length (out₂ ++ []) := by
    simpa [Nat.add_assoc] using hsb.right
  obtain ⟨hid', hflags', hqs', hanswers, hauthority, hadditional⟩ := hread
  rw [← hflags] at hanswers hauthority hadditional
  unfold Message.parse
  rw [hqd, han, hns, har]
  by_cases hbad : b.length < 12 ∨ b.length > maxWire
  · rw [if_pos hbad]
    intro h
    have := (hm h).2.1
    omega
  rw [if_neg hbad]
  simp only [Option.bind_eq_bind]
  by_cases hmany : m.questions.length + m.answers.length + m.authority.length +
    m.additional.length >
      maxRecords ∨ m.questions.length + m.answers.length + m.authority.length +
      m.additional.length >
      (b.length - 12) / 5
  · rw [if_pos hmany]
    intro h
    have := (hm h).2.2.1
    omega
  rw [if_neg hmany]
  refine (ht.questions (length_header m ▸ hq) hs).bind fun x hx => ?_
  obtain ⟨qs', pos', p'⟩ := x
  simp only at hx ⊢
  obtain ⟨hqs, rfl, ht⟩ := hx
  refine (ht.records 0 _ hanswers (fun h => (hm h).2.2.2.answers) hra hsa).bind fun x hx => ?_
  obtain ⟨as', spans₀, seen₀, pos', p'⟩ := x
  simp only at hx ⊢
  obtain ⟨has, rfl, rfl, ht⟩ := hx
  refine (ht.records 1 _ hauthority (fun h => (hm h).2.2.2.authority) hrb hsb).bind fun x hx => ?_
  obtain ⟨ns', spans₁, seen₁, pos', p'⟩ := x
  simp only at hx ⊢
  obtain ⟨hns', rfl, rfl, ht⟩ := hx
  rw [show 12 + qs.length + outa.length + outb.length = 12 + qs.length + (outa ++ outb).length by
    simp [Nat.add_assoc]] at ht ⊢
  rw [← List.append_nil (m.additional.flatMap (Record.pieces c))] at ht
  refine (ht.records 2 _ hadditional (fun h => (hm h).2.2.2.additional) hr₂ hsc).bind fun x hx => ?_
  obtain ⟨rs', spans₂, seen₂, pos', p'⟩ := x
  simp only at hx ⊢
  obtain ⟨hrs', rfl, rfl, depth, -, -, howed⟩ := hx
  rw [if_neg (by rw [hlen]; simp [Nat.add_assoc])]
  exact ⟨⟨hid.trans hid'.symm, hflags.trans hflags'.symm, hqs.trans hqs'.symm, has, hns', hrs'⟩,
    howed rfl⟩

/-- What the encoder did, when it succeeded. -/
theorem encodeContext_eq_some {m : Message} {c : Context} {b : Bytes}
    (h : m.encodeContext c = some b) :
    ∃ qs rs d d' m', b = m.header ++ qs ++ rs ∧
      writeAll (writeQuestion c) m.questions .empty m.header.length = some (qs, d) ∧
      writeAll (writeRecord c) m.records d (m.header.length + qs.length) = some (rs, d') ∧
      Message.parse b c = some m' := by
  simp only [Message.encodeContext, Option.bind_eq_bind, Option.bind_eq_some_iff, Option.bind_none,
    Option.ite_none_left_eq_some, Option.some.injEq, Prod.exists] at h
  obtain ⟨-, qs, d, hq, rs, d', hr, m', hp, rfl⟩ := h
  exact ⟨qs, rs, d, d', m', rfl, hq, hr, hp⟩

/-- What the encoder returns is read back with the same content. -/
theorem encodeContext_parse {m : Message} {c : Context} {b : Bytes} (hwf : m.WellFormed)
    (h : m.encodeContext c = some b) : ∃ m', Message.parse b c = some m' ∧ m'.Same m := by
  obtain ⟨qs, rs, d, d', m', rfl, hq, hr, hp⟩ := encodeContext_eq_some h
  have := message_yields (fun h : False => h.elim) hwf.count hwf.readAs hq hr
  exact ⟨m', hp, (this.post hp).1⟩

/-! ## The plain form -/

/-- The uncompressed octets of a question. -/
def questionWire (q : Question) : Bytes := q.name.wire ++ toBe 2 q.kind.toNat ++ toBe 2 q.cls.toNat

/-- The uncompressed octets of a record. -/
def recordWire (r : Record) : Bytes :=
  r.name.wire ++ toBe 2 r.kind.toNat ++ toBe 2 r.cls.toNat ++ toBe 4 r.ttl.toNat ++
    toBe 2 (dataWire r.data).length ++ dataWire r.data

/-- The uncompressed octets of a message. -/
def Message.plain (m : Message) : Bytes :=
  m.header ++ m.questions.flatMap questionWire ++ m.records.flatMap recordWire

/-- Without compression questions are written as their octets, one after the other. -/
theorem writeQuestions_plain (d : Dictionary) : ∀ (qs : List Question) (len : Nat),
    writeAll (writeQuestion .unicast) qs d len = some (qs.flatMap questionWire, d)
  | [], _ => rfl
  | q :: qs, len => by
    have : writeQuestion .unicast q d len = some (questionWire q, d) := rfl
    simp only [writeAll, this, Option.bind_eq_bind, Option.bind_some, writeQuestions_plain d qs,
      List.flatMap_cons]

/-- Without compression records are written as their octets, one after the other, if they fit. By
recursion on the records; the dictionary stays as it was. -/
theorem writeRecords_plain (update : Bool) (d : Dictionary) : ∀ (rs : List Record) (len : Nat),
    (∀ r ∈ rs, RecordFits update r) → (∀ r ∈ rs, r.data.isOpaque = false) →
    len + (rs.flatMap recordWire).length ≤ maxWire →
    writeAll (writeRecord .unicast) rs d len = some (rs.flatMap recordWire, d)
  | [], _, _, _, _ => rfl
  | r :: rs, len, hfit, ho, hlen => by
    have hdata := writeRdata_fits (hfit r List.mem_cons_self) (ho r List.mem_cons_self) d
    simp only [List.flatMap_cons, List.length_append] at hlen
    have hr : writeRecord .unicast r d len = some (recordWire r, d) := by
      have hsize : (recordWire r).length = r.name.wire.length + 10 + (dataWire r.data).length := by
        simp only [recordWire, List.length_append, length_toBe]
      have hz : ((Context.unicast == .mdns) && compressedKinds.contains r.kind) = false := rfl
      simp only [writeRecord, writeName, hz, Option.bind_eq_bind, List.length_append, length_toBe]
      rw [if_neg (by decide)]
      simp only [hdata, Option.bind_some]
      rw [if_neg (by omega)]
      rfl
    have ih := writeRecords_plain update d rs (len + (recordWire r).length)
      (fun x hx => hfit x (List.mem_cons_of_mem _ hx))
      (fun x hx => ho x (List.mem_cons_of_mem _ hx))
      (by omega)
    simp only [writeAll, hr, Option.bind_eq_bind, Option.bind_some, ih, List.flatMap_cons]

/-- Every question takes at least five octets. -/
theorem length_questionsWire_ge (qs : List Question) :
    qs.length * 5 ≤ (qs.flatMap questionWire).length := by
  induction qs with
  | nil => simp
  | cons q qs ih =>
    have := q.name.length_wire_pos
    simp only [List.flatMap_cons, List.length_cons, List.length_append, questionWire,
      length_toBe] at ih ⊢
    omega

/-- Every record takes at least five octets. -/
theorem length_recordsWire_ge (rs : List Record) :
    rs.length * 5 ≤ (rs.flatMap recordWire).length := by
  induction rs with
  | nil => simp
  | cons r rs ih =>
    simp only [List.flatMap_cons, List.length_cons, List.length_append, recordWire,
      length_toBe] at ih ⊢
    omega

/-- The pieces of a message make up its plain form. By induction on the questions and on the records
of a section. -/
theorem plainLength_message (c : Context) (m : Message) :
    12 + plainLength (m.pieces c) = m.plain.length := by
  have hq : ∀ qs : List Question,
      plainLength (qs.flatMap (Question.pieces c)) = (qs.flatMap questionWire).length := by
    intro qs
    induction qs with
    | nil => rfl
    | cons q qs ih =>
      simp only [List.flatMap_cons, plainLength_append, ih, Question.pieces, plainLength,
        List.length_append, questionWire, length_toBe]
  have hr : ∀ rs : List Record,
      plainLength (rs.flatMap (Record.pieces c)) = (rs.flatMap recordWire).length := by
    intro rs
    induction rs with
    | nil => rfl
    | cons r rs ih =>
      simp only [List.flatMap_cons, plainLength_append, ih, Record.pieces, plainLength,
        plainLength_pieces, List.length_append, recordWire, length_toBe]
      omega
  simp only [Message.pieces, plainLength_append, hq, hr, Message.plain, List.length_append,
    length_header, Nat.add_assoc]

/-- Without compression no name is nested, so that the limit on nesting is met. -/
theorem shallow_unicast (m : Message) : m.shallow .unicast = true := by
  refine shallow_plain _ _ _ _ fun n hn => ?_
  rcases List.mem_append.1 hn with hn | hn
  · obtain ⟨q, -, hn⟩ := List.mem_flatMap.1 hn
    simp [Question.pieces] at hn
  · obtain ⟨r, -, hn⟩ := List.mem_flatMap.1 hn
    rcases List.mem_cons.1 hn with hn | hn
    · simp at hn
    · exact r.data.pieces_plain n ((List.mem_cons.1 hn).resolve_left (by simp))

/-- Without compression, a well-formed message that fits is encoded as its plain form. The parser
accepts what was written (`message_yields`), so that the check at the end of the encoder passes
too. -/
theorem encode_plain {m : Message} (hwf : m.WellFormed)
    (ho : ∀ r ∈ m.records, r.data.isOpaque = false) (hlen : m.plain.length ≤ maxWire) :
    m.encodeContext .unicast = some m.plain := by
  have hq := writeQuestions_plain .empty m.questions m.header.length
  have hr := writeRecords_plain _ .empty m.records
    (m.header.length + (m.questions.flatMap questionWire).length) hwf.fits ho
    (by simpa [Message.plain, Nat.add_assoc] using hlen)
  have hge := length_questionsWire_ge m.questions
  have hge' := length_recordsWire_ge m.records
  have hplain := plainLength_message .unicast m
  have hparse := message_yields (fun _ : True => ⟨⟨shallow_unicast m, by
    unfold maxWire at hlen
    unfold maxWork
    omega⟩, hlen, by
    simp only [Message.records, List.length_append] at hge'
    simp only [Message.records]
    omega, ⟨hwf.answers, hwf.authority, hwf.additional⟩⟩) hwf.count hwf.readAs hq hr
  obtain ⟨m', hm', -⟩ := hparse.exists_of_must trivial
  have hcount := hwf.count
  unfold Message.encodeContext
  rw [if_neg (by omega)]
  simp only [hq, hr, hm', Option.bind_eq_bind, Option.bind_some]
  rfl

/-- The round trip of a message. A parsed message without opaque data that is encoded again is read
back with the same identifier, flags, questions and records, each label and letter kept; and for
unicast it is encoded unless its uncompressed form exceeds 65535 octets. -/
theorem round_trip {b : Bytes} {c : Context} {m : Message} (hp : Message.parse b c = some m)
    (ho : ∀ r ∈ m.records, r.data.isOpaque = false) :
    (∀ b₂, m.encodeContext c = some b₂ → ∃ m₂, Message.parse b₂ c = some m₂ ∧ m₂.Same m) ∧
      (c = .unicast → m.encodeContext c = none → 65535 < m.plain.length) := by
  have hwf := parse_wellFormed hp
  refine ⟨fun b₂ h => encodeContext_parse hwf h, ?_⟩
  rintro rfl hnone
  by_contra hlen
  rw [encode_plain hwf ho (Nat.not_lt.1 hlen)] at hnone
  exact absurd hnone (by simp)

/-- A multicast answer: `A.b` points to `c.A.b`, written out in full. -/
def sampleAnswer : Bytes :=
  [0, 0, 132, 0, 0, 0, 0, 1, 0, 0, 0, 0, 1, 65, 1, 98, 0, 0, 12, 0, 1, 0, 0, 0, 120, 0, 7, 1, 99, 1,
    65, 1, 98, 0]

/-- The theorem applied to an answer that is encoded with a pointer in place of the repeated name,
and read back. -/
theorem round_trip_sampleAnswer :
    ∃ m m₂ b₂, Message.parse sampleAnswer .mdns = some m ∧ m.encodeContext .mdns = some b₂ ∧
      b₂.length < sampleAnswer.length ∧ Message.parse b₂ .mdns = some m₂ ∧ m₂.Same m := by
  have hsome : (Message.parse sampleAnswer .mdns).isSome = true := by decide +kernel
  obtain ⟨m, hm⟩ := Option.isSome_iff_exists.1 hsome
  have henc : ((Message.parse sampleAnswer .mdns).bind fun m => m.encodeContext .mdns) =
      some (sampleAnswer.take 26 ++ [4, 1, 99, 192, 12]) := by decide +kernel
  have hplain : (Message.parse sampleAnswer .mdns).all
      (fun m => m.records.all fun r => !r.data.isOpaque) = true := by decide +kernel
  rw [hm] at henc hplain
  have ho : ∀ r ∈ m.records, r.data.isOpaque = false := by simpa using hplain
  obtain ⟨m₂, hm₂, hsame⟩ := (round_trip hm ho).1 _ henc
  exact ⟨m, m₂, _, hm, henc, by decide, hm₂, hsame⟩

end SnacMachine.Dns
