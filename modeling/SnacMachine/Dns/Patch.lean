import SnacMachine.Dns.Locality

/-!
# Patching a message in place

The forwarder keeps replies as octets and writes lifetimes and identifiers over them
(`dns/resolver.rs`). Since no name of an accepted message goes through a lifetime or the header
(`Locality`), such a change stays local: the patched octets are read as the same message with just
those fields changed (`patch_parse`).
-/

namespace SnacMachine.Dns

/-! ## Lifetimes -/

/-- Writes new lifetimes over those of the records that have one. -/
def patchTtls : List RecordSpan → List (Option UInt32) → Bytes → Bytes
  | s :: ss, some t :: ts, b => patchTtls ss ts (overwrite b s.ttl (toBe 4 t.toNat))
  | _ :: ss, none :: ts, b => patchTtls ss ts b
  | _, _, b => b

/-- A record with a new lifetime, if there is one. -/
def Record.setTtl (r : Record) (t : Option UInt32) : Record := { r with ttl := t.getD r.ttl }

/-- A message with new lifetimes, for its records in order. -/
def Message.setTtls (m : Message) (ts : List (Option UInt32)) : Message :=
  { m with
    answers := List.zipWith Record.setTtl m.answers ts
    authority := List.zipWith Record.setTtl m.authority (ts.drop m.answers.length)
    additional :=
      List.zipWith Record.setTtl m.additional (ts.drop (m.answers.length + m.authority.length)) }

/-- An offset outside the lifetimes of the records. -/
def OutsideTtls (spans : List RecordSpan) (i : Nat) : Prop :=
  ∀ s ∈ spans, i < s.ttl ∨ s.ttl + 4 ≤ i

/-- Spans that follow one another do not go back. -/
theorem SpansFrom.le {b : Bytes} : ∀ {spans : List RecordSpan} {pos stop : Nat},
    SpansFrom b pos spans stop → pos ≤ stop
  | [], _, _, h => Nat.le_of_eq h
  | s :: ss, pos, stop, ⟨hstart, hok, hrest⟩ => by
    have := hrest.le
    have := hok.ttl
    have := hok.rdata
    omega

/-- Where one of several records lies. -/
theorem SpansFrom.mem {b : Bytes} : ∀ {spans : List RecordSpan} {pos stop : Nat} {s : RecordSpan},
    SpansFrom b pos spans stop → s ∈ spans → pos ≤ s.wireStart ∧ SpanOk b s ∧ s.wireEnd ≤ stop
  | t :: ss, pos, stop, s, ⟨hstart, hok, hrest⟩, hs => by
    have h₁ := hok.ttl
    have h₂ := hok.rdata
    rcases List.mem_cons.1 hs with rfl | hs
    · exact ⟨hstart.ge, hok, hrest.le⟩
    · obtain ⟨h₃, h₄, h₅⟩ := hrest.mem hs
      exact ⟨by omega, h₄, h₅⟩

/-- Spans that follow one another are joined. -/
theorem SpansFrom.append {b : Bytes} : ∀ {spans spans' : List RecordSpan} {pos mid stop : Nat},
    SpansFrom b pos spans mid → SpansFrom b mid spans' stop → SpansFrom b pos (spans ++ spans') stop
  | [], _, _, _, _, h, h' => h ▸ h'
  | _ :: _, _, _, _, _, ⟨hstart, hok, hrest⟩, h' => ⟨hstart, hok, hrest.append h'⟩

/-- The octets of a record other than its lifetime are outside all lifetimes. By recursion on the
records, which follow one another without overlapping. -/
theorem SpansFrom.outside {b : Bytes} :
    ∀ {spans : List RecordSpan} {pos stop : Nat} {s : RecordSpan}
    {i : Nat}, SpansFrom b pos spans stop → s ∈ spans → s.wireStart ≤ i → i < s.wireEnd →
    (i < s.ttl ∨ s.ttl + 4 ≤ i) → OutsideTtls spans i
  | t :: ss, pos, stop, s, i, ⟨hstart, hok, hrest⟩, hs, hlo, hhi, hi => by
    have h₁ := hok.ttl
    have h₂ := hok.rdata
    intro x hx
    rcases List.mem_cons.1 hs with rfl | hs'
    · rcases List.mem_cons.1 hx with rfl | hx'
      · exact hi
      · obtain ⟨h₃, h₄, -⟩ := hrest.mem hx'
        have := h₄.ttl
        omega
    · rcases List.mem_cons.1 hx with rfl | hx'
      · obtain ⟨h₃, -, -⟩ := hrest.mem hs'
        omega
      · exact hrest.outside hs' hlo hhi hi x hx'

/-- Patching lifetimes changes octets in the lifetime fields of the spans only; the induction is on
the spans. -/
theorem patchTtls_spec {b : Bytes} : ∀ {spans : List RecordSpan} (ts : List (Option UInt32))
    {b₁ : Bytes}, (∀ s ∈ spans, SpanOk b s) → b₁.length = b.length →
    (patchTtls spans ts b₁).length = b.length ∧
      ∀ i, OutsideTtls spans i → (patchTtls spans ts b₁)[i]? = b₁[i]?
  | [], _, b₁, _, hlen => by
    unfold patchTtls
    exact ⟨hlen, fun _ _ => rfl⟩
  | s :: ss, [], b₁, _, hlen => by
    unfold patchTtls
    exact ⟨hlen, fun _ _ => rfl⟩
  | s :: ss, none :: ts, b₁, hok, hlen => by
    unfold patchTtls
    obtain ⟨h₁, h₂⟩ := patchTtls_spec ts (fun x hx => hok x (List.mem_cons_of_mem _ hx)) hlen
    exact ⟨h₁, fun i hi => h₂ i fun x hx => hi x (List.mem_cons_of_mem _ hx)⟩
  | s :: ss, some t :: ts, b₁, hok, hlen => by
    unfold patchTtls
    have hs := hok s List.mem_cons_self
    have hfit : s.ttl + (toBe 4 t.toNat).length ≤ b₁.length := by
      have h₁ := hs.rdata
      have h₂ := hs.stop
      rw [length_toBe]
      omega
    obtain ⟨h₁, h₂⟩ := patchTtls_spec ts
      (fun x hx => hok x (List.mem_cons_of_mem _ hx)) ((length_overwrite hfit).trans hlen)
    refine ⟨h₁, fun i hi => ?_⟩
    rw [h₂ i fun x hx => hi x (List.mem_cons_of_mem _ hx)]
    exact getElem?_overwrite hfit (by rw [length_toBe]; exact hi s List.mem_cons_self)

/-- Buffers that agree on a lifetime field hold the same lifetime. -/
theorem ttlAt_congr {b b' : Bytes} {pos : Nat} (h : Agree b b' pos (pos + 4)) :
    ttlAt b pos = ttlAt b' pos := by
  unfold ttlAt
  rw [h.octets]

/-- Records are given the same lifetimes from buffers that agree on them. -/
theorem retimed_congr {b b' : Bytes} : ∀ (rs : List Record) {spans : List RecordSpan},
    (∀ s ∈ spans, ttlAt b s.ttl = ttlAt b' s.ttl) → retimed b rs spans = retimed b' rs spans
  | [], _, _ => by simp [retimed]
  | _ :: _, [], _ => rfl
  | r :: rs, s :: ss, h => by
    have ih := retimed_congr rs fun x hx => h x (List.mem_cons_of_mem _ hx)
    exact List.cons_eq_cons.2 ⟨by simp only [h s List.mem_cons_self], ih⟩

/-- The lifetimes that patched octets hold are those given, where one was given. By recursion on the
spans: the patch of a later record leaves the lifetime of this one alone, since the spans follow one
another (`hafter`). -/
theorem retimed_patchTtls {b : Bytes} : ∀ {spans : List RecordSpan} {ts : List (Option UInt32)}
    (rs : List Record) {pos stop : Nat} {b₁ : Bytes}, SpansFrom b pos spans stop →
    b₁.length = b.length → ts.length = spans.length →
    retimed (patchTtls spans ts b₁) rs spans =
      List.zipWith Record.setTtl (retimed b₁ rs spans) ts
  | [], [], rs, _, _, _, _, _, _ => by
    simp [retimed]
  | s :: ss, _, [], _, _, _, _, _, _ => by
    simp [retimed]
  | s :: ss, t :: ts, r :: rs, pos, stop, b₁, ⟨hstart, hok, hrest⟩, hlen, hts => by
    have h₁ := hok.ttl
    have h₂ := hok.rdata
    have h₃ := hok.stop
    have hoks : ∀ x ∈ ss, SpanOk b x := fun x hx => (hrest.mem hx).2.1
    -- What is written for the later records leaves this lifetime alone.
    have hafter : ∀ b₂ : Bytes, b₂.length = b.length →
        ttlAt (patchTtls ss ts b₂) s.ttl = ttlAt b₂ s.ttl := fun b₂ hb₂ =>
      ttlAt_congr fun i hi₁ hi₂ => (patchTtls_spec ts hoks hb₂).2 i fun x hx => by
        obtain ⟨h₄, h₅, -⟩ := hrest.mem hx
        have := h₅.ttl
        omega
    cases t with
    | none =>
      have ih := retimed_patchTtls rs hrest hlen (by simpa using hts)
      unfold patchTtls
      simp only [retimed, List.zipWith_cons_cons] at ih ⊢
      rw [ih, hafter b₁ hlen]
      rfl
    | some t =>
      have hfit : s.ttl + (toBe 4 t.toNat).length ≤ b₁.length := by
        rw [length_toBe]
        omega
      have hlen₂ := (length_overwrite hfit).trans hlen
      have ih := retimed_patchTtls rs hrest hlen₂ (by simpa using hts)
      have hother : retimed (overwrite b₁ s.ttl (toBe 4 t.toNat)) rs ss = retimed b₁ rs ss := by
        refine retimed_congr rs fun x hx => ttlAt_congr fun i hi₁ hi₂ => ?_
        obtain ⟨h₄, h₅, -⟩ := hrest.mem hx
        have := h₅.ttl
        exact getElem?_overwrite hfit (by rw [length_toBe]; omega)
      unfold patchTtls
      simp only [retimed, List.zipWith_cons_cons] at ih hother ⊢
      rw [ih, hother, hafter _ hlen₂]
      congr 1
      have : ttlAt (overwrite b₁ s.ttl (toBe 4 t.toNat)) s.ttl = t := by
        unfold ttlAt
        have := drop_take_overwrite hfit
        rw [length_toBe] at this
        rw [this, ofBe_toBe_u32]
      rw [this]
      rfl

/-! ## Patched messages -/

/-- What parsing a message did, section by section. -/
structure Sections (b : Bytes) (c : Context) (m : Message) (q₁ q₂ q₃ : Nat) (p₁ p₂ p₃ : Parser)
    (seen₁ seen₂ : Bool) (s₁ s₂ s₃ : List RecordSpan) : Prop where
  length : ¬ (b.length < 12 ∨ b.length > maxWire)
  count :
    ¬ ((u16At b 4).toNat + (u16At b 6).toNat + (u16At b 8).toNat + (u16At b 10).toNat > maxRecords ∨
    (u16At b 4).toNat + (u16At b 6).toNat + (u16At b 8).toNat + (u16At b 10).toNat >
    (b.length - 12) / 5)
  id : m.id = u16At b 0
  flags : m.flags = u16At b 2
  questions : parseQuestions b (u16At b 4).toNat ⟨[], maxWork⟩ 12 = some (m.questions, q₁, p₁)
  answers : parseRecords b c (isUpdate (u16At b 2)) 0 (u16At b 6).toNat false p₁ q₁ =
    some (m.answers, s₁, seen₁, q₂, p₂)
  authority : parseRecords b c (isUpdate (u16At b 2)) 1 (u16At b 8).toNat seen₁ p₂ q₂ =
    some (m.authority, s₂, seen₂, q₃, p₃)
  additional :
    ∃ seen₃ p₄, parseRecords b c (isUpdate (u16At b 2)) 2 (u16At b 10).toNat seen₂ p₃ q₃ =
    some (m.additional, s₃, seen₃, b.length, p₄)
  original : m.original = b
  spans : m.spans = s₁ ++ s₂ ++ s₃

/-- Parsing a message is parsing its sections in order. The positions and the states of the parser
between the sections are named, so that later proofs need not open the parser again. -/
theorem parse_eq_some {b : Bytes} {c : Context} {m : Message} : Message.parse b c = some m ↔
    ∃ q₁ q₂ q₃ p₁ p₂ p₃ seen₁ seen₂ s₁ s₂ s₃,
      Sections b c m q₁ q₂ q₃ p₁ p₂ p₃ seen₁ seen₂ s₁ s₂ s₃ := by
  constructor
  · intro h
    simp only [Message.parse, Option.bind_eq_bind, Option.bind_eq_some_iff, Option.bind_none,
      Option.ite_none_left_eq_some, Option.some.injEq, Prod.exists] at h
    obtain ⟨hlen, hcount, questions, q₁, p₁, hq, answers, s₁, seen₁, q₂, p₂, han,
      authority, s₂, seen₂, q₃, p₃, hns, additional, s₃, seen₃, q₄, p₄, har, hend, rfl⟩ := h
    obtain rfl := not_not.1 hend
    exact ⟨q₁, q₂, q₃, p₁, p₂, p₃, seen₁, seen₂, s₁, s₂, s₃, hlen, hcount, rfl, rfl, hq, han, hns,
      ⟨seen₃, p₄, har⟩, rfl, rfl⟩
  · rintro ⟨q₁, q₂, q₃, p₁, p₂, p₃, seen₁, seen₂, s₁, s₂, s₃, hlen, hcount, hid,
      hflags, hq, han, hns, ⟨seen₃, p₄, har⟩, horig, hspans⟩
    unfold Message.parse
    rw [if_neg hlen]
    simp only [Option.bind_eq_bind]
    rw [if_neg hcount]
    simp only [hq, han, hns, har, Option.bind_some]
    rw [if_neg (by simp), ← hid, ← hflags, ← hspans]
    rw [← horig]

/-- No positions are known at first, so that nothing needs to be shared. -/
theorem Shared.nil (b b' : Bytes) : Shared b b' [] := fun _ h => nomatch h

/-- Buffers that agree on two octets hold the same number there. -/
theorem u16At_agree {b b' : Bytes} {k : Nat} (h : Agree b b' k (k + 2)) :
    u16At b k = u16At b' k := by
  unfold u16At
  rw [h.octets]

/-- Both lists of a `zipWith` cut after the first part of one of them. -/
theorem zipWith_append_drop {α β γ : Type} (f : α → β → γ) : ∀ (l l' : List α) (r : List β),
    l.length ≤ r.length →
    List.zipWith f (l ++ l') r = List.zipWith f l r ++ List.zipWith f l' (r.drop l.length)
  | [], l', r, _ => by simp
  | a :: l, l', b :: r, h => by
    simp only [List.cons_append, List.zipWith_cons_cons, List.length_cons, List.drop_succ_cons,
      zipWith_append_drop f l l' r (Nat.le_of_succ_le_succ h)]

/-- The sections of a list of records that was changed record by record. -/
theorem Message.sections_zipWith {α : Type} (m : Message) (f : Record → α → Record) {xs : List α}
    (h : m.records.length ≤ xs.length) :
    List.zipWith f m.records xs =
      List.zipWith f m.answers xs ++ (List.zipWith f m.authority (xs.drop m.answers.length) ++
        List.zipWith f m.additional (xs.drop (m.answers.length + m.authority.length))) := by
  simp only [Message.records, List.length_append] at h
  unfold Message.records
  rw [List.append_assoc, zipWith_append_drop f _ _ _ (by omega),
    zipWith_append_drop f _ _ _ (by rw [List.length_drop]; omega), List.drop_drop]

/-- Where the records of a parsed message lie. The spans of the three sections follow one another,
and the last one ends with the message. -/
theorem Sections.layout {b : Bytes} {c : Context} {m : Message} {q₁ q₂ q₃ : Nat} {p₁ p₂ p₃ : Parser}
    {seen₁ seen₂ : Bool} {s₁ s₂ s₃ : List RecordSpan}
    (h : Sections b c m q₁ q₂ q₃ p₁ p₂ p₃ seen₁ seen₂ s₁ s₂ s₃) :
    12 ≤ q₁ ∧ SpansFrom b q₁ m.spans b.length ∧ m.answers.length = s₁.length ∧
      m.authority.length = s₂.length ∧ m.additional.length = s₃.length ∧
      retimed b m.records m.spans = m.records := by
  obtain ⟨seen₃, p₄, har⟩ := h.additional
  obtain ⟨hs₁, hl₁, hr₁⟩ := parseRecords_spans h.answers
  obtain ⟨hs₂, hl₂, hr₂⟩ := parseRecords_spans h.authority
  obtain ⟨hs₃, hl₃, hr₃⟩ := parseRecords_spans har
  refine ⟨parseQuestions_le h.questions, ?_, hl₁, hl₂, hl₃, ?_⟩
  · rw [h.spans]
    exact (hs₁.append hs₂).append hs₃
  · unfold retimed at hr₁ hr₂ hr₃ ⊢
    rw [h.spans, Message.records,
      List.zipWith_append (by rw [List.length_append, List.length_append, hl₁, hl₂]),
      List.zipWith_append hl₁, hr₁, hr₂, hr₃]

/-- There is a span for every record. -/
theorem Sections.length_records {b : Bytes} {c : Context} {m : Message} {q₁ q₂ q₃ : Nat}
    {p₁ p₂ p₃ : Parser} {seen₁ seen₂ : Bool} {s₁ s₂ s₃ : List RecordSpan}
    (h : Sections b c m q₁ q₂ q₃ p₁ p₂ p₃ seen₁ seen₂ s₁ s₂ s₃) :
    m.records.length = m.spans.length := by
  obtain ⟨-, -, hl₁, hl₂, hl₃, -⟩ := h.layout
  rw [h.spans]
  simp [Message.records, hl₁, hl₂, hl₃]

/-- A change outside the section counts, the names and the data of records. -/
structure Patched (m : Message) (b b' : Bytes) : Prop where
  length : b'.length = b.length
  update : isUpdate (u16At b' 2) = isUpdate (u16At b 2)
  octets : ∀ i, 4 ≤ i → OutsideTtls m.spans i → b[i]? = b'[i]?

/-- Octets before the records are outside their lifetimes. -/
theorem SpansFrom.outside_before {b : Bytes} {spans : List RecordSpan} {pos stop i : Nat}
    (h : SpansFrom b pos spans stop) (hi : i < pos) : OutsideTtls spans i := by
  intro s hs
  obtain ⟨h₁, h₂, -⟩ := h.mem hs
  have := h₂.ttl
  omega

/-- A patched record agrees with the original one outside of its lifetime. -/
theorem Patched.record {m : Message} {b b' : Bytes} {pos stop : Nat} (h : Patched m b b')
    (hpos : 4 ≤ pos) (hs : SpansFrom b pos m.spans stop) {s : RecordSpan} (hmem : s ∈ m.spans) :
    RecordAgree b b' s := by
  obtain ⟨h₁, h₂, -⟩ := hs.mem hmem
  have h₃ := h₂.ttl
  have h₄ := h₂.rdata
  refine ⟨fun i hi₁ hi₂ => h.octets i (by omega) ?_, fun i hi₁ hi₂ => h.octets i (by omega) ?_⟩
  · exact hs.outside hmem hi₁ (by omega) (.inl hi₂)
  · exact hs.outside hmem (by omega) hi₂ (.inr hi₁)

/-- Patched octets are read as the same message, up to the identifier, the flags and the
lifetimes. -/
theorem parse_patched {b b' : Bytes} {c : Context} {m : Message} (hp : Message.parse b c = some m)
    (h : Patched m b b') :
    Message.parse b' c = some ⟨u16At b' 0, u16At b' 2, m.questions, retimed b' m.answers m.spans,
      retimed b' m.authority (m.spans.drop m.answers.length),
      retimed b' m.additional (m.spans.drop (m.answers.length + m.authority.length)),
        b', m.spans⟩ := by
  obtain ⟨q₁, q₂, q₃, p₁, p₂, p₃, seen₁, seen₂, s₁, s₂, s₃, hsec⟩ := parse_eq_some.1 hp
  obtain ⟨hq₁, hspans, hl₁, hl₂, hl₃, -⟩ := hsec.layout
  have hhead : Agree b b' 4 12 := fun i hi₁ hi₂ =>
    h.octets i hi₁ (hspans.outside_before (by omega))
  have hlen : b.length ≤ b'.length := h.length.ge
  have hrec : ∀ s ∈ m.spans, RecordAgree b b' s := fun s hs => h.record (by omega) hspans hs
  rw [hsec.spans] at hrec
  have hrec₁ : ∀ s ∈ s₁, RecordAgree b b' s := fun s hs => hrec s (by simp [hs])
  have hrec₂ : ∀ s ∈ s₂, RecordAgree b b' s := fun s hs => hrec s (by simp [hs])
  have hrec₃ : ∀ s ∈ s₃, RecordAgree b b' s := fun s hs => hrec s (by simp [hs])
  obtain ⟨hquestions, hsh₁⟩ := parseQuestions_agree hlen hsec.questions (Shared.nil b b')
    fun i hi₁ hi₂ => h.octets i (by omega) (hspans.outside_before hi₂)
  obtain ⟨hanswers, hsh₂⟩ := parseRecords_agree hlen hsec.answers hsh₁ hrec₁
  obtain ⟨hauthority, hsh₃⟩ := parseRecords_agree hlen hsec.authority hsh₂ hrec₂
  obtain ⟨seen₃, p₄, har⟩ := hsec.additional
  obtain ⟨hadditional, -⟩ := parseRecords_agree hlen har hsh₃ hrec₃
  have hcount := hsec.count
  have hbounds := hsec.length
  rw [u16At_agree (hhead.sub (by omega) (by omega)),
    u16At_agree (k := 6) (hhead.sub (by omega) (by omega)),
    u16At_agree (k := 8) (hhead.sub (by omega) (by omega)),
    u16At_agree (k := 10) (hhead.sub (by omega) (by omega)), ← h.length] at hcount
  rw [← h.length] at hbounds
  rw [u16At_agree (k := 4) (hhead.sub (by omega) (by omega))] at hquestions
  rw [u16At_agree (k := 6) (hhead.sub (by omega) (by omega)), ← h.update] at hanswers
  rw [u16At_agree (k := 8) (hhead.sub (by omega) (by omega)), ← h.update] at hauthority
  rw [u16At_agree (k := 10) (hhead.sub (by omega) (by omega)), ← h.update,
    ← h.length] at hadditional
  have hcut : ∀ {rs : List Record} {l l' : List RecordSpan}, rs.length = l.length →
      retimed b' rs (l ++ l') = retimed b' rs l := by
    intro rs l l' hl
    unfold retimed
    rw [← List.append_nil rs, List.zipWith_append hl, List.zipWith_nil_left, List.append_nil,
      List.append_nil]
  refine parse_eq_some.2 ⟨q₁, q₂, q₃, p₁, p₂, p₃, seen₁, seen₂, s₁, s₂, s₃, hbounds,
    hcount, rfl, rfl, hquestions, ?_, ?_, ⟨seen₃, p₄, ?_⟩, rfl, hsec.spans⟩
  · rw [hanswers]
    simp only [hsec.spans, List.append_assoc, hcut hl₁]
  · rw [hauthority]
    simp only [hsec.spans, List.append_assoc, hl₁, List.drop_left, hcut hl₂]
  · rw [hadditional]
    simp only [hsec.spans, hl₁, hl₂]
    rw [← List.length_append, List.drop_left]

/-- Patched octets are read as the message with the lifetimes they hold. The parser reads the
sections of the patched octets as it did before, since no length and no name has changed. -/
theorem parse_setTtls {b b' : Bytes} {c : Context} {m : Message} {ts : List (Option UInt32)}
    (hp : Message.parse b c = some m) (h : Patched m b b') (hts : ts.length = m.records.length)
    (hret : retimed b' m.records m.spans = List.zipWith Record.setTtl m.records ts) :
    Message.parse b' c =
      some { m.setTtls ts with id := u16At b' 0, flags := u16At b' 2, original := b' } := by
  obtain ⟨q₁, q₂, q₃, p₁, p₂, p₃, seen₁, seen₂, s₁, s₂, s₃, hsec⟩ := parse_eq_some.1 hp
  have hmlen := hsec.length_records
  have hparse := parse_patched hp h
  unfold retimed at hret hparse
  rw [m.sections_zipWith _ hmlen.le, m.sections_zipWith _ hts.ge] at hret
  simp only [Message.records, List.length_append] at hmlen hts
  obtain ⟨h₁, h₂⟩ := List.append_inj hret (by
    rw [List.length_zipWith, List.length_zipWith]
    omega)
  obtain ⟨h₂, h₃⟩ := List.append_inj h₂ (by
    rw [List.length_zipWith, List.length_zipWith, List.length_drop, List.length_drop]
    omega)
  rw [h₁, h₂, h₃] at hparse
  exact hparse

/-- The octets that new lifetimes are written over. By the spans of the records: each write is
inside of a lifetime, so the header and all else stay. -/
theorem parse_patchTtls {b : Bytes} {c : Context} {m : Message} (hp : Message.parse b c = some m)
    {ts : List (Option UInt32)} (hts : ts.length = m.records.length) :
    Patched m b (patchTtls m.spans ts b) ∧
      u16At (patchTtls m.spans ts b) 0 = m.id ∧ u16At (patchTtls m.spans ts b) 2 = m.flags ∧
      retimed (patchTtls m.spans ts b) m.records m.spans =
        List.zipWith Record.setTtl m.records ts := by
  obtain ⟨q₁, q₂, q₃, p₁, p₂, p₃, seen₁, seen₂, s₁, s₂, s₃, hsec⟩ := parse_eq_some.1 hp
  obtain ⟨hq₁, hspans, -, -, -, hret⟩ := hsec.layout
  obtain ⟨hlen, hout⟩ := patchTtls_spec ts (fun s hs => (hspans.mem hs).2.1) (Eq.refl b.length)
  have hhead : ∀ pos, pos + 2 ≤ 12 → u16At (patchTtls m.spans ts b) pos = u16At b pos :=
    fun pos hpos =>
    u16At_agree fun i _ hi => hout i (hspans.outside_before (by omega))
  refine ⟨⟨hlen, by rw [hhead 2 (by decide)], fun i _ hi => (hout i hi).symm⟩, ?_, ?_, ?_⟩
  · rw [hhead 0 (by decide), hsec.id]
  · rw [hhead 2 (by decide), hsec.flags]
  · rw [retimed_patchTtls _ hspans rfl (hts.trans hsec.length_records), hret]

/-- In-place changes of the identifier and of any lifetimes are local: the patched octets are read
as the message with just those fields changed. -/
theorem patch_parse {b : Bytes} {c : Context} {m : Message} (hp : Message.parse b c = some m)
    (id : UInt16) {ts : List (Option UInt32)} (hts : ts.length = m.records.length) :
    Message.parse (overwrite (patchTtls m.spans ts b) 0 (toBe 2 id.toNat)) c =
      some { m.setTtls ts with
        id := id
        original := overwrite (patchTtls m.spans ts b) 0 (toBe 2 id.toNat) } := by
  obtain ⟨q₁, q₂, q₃, p₁, p₂, p₃, seen₁, seen₂, s₁, s₂, s₃, hsec⟩ := parse_eq_some.1 hp
  obtain ⟨hq₁, hspans, -, -, -, -⟩ := hsec.layout
  have hbounds := hsec.length
  obtain ⟨hpatched, -, hflags, hret⟩ := parse_patchTtls hp hts
  generalize patchTtls m.spans ts b = b₁ at hpatched hflags hret ⊢
  have hlen := hpatched.length
  have hfit : 0 + (toBe 2 id.toNat).length ≤ b₁.length := by
    rw [length_toBe]
    omega
  have hafter : ∀ i, 2 ≤ i → (overwrite b₁ 0 (toBe 2 id.toNat))[i]? = b₁[i]? := fun i hi =>
    getElem?_overwrite hfit (.inr (by rw [length_toBe]; omega))
  have hid : u16At (overwrite b₁ 0 (toBe 2 id.toNat)) 0 = id := by
    have := drop_take_overwrite hfit
    rw [length_toBe] at this
    rw [u16At, this, ofBe_toBe_u16]
  have hflags' : u16At (overwrite b₁ 0 (toBe 2 id.toNat)) 2 = m.flags := by
    rw [← hflags]
    exact u16At_agree fun i hi _ => hafter i hi
  have hparse := @parse_setTtls b (overwrite b₁ 0 (toBe 2 id.toNat)) c m ts hp
    ⟨(length_overwrite hfit).trans hlen, by rw [hflags', hsec.flags], fun i hi ho => by
      rw [hafter i (by omega)]
      exact hpatched.octets i hi ho⟩ hts (by
    rw [← hret]
    exact retimed_congr m.records fun s hs => ttlAt_congr fun i hi _ => hafter i (by
      obtain ⟨h₁, h₂, -⟩ := hspans.mem hs
      have := h₂.ttl
      omega))
  rw [hid, hflags'] at hparse
  exact hparse

end SnacMachine.Dns
