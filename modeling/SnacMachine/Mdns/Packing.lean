import SnacMachine.Lib.Packing
import SnacMachine.Mdns.Options
import SnacMachine.Mdns.Publish

/-!
# Messages that fit

How records are spread over messages: `pack` for announcements, goodbyes and probes
(`mdns/publish.rs`) and `packetize` for every outgoing message with its stamps (`mdns/tsr.rs`). Both
loops are greedy packings (`Packing.Run`) that decide on the encoded size of a trial message.
-/

namespace SnacMachine.Mdns

open SnacMachine.Dns

/-! ## Packing records -/

/-- A record as a probe carries it, without the cache-flush bit. Reference:
`mdns/publish.rs:879`. -/
def masked (probe : Bool) (r : Record) : Record :=
  if probe then { r with cls := r.cls &&& 0x7fff } else r

/-- The question that a probe asks for a record. Reference: `mdns/publish.rs:902`. -/
def probeQuestion (r : Record) : Question := ⟨r.name, 255, r.cls ||| 0x8000⟩

/-- Reference: `append` (`mdns/publish.rs:900`). -/
def append (m : Message) (r : Record) (probe : Bool) : Message :=
  if probe then
    { m with
      questions :=
        if m.questions.contains (probeQuestion r) then m.questions
        else m.questions ++ [probeQuestion r]
      authority := m.authority ++ [r] }
  else { m with answers := m.answers ++ [r] }

/-- The message that `pack` starts with. Reference: `mdns/publish.rs:876`. -/
def unpacked (probe : Bool) : Message := Message.new 0 (if probe then 0 else 0x8400)

/-- The variables of the loop of `pack`. -/
structure Packed where
  out : List Message
  current : Message

/-- Where a record goes, for the size of the current message with it. Reference:
`mdns/publish.rs:883`. -/
def Packed.next (probe : Bool) (s : Packed) (r : Record) (size : Nat) : Packed :=
  if size > 1200 ∧ s.current.answers.length + s.current.authority.length > 0 then
    ⟨s.out ++ [s.current], append (unpacked probe) r probe⟩
  else ⟨s.out, append s.current r probe⟩

/-- One record. Reference: `mdns/publish.rs:877`. -/
def packRecord (probe : Bool) (s : Packed) (r : Record) : Except IoError Packed := do
  let extended ← encoded (append s.current (masked probe r) probe) .mdns
  let s := s.next probe (masked probe r) extended.length
  let size ← encoded s.current .mdns
  if size.length > 8952 ∨ s.current.questions.length > 128 then .error invalidPublication
  else .ok s

/-- Reference: `pack` (`mdns/publish.rs:874`). -/
def pack (records : List Record) (probe : Bool) : Except IoError (List Message) := do
  let s ← records.foldlM (packRecord probe) ⟨[], unpacked probe⟩
  .ok (if s.current.answers ≠ [] ∨ s.current.authority ≠ [] then s.out ++ [s.current] else s.out)

/-! ## Packing messages with stamps -/

/-- The record sections of a message. -/
inductive Section
  | answers
  | authority
  | additional
  deriving DecidableEq

/-- The records of a section. -/
def Section.of (m : Message) : Section → List Record
  | .answers => m.answers
  | .authority => m.authority
  | .additional => m.additional

/-- The records of a message that are not OPT records, with their sections. Reference:
`mdns/tsr.rs:261`. -/
def sections (m : Message) : List (Section × Record) :=
  (ordinary m.answers).map (.answers, ·) ++ (ordinary m.authority).map (.authority, ·) ++
    (ordinary m.additional).map (.additional, ·)

/-- Whether a message is a probe. Reference: `mdns/tsr.rs:234`. -/
def isProbe (m : Message) : Bool := m.flags &&& 0x8000 == 0 && !m.authority.isEmpty

/-- What every part of a message starts with. Reference: `mdns/tsr.rs:235`. -/
def base (m : Message) : Message :=
  { Message.new m.id m.flags with
    questions := if isProbe m then [] else m.questions
    additional := m.additional.filter fun r => r.kind == 41 }

/-- Takes up a question that is not there yet. Reference: `mdns/tsr.rs:251`. -/
def ask (qs : List Question) (q : Question) : List Question :=
  if qs.contains q then qs else qs ++ [q]

/-- A part with one more record, and the questions of a probe for its owner. Reference:
`mdns/tsr.rs:248`. -/
def put (m current : Message) (e : Section × Record) : Message :=
  let asking : Message :=
    if isProbe m then
      { current with
        questions := (m.questions.filter fun q => q.name == e.2.name).foldl ask current.questions }
    else current
  match e.1 with
  | .answers => { asking with answers := asking.answers ++ [e.2] }
  | .authority => { asking with authority := asking.authority ++ [e.2] }
  | .additional => { asking with additional := asking.additional ++ [e.2] }

/-- The variables of the loop of `packetize`. -/
structure Packetized where
  output : List Message
  current : Message
  count : Nat

/-- Closes the current part when a trial is too large. Reference: `mdns/tsr.rs:269`. -/
def Packetized.next (m : Message) (code : UInt16) (now : Nat) (lookup : Name → Option Stamp)
    (s : Packetized) (size : Nat) : Except IoError Packetized :=
  if size > 1200 ∧ s.count > 0 then do
    let current ← attach s.current code now lookup
    .ok ⟨s.output ++ [current], base m, 0⟩
  else .ok s

/-- One record. Reference: `mdns/tsr.rs:266`. -/
def packetizeRecord (m : Message) (code : UInt16) (now : Nat) (lookup : Name → Option Stamp)
    (s : Packetized) (e : Section × Record) : Except IoError Packetized := do
  let trial ← attach (put m s.current e) code now lookup
  let size ← encoded trial .mdns
  let s ← s.next m code now lookup size.length
  let current ← attach (put m s.current e) code now lookup
  let size ← encoded current .mdns
  if size.length > 8952 then .error tsrInvalid
  else .ok ⟨s.output, current, s.count + 1⟩

/-- Reference: `packetize` (`mdns/tsr.rs:220`). -/
def packetize (m : Message) (code : UInt16) (now : Nat) (lookup : Name → Option Stamp) :
    Except IoError (List Message) := do
  let complete ← attach m code now lookup
  let size ← encoded complete .mdns
  if size.length ≤ 1200 ∨ ((ordinary m.records).length ≤ 1 ∧ size.length ≤ 8952) then .ok [complete]
  else do
    let s ← (sections m).foldlM (packetizeRecord m code now lookup) ⟨[], base m, 0⟩
    .ok (if s.count > 0 then s.output ++ [s.current] else s.output)

/-! ## What packing does -/

/-- What is encoded without an error is encoded. -/
theorem encoded_eq_ok {m : Message} {c : Context} {b : Bytes} (h : encoded m c = .ok b) :
    m.encodeContext c = some b := by
  unfold encoded at h
  cases he : m.encodeContext c with
  | none =>
    rw [he] at h
    cases h
  | some x =>
    rw [he] at h
    cases h
    rfl

/-- A message that may be sent: it fits a frame, and with more than one record a packet. -/
def Fitting (count : Nat) (m : Message) : Prop :=
  ∃ b, m.encodeContext .mdns = some b ∧ b.length ≤ 8952 ∧ (1 < count → b.length ≤ 1200)

instance : ReflBEq Question where
  rfl {q} := by
    show (q.name == q.name && (q.kind == q.kind && q.cls == q.cls)) = true
    simp

/-- Questions that are equal ask for one name. -/
theorem name_beq_of_question {p q : Question} (h : (p == q) = true) :
    (p.name == q.name) = true := by
  have h : (p.name == q.name && (p.kind == q.kind && p.cls == q.cls)) = true := h
  exact (Bool.and_eq_true_iff.1 h).1

section
variable {probe : Bool}

/-- A message with some records, of the kind that `pack` makes. -/
structure Carrier (probe : Bool) (p : Message) : Prop where
  used : 0 < p.answers.length + p.authority.length
  bare : p.additional = [] ∧ if probe then p.answers = [] else p.authority = []
  fits : Fitting p.records.length p
  asked : probe = true → ∀ n : Name,
    (∃ q ∈ p.questions, (q.name == n) = true) ↔ ∃ r ∈ p.authority, (r.name == n) = true

/-- One more record in a message of `pack`. -/
def Packs (probe : Bool) (p : Message) (r : Record) (p' : Message) : Prop :=
  p' = append p (masked probe r) probe ∧ ∃ b, p'.encodeContext .mdns = some b ∧
    b.length ≤ 8952 ∧ (p ≠ unpacked probe → b.length ≤ 1200)

/-- A probe asks for the owners it had and the one it gets. The question for the new record's owner
is added unless it is there. -/
theorem asked_append {p : Message} {r : Record}
    (h : ∀ n : Name, (∃ q ∈ p.questions, (q.name == n) = true) ↔
      ∃ r ∈ p.authority, (r.name == n) = true) (n : Name) :
    (∃ q ∈ (append p r true).questions, (q.name == n) = true) ↔
      ∃ x ∈ (append p r true).authority, (x.name == n) = true := by
  simp only [append, if_true, List.mem_append, List.mem_singleton, or_and_right, exists_or,
    exists_eq_left, ← h n]
  split
  · next hc =>
    refine ⟨.inl, fun hor => hor.elim id fun hr => ?_⟩
    obtain ⟨q, hq, heq⟩ := List.contains_iff_exists_mem_beq.1 hc
    exact ⟨q, hq, BEq.trans (BEq.symm (name_beq_of_question heq)) hr⟩
  · simp only [List.mem_append, List.mem_singleton, or_and_right, exists_or, exists_eq_left]
    rfl

/-- A message into which a record was packed has some records, and is of the kind that `pack`
makes. -/
theorem Packs.good {p p' : Message} {r : Record} (hp : p = unpacked probe ∨ Carrier probe p)
    (h : Packs probe p r p') : Carrier probe p' := by
  obtain ⟨rfl, b, hb, hmax, hmany⟩ := h
  have hbare : p.additional = [] ∧ if probe then p.answers = [] else p.authority = [] := by
    rcases hp with rfl | hp
    · cases probe <;> exact ⟨rfl, rfl⟩
    · exact hp.bare
  have hfresh : 1 < (append p (masked probe r) probe).records.length → p ≠ unpacked probe := by
    rintro hlt rfl
    cases probe <;> simp [append, unpacked, Message.records, Message.new] at hlt
  refine ⟨?_, ?_, ⟨b, hb, hmax, fun hlt => hmany (hfresh hlt)⟩, ?_⟩
  · cases probe <;> simp only [append, Bool.false_eq_true, if_true, if_false, List.length_append,
      List.length_singleton] <;> omega
  · cases probe <;> exact hbare
  · rintro rfl
    refine asked_append fun n => ?_
    rcases hp with rfl | hp
    · simp [unpacked, Message.new]
    · exact hp.asked rfl n

/-- The records of a message of `pack`. -/
def carried (probe : Bool) (m : Message) : List Record := if probe then m.authority else m.answers

/-- Packing a record adds this record to the message. -/
theorem Packs.carried {p p' : Message} {r : Record} (h : Packs probe p r p') :
    carried probe p' = Mdns.carried probe p ++ [masked probe r] := by
  obtain ⟨rfl, -⟩ := h
  cases probe <;> rfl

/-- One more record is packed into the current message, or into a new one. A new message holds it
alone, and the message before it is closed only when it holds something. -/
theorem packRecord_run {xs : List Record} {s s' : Packed} {r : Record}
    (h : Packing.Run (unpacked probe) (Packs probe) xs s.out s.current)
    (hstep : packRecord probe s r = .ok s') :
    Packing.Run (unpacked probe) (Packs probe) (xs ++ [r]) s'.out s'.current := by
  have hcurrent := (h.good Packs.good).2
  obtain ⟨extended, hextended, hstep⟩ := exceptBind_ok hstep
  obtain ⟨size, hsize, hstep⟩ := exceptBind_ok hstep
  split at hstep
  · cases hstep
  · next hok =>
    obtain ⟨hmax, -⟩ := not_or.1 hok
    cases hstep
    have hsize := encoded_eq_ok hsize
    unfold Packed.next at hsize ⊢
    split at hsize
    · next hsplit =>
      rw [if_pos hsplit]
      refine h.close ?_ ⟨rfl, size, hsize, Nat.not_lt.1 hmax, fun hne => absurd rfl hne⟩
      intro heq
      rw [heq] at hsplit
      exact absurd hsplit.2 (by cases probe <;> decide)
    · next hsplit =>
      rw [if_neg hsplit]
      refine h.extend ⟨rfl, size, hsize, Nat.not_lt.1 hmax, fun hne => ?_⟩
      have heq : extended = size := Option.some.inj ((encoded_eq_ok hextended).symm.trans hsize)
      rw [heq] at hsplit
      by_contra hlt
      exact hsplit ⟨Nat.not_le.1 hlt, (hcurrent.resolve_left hne).used⟩

/-- The records of a list are packed one after the other; the induction is on those still to
come. -/
theorem foldlM_packRecord {rs xs : List Record} {s s' : Packed}
    (h : Packing.Run (unpacked probe) (Packs probe) xs s.out s.current)
    (hrun : rs.foldlM (packRecord probe) s = .ok s') :
    Packing.Run (unpacked probe) (Packs probe) (xs ++ rs) s'.out s'.current := by
  induction rs generalizing xs s with
  | nil =>
    cases hrun
    simpa using h
  | cons r rs ih =>
    rw [List.foldlM_cons] at hrun
    obtain ⟨s₁, h₁, hrun⟩ := exceptBind_ok hrun
    simpa using ih (packRecord_run h h₁) hrun

/-- The messages hold the records in their order, fit, and ask for what they hold. The loop is a run
of the general packing (`Packing.Run`), whose contents and quality are known from those of one
addition. -/
theorem pack_spec {rs : List Record} {ms : List Message} (h : pack rs probe = .ok ms) :
    ms.flatMap (carried probe) = rs.map (masked probe) ∧ ∀ msg ∈ ms, Carrier probe msg := by
  obtain ⟨s, hs, h⟩ := exceptBind_ok h
  have hrun : Packing.Run (unpacked probe) (Packs probe) ([] ++ rs) s.out s.current :=
    foldlM_packRecord .nil hs
  obtain ⟨hout, hcurrent⟩ := hrun.good Packs.good
  have hcontents :
      s.out.flatMap (carried probe) ++ carried probe s.current = rs.map (masked probe) := by
    rw [hrun.contents (carried probe) (fun r => [masked probe r]) Packs.good
      (by cases probe <;> rfl) fun _ => Packs.carried, List.nil_append, List.map_eq_flatMap]
  cases h
  split
  · next hused =>
    have hcarrier : Carrier probe s.current := by
      refine hcurrent.resolve_left fun heq => ?_
      rw [heq] at hused
      cases probe <;> simp [unpacked, Message.new] at hused
    refine ⟨by rw [List.flatMap_append, List.flatMap_singleton, hcontents], fun msg hmsg => ?_⟩
    rcases List.mem_append.1 hmsg with hmsg | hmsg
    · exact hout msg hmsg
    · rw [List.mem_singleton.1 hmsg]
      exact hcarrier
  · next hunused =>
    obtain ⟨hans, haut⟩ := not_or.1 hunused
    refine ⟨?_, hout⟩
    have hnil : carried probe s.current = [] := by
      cases probe
      · exact not_not.1 hans
      · exact not_not.1 haut
    rw [hnil, List.append_nil] at hcontents
    exact hcontents

end

/-! ## What packing with stamps does -/

/-- The records of two sections without option records. -/
theorem ordinary_append (xs ys : List Record) : ordinary (xs ++ ys) = ordinary xs ++ ordinary ys :=
  List.filter_append ..

/-- The records of a message without option records, section by section. -/
theorem ordinary_records (m : Message) : ordinary m.records =
    ordinary (Section.answers.of m) ++ ordinary (Section.authority.of m) ++
      ordinary (Section.additional.of m) := by
  rw [Message.records, ordinary_append, ordinary_append]
  rfl

/-- A part begins without records. -/
theorem ordinary_base (m : Message) (σ : Section) : ordinary (σ.of (base m)) = [] := by
  cases σ with
  | answers => rfl
  | authority => rfl
  | additional =>
    simp only [Section.of, base, ordinary, List.filter_filter]
    exact List.filter_eq_nil_iff.2 fun r _ => by simp

/-- A part begins without records in any section. -/
theorem ordinary_base_records (m : Message) : ordinary (base m).records = [] := by
  simp only [ordinary_records, ordinary_base, List.append_nil]

/-- A part begins with at most the option record of the message that is split. -/
theorem Edns.base {m : Message} (hm : Edns m) : Edns (Mdns.base m) where
  typed r hr _ := by simpa using (List.mem_filter.1 hr).2
  single := by
    refine le_trans ?_ hm.single
    simp only [Mdns.base, List.filter_filter]
    rw [← List.countP_eq_length_filter, ← List.countP_eq_length_filter]
    exact List.countP_mono_left fun r _ ho => (Bool.and_eq_true_iff.1 ho).1

/-- The items of a part for a section. -/
def Section.item (σ : Section) (e : Section × Record) : List Record := if e.1 = σ then [e.2] else []

/-- What is to be sent of a section are its records without option records. The items of the other
sections add nothing to it. -/
theorem sections_item (m : Message) (σ : Section) :
    (sections m).flatMap σ.item = ordinary (σ.of m) := by
  have hsome (rs : List Record) : (rs.map (σ, ·)).flatMap σ.item = rs := by
    simp only [List.flatMap_map, Section.item, if_true, List.flatMap_singleton']
  have hnone (τ : Section) (h : τ ≠ σ) (rs : List Record) :
      (rs.map (τ, ·)).flatMap σ.item = [] := by
    simp only [List.flatMap_map, Section.item, if_neg h, List.flatMap_eq_nil_iff, implies_true]
  rw [sections, List.flatMap_append, List.flatMap_append]
  cases σ with
  | answers =>
    rw [hsome, hnone _ (by decide), hnone _ (by decide), List.append_nil, List.append_nil]; rfl
  | authority => rw [hsome, hnone _ (by decide), hnone _ (by decide), List.append_nil]; rfl
  | additional => rw [hsome, hnone _ (by decide), hnone _ (by decide)]; rfl

/-- A record that may be put into a part. -/
def Allowed (e : Section × Record) : Prop :=
  e.2.kind ≠ 41 ∧ (e.1 = .additional → isOpt e.2 = false)

/-- What is to be sent may be put into a part. -/
theorem allowed_of_mem {m : Message} (hm : Edns m) {e : Section × Record} (he : e ∈ sections m) :
    Allowed e := by
  simp only [sections, List.mem_append, List.mem_map] at he
  rcases he with (⟨r, hr, rfl⟩ | ⟨r, hr, rfl⟩) | ⟨r, hr, rfl⟩
  · exact ⟨by simpa using (List.mem_filter.1 hr).2, fun h => absurd h (by simp)⟩
  · exact ⟨by simpa using (List.mem_filter.1 hr).2, fun h => absurd h (by simp)⟩
  · have hk : r.kind ≠ 41 := by simpa using (List.mem_filter.1 hr).2
    refine ⟨hk, fun _ => ?_⟩
    by_contra ho
    exact hk (hm.typed r (List.mem_filter.1 hr).1 (by simpa using ho))

/-- A record is put at the end of its own section. -/
theorem of_put (m p : Message) (e : Section × Record) (σ : Section) :
    σ.of (put m p e) = σ.of p ++ σ.item e := by
  obtain ⟨τ, r⟩ := e
  unfold put Section.item
  cases isProbe m <;> cases τ <;> cases σ <;> simp [Section.of]

/-- A record is put at the end of its own section, among those without option records. -/
theorem ordinary_put {m p : Message} {e : Section × Record} (he : Allowed e) (σ : Section) :
    ordinary (σ.of (put m p e)) = ordinary (σ.of p) ++ σ.item e := by
  rw [of_put, ordinary_append]
  refine congrArg _ ?_
  unfold Section.item
  split
  · simp [ordinary, he.1]
  · rfl

/-- Putting a record in adds no option record, since only other records are put. -/
theorem Edns.put {m p : Message} (hp : Edns p) {e : Section × Record} (he : Allowed e) :
    Edns (Mdns.put m p e) := by
  have hadd : (Mdns.put m p e).additional = p.additional ++ Section.additional.item e :=
    of_put m p e .additional
  have hitem : ∀ r ∈ Section.additional.item e, isOpt r = false := by
    intro r hr
    unfold Section.item at hr
    split at hr
    · next h =>
      rw [List.mem_singleton.1 hr]
      exact he.2 h
    · exact absurd hr List.not_mem_nil
  refine ⟨fun r hr ho => ?_, ?_⟩
  · rw [hadd] at hr
    rcases List.mem_append.1 hr with hr | hr
    · exact hp.typed r hr ho
    · rw [hitem r hr] at ho
      cases ho
  · have hnil : (Section.additional.item e).filter isOpt = [] :=
      List.filter_eq_nil_iff.2 fun r hr => by simp [hitem r hr]
    rw [hadd, List.filter_append, hnil, List.append_nil]
    exact hp.single

/-- A question that is asked stays asked. -/
theorem contains_ask {qs : List Question} {q x : Question} (h : qs.contains q = true) :
    (ask qs x).contains q = true := by
  unfold ask
  split
  · exact h
  · rw [List.contains_append, h]
    rfl

/-- The questions that were asked, and those that are added, are asked. By induction on those that
are added; `ask` leaves out only a question that is there. -/
theorem contains_foldl_ask {l qs : List Question} {q : Question}
    (h : qs.contains q = true ∨ q ∈ l) :
    (l.foldl ask qs).contains q = true := by
  induction l generalizing qs with
  | nil => exact h.resolve_right List.not_mem_nil
  | cons x l ih =>
    refine ih ?_
    rcases h with h | h
    · exact .inl (contains_ask h)
    · rcases List.mem_cons.1 h with rfl | h
      · refine .inl ?_
        unfold ask
        split
        · assumption
        · rw [List.contains_append, Bool.or_eq_true]
          exact .inr (List.contains_iff_exists_mem_beq.2 ⟨q, List.mem_singleton_self q, BEq.rfl⟩)
      · exact .inr h

/-- The questions of a message that go with the records of a part are asked in it. -/
def Asks (m p : Message) : Prop :=
  ∀ q ∈ m.questions,
    (isProbe m = false ∨ ∃ r ∈ ordinary p.records, (q.name == r.name) = true) →
      p.questions.contains q = true

/-- A part begins with no records that questions would go with. -/
theorem asks_base (m : Message) : Asks m (base m) := by
  intro q hq h
  rcases h with h | ⟨r, hr, -⟩
  · simp only [base, h, Bool.false_eq_true, if_false]
    exact List.contains_iff_exists_mem_beq.2 ⟨q, hq, BEq.rfl⟩
  · rw [ordinary_base_records] at hr
    exact absurd hr List.not_mem_nil

/-- A record of a probe is put in with the questions for its name. -/
theorem questions_put (m p : Message) (e : Section × Record) : (put m p e).questions =
    if isProbe m then (m.questions.filter fun q => q.name == e.2.name).foldl ask p.questions
    else p.questions := by
  obtain ⟨τ, r⟩ := e
  unfold put
  cases isProbe m <;> cases τ <;> rfl

/-- The records afterwards are those before and the new one. -/
theorem mem_ordinary_put {m p : Message} {e : Section × Record} (he : Allowed e) {r : Record} :
    r ∈ ordinary (put m p e).records ↔ r ∈ ordinary p.records ∨ r = e.2 := by
  simp only [ordinary_records, ordinary_put he, List.mem_append, Section.item]
  obtain ⟨τ, x⟩ := e
  cases τ <;> simp <;> tauto

/-- There is one record more afterwards. -/
theorem length_ordinary_put {m p : Message} {e : Section × Record} (he : Allowed e) :
    (ordinary (put m p e).records).length = (ordinary p.records).length + 1 := by
  simp only [ordinary_records, ordinary_put he, List.length_append, Section.item]
  obtain ⟨τ, x⟩ := e
  cases τ <;> simp <;> omega

/-- Putting a record in keeps asking what must be asked. In a probe the questions for the owner of
the new record are added with it. -/
theorem Asks.put {m p : Message} (h : Asks m p) {e : Section × Record} (he : Allowed e) :
    Asks m (Mdns.put m p e) := by
  intro q hq hor
  rw [questions_put]
  cases hprobe : isProbe m with
  | false => exact h q hq (.inl hprobe)
  | true =>
    rw [hprobe] at hor
    obtain ⟨r, hr, hname⟩ := hor.resolve_left (by simp)
    refine contains_foldl_ask ?_
    rcases (mem_ordinary_put he).1 hr with hr | rfl
    · exact .inl (h q hq (.inr ⟨r, hr, hname⟩))
    · exact .inr (List.mem_filter.2 ⟨hq, hname⟩)

section
variable {m : Message} {code : UInt16} {now : Nat} {lookup : Name → Option Stamp}

/-- A message with its stamps, as it is sent: it fits, asks what goes with its records, and has one
OPT record at most. -/
structure Part (m : Message) (code : UInt16) (now : Nat) (lookup : Name → Option Stamp)
    (p : Message) : Prop where
  again : attach p code now lookup = .ok p
  edns : Edns p
  fits : Fitting (ordinary p.records).length p
  asks : Asks m p

/-- The sections of a message with stamps. -/
theorem ordinary_attach {p p' : Message} (h : attach p code now lookup = .ok p') (hp : Edns p)
    (σ : Section) : ordinary (σ.of p') = ordinary (σ.of p) := by
  obtain ⟨heq, hadd, -⟩ := attachInner_frame h hp
  cases σ with
  | answers => rw [heq]; rfl
  | authority => rw [heq]; rfl
  | additional => exact hadd

/-- Stamps are put into the option record only. -/
theorem ordinary_attach_records {p p' : Message} (h : attach p code now lookup = .ok p')
    (hp : Edns p) : ordinary p'.records = ordinary p.records := by
  simp only [ordinary_records, ordinary_attach h hp]

/-- Stamps do not change what is asked. -/
theorem Asks.attach {p p' : Message} (hasks : Asks m p)
    (h : Mdns.attach p code now lookup = .ok p') (hp : Edns p) : Asks m p' := by
  have hq : p'.questions = p.questions := by rw [(attachInner_frame h hp).1]
  unfold Asks
  rw [ordinary_attach_records h hp, hq]
  exact hasks

/-- One more record in a part. -/
def Adds (m : Message) (code : UInt16) (now : Nat) (lookup : Name → Option Stamp) (p : Message)
    (e : Section × Record) (p' : Message) : Prop :=
  Allowed e ∧ attach (put m p e) code now lookup = .ok p' ∧
    ∃ b, p'.encodeContext .mdns = some b ∧ b.length ≤ 8952 ∧ (p ≠ base m → b.length ≤ 1200)

/-- What is known of the current part. -/
def Growing (m : Message) (code : UInt16) (now : Nat) (lookup : Name → Option Stamp) (p : Message) :
    Prop :=
  Part m code now lookup p ∧ 0 < (ordinary p.records).length

/-- What holds of a part to which a record is added, be it a new one or not. -/
theorem Growing.start {p : Message} (hm : Edns m)
    (hp : p = base m ∨ Growing m code now lookup p) : Edns p ∧ Asks m p := by
  rcases hp with rfl | hp
  · exact ⟨hm.base, asks_base m⟩
  · exact ⟨hp.1.edns, hp.1.asks⟩

/-- A part to which a record was added is a growing one. The new part has one more ordinary record,
the options that belong to it, and was tested to fit. -/
theorem Adds.good {p p' : Message} {e : Section × Record} (hm : Edns m)
    (hp : p = base m ∨ Growing m code now lookup p) (h : Adds m code now lookup p e p') :
    Growing m code now lookup p' := by
  obtain ⟨he, hattach, b, hb, hmax, hmany⟩ := h
  obtain ⟨hedns, hasks⟩ := Growing.start hm hp
  have hput : Edns (put m p e) := hedns.put he
  have hcount : (ordinary p'.records).length = (ordinary p.records).length + 1 := by
    rw [ordinary_attach_records hattach hput, length_ordinary_put he]
  refine ⟨⟨attachInner_again hattach, (attachInner_frame hattach hput).2.2.2,
    ⟨b, hb, hmax, fun hlt => hmany ?_⟩, (hasks.put he).attach hattach hput⟩, by omega⟩
  rintro rfl
  rw [ordinary_base_records] at hcount
  rw [hcount] at hlt
  exact absurd hlt (by decide)

/-- Adding a record extends its own section of the part by it. -/
theorem Adds.ordinary {p p' : Message} {e : Section × Record} (hm : Edns m)
    (hp : p = base m ∨ Growing m code now lookup p) (h : Adds m code now lookup p e p')
    (σ : Section) : Mdns.ordinary (σ.of p') = Mdns.ordinary (σ.of p) ++ σ.item e := by
  obtain ⟨he, hattach, -⟩ := h
  rw [ordinary_attach hattach ((Growing.start hm hp).1.put he), ordinary_put he]

/-- One more record is put into the current part, or into a new one. The source encodes a trial to
decide which; a part that is closed is complete, and the new one has room for the record, since a
message with one record is within the limit or the loop fails. -/
theorem packetizeRecord_run {xs : List (Section × Record)} {s s' : Packetized}
    {e : Section × Record} (hm : Edns m) (he : Allowed e)
    (h : Packing.Run (base m) (Adds m code now lookup) xs s.output s.current)
    (hcount : s.count = (ordinary s.current.records).length)
    (hstep : packetizeRecord m code now lookup s e = .ok s') :
    Packing.Run (base m) (Adds m code now lookup) (xs ++ [e]) s'.output s'.current ∧
      s'.count = (ordinary s'.current.records).length := by
  have hcurrent := (h.good (Adds.good hm)).2
  obtain ⟨trial, htrial, hstep⟩ := exceptBind_ok hstep
  obtain ⟨size, hsize, hstep⟩ := exceptBind_ok hstep
  obtain ⟨s₁, hs₁, hstep⟩ := exceptBind_ok hstep
  obtain ⟨current, hattach, hstep⟩ := exceptBind_ok hstep
  obtain ⟨size', hsize', hstep⟩ := exceptBind_ok hstep
  split at hstep
  · cases hstep
  · next hmax =>
    cases hstep
    have hb := encoded_eq_ok hsize'
    unfold Packetized.next at hs₁
    split at hs₁
    · next hsplit =>
      have hne : s.current ≠ base m := by
        intro heq
        rw [heq, ordinary_base_records] at hcount
        rw [hcount] at hsplit
        exact absurd hsplit.2 (by decide)
      obtain ⟨closed, hclosed, hs₁⟩ := exceptBind_ok hs₁
      rw [(hcurrent.resolve_left hne).1.again] at hclosed
      cases hclosed
      cases hs₁
      have hadd : Adds m code now lookup (base m) e current :=
        ⟨he, hattach, size', hb, Nat.not_lt.1 hmax, fun hne => absurd rfl hne⟩
      refine ⟨h.close hne hadd, ?_⟩
      show 0 + 1 = _
      rw [ordinary_attach_records hattach (hm.base.put he), length_ordinary_put he,
        ordinary_base_records]
      rfl
    · next hsplit =>
      cases hs₁
      have hedns := (Growing.start hm hcurrent).1.put (m := m) he
      have hadd : Adds m code now lookup s.current e current := by
        refine ⟨he, hattach, size', hb, Nat.not_lt.1 hmax, fun hne => ?_⟩
        rw [htrial] at hattach
        cases hattach
        have heq : size = size' := Option.some.inj ((encoded_eq_ok hsize).symm.trans hb)
        rw [heq] at hsplit
        by_contra hlt
        exact hsplit ⟨Nat.not_le.1 hlt, hcount ▸ (hcurrent.resolve_left hne).2⟩
      refine ⟨h.extend hadd, ?_⟩
      show s.count + 1 = _
      rw [ordinary_attach_records hattach hedns, length_ordinary_put he, hcount]

/-- The records of a message are put into parts one after the other; the induction is on those still
to come. -/
theorem foldlM_packetizeRecord {es xs : List (Section × Record)} {s s' : Packetized} (hm : Edns m)
    (hes : ∀ e ∈ es, Allowed e)
    (h : Packing.Run (base m) (Adds m code now lookup) xs s.output s.current)
    (hcount : s.count = (ordinary s.current.records).length)
    (hrun : es.foldlM (packetizeRecord m code now lookup) s = .ok s') :
    Packing.Run (base m) (Adds m code now lookup) (xs ++ es) s'.output s'.current ∧
      s'.count = (ordinary s'.current.records).length := by
  induction es generalizing xs s with
  | nil =>
    cases hrun
    exact ⟨by simpa using h, hcount⟩
  | cons e es ih =>
    rw [List.foldlM_cons] at hrun
    obtain ⟨s₁, h₁, hrun⟩ := exceptBind_ok hrun
    obtain ⟨he, hes⟩ := List.forall_mem_cons.1 hes
    obtain ⟨h₁, hcount₁⟩ := packetizeRecord_run hm he h hcount h₁
    simpa using ih hes h₁ hcount₁ hrun

/-- The messages hold the records of each section in their order, and are as they should be. A
message that is small enough is the only part; otherwise the loop is a run of the general packing
(`Packing.Run`) over the records of all sections. -/
theorem packetize_spec (hm : Edns m) {out : List Message}
    (h : packetize m code now lookup = .ok out) :
    (∀ σ : Section, (out.flatMap fun p => ordinary (σ.of p)) = ordinary (σ.of m)) ∧
      ∀ p ∈ out, Part m code now lookup p := by
  obtain ⟨complete, hcomplete, h⟩ := exceptBind_ok h
  obtain ⟨size, hsize, h⟩ := exceptBind_ok h
  split at h
  · next hsmall =>
    cases h
    refine ⟨fun σ => ?_, fun p hp => ?_⟩
    · rw [List.flatMap_singleton, ordinary_attach hcomplete hm]
    · rw [List.mem_singleton.1 hp]
      refine ⟨attachInner_again hcomplete, (attachInner_frame hcomplete hm).2.2.2,
        ⟨size, encoded_eq_ok hsize, by omega, fun hlt => ?_⟩, Asks.attach ?_ hcomplete hm⟩
      · rw [ordinary_attach_records hcomplete hm] at hlt
        omega
      · exact fun q hq _ => List.contains_iff_exists_mem_beq.2 ⟨q, hq, BEq.rfl⟩
  · obtain ⟨s, hs, h⟩ := exceptBind_ok h
    obtain ⟨hrun, hcount⟩ := foldlM_packetizeRecord hm (fun e he => allowed_of_mem hm he)
      (.nil : Packing.Run _ _ [] _ _) (by rw [ordinary_base_records]; rfl) hs
    rw [List.nil_append] at hrun
    obtain ⟨hout, hcurrent⟩ := hrun.good (Adds.good hm)
    have hcontents (σ : Section) :
        (s.output.flatMap fun p => ordinary (σ.of p)) ++ ordinary (σ.of s.current) =
          ordinary (σ.of m) := by
      rw [← sections_item m]
      exact hrun.contents (fun p => ordinary (σ.of p)) σ.item (Adds.good hm) (ordinary_base m σ)
        fun hp ha => ha.ordinary hm hp σ
    cases h
    split
    · next hpos =>
      have hne : s.current ≠ base m := by
        intro heq
        rw [hcount, heq, ordinary_base_records] at hpos
        exact absurd hpos (by decide)
      refine ⟨fun σ => ?_, fun p hp => ?_⟩
      · rw [List.flatMap_append, List.flatMap_singleton, hcontents]
      · rcases List.mem_append.1 hp with hp | hp
        · exact (hout p hp).1
        · rw [List.mem_singleton.1 hp]
          exact (hcurrent.resolve_left hne).1
    · next hzero =>
      refine ⟨fun σ => ?_, fun p hp => (hout p hp).1⟩
      have hnil : ordinary s.current.records = [] :=
        List.eq_nil_of_length_eq_zero (by omega)
      have hsec : ordinary (σ.of s.current) = [] := by
        rw [ordinary_records] at hnil
        simp only [List.append_eq_nil_iff] at hnil
        cases σ with
        | answers => exact hnil.1.1
        | authority => exact hnil.1.2
        | additional => exact hnil.2
      rw [← hcontents σ, hsec, List.append_nil]

/-- The stamps that a peer reads in a part. -/
theorem Part.extract {p : Message} (h : Part m code now lookup p)
    (hlookup : ∀ {a b}, SameKey a b → lookup a = lookup b) :
    ∃ stamps, Mdns.extract p code now = .ok stamps ∧
      ∀ n, Concerns p n → stamps.get n = (lookup n).map fun s => s.heard now := by
  obtain ⟨stamps, hstamps, hget⟩ := attachInner_extract h.again h.edns.single hlookup
  exact ⟨stamps, hstamps, fun n => (hget n).1⟩

end

/-- The encoder refuses a message with two OPT records, and what it has encoded has as many as the
message, except for one that writing stamps may have added. -/
theorem packetize_edns {m : Message} {code : UInt16} {now : Nat} {lookup : Name → Option Stamp}
    {out : List Message} (htyped : ∀ r ∈ m.additional, isOpt r = true → r.kind = 41)
    (h : packetize m code now lookup = .ok out) : Edns m := by
  refine ⟨htyped, ?_⟩
  obtain ⟨complete, hcomplete, h⟩ := exceptBind_ok h
  obtain ⟨size, hsize, -⟩ := exceptBind_ok h
  have hsingle := encode_single (encoded_eq_ok hsize)
  obtain ⟨-, -, values, -, hplaced⟩ := attachInner_eq_ok hcomplete
  have hnil (hno : ∀ r ∈ m.additional, isOpt r = false) :
      (m.additional.filter isOpt).length ≤ 1 := by
    rw [List.filter_eq_nil_iff.2 fun r hr => by simp [hno r hr]]
    exact Nat.zero_le _
  clear hcomplete hsize
  cases hplaced with
  | replaced hrep =>
    rw [← length_filter_isOpt_replace hrep]
    have hle := List.countP_mono_left fun r hr ho =>
      beq_iff_eq.2 (isOpt_replaceOptions hrep htyped r hr ho)
    rw [List.countP_eq_length_filter, List.countP_eq_length_filter] at hle
    exact hle.trans hsingle
  | unneeded hno => exact hnil hno
  | added hno => exact hnil hno

/-- Packing loses, repeats and moves no record, the messages fit, and they carry the questions and
the stamps of their owners. Options are in records of their type, and the stamp of an owner does not
depend on the case of its letters. -/
theorem packing_exact :
    (∀ (rs : List Record) (probe : Bool) (ms : List Message), pack rs probe = .ok ms →
      ms.flatMap (carried probe) = rs.map (masked probe) ∧
      ∀ p ∈ ms, Fitting p.records.length p ∧ (probe = true → ∀ n : Name,
        (∃ q ∈ p.questions, (q.name == n) = true) ↔ ∃ r ∈ p.authority, (r.name == n) = true)) ∧
    ∀ (m : Message) (code : UInt16) (now : Nat) (lookup : Name → Option Stamp) (out : List Message),
      (∀ r ∈ m.additional, isOpt r = true → r.kind = 41) →
      (∀ a b, SameKey a b → lookup a = lookup b) → packetize m code now lookup = .ok out →
      (∀ σ : Section, (out.flatMap fun p => ordinary (σ.of p)) = ordinary (σ.of m)) ∧
      ∀ p ∈ out, Fitting (ordinary p.records).length p ∧
        (∃ stamps, extract p code now = .ok stamps ∧
          ∀ n, Concerns p n → stamps.get n = (lookup n).map fun s => s.heard now) ∧
        ∀ q ∈ m.questions, (∃ r ∈ ordinary p.records, (q.name == r.name) = true) →
          p.questions.contains q = true := by
  refine ⟨fun rs probe ms h => ?_, fun m code now lookup out htyped hlookup h => ?_⟩
  · obtain ⟨hrecords, hcarriers⟩ := pack_spec h
    exact ⟨hrecords, fun p hp => ⟨(hcarriers p hp).fits, (hcarriers p hp).asked⟩⟩
  · obtain ⟨hsections, hparts⟩ := packetize_spec (packetize_edns htyped h) h
    refine ⟨hsections, fun p hp => ⟨(hparts p hp).fits, ?_, fun q hq hr => ?_⟩⟩
    · exact (hparts p hp).extract fun hab => hlookup _ _ hab
    · exact (hparts p hp).asks q hq (.inr hr)

/-- The stamp of a host that was registered at the start. -/
def hostStamp (n : Name) : Option Stamp := if n == stampedHost then some ⟨7, 0⟩ else none

/-- The stamp of the host does not depend on letter case. -/
theorem hostStamp_congr (a b : Name) (h : SameKey a b) : hostStamp a = hostStamp b := by
  have : (a == stampedHost) = (b == stampedHost) := by
    rw [Bool.eq_iff_iff]
    exact ⟨fun ha => BEq.trans (BEq.symm (Name.beq_iff_sameKey.2 h)) ha,
      BEq.trans (Name.beq_iff_sameKey.2 h)⟩
  rw [hostStamp, hostStamp, this]

/-- A text of a host, of 603 octets. -/
def text (octet : UInt8) : Record :=
  ⟨stampedHost, 16, 0x8001, 120, .txt (List.replicate 3 (List.replicate 200 octet))⟩

/-- An announcement of two texts of a host, which do not fit into one message; it has an OPT record,
which is to hold the stamp of the host. -/
def longAnnouncement : Message :=
  { Message.new 0 0x8400 with
    answers := [text 97, text 98]
    additional := [⟨Name.root, 41, 1440, 0, .opt []⟩] }

/-- Whether a message carries a record of the host that a stamp may refer to. -/
def concernsHost (p : Message) : Bool :=
  p.records.zipIdx.any fun x => applies p x.2 x.1 && decide (SameKey x.1.name stampedHost)

/-- A message that has records of the host concerns it. -/
theorem concerns_of_concernsHost {p : Message} (h : concernsHost p = true) :
    Concerns p stampedHost := by
  obtain ⟨x, hx, happ⟩ := List.any_eq_true.1 h
  obtain ⟨happ, hname⟩ := Bool.and_eq_true_iff.1 happ
  exact ⟨x, hx, happ, of_decide_eq_true hname⟩

/-- The two texts are announced by two messages, in a probe as in an announcement, and a peer that
hears either of them reads the stamp of the host. -/
theorem packing_exact_announcement :
    (∃ ms, pack longAnnouncement.answers true = .ok ms ∧ ms.length = 2 ∧
      ms.flatMap (carried true) = longAnnouncement.answers.map (masked true)) ∧
    ∃ out, packetize longAnnouncement 65002 5000 hostStamp = .ok out ∧ out.length = 2 ∧
      (out.flatMap fun p => ordinary p.answers) = ordinary longAnnouncement.answers ∧
      ∀ p ∈ out, Fitting (ordinary p.records).length p ∧
        ∃ stamps, extract p 65002 5000 = .ok stamps ∧ stamps.get stampedHost = some ⟨7, 0⟩ := by
  have hpack : (pack longAnnouncement.answers true).toOption.map List.length = some 2 := by
    decide +kernel
  have hpacketize : ((packetize longAnnouncement 65002 5000 hostStamp).toOption.map fun out =>
      (out.length, out.all concernsHost)) = some (2, true) := by decide +kernel
  constructor
  · cases h : pack longAnnouncement.answers true with
    | error e => rw [h] at hpack; cases hpack
    | ok ms =>
      rw [h] at hpack
      exact ⟨ms, rfl, Option.some.inj hpack, (packing_exact.1 _ _ _ h).1⟩
  · cases h : packetize longAnnouncement 65002 5000 hostStamp with
    | error e => rw [h] at hpacketize; cases hpacketize
    | ok out =>
      rw [h] at hpacketize
      obtain ⟨hlength, hall⟩ := Prod.mk.inj (Option.some.inj hpacketize)
      have htyped : ∀ r ∈ longAnnouncement.additional, isOpt r = true → r.kind = 41 := by decide
      obtain ⟨hsections, hparts⟩ :=
        packing_exact.2 longAnnouncement 65002 5000 hostStamp out htyped hostStamp_congr h
      refine ⟨out, rfl, hlength, hsections .answers, fun p hp => ⟨(hparts p hp).1, ?_⟩⟩
      obtain ⟨stamps, hstamps, hget⟩ := (hparts p hp).2.1
      refine ⟨stamps, hstamps, ?_⟩
      rw [hget stampedHost (concerns_of_concernsHost (List.all_eq_true.1 hall p hp))]
      decide

/-- An announcement of the address of a host. -/
def announcement : Message :=
  { Message.new 0 0x8400 with
    answers := [⟨stampedHost, 1, 0x8001, 120, .a (Ipv4Addr.new 192 0 2 1)⟩] }

/-- The stamp that a peer reads in some message for the host, if a record of it is there. -/
def readStamp (now : Nat) (p : Message) : Option Stamp :=
  if concernsHost p then
    (extract p 65002 now).toOption.bind fun stamps => stamps.get stampedHost
  else none

/-- Eight days after its registration a host is announced as registered seven days ago. The age in
the option is at most a week, so the stamp that is read back is younger than the one that was put
in. -/
theorem packetize_old_stamp : ∃ out p stamps s s',
    packetize announcement 65002 691200000 hostStamp = .ok out ∧ p ∈ out ∧
      extract p 65002 691200000 = .ok stamps ∧ Concerns p stampedHost ∧
      hostStamp stampedHost = some s ∧ stamps.get stampedHost = some s' ∧
      (691200000 - s.receivedAt) / 1000 = 691200 ∧ (691200000 - s'.receivedAt) / 1000 = 604800 := by
  have hread : ((packetize announcement 65002 691200000 hostStamp).toOption.bind fun out =>
      out.findSome? (readStamp 691200000)) = some ⟨7, 86400000⟩ := by decide +kernel
  obtain ⟨out, hout, hfind⟩ := Option.bind_eq_some_iff.1 hread
  obtain ⟨p, hp, hp'⟩ := List.exists_of_findSome?_eq_some hfind
  unfold readStamp at hp'
  split at hp'
  · next hconcerns =>
    obtain ⟨stamps, hstamps, hget⟩ := Option.bind_eq_some_iff.1 hp'
    have hok {α : Type} {e : Except IoError α} {a : α} (h : e.toOption = some a) : e = .ok a := by
      cases e with
      | error e => cases h
      | ok b => cases h; rfl
    exact ⟨out, p, stamps, ⟨7, 0⟩, ⟨7, 86400000⟩, hok hout, hp, hok hstamps,
      concerns_of_concernsHost hconcerns, by decide +kernel, hget, by decide, by decide⟩
  · cases hp'

end SnacMachine.Mdns
